import RustX.Todo.Snapshot

/-!
A task list as the content of a tool result, and the list a conversation's history
publishes: the one its newest successful `todo` result carries.
-/
namespace RustX.Todo

open Checked Conversation TodoSnapshot List
open Recovery (ToolExecutionStatus)

def optional (key : String) (value : Option Json) : List (String × Json) :=
  value.toList.map (key, ·)

def jsonId (id : Nat) : Json :=
  .number (.int id)

/-- What `Vec::is_empty` skips. -/
def nonEmpty (ids : List Nat) : Option Json :=
  if ids.isEmpty then none else some (.array (ids.map jsonId))

def TodoTask.jsonFields (task : TodoTask) : List (String × Json) :=
  optional "active_form" (task.activeForm.map .string) ++
  optional "blocked_by" (nonEmpty task.blockedBy) ++
  optional "description" (task.description.map .string) ++
  optional "id" (some (jsonId task.id)) ++
  optional "metadata" (task.metadata.map .object) ++
  optional "owner" (task.owner.map .string) ++
  optional "status" (some (.string task.status.asStr)) ++
  optional "subject" (some (.string task.subject))

def TodoTask.toJson (task : TodoTask) : Json :=
  .object task.jsonFields

def TodoSnapshot.toJson (snapshot : TodoSnapshot) : Json :=
  .object [("next_id", jsonId snapshot.nextId), ("tasks", .array (snapshot.tasks.map TodoTask.toJson))]

/-! ### Reading it back

`serde` reads a record from an object, or from an array in declaration order. The texts of
its refusals are left out. -/

/-- The fields a value gives for the record with these names, which may have no others. -/
def members (names : List String) : Json → Option (List (String × Json))
  | .object fields => if fields.all fun field => names.contains field.1 then some fields else none
  | .array items => if items.length ≤ names.length then some (names.zip items) else none
  | _ => none

def defaulted {α : Type} (fallback : α) (read : Json → Option α) : Option Json → Option α
  | none => some fallback
  | some value => read value

def nullable {α : Type} (read : Json → Option α) : Json → Option (Option α)
  | .null => some none
  | value => (read value).map some

def asObject : Json → Option Metadata
  | .object fields => some fields
  | _ => none

def asIds (value : Json) : Option (List Nat) :=
  value.asArray.bind fun items => items.mapM Json.asU64

namespace TodoStatus

def ofStr : String → Option TodoStatus
  | "pending" => some pending
  | "in_progress" => some inProgress
  | "completed" => some completed
  | "deleted" => some deleted
  | _ => none

/-- A unit variant is its name, or an object with the name and nothing. -/
def ofJson : Json → Option TodoStatus
  | .string name => ofStr name
  | .object [(name, .null)] => ofStr name
  | _ => none

@[simp] theorem ofStr_asStr (status : TodoStatus) : ofStr status.asStr = some status := by
  cases status <;> rfl

end TodoStatus

def TodoTask.ofJson (value : Json) : Option TodoTask := do
  let fields ← members ["id", "subject", "description", "active_form", "status", "blocked_by",
    "owner", "metadata"] value
  let id ← (fields.lookup "id").bind Json.asU64
  let subject ← (fields.lookup "subject").bind Json.asStr
  let description ← defaulted none (nullable Json.asStr) (fields.lookup "description")
  let activeForm ← defaulted none (nullable Json.asStr) (fields.lookup "active_form")
  let status ← (fields.lookup "status").bind TodoStatus.ofJson
  let blockedBy ← defaulted [] asIds (fields.lookup "blocked_by")
  let owner ← defaulted none (nullable Json.asStr) (fields.lookup "owner")
  let metadata ← defaulted none (nullable asObject) (fields.lookup "metadata")
  return { id, subject, description, activeForm, status, blockedBy, owner, metadata }

def asTasks (value : Json) : Option (List TodoTask) :=
  value.asArray.bind fun items => items.mapM TodoTask.ofJson

def TodoSnapshot.ofJson (value : Json) : Option TodoSnapshot := do
  let fields ← members ["tasks", "next_id"] value
  let tasks ← defaulted [] asTasks (fields.lookup "tasks")
  let nextId ← (fields.lookup "next_id").bind Json.asU64
  return { tasks, nextId }

section RoundTrip

@[simp] theorem lookup_optional (key wanted : String) (value : Option Json) :
    (optional key value).lookup wanted = if wanted = key then value else none := by
  cases value with
  | none => simp [optional]
  | some value =>
    rw [optional, Option.toList_some, map_cons, Assoc.lookup_cons_ite]
    by_cases same : wanted = key
    · simp [same]
    · simp [same]

theorem mem_keys_optional (member : field ∈ optional key value) : field.1 = key := by
  cases value with
  | none => simp [optional] at member
  | some value =>
    simp only [optional, Option.toList_some, map_cons, map_nil, mem_singleton] at member
    rw [member]

theorem asU64_jsonId {id : Nat} (bound : id < 2 ^ 64) : (jsonId id).asU64 = some id := by
  have within : (0 : Int) ≤ id ∧ (id : Int) < 2 ^ 64 := by omega
  rw [jsonId, Json.asU64, if_pos within, Int.toNat_natCast]

/-- Members read back one by one read back as a list. -/
theorem mapM_map_of_inverse {α : Type} {write : α → Json} {read : Json → Option α}
    {items : List α} (inverse : ∀ item ∈ items, read (write item) = some item) :
    (items.map write).mapM read = some items := by
  induction items with
  | nil => rfl
  | cons item items ih =>
    rw [map_cons, mapM_cons, inverse item mem_cons_self,
      ih fun other member => inverse other (.tail _ member)]
    rfl

theorem defaulted_nonEmpty {ids : List Nat} (bound : ∀ id ∈ ids, id < 2 ^ 64) :
    defaulted [] asIds (nonEmpty ids) = some ids := by
  cases ids with
  | nil => rfl
  | cons id ids =>
    have filled : nonEmpty (id :: ids) = some (.array ((id :: ids).map jsonId)) := rfl
    rw [filled, defaulted, asIds, Json.asArray, Option.bind_some]
    exact mapM_map_of_inverse fun other member => asU64_jsonId (bound other member)

theorem defaulted_text (text : Option String) :
    defaulted none (nullable Json.asStr) (text.map .string) = some text := by
  cases text <;> rfl

theorem defaulted_metadata (metadata : Option Metadata) :
    defaulted none (nullable asObject) (metadata.map .object) = some metadata := by
  cases metadata <;> rfl

theorem TodoTask.members_toJson (task : TodoTask) :
    members ["id", "subject", "description", "active_form", "status", "blocked_by", "owner",
      "metadata"] task.toJson = some task.jsonFields := by
  rw [TodoTask.toJson, members, if_pos]
  simp only [TodoTask.jsonFields, all_eq_true, mem_append]
  rintro field (((((((member | member) | member) | member) | member) | member) | member) | member)
    <;> rw [mem_keys_optional member] <;> decide

attribute [local simp] TodoTask.jsonFields lookup_append lookup_optional in
theorem TodoTask.ofJson_toJson {task : TodoTask} (identity : task.id < 2 ^ 64)
    (blockers : ∀ id ∈ task.blockedBy, id < 2 ^ 64) :
    TodoTask.ofJson task.toJson = some task := by
  have id : task.jsonFields.lookup "id" = some (jsonId task.id) := by simp
  have blockedBy : defaulted [] asIds (task.jsonFields.lookup "blocked_by") =
      some task.blockedBy := by
    simpa using defaulted_nonEmpty blockers
  have subject : task.jsonFields.lookup "subject" = some (.string task.subject) := by simp
  have status : task.jsonFields.lookup "status" = some (.string task.status.asStr) := by simp
  have description : task.jsonFields.lookup "description" = task.description.map .string := by simp
  have activeForm : task.jsonFields.lookup "active_form" = task.activeForm.map .string := by simp
  have owner : task.jsonFields.lookup "owner" = task.owner.map .string := by simp
  have metadata : task.jsonFields.lookup "metadata" = task.metadata.map .object := by simp
  simp only [TodoTask.ofJson, Option.bind_eq_bind, Option.bind_eq_some_iff]
  exact ⟨_, task.members_toJson, _, ⟨_, id, asU64_jsonId identity⟩, _, ⟨_, subject, rfl⟩, _,
    description ▸ defaulted_text _, _, activeForm ▸ defaulted_text _, _,
    ⟨_, status, TodoStatus.ofStr_asStr _⟩, _, blockedBy, _, owner ▸ defaulted_text _, _,
    metadata ▸ defaulted_metadata _, rfl⟩

theorem TodoSnapshot.Sane.id_lt {snapshot : TodoSnapshot} (sane : snapshot.Sane) {id : Nat}
    (member : id ∈ snapshot.ids) : id < snapshot.nextId := by
  obtain ⟨task, listed, rfl⟩ := mem_map.mp member
  obtain ⟨position, found⟩ := mem_iff_getElem?.mp listed
  have placed := sane.dense position task found
  have within := (List.getElem?_eq_some_iff.mp found).1
  have allocator := sane.allocator
  omega

/-- A list a mutation returned reads back as itself. -/
theorem TodoSnapshot.Sane.ofJson_toJson {snapshot : TodoSnapshot} (sane : snapshot.Sane)
    (bound : snapshot.nextId < 2 ^ 64) : ofJson snapshot.toJson = some snapshot := by
  have small : ∀ id ∈ snapshot.ids, id < 2 ^ 64 := fun id member =>
    (sane.id_lt member).trans bound
  have tasks : asTasks (.array (snapshot.tasks.map TodoTask.toJson)) = some snapshot.tasks := by
    rw [asTasks, Json.asArray, Option.bind_some]
    apply mapM_map_of_inverse
    intro task member
    apply TodoTask.ofJson_toJson (small _ (mem_map_of_mem member))
    exact fun id waits => small id (sane.known task member id waits)
  have known : members ["tasks", "next_id"] snapshot.toJson = some [("next_id", jsonId snapshot.nextId),
      ("tasks", .array (snapshot.tasks.map TodoTask.toJson))] := by
    rw [toJson, members, if_pos]
    simp
  have nextId : (jsonId snapshot.nextId).asU64 = some snapshot.nextId := asU64_jsonId bound
  simp only [ofJson, Option.bind_eq_bind, Option.bind_eq_some_iff]
  exact ⟨_, known, _, tasks, _, ⟨_, rfl, nextId⟩, rfl⟩

end RoundTrip

inductive TodoRebuildError
  | missing
  | undecodable
  | invalid (error : TodoSnapshotError)
  deriving DecidableEq

def todoToolId : ToolId := "tool-todo"

def jsonContent : ToolResultContent → Option Json
  | .json value => some value
  | _ => none

def decodeSnapshot (value : Json) : Except TodoRebuildError TodoSnapshot := do
  let snapshot ← match ofJson value with
    | some snapshot => .ok snapshot
    | none => .error .undecodable
  snapshot.validate.mapError .invalid
  return snapshot

/-- Nothing: the message is not a settled `todo` result. -/
def publishedSnapshot : MessageBlock → Option (Except TodoRebuildError TodoSnapshot)
  | .tool tool =>
    if tool.toolId ≠ todoToolId ∨ tool.result.status ≠ .success then none
    else match tool.result.content.findSome? jsonContent with
      | none => some (.error .missing)
      | some value => some (decodeSnapshot value)
  | _ => none

def lastSnapshot (history : List MessageBlock) : Option (Except TodoRebuildError TodoSnapshot) :=
  history.reverse.findSome? publishedSnapshot

def recoveredSnapshot (history : List MessageBlock) : Except TodoRebuildError TodoSnapshot :=
  (lastSnapshot history).getD (.ok .empty)

/-- A list that can be published and read back. -/
structure TodoSnapshot.Publishable (snapshot : TodoSnapshot) : Prop where
  valid : snapshot.validate = .ok ()
  bound : snapshot.nextId < 2 ^ 64

theorem TodoSnapshot.empty_publishable : empty.Publishable :=
  ⟨by decide +kernel, by decide⟩

variable {snapshot : TodoSnapshot}

theorem TodoSnapshot.ofJson_bound (read : ofJson value = some snapshot) :
    snapshot.nextId < 2 ^ 64 := by
  simp only [ofJson, Option.bind_eq_bind, Option.bind_eq_some_iff] at read
  obtain ⟨fields, -, tasks, -, nextId, ⟨number, -, unsigned⟩, made⟩ := read
  cases made
  unfold Json.asU64 at unsigned
  split at unsigned
  · split at unsigned
    · rename_i n within
      cases unsigned
      show n.toNat < 2 ^ 64
      omega
    · cases unsigned
  · cases unsigned

theorem decodeSnapshot_ok (decoded : decodeSnapshot value = .ok snapshot) :
    snapshot.Publishable := by
  unfold decodeSnapshot at decoded
  cases read : ofJson value with
  | none => simp [read] at decoded
  | some found =>
    simp only [read, ok_bind, bind_eq_ok_iff, mapError_eq_ok_iff, pure_eq_ok_iff] at decoded
    obtain ⟨_, valid, rfl⟩ := decoded
    exact ⟨valid, ofJson_bound read⟩

theorem decodeSnapshot_toJson (publishable : snapshot.Publishable) :
    decodeSnapshot snapshot.toJson = .ok snapshot := by
  have sane := (validate_ok publishable.valid).1
  rw [decodeSnapshot, sane.ofJson_toJson publishable.bound]
  simp only [ok_bind, publishable.valid]
  rfl

theorem publishedSnapshot_ok (published : publishedSnapshot message = some (.ok snapshot)) :
    snapshot.Publishable := by
  unfold publishedSnapshot at published
  split at published
  · split at published
    · cases published
    · split at published
      · cases published
      · exact decodeSnapshot_ok (Option.some.inj published)
  · cases published

theorem recoveredSnapshot_ok (recovered : recoveredSnapshot history = .ok snapshot) :
    snapshot.Publishable := by
  unfold recoveredSnapshot at recovered
  cases found : lastSnapshot history with
  | none =>
    rw [found] at recovered
    cases recovered
    exact empty_publishable
  | some published =>
    rw [found] at recovered
    simp only [Option.getD_some] at recovered
    obtain ⟨message, -, publishes⟩ := exists_of_findSome?_eq_some found
    exact publishedSnapshot_ok (recovered ▸ publishes)

theorem lastSnapshot_append (history later : List MessageBlock) :
    lastSnapshot (history ++ later) = (lastSnapshot later).or (lastSnapshot history) := by
  simp [lastSnapshot, findSome?_append]

/-- One settled `todo` result: the summary, then the complete list. -/
def settledContent (summary : String) (snapshot : TodoSnapshot) : List ToolResultContent :=
  [.text summary, .json snapshot.toJson]

/-- A message that reports a call that returned this list. -/
def ReportsSuccess (message : MessageBlock) (snapshot : TodoSnapshot) : Prop :=
  ∃ (tool : ToolMessageBlock) (summary : String), message = .tool tool ∧
    tool.toolId = todoToolId ∧ tool.result.status = .success ∧
    tool.result.content = settledContent summary snapshot

/-- Messages that report these successful calls in the order they ran, between messages
that publish no list: refused calls, and the results of other tools. -/
inductive Reports : List MessageBlock → List TodoSnapshot → Prop
  | nil : Reports [] []
  | success {message : MessageBlock} {snapshot : TodoSnapshot} {messages : List MessageBlock}
      {snapshots : List TodoSnapshot} :
      ReportsSuccess message snapshot → Reports messages snapshots →
      Reports (message :: messages) (snapshot :: snapshots)
  | other {message : MessageBlock} {messages : List MessageBlock}
      {snapshots : List TodoSnapshot} :
      publishedSnapshot message = none → Reports messages snapshots →
      Reports (message :: messages) snapshots

theorem ReportsSuccess.published {message : MessageBlock}
    (success : ReportsSuccess message snapshot) (publishable : snapshot.Publishable) :
    publishedSnapshot message = some (.ok snapshot) := by
  obtain ⟨tool, summary, rfl, tool_id, succeeded, content⟩ := success
  have carried : (settledContent summary snapshot).findSome? jsonContent =
      some snapshot.toJson := rfl
  simp [publishedSnapshot, tool_id, succeeded, content, carried, decodeSnapshot_toJson publishable]

/-- The newest list among the results of a batch is that of its last successful call. -/
theorem Reports.lastSnapshot {messages : List MessageBlock} {snapshots : List TodoSnapshot}
    (reports : Reports messages snapshots) (publishable : ∀ snapshot ∈ snapshots,
      snapshot.Publishable) :
    lastSnapshot messages = snapshots.getLast?.map .ok := by
  induction reports with
  | nil => rfl
  | @success message snapshot messages snapshots success _ ih =>
    have here : Todo.lastSnapshot [message] = some (.ok snapshot) := by
      simp [Todo.lastSnapshot, success.published (publishable _ mem_cons_self)]
    rw [← singleton_append, lastSnapshot_append, here,
      ih fun other member => publishable other (.tail _ member), getLast?_cons]
    cases snapshots.getLast? <;> rfl
  | @other message messages snapshots silent _ ih =>
    have here : Todo.lastSnapshot [message] = none := by
      simp [Todo.lastSnapshot, silent]
    rw [← singleton_append, lastSnapshot_append, here, ih publishable, Option.or_none]

end RustX.Todo
