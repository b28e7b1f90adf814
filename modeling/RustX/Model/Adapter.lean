import RustX.Library.Assoc
import RustX.Model.Event

/-!
What the provider adapters share: the acceptance boundary of tool proposals and
the allocation of canonical block indexes.
-/
namespace RustX

/-- `serde_json::from_str` into a value. -/
class JsonParser where
  parse : String → Except String Json

structure ValidatedTools where
  byName : List (String × ToolId)

def ValidatedTools.isEmpty (tools : ValidatedTools) : Bool :=
  tools.byName.isEmpty

def ValidatedTools.resolve (tools : ValidatedTools) (name : String) : Option ToolId :=
  tools.byName.lookup name

/-- The identity stage: the proposal becomes attributable, and no call exists yet. -/
def resolveToolIdentity (callId name : Option String) (tools : ValidatedTools) :
    Except ModelError ToolCallStart :=
  match callId.filter (· ≠ "") with
  | none => .error (.malformed .streamAssembly
      "the model tool proposal carries no usable invocation id")
  | some callId =>
    match name.filter (· ≠ "") with
    | none => .error (.malformed .streamAssembly
        s!"tool proposal {callId} carries no usable tool name")
    | some name =>
      match tools.resolve name with
      | none => .error (.malformed .adapterStructural
          s!"the model proposed the unknown tool name {debug name}")
      | some toolId => .ok { id := callId, toolId := toolId, name := name }

section Acceptance

variable [JsonParser]

/-- The acceptance stage: the argument text is parsed once and never repaired. -/
def acceptToolCallArguments (start : ToolCallStart) (arguments : String) :
    Except ModelError ToolCall :=
  match JsonParser.parse arguments with
  | .error error => .error (.malformed .adapterStructural
      (s!"tool proposal {debug start.name} ({start.id}) has a malformed argument " ++
        s!"representation: {error}"))
  | .ok value => .ok { id := start.id, toolId := start.toolId, name := start.name, arguments := value }

def acceptToolCall (callId name : Option String) (arguments : String) (tools : ValidatedTools) :
    Except ModelError ToolCall := do
  let start ← resolveToolIdentity callId name tools
  acceptToolCallArguments start arguments

end Acceptance

/-- A resolved proposal came with a name and with the id it keeps. -/
theorem resolveToolIdentity_id (resolved : resolveToolIdentity callId name tools = .ok start) :
    callId = some start.id ∧ name = some start.name := by
  unfold resolveToolIdentity at resolved
  split at resolved
  · cases resolved
  rename_i id usable
  split at resolved
  · cases resolved
  · rename_i known named
    split at resolved
    · cases resolved
    · cases resolved
      exact ⟨(Option.filter_eq_some_iff.mp usable).1, (Option.filter_eq_some_iff.mp named).1⟩

theorem acceptToolCallArguments_id [JsonParser]
    (accepted : acceptToolCallArguments start arguments = .ok call) : call.id = start.id := by
  unfold acceptToolCallArguments at accepted
  split at accepted
  · cases accepted
  · cases accepted
    rfl

theorem acceptToolCall_id [JsonParser]
    (accepted : acceptToolCall callId name arguments tools = .ok call) : callId = some call.id := by
  obtain ⟨start, resolved, finished⟩ := Checked.bind_eq_ok_iff.mp accepted
  rw [acceptToolCallArguments_id finished]
  exact (resolveToolIdentity_id resolved).1

/-- Canonical indexes in the order in which the provider's block keys first appear. -/
structure BlockAllocator (κ : Type) where
  map : List (κ × ContentBlockIndex)
  next : Nat
  sequential : map.map Prod.snd = List.range next
  distinct : (map.map Prod.fst).Nodup

namespace BlockAllocator

variable {κ : Type} [DecidableEq κ]

def new : BlockAllocator κ where
  map := []
  next := 0
  sequential := rfl
  distinct := .nil

def find (blocks : BlockAllocator κ) (key : κ) : Option ContentBlockIndex :=
  blocks.map.lookup key

def allocate (blocks : BlockAllocator κ) (key : κ) : ContentBlockIndex × BlockAllocator κ :=
  match known : blocks.map.lookup key with
  | some index => (index, blocks)
  | none => (blocks.next,
      { map := blocks.map ++ [(key, blocks.next)]
        next := blocks.next + 1
        sequential := by simp [blocks.sequential, List.range_succ]
        distinct := by
          have fresh : key ∉ blocks.map.map Prod.fst := by
            rw [← Assoc.lookup_isSome_iff, known]
            simp
          rw [List.map_append, List.nodup_append]
          refine ⟨blocks.distinct, by simp, ?_⟩
          rintro other member _ last rfl
          have same : other = key := by simpa using last
          exact fresh (same ▸ member) })

variable {blocks : BlockAllocator κ}

theorem find_lt (found : blocks.find key = some index) : index < blocks.next := by
  have member : index ∈ blocks.map.map Prod.snd :=
    List.mem_map.mpr ⟨_, Assoc.mem_of_lookup found, rfl⟩
  rwa [blocks.sequential, List.mem_range] at member

/-- Every index handed out so far belongs to a key. -/
theorem exists_find (below : index < blocks.next) : ∃ key, blocks.find key = some index := by
  rw [← List.mem_range, ← blocks.sequential] at below
  obtain ⟨⟨key, _⟩, member, rfl⟩ := List.mem_map.mp below
  exact ⟨key, Assoc.lookup_of_mem blocks.distinct member⟩

theorem find_injective (left : blocks.find first = some index)
    (right : blocks.find second = some index) : first = second := by
  have injective : (blocks.map.map Prod.snd).Nodup := by
    rw [blocks.sequential]
    exact List.nodup_range
  have same := List.inj_on_of_nodup_map injective (Assoc.mem_of_lookup left)
    (Assoc.mem_of_lookup right) rfl
  exact congrArg Prod.fst same

theorem allocate_of_find (found : blocks.find key = some index) :
    blocks.allocate key = (index, blocks) := by
  unfold allocate
  split
  · rename_i known
    rw [find, known] at found
    cases found
    rfl
  · rename_i unknown
    rw [find, unknown] at found
    cases found

/-- What the first appearance of a key changes. -/
theorem allocate_fresh (absent : blocks.find key = none) :
    (blocks.allocate key).1 = blocks.next ∧ (blocks.allocate key).2.next = blocks.next + 1 ∧
      ∀ other, (blocks.allocate key).2.find other =
        if other = key then some blocks.next else blocks.find other := by
  unfold allocate
  split
  · rename_i known
    rw [find, known] at absent
    cases absent
  refine ⟨rfl, rfl, ?_⟩
  intro other
  simp only [find, List.lookup_append, Assoc.lookup_cons_ite, List.lookup_nil]
  by_cases same : other = key
  · subst same
    rw [show blocks.map.lookup other = none from absent]
    simp
  · simp [same]

theorem find_allocate (blocks : BlockAllocator κ) (key : κ) :
    (blocks.allocate key).2.find key = some (blocks.allocate key).1 := by
  cases found : blocks.find key with
  | some index => rw [allocate_of_find found, found]
  | none =>
    obtain ⟨index, _, lookup⟩ := allocate_fresh found
    rw [lookup, if_pos rfl, index]

theorem find_allocate_of_find (found : blocks.find other = some index) (key : κ) :
    (blocks.allocate key).2.find other = some index := by
  cases known : blocks.find key with
  | some _ => rwa [allocate_of_find known]
  | none =>
    obtain ⟨-, -, lookup⟩ := allocate_fresh known
    rw [lookup, if_neg, found]
    rintro rfl
    rw [known] at found
    cases found

end BlockAllocator

end RustX
