import RustX.Todo.Published

/-!
The task list a conversation works on: mutations stage a list for the batch that holds it,
and a batch settles what its own committed results published.
-/
namespace RustX.Todo

open Checked Conversation List

structure StagedTodos where
  batch : Nat
  snapshot : TodoSnapshot
  deriving DecidableEq

/-- `opened` is the batch that may write; the source calls it `open`. -/
structure TodoListState where
  committed : TodoSnapshot
  staged : Option StagedTodos
  opened : Option Nat
  nextBatch : Nat
  deriving DecidableEq

inductive TodoMutationError
  | blankSubject
  | unknownTask (id : Nat)
  | unknownDependency (field : String) (id : Nat)
  | deletedDependency (field : String) (id : Nat)
  | selfBlock (id : Nat)
  | dependencyCycle
  | emptyUpdate
  | illegalTransition (source target : TodoStatus)
  | alreadyDeleted (id : Nat)
  | allocatorExhausted
  | unpublishable (error : TodoSnapshotError)
  | batchClosed
  deriving DecidableEq

structure TodoCreate where
  subject : String
  description : Option String := none
  activeForm : Option String := none
  owner : Option String := none
  blockedBy : List Nat := []
  metadata : Option Metadata := none

structure TodoChange where
  subject : Option String := none
  description : Option String := none
  activeForm : Option String := none
  owner : Option String := none
  status : Option TodoStatus := none
  addBlockedBy : List Nat := []
  removeBlockedBy : List Nat := []
  metadata : Option Metadata := none

def TodoChange.isEmpty (change : TodoChange) : Bool :=
  change.subject.isNone && change.description.isNone && change.activeForm.isNone &&
    change.owner.isNone && change.status.isNone && change.addBlockedBy.isEmpty &&
    change.removeBlockedBy.isEmpty && change.metadata.isNone

structure TodoUpdate where
  task : TodoTask
  previousStatus : Option TodoStatus
  unchanged : Bool
  deriving DecidableEq

/-- `Vec::dedup`: an element equal to the one before it is dropped. -/
def dedup : List Nat → List Nat
  | first :: second :: rest =>
    if first = second then dedup (second :: rest) else first :: dedup (second :: rest)
  | ids => ids

def normalizeIds (ids : List Nat) : List Nat :=
  dedup (ids.insertionSort (· ≤ ·))

/-- A `null` removes its key; an emptied record is dropped. -/
def mergeMetadata (current : Option Metadata) (patch : Metadata) : Option Metadata :=
  let merged := patch.foldl (fun merged (key, value) =>
    if value = .null then merged.filter fun entry => entry.1 ≠ key
    else Assoc.insert key value merged) (current.getD [])
  if merged.isEmpty then none else some merged

namespace TodoSnapshot

def checkDependency (snapshot : TodoSnapshot) (field : String) (id : Nat) :
    Except TodoMutationError Unit :=
  match snapshot.task id with
  | none => .error (.unknownDependency field id)
  | some task =>
    if task.status = .deleted then .error (.deletedDependency field id) else .ok ()

def locate (snapshot : TodoSnapshot) (id : Nat) : Except TodoMutationError (TodoTask × Nat) :=
  match snapshot.tasks.zipIdx.find? fun entry => entry.1.id = id with
  | none => .error (.unknownTask id)
  | some entry => .ok entry

/-- `create` of a non-blank subject, on the list the batch works on. -/
def created (spec : TodoCreate) (subject : String) (next : TodoSnapshot) :
    Except TodoMutationError (TodoTask × TodoSnapshot) := do
  let blockedBy := normalizeIds spec.blockedBy
  forM blockedBy (next.checkDependency "blocked_by")
  let task : TodoTask :=
    { id := next.nextId
      subject
      description := spec.description
      activeForm := spec.activeForm
      status := .pending
      blockedBy
      owner := spec.owner
      metadata := spec.metadata.filter fun metadata => !metadata.isEmpty }
  require (next.nextId + 1 < 2 ^ 64) .allocatorExhausted
  return (task, { tasks := next.tasks ++ [task], nextId := next.nextId + 1 })

/-- The fields a change sets, its dependencies apart. -/
def patched (change : TodoChange) (current : TodoTask) : Except TodoMutationError TodoTask := do
  whenSome change.status fun status =>
    require (current.status.canTransitionTo status) (.illegalTransition current.status status)
  whenSome change.subject fun subject => require (!(trim subject).isEmpty) .blankSubject
  return { current with
    status := change.status.getD current.status
    subject := (change.subject.map trim).getD current.subject
    description := change.description.or current.description
    activeForm := change.activeForm.or current.activeForm
    owner := change.owner.or current.owner
    metadata := change.metadata.elim current.metadata (mergeMetadata current.metadata) }

/-- `update` with a change that requests something. -/
def updated (id : Nat) (change : TodoChange) (next : TodoSnapshot) :
    Except TodoMutationError (TodoUpdate × TodoSnapshot) := do
  let (current, position) ← next.locate id
  let task ← patched change current
  forM change.addBlockedBy fun added => do
    require (added != id) (.selfBlock id)
    next.checkDependency "add_blocked_by" added
  let kept := task.blockedBy.filter fun existing => !change.removeBlockedBy.contains existing
  let task := { task with blockedBy := normalizeIds (kept ++ change.addBlockedBy) }
  require (!(!change.addBlockedBy.isEmpty && next.closesCycle task)) .dependencyCycle
  let previousStatus := if task.status ≠ current.status then some current.status else none
  return ({ task, previousStatus, unchanged := task = current },
    { next with tasks := next.tasks.set position task })

def tombstoned (id : Nat) (next : TodoSnapshot) :
    Except TodoMutationError (TodoTask × TodoSnapshot) := do
  let (current, position) ← next.locate id
  require (current.status != .deleted) (.alreadyDeleted id)
  let task := { current with status := .deleted }
  return (task, { next with tasks := next.tasks.set position task })

def cleared (next : TodoSnapshot) : Except TodoMutationError (Nat × TodoSnapshot) :=
  .ok (next.tasks.length, .empty)

end TodoSnapshot

namespace TodoListState

def overSnapshot (committed : TodoSnapshot) : TodoListState where
  committed
  staged := none
  opened := none
  nextBatch := 1

def rebuilt (history : List MessageBlock) : Except TodoRebuildError TodoListState := do
  return overSnapshot (← recoveredSnapshot history)

section

variable (state : TodoListState)

variable (batch : Nat)

def workingFor : TodoSnapshot :=
  match state.staged with
  | some staged => if staged.batch = batch then staged.snapshot else state.committed
  | none => state.committed

def guard : Except TodoMutationError Unit :=
  require (state.opened == some batch) .batchClosed

def stage (next : TodoSnapshot) : Except TodoMutationError TodoSnapshot × TodoListState :=
  match next.validate with
  | .error error => (.error (.unpublishable error), state)
  | .ok () => (.ok next, { state with staged := some { batch, snapshot := next } })

/-- What every mutation does under the lock: check the batch, change the list it works on,
stage the outcome. -/
def mutate {α : Type} (state : TodoListState) (batch : Nat)
    (change : TodoSnapshot → Except TodoMutationError (α × TodoSnapshot)) :
    Except TodoMutationError (α × TodoSnapshot) × TodoListState :=
  match state.guard batch >>= fun _ => change (state.workingFor batch) with
  | .error error => (.error error, state)
  | .ok (made, next) =>
    let (staged, state) := state.stage batch next
    (staged.map (made, ·), state)

def create (spec : TodoCreate) :
    Except TodoMutationError (TodoTask × TodoSnapshot) × TodoListState :=
  let subject := trim spec.subject
  if subject.isEmpty then (.error .blankSubject, state)
  else state.mutate batch (TodoSnapshot.created spec subject)

def update (batch id : Nat) (change : TodoChange) :
    Except TodoMutationError (TodoUpdate × TodoSnapshot) × TodoListState :=
  if change.isEmpty then (.error .emptyUpdate, state)
  else state.mutate batch (TodoSnapshot.updated id change)

def delete (batch id : Nat) : Except TodoMutationError (TodoTask × TodoSnapshot) × TodoListState :=
  state.mutate batch (TodoSnapshot.tombstoned id)

def clear : Except TodoMutationError (Nat × TodoSnapshot) × TodoListState :=
  state.mutate batch TodoSnapshot.cleared

def snapshot : Except TodoMutationError TodoSnapshot := do
  state.guard batch
  return state.workingFor batch

/-- Nothing: a batch is open, or the allocator has no identity left. -/
def openBatch : Option (Nat × TodoListState) :=
  if state.opened.isSome then none
  else if state.nextBatch + 1 < 2 ^ 64 then
    some (state.nextBatch, { state with
      opened := some state.nextBatch, staged := none, nextBatch := state.nextBatch + 1 })
  else none

/-- The end of a token: what it still holds is released. -/
def dropBatch : TodoListState :=
  if state.opened = some batch then { state with opened := none, staged := none } else state

inductive TodoSettlement
  | installed | unchanged
  deriving DecidableEq

/-- The token is consumed: it is dropped once the list has moved. -/
def settle (blocks : List MessageBlock) : TodoSettlement × TodoListState :=
  let released := { state with opened := none, staged := none }
  match lastSnapshot blocks with
  | some (.ok published) =>
    (.installed, { released with committed := published }.dropBatch batch)
  | _ => (.unchanged, released.dropBatch batch)

end

end TodoListState

theorem trim_trim_ne (filled : trim text ≠ "") : trim (trim text) ≠ "" := by
  have blank : ∀ chars : List Char, (chars.dropWhile isWhitespace).reverse.dropWhile isWhitespace = [] →
      ∀ c ∈ chars, isWhitespace c = true := by
    intro chars dropped
    rw [dropWhile_eq_nil_iff] at dropped
    rw [← dropWhile_eq_nil_iff]
    by_contra rest
    have first := head_dropWhile_not isWhitespace rest
    rw [dropped _ (mem_reverse.mpr (head_mem rest))] at first
    cases first
  intro empty
  simp only [trim, String.toList_ofList, ne_eq] at filled empty
  rw [String.ofList_eq_empty_iff, reverse_eq_nil_iff] at filled empty
  -- the last character the first trim kept is no white space
  have last := head_dropWhile_not isWhitespace filled
  rw [blank _ empty _ (mem_reverse.mpr (head_mem filled))] at last
  cases last

theorem mem_dedup {id : Nat} : id ∈ dedup ids ↔ id ∈ ids := by
  fun_induction dedup ids with
  | case1 rest second ih => simp [ih]
  | case2 first second rest _ ih => simp [ih]
  | case3 ids _ => rfl

theorem dedup_pairwise {ids : List Nat} (sorted : ids.Pairwise (· ≤ ·)) :
    (dedup ids).Pairwise (· < ·) := by
  fun_induction dedup ids with
  | case1 rest second ih => exact ih sorted.of_cons
  | case2 first second rest differs ih =>
    refine pairwise_cons.mpr ⟨fun id member => ?_, ih sorted.of_cons⟩
    rw [mem_dedup] at member
    have smaller := rel_of_pairwise_cons sorted (mem_cons_self)
    rcases mem_cons.mp member with rfl | later
    · omega
    · have := rel_of_pairwise_cons sorted.of_cons later
      omega
  | case3 ids short =>
    match ids, short with
    | [], _ => exact .nil
    | [id], _ => exact pairwise_singleton _ _
    | first :: second :: rest, short => exact absurd rfl (short first second rest)

theorem mem_normalizeIds {id : Nat} : id ∈ normalizeIds ids ↔ id ∈ ids := by
  rw [normalizeIds, mem_dedup, mem_insertionSort]

theorem normalizeIds_pairwise (ids : List Nat) : (normalizeIds ids).Pairwise (· < ·) :=
  dedup_pairwise (pairwise_insertionSort _ ids)

namespace TodoStatus

theorem canTransitionTo_refl (status : TodoStatus) : status.canTransitionTo status = true := by
  cases status <;> rfl

theorem canTransitionTo_deleted (status : TodoStatus) : status.canTransitionTo .deleted = true := by
  cases status <;> rfl

end TodoStatus

/-- One mutation: a new generation starts, or every task stays, with a status reachable
from the one it had. -/
def Evolves (before after : TodoSnapshot) : Prop :=
  after = .empty ∨ ∀ task ∈ before.tasks, ∃ later ∈ after.tasks, later.id = task.id ∧
    task.status.canTransitionTo later.status = true

theorem Evolves.refl (snapshot : TodoSnapshot) : Evolves snapshot snapshot :=
  .inr fun task member => ⟨task, member, rfl, task.status.canTransitionTo_refl⟩

/-- The refusals that are not about what a rebuild would make of the list, and among those
the ones about a character. -/
def Refusal (error : TodoMutationError) : Prop :=
  ∀ reason, error = .unpublishable reason → TodoSnapshot.IsControl reason

/-- What a mutation makes of a sane list. -/
structure Advances (before after : TodoSnapshot) : Prop where
  sane : after.Sane
  bound : after.nextId < 2 ^ 64
  evolves : Evolves before after

namespace TodoSnapshot

variable {snapshot next : TodoSnapshot}

variable {task : TodoTask}

theorem mem_of_task {id : Nat} (found : snapshot.task id = some task) :
    task ∈ snapshot.tasks ∧ task.id = id :=
  ⟨mem_of_find?_eq_some found, by simpa using find?_some found⟩

theorem Sane.mem_dependencies (sane : snapshot.Sane) (member : task ∈ snapshot.tasks)
    (waits : blocker ∈ task.blockedBy) : blocker ∈ snapshot.dependencies task.id := by
  rwa [sane.dependencies_of_mem member]

theorem task_of_dependency {id : Nat} (waits : blocker ∈ snapshot.dependencies id) :
    ∃ task ∈ snapshot.tasks, task.id = id ∧ blocker ∈ task.blockedBy := by
  cases found : snapshot.task id with
  | none => simp [dependencies, found] at waits
  | some task =>
    obtain ⟨member, named⟩ := mem_of_task found
    exact ⟨task, member, named, by simpa [dependencies, found] using waits⟩

/-- One task put into a sane list closes no cycle unless it could reach itself. -/
theorem Sane.acyclic_put (sane : snapshot.Sane)
    (others : ∀ other ∈ next.tasks, other ≠ task → other ∈ snapshot.tasks ∧ other.id ≠ task.id)
    (open' : snapshot.closesCycle task = false) : Reach.Acyclic next.dependencies := by
  have kept : ∀ id, id ≠ task.id → ∀ blocker ∈ next.dependencies id,
      blocker ∈ snapshot.dependencies id := by
    intro id differs blocker waits
    obtain ⟨other, member, rfl, listed⟩ := task_of_dependency waits
    have old := others other member (fun same => differs (same ▸ rfl))
    exact sane.mem_dependencies old.1 listed
  apply sane.acyclic.change kept
  intro blocker waits path
  obtain ⟨other, member, named, listed⟩ := task_of_dependency waits
  have same : other = task := by
    by_contra differs
    exact (others other member differs).2 named
  have closes : snapshot.closesCycle task = true :=
    (closesCycle_iff snapshot task).mpr ⟨blocker, same ▸ listed, path⟩
  rw [open'] at closes
  cases closes

/-- A task of a sane list with the same identity may take its place. -/
theorem Sane.set (sane : snapshot.Sane) (found : snapshot.tasks[position]? = some current)
    (named : task.id = current.id) (subject : trim task.subject ≠ "")
    (known : ∀ blocker ∈ task.blockedBy, blocker ∈ snapshot.ids)
    (normalized : task.blockedBy.Pairwise (· < ·)) (open' : snapshot.closesCycle task = false) :
    { snapshot with tasks := snapshot.tasks.set position task : TodoSnapshot }.Sane := by
  have within := (List.getElem?_eq_some_iff.mp found).1
  have here := sane.dense position current found
  have ids : (snapshot.tasks.set position task).map TodoTask.id = snapshot.ids := by
    apply ext_getElem?
    intro index
    rw [TodoSnapshot.ids, getElem?_map, getElem?_map, getElem?_set]
    by_cases same : position = index
    · subst same
      simp only [within, if_true, found, Option.map_some, named]
    · simp [same]
  have each : ∀ other ∈ snapshot.tasks.set position task, other = task ∨ other ∈ snapshot.tasks :=
    fun other member => (mem_or_eq_of_mem_set member).symm
  have others : ∀ other ∈ snapshot.tasks.set position task, other ≠ task →
      other ∈ snapshot.tasks ∧ other.id ≠ task.id := by
    intro other member differs
    obtain ⟨index, placed⟩ := mem_iff_getElem?.mp member
    rw [getElem?_set] at placed
    by_cases same : position = index
    · simp only [same, if_true] at placed
      split at placed
      · exact absurd (Option.some.inj placed).symm differs
      · cases placed
    · rw [if_neg same] at placed
      have there := sane.dense index other placed
      exact ⟨mem_of_getElem? placed, by omega⟩
  refine ⟨?_, ?_, ?_, ?_, ?_, sane.acyclic_put others open'⟩
  · simpa using sane.allocator
  · intro index other placed
    rw [getElem?_set] at placed
    by_cases same : position = index
    · subst same
      simp only [within, if_true, Option.some.injEq] at placed
      rw [← placed, named, here]
    · rw [if_neg same] at placed
      exact sane.dense index other placed
  · intro other member
    rcases each other member with rfl | old
    · exact subject
    · exact sane.subjects other old
  · intro other member blocker waits
    show blocker ∈ (snapshot.tasks.set position task).map TodoTask.id
    rw [ids]
    rcases each other member with rfl | old
    · exact known blocker waits
    · exact sane.known other old blocker waits
  · intro other member
    rcases each other member with rfl | old
    · exact normalized
    · exact sane.normalized other old

/-- Nothing in the list leads to an id that is not allocated. -/
theorem Sane.reach_ids (sane : snapshot.Sane) {id : Nat} (listed : start ∈ snapshot.ids)
    (path : Relation.ReflTransGen (Reach.Edge snapshot.dependencies) start id) :
    id ∈ snapshot.ids := by
  induction path with
  | refl => exact listed
  | tail _ edge _ =>
    obtain ⟨task, member, -, waits⟩ := task_of_dependency edge
    exact sane.known task member _ waits

/-- A new task takes the next id, at the end of a sane list. -/
theorem Sane.push (sane : snapshot.Sane) (named : task.id = snapshot.nextId)
    (subject : trim task.subject ≠ "") (known : ∀ blocker ∈ task.blockedBy, blocker ∈ snapshot.ids)
    (normalized : task.blockedBy.Pairwise (· < ·)) :
    { tasks := snapshot.tasks ++ [task], nextId := snapshot.nextId + 1 : TodoSnapshot }.Sane := by
  have allocator := sane.allocator
  have fresh : snapshot.closesCycle task = false := by
    rw [← Bool.not_eq_true, closesCycle_iff]
    rintro ⟨blocker, waits, path⟩
    have := sane.id_lt (sane.reach_ids (known blocker waits) path)
    omega
  have each : ∀ other ∈ snapshot.tasks ++ [task], other ∈ snapshot.tasks ∨ other = task := by
    simp
  have others : ∀ other ∈ snapshot.tasks ++ [task], other ≠ task →
      other ∈ snapshot.tasks ∧ other.id ≠ task.id := by
    intro other member differs
    rcases each other member with old | same
    · have := sane.id_lt (mem_map_of_mem old)
      exact ⟨old, by omega⟩
    · exact absurd same differs
  refine ⟨?_, ?_, ?_, ?_, ?_, sane.acyclic_put others fresh⟩
  · simp [allocator]
  · intro index other placed
    rcases Nat.lt_or_ge index snapshot.tasks.length with within | beyond
    · rw [getElem?_append_left within] at placed
      exact sane.dense index other placed
    · rw [getElem?_append_right beyond, getElem?_singleton] at placed
      split at placed
      · cases placed
        omega
      · cases placed
  · intro other member
    rcases each other member with old | rfl
    · exact sane.subjects other old
    · exact subject
  · intro other member blocker waits
    have listed : blocker ∈ snapshot.ids := by
      rcases each other member with old | rfl
      · exact sane.known other old blocker waits
      · exact known blocker waits
    simp only [TodoSnapshot.ids, map_append, mem_append]
    exact .inl listed
  · intro other member
    rcases each other member with old | rfl
    · exact sane.normalized other old
    · exact normalized

theorem checkDependency_yields (field : String) (id : Nat) :
    Yields Refusal (fun _ => id ∈ snapshot.ids) (snapshot.checkDependency field id) := by
  unfold checkDependency
  split
  · exact nofun
  · rename_i task found
    obtain ⟨member, named⟩ := mem_of_task found
    split
    · exact nofun
    · exact named ▸ mem_map_of_mem member

theorem locate_yields (id : Nat) :
    Yields Refusal (fun entry => snapshot.tasks[entry.2]? = some entry.1 ∧ entry.1.id = id)
      (snapshot.locate id) := by
  unfold locate
  split
  · exact nofun
  · rename_i entry found
    refine ⟨mem_zipIdx_iff_getElem?.mp (mem_of_find?_eq_some found), ?_⟩
    simpa using find?_some found

theorem created_yields (sane : snapshot.Sane) (spec : TodoCreate) (filled : trim subject ≠ "") :
    Yields Refusal (fun made => Advances snapshot made.2) (created spec subject snapshot) := by
  refine (yields_forM fun id _ => checkDependency_yields "blocked_by" id).bind fun _ known => ?_
  refine (yields_require fun _ => nofun).bind fun _ room => ?_
  refine ⟨sane.push rfl filled known (normalizeIds_pairwise _), by simpa using room,
    .inr fun task member => ?_⟩
  exact ⟨task, mem_append_left _ member, rfl, task.status.canTransitionTo_refl⟩

/-- A task may replace one of the same identity whose status allows it. -/
theorem Evolves.set (found : snapshot.tasks[position]? = some current)
    (named : task.id = current.id) (allowed : current.status.canTransitionTo task.status = true) :
    Evolves snapshot { snapshot with tasks := snapshot.tasks.set position task } := by
  refine .inr fun other member => ?_
  obtain ⟨index, placed⟩ := mem_iff_getElem?.mp member
  have within := (List.getElem?_eq_some_iff.mp found).1
  by_cases same : position = index
  · subst same
    obtain rfl : current = other := Option.some.inj (found.symm.trans placed)
    refine ⟨task, mem_of_getElem? (i := position) ?_, named, allowed⟩
    simp [within]
  · refine ⟨other, mem_of_getElem? (i := index) ?_, rfl, other.status.canTransitionTo_refl⟩
    simpa [getElem?_set, same] using placed

/-- What a change does to one task before its dependencies. -/
structure Patched (current task : TodoTask) : Prop where
  id : task.id = current.id
  blockedBy : task.blockedBy = current.blockedBy
  allowed : current.status.canTransitionTo task.status = true
  subject : trim current.subject ≠ "" → trim task.subject ≠ ""

theorem patched_yields (change : TodoChange) (current : TodoTask) :
    Yields Refusal (Patched current) (patched change current) := by
  refine (yields_whenSome fun status _ => yields_require fun _ => nofun).bind fun _ allowed => ?_
  refine (yields_whenSome fun subject _ => yields_require fun _ => nofun).bind fun _ filled => ?_
  refine ⟨rfl, rfl, ?_, fun old => ?_⟩
  · cases requested : change.status with
    | none => simpa [requested] using current.status.canTransitionTo_refl
    | some status => simpa [requested] using allowed status requested
  · cases requested : change.subject with
    | none => simpa [requested] using old
    | some subject =>
      have kept := filled subject requested
      simpa [requested] using trim_trim_ne (by simpa using kept)

theorem updated_yields (sane : snapshot.Sane) (bound : snapshot.nextId < 2 ^ 64) (id : Nat)
    (change : TodoChange) :
    Yields Refusal (fun made => Advances snapshot made.2) (updated id change snapshot) := by
  refine (locate_yields id).bind fun (current, position) located => ?_
  obtain ⟨found, rfl⟩ := located
  have member := mem_of_getElem? found
  refine (patched_yields change current).bind fun task patch => ?_
  have added : ∀ blocker ∈ change.addBlockedBy, Yields Refusal (fun _ => blocker ∈ snapshot.ids)
      (do require (blocker != current.id) (.selfBlock current.id)
          snapshot.checkDependency "add_blocked_by" blocker) := fun blocker _ =>
    (yields_require fun _ => nofun).bind fun _ _ => checkDependency_yields _ _
  refine (yields_forM added).bind fun _ known => ?_
  refine (yields_require fun _ => nofun).bind fun _ open' => ?_
  have blockers : ∀ blocker ∈ normalizeIds (task.blockedBy.filter (fun existing =>
      !change.removeBlockedBy.contains existing) ++ change.addBlockedBy),
      blocker ∈ current.blockedBy ∨ blocker ∈ change.addBlockedBy := by
    intro blocker waits
    rw [mem_normalizeIds, mem_append, patch.blockedBy] at waits
    exact waits.imp_left mem_of_mem_filter
  refine ⟨sane.set found patch.id (patch.subject (sane.subjects current member)) ?_
    (normalizeIds_pairwise _) ?_, bound, Evolves.set found patch.id patch.allowed⟩
  · intro blocker waits
    rcases blockers blocker waits with old | new
    · exact sane.known current member blocker old
    · exact known blocker new
  · -- without new edges the task waits on no more than it did
    cases none : change.addBlockedBy with
    | cons first rest => simpa [none] using open'
    | nil =>
      have still := sane.not_closesCycle member
      rw [← Bool.not_eq_true, closesCycle_iff] at still ⊢
      rintro ⟨blocker, waits, path⟩
      rw [← none] at waits
      rcases blockers blocker waits with old | new
      · exact still ⟨blocker, old, patch.id ▸ path⟩
      · rw [none] at new
        cases new

theorem tombstoned_yields (sane : snapshot.Sane) (bound : snapshot.nextId < 2 ^ 64) (id : Nat) :
    Yields Refusal (fun made => Advances snapshot made.2) (tombstoned id snapshot) := by
  refine (locate_yields id).bind fun (current, position) located => ?_
  obtain ⟨found, rfl⟩ := located
  have member := mem_of_getElem? found
  refine (yields_require fun _ => nofun).bind fun _ _ => ?_
  have still : snapshot.closesCycle current = false := sane.not_closesCycle member
  exact ⟨sane.set found rfl (sane.subjects current member) (sane.known current member)
    (sane.normalized current member) still, bound,
    Evolves.set found rfl current.status.canTransitionTo_deleted⟩

theorem cleared_yields (snapshot : TodoSnapshot) :
    Yields Refusal (fun made => Advances snapshot made.2) (cleared snapshot) :=
  ⟨(validate_ok empty_publishable.valid).1, empty_publishable.bound, .inl rfl⟩

end TodoSnapshot

/-- What a tool call does through the writer of its batch. -/
inductive Call
  | create (spec : TodoCreate)
  | update (id : Nat) (change : TodoChange)
  | delete (id : Nat)
  | clear
  | snapshot

def Call.perform (call : Call) (batch : Nat) (state : TodoListState) :
    Except TodoMutationError TodoSnapshot × TodoListState :=
  match call with
  | .create spec => (state.create batch spec).map (·.map Prod.snd) id
  | .update task change => (state.update batch task change).map (·.map Prod.snd) id
  | .delete task => (state.delete batch task).map (·.map Prod.snd) id
  | .clear => (state.clear batch).map (·.map Prod.snd) id
  | .snapshot => (state.snapshot batch, state)

/-- A call is refused and leaves everything, or it belongs to the open batch and the list
it returns is the one the batch works on from then on. -/
def Performed (batch : Nat) (state : TodoListState) :
    Except TodoMutationError TodoSnapshot × TodoListState → Prop
  | (.error error, after) => after = state ∧ Refusal error
  | (.ok next, after) => state.opened = some batch ∧ next.Publishable ∧
      Evolves (state.workingFor batch) next ∧
      (after = { state with staged := some { batch, snapshot := next } } ∨
        after = state ∧ next = state.workingFor batch)

namespace TodoListState

variable {state : TodoListState}

theorem guard_yields (state : TodoListState) (batch : Nat) :
    Yields Refusal (fun _ => state.opened = some batch) (state.guard batch) :=
  (yields_require fun _ => nofun).mono fun _ same => by simpa using same

theorem stage_performed {next} (opened : state.opened = some batch)
    (advances : Advances (state.workingFor batch) next) :
    Performed batch state (state.stage batch next) := by
  have checked := advances.sane.validate.1
  unfold stage
  split
  · rename_i error refused
    rw [refused] at checked
    exact ⟨rfl, fun reason same => by cases same; exact checked⟩
  · rename_i valid
    exact ⟨opened, ⟨valid, advances.bound⟩, advances.evolves, .inl rfl⟩

theorem mutate_performed {α : Type}
    {change : TodoSnapshot → Except TodoMutationError (α × TodoSnapshot)}
    (yields : Yields Refusal (fun made => Advances (state.workingFor batch) made.2)
      (change (state.workingFor batch))) :
    Performed batch state ((state.mutate batch change).map (·.map Prod.snd) id) := by
  have outcome : Yields Refusal (fun made => state.opened = some batch ∧
      Advances (state.workingFor batch) made.2)
      (state.guard batch >>= fun _ => change (state.workingFor batch)) :=
    (state.guard_yields batch).bind fun _ opened => yields.mono fun _ made => ⟨opened, made⟩
  unfold mutate
  split
  · rename_i error refused
    rw [refused] at outcome
    exact ⟨rfl, outcome⟩
  · rename_i made next accepted
    rw [accepted] at outcome
    have staged := stage_performed outcome.1 outcome.2
    generalize state.stage batch next = result at staged ⊢
    obtain ⟨result, after⟩ := result
    cases result <;> exact staged

end TodoListState

open TodoListState

/-- What every call of a batch does to a list it may read. -/
theorem Call.performed (call : Call) {state : TodoListState} {batch : Nat}
    (readable : (state.workingFor batch).Publishable) :
    Performed batch state (call.perform batch state) := by
  have sane := (TodoSnapshot.validate_ok readable.valid).1
  cases call with
  | create spec =>
    simp only [perform, TodoListState.create]
    split
    · exact ⟨rfl, nofun⟩
    · rename_i filled
      have filled : trim spec.subject ≠ "" := by simpa using filled
      exact mutate_performed (TodoSnapshot.created_yields sane spec (trim_trim_ne filled))
  | update id change =>
    simp only [perform, TodoListState.update]
    split
    · exact ⟨rfl, nofun⟩
    · exact mutate_performed (TodoSnapshot.updated_yields sane readable.bound id change)
  | delete id => exact mutate_performed (TodoSnapshot.tombstoned_yields sane readable.bound id)
  | clear => exact mutate_performed (TodoSnapshot.cleared_yields _)
  | snapshot =>
    have guarded := state.guard_yields batch
    simp only [perform, TodoListState.snapshot]
    cases held : state.guard batch with
    | error error =>
      rw [held] at guarded
      exact ⟨rfl, guarded⟩
    | ok _ =>
      rw [held] at guarded
      exact ⟨guarded, readable, Evolves.refl _, .inr ⟨rfl, rfl⟩⟩

/-- The list of a conversation, the batch tokens that live, the lists the calls since the
newest batch was opened returned, and the results that became canonical. -/
structure System where
  list : TodoListState
  tokens : List Nat
  returned : List TodoSnapshot
  settled : List MessageBlock

namespace System

def starting (list : TodoListState) : System where
  list
  tokens := []
  returned := []
  settled := []

def openBatch (system : System) : System :=
  match system.list.openBatch with
  | none => system
  | some (batch, list) =>
    { system with list, tokens := batch :: system.tokens, returned := [] }

/-- A call through a writer of any batch, live or stale. -/
def call (system : System) (batch : Nat) (call : Call) : System :=
  let (result, list) := call.perform batch system.list
  { system with list, returned := system.returned ++ result.toOption.toList }

def settle (system : System) (batch : Nat) (blocks : List MessageBlock) : System :=
  { system with
    list := (system.list.settle batch blocks).2
    tokens := system.tokens.erase batch
    settled := system.settled ++ blocks }

def dropBatch (system : System) (batch : Nat) : System :=
  { system with list := system.list.dropBatch batch, tokens := system.tokens.erase batch }

end System

/-- Only a live token settles or is dropped, and what settles are the batch's own results. -/
inductive Step (system : System) : System → Prop
  | openBatch : Step system system.openBatch
  | call (batch : Nat) (call : Call) : Step system (system.call batch call)
  | settle (batch : Nat) (blocks : List MessageBlock) :
      batch ∈ system.tokens → Reports blocks system.returned →
      Step system (system.settle batch blocks)
  | dropBatch (batch : Nat) : batch ∈ system.tokens → Step system (system.dropBatch batch)

/-- `committed` is what history publishes, and an open batch works on the last list one of
its calls returned. -/
structure Follows (history : List MessageBlock) (system : System) : Prop where
  tokens : system.tokens = system.list.opened.toList
  committed : system.list.committed.Publishable
  recovered : recoveredSnapshot (history ++ system.settled) = .ok system.list.committed
  staged : ∀ staged, system.list.staged = some staged → staged.snapshot.Publishable
  returned : system.list.opened.isSome → ∀ snapshot ∈ system.returned,
    snapshot.Publishable ∧ Relation.ReflTransGen Evolves system.list.committed snapshot
  working : ∀ batch, system.list.opened = some batch →
    system.list.workingFor batch = system.returned.getLast?.getD system.list.committed

namespace Follows

section

variable (follows : Follows history system)
include follows

theorem readable (batch : Nat) : (system.list.workingFor batch).Publishable := by
  unfold workingFor
  split
  · rename_i staged held
    split
    · exact follows.staged staged held
    · exact follows.committed
  · exact follows.committed

theorem performed (batch : Nat) (call : Call) :
    Performed batch system.list (call.perform batch system.list) :=
  call.performed (follows.readable batch)

/-- The list an open batch works on came from the committed one, mutation by mutation. -/
theorem evolved (opened : system.list.opened = some batch) :
    Relation.ReflTransGen Evolves system.list.committed (system.list.workingFor batch) := by
  rw [follows.working batch opened]
  cases last : system.returned.getLast? with
  | none => exact .refl
  | some snapshot =>
    exact (follows.returned (by simp [opened]) snapshot (mem_of_getLast? last)).2

theorem openBatch : Follows history system.openBatch := by
  unfold System.openBatch TodoListState.openBatch
  cases opened : system.list.opened with
  | some batch => simpa using follows
  | none =>
    have none : system.tokens = [] := by simp [follows.tokens, opened]
    by_cases room : system.list.nextBatch + 1 < 2 ^ 64
    · simp only [Option.isSome_none, Bool.false_eq_true, if_false, if_pos room]
      exact ⟨by simp [none], follows.committed, follows.recovered, nofun,
        fun _ => nofun, fun batch _ => rfl⟩
    · simpa only [Option.isSome_none, Bool.false_eq_true, if_false, if_neg room] using follows

theorem call (batch : Nat) (call : Call) : Follows history (system.call batch call) := by
  have performed := follows.performed batch call
  unfold System.call
  generalize call.perform batch system.list = outcome at performed ⊢
  obtain ⟨result, list⟩ := outcome
  cases result with
  | error error =>
    obtain ⟨rfl, -⟩ := performed
    simpa [Except.toOption] using follows
  | ok next =>
    obtain ⟨opened, publishable, evolves, left⟩ := performed
    have working : ∀ other, list.opened = some other → list.workingFor other = next := by
      rcases left with rfl | ⟨rfl, rfl⟩
      · intro other held
        obtain rfl : batch = other := Option.some.inj (opened.symm.trans held)
        simp [workingFor]
      · intro other held
        rw [Option.some.inj (opened.symm.trans held)]
    have same : list.opened = system.list.opened ∧ list.committed = system.list.committed := by
      rcases left with rfl | ⟨rfl, -⟩ <;> exact ⟨rfl, rfl⟩
    refine ⟨?_, ?_, ?_, ?_, fun held => ?_, fun other held => ?_⟩
    · rw [same.1]
      exact follows.tokens
    · rw [same.2]
      exact follows.committed
    · rw [same.2]
      exact follows.recovered
    · intro staged held
      rcases left with rfl | ⟨rfl, -⟩
      · cases held
        exact publishable
      · exact follows.staged staged held
    · intro snapshot member
      rw [same.2]
      rcases mem_append.mp member with old | new
      · exact follows.returned (by simp [opened]) snapshot old
      · obtain rfl : snapshot = next := by simpa [Except.toOption] using new
        exact ⟨publishable, (follows.evolved opened).tail evolves⟩
    · rw [working other held]
      simp [Except.toOption]

/-- The end of the one live token leaves no batch. -/
theorem erase_token (live : batch ∈ system.tokens) :
    system.list.opened = some batch ∧ system.tokens.erase batch = [] := by
  rw [follows.tokens, Option.mem_toList] at live
  simp [follows.tokens, live]

theorem dropBatch (live : batch ∈ system.tokens) : Follows history (system.dropBatch batch) := by
  obtain ⟨opened, gone⟩ := follows.erase_token live
  simp only [System.dropBatch, TodoListState.dropBatch, if_pos opened, gone]
  exact ⟨rfl, follows.committed, follows.recovered, nofun, nofun, nofun⟩

/-- Settling installs the list of the last successful call, if there was one. -/
theorem settle_list (opened : system.list.opened = some batch)
    (reports : Reports blocks system.returned) :
    (system.list.settle batch blocks).2 = { system.list with
      opened := none, staged := none, committed := system.list.workingFor batch } := by
  have published := reports.lastSnapshot fun snapshot member =>
    (follows.returned (by simp [opened]) snapshot member).1
  rw [follows.working batch opened, TodoListState.settle, published]
  cases system.returned.getLast? <;> rfl

theorem settle (live : batch ∈ system.tokens) (reports : Reports blocks system.returned) :
    Follows history (system.settle batch blocks) := by
  obtain ⟨opened, gone⟩ := follows.erase_token live
  have published := reports.lastSnapshot fun snapshot member =>
    (follows.returned (by simp [opened]) snapshot member).1
  simp only [System.settle, follows.settle_list opened reports, gone]
  refine ⟨rfl, follows.readable batch, ?_, nofun, nofun, nofun⟩
  rw [← append_assoc, recoveredSnapshot, lastSnapshot_append, published,
    follows.working batch opened]
  cases system.returned.getLast? with
  | none => exact follows.recovered
  | some snapshot => rfl

theorem step (step : Step system later) : Follows history later := by
  cases step with
  | openBatch => exact follows.openBatch
  | call batch call => exact follows.call batch call
  | settle batch blocks live reports => exact follows.settle live reports
  | dropBatch batch live => exact follows.dropBatch live

/-- One step moves the committed list along mutations only. -/
theorem committed_evolves (step : Step system later) :
    Relation.ReflTransGen Evolves system.list.committed later.list.committed := by
  cases step with
  | openBatch =>
    have same : system.openBatch.list.committed = system.list.committed := by
      unfold System.openBatch TodoListState.openBatch
      split <;> rename_i result
      · rfl
      · split at result
        · cases result
        · split at result
          · cases result
            rfl
          · cases result
    rw [same]
  | call batch call =>
    have performed := follows.performed batch call
    have same : (system.call batch call).list.committed = system.list.committed := by
      unfold System.call
      generalize call.perform batch system.list = outcome at performed ⊢
      obtain ⟨result, list⟩ := outcome
      cases result with
      | error error => rw [performed.1]
      | ok next =>
        obtain ⟨-, -, -, rfl | ⟨rfl, -⟩⟩ := performed <;> rfl
    rw [same]
  | settle batch blocks live reports =>
    have opened := (follows.erase_token live).1
    simp only [System.settle, follows.settle_list opened reports]
    exact follows.evolved opened
  | dropBatch batch live =>
    simp only [System.dropBatch, TodoListState.dropBatch]
    split <;> exact .refl

end

end Follows

theorem rebuilt_follows (rebuilt : TodoListState.rebuilt history = .ok start) :
    Follows history (.starting start) := by
  simp only [TodoListState.rebuilt, bind_eq_ok_iff, pure_eq_ok_iff] at rebuilt
  obtain ⟨committed, recovered, rfl⟩ := rebuilt
  refine ⟨rfl, recoveredSnapshot_ok recovered, ?_, ?_, ?_, ?_⟩
  · simpa [System.starting, overSnapshot] using recovered
  all_goals simp [System.starting, overSnapshot]

end RustX.Todo
