import RustX.Conversation.Message
import RustX.Library.Reach

/-!
The task list of a conversation as it is published: its tasks, the check that a list is
one the mutations could have made, and its form as the content of a tool result.
-/
namespace RustX.Todo

open Checked Conversation List

inductive TodoStatus
  | pending | inProgress | completed | deleted
  deriving DecidableEq

namespace TodoStatus

def asStr : TodoStatus → String
  | pending => "pending"
  | inProgress => "in_progress"
  | completed => "completed"
  | deleted => "deleted"

/-- Completed work may only be tombstoned, and a tombstone is terminal. -/
def canTransitionTo : TodoStatus → TodoStatus → Bool
  | deleted, target => target == deleted
  | completed, target => target == completed || target == deleted
  | pending, _ | inProgress, _ => true

end TodoStatus

abbrev Metadata := List (String × Json)

structure TodoTask where
  id : Nat
  subject : String
  description : Option String
  activeForm : Option String
  status : TodoStatus
  blockedBy : List Nat
  owner : Option String
  metadata : Option Metadata
  deriving DecidableEq

structure TodoSnapshot where
  tasks : List TodoTask
  nextId : Nat
  deriving DecidableEq

def isControl (c : Char) : Bool :=
  let n := c.toNat
  n < 0x20 || (0x7f ≤ n && n ≤ 0x9f)

/-- Unicode `Bidi_Control`. -/
def isBidiControl (c : Char) : Bool :=
  let n := c.toNat
  n == 0x61c || n == 0x200e || n == 0x200f || (0x202a ≤ n && n ≤ 0x202e) ||
    (0x2066 ≤ n && n ≤ 0x2069)

def forbiddenControl (value : String) (multiline : Bool) : Option Char :=
  value.toList.find? fun c => !(multiline && c == '\n') && (isControl c || isBidiControl c)

mutual

def jsonControl : Json → Option Char
  | .string text => forbiddenControl text false
  | .array items => itemsControl items
  | .object fields => metadataControl fields
  | _ => none

def itemsControl : List Json → Option Char
  | [] => none
  | item :: items => (jsonControl item).or (itemsControl items)

/-- The first forbidden character of a record, keys included. -/
def metadataControl : List (String × Json) → Option Char
  | [] => none
  | (key, value) :: fields =>
    ((forbiddenControl key false).or (jsonControl value)).or (metadataControl fields)

end

namespace TodoTask

/-- The texts a model writes, with whether they may span lines. -/
def textFields (task : TodoTask) : List (String × String × Bool) :=
  ("subject", task.subject, false) :: (task.activeForm.toList.map (("active_form", ·, false)) ++
      task.owner.toList.map (("owner", ·, false)) ++
      task.description.toList.map (("description", ·, true)))

end TodoTask

inductive TodoSnapshotError
  | unusableAllocator
  | duplicateId (id : Nat)
  | unallocatedId (id nextId : Nat)
  | outOfCreationOrder (position id expected : Nat)
  | allocatorAhead (nextId tasks : Nat)
  | blankSubject (id : Nat)
  | controlCharacter (id : Nat) (field : String) (codepoint : Nat)
  | selfBlock (id : Nat)
  | unknownDependency (id blocker : Nat)
  | unnormalizedDependencies (id : Nat)
  | dependencyCycle (id : Nat)
  deriving DecidableEq

namespace TodoSnapshot

def empty : TodoSnapshot where
  tasks := []
  nextId := 1

section

variable (snapshot : TodoSnapshot)

def ids : List Nat :=
  snapshot.tasks.map TodoTask.id

def task (snapshot : TodoSnapshot) (id : Nat) : Option TodoTask :=
  snapshot.tasks.find? fun task => task.id = id

/-- What a task waits on; an id no task carries waits on nothing. -/
def dependencies (id : Nat) : List Nat :=
  ((snapshot.task id).map TodoTask.blockedBy).getD []

/-- Whether `candidate` can reach itself through the graph it would create. The last
dependency is taken first; there is fuel for every edge. -/
def closesCycle (candidate : TodoTask) : Bool :=
  let frontier := candidate.blockedBy.reverse
  let fuel := Reach.pops snapshot.dependencies snapshot.ids.dedup frontier []
  (Reach.search snapshot.dependencies candidate.id fuel frontier []).getD false

def refuseControl (id : Nat) (field : String) (found : Option Char) :
    Except TodoSnapshotError Unit :=
  whenSome found fun c => .error (.controlCharacter id field c.toNat)

def checkIdentity (nextId position : Nat) (seen : List Nat) (task : TodoTask) :
    Except TodoSnapshotError Unit := do
  require (!seen.contains task.id) (.duplicateId task.id)
  require (!(task.id == 0 || decide (nextId ≤ task.id))) (.unallocatedId task.id nextId)
  require (task.id == position + 1) (.outOfCreationOrder position task.id (position + 1))
  require (!(trim task.subject).isEmpty) (.blankSubject task.id)

def checkTexts (task : TodoTask) : Except TodoSnapshotError Unit := do
  forM task.textFields fun (field, value, multiline) =>
    refuseControl task.id field (forbiddenControl value multiline)
  refuseControl task.id "metadata" (task.metadata.bind metadataControl)

def checkTasks (nextId : Nat) : Nat → List Nat → List TodoTask → Except TodoSnapshotError Unit
  | _, _, [] => .ok ()
  | position, seen, task :: tasks => do
    checkIdentity nextId position seen task
    checkTexts task
    checkTasks nextId (position + 1) (task.id :: seen) tasks

def ascending : List Nat → Bool
  | first :: second :: rest => decide (first < second) && ascending (second :: rest)
  | _ => true

def checkDependencies (task : TodoTask) : Except TodoSnapshotError Unit := do
  forM task.blockedBy fun blocker => do
    require (blocker != task.id) (.selfBlock task.id)
    require (snapshot.ids.contains blocker) (.unknownDependency task.id blocker)
  require (ascending task.blockedBy) (.unnormalizedDependencies task.id)
  require (!snapshot.closesCycle task) (.dependencyCycle task.id)

def validate : Except TodoSnapshotError Unit := do
  require (snapshot.nextId != 0) .unusableAllocator
  checkTasks snapshot.nextId 0 [] snapshot.tasks
  require (snapshot.nextId == snapshot.tasks.length + 1)
    (.allocatorAhead snapshot.nextId snapshot.tasks.length)
  forM snapshot.tasks snapshot.checkDependencies

end

/-- A list as mutations make it: ids are dense and below the allocator, every task has a
subject, and the dependencies exist, are normalized and close no cycle. -/
structure Sane (snapshot : TodoSnapshot) : Prop where
  allocator : snapshot.nextId = snapshot.tasks.length + 1
  dense : ∀ position task, snapshot.tasks[position]? = some task → task.id = position + 1
  subjects : ∀ task ∈ snapshot.tasks, trim task.subject ≠ ""
  known : ∀ task ∈ snapshot.tasks, ∀ blocker ∈ task.blockedBy, blocker ∈ snapshot.ids
  normalized : ∀ task ∈ snapshot.tasks, task.blockedBy.Pairwise (· < ·)
  acyclic : Reach.Acyclic snapshot.dependencies

end TodoSnapshot

structure TodoTask.Printable (task : TodoTask) : Prop where
  texts : ∀ field ∈ task.textFields, forbiddenControl field.2.1 field.2.2 = none
  metadata : task.metadata.bind metadataControl = none

namespace TodoSnapshot

variable {snapshot : TodoSnapshot}

@[simp] theorem refuseControl_eq_ok_iff {id : Nat} :
    refuseControl id field found = .ok done ↔ found = none := by
  cases found <;> simp [refuseControl, whenSome]

theorem ascending_iff (ids : List Nat) : ascending ids = true ↔ ids.Pairwise (· < ·) := by
  rw [← isChain_iff_pairwise]
  induction ids with
  | nil => simp [ascending]
  | cons first rest ih =>
    cases rest with
    | nil => simp [ascending]
    | cons second rest => simp [ascending, ih]

variable {task : TodoTask}

theorem Sane.task_of_mem (sane : snapshot.Sane) (member : task ∈ snapshot.tasks) :
    snapshot.task task.id = some task := by
  have distinct : snapshot.ids.Nodup := by
    rw [ids, nodup_iff_getElem?_ne_getElem?]
    intro first second ordered within same
    rw [length_map] at within
    have before : first < snapshot.tasks.length := by omega
    rw [getElem?_map, getElem?_map, getElem?_eq_getElem before, getElem?_eq_getElem within] at same
    have one := sane.dense first _ (getElem?_eq_getElem before)
    have two := sane.dense second _ (getElem?_eq_getElem within)
    simp only [Option.map_some, Option.some.injEq] at same
    omega
  exact Assoc.find?_of_mem distinct member rfl

theorem dependencies_of_absent {id : Nat} (absent : id ∉ snapshot.ids) :
    snapshot.dependencies id = [] := by
  have none : snapshot.task id = none := by
    rw [task, find?_eq_none]
    intro other member
    simpa using fun same => absent (mem_map.mpr ⟨other, member, same⟩)
  simp [dependencies, none]

theorem Sane.dependencies_of_mem (sane : snapshot.Sane) (member : task ∈ snapshot.tasks) :
    snapshot.dependencies task.id = task.blockedBy := by
  simp [dependencies, sane.task_of_mem member]

/-- The search says whether the candidate is reached from what it waits on. -/
theorem closesCycle_iff (snapshot : TodoSnapshot) (candidate : TodoTask) :
    snapshot.closesCycle candidate = true ↔ ∃ blocker ∈ candidate.blockedBy,
      Relation.ReflTransGen (Reach.Edge snapshot.dependencies) blocker candidate.id := by
  have leaf : ∀ node, node ∉ snapshot.ids.dedup → snapshot.dependencies node = [] := by
    intro node absent
    exact dependencies_of_absent (by simpa using absent)
  have decides : _ ↔ ∃ node ∈ candidate.blockedBy.reverse,
      Relation.ReflTransGen (Reach.Edge snapshot.dependencies) node candidate.id :=
    Reach.search_eq_true_iff (nodup_dedup snapshot.ids) leaf (le_refl _)
  simp only [mem_reverse] at decides
  rw [← decides, closesCycle]
  cases Reach.search snapshot.dependencies candidate.id _ candidate.blockedBy.reverse [] with
  | none => simp
  | some found => simp

theorem Sane.not_closesCycle (sane : snapshot.Sane) (member : task ∈ snapshot.tasks) :
    snapshot.closesCycle task = false := by
  rw [← Bool.not_eq_true, closesCycle_iff]
  rintro ⟨blocker, waits, path⟩
  have edge : Reach.Edge snapshot.dependencies task.id blocker := by
    rw [Reach.Edge, sane.dependencies_of_mem member]
    exact waits
  exact sane.acyclic _ (.head' edge path)

theorem checkIdentity_eq_ok_iff {nextId : Nat} (earlier : ∀ id ∈ seen, id ≤ position) :
    checkIdentity nextId position seen task = .ok done ↔
      task.id = position + 1 ∧ task.id < nextId ∧ trim task.subject ≠ "" := by
  simp only [checkIdentity, bind_eq_ok_iff, require_eq_ok_iff, exists_and_left, exists_const,
    Bool.not_eq_true', contains_eq_mem, decide_eq_false_iff_not, Bool.or_eq_false_iff,
    beq_eq_false_iff_ne, beq_iff_eq, not_le, ne_eq, String.isEmpty_eq_false_iff]
  constructor
  · rintro ⟨-, ⟨-, bound⟩, here, subject⟩
    exact ⟨here, bound, subject⟩
  · rintro ⟨here, bound, subject⟩
    refine ⟨fun member => ?_, ⟨by omega, bound⟩, here, subject⟩
    have := earlier _ member
    omega

theorem checkTexts_eq_ok_iff {done : Unit} : checkTexts task = .ok done ↔ task.Printable := by
  simp only [checkTexts, bind_eq_ok_iff, forM_eq_ok_iff, refuseControl_eq_ok_iff]
  constructor
  · rintro ⟨_, texts, metadata⟩
    exact ⟨texts, metadata⟩
  · rintro ⟨texts, metadata⟩
    exact ⟨(), texts, metadata⟩

/-- An error that is about a character, not about ids, dependencies or cycles. -/
def IsControl (error : TodoSnapshotError) : Prop :=
  ∃ id field codepoint, error = .controlCharacter id field codepoint

theorem refuseControl_yields (id : Nat) (field : String) (found : Option Char) :
    Yields IsControl (fun _ => True) (refuseControl id field found) := by
  cases found with
  | none => trivial
  | some c => exact ⟨id, field, c.toNat, rfl⟩

theorem checkTexts_yields (task : TodoTask) :
    Yields IsControl (fun _ => True) (checkTexts task) := by
  have each : ∀ field ∈ task.textFields, Yields IsControl (fun _ => True)
      (refuseControl task.id field.1 (forbiddenControl field.2.1 field.2.2)) :=
    fun field _ => refuseControl_yields _ _ _
  exact (yields_forM each).bind fun _ _ => refuseControl_yields _ _ _

/-- Where a task of a dense list stands, with the ids before it. -/
theorem seen_le (earlier : ∀ id ∈ seen, id ≤ position) (here : task.id = position + 1) :
    ∀ id ∈ task.id :: seen, id ≤ position + 1 := by
  intro id member
  rcases mem_cons.mp member with rfl | member
  · omega
  · have := earlier id member
    omega

theorem checkTasks_ok {nextId : Nat} {tasks : List TodoTask} (earlier : ∀ id ∈ seen, id ≤ position)
    (checked : checkTasks nextId position seen tasks = .ok ()) :
    (∀ index task, tasks[index]? = some task → task.id = position + index + 1) ∧
      ∀ task ∈ tasks, trim task.subject ≠ "" ∧ task.Printable := by
  induction tasks generalizing position seen with
  | nil => simp
  | cons task tasks ih =>
    simp only [checkTasks, bind_eq_ok_iff] at checked
    obtain ⟨_, identity, _, texts, later⟩ := checked
    obtain ⟨here, -, subject⟩ := (checkIdentity_eq_ok_iff earlier).mp identity
    obtain ⟨placed, each⟩ := ih (seen_le earlier here) later
    constructor
    · intro index other found
      cases index with
      | zero =>
        cases found
        omega
      | succ index =>
        have := placed index other found
        omega
    · intro other member
      rcases mem_cons.mp member with rfl | member
      · exact ⟨subject, checkTexts_eq_ok_iff.mp texts⟩
      · exact each other member

/-- A dense list of tasks with subjects is refused for its characters only, and accepted
when they are all allowed. -/
theorem checkTasks_yields {nextId : Nat} {tasks : List TodoTask}
    (earlier : ∀ id ∈ seen, id ≤ position) (room : position + tasks.length < nextId)
    (placed : ∀ index task, tasks[index]? = some task → task.id = position + index + 1)
    (subjects : ∀ task ∈ tasks, trim task.subject ≠ "") :
    Yields IsControl (fun _ => True) (checkTasks nextId position seen tasks) ∧
      ((∀ task ∈ tasks, task.Printable) → checkTasks nextId position seen tasks = .ok ()) := by
  induction tasks generalizing position seen with
  | nil => exact ⟨trivial, fun _ => rfl⟩
  | cons task tasks ih =>
    rw [length_cons] at room
    have here : task.id = position + 1 := placed 0 task rfl
    have identity : checkIdentity nextId position seen task = .ok () :=
      (checkIdentity_eq_ok_iff earlier).mpr ⟨here, by omega, subjects task mem_cons_self⟩
    obtain ⟨yields, accepted⟩ := ih (seen_le earlier here) (by omega)
      (fun index other found => by
        have := placed (index + 1) other found
        omega)
      (fun other member => subjects other (.tail _ member))
    rw [checkTasks, identity, ok_bind]
    refine ⟨(checkTexts_yields task).bind fun _ _ => yields, fun printable => ?_⟩
    have texts : checkTexts task = .ok () := checkTexts_eq_ok_iff.mpr (printable task mem_cons_self)
    rw [texts, ok_bind]
    exact accepted fun other member => printable other (.tail _ member)

theorem checkDependencies_ok (checked : snapshot.checkDependencies task = .ok ()) :
    (∀ blocker ∈ task.blockedBy, blocker ∈ snapshot.ids) ∧ task.blockedBy.Pairwise (· < ·) ∧
      snapshot.closesCycle task = false := by
  simp only [checkDependencies, bind_eq_ok_iff, forM_eq_ok_iff, require_eq_ok_iff] at checked
  obtain ⟨_, known, _, normalized, open'⟩ := checked
  refine ⟨fun blocker waits => ?_, (ascending_iff _).mp normalized, by simpa using open'⟩
  obtain ⟨_, -, listed⟩ := known blocker waits
  simpa using listed

theorem Sane.checkDependencies (sane : snapshot.Sane) (member : task ∈ snapshot.tasks) :
    snapshot.checkDependencies task = .ok () := by
  have open' := sane.not_closesCycle member
  simp only [TodoSnapshot.checkDependencies, bind_eq_ok_iff, forM_eq_ok_iff, require_eq_ok_iff]
  refine ⟨(), fun blocker waits => ⟨(), ?_, by simpa using sane.known task member blocker waits⟩,
    (), (ascending_iff _).mpr (sane.normalized task member), by simpa using open'⟩
  simp only [bne_iff_ne, ne_eq]
  rintro rfl
  -- waiting on itself is the shortest cycle
  have cycle : snapshot.closesCycle task = true :=
    (closesCycle_iff snapshot task).mpr ⟨task.id, waits, .refl⟩
  rw [open'] at cycle
  cases cycle

/-- An accepted list is sane, and all of it can be shown. -/
theorem validate_ok (checked : snapshot.validate = .ok ()) :
    snapshot.Sane ∧ ∀ task ∈ snapshot.tasks, task.Printable := by
  simp only [validate, bind_eq_ok_iff, require_eq_ok_iff, forM_eq_ok_iff] at checked
  obtain ⟨_, -, _, tasks, _, allocator, edges⟩ := checked
  obtain ⟨placed, each⟩ := checkTasks_ok (by simp) tasks
  refine ⟨⟨by simpa using allocator, ?_, fun task member => (each task member).1,
    fun task member => (checkDependencies_ok (edges task member)).1,
    fun task member => (checkDependencies_ok (edges task member)).2.1, ?_⟩,
    fun task member => (each task member).2⟩
  · intro position task found
    have := placed position task found
    omega
  · intro id cycle
    -- the cycle leaves `id`, so a task carries it
    obtain ⟨blocker, leaves, back⟩ := Relation.TransGen.head'_iff.mp cycle
    cases found : snapshot.task id with
    | none => simp [Reach.Edge, dependencies, found] at leaves
    | some task =>
      have member := mem_of_find?_eq_some found
      have named : task.id = id := by simpa using find?_some found
      have open' := (checkDependencies_ok (edges task member)).2.2
      rw [← Bool.not_eq_true, closesCycle_iff] at open'
      apply open'
      refine ⟨blocker, ?_, named ▸ back⟩
      simpa [Reach.Edge, dependencies, found] using leaves

/-- A sane list is refused for a forbidden character only. -/
theorem Sane.validate (sane : snapshot.Sane) : Yields IsControl (fun _ => True) snapshot.validate ∧
      ((∀ task ∈ snapshot.tasks, task.Printable) → snapshot.validate = .ok ()) := by
  have allocator := sane.allocator
  have placed : ∀ index task, snapshot.tasks[index]? = some task → task.id = 0 + index + 1 := by
    intro index task found
    have := sane.dense index task found
    omega
  have room : 0 + snapshot.tasks.length < snapshot.nextId := by omega
  have early : ∀ id ∈ [], id ≤ 0 := by simp
  obtain ⟨yields, accepted⟩ := checkTasks_yields early room placed sane.subjects
  have edges : forM snapshot.tasks snapshot.checkDependencies = .ok () :=
    forM_eq_ok_iff.mpr fun task member => sane.checkDependencies member
  have usable : require (snapshot.nextId != 0) TodoSnapshotError.unusableAllocator = .ok () := by
    simp [allocator]
  have ahead : require (snapshot.nextId == snapshot.tasks.length + 1)
      (TodoSnapshotError.allocatorAhead snapshot.nextId snapshot.tasks.length) = .ok () := by
    simp [allocator]
  rw [TodoSnapshot.validate, usable, ok_bind, ahead]
  simp only [ok_bind, edges]
  refine ⟨yields.bind fun _ _ => trivial, fun printable => ?_⟩
  rw [accepted printable, ok_bind]

end TodoSnapshot

end RustX.Todo
