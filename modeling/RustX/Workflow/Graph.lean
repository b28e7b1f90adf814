import RustX.Workflow.Accepted
import RustX.Workflow.Merge

/-!
The executor of one block: nodes start when their incoming edges are resolved,
settle in any order, and commit their values to the graph.
-/
namespace RustX

open Checked Schema PortGraph Accounted

/-- What a node sees: the values and handled failures at the moment it starts. -/
structure Snapshot where
  values : Values
  failedOutputs : List String

/-- What a node hands over when it settles. -/
structure NodeCompletion where
  value : Option Json
  returned : Option Json
  port : WorkflowPort
  /-- An Exit Loop node ran. -/
  ended : Bool
  /-- Loop variables an Assigner wrote: owner, label and value. -/
  writes : List (String × String × Json)
  reservation : Nat

/-- A block in execution; `τ` is what is kept of a node that has started. -/
structure GraphState (τ : Type) where
  joins : Joins String
  values : Values
  failedOutputs : List String
  returned : List (String × Json)
  ended : Bool
  failures : List (String × Failure)
  reservation : Nat
  pending : List (String × τ)

namespace GraphState

variable {τ : Type}

def snapshot (state : GraphState τ) : Snapshot :=
  ⟨state.values, state.failedOutputs⟩

/-- Start every node that is ready, unless a node failed. -/
def start (begin : Snapshot → τ) (state : GraphState τ) : GraphState τ :=
  if state.failures.isEmpty then
    { state with
      joins := { state.joins with ready := [] }
      pending := state.pending ++ state.joins.ready.map fun id => (id, begin state.snapshot) }
  else state

section Start

variable (begin : Snapshot → τ) (state : GraphState τ)

@[simp] theorem start_values : (state.start begin).values = state.values := by
  unfold start
  split <;> rfl

@[simp] theorem start_failedOutputs : (state.start begin).failedOutputs = state.failedOutputs := by
  unfold start
  split <;> rfl

@[simp] theorem start_ended : (state.start begin).ended = state.ended := by
  unfold start
  split <;> rfl

@[simp] theorem start_snapshot : (state.start begin).snapshot = state.snapshot := by
  simp [snapshot]

/-- What runs was running, or starts on the present values. -/
theorem mem_start_pending (member : entry ∈ (state.start begin).pending) :
    entry ∈ state.pending ∨ entry.2 = begin state.snapshot := by
  unfold start at member
  split at member
  · rcases List.mem_append.mp member with old | new
    · exact .inl old
    · obtain ⟨_, -, rfl⟩ := List.mem_map.mp new
      exact .inr rfl
  · exact .inl member

@[simp] theorem start_returned : (state.start begin).returned = state.returned := by
  unfold start
  split <;> rfl

end Start

/-- A block before its first node starts. -/
def initial (block : BlockProgram) (values : Values) : GraphState τ :=
  { joins :=
      { waiting := arrivals ((block.nodes.map Prod.fst).flatMap block.outgoing)
        active := fun id => decide (id = block.entry)
        ready := [block.entry] }
    values, failedOutputs := [], returned := [], ended := false, failures := []
    reservation := 0, pending := [] }

def enter (block : BlockProgram) (begin : Snapshot → τ) (values : Values) : GraphState τ :=
  (initial block values).start begin

def remove (state : GraphState τ) (id : String) : GraphState τ :=
  { state with pending := state.pending.filter fun entry => entry.1 ≠ id }

/-- A node failed: nothing more is admitted. -/
def failed (state : GraphState τ) (id : String) (failure : Failure) : GraphState τ :=
  { state.remove id with failures := Assoc.insert id failure state.failures }

/-- Publish a completion whose writes were merged into `values`. -/
def commit (state : GraphState τ) (id : String) (completion : NodeCompletion) (values : Values) :
    GraphState τ :=
  { state.remove id with
    values := completion.value.elim values fun value => Function.update values id (some value)
    failedOutputs := if completion.port = .fail then id :: state.failedOutputs
      else state.failedOutputs
    returned := completion.returned.elim state.returned fun value =>
      Assoc.insert id value state.returned
    ended := state.ended || completion.ended }

theorem commit_values {state : GraphState τ} {id : String} (completion : NodeCompletion)
    (values : Values) (ne : other ≠ id) :
    (state.commit id completion values).values other = values other := by
  unfold commit
  cases completion.value <;> simp [ne]

end GraphState

def NodeProgram.isAssigner : NodeProgram → Bool
  | .assigner .. => true
  | _ => false

section Settle

variable [FloatText] {τ : Type}

def retiresReservation (block : BlockProgram) (id : String) : Bool :=
  (block.nodes.lookup id).any NodeProgram.isAssigner

/-- A node settled: merge its writes, commit its value, resolve its edges. No
result means that a counter of unresolved edges fell below zero. -/
def settle (block : BlockProgram) (budgets : RunBudgets) (state : GraphState τ) (id : String)
    (completion : NodeCompletion) : Option (RunBudgets × GraphState τ) :=
  let (merged, budgets) := (mergeWrites state.values completion.writes).perform budgets
  -- Pending writes now belong to the merged values, or were rejected.
  let (budgets, kept) := if retiresReservation block id
    then (budgets.drop completion.reservation, 0) else (budgets, completion.reservation)
  match merged with
  | .error failure =>
    some (budgets, { state.failed id failure with reservation := state.reservation + kept })
  | .ok (values, retained) => do
    let joins ← drain block.outgoing block.nodes.length [(id, some completion.port)] state.joins
    some (budgets, { state.commit id completion values with
      joins, reservation := state.reservation + kept + retained })

theorem settle_ne_none {block : BlockProgram} {state : GraphState τ} {id : String}
    {completion : NodeCompletion}
    (drained : drain block.outgoing block.nodes.length [(id, some completion.port)] state.joins =
      some joins) (budgets : RunBudgets) : settle block budgets state id completion ≠ none := by
  unfold settle
  split
  split
  split
  · exact Option.some_ne_none _
  · simp [drained]

end Settle

def validateCommit (schema : Schema) (value : Json) : Except RunError Unit :=
  require (schema.isValid value) (.invalidValue "block commit violates frozen schema")

def returnedFields : Json → Except RunError (List (String × Json))
  | .object fields => .ok fields
  | _ => .error (.invalidValue "Return output must be an object")

/-- Returns that ran together agree on the outputs they share. -/
def mergeOutput (result : List (String × Json)) (output : String × Json) :
    Except RunError (List (String × Json)) := do
  require ((result.lookup output.1).all (· == output.2))
    (.invalidValue s!"active Return nodes conflict on output {debug output.1}")
  .ok (Assoc.insert output.1 output.2 result)

def mergeReturned (result : List (String × Json)) (returned : String × Json) :
    Except RunError (List (String × Json)) := do
  let fields ← returnedFields returned.2
  fields.foldlM mergeOutput result

/-- What `execute_block` makes of the values its Returns left. -/
def blockOutput (block : BlockProgram) (returned : List (String × Json)) :
    Except RunError Json := do
  require (!returned.isEmpty) (.invalidProgram "no active Return node")
  let result ← returned.foldlM mergeReturned []
  validateCommit block.outputSchema (.object result)
  .ok (.object result)

/-- When a Return ran, the output can only fail for the values that were returned. -/
theorem blockOutput_yields (block : BlockProgram) (ran : returned ≠ []) :
    Yields (fun error => ∃ detail, error = .invalidValue detail) (fun _ => True)
      (blockOutput block returned) := by
  have nonempty : (!returned.isEmpty) = true := by simpa using ran
  refine (yields_require fun empty => by simp [empty] at nonempty).bind fun _ _ => ?_
  have merged : Yields (fun error => ∃ detail, error = .invalidValue detail) (fun _ => True)
      (returned.foldlM mergeReturned []) := by
    refine Yields.foldlM (fun result entry _ => ?_) trivial
    have object : Yields (fun error => ∃ detail, error = .invalidValue detail) (fun _ => True)
        (returnedFields entry.2) := by
      unfold returnedFields
      split
      · exact trivial
      · exact ⟨_, rfl⟩
    refine object.bind fun fields _ => Yields.foldlM (fun result output _ => ?_) trivial
    exact (yields_require fun _ => ⟨_, rfl⟩).bind fun _ _ => trivial
  refine merged.bind fun result _ => ?_
  exact (yields_require fun _ => ⟨_, rfl⟩).bind fun _ _ => trivial

/-- The value a fail branch leaves behind. -/
def isErrorValue : Json → Bool
  | .object [(message, .string _), (kind, .string _)] =>
    message == "error_message" && kind == "error_type"
  | _ => false

/-- Whether a node may hand over this value: one of its declared schema or, on the
fail branch, an error. A node without a value of its own hands back what it found
under its name. -/
def handsOver (program : NodeProgram) (found : Option Json) (completion : NodeCompletion) : Bool :=
  match program.valueSchema with
  | some schema => completion.value.any fun value =>
    if completion.port = .fail then isErrorValue value else schema.isValid value
  | none => completion.value == found

/-- What a node may settle with, started on `snapshot`. -/
structure Completes (program : NodeProgram) (id : String) (snapshot : Snapshot)
    (completion : NodeCompletion) : Prop where
  exit : completion.port ∈ program.exits
  value : handsOver program (snapshot.values id) completion = true
  returned : completion.returned.isSome = program.isReturn
  writes : ∀ write ∈ completion.writes, [write.1, write.2.1] ∈ program.assigned

instance (program : NodeProgram) (id : String) (snapshot : Snapshot) (completion : NodeCompletion) :
    Decidable (Completes program id snapshot completion) :=
  decidable_of_iff
    (completion.port ∈ program.exits ∧ handsOver program (snapshot.values id) completion = true ∧
      completion.returned.isSome = program.isReturn ∧
      ∀ write ∈ completion.writes, [write.1, write.2.1] ∈ program.assigned)
    ⟨fun ⟨exit, value, returned, writes⟩ => ⟨exit, value, returned, writes⟩,
      fun ⟨exit, value, returned, writes⟩ => ⟨exit, value, returned, writes⟩⟩

section Runs

variable [FloatText]

/-- The runs of a block from `values` in which no node fails, with what settled. -/
inductive Runs (block : BlockProgram) (values : Values) :
    List (String × NodeCompletion) → GraphState Snapshot → Prop
  | enter : Runs block values [] (.enter block id values)
  | settle {history : List (String × NodeCompletion)} {state next : GraphState Snapshot}
      {name : String} {snapshot : Snapshot} {program : NodeProgram} {completion : NodeCompletion}
      {budgets after : RunBudgets} (run : Runs block values history state)
      (pending : (name, snapshot) ∈ state.pending)
      (node : block.nodes.lookup name = some program)
      (completes : Completes program name snapshot completion)
      (settled : RustX.settle block budgets state name completion = some (after, next))
      (succeeded : next.failures = []) :
      Runs block values (history ++ [(name, completion)]) (next.start id)

variable {τ : Type} {block : BlockProgram} {budgets : RunBudgets} {state next : GraphState τ}
  {name : String} {completion : NodeCompletion}

/-- A node that settles without a failure is merged, resolved and committed. -/
theorem settle_ok (settled : settle block budgets state name completion = some (after, next))
    (succeeded : next.failures = []) :
    ∃ joins reservation,
      drain block.outgoing block.nodes.length [(name, some completion.port)] state.joins =
        some joins ∧
      next = { state.commit name completion (mergedValues state.values completion.writes) with
        joins, reservation } := by
  unfold settle at settled
  split at settled
  rename_i merged performed ran
  split at settled
  split at settled
  · obtain ⟨-, rfl⟩ := Prod.mk.inj (Option.some.inj settled)
    exact absurd succeeded (Assoc.insert_ne_nil name _ _)
  obtain ⟨held, merge⟩ := perform_ok_iff.mp ran
  obtain rfl := mergeWrites_ok merge
  cases drained : drain block.outgoing block.nodes.length [(name, some completion.port)]
      state.joins with
  | none => simp [drained] at settled
  | some joins =>
    simp only [drained, Option.bind_eq_bind, Option.bind_some, Option.some.injEq,
      Prod.mk.injEq] at settled
    exact ⟨joins, _, rfl, settled.2.symm⟩

variable {history : List (String × NodeCompletion)}

section

variable (run : Runs block values history last)
include run

/-- Every node that settled was one of the block, and completed as it may. -/
theorem Runs.completes (member : entry ∈ history) :
    ∃ program snapshot, block.nodes.lookup entry.1 = some program ∧
      Completes program entry.1 snapshot entry.2 := by
  induction run with
  | enter => simp at member
  | settle _ _ node completes _ _ ih =>
    rcases List.mem_append.mp member with old | new
    · exact ih old
    · obtain rfl := List.mem_singleton.mp new
      exact ⟨_, _, node, completes⟩

/-- A node that runs sees the values there were when it started. -/
theorem Runs.started (pending : (name, snapshot) ∈ last.pending) :
    ∃ earlier later origin, history = earlier ++ later ∧ Runs block values earlier origin ∧
      (name, snapshot) ∈ origin.pending ∧ snapshot = origin.snapshot := by
  induction run with
  | enter =>
    refine ⟨[], [], _, rfl, .enter, pending, ?_⟩
    rcases GraphState.mem_start_pending _ _ pending with old | same
    · cases old
    · exact same
  | settle run pendingBefore node completes settled succeeded ih =>
    rcases GraphState.mem_start_pending _ _ pending with old | same
    · obtain ⟨_, _, -, rfl⟩ := settle_ok settled succeeded
      obtain ⟨earlier, later, origin, rfl, before, running, same⟩ := ih (List.mem_of_mem_filter old)
      exact ⟨earlier, _, origin, List.append_assoc .., before, running, same⟩
    · refine ⟨_, [], _, (List.append_nil _).symm, .settle run pendingBefore node completes settled
        succeeded, pending, ?_⟩
      rw [GraphState.start_snapshot]
      exact same

/-- The value of every Return that settled is kept. -/
theorem Runs.returned_ne_nil (member : (name, completion) ∈ history)
    (returns : completion.returned.isSome = true) : last.returned ≠ [] := by
  induction run with
  | enter => simp at member
  | @settle _ _ _ settledName _ _ settledCompletion _ _ _ _ _ _ settled succeeded ih =>
    obtain ⟨_, _, -, rfl⟩ := settle_ok settled succeeded
    rw [GraphState.start_returned]
    show settledCompletion.returned.elim _ _ ≠ []
    cases result : settledCompletion.returned with
    | some value => exact Assoc.insert_ne_nil settledName value _
    | none =>
      apply ih
      rcases List.mem_append.mp member with old | new
      · exact old
      · obtain ⟨-, rfl⟩ := Prod.mk.inj (List.mem_singleton.mp new)
        simp [result] at returns

end

/-- Settle the nodes in the given order, as long as each is pending and may complete so. -/
def replay (block : BlockProgram) :
    RunBudgets → GraphState Snapshot → List (String × NodeCompletion) → Option (GraphState Snapshot)
  | _, state, [] => some state
  | budgets, state, (name, completion) :: later => do
    let snapshot ← state.pending.lookup name
    let program ← block.nodes.lookup name
    guard (Completes program name snapshot completion)
    let (budgets, next) ← RustX.settle block budgets state name completion
    guard next.failures.isEmpty
    replay block budgets (next.start id) later

theorem Runs.replay (run : Runs block values history last)
    (replayed : RustX.replay block budgets last later = some final) :
    Runs block values (history ++ later) final := by
  induction later generalizing budgets history last with
  | nil =>
    obtain rfl := Option.some.inj replayed
    simpa using run
  | cons entry later ih =>
    simp only [RustX.replay, Option.bind_eq_bind, Option.bind_eq_some_iff] at replayed
    obtain ⟨snapshot, pending, program, node, _, completes, ⟨after, next⟩, settled, _, calm, rest⟩ :=
      replayed
    simp only [Option.guard_eq_some', List.isEmpty_iff] at completes calm
    have longer := ih (.settle run (Assoc.mem_of_lookup pending) node completes settled calm) rest
    simpa using longer

/-- Compile a root block and settle its nodes in the given order. -/
def rehearse (B : Type) [Bdd B] [Host] (definition : WorkflowBlock)
    (history : List (String × NodeCompletion)) : Option (Compiled B × GraphState Snapshot) := do
  let compiled ← (compileBlock B (maxBlockDepth + 1) definition [] 0 none).toOption
  let state ← RustX.replay compiled.program (.reserved 0)
    (.enter compiled.program id fun _ => none) history
  some (compiled, state)

theorem rehearse_runs {B : Type} [Bdd B] [Host] {compiled : Compiled B}
    (rehearsed : rehearse B definition history = some (compiled, last)) :
    compileBlock B (maxBlockDepth + 1) definition [] 0 none = .ok compiled ∧
      Runs compiled.program (fun _ => none) history last := by
  simp only [rehearse, Option.bind_eq_bind, Option.bind_eq_some_iff, toOption_eq_some_iff]
    at rehearsed
  obtain ⟨result, accepted, state, replayed, same⟩ := rehearsed
  obtain ⟨rfl, rfl⟩ := Prod.mk.inj (Option.some.inj same)
  exact ⟨accepted, by simpa using Runs.replay .enter replayed⟩

end Runs

end RustX
