import RustX.Workflow.Definition

/-!
The budgets of one run: what it may still admit and how many bytes it may retain.
A reservation gives back what it holds when its owner ends, so an activity is
followed together with the bytes it holds itself.
-/
namespace RustX

open Checked

inductive WorkflowLimit
  | steps | agents | modelCalls | retainedData
  deriving DecidableEq

/-- How a native call ended, as far as the executor tells its outcomes apart. -/
inductive CallStatus
  | failed (error : String)
  | timedOut
  | unsettled (detail : String)
  deriving DecidableEq

inductive Failure
  | value (error : RunError)
  | limitExceeded (limit : WorkflowLimit)
  /-- A Tool, Model or Agent leaf ended without business output. -/
  | call (node : String) (status : CallStatus)
  /-- Admission, authority or settlement of a native owner failed. -/
  | authority (detail : String)
  | nodesFailed (failures : List (String × Failure))
  | cancelled

/-- What a budget can refuse; one error covers the two kinds of bytes. -/
inductive Refusal
  | steps | agents | modelCalls | valueBytes | retainedBytes
  deriving DecidableEq

structure RunBudgets where
  steps : Nat
  agents : Nat
  modelCalls : Nat
  retainedBytes : Nat
  reservedBytes : Nat
  /-- The requests refused so far. Nothing in a run reads them. -/
  refused : List Refusal

namespace RunBudgets

def reserved (bytes : Nat) : RunBudgets :=
  { steps := 0, agents := 0, modelCalls := 0, retainedBytes := 0, reservedBytes := bytes
    refused := [] }

def refuse (budgets : RunBudgets) (refusal : Refusal) : RunBudgets :=
  { budgets with refused := budgets.refused ++ [refusal] }

/-- `RunBudgets::admit`; the token is read before and after the limits. -/
def admitStep (bound : Nat) (agent model cancelled late : Bool) (budgets : RunBudgets) :
    Except Failure RunBudgets := do
  let agents := budgets.agents + agent.toNat
  let modelCalls := budgets.modelCalls + model.toNat
  require (!cancelled) .cancelled
  require (budgets.steps < bound && budgets.steps < maxWorkflowSteps) (.limitExceeded .steps)
  require (modelCalls ≤ maxWorkflowModelCalls) (.limitExceeded .modelCalls)
  require (agents ≤ maxWorkflowAgents) (.limitExceeded .agents)
  require (!late) .cancelled
  .ok { budgets with steps := budgets.steps + 1, agents, modelCalls }

def admitModelRetry (cancelled : Bool) (budgets : RunBudgets) : Except Failure RunBudgets := do
  require (!cancelled) .cancelled
  require (budgets.modelCalls < maxWorkflowModelCalls) (.limitExceeded .modelCalls)
  .ok { budgets with modelCalls := budgets.modelCalls + 1 }

def drop (budgets : RunBudgets) (bytes : Nat) : RunBudgets :=
  { budgets with retainedBytes := budgets.retainedBytes - bytes }

end RunBudgets

/-- The budgets as one activity sees them, with the bytes its reservations hold. -/
structure Frame where
  budgets : RunBudgets
  held : Nat

/-- An activity that may retain and release bytes, and may fail. -/
def Accounted (α : Type) := Frame → Except Failure α × Frame

namespace Accounted

variable {α β : Type}

instance : Monad Accounted where
  pure value := fun frame => (.ok value, frame)
  bind activity next := fun frame =>
    match activity frame with
    | (.ok value, frame) => next value frame
    | (.error failure, frame) => (.error failure, frame)

/-- A computation that touches no budget. -/
def lift (result : Except RunError α) : Accounted α := fun frame =>
  (result.mapError .value, frame)

def retainBytes (bytes : Nat) : Accounted Unit := fun frame =>
  if bytes > maxValueBytes then
    (.error (.limitExceeded .retainedData), { frame with budgets := frame.budgets.refuse .valueBytes })
  else if frame.budgets.retainedBytes + bytes > frame.budgets.reservedBytes then
    (.error (.limitExceeded .retainedData),
      { frame with budgets := frame.budgets.refuse .retainedBytes })
  else
    (.ok (), { budgets := { frame.budgets with retainedBytes := frame.budgets.retainedBytes + bytes }
               held := frame.held + bytes })

/-- `LocalReservation::retain`: the bytes of the value, if it is within its bound. -/
def retain [FloatText] (value : Json) : Accounted Nat := do
  let bytes ← lift (boundedValueBytes value)
  retainBytes bytes
  pure bytes

/-- `LocalReservation::release`, and the end of a reservation inside an activity. -/
def release (bytes : Nat) : Accounted Unit := fun frame =>
  (.ok (), { budgets := frame.budgets.drop bytes, held := frame.held - bytes })

/-- Run an activity that begins without any reservation. When it fails, whatever
it holds ends with it; when it succeeds, its result owns what it holds. -/
def perform (activity : Accounted α) (budgets : RunBudgets) : Except Failure α × RunBudgets :=
  match activity ⟨budgets, 0⟩ with
  | (.ok value, frame) => (.ok value, frame.budgets)
  | (.error failure, frame) => (.error failure, frame.budgets.drop frame.held)

theorem bind_ok_iff {next : α → Accounted β} :
    (activity >>= next) frame = (.ok result, last) ↔ ∃ value middle,
      activity frame = (.ok value, middle) ∧ next value middle = (.ok result, last) := by
  show (match activity frame with
    | (.ok value, frame) => next value frame
    | (.error failure, frame) => (.error failure, frame)) = _ ↔ _
  rcases activity frame with ⟨_ | value, middle⟩ <;> simp

theorem pure_ok_iff :
    (pure value : Accounted α) frame = (.ok result, last) ↔ value = result ∧ frame = last := by
  show (Except.ok value, frame) = (Except.ok result, last) ↔ _
  simp

theorem lift_ok_iff :
    lift result frame = (.ok value, last) ↔ result = .ok value ∧ frame = last := by
  simp [lift]

theorem lift_bind : lift (x >>= f) = (lift x >>= fun a => lift (f a)) := by
  cases x <;> rfl

theorem perform_ok_iff {activity : Accounted α} : activity.perform budgets = (.ok value, after) ↔
      ∃ held, activity ⟨budgets, 0⟩ = (.ok value, ⟨after, held⟩) := by
  unfold perform
  rcases activity ⟨budgets, 0⟩ with ⟨_ | result, last, held⟩ <;> simp

end Accounted

end RustX
