import RustX.Library.Checked
import RustX.Recovery.Evidence

/-!
The budget of one Compaction: physical starts, input shrinks and a deadline. Every
clone and every later operation shares one accounting; a reservation is a value of its
own, and a request may have several.
-/
namespace RustX.Context

open Assoc

open Recovery (RequestId)

/-- The kinds of failure that the accounting reports. -/
inductive AllowanceErrorKind
  | cancelled | auxiliaryDeadlineExceeded | compactionBudgetExceeded | auxiliaryDurabilityFailed
  | internal
  deriving DecidableEq

structure AllowanceError where
  kind : AllowanceErrorKind
  message : String
  deriving DecidableEq

inductive AuxiliaryWriteFailure
  | knownNotCommitted (error : String)
  | unknown (error : String)

structure AuxiliaryAuthority where
  deadlineMillis : Nat
  limit : Nat
  /-- The requests that count, each with whether its start is confirmed. -/
  starts : List (RequestId × Bool)
  deriving DecidableEq

def callDeadlineMillis : Nat := 300000

namespace AuxiliaryAuthority

def new (now limit : Nat) : AuxiliaryAuthority where
  deadlineMillis := min (now + callDeadlineMillis) (2 ^ 64 - 1)
  limit := limit
  starts := []

section

variable (authority : AuxiliaryAuthority)

def check (now : Nat) (cancelled : Bool) : Except AllowanceError Unit := do
  Checked.require (!cancelled) ⟨.cancelled, "auxiliary operation cancelled"⟩
  Checked.require (now < authority.deadlineMillis)
    ⟨.auxiliaryDeadlineExceeded, "the original auxiliary operation deadline expired"⟩

def reserveStart (request : RequestId) (now : Nat)
    (cancelled : Bool) : Except AllowanceError AuxiliaryAuthority := do
  authority.check now cancelled
  if (authority.starts.lookup request).isSome then .ok authority
  else if authority.limit ≤ authority.starts.length then
    .error ⟨.compactionBudgetExceeded,
      "auxiliary operation exhausted its physical request allowance"⟩
  else .ok { authority with starts := insert request false authority.starts }

/-- A reservation is confirmed by the receipt of its start. A missing entry is a panic,
which is `none`. -/
def confirm (request receipt : RequestId) : Option (Except AllowanceError AuxiliaryAuthority) :=
  if receipt ≠ request then some (.error ⟨.internal, "start receipt request mismatch"⟩)
  else (authority.starts.lookup request).map fun _ =>
    .ok { authority with starts := insert request true authority.starts }

def reject (request : RequestId) : AuxiliaryWriteFailure → Except AllowanceError AuxiliaryAuthority
  | .unknown error => .error ⟨.auxiliaryDurabilityFailed,
      s!"auxiliary write commit outcome is unknown: {error}"⟩
  | .knownNotCommitted _ =>
    if authority.starts.lookup request = some false then
      .ok { authority with starts := authority.starts.filter fun entry => entry.1 ≠ request }
    else .ok authority

end

end AuxiliaryAuthority

structure BudgetState where
  shrinks : Nat := 0
  summaryInputLimit : Option Nat := none

def compactionShrinkLimit : Nat := 3

def BudgetState.shrink (budget : BudgetState) (configured minimum : Nat) :
    Except AllowanceError (BudgetState × Nat) :=
  if compactionShrinkLimit ≤ budget.shrinks then
    .error ⟨.compactionBudgetExceeded, "compaction exhausted its three input shrinks"⟩
  else
    let limit := budget.summaryInputLimit.getD configured
    if limit ≤ minimum then
      .error ⟨.compactionBudgetExceeded, "compaction reached its minimum Summary input limit"⟩
    else
      let reduced := max (limit / 2) minimum
      .ok ({ shrinks := budget.shrinks + 1, summaryInputLimit := some reduced }, reduced)

/-- What the handles of one business owner share, and the reservations in flight. -/
structure Allowance where
  authority : AuxiliaryAuthority
  budget : BudgetState
  /-- The operation of each handle. -/
  operations : List String
  /-- The request of each live reservation. -/
  live : List RequestId

inductive AllowanceAction
  | clone (operation : String)
  | nextOperation (operation : String)
  | reserveStart (request : RequestId) (now : Nat) (cancelled : Bool)
  | confirm (request receipt : RequestId)
  | reject (request : RequestId) (failure : AuxiliaryWriteFailure)
  | drop (request : RequestId)
  | summaryInputLimit (configured : Nat)
  | shrinkSummaryInputLimit (configured minimum now : Nat) (cancelled : Bool)

/-- A handle or a reservation is used by who holds it. -/
def AllowanceAction.Held (allowance : Allowance) : AllowanceAction → Prop
  | .clone operation => operation ∈ allowance.operations
  | .confirm request _ | .reject request _ | .drop request => request ∈ allowance.live
  | _ => True

/-- What a caller gets: the input limit from those that return one. -/
abbrev AllowanceResult := Except AllowanceError (Option Nat)

namespace Allowance

def new (operation : String) (now limit : Nat) : Allowance where
  authority := .new now limit
  budget := {}
  operations := [operation]
  live := []

/-- The reservation is used up. -/
def release (allowance : Allowance) (request : RequestId) : Allowance :=
  { allowance with live := allowance.live.erase request }

def settle (allowance : Allowance) :
    Except AllowanceError AuxiliaryAuthority → Allowance × AllowanceResult
  | .error error => (allowance, .error error)
  | .ok authority => ({ allowance with authority }, .ok none)

def perform (allowance : Allowance) : AllowanceAction → Option (Allowance × AllowanceResult)
  | .clone operation | .nextOperation operation =>
    some ({ allowance with operations := operation :: allowance.operations }, .ok none)
  | .reserveStart request now cancelled =>
    match allowance.authority.reserveStart request now cancelled with
    | .error error => some (allowance, .error error)
    | .ok authority => some ({ allowance with authority, live := request :: allowance.live }, .ok none)
  | .confirm request receipt =>
    (allowance.authority.confirm request receipt).map (allowance.release request).settle
  | .reject request failure =>
    some ((allowance.release request).settle (allowance.authority.reject request failure))
  | .drop request => some (allowance.release request, .ok none)
  | .summaryInputLimit configured =>
    let limit := allowance.budget.summaryInputLimit.getD configured
    some ({ allowance with budget := { allowance.budget with summaryInputLimit := some limit } },
      .ok (some limit))
  | .shrinkSummaryInputLimit configured minimum now cancelled =>
    match allowance.authority.check now cancelled with
    | .error error => some (allowance, .error error)
    | .ok () =>
      match allowance.budget.shrink configured minimum with
      | .error error => some (allowance, .error error)
      | .ok (budget, limit) => some ({ allowance with budget }, .ok (some limit))

inductive Change (before after : Allowance) : AllowanceAction → Prop
  | same {action : AllowanceAction} : after.authority = before.authority →
      (∀ request ∈ after.live, request ∈ before.live ∨
        (before.authority.starts.lookup request).isSome = true) →
      (∀ request error, action = .reject request (.knownNotCommitted error) →
        before.authority.starts.lookup request ≠ some false) → Change before after action
  | reserved {request : RequestId} {now : Nat} {cancelled : Bool} :
      before.authority.starts.lookup request = none →
      before.authority.starts.length < before.authority.limit →
      after.authority = { before.authority with
        starts := insert request false before.authority.starts } →
      after.live = request :: before.live →
      Change before after (.reserveStart request now cancelled)
  | confirmed {request receipt : RequestId} :
      (before.authority.starts.lookup request).isSome = true →
      after.authority = { before.authority with
        starts := insert request true before.authority.starts } →
      after.live = before.live.erase request → Change before after (.confirm request receipt)
  | rejected {request : RequestId} {error : String} :
      before.authority.starts.lookup request = some false →
      after.authority = { before.authority with
        starts := before.authority.starts.filter fun entry => entry.1 ≠ request } →
      after.live = before.live.erase request →
      Change before after (.reject request (.knownNotCommitted error))

variable {before after : Allowance} {action : AllowanceAction} {result : AllowanceResult}

theorem perform_change (done : before.perform action = some (after, result)) :
    Change before after action := by
  have kept request : ∀ other ∈ (before.release request).live, other ∈ before.live ∨
      (before.authority.starts.lookup other).isSome = true :=
    fun _ member => .inl (List.mem_of_mem_erase member)
  cases action with
  | clone | nextOperation | summaryInputLimit =>
    cases done
    exact .same rfl (fun _ member => .inl member) nofun
  | reserveStart request now cancelled =>
    simp only [perform] at done
    split at done
    · cases done
      exact .same rfl (fun _ member => .inl member) nofun
    rename_i authority reserved
    cases done
    obtain ⟨-, -, reserved⟩ := Checked.bind_eq_ok_iff.mp reserved
    split at reserved
    · rename_i known
      cases reserved
      refine .same rfl (fun other member => ?_) nofun
      rcases List.mem_cons.mp member with rfl | earlier
      · exact .inr known
      · exact .inl earlier
    · rename_i unknown
      split at reserved
      · cases reserved
      · rename_i room
        cases reserved
        exact .reserved (Option.not_isSome_iff_eq_none.mp unknown) (Nat.lt_of_not_le room) rfl rfl
  | confirm request receipt =>
    obtain ⟨settled, confirmed, same⟩ := Option.map_eq_some_iff.mp done
    unfold AuxiliaryAuthority.confirm at confirmed
    split at confirmed
    · cases confirmed
      cases same
      exact .same rfl (kept request) nofun
    · obtain ⟨value, known, rfl⟩ := Option.map_eq_some_iff.mp confirmed
      cases same
      exact .confirmed (by simp [known]) rfl rfl
  | reject request failure =>
    cases failure with
    | unknown error =>
      cases done
      exact .same rfl (kept request) nofun
    | knownNotCommitted error =>
      simp only [perform, AuxiliaryAuthority.reject, Option.some.injEq] at done
      split at done
      · rename_i unconfirmed
        cases done
        exact .rejected unconfirmed rfl rfl
      · rename_i settled
        cases done
        exact .same rfl (kept request) (by rintro _ _ ⟨⟩; exact settled)
  | drop request =>
    cases done
    exact .same rfl (kept request) nofun
  | shrinkSummaryInputLimit configured minimum now cancelled =>
    simp only [perform] at done
    split at done
    · cases done
      exact .same rfl (fun _ member => .inl member) nofun
    · split at done <;> cases done <;> exact .same rfl (fun _ member => .inl member) nofun

def Within (allowance : Allowance) : Prop :=
  allowance.authority.starts.length ≤ allowance.authority.limit ∧
    (allowance.authority.starts.map Prod.fst).Nodup

theorem Change.within (change : Change before after action) (within : before.Within) :
    after.Within ∧ after.authority.limit = before.authority.limit ∧
      after.authority.deadlineMillis = before.authority.deadlineMillis := by
  obtain ⟨bounded, distinct⟩ := within
  cases change with
  | same same =>
    rw [Within, same]
    exact ⟨⟨bounded, distinct⟩, rfl, rfl⟩
  | @reserved request _ _ absent room same =>
    have fresh : request ∉ before.authority.starts.map Prod.fst := by
      rw [← lookup_isSome_iff, absent]
      simp
    rw [Within, same]
    refine ⟨⟨?_, nodup_keys_insert distinct _ _⟩, rfl, rfl⟩
    rw [(insert_perm_of_fresh false fresh).length_eq]
    exact room
  | @confirmed request _ known same =>
    rw [Within, same]
    refine ⟨⟨?_, nodup_keys_insert distinct _ _⟩, rfl, rfl⟩
    -- the keys stay the same, each once
    have keys : (insert request true before.authority.starts).map Prod.fst ⊆
        before.authority.starts.map Prod.fst := by
      intro other member
      rcases mem_keys_insert.mp member with rfl | earlier
      · exact lookup_isSome_iff.mp known
      · exact earlier
    have fewer := (List.subperm_of_subset (nodup_keys_insert distinct request true) keys).length_le
    rw [List.length_map, List.length_map] at fewer
    exact Nat.le_trans fewer bounded
  | rejected _ same =>
    rw [Within, same]
    exact ⟨⟨Nat.le_trans (List.length_filter_le _ _) bounded,
      distinct.sublist (List.filter_sublist.map _)⟩, rfl, rfl⟩

theorem Change.confirmed_stays (change : Change before after action)
    (confirmed : before.authority.starts.lookup request = some true) :
    after.authority.starts.lookup request = some true := by
  cases change with
  | same same => rwa [same]
  | @reserved other _ _ absent _ same =>
    rw [same, lookup_insert_of_ne, confirmed]
    rintro rfl
    rw [absent] at confirmed
    cases confirmed
  | confirmed _ same =>
    rw [same, lookup_insert, Function.update_apply, confirmed, ite_self]
  | @rejected other _ unconfirmed same =>
    rw [same, lookup_filter_ne, confirmed]
    rintro rfl
    rw [unconfirmed] at confirmed
    cases confirmed

theorem Change.forgets (change : Change before after action)
    (known : before.authority.starts.lookup request ≠ none)
    (gone : after.authority.starts.lookup request = none) :
    ∃ error, action = .reject request (.knownNotCommitted error) := by
  cases change with
  | same same => exact absurd (same ▸ gone) known
  | reserved _ _ same | confirmed _ same =>
    rw [same, lookup_insert, Function.update_apply] at gone
    split at gone
    · cases gone
    · exact absurd gone known
  | @rejected other error _ same =>
    by_cases own : request = other
    · exact ⟨error, by rw [own]⟩
    · rw [same, lookup_filter_ne _ own] at gone
      exact absurd gone known

def Confirmable (allowance : Allowance) : Prop :=
  ∀ request ∈ allowance.live, ∀ receipt, allowance.authority.confirm request receipt ≠ none

theorem confirmable_iff {allowance : Allowance} : allowance.Confirmable ↔
    ∀ request ∈ allowance.live, (allowance.authority.starts.lookup request).isSome = true := by
  refine forall₂_congr fun request member => ?_
  constructor
  · intro confirms
    simpa [AuxiliaryAuthority.confirm, Option.isSome_iff_ne_none] using confirms request
  · intro known receipt
    unfold AuxiliaryAuthority.confirm
    split
    · simp
    · simpa [Option.isSome_iff_ne_none] using known

/-- The step takes away the unconfirmed start of a request that another reservation
still holds. -/
def Strands (before : Allowance) (action : AllowanceAction) : Prop :=
  ∃ request error, action = .reject request (.knownNotCommitted error) ∧
    before.authority.starts.lookup request = some false ∧ request ∈ before.live.erase request

theorem Change.confirmable_iff (change : Change before after action)
    (confirmable : before.Confirmable) : after.Confirmable ↔ ¬ before.Strands action := by
  rw [Allowance.confirmable_iff] at confirmable ⊢
  cases change with
  | same same live quiet =>
    refine iff_of_true ?_ ?_
    · intro request member
      rw [same]
      exact (live request member).elim (confirmable request) id
    · rintro ⟨request, error, rejects, unconfirmed, -⟩
      exact quiet request error rejects unconfirmed
  | @reserved other _ _ _ _ same live =>
    refine iff_of_true ?_ nofun
    intro request member
    rw [same, lookup_insert, Function.update_apply]
    split
    · rfl
    · rename_i ne
      rw [live] at member
      exact confirmable request ((List.mem_cons.mp member).resolve_left ne)
  | @confirmed other _ known same live =>
    refine iff_of_true ?_ nofun
    intro request member
    rw [same, lookup_insert, Function.update_apply]
    split
    · rfl
    · rw [live] at member
      exact confirmable request (List.mem_of_mem_erase member)
  | @rejected other error unconfirmed same live =>
    constructor
    · rintro covered ⟨request, _, rejects, -, again⟩
      cases rejects
      have found := covered other (live ▸ again)
      rw [same, lookup_filter_self] at found
      cases found
    · intro alone request member
      rw [live] at member
      rw [same, lookup_filter_ne]
      · exact confirmable request (List.mem_of_mem_erase member)
      · rintro rfl
        exact alone ⟨request, error, rfl, unconfirmed, member⟩

/-- A step of a run, with the state on either side. -/
structure Event where
  before : Allowance
  action : AllowanceAction
  result : AllowanceResult
  after : Allowance

/-- Any interleaving of what the holders of handles and reservations do. -/
inductive Run (start : Allowance) : List Event → Allowance → Prop
  | start : Run start [] start
  | step {history : List Event} {before after : Allowance} {action : AllowanceAction}
      {result : AllowanceResult} : Run start history before → action.Held before →
      before.perform action = some (after, result) →
      Run start (history ++ [⟨before, action, result, after⟩]) after

def Event.shrinks (event : Event) : Bool :=
  match event.action, event.result with
  | .shrinkSummaryInputLimit .., .ok _ => true
  | _, _ => false

/-- What holds of every step, whatever the others do. -/
structure Event.Accounts (event : Event) (limit deadline : Nat) : Prop where
  within : event.after.authority.starts.length ≤ limit
  distinct : (event.after.authority.starts.map Prod.fst).Nodup
  deadline : event.after.authority.deadlineMillis = deadline
  confirmed : ∀ request, event.before.authority.starts.lookup request = some true →
    event.after.authority.starts.lookup request = some true
  forgets : ∀ request, event.before.authority.starts.lookup request ≠ none →
    event.after.authority.starts.lookup request = none →
    ∃ error, event.action = .reject request (.knownNotCommitted error)
  lowers : ∀ configured minimum now cancelled reduced,
    event.action = .shrinkSummaryInputLimit configured minimum now cancelled →
    event.result = .ok (some reduced) →
    event.after.budget.summaryInputLimit = some reduced ∧ minimum ≤ reduced ∧
      reduced < event.before.budget.summaryInputLimit.getD configured

theorem perform_shrinks (done : before.perform action = some (after, result))
    (bounded : before.budget.shrinks ≤ compactionShrinkLimit) :
    after.budget.shrinks ≤ compactionShrinkLimit ∧ after.budget.shrinks = before.budget.shrinks +
      (if (Event.mk before action result after).shrinks then 1 else 0) ∧
    ∀ configured minimum now cancelled reduced,
      action = .shrinkSummaryInputLimit configured minimum now cancelled →
      result = .ok (some reduced) →
      after.budget.summaryInputLimit = some reduced ∧ minimum ≤ reduced ∧
        reduced < before.budget.summaryInputLimit.getD configured := by
  cases action with
  | shrinkSummaryInputLimit configured minimum now cancelled =>
    simp only [perform] at done
    split at done
    · cases done
      exact ⟨bounded, rfl, nofun⟩
    split at done
    · cases done
      exact ⟨bounded, rfl, nofun⟩
    rename_i shrunk
    cases done
    unfold BudgetState.shrink at shrunk
    split at shrunk
    · cases shrunk
    rename_i room
    dsimp only at shrunk
    split at shrunk
    · cases shrunk
    · cases shrunk
      refine ⟨Nat.lt_of_not_le room, rfl, ?_⟩
      rintro _ _ _ _ _ ⟨⟩ ⟨⟩
      exact ⟨rfl, Nat.le_max_right .., by omega⟩
  | reserveStart request now cancelled =>
    simp only [perform] at done
    split at done <;> cases done <;> exact ⟨bounded, rfl, nofun⟩
  | confirm request receipt =>
    obtain ⟨settled, -, same⟩ := Option.map_eq_some_iff.mp done
    cases settled <;> cases same <;> exact ⟨bounded, rfl, nofun⟩
  | reject request failure =>
    simp only [perform, Option.some.injEq] at done
    cases settled : before.authority.reject request failure <;> rw [settled] at done <;>
      cases done <;> exact ⟨bounded, rfl, nofun⟩
  | clone | nextOperation | drop | summaryInputLimit =>
    cases done
    exact ⟨bounded, rfl, nofun⟩

variable {start final : Allowance} {history : List Event}

theorem Run.accounts (run : Run start history final) (within : start.Within)
    (unshrunk : start.budget.shrinks = 0) :
    final.Within ∧ final.authority.limit = start.authority.limit ∧
      final.authority.deadlineMillis = start.authority.deadlineMillis ∧
      final.budget.shrinks ≤ compactionShrinkLimit ∧
      (history.filter Event.shrinks).length = final.budget.shrinks ∧
      ∀ event ∈ history, event.Accounts start.authority.limit start.authority.deadlineMillis := by
  induction run with
  | start => exact ⟨within, rfl, rfl, by simp [unshrunk], by simp [unshrunk], by simp⟩
  | @step history before after action result _ _ done ih =>
    obtain ⟨within, limit, deadline, bounded, counted, accounts⟩ := ih
    have change := perform_change done
    obtain ⟨kept, sameLimit, sameDeadline⟩ := change.within within
    obtain ⟨bounded, count, lowers⟩ := perform_shrinks done bounded
    refine ⟨kept, sameLimit.trans limit, sameDeadline.trans deadline, bounded, ?_, ?_⟩
    · rw [List.filter_append, List.length_append, counted, count]
      cases shrinks : (Event.mk before action result after).shrinks <;> simp [shrinks]
    · exact forall_mem_snoc.mpr ⟨accounts, limit ▸ sameLimit ▸ kept.1, kept.2,
        sameDeadline.trans deadline, fun _ => change.confirmed_stays, fun _ => change.forgets,
        lowers⟩

/-- Reservations can be confirmed throughout exactly if none is stranded. -/
theorem Run.confirmable_iff (run : Run start history final) (confirmable : start.Confirmable) :
    ((∀ event ∈ history, event.after.Confirmable) → final.Confirmable) ∧
      ((∀ event ∈ history, event.after.Confirmable) ↔
        ∀ event ∈ history, ¬ event.before.Strands event.action) := by
  induction run with
  | start => exact ⟨fun _ => confirmable, by simp⟩
  | step _ _ done ih =>
    refine ⟨fun all => all _ (List.mem_append_right _ (List.mem_singleton_self _)), ?_⟩
    simp only [List.mem_append, List.mem_singleton, or_imp, forall_and, forall_eq]
    rw [← ih.2]
    exact and_congr_right fun all => (perform_change done).confirmable_iff (ih.1 all)

end Allowance

open Allowance

/-- Over any interleaving the starts stay within the limit, the confirmed ones stay, an
entry leaves only by a known-not-committed rejection, the deadline stays, and at most
three shrinks lower the input limit. A live reservation can always be confirmed exactly if
no rejection takes away the unconfirmed start of a request that another one holds. -/
theorem allowance_accounting_iff (operation : String) (now limit : Nat) {history : List Event}
    {final : Allowance} (run : Run (.new operation now limit) history final) :
    (∀ event ∈ history, event.Accounts limit (min (now + callDeadlineMillis) (2 ^ 64 - 1))) ∧
      (history.filter Event.shrinks).length ≤ 3 ∧
      ((∀ event ∈ history, event.after.Confirmable) ↔
        ∀ event ∈ history, ¬ event.before.Strands event.action) := by
  have within : (Allowance.new operation now limit).Within := ⟨Nat.zero_le _, List.nodup_nil⟩
  obtain ⟨-, -, -, bounded, counted, accounts⟩ := run.accounts within rfl
  refine ⟨accounts, counted ▸ bounded, (run.confirmable_iff ?_).2⟩
  intro request member
  cases member

/-- A start that is confirmed, and a shrink to the minimum. -/
theorem allowance_accounting_confirmed : ∃ history final,
    Run (.new "operation" 0 12) history final ∧ final.authority.starts = [("r", true)] ∧
      (history.filter Event.shrinks).length ≤ 3 := by
  have reserved : Run (.new "operation" 0 12) _ _ :=
    @Run.step _ _ _ _ (.reserveStart "r" 0 false) _ .start trivial rfl
  have confirmed := @Run.step _ _ _ _ (.confirm "r" "r") _ reserved (List.mem_cons_self ..) rfl
  have run := @Run.step _ _ _ _ (.shrinkSummaryInputLimit 10 6 0 false) _ confirmed trivial rfl
  exact ⟨_, _, run, rfl, (allowance_accounting_iff "operation" 0 12 run).2.1⟩

/-- The first of two reservations of a request is rejected, and confirming the second
panics. -/
theorem rejected_reservation_strands : ∃ history final,
    Run (.new "operation" 0 12) history final ∧ "r" ∈ final.live ∧
      final.authority.confirm "r" "r" = none := by
  have first : Run (.new "operation" 0 12) _ _ :=
    @Run.step _ _ _ _ (.reserveStart "r" 0 false) _ .start trivial rfl
  have second := @Run.step _ _ _ _ (.reserveStart "r" 0 false) _ first trivial rfl
  have rejected := @Run.step _ _ _ _ (.reject "r" (.knownNotCommitted "rolled back")) _ second
    (List.mem_cons_self ..) rfl
  exact ⟨_, _, rejected, by decide, rfl⟩

end RustX.Context
