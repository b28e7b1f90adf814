import Mathlib

/-!
Metered computations: a state that survives errors, where some errors only say
that a budget was spent. Such a computation refines a plain one when it returns
what the plain one returns, refuses what the plain one refuses, or stops early.
-/
namespace RustX

abbrev Metered (σ ε : Type) := ExceptT ε (StateM σ)

namespace Metered

variable {σ ε δ α β γ κ : Type}

/-- Run a computation and hand on how it ended. -/
def attempt (x : Metered σ ε α) : Metered σ ε (Except ε α) :=
  fun state => (.ok (x state).1, (x state).2)

inductive Outcome (spent : ε → Prop) (related : α → β → Prop) : Except ε α → Except δ β → Prop
  | ok {a : α} {b : β} : related a b → Outcome spent related (.ok a) (.ok b)
  | refused (e : ε) (d : δ) : Outcome spent related (.error e) (.error d)
  | stopped {e : ε} (plain : Except δ β) : spent e → Outcome spent related (.error e) plain

/-- From every state that `keeps` allows, the outcomes are related and the state is
allowed again. -/
def Refines (keeps : σ → Prop) (spent : ε → Prop) (related : α → β → Prop)
    (x : Metered σ ε α) (plain : Except δ β) : Prop :=
  ∀ state, keeps state → Outcome spent related (x state).1 plain ∧ keeps (x state).2

variable {keeps : σ → Prop} {spent : ε → Prop} {related : α → β → Prop} {next : γ → κ → Prop}

theorem refines_pure (holds : related a b) :
    Refines keeps spent related (pure a : Metered σ ε α) (.ok b : Except δ β) :=
  fun _ kept => ⟨.ok holds, kept⟩

theorem refines_throw (e : ε) (d : δ) :
    Refines keeps spent related (throw e : Metered σ ε α) (.error d) :=
  fun _ kept => ⟨.refused e d, kept⟩

theorem refines_stop (exhausted : spent e) (plain : Except δ β) :
    Refines keeps spent related (throw e : Metered σ ε α) plain :=
  fun _ kept => ⟨.stopped plain exhausted, kept⟩

theorem Refines.bind (first : Refines keeps spent related x plain)
    (rest : ∀ a b, related a b → Refines keeps spent next (f a) (g b)) :
    Refines keeps spent next (x >>= f) (plain >>= g) := by
  intro state kept
  obtain ⟨outcome, after⟩ := first state kept
  have ran : (x >>= f) state = match x state with
      | (.ok a, later) => f a later
      | (.error e, later) => (.error e, later) := by
    show ExceptT.bindCont f (x state).1 (x state).2 = _
    rcases x state with ⟨_ | _, _⟩ <;> rfl
  rw [ran]
  revert outcome after
  rcases x state with ⟨result, later⟩
  intro outcome after
  cases outcome with
  | ok holds => exact rest _ _ holds later after
  | refused e d => exact ⟨.refused e d, after⟩
  | stopped _ exhausted => exact ⟨.stopped _ exhausted, after⟩

theorem Outcome.mono {weak : α → β → Prop} (outcome : Outcome spent related result plain)
    (implies : ∀ a b, related a b → weak a b) : Outcome spent weak result plain := by
  cases outcome with
  | ok holds => exact .ok (implies _ _ holds)
  | refused e d => exact .refused e d
  | stopped _ exhausted => exact .stopped _ exhausted

variable {plain : Except δ β}

theorem Outcome.mapError {result : Except ε α}
    (outcome : Outcome spent related result plain) (stays : ∀ e, spent e → spent (f e)) :
    Outcome spent related (result.mapError f) (plain.mapError g) := by
  cases outcome with
  | ok holds => exact .ok holds
  | refused e d => exact .refused (f e) (g d)
  | stopped _ exhausted => exact .stopped _ (stays _ exhausted)

theorem Refines.mono {weak : α → β → Prop} (refines : Refines keeps spent related x plain)
    (implies : ∀ a b, related a b → weak a b) :
    Refines keeps spent weak x plain := fun state kept =>
  ⟨(refines state kept).1.mono implies, (refines state kept).2⟩

theorem Outcome.result {result : Except ε α}
    (outcome : Outcome spent related result plain) :
    Outcome spent (fun a b => related a b ∧ plain = .ok b) result plain := by
  cases outcome with
  | ok holds => exact .ok ⟨holds, rfl⟩
  | refused e d => exact .refused e d
  | stopped _ exhausted => exact .stopped _ exhausted

theorem Refines.result (refines : Refines keeps spent related x plain) :
    Refines keeps spent (fun a b => related a b ∧ plain = .ok b) x plain := fun state kept =>
  ⟨(refines state kept).1.result, (refines state kept).2⟩

/-- The plain computation may finish with a step that cannot fail. -/
theorem Refines.map {x : Metered σ ε α} {finish : β → κ}
    {ends : α → κ → Prop} (refines : Refines keeps spent related x plain)
    (implies : ∀ a b, related a b → ends a (finish b)) :
    Refines keeps spent ends x (plain >>= fun b => .ok (finish b)) := by
  intro state kept
  obtain ⟨outcome, after⟩ := refines state kept
  refine ⟨?_, after⟩
  revert outcome
  generalize (x state).1 = result
  intro outcome
  cases outcome with
  | ok holds => exact .ok (implies _ _ holds)
  | refused e d => exact .refused e d
  | stopped _ exhausted => exact .stopped _ exhausted

/-- Errors may be relabelled, as long as a spent budget stays one. -/
theorem Refines.adapt (refines : Refines keeps spent related x plain)
    (stays : ∀ e, spent e → spent (f e)) :
    Refines keeps spent related (ExceptT.adapt f x) (plain.mapError g) := fun state kept =>
  ⟨(refines state kept).1.mapError stays, (refines state kept).2⟩

/-- A step that has no counterpart in the plain computation: it can only run out. -/
def Charges (keeps : σ → Prop) (spent : ε → Prop) (post : α → Prop) (x : Metered σ ε α) : Prop :=
  Refines keeps spent (fun a (_ : Unit) => post a) x (.ok () : Except Empty Unit)

variable {post : α → Prop} {further : γ → Prop}

theorem charges_pure (holds : post a) : Charges keeps spent post (pure a : Metered σ ε α) :=
  refines_pure holds

theorem charges_throw (exhausted : spent e) : Charges keeps spent post (throw e : Metered σ ε α) :=
  fun _ kept => ⟨.stopped _ exhausted, kept⟩

theorem charges_get : Charges keeps spent keeps (get : Metered σ ε σ) :=
  fun _ kept => ⟨.ok kept, kept⟩

theorem charges_set (kept : keeps state) :
    Charges keeps spent (fun _ => True) (set state : Metered σ ε PUnit) :=
  fun _ _ => ⟨.ok trivial, kept⟩

theorem charges_modify (stays : ∀ state, keeps state → keeps (f state)) :
    Charges keeps spent (fun _ => True) (modify f : Metered σ ε PUnit) :=
  fun state kept => ⟨.ok trivial, stays state kept⟩

theorem Charges.bind (first : Charges keeps spent post x)
    (rest : ∀ a, post a → Charges keeps spent further (f a)) :
    Charges keeps spent further (x >>= f) :=
  Refines.bind first fun a _ holds => rest a holds

theorem Outcome.of_charge {result : Except ε α} {b : β}
    (outcome : Outcome spent (fun a (_ : Unit) => post a) result (.ok () : Except Empty Unit))
    (implies : ∀ a, post a → related a b) :
    Outcome spent related result (.ok b : Except δ β) := by
  cases outcome with
  | ok holds => exact .ok (implies _ holds)
  | stopped _ exhausted => exact .stopped _ exhausted

theorem Charges.refines (charges : Charges keeps spent post x) (implies : ∀ a, post a → related a b) :
    Refines keeps spent related x (.ok b : Except δ β) := fun state kept =>
  ⟨(charges state kept).1.of_charge implies, (charges state kept).2⟩

theorem Outcome.charge {result : Except ε α} {b : β}
    (outcome : Outcome spent related result (.ok b : Except δ β)) :
    Outcome spent (fun a (_ : Unit) => related a b) result (.ok () : Except Empty Unit) := by
  cases outcome with
  | ok holds => exact .ok holds
  | stopped _ exhausted => exact .stopped _ exhausted

theorem Refines.charges (refines : Refines keeps spent related x (.ok b : Except δ β)) :
    Charges keeps spent (related · b) x := fun state kept =>
  ⟨(refines state kept).1.charge, (refines state kept).2⟩

theorem Charges.step {x : Metered σ ε α} {f : α → Metered σ ε γ} {plain : Except δ κ}
    (first : Charges keeps spent post x)
    (rest : ∀ a, post a → Refines keeps spent next (f a) plain) :
    Refines keeps spent next (x >>= f) plain := by
  have silent : Refines keeps spent (fun a (_ : Unit) => post a) x (.ok () : Except δ Unit) :=
    first.refines fun _ holds => holds
  exact silent.bind fun a _ holds => rest a holds

theorem Refines.attempt (refines : Refines keeps spent related x plain) :
    Charges keeps spent (Outcome spent related · plain) (attempt x) := fun state kept =>
  ⟨.ok (refines state kept).1, (refines state kept).2⟩

end Metered

end RustX
