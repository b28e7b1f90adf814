import Mathlib

/-!
Checked computations: what a successful sequence of checks says.
-/
namespace RustX.Checked

variable {ε δ α β : Type}

/-- Refuse with `error` unless `condition` holds. -/
def require (condition : Bool) (error : ε) : Except ε Unit :=
  if condition then .ok () else .error error

@[simp] theorem require_eq_ok_iff : require condition error = .ok done ↔ condition = true := by
  cases condition <;> simp [require]

@[simp] theorem bind_eq_ok_iff {f : α → Except ε β} :
    (x >>= f) = .ok b ↔ ∃ a, x = .ok a ∧ f a = .ok b := by
  cases x with
  | error e => simp [bind, Except.bind]
  | ok a => simp [bind, Except.bind]

@[simp] theorem ok_bind {f : α → Except ε β} : (.ok a >>= f) = f a := rfl

@[simp] theorem pure_eq_ok_iff : (pure a : Except ε α) = .ok b ↔ a = b := by
  simp [pure, Except.pure]

@[simp] theorem mapError_eq_ok_iff {x : Except ε α} : x.mapError f = .ok a ↔ x = .ok a := by
  cases x <;> simp [Except.mapError]

@[simp] theorem toOption_eq_some_iff {x : Except ε α} : x.toOption = some a ↔ x = .ok a := by
  cases x <;> simp [Except.toOption]

@[simp] theorem exists_eq_ok_unit_iff {x : Except ε Unit} : (∃ done, x = .ok done) ↔ x = .ok () :=
  ⟨fun ⟨_, ok⟩ => ok, fun ok => ⟨(), ok⟩⟩

@[simp] theorem forM_eq_ok_iff {check : α → Except ε Unit} {items : List α} :
    forM items check = .ok done ↔ ∀ item ∈ items, check item = .ok () := by
  induction items with
  | nil => simp
  | cons item items ih => simp [ih]

def whenSome (value : Option α) (check : α → Except ε Unit) : Except ε Unit :=
  match value with
  | none => .ok ()
  | some value => check value

/-- A computation that returns a result with `post`, or fails with an allowed error. -/
def Yields (allowed : ε → Prop) (post : α → Prop) : Except ε α → Prop
  | .ok a => post a
  | .error e => allowed e

section Yields

variable {allowed : ε → Prop} {post : α → Prop} {next : β → Prop}

@[simp] theorem yields_ok : Yields allowed post (.ok a) ↔ post a := Iff.rfl

@[simp] theorem yields_error : Yields allowed post (.error e) ↔ allowed e := Iff.rfl

theorem Yields.bind (first : Yields allowed post x) (rest : ∀ a, post a → Yields allowed next (f a)) :
    Yields allowed next (x >>= f) := by
  cases x with
  | error e => exact first
  | ok a => exact rest a first

theorem Yields.mono {strong weak : α → Prop} (yields : Yields allowed strong x)
    (implies : ∀ a, strong a → weak a) : Yields allowed weak x := by
  cases x with
  | error e => exact yields
  | ok a => exact implies a yields

theorem yields_require (refused : condition = false → allowed error) :
    Yields allowed (fun _ => condition = true) (require condition error) := by
  cases condition with
  | false => exact refused rfl
  | true => exact rfl

theorem Yields.foldlM {items : List α}
    (each : ∀ state item, next state → Yields allowed next (step state item)) (begins : next state) :
    Yields allowed next (items.foldlM step state) := by
  induction items generalizing state with
  | nil => exact begins
  | cons item items ih =>
    exact (each state item begins).bind fun state keeps => ih keeps

theorem yields_forM {items : List α}
    (each : ∀ item ∈ items, Yields allowed (fun _ => post item) (check item)) :
    Yields allowed (fun _ => ∀ item ∈ items, post item) (forM items check) := by
  induction items with
  | nil => exact fun _ member => nomatch member
  | cons item items ih =>
    refine (each item List.mem_cons_self).bind fun _ here => ?_
    refine (ih fun other member => each other (.tail _ member)).mono fun _ rest => ?_
    exact List.forall_mem_cons.mpr ⟨here, rest⟩

theorem yields_whenSome
    (each : ∀ item, value = some item → Yields allowed (fun _ => post item) (check item)) :
    Yields allowed (fun _ => ∀ item, value = some item → post item) (whenSome value check) := by
  cases value with
  | none => simp [whenSome]
  | some item => simpa [whenSome] using each item rfl

end Yields

/-- A stateful computation that, when it returns, keeps an invariant of its state and
returns a result with `post`. -/
def Ensures {σ : Type} (keeps : σ → Prop) (x : StateT σ (Except ε) α) (post : α → Prop) : Prop :=
  ∀ state, keeps state → Yields (fun _ => True) (fun (a, after) => keeps after ∧ post a) (x state)

section Ensures

variable {σ : Type} {keeps : σ → Prop} {post : α → Prop} {next : β → Prop}

theorem Ensures.bind (first : Ensures keeps x post) (rest : ∀ a, post a → Ensures keeps (f a) next) :
    Ensures keeps (x >>= f) next := fun state held =>
  (first state held).bind fun (a, after) result => rest a result.2 after result.1

theorem Ensures.mono {weak : α → Prop} (ensures : Ensures keeps x post)
    (implies : ∀ a, post a → weak a) : Ensures keeps x weak := fun state held =>
  (ensures state held).mono fun _ result => ⟨result.1, implies _ result.2⟩

theorem ensures_pure (holds : post a) : Ensures keeps (pure a : StateT σ (Except ε) α) post :=
  fun _ held => ⟨held, holds⟩

theorem ensures_throw : Ensures keeps (throw e : StateT σ (Except ε) α) post :=
  fun _ _ => trivial

theorem ensures_lift {x : Except ε α} (returns : ∀ a, x = .ok a → post a) :
    Ensures keeps (monadLift x : StateT σ (Except ε) α) post := by
  intro state held
  cases x with
  | error e => trivial
  | ok a => exact ⟨held, returns a rfl⟩

theorem ensures_forM {items : List α} (each : ∀ item, Ensures keeps (act item) fun _ => True) :
    Ensures keeps (forM items act) fun _ => True := by
  induction items with
  | nil => exact ensures_pure trivial
  | cons item items ih =>
    exact (each item).bind fun _ _ => ih

end Ensures

/-- As `Ensures`, with the errors the computation may end in. -/
def Serves {σ : Type} (allowed : ε → Prop) (keeps : σ → Prop) (x : StateT σ (Except ε) α)
    (post : α → Prop) : Prop :=
  ∀ state, keeps state → Yields allowed (fun (a, after) => keeps after ∧ post a) (x state)

section Serves

variable {σ : Type} {allowed : ε → Prop} {keeps : σ → Prop} {post : α → Prop} {next : β → Prop}

theorem Serves.bind (first : Serves allowed keeps x post)
    (rest : ∀ a, post a → Serves allowed keeps (f a) next) :
    Serves allowed keeps (x >>= f) next := fun state held =>
  (first state held).bind fun (a, after) result => rest a result.2 after result.1

theorem Serves.allow {further : ε → Prop} (serves : Serves allowed keeps x post)
    (more : ∀ e, allowed e → further e) : Serves further keeps x post := by
  intro state held
  have result := serves state held
  revert result
  cases x state with
  | error e => exact more e
  | ok result => exact id

theorem serves_pure (holds : post a) : Serves allowed keeps (pure a : StateT σ (Except ε) α) post :=
  fun _ held => ⟨held, holds⟩

theorem serves_lift (yields : Yields allowed post x) :
    Serves allowed keeps (monadLift x : StateT σ (Except ε) α) post := by
  intro state held
  cases x with
  | error e => exact yields
  | ok a => exact ⟨held, yields⟩

end Serves

/-- A computation that succeeds exactly under `allowed`, with a result that has `post`. -/
structure Exactly (allowed : Prop) (post : α → Prop) (x : Except ε α) : Prop where
  succeeds : allowed → ∃ a, x = .ok a ∧ post a
  refuses : ¬ allowed → ∃ e, x = .error e

section Exactly

variable {allowed further : Prop} {post : α → Prop} {next : β → Prop}

theorem exactly_ok (holds : allowed) (keeps : post a) : Exactly allowed post (.ok a : Except ε α) :=
  ⟨fun _ => ⟨a, rfl, keeps⟩, fun refused => absurd holds refused⟩

theorem exactly_error (fails : ¬ allowed) : Exactly allowed post (.error e) :=
  ⟨fun holds => absurd holds fails, fun _ => ⟨e, rfl⟩⟩

theorem Exactly.isOk_iff (exactly : Exactly allowed post x) : (∃ a, x = .ok a) ↔ allowed := by
  constructor
  · rintro ⟨a, result⟩
    by_contra refused
    obtain ⟨e, failed⟩ := exactly.refuses refused
    rw [result] at failed
    cases failed
  · intro holds
    obtain ⟨a, result, _⟩ := exactly.succeeds holds
    exact ⟨a, result⟩

theorem Exactly.bind (first : Exactly allowed post x)
    (rest : ∀ a, post a → Exactly further next (f a)) :
    Exactly (allowed ∧ further) next (x >>= f) := by
  by_cases holds : allowed
  · obtain ⟨a, rfl, keeps⟩ := first.succeeds holds
    refine ⟨fun both => (rest a keeps).succeeds both.2, fun refused => (rest a keeps).refuses ?_⟩
    exact fun second => refused ⟨holds, second⟩
  · obtain ⟨e, rfl⟩ := first.refuses holds
    exact exactly_error fun both => holds both.1

/-- What follows the first part never fails. -/
theorem Exactly.andThen {f : α → Except ε β} (first : Exactly allowed post x)
    (rest : allowed → ∀ a, post a → ∃ b, f a = .ok b ∧ next b) :
    Exactly allowed next (x >>= f) := by
  by_cases holds : allowed
  · obtain ⟨a, rfl, keeps⟩ := first.succeeds holds
    obtain ⟨b, result, keeps⟩ := rest holds a keeps
    rw [ok_bind, result]
    exact exactly_ok holds keeps
  · obtain ⟨e, rfl⟩ := first.refuses holds
    exact exactly_error holds

theorem Exactly.mono {weak : α → Prop} (exactly : Exactly allowed post x) (same : further ↔ allowed)
    (implies : allowed → ∀ a, post a → weak a) : Exactly further weak x := by
  refine ⟨fun holds => ?_, fun refused => exactly.refuses (mt same.mpr refused)⟩
  obtain ⟨a, result, keeps⟩ := exactly.succeeds (same.mp holds)
  exact ⟨a, result, implies (same.mp holds) a keeps⟩

end Exactly

end RustX.Checked
