import RustX.Workflow.Merge

/-!
Reservations with their checked subtractions. An activity here may panic where an unsigned
subtraction of the program would underflow; what it holds is always a part of what the run
retains, so that none of them does.
-/
namespace RustX

open Checked List Assoc

/-- An activity as the program runs it: without a result where it panics. -/
def Guarded (α : Type) := Frame → Option (Except Failure α × Frame)

namespace Guarded

variable {α β γ δ : Type}

instance : Monad Guarded where
  pure value := fun frame => some (.ok value, frame)
  bind activity next := fun frame =>
    match activity frame with
    | some (.ok value, frame) => next value frame
    | some (.error failure, frame) => some (.error failure, frame)
    | none => none

def fail (failure : Failure) : Guarded α := fun frame => some (.error failure, frame)

def lift (result : Except RunError α) : Guarded α := fun frame =>
  some (result.mapError .value, frame)

def subtract (a b : Nat) : Guarded Nat := fun frame =>
  if b ≤ a then some (.ok (a - b), frame) else none

/-- `LocalReservation::retain_bytes`, with the bytes of the reservation. -/
def retainBytes (reservation bytes : Nat) : Guarded Nat := fun frame =>
  match Accounted.retainBytes bytes frame with
  | (.ok _, frame) => some (.ok (reservation + bytes), frame)
  | (.error failure, frame) => some (.error failure, frame)

def drop (reservation : Nat) : Guarded Unit := fun frame =>
  if reservation ≤ frame.budgets.retainedBytes then
    some (.ok (), { budgets := frame.budgets.drop reservation, held := frame.held - reservation })
  else none

def release (reservation bytes : Nat) : Guarded Nat := do
  let left ← subtract reservation bytes
  drop bytes
  return left

def shrinkTo (reservation bytes : Nat) : Guarded Nat := do
  let excess ← subtract reservation bytes
  release reservation excess

/-- An activity that begins with `held` bytes does not panic and leaves the other bytes of the
run as they were; its result and the bytes it then holds have `post`. -/
def Balanced (held : Nat) (x : Guarded α) (post : α → Nat → Prop) : Prop :=
  ∀ frame : Frame, frame.held = held → held ≤ frame.budgets.retainedBytes →
    ∃ result after, x frame = some (result, after) ∧ after.held ≤ after.budgets.retainedBytes ∧
      after.budgets.retainedBytes + held = frame.budgets.retainedBytes + after.held ∧
      ∀ a, result = .ok a → post a after.held

section Balanced

variable {post : α → Nat → Prop} {next : β → Nat → Prop}

theorem Balanced.bind (first : Balanced held x post)
    (rest : ∀ a now, post a now → Balanced now (f a) next) : Balanced held (x >>= f) next := by
  intro frame begins within
  obtain ⟨result, middle, ran, inside, balance, kept⟩ := first frame begins within
  simp only [Bind.bind, ran]
  cases result with
  | error failure => exact ⟨.error failure, middle, rfl, inside, balance, nofun⟩
  | ok a =>
    obtain ⟨result, after, ran, within', balance', kept'⟩ := rest a _ (kept a rfl) middle rfl inside
    exact ⟨result, after, ran, within', by omega, kept'⟩

theorem Balanced.mono {weak : α → Nat → Prop} (balanced : Balanced held x post)
    (implies : ∀ a now, post a now → weak a now) : Balanced held x weak := by
  intro frame begins within
  obtain ⟨result, after, ran, inside, balance, kept⟩ := balanced frame begins within
  exact ⟨result, after, ran, inside, balance, fun a same => implies a _ (kept a same)⟩

theorem balanced_pure (holds : post a held) : Balanced held (pure a) post := by
  rintro frame rfl within
  exact ⟨.ok a, frame, rfl, within, rfl, by rintro _ ⟨⟩; exact holds⟩

theorem balanced_fail (failure : Failure) : Balanced held (fail failure : Guarded α) post := by
  rintro frame rfl within
  exact ⟨_, frame, rfl, within, rfl, nofun⟩

theorem balanced_lift (x : Except RunError α) :
    Balanced held (lift x) fun a now => x = .ok a ∧ now = held := by
  rintro frame rfl within
  refine ⟨_, frame, rfl, within, rfl, fun a same => ⟨?_, rfl⟩⟩
  cases x with
  | error failure => cases same
  | ok value => exact congrArg _ (Except.ok.inj same)

theorem balanced_subtract (order : b ≤ a) :
    Balanced held (subtract a b) fun left now => left = a - b ∧ now = held := by
  rintro frame rfl within
  refine ⟨.ok _, frame, if_pos order, within, rfl, ?_⟩
  rintro _ ⟨⟩
  exact ⟨rfl, rfl⟩

theorem balanced_retainBytes (reservation bytes : Nat) :
    Balanced held (retainBytes reservation bytes) fun now total =>
      now = reservation + bytes ∧ total = held + bytes := by
  rintro frame rfl within
  unfold retainBytes Accounted.retainBytes
  by_cases large : bytes > maxValueBytes
  · simp only [large, if_true]
    exact ⟨_, _, rfl, within, rfl, nofun⟩
  · by_cases full : frame.budgets.retainedBytes + bytes > frame.budgets.reservedBytes
    · simp only [large, full, if_true, if_false]
      exact ⟨_, _, rfl, within, rfl, nofun⟩
    · simp only [large, full, if_false]
      refine ⟨_, _, rfl, Nat.add_le_add_right within bytes, by simp only; omega, ?_⟩
      rintro _ ⟨⟩
      exact ⟨rfl, rfl⟩

theorem balanced_drop (owned : reservation ≤ held) :
    Balanced held (drop reservation) fun _ now => now = held - reservation := by
  rintro frame rfl within
  refine ⟨.ok (), _, if_pos (owned.trans within), ?_, ?_, fun _ _ => rfl⟩
  · exact Nat.sub_le_sub_right within reservation
  · simp only [RunBudgets.drop]
    omega

theorem balanced_release (order : bytes ≤ reservation) (owned : reservation ≤ held) :
    Balanced held (release reservation bytes) fun left now =>
      left = reservation - bytes ∧ now = held - bytes := by
  refine (balanced_subtract order).bind ?_
  rintro _ _ ⟨rfl, rfl⟩
  refine (balanced_drop (order.trans owned)).bind ?_
  rintro _ _ rfl
  exact balanced_pure ⟨rfl, rfl⟩

theorem balanced_shrinkTo (order : bytes ≤ reservation) (owned : reservation ≤ held) :
    Balanced held (shrinkTo reservation bytes) fun left now =>
      left = bytes ∧ now = held - (reservation - bytes) := by
  refine (balanced_subtract order).bind ?_
  rintro _ _ ⟨rfl, rfl⟩
  refine (balanced_release (Nat.sub_le _ _) owned).mono ?_
  rintro _ _ ⟨rfl, rfl⟩
  exact ⟨Nat.sub_sub_self order, rfl⟩

/-- An activity that begins with nothing gives back all it took once what it holds ends. -/
theorem Balanced.restores (balanced : Balanced 0 x post) (budgets : RunBudgets) :
    ∃ result after held, x ⟨budgets, 0⟩ = some (result, ⟨after, held⟩) ∧
      held ≤ after.retainedBytes ∧ (after.drop held).retainedBytes = budgets.retainedBytes ∧
      ∀ a, result = .ok a → post a held := by
  obtain ⟨result, ⟨after, held⟩, ran, within, balance, kept⟩ :=
    balanced ⟨budgets, 0⟩ rfl (Nat.zero_le _)
  refine ⟨result, after, held, ran, within, ?_, kept⟩
  simp only [RunBudgets.drop] at balance ⊢
  omega

end Balanced

/-- The results of two activities that end alike. -/
def Alike (same : α → β → Prop) : Except Failure α → Except Failure β → Prop
  | .ok a, .ok b => same a b
  | .error failure, .error failure' => failure = failure'
  | _, _ => False

/-- Wherever the guarded activity does not panic, it does what the plain one does. -/
def Agrees (x : Guarded α) (y : Accounted β) (same : α → β → Prop) : Prop :=
  ∀ frame result after, x frame = some (result, after) →
    ∃ result', y frame = (result', after) ∧ Alike same result result'

section Agrees

variable {same : α → β → Prop} {next : γ → δ → Prop}

theorem Agrees.bind (first : Agrees x y same) (rest : ∀ a b, same a b → Agrees (f a) (g b) next) :
    Agrees (x >>= f) (y >>= g) next := by
  intro frame result after ran
  simp only [Bind.bind] at ran ⊢
  cases begun : x frame with
  | none =>
    rw [begun] at ran
    cases ran
  | some outcome =>
    obtain ⟨middle, now⟩ := outcome
    obtain ⟨middle', same', alike⟩ := first frame middle now begun
    rw [begun] at ran
    rw [same']
    cases middle with
    | error failure =>
      cases middle' with
      | ok b => exact alike.elim
      | error failure' =>
        cases ran
        exact ⟨_, rfl, alike⟩
    | ok a =>
      cases middle' with
      | error failure' => exact alike.elim
      | ok b => exact rest a b alike now result after ran

theorem agrees_pure (holds : same a b) : Agrees (pure a) (pure b : Accounted β) same := by
  rintro frame _ _ ⟨⟩
  exact ⟨.ok b, rfl, holds⟩

theorem agrees_lift (x : Except RunError α) :
    Agrees (lift x) (Accounted.lift x) fun a b => a = b := by
  rintro frame _ _ ⟨⟩
  refine ⟨_, rfl, ?_⟩
  cases x <;> exact rfl

theorem agrees_subtract (rest : Agrees (f (a - b)) y same) : Agrees (subtract a b >>= f) y same := by
  intro frame result after ran
  by_cases order : b ≤ a
  · refine rest frame result after ?_
    simpa [subtract, order, bind] using ran
  · simp [subtract, order, bind] at ran

theorem agrees_retainBytes (reservation bytes : Nat) :
    Agrees (retainBytes reservation bytes) (Accounted.retainBytes bytes)
      fun now _ => now = reservation + bytes := by
  intro frame result after ran
  unfold retainBytes at ran
  generalize Accounted.retainBytes bytes frame = outcome at ran ⊢
  obtain ⟨_ | _, middle⟩ := outcome <;> cases ran <;> exact ⟨_, rfl, rfl⟩

theorem agrees_release (reservation bytes : Nat) :
    Agrees (release reservation bytes) (Accounted.release bytes)
      fun now _ => now = reservation - bytes := by
  intro frame result after ran
  by_cases order : bytes ≤ reservation
  · by_cases owned : bytes ≤ frame.budgets.retainedBytes
    · have ran' : release reservation bytes frame = some (.ok (reservation - bytes),
          { budgets := frame.budgets.drop bytes, held := frame.held - bytes }) := by
        simp [release, subtract, drop, order, owned, bind, pure]
      cases ran'.symm.trans ran
      exact ⟨_, rfl, rfl⟩
    · simp [release, subtract, drop, order, owned, bind] at ran
  · simp [release, subtract, order, bind] at ran

end Agrees

section Merge

variable [FloatText]

def mergedBytes (vars : List (String × Json)) : Nat → List (String × Json) → Guarded Nat
  | bytes, [] => pure bytes
  | bytes, (label, value) :: fields => do
    let previous ← lift (previousVariable vars label)
    let before ← lift (boundedValueBytes previous)
    let without ← subtract bytes before
    let after ← lift (boundedValueBytes value)
    mergedBytes vars (without + after) fields

def mergeOwner (values : Values) (owner : String) (fields : List (String × Json))
    (retained : Nat) : Guarded (Json × Nat) := do
  let vars ← lift (ownerVariables values owner)
  let previousBytes ← lift (boundedValueBytes (.object vars))
  let bytes ← mergedBytes vars previousBytes fields
  let peak := max previousBytes bytes
  let retained ← retainBytes retained peak
  let merged := Json.object (replaceFields vars fields)
  let _ ← lift (boundedValueBytes merged)
  let excess ← subtract peak bytes
  let retained ← release retained excess
  return (merged, retained)

def mergeOwners (values : Values) :
    List (String × List (String × Json)) → Nat → Guarded (List (String × Json) × Nat)
  | [], retained => pure ([], retained)
  | (owner, fields) :: updates, retained => do
    let (merged, retained) ← mergeOwner values owner fields retained
    let (prepared, retained) ← mergeOwners values updates retained
    return ((owner, merged) :: prepared, retained)

def mergeWrites (values : Values) (writes : List (String × String × Json)) :
    Guarded (Values × Nat) := do
  let (prepared, retained) ← mergeOwners values (groupWrites writes []) 0
  return (prepared.foldl (fun values entry => Function.update values entry.1 (some entry.2)) values,
    retained)

/-- The outcome of `merge_writes`, and the values of the graph after it. -/
def publishWrites (values : Values) (writes : List (String × String × Json)) (frame : Frame) :
    Option (Except Failure Nat × Values × Frame) :=
  match mergeWrites values writes frame with
  | some (.ok (merged, retained), after) => some (.ok retained, merged, after)
  | some (.error failure, after) => some (.error failure, values, after)
  | none => none

theorem boundedValueBytes_ok (ok : boundedValueBytes value = .ok bytes) :
    bytes = value.serializedBytes := by
  unfold boundedValueBytes at ok
  split at ok
  · cases ok
  · split at ok
    · cases ok
    · exact (Except.ok.inj ok).symm

variable {vars : List (String × Json)}

section

omit [FloatText]

theorem previousVariable_ok (ok : previousVariable vars label = .ok value) :
    vars.lookup label = some value := by
  unfold previousVariable at ok
  split at ok
  · cases ok
  · rename_i found
    rw [found, Except.ok.inj ok]

theorem keys_replaceFields (vars fields : List (String × Json)) :
    (replaceFields vars fields).map Prod.fst = vars.map Prod.fst := by
  simp [replaceFields]

theorem replaceFields_nil (vars : List (String × Json)) : replaceFields vars [] = vars := by
  simp [replaceFields]

theorem replaceFields_cons (vars fields : List (String × Json)) (value : Json)
    (fresh : label ∉ fields.map Prod.fst) :
    replaceFields vars ((label, value) :: fields) =
      replaceFields (replaceFields vars [(label, value)]) fields := by
  have absent : fields.lookup label = none := by
    rw [← Option.not_isSome_iff_eq_none, Assoc.lookup_isSome_iff]
    exact fresh
  simp only [replaceFields, map_map]
  refine map_congr_left fun entry _ => ?_
  simp only [Function.comp_apply, lookup_cons_ite]
  by_cases same : entry.1 = label
  · simp [same, absent]
  · simp [same]

theorem lookup_replaceFields_ne (vars : List (String × Json)) (value : Json) (ne : other ≠ label) :
    (replaceFields vars [(label, value)]).lookup other = vars.lookup other := by
  rw [replaceFields, lookup_map_value vars
    (fun name old => (List.lookup name [(label, value)]).getD old)]
  simp [lookup_cons_ite, ne]

end

/-- One variable of an owner takes the place of another value. -/
theorem sum_replaceFields (value : Json) (distinct : (vars.map Prod.fst).Nodup)
    (found : vars.lookup label = some previous) :
    ((replaceFields vars [(label, value)]).map Json.memberBytes).sum + previous.serializedBytes =
      (vars.map Json.memberBytes).sum + value.serializedBytes := by
  induction vars with
  | nil => cases found
  | cons entry vars ih =>
    obtain ⟨fresh, distinct⟩ := nodup_cons.mp distinct
    rw [lookup_cons_ite] at found
    split at found
    · rename_i same
      cases found
      have others : replaceFields vars [(label, value)] = vars := by
        refine (map_congr_left fun other member => ?_).trans (map_id vars)
        have differs : other.1 ≠ label := fun equal =>
          fresh (same ▸ equal ▸ mem_map_of_mem member)
        simp [lookup_cons_ite, differs]
      have head : replaceFields (entry :: vars) [(label, value)] =
          (entry.1, value) :: replaceFields vars [(label, value)] := by
        simp [replaceFields, same]
      rw [head, others]
      simp only [map_cons, sum_cons, Json.memberBytes]
      omega
    · rename_i differs
      have head : replaceFields (entry :: vars) [(label, value)] =
          entry :: replaceFields vars [(label, value)] := by
        simp [replaceFields, lookup_cons_ite, Ne.symm differs]
      have rest := ih distinct found
      rw [head]
      simp only [map_cons, sum_cons]
      omega

theorem memberBytes_le (found : vars.lookup label = some value) :
    value.serializedBytes ≤ (vars.map Json.memberBytes).sum := by
  have least : Json.memberBytes (label, value) ≤ (vars.map Json.memberBytes).sum :=
    single_le_sum (fun _ _ => Nat.zero_le _) _ (mem_map_of_mem (mem_of_lookup found))
  simp only [Json.memberBytes] at least
  omega

theorem serializedBytes_replaceFields (value : Json) (distinct : (vars.map Prod.fst).Nodup)
    (found : vars.lookup label = some previous) :
    previous.serializedBytes ≤ (Json.object vars).serializedBytes ∧
      (Json.object (replaceFields vars [(label, value)])).serializedBytes =
        (Json.object vars).serializedBytes - previous.serializedBytes + value.serializedBytes := by
  have sum := sum_replaceFields value distinct found
  have least := memberBytes_le found
  have length : (replaceFields vars [(label, value)]).length = vars.length := by
    simp [replaceFields]
  rw [Json.serializedBytes_object, Json.serializedBytes_object, length]
  omega

/-- `current` is the owner with the fields merged so far; the fields that follow have other
labels, for which it still has the variables of `vars`. -/
theorem balanced_mergedBytes {current fields : List (String × Json)}
    (distinct : (current.map Prod.fst).Nodup) (labels : (fields.map Prod.fst).Nodup)
    (unread : ∀ label ∈ fields.map Prod.fst, vars.lookup label = current.lookup label) :
    Balanced held (mergedBytes vars (Json.object current).serializedBytes fields)
      fun bytes now => bytes = (Json.object (replaceFields current fields)).serializedBytes ∧
        now = held ∧ ∀ label ∈ fields.map Prod.fst, (current.lookup label).isSome = true := by
  induction fields generalizing current with
  | nil => exact balanced_pure ⟨by rw [replaceFields_nil], rfl, nofun⟩
  | cons field fields ih =>
    obtain ⟨label, value⟩ := field
    obtain ⟨fresh, labels⟩ := nodup_cons.mp labels
    obtain ⟨own, others⟩ := forall_mem_cons.mp unread
    refine (balanced_lift _).bind ?_
    rintro previous _ ⟨found, rfl⟩
    replace found : current.lookup label = some previous := own ▸ previousVariable_ok found
    refine (balanced_lift _).bind ?_
    rintro before _ ⟨ok, rfl⟩
    obtain rfl := boundedValueBytes_ok ok
    obtain ⟨fits, size⟩ := serializedBytes_replaceFields value distinct found
    refine (balanced_subtract fits).bind ?_
    rintro _ _ ⟨rfl, rfl⟩
    refine (balanced_lift _).bind ?_
    rintro after _ ⟨ok, rfl⟩
    obtain rfl := boundedValueBytes_ok ok
    rw [← size]
    have kept : ∀ other ∈ fields.map Prod.fst,
        (replaceFields current [(label, value)]).lookup other = current.lookup other := by
      intro other member
      exact lookup_replaceFields_ne current value fun same => fresh (same ▸ member)
    refine (ih (keys_replaceFields current _ ▸ distinct) labels fun other member => ?_).mono ?_
    · rw [others other member, kept other member]
    · rintro bytes now ⟨rfl, rfl, present⟩
      refine ⟨by rw [replaceFields_cons current fields value fresh], rfl, ?_⟩
      refine forall_mem_cons.mpr ⟨by rw [found]; rfl, fun other member => ?_⟩
      rw [← kept other member]
      exact present other member

/-- The owners of a graph are objects of decoded documents: no variable twice. -/
def DistinctOwners (values : Values) : Prop :=
  ∀ owner vars, values owner = some (.object vars) → (vars.map Prod.fst).Nodup

variable {values : Values}

theorem balanced_mergeOwner (owners : DistinctOwners values) (owner : String)
    {fields : List (String × Json)} (labels : (fields.map Prod.fst).Nodup) (owned : retained ≤ held) :
    Balanced held (mergeOwner values owner fields retained) fun (merged, retained') now =>
      retained' = retained + merged.serializedBytes ∧ now = held + merged.serializedBytes ∧
      ∃ vars, values owner = some (.object vars) ∧
        ∀ label ∈ fields.map Prod.fst, (vars.lookup label).isSome = true := by
  refine (balanced_lift _).bind ?_
  rintro vars _ ⟨ok, rfl⟩
  have found := ownerVariables_ok.mp ok
  refine (balanced_lift _).bind ?_
  rintro previousBytes _ ⟨ok, rfl⟩
  obtain rfl := boundedValueBytes_ok ok
  refine (balanced_mergedBytes (owners owner vars found) labels fun _ _ => rfl).bind ?_
  rintro _ _ ⟨rfl, rfl, present⟩
  refine (balanced_retainBytes retained _).bind ?_
  rintro _ _ ⟨rfl, rfl⟩
  refine (balanced_lift _).bind ?_
  rintro _ _ ⟨_, rfl⟩
  refine (balanced_subtract (Nat.le_max_right _ _)).bind ?_
  rintro _ _ ⟨rfl, rfl⟩
  refine (balanced_release (by omega) (by omega)).bind ?_
  rintro _ _ ⟨rfl, rfl⟩
  exact balanced_pure ⟨by omega, by omega, vars, found, present⟩

def ownersBytes (owners : List (String × Json)) : Nat :=
  (owners.map fun owner => owner.2.serializedBytes).sum

theorem balanced_mergeOwners (owners : DistinctOwners values)
    (labels : ∀ update ∈ updates, (update.2.map Prod.fst).Nodup) (owned : retained ≤ held) :
    Balanced held (mergeOwners values updates retained) fun (prepared, retained') now =>
      retained' = retained + ownersBytes prepared ∧ now = held + ownersBytes prepared ∧
      prepared.map Prod.fst = updates.map Prod.fst ∧
      ∀ update ∈ updates, ∃ vars, values update.1 = some (.object vars) ∧
        ∀ label ∈ update.2.map Prod.fst, (vars.lookup label).isSome = true := by
  induction updates generalizing retained held with
  | nil => exact balanced_pure ⟨rfl, rfl, rfl, nofun⟩
  | cons update updates ih =>
    obtain ⟨owner, fields⟩ := update
    obtain ⟨here, later⟩ := forall_mem_cons.mp labels
    refine (balanced_mergeOwner owners owner here owned).bind ?_
    rintro ⟨merged, _⟩ _ ⟨rfl, rfl, present⟩
    refine (ih later (Nat.add_le_add_right owned _)).bind ?_
    rintro ⟨prepared, _⟩ _ ⟨rfl, rfl, keys, others⟩
    refine balanced_pure ⟨?_, ?_, congrArg _ keys, forall_mem_cons.mpr ⟨present, others⟩⟩
    · simp only [ownersBytes, map_cons, sum_cons]
      omega
    · simp only [ownersBytes, map_cons, sum_cons]
      omega

theorem agrees_mergedBytes (vars : List (String × Json)) (bytes : Nat)
    (fields : List (String × Json)) :
    Agrees (mergedBytes vars bytes fields) (Accounted.lift (RustX.mergedBytes vars bytes fields))
      fun a b => a = b := by
  induction fields generalizing bytes with
  | nil => exact agrees_lift (.ok bytes)
  | cons field fields ih =>
    unfold mergedBytes RustX.mergedBytes
    simp only [Accounted.lift_bind]
    refine (agrees_lift _).bind ?_
    rintro previous _ rfl
    refine (agrees_lift _).bind ?_
    rintro before _ rfl
    refine agrees_subtract ((agrees_lift _).bind ?_)
    rintro after _ rfl
    exact ih _

theorem agrees_mergeOwner (values : Values) (owner : String) (fields : List (String × Json))
    (retained : Nat) :
    Agrees (mergeOwner values owner fields retained) (RustX.mergeOwner values owner fields)
      fun a b => a.1 = b.1 := by
  refine (agrees_lift _).bind ?_
  rintro vars _ rfl
  refine (agrees_lift _).bind ?_
  rintro previousBytes _ rfl
  refine (agrees_mergedBytes vars previousBytes fields).bind ?_
  rintro bytes _ rfl
  refine (agrees_retainBytes retained _).bind fun _ _ _ => ?_
  refine (agrees_lift _).bind fun _ _ _ => ?_
  refine agrees_subtract ((agrees_release _ _).bind fun _ _ _ => ?_)
  exact agrees_pure rfl

theorem agrees_mergeOwners (values : Values) (updates : List (String × List (String × Json)))
    (retained : Nat) :
    Agrees (mergeOwners values updates retained) (RustX.mergeOwners values updates)
      fun a b => a.1 = b.1 := by
  induction updates generalizing retained with
  | nil => exact agrees_pure rfl
  | cons update updates ih =>
    obtain ⟨owner, fields⟩ := update
    refine (agrees_mergeOwner values owner fields retained).bind ?_
    rintro ⟨merged, retained⟩ ⟨_, _⟩ rfl
    refine (ih retained).bind ?_
    rintro ⟨prepared, retained⟩ ⟨_, _⟩ rfl
    exact agrees_pure rfl

/-- A merge that does not panic is the merge of the run, with its reservation. -/
theorem agrees_mergeWrites (values : Values) (writes : List (String × String × Json)) :
    Agrees (mergeWrites values writes) (RustX.mergeWrites values writes)
      fun a b => a.1 = b.1 := by
  refine (agrees_mergeOwners values _ 0).bind ?_
  rintro ⟨prepared, _⟩ ⟨_, _⟩ rfl
  exact agrees_pure rfl

omit [FloatText] in
theorem groupWrites_labels (distinct : ∀ update ∈ updates, (update.2.map Prod.fst).Nodup) :
    ∀ update ∈ groupWrites writes updates, (update.2.map Prod.fst).Nodup := by
  induction writes generalizing updates with
  | nil => exact distinct
  | cons write writes ih =>
    obtain ⟨owner, label, value⟩ := write
    refine ih fun update member => ?_
    obtain rfl | ⟨old, _⟩ := mem_insert.mp member
    · refine nodup_keys_insert ?_ label value
      cases found : updates.lookup owner with
      | none => exact nodup_nil
      | some fields => exact distinct _ (mem_of_lookup found)
    · exact distinct update old

omit [FloatText] in
theorem groupWrites_covers (member : (owner, label, value) ∈ writes) :
    ∃ fields, (owner, fields) ∈ groupWrites writes [] ∧ label ∈ fields.map Prod.fst := by
  have present : (written writes owner label).isSome = true := by
    induction writes with
    | nil => cases member
    | cons write writes ih =>
      rw [written, Option.isSome_or]
      obtain same | later := mem_cons.mp member
      · cases same
        simp
      · simp [ih later]
  have found : (((groupWrites writes []).lookup owner).getD []).lookup label =
      (written writes owner label).or none :=
    groupWrites_written owner label
  rw [Option.or_none] at found
  rw [← found, Assoc.lookup_isSome_iff] at present
  cases group : (groupWrites writes []).lookup owner with
  | none => simp [group] at present
  | some fields => exact ⟨fields, mem_of_lookup group, by simpa [group] using present⟩

def namedBytes (values : Values) (owners : List String) : Nat :=
  (owners.map fun owner => ((values owner).map Json.serializedBytes).getD 0).sum

theorem ownersBytes_eq_namedBytes (committed : ∀ entry ∈ prepared, values entry.1 = some entry.2) :
    ownersBytes prepared = namedBytes values (prepared.map Prod.fst) := by
  rw [ownersBytes, namedBytes, map_map]
  congr 1
  refine map_congr_left fun entry member => ?_
  rw [Function.comp_apply, committed entry member]
  rfl

theorem balanced_mergeWrites (owners : DistinctOwners values)
    (writes : List (String × String × Json)) :
    Balanced held (mergeWrites values writes) fun (merged, retained) now =>
      now = held + retained ∧
      retained = namedBytes merged ((groupWrites writes []).map Prod.fst) ∧
      ∀ write ∈ writes, ∃ vars, values write.1 = some (.object vars) ∧
        (vars.lookup write.2.1).isSome = true := by
  refine (balanced_mergeOwners owners (groupWrites_labels (by simp)) (Nat.zero_le held)).bind ?_
  rintro ⟨prepared, _⟩ _ ⟨rfl, rfl, keys, present⟩
  have distinct : (prepared.map Prod.fst).Nodup := by
    rw [keys]
    exact groupWrites_distinct nodup_nil
  refine balanced_pure ⟨by omega, ?_, ?_⟩
  · rw [← keys, ← ownersBytes_eq_namedBytes, Nat.zero_add]
    intro entry member
    rw [foldl_update_lookup distinct, lookup_of_mem distinct member, Option.some_or]
  · rintro ⟨owner, label, value⟩ member
    obtain ⟨fields, group, listed⟩ := groupWrites_covers member
    obtain ⟨vars, found, labels⟩ := present _ group
    exact ⟨vars, found, labels label listed⟩

/-- Merging does not panic. It replaces exactly the named variables of the named owners, and
holds the size of those owners; or it fails and changes no value. -/
theorem publishWrites_exact (owners : DistinctOwners values)
    (writes : List (String × String × Json)) (frame : Frame)
    (within : frame.held ≤ frame.budgets.retainedBytes) :
    ∃ outcome after last, publishWrites values writes frame = some (outcome, after, last) ∧
      last.held ≤ last.budgets.retainedBytes ∧
      last.budgets.retainedBytes + frame.held = frame.budgets.retainedBytes + last.held ∧
      (∀ failure, outcome = .error failure → after = values) ∧
      ∀ retained, outcome = .ok retained →
        after = mergedValues values writes ∧ last.held = frame.held + retained ∧
        retained = namedBytes after ((groupWrites writes []).map Prod.fst) ∧
        ∀ write ∈ writes, ∃ vars, values write.1 = some (.object vars) ∧
          (vars.lookup write.2.1).isSome = true := by
  obtain ⟨result, last, ran, inside, balance, exact'⟩ :=
    balanced_mergeWrites owners writes frame rfl within
  obtain ⟨plain, same, alike⟩ := agrees_mergeWrites values writes frame result last ran
  unfold publishWrites
  rw [ran]
  cases result with
  | error failure => exact ⟨_, _, _, rfl, inside, balance, fun _ _ => rfl, nofun⟩
  | ok result =>
    obtain ⟨merged, retained⟩ := result
    obtain ⟨holds, sizes, present⟩ := exact' _ rfl
    refine ⟨_, _, _, rfl, inside, balance, nofun, ?_⟩
    rintro _ ⟨⟩
    refine ⟨?_, holds, sizes, present⟩
    cases plain with
    | error failure => exact alike.elim
    | ok plain =>
      obtain ⟨merged', total⟩ := plain
      obtain rfl : merged = merged' := alike
      exact mergeWrites_ok same

end Merge

end Guarded

end RustX
