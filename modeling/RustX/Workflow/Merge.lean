import RustX.Workflow.Budgets

/-!
The writes of Assigners to Loop variables, and their merge into the values of a
graph: every owner is reserved and checked before any of them changes.
-/
namespace RustX

open Checked Accounted Assoc

abbrev Values := String → Option Json

section Merge

variable [FloatText]

/-- The writes by owner and label; a later write of a variable replaces an earlier one. -/
def groupWrites : List (String × String × Json) → List (String × List (String × Json)) →
    List (String × List (String × Json))
  | [], updates => updates
  | (owner, label, value) :: writes, updates =>
    groupWrites writes
      (insert owner (insert label value ((updates.lookup owner).getD [])) updates)

def previousVariable (vars : List (String × Json)) (label : String) : Except RunError Json :=
  match vars.lookup label with
  | none => .error (.invalidProgram "assigned variable is missing")
  | some previous => .ok previous

/-- The size of an owner after some of its variables changed. -/
def mergedBytes (vars : List (String × Json)) : Nat → List (String × Json) → Except RunError Nat
  | bytes, [] => .ok bytes
  | bytes, (label, value) :: fields => do
    let previous ← previousVariable vars label
    let before ← boundedValueBytes previous
    let after ← boundedValueBytes value
    mergedBytes vars (bytes - before + after) fields

def ownerVariables (values : Values) (owner : String) : Except RunError (List (String × Json)) :=
  match values owner with
  | none => .error (.invalidProgram "assigned owner is missing")
  | some (.object vars) => .ok vars
  | some _ => .error (.invalidProgram "assigned owner is not an object")

/-- The variables of an owner with some of them replaced. -/
def replaceFields (vars fields : List (String × Json)) : List (String × Json) :=
  vars.map fun entry => (entry.1, (fields.lookup entry.1).getD entry.2)

/-- One owner: reserve its new size, then build it. -/
def mergeOwner (values : Values) (owner : String) (fields : List (String × Json)) :
    Accounted (Json × Nat) := do
  let vars ← lift (ownerVariables values owner)
  let previousBytes ← lift (boundedValueBytes (.object vars))
  let bytes ← lift (mergedBytes vars previousBytes fields)
  let peak := max previousBytes bytes
  retainBytes peak
  let merged := Json.object (replaceFields vars fields)
  let _ ← lift (boundedValueBytes merged)
  release (peak - bytes)
  pure (merged, bytes)

def mergeOwners (values : Values) :
    List (String × List (String × Json)) → Accounted (List (String × Json) × Nat)
  | [] => pure ([], 0)
  | (owner, fields) :: updates => do
    let (merged, bytes) ← mergeOwner values owner fields
    let (prepared, retained) ← mergeOwners values updates
    pure ((owner, merged) :: prepared, bytes + retained)

/-- `merge_writes`: every owner is reserved and checked before any is published. -/
def mergeWrites (values : Values) (writes : List (String × String × Json)) :
    Accounted (Values × Nat) := do
  let (prepared, retained) ← mergeOwners values (groupWrites writes [])
  pure (prepared.foldl (fun values entry => Function.update values entry.1 (some entry.2)) values,
    retained)

def written : List (String × String × Json) → String → String → Option Json
  | [], _, _ => none
  | (target, name, value) :: writes, owner, label =>
    (written writes owner label).or (if target = owner ∧ name = label then some value else none)

def overwrite (update : String → Option Json) : Json → Json
  | .object vars => .object (vars.map fun entry => (entry.1, (update entry.1).getD entry.2))
  | value => value

/-- The graph values after a merge, without its accounting. -/
def mergedValues (values : Values) (writes : List (String × String × Json)) : Values := fun name =>
  (values name).map (overwrite (written writes name))

variable {updates : List (String × List (String × Json))}

section

omit [FloatText]

theorem written_append (first second : List (String × String × Json)) (owner label : String) :
    written (first ++ second) owner label =
      (written second owner label).or (written first owner label) := by
  induction first with
  | nil => simp [written]
  | cons write writes ih =>
    simp only [List.cons_append, written, ih, Option.or_assoc]

theorem written_eq_none (unwritten : ∀ write ∈ writes, ¬ (write.1 = owner ∧ write.2.1 = label)) :
    written writes owner label = none := by
  induction writes with
  | nil => rfl
  | cons write writes ih =>
    obtain ⟨here, later⟩ := List.forall_mem_cons.mp unwritten
    rw [written, ih later, if_neg here]
    rfl

theorem overwrite_none (value : Json) : overwrite (fun _ => none) value = value := by
  cases value <;> simp [overwrite]

theorem overwrite_overwrite (first second : String → Option Json) (value : Json) :
    overwrite second (overwrite first value) =
      overwrite (fun label => (second label).or (first label)) value := by
  cases value with
  | object vars =>
    simp only [overwrite, List.map_map, Json.object.injEq]
    refine List.map_congr_left fun entry _ => ?_
    simp only [Function.comp_apply, Prod.mk.injEq, true_and]
    cases second entry.1 <;> cases first entry.1 <;> rfl
  | _ => rfl

theorem mergedValues_congr (same : left name = right name) (writes : List (String × String × Json)) :
    mergedValues left writes name = mergedValues right writes name := by
  rw [mergedValues, mergedValues, same]

/-- Merging one after the other is merging all at once. -/
theorem mergedValues_append (values : Values) (first second : List (String × String × Json)) :
    mergedValues (mergedValues values first) second = mergedValues values (first ++ second) := by
  funext name
  simp only [mergedValues, Option.map_map]
  congr 1
  funext value
  rw [Function.comp_apply, overwrite_overwrite]
  congr 1
  funext label
  rw [written_append]

theorem mergedValues_of_unwritten (values : Values) (unwritten : ∀ write ∈ writes, write.1 ≠ name) :
    mergedValues values writes name = values name := by
  have none : written writes name = fun _ => none := by
    funext label
    exact written_eq_none fun write member same => unwritten write member same.1
  rw [mergedValues, none, funext overwrite_none]
  exact Option.map_id'

theorem isSome_mergedValues (values : Values) (writes : List (String × String × Json))
    (name : String) : (mergedValues values writes name).isSome = (values name).isSome := by
  simp [mergedValues]

theorem groupWrites_written (owner label : String) :
    (((groupWrites writes updates).lookup owner).getD []).lookup label =
      (written writes owner label).or (((updates.lookup owner).getD []).lookup label) := by
  induction writes generalizing updates with
  | nil => simp [groupWrites, written]
  | cons write writes ih =>
    obtain ⟨target, name, value⟩ := write
    rw [groupWrites, ih, written, Option.or_assoc]
    congr 1
    by_cases sameOwner : owner = target
    · subst sameOwner
      rw [lookup_insert_self, Option.getD_some]
      by_cases sameLabel : label = name
      · subst sameLabel
        simp [lookup_insert_self]
      · rw [lookup_insert_of_ne sameLabel, if_neg (fun same => sameLabel same.2.symm)]
        rfl
    · rw [lookup_insert_of_ne sameOwner, if_neg (fun same => sameOwner same.1.symm)]
      rfl

theorem groupWrites_distinct (distinct : (updates.map Prod.fst).Nodup) :
    ((groupWrites writes updates).map Prod.fst).Nodup := by
  induction writes generalizing updates with
  | nil => exact distinct
  | cons write writes ih => exact ih (nodup_keys_insert distinct ..)

theorem ownerVariables_ok :
    ownerVariables values owner = .ok vars ↔ values owner = some (.object vars) := by
  unfold ownerVariables
  split <;> simp_all

end

theorem mergeOwner_ok (ran : mergeOwner values owner fields frame = (.ok (merged, bytes), last)) :
    ∃ vars, values owner = some (.object vars) ∧ merged = .object (replaceFields vars fields) := by
  simp only [mergeOwner, bind_ok_iff, pure_ok_iff, lift_ok_iff, Prod.mk.injEq] at ran
  obtain ⟨vars, _, ⟨found, -⟩, _, _, -, _, _, -, _, _, -, _, _, -, _, _, -, ⟨rfl, -⟩, -⟩ := ran
  exact ⟨vars, ownerVariables_ok.mp found, rfl⟩

variable {prepared : List (String × Json)}

theorem mergeOwners_ok (ran : mergeOwners values updates frame = (.ok (prepared, retained), last))
    (name : String) :
    prepared.lookup name = match updates.lookup name, values name with
      | some fields, some (.object vars) => some (.object (replaceFields vars fields))
      | _, _ => none := by
  induction updates generalizing frame prepared retained with
  | nil =>
    obtain ⟨⟨rfl, -⟩, -⟩ := ran
    simp
  | cons update updates ih =>
    simp only [mergeOwners, bind_ok_iff, pure_ok_iff, Prod.mk.injEq] at ran
    obtain ⟨⟨merged, bytes⟩, middle, first, ⟨others, rest⟩, _, later, ⟨rfl, -⟩, rfl⟩ := ran
    obtain ⟨vars, found, rfl⟩ := mergeOwner_ok first
    rw [lookup_cons_ite, lookup_cons_ite]
    split
    · rename_i same
      subst same
      simp [found]
    · exact ih later

theorem mergeOwners_keys (ran : mergeOwners values updates frame = (.ok (prepared, retained), last)) :
    prepared.map Prod.fst = updates.map Prod.fst := by
  induction updates generalizing frame prepared retained with
  | nil =>
    obtain ⟨⟨rfl, -⟩, -⟩ := ran
    rfl
  | cons update updates ih =>
    simp only [mergeOwners, bind_ok_iff, pure_ok_iff, Prod.mk.injEq] at ran
    obtain ⟨_, _, -, ⟨others, rest⟩, _, later, ⟨rfl, -⟩, rfl⟩ := ran
    rw [List.map_cons, List.map_cons, ih later]

omit [FloatText] in
theorem foldl_update_lookup (distinct : (prepared.map Prod.fst).Nodup) :
    prepared.foldl (fun (values : Values) entry => Function.update values entry.1 (some entry.2))
        values name =
      (prepared.lookup name).or (values name) := by
  induction prepared generalizing values with
  | nil => simp
  | cons entry prepared ih =>
    obtain ⟨fresh, distinct⟩ := List.nodup_cons.mp distinct
    rw [List.foldl_cons, ih distinct, lookup_cons_ite]
    by_cases same : name = entry.1
    · subst same
      have absent : prepared.lookup entry.1 = none := by
        rw [← Option.not_isSome_iff_eq_none, lookup_isSome_iff]
        exact fresh
      simp [absent]
    · simp [same]

theorem mergeWrites_ok (ran : mergeWrites values writes frame = (.ok (merged, retained), last)) :
    merged = mergedValues values writes := by
  simp only [mergeWrites, bind_ok_iff, pure_ok_iff, Prod.mk.injEq] at ran
  obtain ⟨⟨prepared, total⟩, _, owners, ⟨rfl, -⟩, -⟩ := ran
  funext name
  have keys : (prepared.map Prod.fst).Nodup := by
    rw [mergeOwners_keys owners]
    exact groupWrites_distinct List.nodup_nil
  have updates : written writes name = fun label =>
      (((groupWrites writes []).lookup name).getD []).lookup label := by
    funext label
    rw [groupWrites_written, List.lookup_nil, Option.getD_none, List.lookup_nil, Option.or_none]
  rw [foldl_update_lookup keys, mergeOwners_ok owners name, mergedValues, updates]
  cases (groupWrites writes []).lookup name with
  | none =>
    show (none.or (values name)) = (values name).map (overwrite fun _ => none)
    rw [funext overwrite_none, Option.none_or]
    exact Option.map_id'.symm
  | some fields =>
    cases found : values name with
    | none => rfl
    | some value => cases value <;> rfl

end Merge

end RustX
