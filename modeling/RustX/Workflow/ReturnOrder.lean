import RustX.Workflow.Returns

/-!
The order of the Returns. What the merged contract admits is the same in every order that is
accepted, but the merge compares a Return only with the widest contract so far.
-/
namespace RustX

open Checked Schema List

/-- One of two contracts admits every value of the other. -/
def Comparable (first second : Schema) : Prop :=
  schemasCompatible first second = true ∨ schemasCompatible second first = true

/-- Two Returns have comparable contracts wherever they share a field. -/
def Agreeing (first second : Schema) : Prop :=
  ∀ key a b, (key, a) ∈ first.fields → (key, b) ∈ second.fields → Comparable a b

theorem Agreeing.symm (agreeing : Agreeing first second) : Agreeing second first :=
  fun key a b here there => (agreeing key b a there here).symm

section Property

variable {properties : List (String × Schema)}

theorem mergeProperty_members (ok : mergeProperty properties property = .ok properties')
    (member : entry ∈ properties') : entry = property ∨ entry ∈ properties := by
  unfold mergeProperty at ok
  split at ok
  · split at ok
    · cases ok
      exact .inr member
    · split at ok
      · cases ok
        exact (Assoc.mem_insert.mp member).imp id And.left
      · cases ok
  · cases ok
    exact (Assoc.mem_insert.mp member).imp id And.left

theorem mergeProperty_keeps (ok : mergeProperty properties property = .ok properties')
    (member : entry ∈ properties) (other : entry.1 ≠ property.1) : entry ∈ properties' := by
  unfold mergeProperty at ok
  split at ok
  · split at ok
    · cases ok
      exact member
    · split at ok
      · cases ok
        exact Assoc.mem_insert.mpr (.inr ⟨member, other⟩)
      · cases ok
  · cases ok
    exact Assoc.mem_insert.mpr (.inr ⟨member, other⟩)

/-- A field is merged exactly when it is comparable with the contract so far. -/
theorem mergeProperty_succeeds_iff (distinct : (properties.map Prod.fst).Nodup) :
    (∃ merged, mergeProperty properties property = .ok merged) ↔
      ∀ existing, (property.1, existing) ∈ properties → Comparable property.2 existing := by
  unfold mergeProperty
  cases found : properties.lookup property.1 with
  | none =>
    refine iff_of_true ⟨_, rfl⟩ fun existing member => ?_
    rw [Assoc.lookup_of_mem distinct member] at found
    cases found
  | some known =>
    have only : ∀ existing, (property.1, existing) ∈ properties → existing = known := by
      intro existing member
      rw [Assoc.lookup_of_mem distinct member] at found
      exact Option.some.inj found
    have here := Assoc.mem_of_lookup found
    by_cases narrower : schemasCompatible property.2 known = true
    · refine iff_of_true ⟨properties, by simp [narrower]⟩ fun existing member => ?_
      exact only existing member ▸ .inl narrower
    · by_cases wider : schemasCompatible known property.2 = true
      · refine iff_of_true ⟨_, by simp only [narrower, wider]; rfl⟩ fun existing member => ?_
        exact only existing member ▸ .inr wider
      · refine iff_of_false (fun ⟨_, ok⟩ => ?_) fun comparable => ?_
        · simp [narrower, wider] at ok
        · exact (comparable known here).elim narrower wider

end Property

section Fields

variable {added : List (String × Schema)}

theorem foldlM_mergeProperty_members (ok : added.foldlM mergeProperty properties = .ok properties')
    (member : entry ∈ properties') : entry ∈ properties ∨ entry ∈ added := by
  induction added generalizing properties with
  | nil =>
    cases ok
    exact .inl member
  | cons property added ih =>
    rw [foldlM_cons, bind_eq_ok_iff] at ok
    obtain ⟨middle, first, ok⟩ := ok
    obtain earlier | later := ih ok
    · obtain rfl | old := mergeProperty_members first earlier
      · exact .inr mem_cons_self
      · exact .inl old
    · exact .inr (.tail _ later)

/-- The fields of one Return have different names, so none is compared with another. -/
theorem foldlM_mergeProperty_succeeds_iff (declares : Declares properties)
    (typed : Declares added) :
    (∃ merged, added.foldlM mergeProperty properties = .ok merged) ↔
      ∀ key a b, (key, a) ∈ properties → (key, b) ∈ added → Comparable a b := by
  induction added generalizing properties with
  | nil => exact iff_of_true ⟨properties, rfl⟩ fun _ _ _ _ member => nomatch member
  | cons property added ih =>
    obtain ⟨fresh, distinct⟩ := nodup_cons.mp typed.distinct
    have rest : Declares added :=
      ⟨distinct, fun key schema member => typed.vocabulary key schema (.tail _ member)⟩
    have differs : ∀ key b, (key, b) ∈ added → key ≠ property.1 := by
      rintro key b member rfl
      exact fresh (mem_map.mpr ⟨_, member, rfl⟩)
    simp only [foldlM_cons, bind_eq_ok_iff]
    constructor
    · rintro ⟨merged, middle, first, ok⟩ key a b known member
      have comparable := (mergeProperty_succeeds_iff declares.distinct).mp ⟨middle, first⟩
      obtain same | later := mem_cons.mp member
      · subst same
        exact (comparable a known).symm
      · have held := (mergeProperty_widens declares (typed.vocabulary _ _ mem_cons_self) first).1
        exact (ih held rest).mp ⟨merged, ok⟩ key a b
          (mergeProperty_keeps first known (differs key b later)) later
    · intro comparable
      obtain ⟨middle, first⟩ := (mergeProperty_succeeds_iff declares.distinct).mpr
        fun existing known => (comparable _ existing _ known mem_cons_self).symm
      have held := (mergeProperty_widens declares (typed.vocabulary _ _ mem_cons_self) first).1
      obtain ⟨merged, ok⟩ := (ih held rest).mpr fun key a b known later => by
        obtain same | old := mergeProperty_members first known
        · exact absurd (congrArg Prod.fst same) (differs key b later)
        · exact comparable key a b old (.tail _ later)
      exact ⟨merged, middle, first, ok⟩

end Fields

/-- A merged contract has no field of its own, and requires what all require. -/
structure MadeOf (merged : Schema) (schemas : List Schema) : Prop where
  fields : ∀ entry ∈ merged.fields, ∃ schema ∈ schemas, entry ∈ schema.fields
  required : ∀ key, key ∈ merged.requiredNames ↔ ∀ schema ∈ schemas, key ∈ schema.requiredNames

theorem MadeOf.snoc (made : MadeOf merged schemas) (ok : mergeReturn merged schema = .ok result) :
    MadeOf result (schemas ++ [schema]) := by
  simp only [mergeReturn, bind_eq_ok_iff] at ok
  obtain ⟨properties, merges, ok⟩ := ok
  cases ok
  constructor
  · intro entry member
    obtain old | new := foldlM_mergeProperty_members merges member
    · obtain ⟨source, listed, here⟩ := made.fields entry old
      exact ⟨source, mem_append_left _ listed, here⟩
    · exact ⟨schema, by simp, new⟩
  · intro key
    rw [mem_requiredNames_closed, mem_filter, made.required, contains_iff_mem]
    simp [or_imp, forall_and]

theorem foldlM_mergeReturn_madeOf {rest : List Schema} (made : MadeOf merged seen)
    (ok : rest.foldlM mergeReturn merged = .ok result) : MadeOf result (seen ++ rest) := by
  induction rest generalizing seen merged with
  | nil =>
    cases ok
    simpa using made
  | cons schema rest ih =>
    rw [foldlM_cons, bind_eq_ok_iff] at ok
    obtain ⟨middle, first, ok⟩ := ok
    simpa using ih (made.snoc first) ok

theorem mergeReturnSchemas_madeOf (some : schemas ≠ [])
    (ok : mergeReturnSchemas schemas = .ok merged) : MadeOf merged schemas := by
  cases schemas with
  | nil => exact absurd rfl some
  | cons first rest =>
    have alone : MadeOf first [first] := ⟨fun entry member => ⟨first, by simp, member⟩, by simp⟩
    exact foldlM_mergeReturn_madeOf alone ok

section Returns

variable [FloatText]

theorem mergeReturn_succeeds_iff (before : Merged merged) (returns : ReturnSchema schema) :
    (∃ result, mergeReturn merged schema = .ok result) ↔ Agreeing merged schema := by
  obtain ⟨properties, required, rfl, declares⟩ := before
  obtain ⟨added, names, rfl, typed⟩ := returns.closed
  have fields := foldlM_mergeProperty_succeeds_iff declares typed
  simp only [mergeReturn, fields_closed, bind_eq_ok_iff]
  refine Iff.trans ⟨?_, ?_⟩ fields
  · rintro ⟨_, merged, ok, _⟩
    exact ⟨merged, ok⟩
  · rintro ⟨merged, ok⟩
    exact ⟨_, merged, ok, rfl⟩

theorem mergeReturnSchemas_admits {order : List Schema}
    (returns : ∀ schema ∈ schemas, ReturnSchema schema) (reordered : order.Perm schemas)
    (ok : mergeReturnSchemas schemas = .ok merged) (ok' : mergeReturnSchemas order = .ok merged')
    (valid : merged.isValid value = true) : merged'.isValid value = true := by
  by_cases some : schemas = []
  · subst some
    rw [reordered.eq_nil] at ok'
    cases ok.symm.trans ok'
    exact valid
  have returns' : ∀ schema ∈ order, ReturnSchema schema :=
    fun schema member => returns schema (reordered.mem_iff.mp member)
  have made := mergeReturnSchemas_madeOf some ok
  have made' := mergeReturnSchemas_madeOf (fun none => some (none ▸ reordered).nil_eq.symm) ok'
  obtain ⟨first, rest, rfl⟩ := exists_cons_of_ne_nil some
  obtain ⟨⟨properties, required, rfl, _⟩, _⟩ := mergeReturnSchemas_covers returns ok mem_cons_self
  obtain ⟨⟨properties', required', rfl, declares⟩, _⟩ :=
    mergeReturnSchemas_covers returns' ok' (reordered.mem_iff.mpr mem_cons_self)
  -- a field the first order declares is one of some Return, which the second order covers
  have covers : Widens properties properties' := by
    intro key schema member
    obtain ⟨source, listed, here⟩ := made.fields _ member
    exact (mergeReturnSchemas_covers returns' ok' (reordered.mem_iff.mpr listed)).2.1
      key schema here
  rw [isValid_closed_iff] at valid ⊢
  obtain ⟨fields, rfl, present, typed, declared⟩ := valid
  refine ⟨fields, rfl, fun key needed => ?_, fun key schema member field found => ?_, ?_⟩
  · refine present key (mem_requiredNames_closed.mp ((made.required key).mpr fun schema listed => ?_))
    exact (made'.required key).mp (mem_requiredNames_closed.mpr needed) schema
      (reordered.mem_iff.mpr listed)
  · obtain ⟨narrow, known⟩ := declared _ (Assoc.mem_of_lookup found)
    obtain ⟨wider, there, admits⟩ := covers key narrow known
    have same := Assoc.lookup_of_mem declares.distinct there
    rw [Assoc.lookup_of_mem declares.distinct member] at same
    exact Option.some.inj same ▸ admits field (typed key narrow known field found)
  · intro field member
    obtain ⟨narrow, known⟩ := declared field member
    obtain ⟨wider, there, _⟩ := covers _ narrow known
    exact ⟨wider, there⟩

/-- Returns that agree pairwise are accepted. -/
theorem foldlM_mergeReturn_succeeds (before : Merged merged) (made : MadeOf merged seen)
    (returns : ∀ schema ∈ rest, ReturnSchema schema) (agreeing : (seen ++ rest).Pairwise Agreeing) :
    ∃ result, rest.foldlM mergeReturn merged = .ok result := by
  induction rest generalizing seen merged with
  | nil => exact ⟨merged, rfl⟩
  | cons schema rest ih =>
    have own := returns schema mem_cons_self
    have agrees : Agreeing merged schema := by
      intro key a b known member
      obtain ⟨source, listed, here⟩ := made.fields _ known
      exact (pairwise_append.mp agreeing).2.2 source listed schema mem_cons_self key a b here member
    obtain ⟨middle, first⟩ := (mergeReturn_succeeds_iff before own).mpr agrees
    have held := (mergeReturn_covers before own first).1
    obtain ⟨result, ok⟩ := ih held (made.snoc first)
      (fun other member => returns other (.tail _ member)) (by simpa using agreeing)
    exact ⟨result, by rw [foldlM_cons, first]; exact ok⟩

theorem mergeReturnSchemas_succeeds (returns : ∀ schema ∈ schemas, ReturnSchema schema)
    (agreeing : schemas.Pairwise Agreeing) : ∃ merged, mergeReturnSchemas schemas = .ok merged := by
  cases schemas with
  | nil => exact ⟨_, rfl⟩
  | cons first rest =>
    have alone : MadeOf first [first] := ⟨fun entry member => ⟨first, by simp, member⟩, by simp⟩
    exact foldlM_mergeReturn_succeeds (returns first mem_cons_self).closed alone
      (fun schema member => returns schema (.tail _ member)) agreeing

/-- Neither acceptance nor the admitted values depend on the order. -/
def OrderIndependent (schemas : List Schema) : Prop :=
  ∀ order, order.Perm schemas → ((∃ merged, mergeReturnSchemas order = .ok merged) ↔
      ∃ merged, mergeReturnSchemas schemas = .ok merged) ∧
    ∀ merged merged', mergeReturnSchemas schemas = .ok merged →
      mergeReturnSchemas order = .ok merged' →
      ∀ value, merged.isValid value = true ↔ merged'.isValid value = true

end Returns

def choiceReturn (schema : Schema) : Schema :=
  closed [("choice", schema)] ["choice"]

def exactly (text : String) : Schema :=
  .keywords { type := .string, const := some (.string text) }

def anyText : Schema :=
  .keywords { type := .string }

theorem choiceReturn_returns (vocabulary : Vocabulary schema) : letI := FloatText.exact
    ReturnSchema (choiceReturn schema) := by
  let := FloatText.exact
  let review : Schema := closed [("action", schema)] ["action"]
  let available : SchemaMap := fun producer =>
    if producer = "review" then some review else none
  have lawful : available.Lawful := by
    intro producer schema found
    obtain ⟨-, found⟩ := Option.ite_none_right_eq_some.mp found
    cases found
    refine .keywords (by simp) ?_ (by simp)
    simp only [Option.getD_some, mem_singleton, Prod.mk.injEq]
    rintro _ _ ⟨rfl, rfl⟩
    exact vocabulary
  have output : returnOutput [⟨"choice", ["review", "action"]⟩] available "end" =
      .ok (.object [("choice", .reference ["review", "action"])], choiceReturn schema) := by
    rfl
  exact .built lawful output

theorem exactly_vocabulary (text : String) : Vocabulary (exactly text) :=
  .keywords (by simp) (by simp) (by simp)

theorem anyText_vocabulary : Vocabulary anyText :=
  .keywords (by simp) (by simp) (by simp)

end RustX
