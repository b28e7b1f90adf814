import RustX.Workflow.Typing
import RustX.Workflow.Graph

/-!
The output contract of a root block.
Returns that end a run together may each give other fields. Compilation merges
their schemas into one; a run merges the values they left. The merged schema
admits every value a Return leaves, and every union of values that agree.
-/
namespace RustX

open Checked Schema Assoc List

section Scope

variable {available : SchemaMap}

/-- Every schema in scope is a workflow schema. -/
def SchemaMap.Lawful (available : SchemaMap) : Prop :=
  ∀ producer schema, available producer = some schema → Vocabulary schema

theorem memberSchema_vocabulary (vocabulary : Vocabulary schema)
    (found : memberSchema path node schema key = .ok member) : Vocabulary member := by
  cases vocabulary with
  | anyOf each => simp [memberSchema] at found
  | @keywords object agree properties items =>
    simp only [memberSchema, bind_eq_ok_iff] at found
    obtain ⟨_, -, found⟩ := found
    split at found
    · rename_i property named
      cases found
      exact properties key _ (mem_of_lookup named)
    · cases found

theorem referenceMembers_vocabulary {fields : List String} (vocabulary : Vocabulary schema)
    (found : referenceMembers path node schema fields = .ok target) : Vocabulary target := by
  induction fields generalizing schema with
  | nil =>
    cases found
    exact vocabulary
  | cons key rest ih =>
    simp only [referenceMembers, bind_eq_ok_iff] at found
    obtain ⟨member, first, found⟩ := found
    exact ih (memberSchema_vocabulary vocabulary first) found

theorem referenceSchema_vocabulary (lawful : available.Lawful)
    (found : referenceSchema path available node = .ok schema) : Vocabulary schema := by
  simp only [referenceSchema, bind_eq_ok_iff] at found
  obtain ⟨_, -, found⟩ := found
  split at found
  · cases found
  · split at found
    · rename_i declared scoped'
      exact referenceMembers_vocabulary (lawful _ _ scoped') found
    · cases found

end Scope

namespace Schema

@[simp] theorem fields_closed (properties : List (String × Schema)) (required : List String) :
    (closed properties required).fields = properties := rfl

@[simp] theorem mem_requiredNames_closed :
    key ∈ (closed properties required).requiredNames ↔ key ∈ required := by
  simp [closed, requiredNames]

/-- An instance of a closed object: the required fields are there, every field
is declared, and a declared field has its type. -/
theorem isValid_closed_iff (properties : List (String × Schema)) (required : List String)
    (value : Json) :
    (closed properties required).isValid value = true ↔ ∃ fields, value = .object fields ∧
        (∀ key ∈ required, ∃ field, fields.lookup key = some field) ∧
        (∀ key schema, (key, schema) ∈ properties → ∀ field, fields.lookup key = some field →
          schema.isValid field = true) ∧
        ∀ field ∈ fields, ∃ schema, (field.1, schema) ∈ properties := by
  rw [closed, isValid_keywords_iff]
  constructor
  · intro admits
    cases value with
    | object fields =>
      exact ⟨fields, rfl, admits.required fields rfl, admits.properties fields rfl,
        admits.closed fields rfl rfl⟩
    | _ => exact absurd admits.type (by simp [SchemaType.admits])
  · rintro ⟨fields, rfl, required, typed, declared⟩
    refine ⟨rfl, by simp, by simp, by simp, ?_, ?_, ?_, by simp⟩
    · rintro _ ⟨⟩
      exact required
    · rintro _ ⟨⟩
      exact typed
    · rintro _ ⟨⟩ -
      exact declared

end Schema

/-- Declared fields: each name once, each type a workflow schema. -/
structure Declares (properties : List (String × Schema)) : Prop where
  distinct : (properties.map Prod.fst).Nodup
  vocabulary : ∀ key schema, (key, schema) ∈ properties → Vocabulary schema

theorem Declares.nil : Declares [] :=
  ⟨nodup_nil, by simp⟩

variable {properties : List (String × Schema)}

theorem Declares.insert (declares : Declares properties) (key : String)
    (vocabulary : Vocabulary schema) : Declares (insert key schema properties) := by
  refine ⟨nodup_keys_insert declares.distinct key schema, ?_⟩
  intro name declared member
  rcases mem_insert.mp member with same | ⟨member, -⟩
  · obtain ⟨rfl, rfl⟩ := Prod.mk.inj same
    exact vocabulary
  · exact declares.vocabulary name declared member

/-- Every field of `narrow` is a field of `wide`, with a type that admits its values. -/
def Widens (narrow wide : List (String × Schema)) : Prop :=
  ∀ key schema, (key, schema) ∈ narrow → ∃ wider, (key, wider) ∈ wide ∧
    ∀ value, schema.isValid value = true → wider.isValid value = true

theorem Widens.refl (properties : List (String × Schema)) : Widens properties properties :=
  fun _ schema member => ⟨schema, member, fun _ valid => valid⟩

theorem Widens.trans (first : Widens narrow middle) (second : Widens middle wide) :
    Widens narrow wide := by
  intro key schema member
  obtain ⟨between, member, admits⟩ := first key schema member
  obtain ⟨wider, member, admitsAll⟩ := second key between member
  exact ⟨wider, member, fun value valid => admitsAll value (admits value valid)⟩

/-- Replacing the type of a name by one that admits all its values widens a declaration. -/
theorem Widens.insert {schema : Schema} (wider : ∀ existing, (key, existing) ∈ properties →
      ∀ value, existing.isValid value = true → schema.isValid value = true) :
    Widens properties (insert key schema properties) := by
  intro name declared member
  by_cases same : name = key
  · subst same
    exact ⟨schema, mem_insert.mpr (.inl rfl), wider declared member⟩
  · exact ⟨declared, mem_insert.mpr (.inr ⟨member, same⟩), fun _ valid => valid⟩

/-- One merged field: the declaration widens, and admits the field. -/
theorem mergeProperty_widens (declares : Declares properties) (vocabulary : Vocabulary property.2)
    (ok : mergeProperty properties property = .ok properties') :
    Declares properties' ∧ Widens properties properties' ∧ Widens [property] properties' := by
  obtain ⟨key, schema⟩ := property
  have inserted : Widens [(key, schema)] (insert key schema properties) := by
    intro name declared member
    obtain ⟨rfl, rfl⟩ := Prod.mk.inj (mem_singleton.mp member)
    exact ⟨_, mem_insert.mpr (.inl rfl), fun _ valid => valid⟩
  unfold mergeProperty at ok
  split at ok
  · rename_i existing found
    split at ok
    · rename_i compatible
      cases ok
      refine ⟨declares, .refl _, ?_⟩
      intro name declared member
      obtain ⟨rfl, rfl⟩ := Prod.mk.inj (mem_singleton.mp member)
      have member := mem_of_lookup found
      exact ⟨existing, member, (declares.vocabulary _ _ member).admitsCompatible _ compatible⟩
    · split at ok
      · rename_i compatible
        cases ok
        refine ⟨declares.insert key vocabulary, .insert ?_, inserted⟩
        intro other member
        -- a name is declared once, so the replaced type is the one compared with
        have same := lookup_of_mem declares.distinct member
        obtain rfl := Option.some.inj (found.symm.trans same)
        exact vocabulary.admitsCompatible _ compatible
      · cases ok
  · rename_i absent
    cases ok
    refine ⟨declares.insert key vocabulary, .insert ?_, inserted⟩
    intro other member
    rw [lookup_of_mem declares.distinct member] at absent
    cases absent

theorem foldlM_mergeProperty_widens (declares : Declares properties)
    (vocabulary : ∀ key schema, (key, schema) ∈ added → Vocabulary schema)
    (ok : added.foldlM mergeProperty properties = .ok properties') :
    Declares properties' ∧ Widens properties properties' ∧ Widens added properties' := by
  induction added generalizing properties with
  | nil =>
    cases ok
    exact ⟨declares, .refl _, fun _ _ member => absurd member not_mem_nil⟩
  | cons property added ih =>
    rw [foldlM_cons, bind_eq_ok_iff] at ok
    obtain ⟨middle, first, ok⟩ := ok
    obtain ⟨declares, widens, admits⟩ :=
      mergeProperty_widens declares (vocabulary _ _ mem_cons_self) first
    obtain ⟨declares, widensRest, admitsRest⟩ :=
      ih declares (fun key schema member => vocabulary key schema (.tail _ member)) ok
    refine ⟨declares, widens.trans widensRest, ?_⟩
    intro key schema member
    rcases mem_cons.mp member with rfl | member
    · exact admits.trans widensRest key schema (mem_singleton_self _)
    · exact admitsRest key schema member

/-- A merged schema covers one Return: it has every field of the Return at a type
that admits the Return's values, and requires no field the Return may leave out. -/
def Covers (merged schema : Schema) : Prop :=
  Widens schema.fields merged.fields ∧ ∀ key ∈ merged.requiredNames, key ∈ schema.requiredNames

theorem Covers.trans (outer : Covers a b) (inner : Covers b c) : Covers a c :=
  ⟨inner.1.trans outer.1, fun key member => inner.2 key (outer.2 key member)⟩

def Merged (merged : Schema) : Prop :=
  ∃ properties required, merged = closed properties required ∧ Declares properties

section Returns

variable [FloatText]

/-- A schema that `returnOutput` made, in a scope of workflow schemas. -/
inductive ReturnSchema : Schema → Prop
  | built {outputs : List ReturnOutput} {available : SchemaMap} {node : String}
      {value : WorkflowValue} {schema : Schema} (lawful : available.Lawful)
      (output : returnOutput outputs available node = .ok (value, schema)) : ReturnSchema schema

theorem returnFields_declares {available : SchemaMap} (lawful : available.Lawful)
    {fields : List (String × WorkflowValue)} (declares : Declares properties)
    (ok : returnFields available node index outputs fields properties =
      .ok (fields', properties')) : Declares properties' := by
  induction outputs generalizing index fields properties with
  | nil =>
    cases ok
    exact declares
  | cons output outputs ih =>
    simp only [returnFields, valueSchema, infer, bind_eq_ok_iff, mapError_eq_ok_iff] at ok
    obtain ⟨_, -, schema, ⟨_, -, typed⟩, ok⟩ := ok
    exact ih (declares.insert _ (referenceSchema_vocabulary lawful typed)) ok

theorem ReturnSchema.closed (returns : ReturnSchema schema) :
    ∃ properties required, schema = Schema.closed properties required ∧ Declares properties := by
  obtain ⟨lawful, output⟩ := returns
  simp only [returnOutput, bind_eq_ok_iff] at output
  obtain ⟨⟨fields, properties⟩, built, output⟩ := output
  cases output
  exact ⟨properties, _, rfl, returnFields_declares lawful .nil built⟩

theorem mergeReturn_covers (before : Merged merged) (returns : ReturnSchema schema)
    (ok : mergeReturn merged schema = .ok result) :
    Merged result ∧ Covers result merged ∧ Covers result schema := by
  obtain ⟨properties, required, rfl, declares⟩ := before
  obtain ⟨added, names, rfl, typed⟩ := returns.closed
  simp only [mergeReturn, fields_closed, bind_eq_ok_iff] at ok
  obtain ⟨properties', merges, ok⟩ := ok
  cases ok
  obtain ⟨declares', widens, admits⟩ := foldlM_mergeProperty_widens declares typed.vocabulary merges
  refine ⟨⟨_, _, rfl, declares'⟩, ⟨widens, ?_⟩, ⟨admits, ?_⟩⟩
  · intro key member
    exact (mem_filter.mp (mem_requiredNames_closed.mp member)).1
  · intro key member
    simpa using (mem_filter.mp (mem_requiredNames_closed.mp member)).2

theorem foldlM_mergeReturn_covers {schemas : List Schema} (before : Merged merged)
    (returns : ∀ schema ∈ schemas, ReturnSchema schema)
    (ok : schemas.foldlM mergeReturn merged = .ok result) :
    Merged result ∧ Covers result merged ∧ ∀ schema ∈ schemas, Covers result schema := by
  induction schemas generalizing merged with
  | nil =>
    cases ok
    exact ⟨before, ⟨.refl _, fun _ member => member⟩, by simp⟩
  | cons schema schemas ih =>
    rw [foldlM_cons, bind_eq_ok_iff] at ok
    obtain ⟨middle, first, ok⟩ := ok
    obtain ⟨held, covers, own⟩ := mergeReturn_covers before (returns _ mem_cons_self) first
    obtain ⟨held, coversMiddle, each⟩ :=
      ih held (fun schema member => returns schema (.tail _ member)) ok
    refine ⟨held, coversMiddle.trans covers, ?_⟩
    intro other member
    rcases mem_cons.mp member with rfl | member
    · exact coversMiddle.trans own
    · exact each other member

theorem mergeReturnSchemas_covers (returns : ∀ schema ∈ schemas, ReturnSchema schema)
    (ok : mergeReturnSchemas schemas = .ok merged) (member : schema ∈ schemas) :
    Merged merged ∧ Covers merged schema := by
  cases schemas with
  | nil => cases member
  | cons first rest =>
    obtain ⟨held, covers, each⟩ := foldlM_mergeReturn_covers (returns first mem_cons_self).closed
      (fun schema member => returns schema (.tail _ member)) ok
    refine ⟨held, ?_⟩
    rcases mem_cons.mp member with rfl | member
    · exact covers
    · exact each schema member

end Returns

def Json.members : Json → List (String × Json)
  | .object fields => fields
  | _ => []

/-- No two returned values differ in a field they share. -/
def Agree (returned : List (String × Json)) : Prop :=
  ∀ first ∈ returned, ∀ second ∈ returned, ∀ key value other,
    (key, value) ∈ first.2.members → (key, other) ∈ second.2.members → value = other

/-- Values that agree with what is there are all taken over, and nothing else is added. -/
theorem foldlM_mergeOutput_ok {fields : List (String × Json)}
    (agrees : ∀ key value other, (key, value) ∈ result ++ fields →
      (key, other) ∈ result ++ fields → value = other) :
    ∃ result', fields.foldlM mergeOutput result = .ok result' ∧
      ∀ key value, (key, value) ∈ result' ↔ (key, value) ∈ result ++ fields := by
  induction fields generalizing result with
  | nil => exact ⟨result, rfl, by simp⟩
  | cons field fields ih =>
    obtain ⟨key, value⟩ := field
    have unchanged : (result.lookup key).all (· == value) = true := by
      cases found : result.lookup key with
      | none => rfl
      | some existing =>
        have same := agrees key existing value (mem_append_left _ (mem_of_lookup found)) (by simp)
        simpa using same
    have inserted : ∀ name other, (name, other) ∈ insert key value result ++ fields ↔
        (name, other) ∈ result ++ (key, value) :: fields := by
      intro name other
      simp only [mem_append, mem_insert, mem_cons, Prod.mk.injEq]
      constructor
      · rintro ((⟨rfl, rfl⟩ | ⟨member, -⟩) | member)
        · exact .inr (.inl ⟨rfl, rfl⟩)
        · exact .inl member
        · exact .inr (.inr member)
      · rintro (member | ⟨rfl, rfl⟩ | member)
        · by_cases same : name = key
          · subst same
            have := agrees name other value (mem_append_left _ member) (by simp)
            exact .inl (.inl ⟨rfl, this⟩)
          · exact .inl (.inr ⟨member, same⟩)
        · exact .inl (.inl ⟨rfl, rfl⟩)
        · exact .inr member
    have agreesAfter : ∀ name first second, (name, first) ∈ insert key value result ++ fields →
        (name, second) ∈ insert key value result ++ fields → first = second := by
      intro name first second
      rw [inserted, inserted]
      exact agrees name first second
    obtain ⟨result', ok, members⟩ := ih agreesAfter
    refine ⟨result', ?_, fun name other => (members name other).trans (inserted name other)⟩
    rw [foldlM_cons, mergeOutput, unchanged]
    exact ok

/-- The union of returned objects that agree is built, and holds exactly their fields. -/
theorem foldlM_mergeReturned_ok {returned : List (String × Json)}
    (objects : ∀ entry ∈ returned, ∃ fields, entry.2 = .object fields) (agrees : ∀ key value other,
      (key, value) ∈ result ++ returned.flatMap (fun entry => entry.2.members) →
      (key, other) ∈ result ++ returned.flatMap (fun entry => entry.2.members) → value = other) :
    ∃ result', returned.foldlM mergeReturned result = .ok result' ∧
      ∀ key value, (key, value) ∈ result' ↔
        (key, value) ∈ result ++ returned.flatMap fun entry => entry.2.members := by
  induction returned generalizing result with
  | nil => exact ⟨result, rfl, by simp⟩
  | cons entry returned ih =>
    obtain ⟨fields, shape⟩ := objects entry mem_cons_self
    have members : entry.2.members = fields := by rw [shape, Json.members]
    rw [flatMap_cons, members, ← append_assoc] at agrees ⊢
    obtain ⟨middle, first, held⟩ := foldlM_mergeOutput_ok fun key value other a b =>
      agrees key value other (mem_append_left _ a) (mem_append_left _ b)
    have kept : ∀ key value,
        (key, value) ∈ middle ++ returned.flatMap (fun entry => entry.2.members) ↔
          (key, value) ∈ (result ++ fields) ++ returned.flatMap fun entry => entry.2.members := by
      intro key value
      rw [mem_append, mem_append, held]
    obtain ⟨result', ok, members⟩ := ih (fun entry member => objects entry (.tail _ member))
      (fun key value other a b => agrees key value other ((kept _ _).mp a) ((kept _ _).mp b))
    refine ⟨result', ?_, fun key value => (members key value).trans (kept key value)⟩
    rw [foldlM_cons, mergeReturned, shape]
    simp [returnedFields, first, ok]

/-- An object whose every field comes from an instance of a covered Return, and
which has every field of one of them, is an instance of the merged schema. -/
theorem isValid_of_covered {merged : Schema} {fields : List (String × Json)} (held : Merged merged)
    (sound : ∀ key value, fields.lookup key = some value → ∃ schema own,
      Covers merged schema ∧ Merged schema ∧ schema.isValid (.object own) = true ∧
      own.lookup key = some value) (complete : ∃ schema own, Covers merged schema ∧ Merged schema ∧
      schema.isValid (.object own) = true ∧ ∀ key value, (key, value) ∈ own →
        ∃ field, fields.lookup key = some field) :
    merged.isValid (.object fields) = true := by
  obtain ⟨properties, required, rfl, declares⟩ := held
  have typed : ∀ key value, fields.lookup key = some value →
      ∃ wider, (key, wider) ∈ properties ∧ wider.isValid value = true := by
    intro key value found
    obtain ⟨schema, own, covers, ⟨names, needed, rfl, -⟩, valid, owned⟩ := sound key value found
    obtain ⟨_, ⟨⟩, -, instances, declared⟩ := (isValid_closed_iff ..).mp valid
    obtain ⟨type, member⟩ := declared _ (mem_of_lookup owned)
    obtain ⟨wider, widerMember, admits⟩ := covers.1 key type member
    exact ⟨wider, widerMember, admits value (instances key type member value owned)⟩
  rw [isValid_closed_iff]
  refine ⟨fields, rfl, ?_, ?_, ?_⟩
  · intro key member
    obtain ⟨schema, own, covers, ⟨names, needed, rfl, -⟩, valid, carried⟩ := complete
    obtain ⟨_, ⟨⟩, present, -, -⟩ := (isValid_closed_iff ..).mp valid
    have needs := covers.2 key (mem_requiredNames_closed.mpr member)
    obtain ⟨value, found⟩ := present key (mem_requiredNames_closed.mp needs)
    exact carried key value (mem_of_lookup found)
  · intro key schema member value found
    obtain ⟨wider, widerMember, valid⟩ := typed key value found
    have same := lookup_of_mem declares.distinct member
    rw [lookup_of_mem declares.distinct widerMember] at same
    cases same
    exact valid
  · intro field member
    obtain ⟨value, found⟩ := Option.isSome_iff_exists.mp
      (lookup_isSome_iff.mpr (mem_map_of_mem member))
    obtain ⟨wider, widerMember, -⟩ := typed _ value found
    exact ⟨wider, widerMember⟩

section Contract

variable [FloatText] {schemas : List Schema} {merged : Schema} {returned : List (String × Json)}

/-- Each value a Return leaves meets the merged contract of the block, and so does
the union a run makes of values that agree: the block has an output. -/
theorem mergeReturnSchemas_sound (block : BlockProgram)
    (returns : ∀ schema ∈ schemas, ReturnSchema schema)
    (ok : mergeReturnSchemas schemas = .ok merged) (nonempty : returned ≠ [])
    (instances : ∀ entry ∈ returned, ∃ schema ∈ schemas, schema.isValid entry.2 = true)
    (agrees : Agree returned) :
    (∀ entry ∈ returned, merged.isValid entry.2 = true) ∧
      ∃ union, returned.foldlM mergeReturned [] = .ok union ∧
        merged.isValid (.object union) = true ∧
        (block.outputSchema = merged → blockOutput block returned = .ok (.object union)) := by
  have owned : ∀ entry ∈ returned, ∃ schema own, Covers merged schema ∧ Merged schema ∧
      entry.2 = .object own ∧ schema.isValid (.object own) = true := by
    intro entry member
    obtain ⟨schema, listed, valid⟩ := instances entry member
    have closed := (returns schema listed).closed
    obtain ⟨properties, required, rfl, -⟩ := id closed
    obtain ⟨own, shape, -⟩ := (isValid_closed_iff ..).mp valid
    exact ⟨_, own, (mergeReturnSchemas_covers returns ok listed).2, closed, shape, shape ▸ valid⟩
  obtain ⟨first, firstMember⟩ := exists_mem_of_ne_nil returned nonempty
  obtain ⟨firstSchema, listed, -⟩ := instances first firstMember
  have held := (mergeReturnSchemas_covers returns ok listed).1
  constructor
  · intro entry member
    obtain ⟨schema, own, covers, closed, shape, valid⟩ := owned entry member
    rw [shape]
    refine isValid_of_covered held
      (fun key value found => ⟨schema, own, covers, closed, valid, found⟩)
      ⟨schema, own, covers, closed, valid, fun key value member => ?_⟩
    exact Option.isSome_iff_exists.mp (lookup_isSome_iff.mpr (mem_map_of_mem member))
  · have objects : ∀ entry ∈ returned, ∃ fields, entry.2 = .object fields := by
      intro entry member
      obtain ⟨_, own, -, -, shape, -⟩ := owned entry member
      exact ⟨own, shape⟩
    have shared : ∀ key value other,
        (key, value) ∈ [] ++ returned.flatMap (fun entry => entry.2.members) →
        (key, other) ∈ [] ++ returned.flatMap (fun entry => entry.2.members) →
        value = other := by
      intro key value other a b
      obtain ⟨one, oneMember, a⟩ := mem_flatMap.mp a
      obtain ⟨two, twoMember, b⟩ := mem_flatMap.mp b
      exact agrees one oneMember two twoMember key value other a b
    obtain ⟨union, built, members⟩ := foldlM_mergeReturned_ok objects shared
    have valid : merged.isValid (.object union) = true := by
      apply isValid_of_covered held
      · intro key value found
        obtain ⟨entry, member, field⟩ :=
          mem_flatMap.mp ((members key value).mp (mem_of_lookup found))
        obtain ⟨schema, own, covers, closed, shape, valid⟩ := owned entry member
        obtain ⟨other, foundOwn⟩ := Option.isSome_iff_exists.mp
          (lookup_isSome_iff.mpr (mem_map_of_mem (shape ▸ field)))
        have same := agrees entry member entry member key value other field
          (by simpa [shape, Json.members] using mem_of_lookup foundOwn)
        exact ⟨schema, own, covers, closed, valid, same ▸ foundOwn⟩
      · obtain ⟨schema, own, covers, closed, shape, valid⟩ := owned first firstMember
        refine ⟨schema, own, covers, closed, valid, fun key value member => ?_⟩
        have carried : (key, value) ∈ union :=
          (members key value).mpr (mem_flatMap.mpr
            ⟨first, firstMember, by simpa [shape, Json.members] using member⟩)
        exact Option.isSome_iff_exists.mp (lookup_isSome_iff.mpr (mem_map_of_mem carried))
    refine ⟨union, built, valid, ?_⟩
    intro schema
    have some : (!returned.isEmpty) = true := by simpa using nonempty
    rw [blockOutput, some]
    simp [require, validateCommit, built, schema, valid]

end Contract

def totalReturn (type : SchemaType) : Schema :=
  closed [("total", .keywords { type })] ["total"]

theorem totalReturn_returns (type : SchemaType) : letI := FloatText.exact
    ReturnSchema (totalReturn type) := by
  let := FloatText.exact
  let counter : Schema := closed [("count", .keywords { type })] ["count"]
  let available : SchemaMap := fun producer =>
    if producer = "counter" then some counter else none
  have lawful : available.Lawful := by
    intro producer schema found
    obtain ⟨-, found⟩ := Option.ite_none_right_eq_some.mp found
    cases found
    refine .keywords (by simp) ?_ (by simp)
    simp only [Option.getD_some, mem_singleton, Prod.mk.injEq]
    rintro _ _ ⟨rfl, rfl⟩
    exact .keywords (by simp) (by simp) (by simp)
  have output : returnOutput [⟨"total", ["counter", "count"]⟩] available "end" =
      .ok (.object [("total", .reference ["counter", "count"])], totalReturn type) := by
    cases type <;> rfl
  exact .built lawful output

/-- An integer total and a number total merge to a number, which the total of
both Returns is. -/
theorem mergeReturnSchemas_sound_totals : letI := FloatText.exact
    let returned := [("first", Json.object [("total", .number (.int 3))]),
      ("second", .object [("total", .number (.int 3))])]
    mergeReturnSchemas [totalReturn .integer, totalReturn .number] = .ok (totalReturn .number) ∧
      ∃ union, returned.foldlM mergeReturned [] = .ok union ∧
        (totalReturn .number).isValid (.object union) = true := by
  let := FloatText.exact
  intro returned
  have merged : mergeReturnSchemas [totalReturn .integer, totalReturn .number] =
      .ok (totalReturn .number) :=
    toOption_eq_some_iff.mp (by decide +kernel)
  have returns : ∀ schema ∈ [totalReturn .integer, totalReturn .number], ReturnSchema schema := by
    simp [totalReturn_returns]
  have instances : ∀ entry ∈ returned, ∃ schema ∈ [totalReturn .integer, totalReturn .number],
      schema.isValid entry.2 = true := by
    simp only [returned, mem_cons, not_mem_nil, or_false, forall_eq_or_imp, forall_eq]
    exact ⟨⟨_, .inl rfl, by decide +kernel⟩, ⟨_, .inr rfl, by decide +kernel⟩⟩
  have agrees : Agree returned := by
    intro first firstMember second secondMember key value other a b
    simp only [returned, mem_cons, not_mem_nil, or_false] at firstMember secondMember
    obtain ⟨rfl | rfl, rfl | rfl⟩ := And.intro firstMember secondMember <;>
      simp_all [Json.members]
  obtain ⟨-, union, built, valid, -⟩ := mergeReturnSchemas_sound
    { path := [], inputSchema := emptyObjectSchema, outputSchema := totalReturn .number,
      entry := "start", nodes := [], outgoing := fun _ => [] }
    returns merged (cons_ne_nil _ _) instances agrees
  exact ⟨merged, union, built, valid⟩

end RustX
