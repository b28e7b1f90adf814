import RustX.Library.Assoc
import RustX.Workflow.Vocabulary

/-!
`schemas_compatible`: the proof the compiler runs before it lets a value of one
schema flow where another is expected. Compilation admits every step of that
proof, so the budget of the authoring service is not part of this model.
-/
namespace RustX.Schema

open Assoc

/-- The values a `const` or an `enum` leaves, when the two agree. -/
def finiteSchemaValues : Schema → Option (List Json)
  | .anyOf _ => none
  | .keywords object =>
    match object.const with
    | some constant =>
      match object.enum with
      | some values => if constant ∈ values then some [constant] else none
      | none => some [constant]
    | none => object.enum

def schemaType : Schema → Option SchemaType
  | .anyOf _ => none
  | .keywords object => some object.type

def schemaForbidsProperty (object : Keywords Schema) (key : String) : Bool :=
  object.type == .object && object.additionalProperties == some false &&
    ((object.properties.getD []).lookup key).isNone

/-- `integer` is the one type that flows into another, `number`. -/
def typesCompatible (actual expected : SchemaType) : Bool :=
  actual == expected || (actual == .integer && expected == .number)

def maxLengthCompatible (actual expected : Option Nat) : Bool :=
  match expected with
  | none => true
  | some expectedMax => actual.any (· ≤ expectedMax)

def requiredCompatible (actual expected : Keywords Schema) : Bool :=
  (expected.required.getD []).all fun key =>
    ((actual.properties.getD []).lookup key).isSome &&
    ((expected.properties.getD []).lookup key).isSome &&
    (actual.required.getD []).contains key

def additionalCompatible (actual expected : Keywords Schema) : Bool :=
  expected.additionalProperties != some false ||
    (actual.additionalProperties == some false &&
      !(actual.properties.getD []).any fun property => schemaForbidsProperty expected property.1)

theorem sizeOf_properties_lt (object : Keywords Schema) :
    sizeOf (object.properties.getD []) < sizeOf object := by
  obtain ⟨type, properties, required, additional, items, enum, const, maxLength, _, _⟩ := object
  cases properties <;> simp <;> omega

theorem sizeOf_items_lt (object : Keywords Schema) : sizeOf object.items < sizeOf object := by
  obtain ⟨type, properties, required, additional, items, enum, const, maxLength, _, _⟩ := object
  simp
  omega

theorem sizeOf_lookup_lt {properties : List (String × Schema)}
    (found : properties.lookup key = some schema) : sizeOf schema < sizeOf properties := by
  have smaller := List.sizeOf_lt_of_mem (mem_of_lookup found)
  simp at smaller
  omega

mutual

def schemasCompatible (actual expected : Schema) : Bool :=
  match finiteSchemaValues actual with
  | some values => !values.isEmpty && values.all fun value => expected.isValid value
  | none =>
    match actual, expected with
    | .anyOf alternatives, expected =>
      !alternatives.isEmpty && alternativesCompatible alternatives expected
    | .keywords actual, .anyOf alternatives => compatibleAlternative (.keywords actual) alternatives
    | .keywords actual, .keywords expected =>
      (finiteSchemaValues (.keywords expected)).isNone &&
      typesCompatible actual.type expected.type &&
      maxLengthCompatible actual.maxLength expected.maxLength &&
      (expected.type != .object ||
        (requiredCompatible actual expected &&
          propertiesCompatible actual (expected.properties.getD []) &&
          additionalCompatible actual expected)) &&
      (expected.type != .array || itemsCompatible actual.items expected.items)
termination_by sizeOf actual + sizeOf expected
decreasing_by
  · simp
  · simp
  · have members := sizeOf_properties_lt expected
    simp
    omega
  · have actualItems := sizeOf_items_lt actual
    have expectedItems := sizeOf_items_lt expected
    simp
    omega

def alternativesCompatible (alternatives : List Schema) (expected : Schema) : Bool :=
  match alternatives with
  | [] => true
  | actual :: rest => schemasCompatible actual expected && alternativesCompatible rest expected
termination_by sizeOf alternatives + sizeOf expected

def compatibleAlternative (actual : Schema) (alternatives : List Schema) : Bool :=
  match alternatives with
  | [] => false
  | expected :: rest => schemasCompatible actual expected || compatibleAlternative actual rest
termination_by sizeOf actual + sizeOf alternatives

/-- Declared members of the expected object, required or optional. A member the
actual schema does not declare is only safe when the actual object is closed. -/
def propertiesCompatible (actual : Keywords Schema) (expected : List (String × Schema)) : Bool :=
  match expected with
  | [] => true
  | (key, expectedProperty) :: rest =>
    (match _found : (actual.properties.getD []).lookup key with
      | some actualProperty => schemasCompatible actualProperty expectedProperty
      | none => actual.additionalProperties == some false) &&
    propertiesCompatible actual rest
termination_by sizeOf actual + sizeOf expected
decreasing_by
  · have declared := sizeOf_lookup_lt _found
    have held := sizeOf_properties_lt actual
    simp
    omega
  · simp only [List.cons.sizeOf_spec]
    omega

def itemsCompatible (actual expected : Option Schema) : Bool :=
  match actual, expected with
  | some actualItems, some expectedItems => schemasCompatible actualItems expectedItems
  | none, some _ => false
  | _, none => true
termination_by sizeOf actual + sizeOf expected

end

theorem alternativesCompatible_iff (alternatives : List Schema) (expected : Schema) :
    alternativesCompatible alternatives expected = true ↔
      ∀ actual ∈ alternatives, schemasCompatible actual expected = true := by
  induction alternatives with
  | nil => simp [alternativesCompatible]
  | cons actual rest ih => simp [alternativesCompatible, ih]

theorem compatibleAlternative_iff (actual : Schema) (alternatives : List Schema) :
    compatibleAlternative actual alternatives = true ↔
      ∃ expected ∈ alternatives, schemasCompatible actual expected = true := by
  induction alternatives with
  | nil => simp [compatibleAlternative]
  | cons expected rest ih => simp [compatibleAlternative, ih]

theorem propertiesCompatible_spec (compatible : propertiesCompatible actual expected = true)
    (member : (key, expectedProperty) ∈ expected) :
    (∃ actualProperty, (key, actualProperty) ∈ actual.properties.getD [] ∧
      schemasCompatible actualProperty expectedProperty = true) ∨
    ((actual.properties.getD []).lookup key = none ∧ actual.additionalProperties = some false) := by
  induction expected with
  | nil => simp at member
  | cons property rest ih =>
    rw [propertiesCompatible, Bool.and_eq_true] at compatible
    rcases List.mem_cons.mp member with same | member
    · obtain ⟨rfl, rfl⟩ := Prod.mk.inj same
      have head := compatible.1
      split at head
      · next actualProperty found => exact .inl ⟨actualProperty, mem_of_lookup found, head⟩
      · next found => exact .inr ⟨found, by simpa using head⟩
    · exact ih compatible.2 member

/-- What the structural comparison of two keyword objects has established. -/
structure KeywordsCompatible (actual expected : Keywords Schema) : Prop where
  finite : finiteSchemaValues (.keywords expected) = none
  type : typesCompatible actual.type expected.type = true
  maxLength : maxLengthCompatible actual.maxLength expected.maxLength = true
  required : expected.type = .object → requiredCompatible actual expected = true
  properties : expected.type = .object →
    propertiesCompatible actual (expected.properties.getD []) = true
  additional : expected.type = .object → additionalCompatible actual expected = true
  items : expected.type = .array → itemsCompatible actual.items expected.items = true

theorem schemasCompatible_cases (compatible : schemasCompatible actual expected = true) :
    (∃ values, finiteSchemaValues actual = some values ∧
      ∀ value ∈ values, expected.isValid value = true) ∨
    (∃ alternatives, actual = .anyOf alternatives ∧
      ∀ alternative ∈ alternatives, schemasCompatible alternative expected = true) ∨
    (∃ alternatives, expected = .anyOf alternatives ∧
      ∃ alternative ∈ alternatives, schemasCompatible actual alternative = true) ∨
    (∃ a e, actual = .keywords a ∧ expected = .keywords e ∧ KeywordsCompatible a e) := by
  rw [schemasCompatible.eq_def] at compatible
  split at compatible
  · next values finite =>
      rw [Bool.and_eq_true, List.all_eq_true] at compatible
      exact .inl ⟨values, finite, compatible.2⟩
  split at compatible
  · next alternatives _ =>
      rw [Bool.and_eq_true, alternativesCompatible_iff] at compatible
      exact .inr (.inl ⟨alternatives, rfl, compatible.2⟩)
  · next a alternatives _ =>
      rw [compatibleAlternative_iff] at compatible
      exact .inr (.inr (.inl ⟨alternatives, rfl, compatible⟩))
  · next a e _ =>
      simp only [Bool.and_eq_true, Bool.or_eq_true, bne_iff_ne, ne_eq, Option.isNone_iff_eq_none,
        and_assoc] at compatible
      obtain ⟨finite, type, maxLength, members, items⟩ := compatible
      exact .inr (.inr (.inr ⟨a, e, rfl, rfl, finite, type, maxLength,
        fun object => (members.resolve_left (not_not_intro object)).1,
        fun object => (members.resolve_left (not_not_intro object)).2.1,
        fun object => (members.resolve_left (not_not_intro object)).2.2,
        fun array => items.resolve_left (not_not_intro array)⟩))

theorem finiteSchemaValues_sound (finite : finiteSchemaValues schema = some values)
    (valid : schema.isValid value = true) :
    ∃ member ∈ values, value.normalize = member.normalize := by
  cases schema with
  | anyOf alternatives => simp [finiteSchemaValues] at finite
  | keywords object =>
    rw [isValid_keywords_iff] at valid
    simp only [finiteSchemaValues] at finite
    split at finite
    · next constant found =>
        have member : constant ∈ values := by
          split at finite
          · split at finite
            · exact Option.some.inj finite ▸ List.mem_singleton_self constant
            · cases finite
          · exact Option.some.inj finite ▸ List.mem_singleton_self constant
        exact ⟨constant, member, (Json.same_iff _ _).mp (valid.const constant found)⟩
    · obtain ⟨member, listed, same⟩ := valid.enum values finite
      exact ⟨member, listed, (Json.same_iff _ _).mp same⟩

theorem typesCompatible_sound (compatible : typesCompatible actual expected = true)
    (admits : actual.admits value = true) : expected.admits value = true := by
  simp only [typesCompatible, Bool.or_eq_true, beq_iff_eq, Bool.and_eq_true] at compatible
  rcases compatible with rfl | ⟨rfl, rfl⟩
  · exact admits
  · cases value <;> simp_all [SchemaType.admits]

/-- Without a finite side, nothing in the vocabulary restricts by `const` or `enum`. -/
theorem Vocabulary.not_finite (vocabulary : Vocabulary (.keywords object))
    (finite : finiteSchemaValues (.keywords object) = none) :
    object.const = none ∧ object.enum = none := by
  cases vocabulary with
  | keywords agree _ _ =>
    simp only [finiteSchemaValues] at finite
    split at finite
    · next constant found =>
        split at finite
        · next values enumerated => simp [agree constant values found enumerated] at finite
        · simp at finite
    · next absent => exact ⟨absent, finite⟩

theorem SchemaType.admits_object {type : SchemaType} (admits : type.admits (.object fields) = true) :
    type = .object := by
  cases type <;> simp_all [SchemaType.admits]

theorem SchemaType.admits_array {type : SchemaType} (admits : type.admits (.array elements) = true) :
    type = .array := by
  cases type <;> simp_all [SchemaType.admits]

/-- Whatever is found compatible with `expected` only has instances of `expected`. -/
def AdmitsCompatible (expected : Schema) : Prop :=
  ∀ actual, schemasCompatible actual expected = true →
    ∀ value, actual.isValid value = true → expected.isValid value = true

/-- The structural step, given the schemas below the expected one. -/
theorem KeywordsCompatible.admits (structural : KeywordsCompatible actual expected)
    (vocabulary : Vocabulary (.keywords expected))
    (properties : ∀ key schema, (key, schema) ∈ expected.properties.getD [] →
      AdmitsCompatible schema)
    (items : ∀ schema, expected.items = some schema → AdmitsCompatible schema)
    (admits : actual.Admits value) : expected.Admits value := by
  have typed := typesCompatible_sound structural.type admits.type
  obtain ⟨const, enum⟩ := vocabulary.not_finite structural.finite
  refine ⟨typed, by simp [enum], by simp [const], ?_, ?_, ?_, ?_, ?_⟩
  · rintro maximum text bounded rfl
    have shorter := structural.maxLength
    rw [bounded, maxLengthCompatible, Option.any_eq_true] at shorter
    obtain ⟨actualMaximum, found, smaller⟩ := shorter
    exact Nat.le_trans (admits.maxLength actualMaximum text found rfl) (of_decide_eq_true smaller)
  · rintro fields rfl key member
    have required := structural.required (SchemaType.admits_object typed)
    have each := List.all_eq_true.mp required key member
    simp only [Bool.and_eq_true, List.contains_iff_mem] at each
    exact admits.required fields rfl key each.2
  · rintro fields rfl key schema member field found
    have compatible := structural.properties (SchemaType.admits_object typed)
    rcases propertiesCompatible_spec compatible member with
      ⟨actualProperty, declared, compatible⟩ | ⟨undeclared, closed⟩
    · exact properties key schema member actualProperty compatible field
        (admits.properties fields rfl key actualProperty declared field found)
    · obtain ⟨_, declared⟩ := admits.closed fields rfl closed _ (mem_of_lookup found)
      simpa using List.lookup_eq_none_iff.mp undeclared _ declared
  · rintro fields rfl closed field member
    have additional := structural.additional (SchemaType.admits_object typed)
    simp only [additionalCompatible, closed, bne_self_eq_false, Bool.false_or, Bool.and_eq_true,
      beq_iff_eq, Bool.not_eq_true', List.any_eq_false] at additional
    obtain ⟨schema, declared⟩ := admits.closed fields rfl additional.1 field member
    have allowed := additional.2 _ declared
    simp only [schemaForbidsProperty, SchemaType.admits_object typed, closed, beq_self_eq_true,
      Bool.true_and, Option.isNone_iff_eq_none, ← ne_eq, Option.ne_none_iff_exists'] at allowed
    obtain ⟨expectedProperty, found⟩ := allowed
    exact ⟨expectedProperty, mem_of_lookup found⟩
  · rintro elements schema rfl held element member
    have compatible := structural.items (SchemaType.admits_array typed)
    rw [held] at compatible
    cases actualItems : actual.items with
    | none => simp [actualItems, itemsCompatible] at compatible
    | some actualSchema =>
      rw [actualItems, itemsCompatible] at compatible
      exact items schema held actualSchema compatible element
        (admits.items elements actualSchema rfl actualItems element member)

/-- Unions on the actual side and finite schemas are handled alike for every
expected schema, by induction on the actual one. -/
theorem admitsCompatible_of_direct (direct : ∀ actual,
      (∃ alternatives, expected = .anyOf alternatives ∧
        ∃ alternative ∈ alternatives, schemasCompatible actual alternative = true) ∨
      (∃ a e, actual = .keywords a ∧ expected = .keywords e ∧ KeywordsCompatible a e) →
      ∀ value, actual.isValid value = true → expected.isValid value = true) :
    AdmitsCompatible expected := by
  intro actual compatible value valid
  induction actual generalizing value with
  | anyOf alternatives ih =>
    rcases schemasCompatible_cases compatible with ⟨values, finite, accepted⟩ | ⟨_, same, each⟩ | rest
    · cases finite
    · obtain ⟨alternative, member, valid⟩ := (isValid_anyOf_iff _ _).mp valid
      cases same
      exact ih alternative member (each alternative member) value valid
    · exact direct _ rest value valid
  | keywords object =>
    rcases schemasCompatible_cases compatible with ⟨values, finite, accepted⟩ | ⟨_, same, _⟩ | rest
    · obtain ⟨member, listed, same⟩ := finiteSchemaValues_sound finite valid
      exact isValid_congr expected same.symm (accepted member listed)
    · cases same
    · exact direct _ rest value valid

theorem Vocabulary.admitsCompatible (vocabulary : Vocabulary expected) :
    AdmitsCompatible expected := by
  -- members recurse on both sides, so the expected schema carries the induction
  induction expected with
  | anyOf alternatives ih =>
    refine admitsCompatible_of_direct fun actual found value valid => ?_
    rcases found with ⟨_, same, alternative, member, compatible⟩ | ⟨_, _, _, same, _⟩
    · cases same
      cases vocabulary with
      | anyOf each =>
        have accepted := ih alternative member (each alternative member) actual compatible
        exact (isValid_anyOf_iff _ _).mpr ⟨alternative, member, accepted value valid⟩
    · cases same
  | keywords object properties items =>
    refine admitsCompatible_of_direct fun actual found value valid => ?_
    rcases found with ⟨_, same, _⟩ | ⟨a, e, rfl, same, structural⟩
    · cases same
    cases same
    rw [isValid_keywords_iff] at valid ⊢
    refine structural.admits vocabulary ?_ ?_ valid
    · cases vocabulary with
      | keywords _ each _ =>
        intro key schema member
        exact properties key schema member (each key schema member)
    · cases vocabulary with
      | keywords _ _ each => exact fun schema held => items schema held (each schema held)

/-- The compiler's proof is sound: a value of a schema that was found compatible
with another is an instance of both. -/
theorem schemasCompatible_sound (actual expected : Schema) (vocabulary : Vocabulary expected)
    (compatible : schemasCompatible actual expected = true) (value : Json)
    (valid : actual.isValid value = true) : expected.isValid value = true :=
  vocabulary.admitsCompatible actual compatible value valid

/-- A required integer flows into an optional member of a nullable record. -/
theorem schemasCompatible_sound_record : (Schema.anyOf [.keywords
        { type := .object, properties := some [("count", .keywords { type := .number })] },
      .keywords { type := .null }]).isValid (.object [("count", .number (.int 3))]) = true :=
  schemasCompatible_sound
    (.keywords
      { type := .object, properties := some [("count", .keywords { type := .integer })],
        required := some ["count"], additionalProperties := some false })
    _
    (.anyOf (by
      simp only [List.mem_cons, List.not_mem_nil, or_false, forall_eq_or_imp, forall_eq]
      exact ⟨.keywords (by simp) (by
        simp only [Option.getD_some, List.mem_singleton, Prod.mk.injEq]
        rintro _ _ ⟨rfl, rfl⟩
        exact .keywords (by simp) (by simp) (by simp)) (by simp),
        .keywords (by simp) (by simp) (by simp)⟩))
    (by decide +kernel) _ (by decide +kernel)

end RustX.Schema
