import RustX.Workflow.Json

/-!
The closed schema vocabulary of a workflow and its standard meaning.
A schema is the decoded document: one typed keyword object, or the pure union
that the compiler derives and no author can write.
-/
namespace RustX

inductive SchemaType
  | array | boolean | integer | null | number | object | string
  deriving DecidableEq, Repr

/-- The keywords of `WORKFLOW_SCHEMA_KEYWORDS`. -/
structure Keywords (σ : Type) where
  type : SchemaType
  properties : Option (List (String × σ)) := none
  required : Option (List String) := none
  additionalProperties : Option Bool := none
  items : Option σ := none
  enum : Option (List Json) := none
  const : Option Json := none
  maxLength : Option Nat := none
  default : Option Json := none
  description : Option String := none

inductive Schema
  | keywords (object : Keywords Schema)
  | anyOf (alternatives : List Schema)

namespace Schema

mutual

def beq : Schema → Schema → Bool
  | .keywords a, .keywords b => beqObject a b
  | .anyOf as, .anyOf bs => beqAll as bs
  | _, _ => false

def beqObject : Keywords Schema → Keywords Schema → Bool
  | ⟨type, properties, required, additional, items, enum, const, maxLength, default, description⟩,
    ⟨type', properties', required', additional', items', enum', const', maxLength', default',
      description'⟩ =>
    decide (type = type') && beqProperties properties properties' &&
    decide (required = required') && decide (additional = additional') &&
    beqItems items items' && decide (enum = enum') && decide (const = const') &&
    decide (maxLength = maxLength') && decide (default = default') &&
    decide (description = description')

def beqProperties : Option (List (String × Schema)) → Option (List (String × Schema)) → Bool
  | none, none => true
  | some as, some bs => beqFields as bs
  | _, _ => false

def beqFields : List (String × Schema) → List (String × Schema) → Bool
  | [], [] => true
  | (key, a) :: as, (key', b) :: bs => decide (key = key') && beq a b && beqFields as bs
  | _, _ => false

def beqItems : Option Schema → Option Schema → Bool
  | none, none => true
  | some a, some b => beq a b
  | _, _ => false

def beqAll : List Schema → List Schema → Bool
  | [], [] => true
  | a :: as, b :: bs => beq a b && beqAll as bs
  | _, _ => false

end

mutual

theorem beq_iff (a b : Schema) : beq a b = true ↔ a = b := by
  cases a with
  | keywords a => cases b <;> simp [beq, beqObject_iff a]
  | anyOf as => cases b <;> simp [beq, beqAll_iff as]

theorem beqObject_iff (a b : Keywords Schema) : beqObject a b = true ↔ a = b := by
  obtain ⟨type, properties, required, additional, items, enum, const, maxLength, default,
    description⟩ := a
  cases b
  simp [beqObject, beqProperties_iff properties, beqItems_iff items, and_assoc]

theorem beqProperties_iff (as bs : Option (List (String × Schema))) :
    beqProperties as bs = true ↔ as = bs := by
  cases as with
  | none => cases bs <;> simp [beqProperties]
  | some as => cases bs <;> simp [beqProperties, beqFields_iff as]

theorem beqFields_iff (as bs : List (String × Schema)) : beqFields as bs = true ↔ as = bs := by
  cases as with
  | nil => cases bs <;> simp [beqFields]
  | cons field as =>
    obtain ⟨key, a⟩ := field
    cases bs with
    | nil => simp [beqFields]
    | cons other bs =>
      obtain ⟨key', b⟩ := other
      simp [beqFields, beq_iff a, beqFields_iff as]

theorem beqItems_iff (a b : Option Schema) : beqItems a b = true ↔ a = b := by
  cases a with
  | none => cases b <;> simp [beqItems]
  | some a => cases b <;> simp [beqItems, beq_iff a]

theorem beqAll_iff (as bs : List Schema) : beqAll as bs = true ↔ as = bs := by
  cases as with
  | nil => cases bs <;> simp [beqAll]
  | cons a as => cases bs <;> simp [beqAll, beq_iff a, beqAll_iff as]

end

instance : DecidableEq Schema := fun a b => decidable_of_iff (beq a b = true) (beq_iff a b)

end Schema

/-- Induction over a schema and the schemas its keywords hold. -/
@[elab_as_elim, induction_eliminator]
theorem Schema.induction {motive : Schema → Prop} (keywords : ∀ object : Keywords Schema,
      (∀ key schema, (key, schema) ∈ object.properties.getD [] → motive schema) →
      (∀ schema, object.items = some schema → motive schema) → motive (.keywords object))
    (anyOf : ∀ alternatives : List Schema,
      (∀ schema ∈ alternatives, motive schema) → motive (.anyOf alternatives))
    (schema : Schema) : motive schema := by
  match schema with
  | .anyOf alternatives =>
    refine anyOf alternatives fun schema member => ?_
    have smaller := List.sizeOf_lt_of_mem member
    exact Schema.induction keywords anyOf schema
  | .keywords ⟨type, properties, required, additional, items, enum, const, maxLength, default,
      description⟩ =>
      refine keywords _ (fun key schema member => ?_) (fun schema held => ?_)
      · cases properties with
        | none => simp at member
        | some properties =>
          have smaller := List.sizeOf_lt_of_mem (Option.getD_some ▸ member)
          exact Schema.induction keywords anyOf schema
      · exact Schema.induction keywords anyOf schema
termination_by sizeOf schema
decreasing_by
  all_goals simp_all
  all_goals omega

/-- The type names a value answers to; an integral float is an `integer`. -/
def SchemaType.admits : SchemaType → Json → Bool
  | .null, .null => true
  | .boolean, .bool _ => true
  | .string, .string _ => true
  | .array, .array _ => true
  | .object, .object _ => true
  | .number, .number _ => true
  | .integer, .number n => n.isIntegral
  | _, _ => false

namespace Schema

mutual

/-- `Validator::is_valid`: the standard meaning of the vocabulary. -/
def isValid : Schema → Json → Bool
  | .keywords object, value => isValidObject object value
  | .anyOf alternatives, value => isValidAny alternatives value

def isValidObject : Keywords Schema → Json → Bool
  | ⟨type, properties, required, additional, items, enum, const, maxLength, _, _⟩, value =>
    type.admits value &&
    (match enum with
      | some values => values.any (value.same ·)
      | none => true) &&
    (match const with
      | some constant => value.same constant
      | none => true) &&
    (match maxLength, value with
      | some maximum, .string text => decide (text.length ≤ maximum)
      | _, _ => true) &&
    (match value with
      | .object fields =>
        (required.getD []).all (fun key => (fields.lookup key).isSome) &&
        isValidProperties properties fields &&
        (additional != some false ||
          fields.all fun field => (properties.getD []).any (·.1 == field.1))
      | _ => true) &&
    (match value with
      | .array elements => isValidItems items elements
      | _ => true)

def isValidProperties : Option (List (String × Schema)) → List (String × Json) → Bool
  | none, _ => true
  | some properties, fields => isValidFields properties fields

def isValidFields : List (String × Schema) → List (String × Json) → Bool
  | [], _ => true
  | (key, schema) :: rest, fields =>
    (match fields.lookup key with
      | some value => isValid schema value
      | none => true) &&
    isValidFields rest fields

def isValidItems : Option Schema → List Json → Bool
  | none, _ => true
  | some schema, elements => elements.all fun element => isValid schema element

def isValidAny : List Schema → Json → Bool
  | [], _ => false
  | schema :: rest, value => isValid schema value || isValidAny rest value

end

theorem isValidAny_iff (alternatives : List Schema) (value : Json) :
    isValidAny alternatives value = true ↔ ∃ schema ∈ alternatives, schema.isValid value = true := by
  induction alternatives with
  | nil => simp [isValidAny]
  | cons schema rest ih => simp [isValidAny, ih]

@[simp] theorem isValid_anyOf_iff (alternatives : List Schema) (value : Json) :
    (anyOf alternatives).isValid value = true ↔
      ∃ schema ∈ alternatives, schema.isValid value = true := by
  rw [isValid, isValidAny_iff]

theorem isValidFields_iff (properties : List (String × Schema)) (fields : List (String × Json)) :
    isValidFields properties fields = true ↔ ∀ key schema, (key, schema) ∈ properties →
        ∀ value, fields.lookup key = some value → schema.isValid value = true := by
  induction properties with
  | nil => simp [isValidFields]
  | cons property rest ih =>
    obtain ⟨name, schema⟩ := property
    rw [isValidFields, Bool.and_eq_true, ih]
    constructor
    · rintro ⟨head, tail⟩ key declared member value found
      rcases List.mem_cons.mp member with same | member
      · obtain ⟨rfl, rfl⟩ := Prod.mk.inj same
        simpa [found] using head
      · exact tail key declared member value found
    · intro all
      refine ⟨?_, fun key declared member =>
        all key declared (List.mem_cons_of_mem _ member)⟩
      cases found : fields.lookup name with
      | none => rfl
      | some value => exact all name schema List.mem_cons_self value found

end Schema

/-- What a keyword object asks of a value, keyword by keyword. -/
structure Keywords.Admits (object : Keywords Schema) (value : Json) : Prop where
  type : object.type.admits value = true
  enum : ∀ values, object.enum = some values → ∃ member ∈ values, value.same member = true
  const : ∀ constant, object.const = some constant → value.same constant = true
  maxLength : ∀ maximum text, object.maxLength = some maximum → value = .string text →
    text.length ≤ maximum
  required : ∀ fields, value = .object fields → ∀ key ∈ object.required.getD [],
    ∃ field, fields.lookup key = some field
  properties : ∀ fields, value = .object fields →
    ∀ key schema, (key, schema) ∈ object.properties.getD [] →
      ∀ field, fields.lookup key = some field → schema.isValid field = true
  closed : ∀ fields, value = .object fields → object.additionalProperties = some false →
    ∀ field ∈ fields, ∃ schema, (field.1, schema) ∈ object.properties.getD []
  items : ∀ elements schema, value = .array elements → object.items = some schema →
    ∀ element ∈ elements, schema.isValid element = true

namespace Schema

theorem isValidProperties_iff (properties : Option (List (String × Schema)))
    (fields : List (String × Json)) :
    isValidProperties properties fields = true ↔ ∀ key schema, (key, schema) ∈ properties.getD [] →
        ∀ value, fields.lookup key = some value → schema.isValid value = true := by
  cases properties with
  | none => simp [isValidProperties]
  | some properties => simp [isValidProperties, isValidFields_iff]

theorem isValid_keywords_iff (object : Keywords Schema) (value : Json) :
    (keywords object).isValid value = true ↔ object.Admits value := by
  obtain ⟨type, properties, required, additional, items, enum, const, maxLength, _, _⟩ := object
  simp only [isValid, isValidObject, Bool.and_eq_true, and_assoc]
  constructor
  · rintro ⟨typed, enumerated, constant, short, fields, elements⟩
    refine ⟨typed, ?_, ?_, ?_, ?_, ?_, ?_, ?_⟩
    · rintro values rfl
      simpa using enumerated
    · rintro value' rfl
      simpa using constant
    · rintro maximum text rfl rfl
      simpa using short
    · rintro pairs rfl key member
      simp only [Bool.and_eq_true] at fields
      have present := List.all_eq_true.mp fields.1.1 key member
      exact Option.isSome_iff_exists.mp present
    · rintro pairs rfl
      simp only [Bool.and_eq_true] at fields
      exact (isValidProperties_iff _ _).mp fields.1.2
    · rintro pairs rfl rfl field member
      simp only [Bool.and_eq_true] at fields
      have declared := fields.2
      simp only [bne_self_eq_false, Bool.false_or, List.all_eq_true, List.any_eq_true] at declared
      obtain ⟨⟨key, schema⟩, declared, named⟩ := declared field member
      exact ⟨schema, by simpa [← (beq_iff_eq.mp named)] using declared⟩
    · rintro elements schema rfl rfl element member
      exact List.all_eq_true.mp elements element member
  · intro admits
    refine ⟨admits.type, ?_, ?_, ?_, ?_, ?_⟩
    · cases enum with
      | none => rfl
      | some values => simpa using admits.enum values rfl
    · cases const with
      | none => rfl
      | some constant => simpa using admits.const constant rfl
    · split
      · simpa using admits.maxLength _ _ rfl rfl
      · rfl
    · cases value with
      | object fields =>
        simp only [Bool.and_eq_true]
        refine ⟨⟨?_, (isValidProperties_iff _ _).mpr (admits.properties fields rfl)⟩, ?_⟩
        · simpa [Option.isSome_iff_exists] using admits.required fields rfl
        · by_cases open_ : additional = some false
          · have closed := admits.closed fields rfl open_
            simp only [open_, bne_self_eq_false, Bool.false_or, List.all_eq_true, List.any_eq_true]
            intro field member
            obtain ⟨schema, declared⟩ := closed field member
            exact ⟨(field.1, schema), declared, by simp⟩
          · simp [open_]
      | _ => trivial
    · cases value with
      | array elements =>
        cases items with
        | none => rfl
        | some schema => simpa [isValidItems] using admits.items elements schema rfl rfl
      | _ => trivial

end Schema

theorem SchemaType.admits_normalize (type : SchemaType) (value : Json) :
    type.admits value.normalize = type.admits value := by
  cases type <;> cases value <;> rfl

namespace Schema

theorem isValid_congr (schema : Schema) {a b : Json} (same : a.normalize = b.normalize)
    (valid : schema.isValid a = true) : schema.isValid b = true := by
  induction schema generalizing a b with
  | anyOf alternatives ih =>
    rw [isValid_anyOf_iff] at valid ⊢
    obtain ⟨schema, member, valid⟩ := valid
    exact ⟨schema, member, ih schema member same valid⟩
  | keywords object properties items =>
    rw [isValid_keywords_iff] at valid ⊢
    refine ⟨?_, ?_, ?_, ?_, ?_, ?_, ?_, ?_⟩
    · rw [← SchemaType.admits_normalize, ← same, SchemaType.admits_normalize]
      exact valid.type
    · intro values enumerated
      obtain ⟨member, listed, equal⟩ := valid.enum values enumerated
      rw [Json.same_iff] at equal
      exact ⟨member, listed, (Json.same_iff _ _).mpr (same.symm.trans equal)⟩
    · intro constant found
      have equal := (Json.same_iff _ _).mp (valid.const constant found)
      exact (Json.same_iff _ _).mpr (same.symm.trans equal)
    · rintro maximum text bounded rfl
      cases a <;> simp only [Json.normalize, reduceCtorEq, Json.string.injEq] at same
      subst same
      exact valid.maxLength maximum _ bounded rfl
    · rintro fields rfl key member
      obtain ⟨others, rfl, -, lookups⟩ := Json.normalize_eq_object same
      obtain ⟨field, found⟩ := valid.required _ rfl key member
      have paired := lookups key
      rw [found, Option.map_some, eq_comm, Option.map_eq_some_iff] at paired
      obtain ⟨other, found, -⟩ := paired
      exact ⟨other, found⟩
    · rintro fields rfl key schema member field found
      obtain ⟨others, rfl, -, lookups⟩ := Json.normalize_eq_object same
      have paired := lookups key
      rw [found, Option.map_some, Option.map_eq_some_iff] at paired
      obtain ⟨other, found, equal⟩ := paired
      exact properties key schema member equal (valid.properties _ rfl key schema member _ found)
    · rintro fields rfl closed field member
      obtain ⟨others, rfl, keys, -⟩ := Json.normalize_eq_object same
      have named : field.1 ∈ others.map Prod.fst := keys ▸ List.mem_map_of_mem member
      obtain ⟨other, member, equal⟩ := List.mem_map.mp named
      exact equal ▸ valid.closed _ rfl closed other member
    · rintro elements schema rfl held element member
      obtain ⟨others, rfl, equal⟩ := Json.normalize_eq_array same
      have paired : element.normalize ∈ others.map Json.normalize :=
        equal ▸ List.mem_map_of_mem member
      obtain ⟨other, member, equal⟩ := List.mem_map.mp paired
      exact items schema held equal (valid.items _ schema rfl held other member)

end Schema

end RustX
