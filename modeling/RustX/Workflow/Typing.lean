import RustX.Workflow.Inference

/-!
Typed expressions do not go wrong: evaluation in an environment of the inferred
schemas returns an instance or fails on the byte and depth bounds alone.
-/
namespace RustX

open Checked Schema List Assoc

/-- Induction over an expression and its parts. -/
@[elab_as_elim, induction_eliminator]
theorem WorkflowValue.induction {motive : WorkflowValue → Prop}
    (reference : ∀ path, motive (.reference path)) (literal : ∀ value, motive (.literal value))
    (object : ∀ fields : List (String × WorkflowValue),
      (∀ key value, (key, value) ∈ fields → motive value) → motive (.object fields))
    (array : ∀ items : List WorkflowValue, (∀ item ∈ items, motive item) → motive (.array items))
    (template : ∀ parts : List WorkflowValue,
      (∀ part ∈ parts, motive part) → motive (.template parts))
    (expression : WorkflowValue) : motive expression := by
  match expression with
  | .reference path => exact reference path
  | .literal value => exact literal value
  | .object fields =>
    refine object fields fun key value member => ?_
    have smaller := sizeOf_lt_of_mem member
    exact WorkflowValue.induction reference literal object array template value
  | .array items =>
    refine array items fun item member => ?_
    have smaller := sizeOf_lt_of_mem member
    exact WorkflowValue.induction reference literal object array template item
  | .template parts =>
    refine template parts fun part member => ?_
    have smaller := sizeOf_lt_of_mem member
    exact WorkflowValue.induction reference literal object array template part
termination_by sizeOf expression
decreasing_by
  all_goals simp_all
  all_goals omega

def boundErrors : List RunError :=
  [.invalidValue "constructed value byte bound exceeded",
    .invalidValue "constructed value depth exceeded",
    .invalidValue "constructed object byte bound exceeded",
    .invalidValue "constructed array byte bound exceeded",
    .invalidValue "rendered text byte budget exceeded"]

/-- Every producer in scope has committed an instance of its schema. -/
def TypedEnvironment (available : SchemaMap) (input : Json) (values : String → Option Json) : Prop :=
  ∀ producer schema, available producer = some schema → Vocabulary schema ∧
    if producer = "args" then schema.isValid input = true
    else ∃ value, values producer = some value ∧ schema.isValid value = true

section Bounds

variable [FloatText]

theorem boundedValueBytes_yields (value : Json) :
    Yields (· ∈ boundErrors) (fun _ => True) (boundedValueBytes value) := by
  unfold boundedValueBytes
  split
  · simp [boundErrors]
  · split <;> simp [boundErrors]

theorem bounded_yields {post : Json → Prop} (holds : post value) :
    Yields (· ∈ boundErrors) post (bounded value) :=
  (boundedValueBytes_yields value).bind fun _ _ => holds

end Bounds

section References

theorem memberSchema_sound (found : memberSchema path node schema key = .ok member)
    (vocabulary : Vocabulary schema) (valid : schema.isValid value = true) :
    Vocabulary member ∧ ∃ field, value.get key = some field ∧ member.isValid field = true := by
  cases schema with
  | anyOf alternatives => simp [memberSchema] at found
  | keywords object =>
    simp only [memberSchema, bind_eq_ok_iff, require_eq_ok_iff, Bool.and_eq_true, beq_iff_eq,
      contains_iff_mem] at found
    obtain ⟨_, ⟨typed, required⟩, found⟩ := found
    split at found
    · next property declared =>
        obtain rfl := Except.ok.inj found
        have admits := (isValid_keywords_iff _ _).mp valid
        have shape := admits.type
        rw [typed] at shape
        cases value <;> simp only [SchemaType.admits, Bool.false_eq_true] at shape
        obtain ⟨field, present⟩ := admits.required _ rfl key required
        have member := mem_of_lookup declared
        cases vocabulary with
        | keywords _ each _ =>
          exact ⟨each key property member, field, present,
            admits.properties _ rfl key property member field present⟩
    · cases found

theorem referenceMembers_sound (found : referenceMembers path node schema fields = .ok target)
    (vocabulary : Vocabulary schema) (valid : schema.isValid value = true) :
    Vocabulary target ∧ ∃ result, descend value fields = some result ∧
      target.isValid result = true := by
  induction fields generalizing schema value with
  | nil =>
    obtain rfl := Except.ok.inj found
    exact ⟨vocabulary, value, rfl, valid⟩
  | cons key fields ih =>
    simp only [referenceMembers, bind_eq_ok_iff] at found
    obtain ⟨member, head, rest⟩ := found
    obtain ⟨vocabulary, field, present, valid⟩ := memberSchema_sound head vocabulary valid
    obtain ⟨vocabulary, result, reached, valid⟩ := ih rest vocabulary valid
    exact ⟨vocabulary, result, by simp [descend, present, reached], valid⟩

/-- A reference in scope resolves to an instance of its schema. -/
theorem referenceSchema_sound (environment : TypedEnvironment available input values)
    (found : referenceSchema path available node = .ok schema) :
    Vocabulary schema ∧ ∃ value, resolveReference path input values = .ok value ∧
      schema.isValid value = true := by
  simp only [referenceSchema, bind_eq_ok_iff] at found
  obtain ⟨_, _, found⟩ := found
  cases path with
  | nil => cases found
  | cons producer fields =>
    cases declared : available producer with
    | none => simp [declared] at found
    | some declaredSchema =>
      simp only [declared] at found
      obtain ⟨vocabulary, typed⟩ := environment producer declaredSchema declared
      have head : ∃ value, resolveHead (producer :: fields) input values = .ok value ∧
          declaredSchema.isValid value = true := by
        by_cases args : producer = "args"
        · rw [if_pos args] at typed
          exact ⟨input, by simp [resolveHead, args], typed⟩
        · rw [if_neg args] at typed
          obtain ⟨value, committed, valid⟩ := typed
          exact ⟨value, by simp [resolveHead, args, committed], valid⟩
      obtain ⟨value, resolved, valid⟩ := head
      obtain ⟨vocabulary, result, reached, valid⟩ := referenceMembers_sound found vocabulary valid
      refine ⟨vocabulary, result, ?_, valid⟩
      simp only [resolveReference, resolved, ok_bind, tail_cons, reached]

end References

/-- Construction pairs each declared property with a field of the object built so
far, and leaves no other field. -/
def FieldsAgree (properties : List (String × Schema)) (fields : List (String × Json)) : Prop :=
  (∀ key schema, (key, schema) ∈ properties →
    ∃ value, fields.lookup key = some value ∧ schema.isValid value = true) ∧
  ∀ field ∈ fields, ∃ schema, (field.1, schema) ∈ properties

theorem FieldsAgree.insert (agree : FieldsAgree properties fields) {schema : Schema}
    (valid : schema.isValid value = true) :
    FieldsAgree (insert key schema properties) (insert key value fields) := by
  constructor
  · intro name declared member
    rw [mem_insert] at member
    rcases member with same | ⟨member, ne⟩
    · obtain ⟨rfl, rfl⟩ := Prod.mk.inj same
      exact ⟨value, lookup_insert_self _ _ _, valid⟩
    · rw [lookup_insert_of_ne ne]
      exact agree.1 name declared member
  · intro field member
    rw [mem_insert] at member
    rcases member with rfl | ⟨member, ne⟩
    · exact ⟨schema, mem_insert.mpr (.inl rfl)⟩
    · obtain ⟨declared, listed⟩ := agree.2 field member
      exact ⟨declared, mem_insert.mpr (.inr ⟨listed, ne⟩)⟩

theorem isValid_constant (value : Json) :
    (Schema.keywords { type := jsonType value, const := some value }).isValid value = true := by
  have typed : (jsonType value).admits value = true := by
    cases value with
    | number n =>
      cases n with
      | int n => exact Number.isIntegral_int n
      | float n => rfl
    | _ => rfl
  rw [isValid_keywords_iff]
  refine ⟨typed, by simp, ?_, by simp, by simp, by simp, by simp, by simp⟩
  rintro _ ⟨⟩
  simp [Json.same]

/-- A closed record of agreeing fields, every declared name of which is required. -/
theorem isValid_record (agree : FieldsAgree properties fields)
    (declared : ∀ key ∈ names, ∃ schema, (key, schema) ∈ properties) :
    (Schema.keywords
      { type := .object, properties := some properties, required := some names,
        additionalProperties := some false }).isValid (.object fields) = true := by
  rw [isValid_keywords_iff]
  refine ⟨rfl, by simp, by simp, by simp, ?_, ?_, ?_, by simp⟩
  · rintro _ ⟨⟩ key member
    obtain ⟨schema, listed⟩ := declared key member
    obtain ⟨value, found, _⟩ := agree.1 key schema listed
    exact ⟨value, found⟩
  · rintro _ ⟨⟩ key schema listed field found
    obtain ⟨value, held, valid⟩ := agree.1 key schema listed
    obtain rfl := Option.some.inj (held.symm.trans found)
    exact valid
  · rintro _ ⟨⟩ _ field member
    exact agree.2 field member

theorem typedConstant_sound (found : typedConstant schema = some (type, constant))
    (valid : schema.isValid value = true) :
    type.admits value = true ∧ value.same constant = true := by
  cases schema with
  | anyOf alternatives => cases found
  | keywords object =>
    simp only [typedConstant, Option.map_eq_some_iff, Prod.mk.injEq] at found
    obtain ⟨held, const, rfl, rfl⟩ := found
    have admits := (isValid_keywords_iff _ _).mp valid
    exact ⟨admits.type, admits.const _ const⟩

theorem mapM_typedConstant {schemas : List Schema}
    (found : schemas.mapM typedConstant = some constants) (member : schema ∈ schemas) :
    ∃ constant ∈ constants, typedConstant schema = some constant := by
  induction schemas generalizing constants with
  | nil => simp at member
  | cons head rest ih =>
    simp only [mapM_cons, Option.bind_eq_bind, Option.bind_eq_some_iff, Option.pure_def,
      Option.some.injEq] at found
    obtain ⟨first, this, others, tail, rfl⟩ := found
    rcases mem_cons.mp member with rfl | member
    · exact ⟨first, mem_cons_self, this⟩
    · obtain ⟨constant, listed, found⟩ := ih tail member
      exact ⟨constant, mem_cons_of_mem _ listed, found⟩

theorem element_cases (typed : element schemas = .ok found) : (schemas = [] ∧ found = .empty) ∨
    (∃ (type : SchemaType) (constants : List (SchemaType × Json)), found = .finite type (constants.map Prod.snd).eraseDups ∧
      (∀ constant ∈ constants, constant.1 = type) ∧
      ∀ schema ∈ schemas, ∃ constant ∈ constants, typedConstant schema = some constant) ∨
    (∃ candidate ∈ schemas, found = .contract candidate ∧
      ∀ schema ∈ schemas, schemasCompatible schema candidate = true) := by
  simp only [element] at typed
  split at typed
  · next none =>
      cases typed
      refine .inl ⟨eq_nil_iff_forall_not_mem.mpr fun schema member => ?_, rfl⟩
      simpa [none] using mem_eraseDups.mpr member
  · split at typed
    · next constants found =>
        simp only [bind_eq_ok_iff, require_eq_ok_iff, all_eq_true, beq_iff_eq] at typed
        obtain ⟨_, uniform, same⟩ := typed
        cases same
        refine .inr (.inl ⟨_, constants, rfl, uniform, fun schema member => ?_⟩)
        exact mapM_typedConstant found (by simpa using member)
    · split at typed
      · next candidate chosen =>
          cases typed
          have member := mem_of_find?_eq_some chosen
          have admits := find?_some chosen
          simp only [all_eq_true, mem_eraseDups] at admits member
          exact .inr (.inr ⟨candidate, member, rfl, admits⟩)
      · cases typed

theorem isValid_arrayOf {item : Schema} (each : ∀ element ∈ elements, item.isValid element = true) :
    (Schema.keywords { type := .array, items := some item }).isValid (.array elements) = true := by
  simpa [isValid, isValidObject, isValidItems, SchemaType.admits] using each

theorem isValid_enumerated {type : SchemaType} (typed : type.admits value = true)
    (listed : ∃ member ∈ values, value.same member = true) :
    (Schema.keywords { type, enum := some values }).isValid value = true := by
  rw [isValid_keywords_iff]
  refine ⟨typed, ?_, by simp, by simp, by simp, by simp, by simp, by simp⟩
  rintro _ ⟨⟩
  exact listed

/-- Every element of a constructed array is an instance of what `element` found. -/
theorem element_sound (vocabulary : ∀ schema ∈ schemas, Vocabulary schema)
    (typed : element schemas = .ok found) :
    Vocabulary found.schema ∧ ∀ elements : List Json,
      (∀ element ∈ elements, ∃ schema ∈ schemas, schema.isValid element = true) →
      found.schema.isValid (.array elements) = true := by
  rcases element_cases typed with ⟨rfl, rfl⟩ | ⟨type, constants, rfl, uniform, all⟩ |
    ⟨candidate, member, rfl, compatible⟩
  · refine ⟨.keywords (by simp) (by simp) (by simp), fun elements each => ?_⟩
    have none : elements = [] := eq_nil_iff_forall_not_mem.mpr fun element member => by
      simpa using each element member
    subst none
    rfl
  · refine ⟨.keywords (by simp) (by simp) ?_, fun elements each => ?_⟩
    · simp only [Option.some.injEq, forall_eq']
      exact .keywords (by simp) (by simp) (by simp)
    · refine isValid_arrayOf fun element member => ?_
      obtain ⟨schema, listed, valid⟩ := each element member
      obtain ⟨⟨kind, constant⟩, held, found⟩ := all schema listed
      obtain ⟨typed, same⟩ := typedConstant_sound found valid
      refine isValid_enumerated (uniform _ held ▸ typed) ⟨constant, ?_, same⟩
      rw [mem_eraseDups]
      exact mem_map_of_mem held
  · refine ⟨.keywords (by simp) (by simp) ?_, fun elements each => ?_⟩
    · simpa using vocabulary candidate member
    · refine isValid_arrayOf fun element here => ?_
      obtain ⟨schema, listed, valid⟩ := each element here
      exact (vocabulary candidate member).admitsCompatible schema (compatible schema listed) element
        valid

section Values

variable [FloatText] {available : SchemaMap} {input : Json} {values : String → Option Json}
  {node : String}

def Sound (available : SchemaMap) (node : String) (input : Json) (values : String → Option Json)
    (expression : WorkflowValue) : Prop :=
  ∀ depth schema, infer available node depth expression = .ok schema → Vocabulary schema ∧
    Yields (· ∈ boundErrors) (fun value => schema.isValid value = true)
      (evaluateValue input values expression)

/-- Names declared by construction, those of earlier fields included. -/
theorem inferFields_names
    (inferred : inferFields available node depth properties fields = .ok result)
    (named : (∃ schema, (key, schema) ∈ properties) ∨ key ∈ fields.map Prod.fst) :
    ∃ schema, (key, schema) ∈ result := by
  induction fields generalizing properties with
  | nil =>
    obtain rfl := Except.ok.inj inferred
    simpa using named
  | cons field fields ih =>
    obtain ⟨name, value⟩ := field
    simp only [inferFields, bind_eq_ok_iff] at inferred
    obtain ⟨_, _, schema, _, rest⟩ := inferred
    apply ih rest
    by_cases same : key = name
    · exact .inl ⟨schema, mem_insert.mpr (.inl (by rw [same]))⟩
    · rcases named with ⟨declared, member⟩ | member
      · exact .inl ⟨declared, mem_insert.mpr (.inr ⟨member, same⟩)⟩
      · exact .inr (by simpa [same] using member)

section

variable
  (sound : ∀ key value, (key, value) ∈ fields → Sound available node input values value)
  (inferred : inferFields available node depth properties fields = .ok result)
include sound inferred

theorem inferFields_vocabulary (vocabulary : ∀ key schema, (key, schema) ∈ properties → Vocabulary schema) :
    ∀ key schema, (key, schema) ∈ result → Vocabulary schema := by
  induction fields generalizing properties with
  | nil =>
    obtain rfl := Except.ok.inj inferred
    exact vocabulary
  | cons field fields ih =>
    obtain ⟨name, value⟩ := field
    simp only [inferFields, bind_eq_ok_iff, mapError_eq_ok_iff] at inferred
    obtain ⟨_, _, schema, typed, rest⟩ := inferred
    refine ih (fun key value member => sound key value (mem_cons_of_mem _ member)) rest ?_
    intro key declared member
    rcases mem_insert.mp member with same | ⟨member, _⟩
    · obtain ⟨rfl, rfl⟩ := Prod.mk.inj same
      exact (sound _ value mem_cons_self _ _ typed).1
    · exact vocabulary key declared member

theorem evaluateObject_yields (agree : FieldsAgree properties built) :
    Yields (· ∈ boundErrors) (fun value => ∃ fields, value = .object fields ∧
      FieldsAgree result fields) (evaluateObject input values bytes built fields) := by
  induction fields generalizing properties built bytes with
  | nil =>
    obtain rfl := Except.ok.inj inferred
    exact ⟨built, rfl, agree⟩
  | cons field fields ih =>
    obtain ⟨name, expression⟩ := field
    simp only [inferFields, bind_eq_ok_iff, mapError_eq_ok_iff] at inferred
    obtain ⟨_, _, schema, typed, rest⟩ := inferred
    rw [evaluateObject]
    refine (sound _ expression mem_cons_self _ _ typed).2.bind fun value valid => ?_
    refine (boundedValueBytes_yields value).bind fun size _ => ?_
    dsimp only
    split
    · simp [boundErrors]
    · exact ih (fun key value member => sound key value (mem_cons_of_mem _ member)) rest
        (agree.insert valid)

end

/-- The elements of a constructed array, each an instance of its own schema. -/
theorem evaluateItems_yields (sound : ∀ item ∈ items, Sound available node input values item)
    (inferred : inferItems available node depth index items = .ok schemas) :
    Yields (· ∈ boundErrors) (fun elements => ∀ element ∈ elements,
      ∃ schema ∈ schemas, schema.isValid element = true)
      (evaluateItems input values bytes items) := by
  induction items generalizing schemas bytes index with
  | nil => simp [evaluateItems]
  | cons item items ih =>
    simp only [inferItems, bind_eq_ok_iff, mapError_eq_ok_iff] at inferred
    obtain ⟨schema, typed, rest, tail, same⟩ := inferred
    obtain rfl := Except.ok.inj same
    refine (sound item mem_cons_self _ _ typed).2.bind fun value valid => ?_
    dsimp only
    split
    · simp [boundErrors]
    · refine (ih (fun item member => sound item (mem_cons_of_mem _ member)) tail).bind ?_
      intro elements each
      rw [yields_ok, forall_mem_cons]
      refine ⟨⟨schema, mem_cons_self, valid⟩, fun element member => ?_⟩
      obtain ⟨declared, listed, valid⟩ := each element member
      exact ⟨declared, mem_cons_of_mem _ listed, valid⟩

theorem inferItems_vocabulary (sound : ∀ item ∈ items, Sound available node input values item)
    (inferred : inferItems available node depth index items = .ok schemas) :
    ∀ schema ∈ schemas, Vocabulary schema := by
  induction items generalizing schemas index with
  | nil =>
    obtain rfl := Except.ok.inj inferred
    simp
  | cons item items ih =>
    simp only [inferItems, bind_eq_ok_iff, mapError_eq_ok_iff] at inferred
    obtain ⟨schema, typed, rest, tail, same⟩ := inferred
    obtain rfl := Except.ok.inj same
    rw [forall_mem_cons]
    exact ⟨(sound item mem_cons_self _ _ typed).1,
      ih (fun item member => sound item (mem_cons_of_mem _ member)) tail⟩

section

variable (environment : TypedEnvironment available input values)
include environment

theorem checkPart_yields (accepted : checkPart available node part = .ok ()) :
    Yields (· ∈ boundErrors) (fun _ => True) (evaluateValue input values part) := by
  unfold checkPart at accepted
  split at accepted
  · exact bounded_yields trivial
  · next path =>
      cases found : referenceSchema path available node with
      | error error => simp [found, Except.map] at accepted
      | ok schema =>
        obtain ⟨_, value, resolved, _⟩ := referenceSchema_sound environment found
        rw [evaluateValue, resolved, ok_bind]
        exact bounded_yields trivial
  · cases accepted

theorem renderParts_yields (accepted : checkParts available node index parts = .ok ()) :
    Yields (· ∈ boundErrors) (fun _ => True) (renderParts input values remaining parts) := by
  induction parts generalizing index remaining with
  | nil => trivial
  | cons part parts ih =>
    simp only [checkParts, bind_eq_ok_iff, mapError_eq_ok_iff] at accepted
    obtain ⟨_, head, rest⟩ := accepted
    refine (checkPart_yields environment head).bind fun value _ => ?_
    dsimp only
    split
    · simp [boundErrors]
    · exact (ih rest).bind fun _ _ => trivial

theorem infer_sound (expression : WorkflowValue) :
    Sound available node input values expression := by
  induction expression with
  | reference path =>
    intro depth schema typed
    simp only [infer, bind_eq_ok_iff] at typed
    obtain ⟨_, _, found⟩ := typed
    obtain ⟨vocabulary, value, resolved, valid⟩ := referenceSchema_sound environment found
    refine ⟨vocabulary, ?_⟩
    rw [evaluateValue, resolved, ok_bind]
    exact bounded_yields valid
  | literal value =>
    intro depth schema typed
    simp only [infer, bind_eq_ok_iff] at typed
    obtain ⟨_, _, _, _, same⟩ := typed
    obtain rfl := Except.ok.inj same
    refine ⟨.keywords (by simp) (by simp) (by simp), ?_⟩
    exact bounded_yields (isValid_constant value)
  | object fields ih =>
    intro depth schema typed
    simp only [infer, bind_eq_ok_iff] at typed
    obtain ⟨_, _, properties, inferred, same⟩ := typed
    obtain rfl := Except.ok.inj same
    refine ⟨.keywords (by simp) (inferFields_vocabulary ih inferred (by simp)) (by simp), ?_⟩
    refine (evaluateObject_yields ih inferred ⟨by simp, by simp⟩).bind ?_
    rintro _ ⟨built, rfl, agree⟩
    refine bounded_yields (isValid_record agree fun key member => ?_)
    exact inferFields_names inferred (.inr member)
  | array items ih =>
    intro depth schema typed
    simp only [infer, bind_eq_ok_iff] at typed
    obtain ⟨_, _, schemas, inferred, found, common, same⟩ := typed
    obtain rfl := Except.ok.inj same
    obtain ⟨vocabulary, valid⟩ := element_sound (inferItems_vocabulary ih inferred) common
    refine ⟨vocabulary, ?_⟩
    refine (evaluateItems_yields ih inferred).bind fun elements each => ?_
    exact bounded_yields (valid elements each)
  | template parts _ =>
    intro depth schema typed
    simp only [infer, bind_eq_ok_iff] at typed
    obtain ⟨_, _, _, _, _, accepted, same⟩ := typed
    obtain rfl := Except.ok.inj same
    refine ⟨.keywords (by simp) (by simp) (by simp), ?_⟩
    refine (renderParts_yields environment accepted).bind fun text _ => bounded_yields ?_
    rfl

end

end Values

section Predicates

theorem schemaType_sound (typed : schemaType schema = some type)
    (valid : schema.isValid value = true) : type.admits value = true := by
  cases schema with
  | anyOf alternatives => cases typed
  | keywords object =>
    obtain rfl := Option.some.inj typed
    exact ((isValid_keywords_iff _ _).mp valid).type

theorem isNumericType_sound (numeric : isNumericType (schemaType schema) = true)
    (valid : schema.isValid value = true) : ∃ number, value = .number number := by
  simp only [isNumericType, Bool.or_eq_true, beq_iff_eq] at numeric
  rcases numeric with typed | typed <;>
  · have admits := schemaType_sound typed valid
    cases value <;> simp_all [SchemaType.admits]

theorem string_sound (typed : schemaType schema = some .string)
    (valid : schema.isValid value = true) : ∃ text, value = .string text := by
  have admits := schemaType_sound typed valid
  cases value <;> simp_all [SchemaType.admits]

theorem containment_total (accepted : containmentValid left right operand = true)
    (leftValid : left.isValid a = true) (rightValid : right.isValid b = true) :
    ∃ result, evaluateBinary.containment a b = .ok result := by
  cases left with
  | anyOf alternatives => cases accepted
  | keywords object =>
    have admits := ((isValid_keywords_iff _ _).mp leftValid).type
    simp only [containmentValid] at accepted
    split at accepted
    · next typed =>
        rw [typed] at admits
        cases a <;> simp only [SchemaType.admits, Bool.false_eq_true] at admits
        exact ⟨_, rfl⟩
    · next typed =>
        rw [typed] at admits
        cases a <;> simp only [SchemaType.admits, Bool.false_eq_true] at admits
        simp only [Bool.and_eq_true, beq_iff_eq] at accepted
        obtain ⟨text, rfl⟩ := string_sound accepted.1 rightValid
        exact ⟨_, rfl⟩
    · cases accepted

/-- Operands that passed their static check never meet a type error. -/
theorem checkOperands_total (accepted : checkOperands operator left right operand = .ok ())
    (leftValid : left.isValid a = true) (rightValid : right.isValid b = true) :
    ∃ result, evaluateBinary operator a b = .ok result := by
  cases operator <;>
    simp only [checkOperands, require_eq_ok_iff, Bool.and_eq_true, beq_iff_eq] at accepted
  case equal | notEqual => exact ⟨_, rfl⟩
  case greater | greaterEqual | less | lessEqual =>
    obtain ⟨m, rfl⟩ := isNumericType_sound accepted.1 leftValid
    obtain ⟨n, rfl⟩ := isNumericType_sound accepted.2 rightValid
    exact ⟨_, rfl⟩
  case contains => exact containment_total accepted leftValid rightValid
  case notContains =>
    obtain ⟨result, found⟩ := containment_total accepted leftValid rightValid
    exact ⟨!result, by simp [evaluateBinary, found]⟩
  case startsWith | endsWith =>
    obtain ⟨s, rfl⟩ := string_sound accepted.1 leftValid
    obtain ⟨t, rfl⟩ := string_sound accepted.2 rightValid
    exact ⟨_, rfl⟩

section Evaluation

variable [FloatText]

mutual

theorem validatePredicate_yields (environment : TypedEnvironment available input values)
    (predicate : WorkflowPredicate)
    (accepted : validatePredicate available node depth predicate = .ok ()) :
    Yields (· ∈ boundErrors) (fun _ => True) (evaluatePredicate input values predicate) := by
  cases predicate with
  | boolean value =>
    simp only [validatePredicate, bind_eq_ok_iff, require_eq_ok_iff, beq_iff_eq] at accepted
    obtain ⟨_, _, schema, typed, boolean⟩ := accepted
    rw [evaluatePredicate]
    refine (infer_sound environment value _ _ typed).2.bind fun result valid => ?_
    have admits := schemaType_sound boolean valid
    cases result <;> simp only [SchemaType.admits, Bool.false_eq_true] at admits
    trivial
  | binary operator left right =>
    simp only [validatePredicate, bind_eq_ok_iff] at accepted
    obtain ⟨_, _, _, _, leftSchema, leftTyped, _, _, rightSchema, rightTyped, operands⟩ := accepted
    rw [evaluatePredicate]
    refine (infer_sound environment left _ _ leftTyped).2.bind fun a leftValid => ?_
    refine (infer_sound environment right _ _ rightTyped).2.bind fun b rightValid => ?_
    obtain ⟨result, total⟩ := checkOperands_total operands leftValid rightValid
    rw [total]
    trivial
  | empty value | notEmpty value =>
    simp only [validatePredicate, bind_eq_ok_iff] at accepted
    obtain ⟨_, _, schema, typed, _⟩ := accepted
    rw [evaluatePredicate]
    exact (infer_sound environment value _ _ typed).2.bind fun _ _ => trivial
  | not predicate =>
    simp only [validatePredicate, bind_eq_ok_iff] at accepted
    obtain ⟨_, _, accepted⟩ := accepted
    rw [evaluatePredicate]
    exact (validatePredicate_yields environment predicate accepted).bind fun _ _ => trivial
  | and predicates =>
    simp only [validatePredicate, bind_eq_ok_iff] at accepted
    obtain ⟨_, _, _, _, accepted⟩ := accepted
    rw [evaluatePredicate]
    exact (validatePredicates_yields environment predicates accepted).1
  | or predicates =>
    simp only [validatePredicate, bind_eq_ok_iff] at accepted
    obtain ⟨_, _, _, _, accepted⟩ := accepted
    rw [evaluatePredicate]
    exact (validatePredicates_yields environment predicates accepted).2

theorem validatePredicates_yields (environment : TypedEnvironment available input values)
    (predicates : List WorkflowPredicate)
    (accepted : validatePredicates available node depth predicates = .ok ()) :
    Yields (· ∈ boundErrors) (fun _ => True) (evaluateAll input values predicates) ∧
    Yields (· ∈ boundErrors) (fun _ => True) (evaluateAny input values predicates) := by
  cases predicates with
  | nil => exact ⟨trivial, trivial⟩
  | cons predicate predicates =>
    simp only [validatePredicates, bind_eq_ok_iff] at accepted
    obtain ⟨_, head, tail⟩ := accepted
    have first := validatePredicate_yields environment predicate head
    have rest := validatePredicates_yields environment predicates tail
    rw [evaluateAll, evaluateAny]
    refine ⟨first.bind fun result _ => ?_, first.bind fun result _ => ?_⟩
    · cases result
      · trivial
      · exact rest.1
    · cases result
      · exact rest.2
      · trivial

end

/-- A typed expression evaluates to an instance of its schema, and an accepted
predicate to a Boolean, unless a byte or depth bound stops them. -/
theorem typed_evaluation (environment : TypedEnvironment available input values) :
    (∀ expression node depth schema,
      valueSchema expression available node depth = .ok schema →
      match evaluateValue input values expression with
      | .ok value => schema.isValid value = true
      | .error error => error ∈ boundErrors) ∧
    (∀ predicate node depth,
      validatePredicate available node depth predicate = .ok () →
      match evaluatePredicate input values predicate with
      | .ok _ => True
      | .error error => error ∈ boundErrors) := by
  constructor
  · intro expression node depth schema typed
    have yields := (infer_sound environment expression depth schema typed).2
    cases result : evaluateValue input values expression with
    | ok value => simpa [result] using yields
    | error error => simpa [result] using yields
  · intro predicate node depth accepted
    have yields := validatePredicate_yields environment predicate accepted
    cases result : evaluatePredicate input values predicate with
    | ok value => trivial
    | error error => simpa [result] using yields

end Evaluation

/-- `search.count > 2` in a scope where `search` committed a count of three. -/
theorem typed_evaluation_search : letI := FloatText.exact
    let count : WorkflowValue := .reference ["search", "count"]
    let values : String → Option Json := fun producer =>
      if producer = "search" then some (.object [("count", .number (.int 3))]) else none
    (match evaluateValue .null values count with
      | .ok value => (Schema.keywords { type := .integer }).isValid value = true
      | .error error => error ∈ boundErrors) ∧
    (match evaluatePredicate .null values (.binary .greater count (.literal (.number (.int 2)))) with
      | .ok _ => True
      | .error error => error ∈ boundErrors) ∧
    evaluatePredicate .null values (.binary .greater count (.literal (.number (.int 2)))) =
      .ok true := by
  let := FloatText.exact
  intro count values
  let counted : Schema := .keywords
    { type := .object, properties := some [("count", .keywords { type := .integer })],
      required := some ["count"] }
  have environment : TypedEnvironment
      (fun producer => if producer = "search" then some counted else none) .null values := by
    intro producer schema found
    by_cases same : producer = "search"
    · subst same
      obtain rfl := Option.some.inj found
      refine ⟨.keywords (by simp) ?_ (by simp),
        .object [("count", .number (.int 3))], rfl, by decide +kernel⟩
      simp only [Option.getD_some, mem_singleton, Prod.mk.injEq]
      rintro _ _ ⟨rfl, rfl⟩
      exact .keywords (by simp) (by simp) (by simp)
    · simp [same] at found
  have typed := typed_evaluation environment
  exact ⟨typed.1 count "n" 0 _ (by decide +kernel),
    typed.2 (.binary .greater count (.literal (.number (.int 2)))) "n" 0 (by decide +kernel),
    by decide +kernel⟩

end Predicates

end RustX
