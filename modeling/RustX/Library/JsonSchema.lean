import RustX.Library.Assoc
import RustX.Workflow.Json

/-!
What the drafts of JSON Schema fix about validation. A schema object asserts what its keywords
assert, and beyond its own text it depends on its document only through reference applicators.
-/
namespace RustX.JsonSchema

/-- Keywords that apply a schema found elsewhere. -/
def referenceKeywords : List String :=
  ["$ref", "$dynamicRef", "$recursiveRef"]

/-- Keywords that say nothing of an instance. -/
def annotationKeywords : List String :=
  ["$schema", "$id", "$comment", "$defs", "definitions", "title", "description", "default",
    "examples", "deprecated", "readOnly", "writeOnly"]

def isSchema : Json → Bool
  | .object _ | .bool _ => true
  | _ => false

/-- The subschemas a keyword holds, in any draft. -/
def subschemasAt (keyword : String) (value : Json) : List Json :=
  if keyword ∈ ["not", "if", "then", "else", "contains", "propertyNames", "contentSchema",
      "additionalItems", "additionalProperties", "unevaluatedItems", "unevaluatedProperties"] then
    [value]
  else if keyword = "items" then
    match value with
    | .array items => items
    | value => [value]
  else if keyword ∈ ["allOf", "anyOf", "oneOf", "prefixItems"] then
    value.asArray.getD []
  else if keyword ∈ ["properties", "patternProperties", "dependentSchemas", "dependencies",
      "$defs", "definitions"] then
    match value with
    | .object members => (members.map Prod.snd).filter isSchema
    | _ => []
  else []

def subschemas : Json → List Json
  | .object fields => fields.flatMap fun field => subschemasAt field.1 field.2
  | _ => []

theorem sizeOf_subschemasAt (member : sub ∈ subschemasAt keyword value) : sizeOf sub ≤ sizeOf value := by
  unfold subschemasAt at member
  have inArray : ∀ {items : List Json}, sub ∈ items → sizeOf sub ≤ sizeOf (Json.array items) := by
    intro items listed
    have smaller := List.sizeOf_lt_of_mem listed
    simp only [Json.array.sizeOf_spec]
    omega
  split at member
  · exact Nat.le_of_eq (congrArg sizeOf (List.mem_singleton.mp member))
  split at member
  · split at member
    · exact inArray member
    · exact Nat.le_of_eq (congrArg sizeOf (List.mem_singleton.mp member))
  split at member
  · cases value with
    | array items => exact inArray member
    | _ => cases member
  split at member
  · split at member
    · obtain ⟨entry, listed, rfl⟩ := List.mem_map.mp (List.mem_filter.mp member).1
      have smaller := List.sizeOf_lt_of_mem listed
      obtain ⟨name, held⟩ := entry
      simp only [Prod.mk.sizeOf_spec] at smaller
      simp only [Json.object.sizeOf_spec]
      omega
    · cases member
  · cases member

theorem sizeOf_subschemas (member : sub ∈ subschemas schema) : sizeOf sub < sizeOf schema := by
  cases schema with
  | object fields =>
    obtain ⟨⟨keyword, value⟩, listed, inside⟩ := List.mem_flatMap.mp member
    have within := sizeOf_subschemasAt inside
    have smaller := List.sizeOf_lt_of_mem listed
    simp only [Prod.mk.sizeOf_spec] at smaller
    simp only [Json.object.sizeOf_spec]
    simp only at within
    omega
  | _ => cases member

inductive ReferenceFree : Json → Prop
  | intro (schema : Json) (own : ∀ keyword ∈ referenceKeywords, schema.get keyword = none)
      (nested : ∀ sub ∈ subschemas schema, ReferenceFree sub) : ReferenceFree schema

/-- A validator. The outcome of an evaluation may hold annotations besides its verdict, and
`asserts` is what one keyword among its siblings says of an instance. -/
structure Semantics (Outcome : Type) where
  passes : Outcome → Bool
  /-- The outcome of a schema of a document on a value. -/
  evaluate : Json → Json → Json → Outcome
  asserts : Json → List (String × Json) → String → Json → Json → Prop
  /-- Whether a document is a schema. -/
  build : Json → Except String Unit
  build_properties : ∀ {fields : List (String × Json)} {declared : Json},
    build (.object fields) = .ok () → fields.lookup "properties" = some declared →
      ∃ members, declared = .object members
  build_required : ∀ {fields : List (String × Json)} {names : Json},
    build (.object fields) = .ok () → fields.lookup "required" = some names →
      ∃ items, names = .array items
  /-- Without a reference of its own, a schema meets its document in its subschemas only. -/
  compositional : ∀ {document other schema : Json},
    document.get "$schema" = other.get "$schema" →
    (∀ keyword ∈ referenceKeywords, schema.get keyword = none) →
    (∀ sub ∈ subschemas schema, ∀ value, evaluate document sub value = evaluate other sub value) →
      ∀ value, evaluate document schema value = evaluate other schema value
  conjunctive : ∀ {document : Json} {fields : List (String × Json)} {value : Json},
    (∀ keyword ∈ referenceKeywords, fields.lookup keyword = none) →
      (passes (evaluate document (.object fields) value) = true ↔
        ∀ keyword held, fields.lookup keyword = some held →
          asserts document fields keyword held value)
  annotation : ∀ {document : Json} {fields : List (String × Json)} {keyword : String}
    {held value : Json}, keyword ∈ annotationKeywords → asserts document fields keyword held value
  type_object : ∀ {document : Json} {fields : List (String × Json)} {value : Json},
    asserts document fields "type" (.string "object") value ↔ ∃ members, value = .object members
  type_string : ∀ {document : Json} {fields : List (String × Json)} {value : Json},
    asserts document fields "type" (.string "string") value ↔ ∃ text, value = .string text
  enum : ∀ {document : Json} {fields : List (String × Json)} {values : List Json} {value : Json},
    asserts document fields "enum" (.array values) value ↔
      ∃ allowed ∈ values, value.same allowed = true
  properties : ∀ {document : Json} {fields members : List (String × Json)} {value : Json},
    asserts document fields "properties" (.object members) value ↔
      ∀ name schema held, members.lookup name = some schema → value.get name = some held →
        passes (evaluate document schema held) = true
  required : ∀ {document : Json} {fields members : List (String × Json)} {names : List Json},
    asserts document fields "required" (.array names) (.object members) ↔
      ∀ name, Json.string name ∈ names → (members.lookup name).isSome = true
  /-- Where no pattern declares members. -/
  additionalProperties : ∀ {document : Json} {fields : List (String × Json)} {schema value : Json},
    fields.lookup "patternProperties" = none →
      (asserts document fields "additionalProperties" schema value ↔
        ∀ name held, value.get name = some held →
          ((fields.lookup "properties").bind (Json.get · name)) = none →
            passes (evaluate document schema held) = true)

namespace Semantics

variable {Outcome : Type} (semantics : Semantics Outcome)

def Accepts (document value : Json) : Prop :=
  semantics.passes (semantics.evaluate document document value) = true

/-- A schema without references says the same in any document of its draft. -/
theorem evaluate_congr {document other : Json}
    (draft : document.get "$schema" = other.get "$schema") (free : ReferenceFree schema)
    (value : Json) :
    semantics.evaluate document schema value = semantics.evaluate other schema value := by
  induction free generalizing value with
  | intro schema own nested ih => exact semantics.compositional draft own ih value

end Semantics

def hasType (name : String) (value : Json) : Bool :=
  match name, value with
  | "object", .object _ | "string", .string _ => true
  | "object", _ | "string", _ => false
  | _, _ => true

/-- Keywords without subschemas; what is not known asserts nothing. -/
def holdsAssertion (keyword : String) (held value : Json) : Bool :=
  match keyword, held with
  | "type", .string name => hasType name value
  | "enum", .array values => values.any fun allowed => value.same allowed
  | "required", .array names => names.all fun entry =>
    match entry, value with
    | .string name, .object members => (members.lookup name).isSome
    | _, _ => true
  | _, _ => true

def undeclared (siblings : List (String × Json)) : Json → List Json
  | .object members => (members.map Prod.fst).filterMap fun name =>
    if ((siblings.lookup "properties").bind (Json.get · name)).isNone then members.lookup name
    else none
  | _ => []

mutual

def holds : Json → Json → Bool
  | .bool verdict, _ => verdict
  | .object fields, value => holdsKeywords fields [] fields value
  | _, _ => true

/-- A keyword that was met before is not looked at again. -/
def holdsKeywords (siblings : List (String × Json)) (seen : List String) :
    List (String × Json) → Json → Bool
  | [], _ => true
  | (keyword, held) :: fields, value =>
    (keyword ∈ seen ||
      if keyword = "additionalProperties" then
        (undeclared siblings value).all fun member => holds held member
      else if keyword = "properties" then holdsProperties held value
      else holdsAssertion keyword held value) &&
    holdsKeywords siblings (keyword :: seen) fields value

def holdsProperties : Json → Json → Bool
  | .object members, value => holdsMembers [] members value
  | _, _ => true

def holdsMembers (seen : List String) : List (String × Json) → Json → Bool
  | [], _ => true
  | (name, schema) :: members, value =>
    (name ∈ seen || (value.get name).all fun held => holds schema held) &&
    holdsMembers (name :: seen) members value

end

def holdsKeyword (siblings : List (String × Json)) (keyword : String) (held value : Json) : Bool :=
  if keyword = "additionalProperties" then
    (undeclared siblings value).all fun member => holds held member
  else if keyword = "properties" then holdsProperties held value
  else holdsAssertion keyword held value

theorem holdsKeywords_iff : holdsKeywords siblings seen fields value = true ↔
      ∀ keyword held, keyword ∉ seen → fields.lookup keyword = some held →
        holdsKeyword siblings keyword held value = true := by
  induction fields generalizing seen with
  | nil => simp [holdsKeywords]
  | cons field fields ih =>
    obtain ⟨name, first⟩ := field
    have unfolded : holdsKeywords siblings seen ((name, first) :: fields) value =
        ((name ∈ seen || holdsKeyword siblings name first value) &&
          holdsKeywords siblings (name :: seen) fields value) := by
      rw [holdsKeywords, holdsKeyword]
    rw [unfolded, Bool.and_eq_true, Bool.or_eq_true, decide_eq_true_eq, ih]
    constructor
    · rintro ⟨here, later⟩ keyword held fresh found
      rw [Assoc.lookup_cons_ite] at found
      split at found
      · rename_i same
        subst same
        cases found
        exact here.resolve_left fresh
      · rename_i differs
        exact later keyword held (by simp [fresh, differs]) found
    · intro each
      refine ⟨?_, fun keyword held fresh found => ?_⟩
      · by_cases before : name ∈ seen
        · exact .inl before
        · exact .inr (each name first before (by simp [Assoc.lookup_cons_ite]))
      · simp only [List.mem_cons, not_or] at fresh
        exact each keyword held fresh.2 (by rwa [Assoc.lookup_cons_ite, if_neg fresh.1])

theorem holdsMembers_iff : holdsMembers seen members value = true ↔
      ∀ name schema held, name ∉ seen → members.lookup name = some schema →
        value.get name = some held → holds schema held = true := by
  induction members generalizing seen with
  | nil => simp [holdsMembers]
  | cons member members ih =>
    obtain ⟨first, schema⟩ := member
    rw [holdsMembers, Bool.and_eq_true, Bool.or_eq_true, decide_eq_true_eq, Option.all_eq_true, ih]
    constructor
    · rintro ⟨here, later⟩ name schema held fresh found present
      rw [Assoc.lookup_cons_ite] at found
      split at found
      · rename_i same
        subst same
        cases found
        exact here.resolve_left fresh held present
      · rename_i differs
        exact later name schema held (by simp [fresh, differs]) found present
    · intro each
      refine ⟨?_, fun name schema held fresh found present => ?_⟩
      · by_cases before : first ∈ seen
        · exact .inl before
        · exact .inr fun held present =>
            each first schema held before (by simp [Assoc.lookup_cons_ite]) present
      · simp only [List.mem_cons, not_or] at fresh
        exact each name schema held fresh.2 (by rwa [Assoc.lookup_cons_ite, if_neg fresh.1]) present

theorem mem_undeclared : held ∈ undeclared siblings value ↔ ∃ name, value.get name = some held ∧
      ((siblings.lookup "properties").bind (Json.get · name)) = none := by
  cases value with
  | object members =>
    simp only [undeclared, List.mem_filterMap, Option.ite_none_right_eq_some,
      Option.isNone_iff_eq_none, Json.get]
    constructor
    · rintro ⟨name, -, missing, found⟩
      exact ⟨name, found, missing⟩
    · rintro ⟨name, found, missing⟩
      exact ⟨name, Assoc.mem_keys_of_lookup found, missing, found⟩
  | _ => simp [undeclared, Json.get]

/-- A schema whose member lists have the shapes the drafts ask for. -/
def buildCore : Json → Except String Unit
  | .object fields =>
    match fields.lookup "properties", fields.lookup "required" with
    | none, none | some (.object _), none | none, some (.array _)
    | some (.object _), some (.array _) => .ok ()
    | _, _ => .error "not a schema"
  | .bool _ => .ok ()
  | _ => .error "not a schema"

/-- The core keywords alone make a validator. -/
def core : Semantics Bool where
  passes := id
  evaluate := fun _ schema value => holds schema value
  asserts := fun _ fields keyword held value => holdsKeyword fields keyword held value = true
  build := buildCore
  build_properties := fun {fields declared} built found => by
    rw [buildCore, found] at built
    cases declared with
    | object members => exact ⟨members, rfl⟩
    | _ => cases fields.lookup "required" <;> cases built
  build_required := fun {fields names} built found => by
    rw [buildCore, found] at built
    cases names with
    | array items => exact ⟨items, rfl⟩
    | _ =>
      cases held : fields.lookup "properties" with
      | none => simp [held] at built
      | some declared => cases declared <;> simp [held] at built
  compositional := fun _ _ _ _ => rfl
  conjunctive := fun {document fields value} _ => by
    rw [id_eq, holds, holdsKeywords_iff]
    simp
  annotation := fun {document fields keyword held value} annotation => by
    have kinds : ∀ keyword ∈ annotationKeywords, keyword ≠ "additionalProperties" ∧
        keyword ≠ "properties" ∧ keyword ≠ "type" ∧ keyword ≠ "enum" ∧ keyword ≠ "required" := by
      decide
    obtain ⟨additional, properties, type, enum, required⟩ := kinds keyword annotation
    rw [holdsKeyword, if_neg additional, if_neg properties]
    unfold holdsAssertion
    split <;> simp_all
  type_object := fun {document fields value} => by
    cases value <;> simp [holdsKeyword, holdsAssertion, hasType]
  type_string := fun {document fields value} => by
    cases value <;> simp [holdsKeyword, holdsAssertion, hasType]
  enum := fun {document fields values value} => by
    simp [holdsKeyword, holdsAssertion]
  properties := fun {document fields members value} => by
    rw [holdsKeyword, if_neg (by decide), if_pos rfl, holdsProperties, holdsMembers_iff]
    simp
  required := fun {document fields members names} => by
    rw [holdsKeyword, if_neg (by decide), if_neg (by decide), holdsAssertion, List.all_eq_true]
    constructor
    · intro each name listed
      exact each _ listed
    · intro each entry listed
      cases entry with
      | string name => exact each name listed
      | _ => rfl
  additionalProperties := fun {document fields schema value} _ => by
    rw [holdsKeyword, if_pos rfl, List.all_eq_true]
    constructor
    · intro each name held present missing
      exact each held (mem_undeclared.mpr ⟨name, present, missing⟩)
    · intro each held listed
      obtain ⟨name, present, missing⟩ := mem_undeclared.mp listed
      exact each name held present missing

end RustX.JsonSchema
