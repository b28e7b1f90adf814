import RustX.Workflow.Inference

/-!
Schemas as the raw documents a draft workflow declares: nothing is known of their
shape, and a producer whose contract is not settled yet is declared as `null`.
The proofs and the reference lookup take an admission step before each piece of
work, so that one code serves compilation and the bounded authoring requests.
-/
namespace RustX.Document

open Assoc

section

variable (schema : Json)

def schemaType : Option String :=
  (schema.get "type").bind Json.asStr

def requiredFields : List Json :=
  ((schema.get "required").bind Json.asArray).getD []

def schemaRequired : List String :=
  (requiredFields schema).filterMap Json.asStr

def asObject : Json → Option (List (String × Json))
  | .object fields => some fields
  | _ => none

def properties (schema : Json) : List (String × Json) :=
  ((schema.get "properties").bind asObject).getD []

def finiteSchemaValues : Option (List Json) :=
  match schema.get "const" with
  | some constant =>
    match schema.get "enum" with
    | some (.array values) => if constant ∈ values then some [constant] else none
    | _ => some [constant]
  | none => (schema.get "enum").bind Json.asArray

def schemaForbidsProperty (key : String) : Bool :=
  schemaType schema == some "object" &&
    schema.get "additionalProperties" == some (.bool false) &&
    ((schema.get "properties").bind (·.get key)).isNone

/-- `schema_alternatives`: a union has no other member. -/
def schemaAlternatives : Json → Option (List Json)
  | .object [(key, alternatives)] => if key = "anyOf" then alternatives.asArray else none
  | _ => none

inductive SchemaProofStep
  | structure_
  | compileValidator
  | validateValue
  deriving DecidableEq

def closed : Bool :=
  schema.get "additionalProperties" == some (.bool false)

end

/-- What is compared before the members of two schemas are. -/
def headsCompatible (actual expected : Json) : Bool :=
  (finiteSchemaValues expected).isNone &&
  (match schemaType actual, schemaType expected with
    | some actualType, some expectedType =>
      actualType == expectedType || (actualType == "integer" && expectedType == "number")
    | _, _ => false) &&
  (match (expected.get "maxLength").bind Json.asU64 with
    | none => true
    | some expectedMax => ((actual.get "maxLength").bind Json.asU64).any (· ≤ expectedMax))

def requiredCompatible (actual expected : Json) : Bool :=
  (schemaRequired expected).all fun key =>
    ((properties actual).lookup key).isSome && ((properties expected).lookup key).isSome &&
      (schemaRequired actual).contains key

def additionalCompatible (actual expected : Json) : Bool :=
  !closed expected ||
    (closed actual && !(properties actual).any fun property =>
      schemaForbidsProperty expected property.1)

theorem sizeOf_get_lt {schema : Json} (found : schema.get key = some member) :
    sizeOf member < sizeOf schema := by
  cases schema with
  | object fields =>
    have smaller := List.sizeOf_lt_of_mem (mem_of_lookup found)
    simp at smaller ⊢
    omega
  | _ => simp [Json.get] at found

theorem sizeOf_alternatives_lt (found : schemaAlternatives schema = some alternatives) :
    sizeOf alternatives < sizeOf schema := by
  unfold schemaAlternatives at found
  split at found
  · next key document =>
      split at found
      · cases document with
        | array items =>
          cases found
          simp
          omega
        | _ => cases found
      · cases found
  · cases found

theorem sizeOf_pos (document : Json) : 1 ≤ sizeOf document := by
  cases document <;> simp +arith

theorem sizeOf_properties_le (schema : Json) : sizeOf (properties schema) ≤ sizeOf schema := by
  have positive := sizeOf_pos schema
  unfold properties
  cases found : schema.get "properties" with
  | none => simpa using positive
  | some member =>
    have smaller := sizeOf_get_lt found
    cases member with
    | object fields =>
      simp [asObject] at smaller ⊢
      omega
    | _ => simpa [asObject] using positive

theorem sizeOf_property_lt {fields : List (String × Json)} (found : fields.lookup key = some member) :
    sizeOf member < sizeOf fields := by
  have smaller := List.sizeOf_lt_of_mem (mem_of_lookup found)
  simp at smaller
  omega

section Compatible

variable {m : Type → Type} [Monad m]

/-- Values are checked one by one, up to the first that the validator refuses. -/
def validValues (allow : Json → Json → SchemaProofStep → m Unit) (expected : Json)
    (isValid : Json → Bool) : List Json → m Bool
  | [] => pure true
  | value :: values => do
    allow value expected .validateValue
    if isValid value then validValues allow expected isValid values else pure false

mutual

/-- `schemas_compatible_with`. The compiled validator of a schema, when it has one,
is a parameter. -/
def schemasCompatibleWith (validator : Json → Option (Json → Bool))
    (allow : Json → Json → SchemaProofStep → m Unit) (actual expected : Json) : m Bool := do
  allow actual expected .structure_
  match finiteSchemaValues actual with
  | some [] => pure false
  | some values =>
    allow actual expected .compileValidator
    match validator expected with
    | none => pure false
    | some isValid => validValues allow expected isValid values
  | none =>
    match _union : schemaAlternatives actual with
    | some [] => pure false
    | some (first :: rest) => alternativesCompatible validator allow (first :: rest) expected
    | none =>
      match _union : schemaAlternatives expected with
      | some alternatives => compatibleAlternative validator allow actual alternatives
      | none =>
        if headsCompatible actual expected then
          if schemaType expected = some "object" then
            if requiredCompatible actual expected then
              if ← propertiesCompatible validator allow actual (properties expected) then
                pure (additionalCompatible actual expected)
              else pure false
            else pure false
          else if schemaType expected = some "array" then
            match _actual : actual.get "items", _expected : expected.get "items" with
            | some actualItems, some expectedItems =>
              schemasCompatibleWith validator allow actualItems expectedItems
            | none, some _ => pure false
            | _, none => pure true
          else pure true
        else pure false
termination_by 2 * (sizeOf actual + sizeOf expected) + 1
decreasing_by
  · have smaller := sizeOf_alternatives_lt _union
    omega
  · have smaller := sizeOf_alternatives_lt _union
    omega
  · have smaller := sizeOf_properties_le expected
    omega
  · have actualSmaller := sizeOf_get_lt _actual
    have expectedSmaller := sizeOf_get_lt _expected
    omega

def alternativesCompatible (validator : Json → Option (Json → Bool))
    (allow : Json → Json → SchemaProofStep → m Unit) (alternatives : List Json) (expected : Json) :
    m Bool :=
  match alternatives with
  | [] => pure true
  | actual :: rest => do
    if ← schemasCompatibleWith validator allow actual expected then
      alternativesCompatible validator allow rest expected
    else pure false
termination_by 2 * (sizeOf alternatives + sizeOf expected)

def compatibleAlternative (validator : Json → Option (Json → Bool))
    (allow : Json → Json → SchemaProofStep → m Unit) (actual : Json) (alternatives : List Json) :
    m Bool :=
  match alternatives with
  | [] => pure false
  | expected :: rest => do
    if ← schemasCompatibleWith validator allow actual expected then pure true
    else compatibleAlternative validator allow actual rest
termination_by 2 * (sizeOf actual + sizeOf alternatives)

/-- A member that only the expected schema declares is safe for a closed object. -/
def propertiesCompatible (validator : Json → Option (Json → Bool))
    (allow : Json → Json → SchemaProofStep → m Unit) (actual : Json)
    (expected : List (String × Json)) : m Bool :=
  match expected with
  | [] => pure true
  | (key, expectedProperty) :: rest =>
    match _found : (properties actual).lookup key with
    | some actualProperty => do
      if ← schemasCompatibleWith validator allow actualProperty expectedProperty then
        propertiesCompatible validator allow actual rest
      else pure false
    | none =>
      if closed actual then propertiesCompatible validator allow actual rest else pure false
termination_by 2 * (sizeOf actual + sizeOf expected)
decreasing_by
  · have declared := sizeOf_property_lt _found
    have held := sizeOf_properties_le actual
    simp
    omega
  · simp only [List.cons.sizeOf_spec]
    omega
  · simp only [List.cons.sizeOf_spec]
    omega

end

end Compatible

/-- Every step is admitted, and no error is possible. -/
def unlimited (_ _ : Json) (_ : SchemaProofStep) : Except Empty Unit :=
  .ok ()

def schemasCompatible (validator : Json → Option (Json → Bool)) (actual expected : Json) : Bool :=
  match schemasCompatibleWith validator unlimited actual expected with
  | .ok compatible => compatible

theorem schemasCompatibleWith_unlimited (validator : Json → Option (Json → Bool))
    (actual expected : Json) :
    schemasCompatibleWith validator unlimited actual expected =
      .ok (schemasCompatible validator actual expected) := by
  unfold schemasCompatible
  split
  assumption

/-- Machine words stop at the largest value. -/
def saturating (n : Nat) : Nat :=
  min n (2 ^ 64 - 1)

section References

variable {m : Type → Type} [Monad m]

/-- The list of required fields is read up to the wanted one. -/
def requiresField (allow : Nat → m Unit) (key : String) : List Json → m Bool
  | [] => pure false
  | field :: rest => do
    allow (field.asStr.elim 64 fun text => text.utf8ByteSize + key.utf8ByteSize + 64)
    if field.asStr = some key then pure true else requiresField allow key rest

def referenceMembers (path : List String) (node : String) (allow : Nat → m Unit)
    (refuse : CompileError → m Json) (schema : Json) : List String → m Json
  | [] =>
    if schema = .null then refuse (invalid "reference schema is not yet known") else pure schema
  | key :: rest => do
    allow (saturating (saturating (key.utf8ByteSize * 16) + 64))
    let required ← requiresField allow key (requiredFields schema)
    if schemaType schema = some "object" ∧ required = true then
      match (schema.get "properties").bind (·.get key) with
      | some member => referenceMembers path node allow refuse member rest
      | none => refuse (invalid s!"invalid field path {debugPath path}")
    else refuse (invalid s!"node {node}: unavailable field in {debugPath path}")

def referenceSchemaWith (path : List String) (available : String → Option Json) (node : String)
    (allow : Nat → m Unit) (refuse : CompileError → m Json) : m Json := do
  allow 64
  match path with
  | [] => refuse (invalid "invalid reference path")
  | producer :: fields =>
    if maxReferenceComponents < path.length ∨
        path.any (fun key => key.isEmpty || decide (64 < key.utf8ByteSize)) = true then
      refuse (invalid "invalid reference path")
    else
      match available producer with
      | some schema => referenceMembers path node allow refuse schema fields
      | none => refuse (invalid s!"node {node} references unavailable producer {debug producer}")

end References

def referenceSchema (path : List String) (available : String → Option Json) (node : String) :
    Except CompileError Json :=
  referenceSchemaWith path available node (fun _ => .ok ()) .error

def objectSchema (properties : List (String × Json)) (required : List String) : Json :=
  .object [("additionalProperties", .bool false), ("properties", .object properties),
    ("required", .array (required.map .string)), ("type", .string "object")]

def literalSchema (value : Json) : Json :=
  .object [("const", value), ("type", .string (jsonType value).name)]

def contractArray (item : Json) : Json :=
  .object [("items", item), ("type", .string "array")]

def emptyArray : Json :=
  .object [("const", .array []), ("type", .string "array")]

def finiteArray (kind : Json) (values : List Json) : Json :=
  contractArray (.object [("enum", .array values), ("type", kind)])

/-- What one element of a constructed array is known to be. -/
inductive Element (α : Type)
  | empty
  | finite (kind : Json) (values : List Json)
  | contract (schema : α)

def Element.schema : Element Json → Json
  | .empty => emptyArray
  | .finite kind values => finiteArray kind values
  | .contract schema => contractArray schema

def constantOf (schema : Json) : Json :=
  (schema.get "const").getD .null

section Inference

open Checked

variable [FloatText] (validator : Json → Option (Json → Bool))
  (available : String → Option Json) (node : String)

def finiteValues (type : Option String) (schemas : List Json) :
    Except CompileError (List Json) := do
  require (schemas.all fun schema => schemaType schema == type)
    (invalid "constructed arrays require one element type")
  .ok (schemas.map constantOf).eraseDups

/-- The first candidate that admits every schema. -/
def commonContract (schemas candidates : List Json) : Except CompileError Json :=
  match candidates.find? fun candidate =>
    schemas.all fun actual => schemasCompatible validator actual candidate with
  | some schema => .ok schema
  | none => .error (invalid "constructed array element contracts are incompatible")

def element (schemas : List Json) : Except CompileError (Element Json) :=
  match schemas.eraseDups with
  | [] => .ok .empty
  | first :: rest =>
    if (first :: rest).all (fun schema => (schema.get "const").isSome) then do
      let values ← finiteValues (schemaType first) (first :: rest)
      .ok (.finite ((first.get "type").getD .null) values)
    else do
      let schema ← commonContract validator (first :: rest) (first :: rest)
      .ok (.contract schema)

def checkPart (part : WorkflowValue) : Except CompileError Unit :=
  match part with
  | .literal (.string _) => .ok ()
  | .reference path => (referenceSchema path available node).map fun _ => ()
  | _ => .error (invalid "template parts are text or references only")

def checkParts (index : Nat) : List WorkflowValue → Except CompileError Unit
  | [] => .ok ()
  | part :: parts => do
    (checkPart available node part).mapError (CompileError.under s!"parts.{index}")
    checkParts (index + 1) parts

mutual

def infer (depth : Nat) : WorkflowValue → Except CompileError Json
  | .reference path => do
    checkSize (WorkflowValue.reference path).toJson depth
    referenceSchema path available node
  | .literal value => do
    checkSize (WorkflowValue.literal value).toJson depth
    require (decide (depth + value.height ≤ maxValueDepth)) (invalid "literal depth exceeded")
    .ok (literalSchema value)
  | .object fields => do
    checkSize (WorkflowValue.object fields).toJson depth
    let properties ← inferFields depth [] fields
    .ok (objectSchema properties (fields.map Prod.fst))
  | .array items => do
    checkSize (WorkflowValue.array items).toJson depth
    let schemas ← inferItems depth 0 items
    let element ← element validator schemas
    .ok element.schema
  | .template parts => do
    checkSize (WorkflowValue.template parts).toJson depth
    require (decide (parts.length ≤ maxModelMessageParts))
      (invalid "template exceeds its part bound")
    checkParts available node 0 parts
    .ok (.object [("type", .string "string")])

def inferFields (depth : Nat) (properties : List (String × Json)) :
    List (String × WorkflowValue) → Except CompileError (List (String × Json))
  | [] => .ok properties
  | (key, value) :: fields => do
    require (!key.isEmpty && decide (key.utf8ByteSize ≤ 64)) (invalid "invalid construction field")
    let schema ← (infer (depth + 1) value).mapError (CompileError.under s!"fields.{key}")
    inferFields depth (Assoc.insert key schema properties) fields

def inferItems (depth index : Nat) : List WorkflowValue → Except CompileError (List Json)
  | [] => .ok []
  | item :: items => do
    let schema ← (infer (depth + 1) item).mapError (CompileError.under s!"items.{index}")
    let schemas ← inferItems depth (index + 1) items
    .ok (schema :: schemas)

end

end Inference

end RustX.Document
