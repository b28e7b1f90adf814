import RustX.Workflow.Compatible
import RustX.Workflow.Expression

/-!
Schemas of value expressions, and the static checks of predicates.
This is inference as compilation runs it, with an unlimited budget: allocation
and work charges, and the caches that only avoid repeated work, are left out.
-/
namespace RustX

open Checked Schema WorkflowPredicate

/-- Schemas of the producers in scope, `args` among them. -/
abbrev SchemaMap := String → Option Schema

def invalid (detail : String) : CompileError :=
  .invalidReference detail

section References

def memberSchema (path : List String) (node : String) (schema : Schema) (key : String) :
    Except CompileError Schema :=
  match schema with
  | .anyOf _ => .error (invalid s!"node {node}: unavailable field in {debugPath path}")
  | .keywords object => do
    require (object.type == .object && (object.required.getD []).contains key)
      (invalid s!"node {node}: unavailable field in {debugPath path}")
    match (object.properties.getD []).lookup key with
    | some property => .ok property
    | none => .error (invalid s!"invalid field path {debugPath path}")

def referenceMembers (path : List String) (node : String) (schema : Schema) :
    List String → Except CompileError Schema
  | [] => .ok schema
  | key :: rest => do
    let member ← memberSchema path node schema key
    referenceMembers path node member rest

/-- `reference_schema_with`. -/
def referenceSchema (path : List String) (available : SchemaMap) (node : String) :
    Except CompileError Schema := do
  require (decide (path.length ≤ maxReferenceComponents) &&
      path.all fun key => !key.isEmpty && decide (key.utf8ByteSize ≤ 64))
    (invalid "invalid reference path")
  match path with
  | [] => .error (invalid "invalid reference path")
  | producer :: fields =>
    match available producer with
    | some schema => referenceMembers path node schema fields
    | none => .error (invalid s!"node {node} references unavailable producer {debug producer}")

end References

def jsonType : Json → SchemaType
  | .null => .null
  | .bool _ => .boolean
  | .string _ => .string
  | .array _ => .array
  | .object _ => .object
  | .number (.int _) => .integer
  | .number (.float _) => .number

/-- What one element of a constructed array is known to be. -/
inductive Element
  | empty
  | finite (type : SchemaType) (values : List Json)
  | contract (schema : Schema)

def typedConstant : Schema → Option (SchemaType × Json)
  | .anyOf _ => none
  | .keywords object => object.const.map fun constant => (object.type, constant)

/-- `SchemaInference::element`: the common finite values or the first schema that
admits every other. -/
def element (schemas : List Schema) : Except CompileError Element :=
  let schemas := schemas.eraseDups
  match schemas with
  | [] => .ok .empty
  | _ :: _ =>
    match schemas.mapM typedConstant with
    | some constants => do
      let type := (constants.headD (.null, .null)).1
      require (constants.all fun constant => constant.1 == type)
        (invalid "constructed arrays require one element type")
      .ok (.finite type (constants.map Prod.snd).eraseDups)
    | none =>
      match schemas.find? fun candidate => schemas.all fun actual => schemasCompatible actual candidate with
      | some candidate => .ok (.contract candidate)
      | none => .error (invalid "constructed array element contracts are incompatible")

def Element.schema : Element → Schema
  | .empty => .keywords { type := .array, const := some (.array []) }
  | .contract schema => .keywords { type := .array, items := some schema }
  | .finite type values =>
    .keywords { type := .array, items := some (.keywords { type, enum := some values }) }

section Inference

variable [FloatText]

def checkPart (available : SchemaMap) (node : String) (part : WorkflowValue) :
    Except CompileError Unit :=
  match part with
  | .literal (.string _) => .ok ()
  | .reference path => (referenceSchema path available node).map fun _ => ()
  | _ => .error (invalid "template parts are text or references only")

def checkParts (available : SchemaMap) (node : String) (index : Nat) :
    List WorkflowValue → Except CompileError Unit
  | [] => .ok ()
  | part :: parts => do
    (checkPart available node part).mapError (CompileError.under s!"parts.{index}")
    checkParts available node (index + 1) parts

/-- Every expression is bounded in depth and serialized size before it is typed. -/
def checkSize (serialized : Json) (depth : Nat) : Except CompileError Unit :=
  require (decide (depth ≤ maxValueDepth) && decide (serialized.serializedBytes ≤ maxValueBytes))
    (invalid "construction depth/byte bound exceeded")

mutual

def infer (available : SchemaMap) (node : String) (depth : Nat) :
    WorkflowValue → Except CompileError Schema
  | .reference path => do
    checkSize (WorkflowValue.reference path).toJson depth
    referenceSchema path available node
  | .literal value => do
    checkSize (WorkflowValue.literal value).toJson depth
    require (decide (depth + value.height ≤ maxValueDepth)) (invalid "literal depth exceeded")
    .ok (.keywords { type := jsonType value, const := some value })
  | .object fields => do
    checkSize (WorkflowValue.object fields).toJson depth
    let properties ← inferFields available node depth [] fields
    .ok (.keywords
      { type := .object, properties := some properties,
        required := some (fields.map Prod.fst), additionalProperties := some false })
  | .array items => do
    checkSize (WorkflowValue.array items).toJson depth
    let schemas ← inferItems available node depth 0 items
    let element ← element schemas
    .ok element.schema
  | .template parts => do
    checkSize (WorkflowValue.template parts).toJson depth
    require (decide (parts.length ≤ maxModelMessageParts))
      (invalid "template exceeds its part bound")
    checkParts available node 0 parts
    .ok (.keywords { type := .string })

def inferFields (available : SchemaMap) (node : String) (depth : Nat)
    (properties : List (String × Schema)) :
    List (String × WorkflowValue) → Except CompileError (List (String × Schema))
  | [] => .ok properties
  | (key, value) :: fields => do
    require (!key.isEmpty && decide (key.utf8ByteSize ≤ 64)) (invalid "invalid construction field")
    let schema ← (infer available node (depth + 1) value).mapError
      (CompileError.under s!"fields.{key}")
    inferFields available node depth (Assoc.insert key schema properties) fields

def inferItems (available : SchemaMap) (node : String) (depth index : Nat) :
    List WorkflowValue → Except CompileError (List Schema)
  | [] => .ok []
  | item :: items => do
    let schema ← (infer available node (depth + 1) item).mapError
      (CompileError.under s!"items.{index}")
    let schemas ← inferItems available node depth (index + 1) items
    .ok (schema :: schemas)

end

def valueSchema (expression : WorkflowValue) (available : SchemaMap) (node : String) (depth : Nat) :
    Except CompileError Schema :=
  infer available node depth expression

def equalityTypeSupported (kind : SchemaType) : Bool :=
  match kind with
  | .boolean | .string | .null | .number | .integer => true
  | .array | .object => false

def isNumericType (type : Option SchemaType) : Bool :=
  type == some .number || type == some .integer

def equalityTypesCompatible (left right : Option SchemaType) : Bool :=
  (isNumericType left && isNumericType right) ||
    left.any fun kind => equalityTypeSupported kind && some kind == right

def isEmptyText : WorkflowValue → Bool
  | .literal (.string text) => text.isEmpty
  | _ => false

def containmentValid (left right : Schema) (operand : WorkflowValue) : Bool :=
  match left with
  | .anyOf _ => false
  | .keywords object =>
    match object.type with
    | .array =>
      match object.items with
      | some item =>
        schemasCompatible right item ||
          (isNumericType (schemaType item) && isNumericType (schemaType right))
      | none =>
        match object.const with
        | some (.array items) =>
          (items.all fun item => equalityTypesCompatible (some (jsonType item)) (schemaType right)) &&
            (schemaType right).any equalityTypeSupported
        | _ => false
    | .string => schemaType right == some .string && !isEmptyText operand
    | _ => false

def checkOperands (operator : BinaryOperator) (left right : Schema) (operand : WorkflowValue) :
    Except CompileError Unit :=
  match operator with
  | .equal | .notEqual =>
    require (equalityTypesCompatible (schemaType left) (schemaType right))
      (invalid "equality requires matching scalar types")
  | .greater | .greaterEqual | .less | .lessEqual =>
    require (isNumericType (schemaType left) && isNumericType (schemaType right))
      (invalid "numeric comparison requires two numeric operands")
  | .contains | .notContains =>
    require (containmentValid left right operand)
      (invalid "containment requires strings or an array with a matching item")
  | .startsWith | .endsWith =>
    require (schemaType left == some .string && schemaType right == some .string)
      (invalid "string comparison requires two string operands")

/-- Prefix and suffix tests refuse an empty text before they type their operands. -/
def checkOperandText (operator : BinaryOperator) (operand : WorkflowValue) :
    Except CompileError Unit :=
  match operator with
  | .startsWith | .endsWith =>
    require (!isEmptyText operand) (invalid "string comparison requires a nonempty value")
  | _ => .ok ()

/-- The right operand of a prefix or suffix test is only typed for a string on the left. -/
def checkLeftOperand (operator : BinaryOperator) (left : Schema) : Except CompileError Unit :=
  match operator with
  | .startsWith | .endsWith =>
    require (schemaType left == some .string)
      (invalid "string comparison requires two string operands")
  | _ => .ok ()

mutual

def validatePredicate (available : SchemaMap) (node : String) (depth : Nat) :
    WorkflowPredicate → Except CompileError Unit
  | .boolean value => do
    checkSize (boolean value).toJson depth
    let schema ← valueSchema value available node (depth + 1)
    require (schemaType schema == some .boolean)
      (.incompatibleReference "predicate requires boolean; no truthiness")
  | .binary operator left right => do
    checkSize (binary operator left right).toJson depth
    checkOperandText operator right
    let leftSchema ← valueSchema left available node (depth + 1)
    checkLeftOperand operator leftSchema
    let rightSchema ← valueSchema right available node (depth + 1)
    checkOperands operator leftSchema rightSchema right
  | .empty value => do
    checkSize (empty value).toJson depth
    let _ ← valueSchema value available node (depth + 1)
    .ok ()
  | .notEmpty value => do
    checkSize (notEmpty value).toJson depth
    let _ ← valueSchema value available node (depth + 1)
    .ok ()
  | .not predicate => do
    checkSize (not predicate).toJson depth
    validatePredicate available node (depth + 1) predicate
  | .and predicates => do
    checkSize (and predicates).toJson depth
    require (!predicates.isEmpty) (invalid "boolean composition must be nonempty")
    validatePredicates available node (depth + 1) predicates
  | .or predicates => do
    checkSize (or predicates).toJson depth
    require (!predicates.isEmpty) (invalid "boolean composition must be nonempty")
    validatePredicates available node (depth + 1) predicates

def validatePredicates (available : SchemaMap) (node : String) (depth : Nat) :
    List WorkflowPredicate → Except CompileError Unit
  | [] => .ok ()
  | predicate :: predicates => do
    validatePredicate available node depth predicate
    validatePredicates available node depth predicates

end

end Inference

end RustX
