import RustX.Workflow.Base
import RustX.Workflow.Schema

/-!
`validate_workflow_schema`: which schemas an author may write.
Decoding already fixes the shape of each keyword (`type` is one of the seven
names, `properties` maps names to schemas, `additionalProperties` is a boolean),
so the checks here are the ones that remain over a decoded schema.
-/
namespace RustX

open Checked

namespace SchemaType

def name : SchemaType → String
  | .array => "array"
  | .boolean => "boolean"
  | .integer => "integer"
  | .null => "null"
  | .number => "number"
  | .object => "object"
  | .string => "string"

end SchemaType

/-- Keyword names in the order the source lists them. -/
def workflowSchemaKeywords : List String :=
  ["additionalProperties", "const", "default", "description", "enum", "items", "maxLength",
    "properties", "required", "type"]

namespace Schema

section Validation

variable [FloatText]

def checkDescription (object : Keywords Schema) : Except CompileError Unit :=
  require ((object.description.map fun text =>
      decide (text.utf8ByteSize ≤ schemaDescriptionBytesMax)).getD true)
    ((CompileError.invalidSchema
      "schema description must be a string of at most 4096 UTF-8 bytes").under "description")

section

variable (path : String)

variable (object : Keywords Schema)

def checkFinite : Except CompileError Unit := do
  require (!((object.type == .integer || object.type == .number) &&
      (object.const.isSome || object.enum.isSome)))
    (.invalidSchema s!"workflow schema {debug path}: numeric const/enum are outside the conservative static subset")
  require ((object.enum.map fun values => !values.isEmpty && decide values.Nodup).getD true)
    (.invalidSchema s!"workflow schema {debug path} enum must contain unique values")
  require (match object.const, object.enum with
      | some constant, some values => decide (constant ∈ values)
      | _, _ => true)
    (.invalidSchema s!"workflow schema {debug path} const must be included in enum")

def checkMaxLength : Except CompileError Unit :=
  match object.maxLength with
  | none => .ok ()
  | some maximum => do
    require (object.type == .string)
      (.invalidSchema s!"workflow schema {debug path} maxLength is only valid for string schemas")
    require (decide (1 ≤ maximum) && decide (maximum ≤ maxValueBytes))
      ((CompileError.invalidSchema
        s!"workflow schema {debug path} maxLength must be an integer from 1 to {maxValueBytes}").under
        "maxLength")

def checkDefault : Except CompileError Unit :=
  require ((object.default.map fun value =>
      (keywords { object with default := none }).isValid value).getD true)
    ((CompileError.invalidSchema
      s!"workflow schema {debug path} default does not satisfy its own schema").under "default")

def checkFiniteBounds : Except CompileError Unit :=
  forM (object.const.toList ++ object.default.toList ++ object.enum.getD []) fun value =>
    (boundedValueBytes value).bind (fun _ => .ok ()) |>.mapError fun error =>
      .invalidSchema s!"schema {debug path} finite value: {error.text}"

def checkRequired (path : String) (properties : List (String × Schema)) :
    List String → List String → Except CompileError Unit
  | _, [] => .ok ()
  | seen, name :: rest => do
    require ((properties.lookup name).isSome)
      (.invalidSchema s!"workflow schema {debug path} required field {debug name} has no property schema")
    require (!seen.contains name)
      (.invalidSchema s!"workflow schema {debug path} required contains duplicate field {debug name}")
    checkRequired path properties (name :: seen) rest

def refuseKeyword (present : Bool) (path keyword detail : String) : Except CompileError Unit :=
  require (!present) (.invalidSchema s!"workflow schema {debug path} {keyword} {detail}")

def checkForeignKeywords : Except CompileError Unit :=
  match object.type with
  | .object => refuseKeyword object.items.isSome path "items" "is only valid for array schemas"
  | .array => do
    refuseKeyword object.properties.isSome path "properties" "is only valid for object schemas"
    refuseKeyword object.required.isSome path "required" "is only valid for object schemas"
    refuseKeyword object.additionalProperties.isSome path "additionalProperties"
      "is only valid for object schemas"
  | kind => do
    let detail := s!"is incompatible with scalar type {debug kind.name}"
    refuseKeyword object.properties.isSome path "properties" detail
    refuseKeyword object.required.isSome path "required" detail
    refuseKeyword object.additionalProperties.isSome path "additionalProperties" detail
    refuseKeyword object.items.isSome path "items" detail

end

mutual

def validateWorkflowSchemaAt (path : String) (depth : Nat) : Schema → Except CompileError Unit
  | .anyOf _ => do
    require (decide (depth ≤ maxValueDepth)) (.invalidSchema "schema depth exceeded")
    .error (.invalidSchema
      (s!"workflow schema {debug path} uses unsupported keyword \"anyOf\"; Workflow v1 accepts only " ++
        String.intercalate ", " workflowSchemaKeywords))
  | .keywords object => validateObjectAt path depth object

def validateObjectAt (path : String) (depth : Nat) : Keywords Schema → Except CompileError Unit
  | ⟨type, properties, required, additional, items, enum, const, maxLength, default, description⟩ => do
    let object : Keywords Schema :=
      ⟨type, properties, required, additional, items, enum, const, maxLength, default, description⟩
    require (decide (depth ≤ maxValueDepth)) (.invalidSchema "schema depth exceeded")
    checkDescription object
    checkFinite path object
    checkMaxLength path object
    checkDefault path object
    checkFiniteBounds path object
    match type with
    | .object => do
      validateProperties path depth properties
      checkRequired path (properties.getD []) [] (required.getD [])
      checkForeignKeywords path object
    | .array => do
      validateItems path depth items
      checkForeignKeywords path object
    | _ => checkForeignKeywords path object

def validateProperties (path : String) (depth : Nat) :
    Option (List (String × Schema)) → Except CompileError Unit
  | none => .ok ()
  | some properties => validateFields path depth properties

def validateFields (path : String) (depth : Nat) : List (String × Schema) → Except CompileError Unit
  | [] => .ok ()
  | (name, property) :: rest => do
    (validateWorkflowSchemaAt s!"{path}.properties.{name}" (depth + 1) property).mapError
      (CompileError.under s!"properties.{name}")
    validateFields path depth rest

def validateItems (path : String) (depth : Nat) : Option Schema → Except CompileError Unit
  | none => .ok ()
  | some items =>
    (validateWorkflowSchemaAt s!"{path}.items" (depth + 1) items).mapError
      (CompileError.under "items")

end

def validateWorkflowSchema (schema : Schema) (path : String) : Except CompileError Unit :=
  validateWorkflowSchemaAt path 0 schema

end Validation

/-- The schemas of a compiled workflow: a `const` beside an `enum` is one of its
values, here and in every schema below. Authored schemas are in it, and so is
every union or object the compiler derives from schemas that are. -/
inductive Vocabulary : Schema → Prop
  | keywords {object : Keywords Schema}
      (agree : ∀ constant values, object.const = some constant → object.enum = some values →
        constant ∈ values)
      (properties : ∀ key schema, (key, schema) ∈ object.properties.getD [] → Vocabulary schema)
      (items : ∀ schema, object.items = some schema → Vocabulary schema) :
      Vocabulary (.keywords object)
  | anyOf {alternatives : List Schema}
      (each : ∀ schema ∈ alternatives, Vocabulary schema) : Vocabulary (.anyOf alternatives)

section Accepted

variable [FloatText]

end Accepted

end Schema

end RustX
