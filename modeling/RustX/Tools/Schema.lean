import RustX.Library.JsonSchema
import RustX.Workflow.Validation

/-!
The JSON Schema contract of tools: what a canonical input schema may be, how it is compiled
into the schema a model sees, and how invocation metadata is taken out of a call.
-/
namespace RustX.Tools

open Checked JsonSchema

def runtimePropertyPrefix : String := "__rustx_"

def executionModeField : String := "execution_mode"

def executionModeValues : List String := ["foreground", "background"]

def executionModeDescription : String :=
  "Required execution ownership for this tool call. " ++
  "Use \"foreground\" when the agent needs this invocation to complete and return its terminal " ++
  "result before continuing. Use \"background\" when the work should keep running independently " ++
  "while the agent proceeds with other work. Decide by whether your next step depends on this " ++
  "call's terminal result, not by how long the work is expected to take."

def executionModeDescriptionReminder : String :=
  "Execution ownership: every call to this tool must include the top-level \"execution_mode\" " ++
  "field, set to \"foreground\" when the agent needs this call's terminal result before it can " ++
  "continue, or \"background\" when the work should keep running independently while the agent " ++
  "proceeds."

/-- Root keywords that may shape the instance of a decorated schema. -/
def decoratableRootInstanceKeywords : List String :=
  ["type", "properties", "required", "additionalProperties"]

def rootAnnotationKeywords : List String :=
  ["$schema", "$id", "$comment", "$defs", "definitions", "title", "description", "default",
    "examples", "deprecated", "readOnly", "writeOnly"]

def referenceApplicatorKeywords : List String :=
  ["$ref", "$dynamicRef", "$recursiveRef"]

def subschemaKeywords : List String :=
  ["additionalItems", "additionalProperties", "contains", "contentSchema", "else", "if", "not",
    "propertyNames", "then", "unevaluatedItems", "unevaluatedProperties"]

def subschemaListKeywords : List String :=
  ["allOf", "anyOf", "oneOf", "prefixItems"]

/-- Keywords whose value maps names to subschemas. -/
def schemaMapKeywords : List String :=
  ["properties", "patternProperties", "dependentSchemas", "$defs", "definitions"]

def isDecoratableRootKeyword (keyword : String) : Bool :=
  keyword ∈ decoratableRootInstanceKeywords || keyword ∈ rootAnnotationKeywords

/-- How a canonical schema claims the reserved name. -/
inductive ExecutionModeClaim
  | property
  | required
  | propertyAndRequired
  deriving DecidableEq

inductive SchemaError
  | invalidSchema (message : String)
  | notRootObjectSchema (message : String)
  | reservedProperty (property : String)
  | reservedInvocationProperty (property : String)
  | executionModeCollision (claim : ExecutionModeClaim)
  | undecoratableRootSchema (keyword : String)
  | referenceApplicator (keyword location : String)
  | missingExecutionMode
  | invalidExecutionMode (value : String)
  deriving DecidableEq

inductive ToolExecutionPolicy
  | foregroundOnly
  | backgroundOnly
  | modelSelectable
  deriving DecidableEq

inductive ToolInvocationMode
  | foreground
  | background
  deriving DecidableEq

def ToolInvocationMode.wireName : ToolInvocationMode → String
  | .foreground => "foreground"
  | .background => "background"

structure ToolDefinition where
  id : String
  name : String
  description : String
  inputSchema : Json
  executionPolicy : ToolExecutionPolicy

structure ModelToolDefinition where
  id : String
  name : String
  description : String
  inputSchema : Json

def isReservedProperty (name : String) : Bool :=
  runtimePropertyPrefix.toList.isPrefixOf name.toList

def rejectReserved (error : String → SchemaError) (names : List String) : Except SchemaError Unit :=
  forM names fun name => require (!isReservedProperty name) (error name)

/-- Whether a document is a schema at all is the validator's verdict. -/
def validateCanonicalSchema {Outcome : Type} (semantics : Semantics Outcome) (schema : Json) :
    Except SchemaError Unit :=
  match schema with
  | .object object => do
    (semantics.build schema).mapError .invalidSchema
    require ((object.lookup "type").bind Json.asStr == some "object")
      (.notRootObjectSchema "the canonical tool input schema must declare \"type\": \"object\"")
    match object.lookup "properties" with
    | some (.object properties) => rejectReserved .reservedProperty (properties.map Prod.fst)
    | _ => .ok ()
  | _ => .error (.notRootObjectSchema "the canonical tool input schema must be a root object schema")

def replaceChar (wanted : Char) (instead : String) (text : String) : String :=
  String.ofList (text.toList.flatMap fun c => if c = wanted then instead.toList else [c])

/-- RFC 6901. -/
def escapePointerToken (token : String) : String :=
  replaceChar '/' "~1" (replaceChar '~' "~0" token)

def rejectOwnReferences (location : String) (node : List (String × Json)) :
    Except SchemaError Unit :=
  forM referenceApplicatorKeywords fun keyword =>
    require (node.lookup keyword).isNone (.referenceApplicator keyword location)

mutual

/-- The first reference applicator at any depth, found through the positions that hold
subschemas. -/
def rejectReferenceApplicators (location : String) : Json → Except SchemaError Unit
  | .object node => do
    rejectOwnReferences location node
    rejectInKeywords location node
  | _ => .ok ()

def rejectInKeywords (location : String) : List (String × Json) → Except SchemaError Unit
  | [] => .ok ()
  | (keyword, value) :: node => do
    let next := location ++ "/" ++ escapePointerToken keyword
    (if keyword ∈ subschemaKeywords then rejectReferenceApplicators next value
      else if keyword ∈ subschemaListKeywords then rejectInList next value
      else if keyword ∈ schemaMapKeywords then rejectInMap next value
      -- one subschema, or an array of them in older drafts
      else if keyword = "items" then
        match value with
        | .array items => rejectEach next 0 items
        | value => rejectReferenceApplicators next value
      else if keyword = "dependencies" then rejectInMap next value
      else .ok ())
    rejectInKeywords location node

def rejectInList (location : String) : Json → Except SchemaError Unit
  | .array items => rejectEach location 0 items
  | _ => .ok ()

def rejectEach (location : String) : Nat → List Json → Except SchemaError Unit
  | _, [] => .ok ()
  | index, item :: items => do
    rejectReferenceApplicators (location ++ "/" ++ toString index) item
    rejectEach location (index + 1) items

def rejectInMap (location : String) : Json → Except SchemaError Unit
  | .object members => rejectMembers location members
  | _ => .ok ()

/-- A member that is no object holds no subschema to inspect. -/
def rejectMembers (location : String) : List (String × Json) → Except SchemaError Unit
  | [] => .ok ()
  | (name, subschema) :: members => do
    rejectReferenceApplicators (location ++ "/" ++ escapePointerToken name) subschema
    rejectMembers location members

end

def declaresExecutionMode (root : List (String × Json)) : Bool :=
  match root.lookup "properties" with
  | some (.object properties) => (properties.lookup executionModeField).isSome
  | _ => false

def requiresExecutionMode (root : List (String × Json)) : Bool :=
  match root.lookup "required" with
  | some (.array required) => required.any fun entry => entry.asStr == some executionModeField
  | _ => false

def rejectClaims (root : List (String × Json)) : Except SchemaError Unit :=
  match declaresExecutionMode root, requiresExecutionMode root with
  | true, true => .error (.executionModeCollision .propertyAndRequired)
  | true, false => .error (.executionModeCollision .property)
  | false, true => .error (.executionModeCollision .required)
  | false, false => .ok ()

def validateExecutionMetadataContract (policy : ToolExecutionPolicy) (schema : Json) :
    Except SchemaError Unit :=
  if policy ≠ .modelSelectable then .ok ()
  else
    match schema with
    | .object root => do
      rejectClaims root
      rejectReferenceApplicators "" schema
      forM (root.map Prod.fst) fun keyword =>
        require (isDecoratableRootKeyword keyword) (.undecoratableRootSchema keyword)
    | _ => .ok ()

def executionModeSchema : Json :=
  .object [("description", .string executionModeDescription),
    ("enum", .array (executionModeValues.map .string)), ("type", .string "string")]

/-- Members of a schema with the selector declared; a member that is no object is a crash. -/
def declareExecutionMode (declared : Option Json) : Option Json :=
  match declared.getD (.object []) with
  | .object properties =>
    some (.object (Assoc.insert executionModeField executionModeSchema properties))
  | _ => none

def requireExecutionMode (required : Option Json) : Option Json :=
  match required.getD (.array []) with
  | .array names =>
    if .string executionModeField ∈ names then some (.array names)
    else some (.array (names ++ [.string executionModeField]))
  | _ => none

/-- A schema that cannot be decorated is a crash. -/
def decorateExecutionMode : Json → Option Json
  | .object object => do
    let properties ← declareExecutionMode (object.lookup "properties")
    let object := Assoc.insert "properties" properties object
    let required ← requireExecutionMode (object.lookup "required")
    some (.object (Assoc.insert "required" required object))
  | _ => none

def withExecutionModeReminder (description : String) : String :=
  if isBlank description then executionModeDescriptionReminder
  else description ++ "\n\n" ++ executionModeDescriptionReminder

def compileModelDefinition (definition : ToolDefinition) :
    Option (Except SchemaError ModelToolDefinition) :=
  match validateExecutionMetadataContract definition.executionPolicy definition.inputSchema with
  | .error error => some (.error error)
  | .ok () =>
    if definition.executionPolicy = .modelSelectable then do
      let inputSchema ← decorateExecutionMode definition.inputSchema
      some (.ok
        { id := definition.id, name := definition.name
          description := withExecutionModeReminder definition.description, inputSchema })
    else
      some (.ok
        { id := definition.id, name := definition.name, description := definition.description
          inputSchema := definition.inputSchema })

def rejectReservedInvocationProperties : Json → Except SchemaError Unit
  | .object object => rejectReserved .reservedInvocationProperty (object.map Prod.fst)
  | _ => .ok ()

def selectMode [FloatText] (selector : Json) : Except SchemaError ToolInvocationMode :=
  match selector.asStr with
  | some "foreground" => .ok .foreground
  | some "background" => .ok .background
  | _ => .error (.invalidExecutionMode selector.text)

def extractExecutionMode [FloatText] (args : Json) :
    Except SchemaError (ToolInvocationMode × Json) :=
  match args with
  | .object object =>
    match object.lookup executionModeField with
    | none => .error .missingExecutionMode
    | some selector => do
      let mode ← selectMode selector
      return (mode, .object (object.filter fun entry => entry.1 ≠ executionModeField))
  | _ => .error .missingExecutionMode

def resolveInvocationMetadata [FloatText] (policy : ToolExecutionPolicy) (args : Json) :
    Except SchemaError (ToolInvocationMode × Json) := do
  rejectReservedInvocationProperties args
  match policy with
  | .foregroundOnly => .ok (.foreground, args)
  | .backgroundOnly => .ok (.background, args)
  | .modelSelectable => extractExecutionMode args

end RustX.Tools
