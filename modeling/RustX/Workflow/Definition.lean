import RustX.Library.PortGraph
import RustX.Workflow.Compatible
import RustX.Workflow.Expression

/-!
Workflow blocks as they are authored, and the schemas of the values that their
nodes leave. Map fields are association lists in key order, as in the source.
Fields that neither the compiler nor the executor reads are left out.
-/
namespace RustX

def maxWorkflowNodes : Nat := 256
def maxWorkflowSteps : Nat := 4096
def maxWorkflowAgents : Nat := 256
def maxWorkflowModelCalls : Nat := 256
def maxModelMessages : Nat := 32
def maxModelMessageBytes : Nat := 32 * 1024
def loopNodeMaxCount : Nat := 100
def maxParallelLimit : Nat := 10
def maxBlockDepth : Nat := 8
def maxRunIdComponentBytes : Nat := 256
def maxRetries : Nat := 10
def maxAgentRoutes : Nat := 32
def maxAgentRouteDescriptionBytes : Nat := 1024
def maxReviewActions : Nat := 12
def maxQuestionTextChars : Nat := 4096
def maxOptionLabelChars : Nat := 60

inductive WorkflowPort
  | true
  | false
  | case (id : String)
  | next
  | fail
  deriving DecidableEq

namespace WorkflowPort

/-- `WorkflowPort::case`. -/
def ofCase (id : String) : WorkflowPort :=
  if id = "true" then .true else .case id

theorem ofCase_injective : Function.Injective ofCase := by
  intro left right same
  unfold ofCase at same
  split at same <;> split at same <;> simp_all

@[simp] theorem ofCase_ne_false (id : String) : ofCase id ≠ .false := by
  unfold ofCase
  split <;> simp

@[simp] theorem ofCase_ne_next (id : String) : ofCase id ≠ .next := by
  unfold ofCase
  split <;> simp

@[simp] theorem ofCase_ne_fail (id : String) : ofCase id ≠ .fail := by
  unfold ofCase
  split <;> simp

/-- The declaration order of the ports, and case identities by text. -/
def before : WorkflowPort → WorkflowPort → Bool
  | .case left, .case right => decide (left < right)
  | left, right => position left < position right
where
  position : WorkflowPort → Nat
    | .true => 0
    | .false => 1
    | .case _ => 2
    | .next => 3
    | .fail => 4

def debug : WorkflowPort → String
  | .true => "True"
  | .false => "False"
  | .case id => s!"Case({RustX.debug id})"
  | .next => "Next"
  | .fail => "Fail"

end WorkflowPort

structure EdgeDefinition where
  source : String
  target : String
  port : Option WorkflowPort := none

abbrev EdgeProgram := PortGraph.Edge String WorkflowPort

inductive VarType
  | string | number | boolean | object
  | arrayString | arrayNumber | arrayBoolean | arrayObject
  deriving DecidableEq

inductive WriteMode
  | overwrite | clear | set | append | extend | removeFirst | removeLast
  | increment | decrement | multiply | divide
  deriving DecidableEq

structure LoopVariable where
  label : String
  varType : VarType
  value : WorkflowValue

/-- One write of a Variable Assigner to `[loop, label]`. -/
structure Assignment where
  var : List String
  operation : WriteMode
  value : Option WorkflowValue := none

inductive IterationErrorMode
  | terminated | continueOnError | removeAbnormalOutput
  deriving DecidableEq

structure BranchCase where
  id : String
  condition : WorkflowPredicate

inductive ModelOutput
  | text
  | jsonSchema (schema : Schema)

inductive AgentOutput
  | text
  | jsonSchema (schema : Schema)

structure AgentRoute where
  id : String
  description : String

structure ClassifierClass where
  id : String
  label : String
  description : List WorkflowValue

inductive ValueErrorStrategy
  | stop
  | defaultValue (value : Json)
  | failBranch
  deriving DecidableEq

inductive ModelErrorStrategy
  | stop
  | defaultValue (text : String) (structuredOutput : Option Json)
  | failBranch
  deriving DecidableEq

structure Retry where
  maxRetries : Nat
  intervalMs : Nat

inductive ModelRole
  | system | user | assistant
  deriving DecidableEq

structure ModelMessage where
  role : ModelRole
  content : List WorkflowValue

inductive ModelPolicy
  | session
  | explicit (model : String) (profile : Option String) (requestParams : List (String × Json))
      (maxOutputTokens : Option Nat)

inductive ToolSelector
  | builtin (name : String)
  | source (sourceId name : String)

inductive CodeLanguage
  | python3 | javaScript
  deriving DecidableEq

inductive ToolResult
  | json (schema : Schema)
  | text

structure ReviewAction where
  id : String
  title : String

structure AggregateGroup where
  name : String
  outputType : Option VarType := none
  vars : List (List String)

inductive ListOperator
  | equal | notEqual | contains | notContains | startsWith | endsWith
  | greater | greaterEqual | less | lessEqual | empty | notEmpty | in | notIn
  deriving DecidableEq

structure ListFilter where
  path : List String
  operator : ListOperator
  value : WorkflowValue

inductive SortOrder
  | asc | desc
  deriving DecidableEq

structure ListSort where
  path : List String
  order : SortOrder

structure ReturnOutput where
  var : String
  valueSelector : List String

/-- A fixed graph over nodes of type `ν`: the root, or a Loop or Iteration body. -/
structure BlockOf (ν : Type) where
  input : Schema
  nodes : List (String × ν)
  edges : List EdgeDefinition

inductive NodeDefinition
  | start
  | template (vars : List (String × WorkflowValue)) (template : String)
  | list (input : WorkflowValue) (filter : Option ListFilter) (sort : Option ListSort)
      (limit : Option Nat) (extract : Option WorkflowValue)
  | classifier (model : ModelPolicy) (input : WorkflowValue) (instruction : List WorkflowValue)
      (classes : List ClassifierClass)
  | code (language : CodeLanguage) (vars : List (String × WorkflowValue)) (code : String)
      (outputs : List (String × VarType)) (retry : Option Retry) (onError : ValueErrorStrategy)
  | aggregate (grouped : Bool) (groups : List AggregateGroup)
  | model (model : ModelPolicy) (messages : List ModelMessage) (output : ModelOutput)
      (retry : Option Retry) (onError : ModelErrorStrategy)
  | loop (loopVariables : List LoopVariable) (breakCondition : Option WorkflowPredicate)
      (loopCount : Nat) (body : BlockOf NodeDefinition)
  | iteration (iterator output : WorkflowValue) (isParallel : Bool) (parallelNums : Nat)
      (errorHandleMode : IterationErrorMode) (flattenOutput : Bool) (body : BlockOf NodeDefinition)
  | loopEnd
  | assigner (items : List Assignment)
  | review (content : List WorkflowValue) (actions : List ReviewAction) (timeoutMs : Nat)
  | tool (selector : ToolSelector) (arguments : WorkflowValue) (result : ToolResult)
      (retry : Option Retry) (onError : ValueErrorStrategy)
  | agent (profile : String) (task : List WorkflowValue) (output : AgentOutput)
      (routes : List AgentRoute) (onError : ValueErrorStrategy)
  | branch (cases : List BranchCase)
  | returns (outputs : List ReturnOutput)

abbrev WorkflowBlock := BlockOf NodeDefinition

namespace Schema

def scalar (type : SchemaType) : Schema :=
  .keywords { type }

def arrayOf (items : Schema) : Schema :=
  .keywords { type := .array, items := some items }

theorem isValid_arrayOf_iff (item : Schema) (elements : List Json) :
    (arrayOf item).isValid (.array elements) = true ↔
      ∀ element ∈ elements, item.isValid element = true := by
  simp [arrayOf, isValid, isValidObject, isValidItems, SchemaType.admits]

def closed (properties : List (String × Schema)) (required : List String) : Schema :=
  .keywords
    { type := .object, properties := some properties, required := some required,
      additionalProperties := some false }

def record (properties : List (String × Schema)) : Schema :=
  closed properties (properties.map Prod.fst)

end Schema

open Schema

namespace VarType

def schema : VarType → Schema
  | .string => scalar .string
  | .number => scalar .number
  | .boolean => scalar .boolean
  | .object => scalar .object
  | .arrayString => arrayOf (scalar .string)
  | .arrayNumber => arrayOf (scalar .number)
  | .arrayBoolean => arrayOf (scalar .boolean)
  | .arrayObject => arrayOf (scalar .object)

def items : VarType → Option Schema
  | .arrayString => some (scalar .string)
  | .arrayNumber => some (scalar .number)
  | .arrayBoolean => some (scalar .boolean)
  | .arrayObject => some (scalar .object)
  | _ => none

/-- What `clear` leaves. -/
def empty : VarType → Json
  | .string => .string ""
  | .number => .number (.int 0)
  | .boolean => .bool false
  | .object => .object []
  | _ => .array []

def isArray : VarType → Bool
  | .arrayString | .arrayNumber | .arrayBoolean | .arrayObject => true
  | _ => false

def debug : VarType → String
  | .string => "String"
  | .number => "Number"
  | .boolean => "Boolean"
  | .object => "Object"
  | .arrayString => "ArrayString"
  | .arrayNumber => "ArrayNumber"
  | .arrayBoolean => "ArrayBoolean"
  | .arrayObject => "ArrayObject"

end VarType

namespace WriteMode

def appliesTo (mode : WriteMode) (varType : VarType) : Bool :=
  match mode with
  | .overwrite | .clear => true
  | .set => !varType.isArray
  | .append | .extend | .removeFirst | .removeLast => varType.isArray
  | .increment | .decrement | .multiply | .divide => varType == .number

def operand (mode : WriteMode) (varType : VarType) : Option Schema :=
  match mode with
  | .clear | .removeFirst | .removeLast => none
  | .append => varType.items
  | .increment | .decrement | .multiply | .divide => some (scalar .number)
  | .overwrite | .set | .extend => some varType.schema

def debug : WriteMode → String
  | .overwrite => "Overwrite"
  | .clear => "Clear"
  | .set => "Set"
  | .append => "Append"
  | .extend => "Extend"
  | .removeFirst => "RemoveFirst"
  | .removeLast => "RemoveLast"
  | .increment => "Increment"
  | .decrement => "Decrement"
  | .multiply => "Multiply"
  | .divide => "Divide"

end WriteMode

def emptyObjectSchema : Schema :=
  .keywords { type := .object, properties := some [], additionalProperties := some false }

/-- A closed object with no fields, however its empty `required` is spelled. -/
def isEmptyObjectSchema : Schema → Bool
  | .anyOf _ => false
  | .keywords object =>
    let required := if object.required = some [] then none else object.required
    decide (Schema.keywords { object with required } = emptyObjectSchema)

/-- `loop_variables_schema`: the value of a Loop. -/
def loopVariablesSchema (vars : List LoopVariable) : Schema :=
  closed
    (vars.foldl (fun properties var =>
      Assoc.insert var.label var.varType.schema properties) [])
    (vars.map LoopVariable.label)

def textSchema : Schema :=
  record [("output", scalar .string)]

def usageSchema : Schema :=
  record [("input_tokens", scalar .integer), ("output_tokens", scalar .integer),
    ("total_tokens", scalar .integer)]

def ModelOutput.schema : ModelOutput → Schema
  | .text => closed
      [("reasoning_content", scalar .string), ("text", scalar .string), ("usage", usageSchema)]
      ["text", "reasoning_content", "usage"]
  | .jsonSchema schema => closed
      [("reasoning_content", scalar .string), ("structured_output", schema),
        ("text", scalar .string), ("usage", usageSchema)]
      ["text", "reasoning_content", "usage", "structured_output"]

/-- `WorkflowModelErrorStrategy::error_schema`: the value a fail branch sees. -/
def errorSchema : Schema :=
  closed [("error_message", scalar .string), ("error_type", scalar .string)]
    ["error_type", "error_message"]

def AgentOutput.structured : AgentOutput → Option Schema
  | .text => none
  | .jsonSchema schema => some schema

def agentTextSchema : Schema :=
  record [("text", scalar .string)]

/-- The reserved field through which a routed child picks its exit. -/
def agentRouteField : String := "switch"

def routeSchema (routes : List AgentRoute) : Schema :=
  let choices := String.intercalate "\n" (routes.map fun route => s!"- {route.id}: {route.description}")
  .keywords
    { type := .string, enum := some (routes.map fun route => .string route.id),
      description := some ("Select exactly one route ID based on the task result:\n" ++ choices) }

/-- Add the required `switch` to the schema of a routed child. -/
def withRoutes (routes : List AgentRoute) : Schema → Schema
  | .anyOf alternatives => .anyOf alternatives
  | .keywords object => .keywords
      { object with
        properties :=
          some (Assoc.insert agentRouteField (routeSchema routes) (object.properties.getD []))
        required := some (object.required.getD [] ++ [agentRouteField]) }

def agentTerminalSchema (output : AgentOutput) (routes : List AgentRoute) : Option Schema :=
  match output.structured, routes with
  | none, [] => none
  | none, _ :: _ => some (withRoutes routes agentTextSchema)
  | some schema, [] => some schema
  | some schema, _ :: _ => some (withRoutes routes schema)

def agentValueSchema (output : AgentOutput) (routes : List AgentRoute) : Schema :=
  (agentTerminalSchema output routes).getD agentTextSchema

def ToolResult.schema : ToolResult → Schema
  | .json schema => schema
  | .text => agentTextSchema

def reviewTimeoutPort : String := "timeout"

/-- `review::result_schema`. -/
def reviewResultSchema (actions : List ReviewAction) : Schema :=
  let ids := actions.map ReviewAction.id ++ [reviewTimeoutPort]
  record
    [("action", .keywords { type := .string, enum := some (ids.map .string) }),
      ("content", scalar .string)]

def classifierResultSchema : Schema :=
  closed
    [("class_id", scalar .string), ("class_label", scalar .string), ("class_name", scalar .string),
      ("usage", usageSchema)]
    ["class_id", "class_name", "class_label", "usage"]

def classifierOutput (classes : List ClassifierClass) : ModelOutput :=
  .jsonSchema (record [("class_id",
    .keywords { type := .string, enum := some (classes.map fun item => .string item.id) })])

/-- The item type of a round's value, joined when rounds are flattened. -/
def iterationItem (produced : Schema) (flatten : Bool) : Option Schema :=
  match produced with
  | .keywords object => if flatten && object.type == .array then object.items else some produced
  | .anyOf _ => some produced

/-- `iteration_result_schema`: a round left out by `continue_on_error` is null, so
its items are open. -/
def iterationResultSchema (produced : Schema) (mode : IterationErrorMode) (flatten : Bool) :
    Schema :=
  record [("output", match iterationItem produced flatten with
    | some item => if mode != .continueOnError then arrayOf item else scalar .array
    | none => scalar .array)]

/-- `active_groups`: an ungrouped Aggregate only reads its first group. -/
def activeGroups (groups : List AggregateGroup) (grouped : Bool) : List AggregateGroup :=
  if grouped then groups else groups.take 1

end RustX
