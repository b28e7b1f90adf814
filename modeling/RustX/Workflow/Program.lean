import RustX.Workflow.Flow

/-!
Compiled blocks, as the executor reads them.
-/
namespace RustX

open Schema

/-- A classification is a model call with exits; ordinary calls have no classes. -/
structure ModelProgram where
  classes : List ClassifierClass
  model : ModelPolicy
  messages : List ModelMessage
  output : ModelOutput
  retry : Option Retry
  onError : ModelErrorStrategy

structure AgentProgram where
  profile : String
  task : List WorkflowValue
  output : AgentOutput
  routes : List AgentRoute
  onError : ValueErrorStrategy

def AgentProgram.valueSchema (agent : AgentProgram) : Schema :=
  agentValueSchema agent.output agent.routes

inductive ToolArguments
  | value (value : WorkflowValue)
  | code (language : CodeLanguage) (vars : List (String × WorkflowValue)) (code : String)

inductive ToolProjection
  | native (result : ToolResult)
  | code (schema : Schema)

def ToolProjection.schema : ToolProjection → Schema
  | .native result => result.schema
  | .code schema => schema

/-- The compiled graph of the root or of a body. -/
structure BlockProgramOf (ν : Type) where
  path : List String
  inputSchema : Schema
  outputSchema : Schema
  entry : String
  nodes : List (String × ν)
  outgoing : String → List EdgeProgram

inductive NodeProgram
  | start
  | template (vars : List (String × WorkflowValue)) (template : String)
  | list (input : WorkflowValue) (filter : Option ListFilter) (sort : Option ListSort)
      (limit : Option Nat) (extract : Option WorkflowValue) (outputSchema : Schema)
  | aggregate (grouped : Bool) (groups : List AggregateGroup) (outputSchema : Schema)
  | model (model : ModelProgram)
  | loop (loopVariables : List LoopVariable) (breakCondition : Option WorkflowPredicate)
      (loopCount : Nat) (body : BlockProgramOf NodeProgram) (outputSchema : Schema)
  | iteration (iterator output : WorkflowValue) (parallel : Nat)
      (errorHandleMode : IterationErrorMode) (flattenOutput : Bool)
      (body : BlockProgramOf NodeProgram) (outputSchema : Schema)
  | loopEnd
  | assigner (items : List Assignment) (types : List VarType)
  | review (content : List WorkflowValue) (actions : List ReviewAction) (timeoutMs : Nat)
  | tool (selector : ToolSelector) (arguments : ToolArguments) (result : ToolProjection)
      (retry : Option Retry) (onError : ValueErrorStrategy)
  | agent (agent : AgentProgram)
  | branch (cases : List BranchCase)
  | returns (output : WorkflowValue)

abbrev BlockProgram := BlockProgramOf NodeProgram

namespace NodeProgram

/-- Whether a handled failure leaves through the fail port. -/
def failBranch : NodeProgram → Bool
  | .model call => call.onError == .failBranch
  | .tool _ _ _ _ onError => onError == .failBranch
  | .agent child => child.onError == .failBranch
  | _ => false

def exits : NodeProgram → List WorkflowPort
  | .model call =>
    if call.classes.isEmpty then .next :: if call.onError = .failBranch then [.fail] else []
    else call.classes.map fun item => .ofCase item.id
  | .branch cases => (cases.map fun case => .ofCase case.id) ++ [.false]
  | .review _ actions _ =>
    (actions.map fun action => .ofCase action.id) ++ [.ofCase reviewTimeoutPort]
  | .agent child =>
    (if child.routes.isEmpty then [.next] else child.routes.map fun route => .ofCase route.id) ++
      if child.onError = .failBranch then [.fail] else []
  | node => .next :: if node.failBranch then [.fail] else []

def valueSchema : NodeProgram → Option Schema
  | .template .. => some textSchema
  | .list _ _ _ _ _ outputSchema | .aggregate _ _ outputSchema => some outputSchema
  | .model call =>
    some (if call.classes.isEmpty then call.output.schema else classifierResultSchema)
  | .loop _ _ _ _ outputSchema | .iteration _ _ _ _ _ _ outputSchema => some outputSchema
  | .review _ actions _ => some (reviewResultSchema actions)
  | .tool _ _ result _ _ => some result.schema
  | .agent child => some child.valueSchema
  | .start | .loopEnd | .assigner .. | .branch _ | .returns _ => none

def isReturn : NodeProgram → Bool
  | .returns _ => true
  | _ => false

def assigned : NodeProgram → List (List String)
  | .assigner items _ => items.map Assignment.var
  | _ => []

end NodeProgram

/-- A compiled workflow, with the limits its run is held to. -/
structure WorkflowProgram where
  description : String
  block : BlockProgram
  executionBound : Nat
  agentBound : Nat
  modelCallBound : Nat
  retainedBound : Nat
  timeoutMs : Nat

end RustX
