import RustX.Workflow.Validation

/-!
Compilation of a block: its control flow, the race checks on Loop variables, and
its nodes in topological order, each checked in the scope proven for it.
-/
namespace RustX

open Checked Schema

namespace Schema

def hasDefault : Schema → Bool
  | .keywords object => object.default.isSome
  | .anyOf _ => false

/-- `schema_required`, a set. -/
def requiredNames : Schema → List String
  | .keywords object => (object.required.getD []).dedup.insertionSort (· ≤ ·)
  | .anyOf _ => []

def fields : Schema → List (String × Schema)
  | .keywords object => object.properties.getD []
  | .anyOf _ => []

mutual

/-- `schema_with_defaults_required`: an input after its defaults are filled in. -/
def withDefaultsRequired : Schema → Schema
  | .anyOf alternatives => .anyOf alternatives
  | .keywords object => .keywords (objectWithDefaultsRequired object)

def objectWithDefaultsRequired : Keywords Schema → Keywords Schema
  | ⟨type, properties, required, additional, items, enum, const, maxLength, default, description⟩ =>
    let defaulted := ((properties.getD []).filter fun property => property.2.hasDefault).map Prod.fst
    let names := (required.getD []).dedup.insertionSort (· ≤ ·)
    ⟨type, propertiesWithDefaultsRequired properties,
      if defaulted.isEmpty then required
      else some (names ++ defaulted.filter fun name => !names.contains name),
      additional, itemsWithDefaultsRequired items, enum, const, maxLength, default, description⟩

def propertiesWithDefaultsRequired :
    Option (List (String × Schema)) → Option (List (String × Schema))
  | none => none
  | some properties => some (fieldsWithDefaultsRequired properties)

def fieldsWithDefaultsRequired : List (String × Schema) → List (String × Schema)
  | [] => []
  | (name, schema) :: rest => (name, withDefaultsRequired schema) :: fieldsWithDefaultsRequired rest

def itemsWithDefaultsRequired : Option Schema → Option Schema
  | none => none
  | some schema => some (withDefaultsRequired schema)

end

end Schema

namespace SchemaMap

/-- A block's entry environment: `args` after defaults are filled in. -/
def fromSchema (schema : Schema) : SchemaMap :=
  fun name => if name = "args" then some schema.withDefaultsRequired else none

def withPrefix (available : SchemaMap) (name : String) (schema : Schema) : SchemaMap :=
  Function.update available name (some schema)

theorem isSome_withPrefix (available : SchemaMap) (name : String) (schema : Schema) :
    (available.withPrefix name schema name).isSome = true := by
  simp [withPrefix]

end SchemaMap

/-- What a Loop or Iteration body sees around it. -/
structure Container where
  /-- The variables in scope at the container, plus its own. -/
  base : SchemaMap
  owner : String
  /-- A Loop's variables by label; `none` in an Iteration. -/
  loopVariables : Option (List (String × VarType))
  owned : (base owner).isSome = true

def NodeDefinition.assignments : NodeDefinition → Option (List Assignment)
  | .assigner items => some items
  | _ => none

def writersOf (nodes : List (String × NodeDefinition)) : List (String × List Assignment) :=
  nodes.filterMap fun node => node.2.assignments.map (node.1, ·)

def writesConflict (items others : List Assignment) : Bool :=
  items.any fun item => others.any fun other => item.var == other.var

def readsConflict (items : List Assignment) (paths : List (List String)) : Bool :=
  items.any fun item => paths.any fun path =>
    path.head? == item.var.head? && (path.length == 1 || path[1]? == item.var[1]?)

section Races

variable {B : Type} [Bdd B]

def checkWriters (scopes : ActivationScopes B) :
    List (String × List Assignment) → Except CompileError Unit
  | [] => .ok ()
  | (left, items) :: writers => do
    forM writers fun (right, others) =>
      require (!(scopes.unorderedTogether left right && writesConflict items others))
        (.under s!"nodes.{right}.items" (.invalidField
          (s!"Assigners {debug left} and {debug right} write the same variable without an " ++
            "execution order")))
    checkWriters scopes writers

def checkReaders (scopes : ActivationScopes B) (nodes : List (String × NodeDefinition)) :
    Except CompileError Unit :=
  forM (writersOf nodes) fun (writer, items) =>
    forM nodes fun (reader, node) =>
      require (!(writer != reader && scopes.unorderedTogether writer reader &&
          readsConflict items node.reads))
        (.under s!"nodes.{reader}" (.invalidField
          (s!"nodes {debug writer} and {debug reader} read and write the same Loop variable " ++
            "without an execution order")))

end Races

/-- One compiled node: its program, the value it declares, the output it returns,
and the nodes counted so far. -/
structure CompiledNode where
  program : NodeProgram
  declared : Option Schema
  returned : Option Schema
  total : Nat

/-- The compiler of a body, by its owner and what surrounds it. -/
abbrev CompileBody :=
  WorkflowBlock → Container → Nat → Except CompileError (BlockProgram × SchemaMap × Nat)

section Nodes

variable [FloatText] [Host]

section

variable (available : SchemaMap)

def checkTemplateVariables (node : String)
    (vars : List (String × WorkflowValue)) : Except CompileError Unit :=
  forM vars fun (name, value) =>
    ((valueSchema value available node 0).mapError (.under s!"variables.{name}")).map fun _ => ()

def checkSource (node : String) (group : AggregateGroup) (label : String)
    (path : List String) : Except CompileError Unit := do
  let actual ← (valueSchema (.reference path) available node 0).mapError (.under label)
  match group.outputType with
  | none => .error (.invalidField "aggregate type is not selected")
  | some varType =>
    require (schemasCompatible actual varType.schema) (.under label
      (.incompatibleReference "aggregate source type does not match the output group"))

def checkSources (available : SchemaMap) (node : String) (group : AggregateGroup) (index : Nat) :
    Nat → List (List String) → Except CompileError Unit
  | _, [] => .ok ()
  | position, path :: paths => do
    checkSource available node group s!"groups.{index}.variables.{position}" path
    checkSources available node group index (position + 1) paths

def checkGroups {B : Type} [Bdd B] (scopes : ActivationScopes B) (base available : SchemaMap)
    (node : String) : Nat → List AggregateGroup → Except CompileError Unit
  | _, [] => .ok ()
  | index, group :: groups => do
    (scopes.validateAggregate node group.vars base).mapError (.under s!"groups.{index}.variables")
    checkSources available node group index 0 group.vars
    checkGroups scopes base available node (index + 1) groups

def checkLoopVariables (node : String) : List LoopVariable → Except CompileError Unit :=
  checkEach (fun index seen (var : LoopVariable) => do
    require (validLocalKey var.label && !seen.contains var.label)
      (.under s!"loop_variables.{index}.label" (.invalidField
        s!"Loop {debug node} variable labels must be unique valid keys"))
    let actual ← (valueSchema var.value available node 0).mapError
      (.under s!"loop_variables.{index}.value")
    require (schemasCompatible actual var.varType.schema)
      (.under s!"loop_variables.{index}.value" (.incompatibleReference
        s!"Loop variable {debug var.label} value is not a {var.varType.debug}")))
    LoopVariable.label 0 []

/-- The variable an assignment writes, if it is one of the Loop around it. -/
def assignedType (owner : String) (vars : List (String × VarType)) : List String → Option VarType
  | [loopId, label] => if loopId = owner then vars.lookup label else none
  | _ => none

/-- The operand of a write: present exactly when the operation takes one, and of its type. -/
def checkOperand (node : String) (index : Nat) (item : Assignment)
    (varType : VarType) : Except CompileError Unit :=
  match item.operation.operand varType, item.value with
  | none, none => .ok ()
  | some expected, some value => do
    let actual ← (valueSchema value available node 0).mapError (.under s!"items.{index}.value")
    require (schemasCompatible actual expected) (.under s!"items.{index}.value"
      (.incompatibleReference s!"{item.operation.debug} needs a value of {expected.toJson.text}"))
  | some _, none =>
    .error (.under s!"items.{index}.value" (.invalidField "this write needs a value"))
  | none, some _ =>
    .error (.under s!"items.{index}.value" (.invalidField "this write takes no value"))

end

def compileAssignments (available : SchemaMap) (node owner : String)
    (vars : List (String × VarType)) :
    Nat → List Assignment → Except CompileError (List VarType)
  | _, [] => .ok []
  | index, item :: items =>
    match assignedType owner vars item.var with
    | none => .error (.under s!"items.{index}.variable" (.danglingReference
        "an assigned variable must be a variable of the Loop the Assigner is in"))
    | some varType => do
      require (item.operation.appliesTo varType) (.under s!"items.{index}.operation"
        (.invalidField s!"{item.operation.debug} cannot write a {varType.debug} variable"))
      checkOperand available node index item varType
      let types ← compileAssignments available node owner vars (index + 1) items
      .ok (varType :: types)

def returnFields (available : SchemaMap) (node : String) :
    Nat → List ReturnOutput → List (String × WorkflowValue) → List (String × Schema) →
      Except CompileError (List (String × WorkflowValue) × List (String × Schema))
  | _, [], fields, properties => .ok (fields, properties)
  | index, output :: outputs, fields, properties => do
    require (validLocalKey output.var && (fields.lookup output.var).isNone)
      (.under s!"outputs.{index}.variable"
        (.invalidField "output variables must be unique valid local keys"))
    let value := .reference output.valueSelector
    let schema ← (valueSchema value available node 0).mapError
      (.under s!"outputs.{index}.value_selector")
    returnFields available node (index + 1) outputs (Assoc.insert output.var value fields)
      (Assoc.insert output.var schema properties)

def returnOutput (outputs : List ReturnOutput) (available : SchemaMap) (node : String) :
    Except CompileError (WorkflowValue × Schema) := do
  let (fields, properties) ← returnFields available node 0 outputs [] []
  .ok (.object fields, closed properties (fields.map Prod.fst))

/-- The wider of two types of one output, when one admits every value of the other. -/
def mergeProperty (properties : List (String × Schema)) (property : String × Schema) :
    Except CompileError (List (String × Schema)) :=
  match properties.lookup property.1 with
  | some existing =>
    if schemasCompatible property.2 existing then .ok properties
    else if schemasCompatible existing property.2 then
      .ok (Assoc.insert property.1 property.2 properties)
    else .error (.incompatibleReference
      s!"Return nodes give output {debug property.1} different types")
  | none => .ok (Assoc.insert property.1 property.2 properties)

def mergeReturn (merged schema : Schema) : Except CompileError Schema := do
  let properties ← schema.fields.foldlM mergeProperty merged.fields
  .ok (closed properties (merged.requiredNames.filter schema.requiredNames.contains))

def mergeReturnSchemas : List Schema → Except CompileError Schema
  | [] => .ok emptyObjectSchema
  | first :: rest => rest.foldlM mergeReturn first

def hasEdge (outgoing : List EdgeProgram) (port : WorkflowPort) : Bool :=
  outgoing.any fun edge => edge.port == port

/-- In a root block every one of the ports leads somewhere. -/
def requirePorts (container : Option Container) (outgoing : List EdgeProgram)
    (ports : List WorkflowPort) (detail : String) : Except CompileError Unit :=
  require (container.isSome || ports.all (hasEdge outgoing)) (.invalidBranch detail)

def compileLoop (compileBody : CompileBody) (available : SchemaMap) (id : String) (total : Nat)
    (vars : List LoopVariable) (breakCondition : Option WorkflowPredicate) (loopCount : Nat)
    (body : WorkflowBlock) : Except CompileError CompiledNode := do
  require (decide (1 ≤ loopCount ∧ loopCount ≤ loopNodeMaxCount)) (.under "loop_count"
    (.invalidField s!"Loop {debug id} loop_count must be 1..={loopNodeMaxCount}"))
  checkLoopVariables available id vars
  let outputSchema := loopVariablesSchema vars
  let container : Container :=
    { base := available.withPrefix id outputSchema
      owner := id
      loopVariables := some (vars.map fun var => (var.label, var.varType))
      owned := available.isSome_withPrefix id outputSchema }
  let (body, finish, total) ← compileBody body container total
  whenSome breakCondition fun condition =>
    (validatePredicate finish id 0 condition).mapError (.under "break_condition")
  .ok ⟨.loop vars breakCondition loopCount body outputSchema, some outputSchema, none, total⟩

def iterationEntry (item : Schema) : Schema :=
  closed [("index", scalar .integer), ("item", item)] ["item", "index"]

def compileIteration (compileBody : CompileBody) (available : SchemaMap) (id : String)
    (total : Nat) (iterator output : WorkflowValue) (isParallel : Bool) (parallelNums : Nat)
    (mode : IterationErrorMode) (flatten : Bool) (body : WorkflowBlock) :
    Except CompileError CompiledNode := do
  require iterator.isReference
    (.under "iterator" (.invalidField "Iteration input must reference an array"))
  let array ← (valueSchema iterator available id 0).mapError (.under "iterator")
  match listItems array with
  | none => .error (.under "iterator"
      (.incompatibleReference "Iteration input must be an array with declared items"))
  | some item => do
    require (schemaType array == some .array) (.under "iterator"
      (.incompatibleReference "Iteration input must be an array with declared items"))
    require (!isParallel || decide (1 ≤ parallelNums ∧ parallelNums ≤ maxParallelLimit))
      (.under "parallel_nums" (.invalidField
        s!"Iteration {debug id} parallel_nums must be 1..={maxParallelLimit}"))
    require output.isReference
      (.under "output" (.invalidField "Iteration output must reference a variable of its body"))
    let container : Container :=
      { base := available.withPrefix id (iterationEntry item), owner := id, loopVariables := none
        owned := available.isSome_withPrefix id (iterationEntry item) }
    let (body, finish, total) ← compileBody body container total
    let produced ← (valueSchema output finish id 0).mapError (.under "output")
    let outputSchema := iterationResultSchema produced mode flatten
    .ok ⟨.iteration iterator output (if isParallel then parallelNums else 1) mode flatten body
      outputSchema, some outputSchema, none, total⟩

def compileAssigner (container : Option Container) (available : SchemaMap) (id : String)
    (total : Nat) (items : List Assignment) : Except CompileError CompiledNode :=
  match container with
  | some ⟨_, owner, some vars, _⟩ => do
    require (!items.isEmpty && decide (items.length ≤ 32))
      (.under "items" (.invalidField "a Variable Assigner makes 1..=32 writes"))
    let types ← compileAssignments available id owner vars 0 items
    .ok ⟨.assigner items types, none, none, total⟩
  | _ => .error (.invalidField
      "a Variable Assigner writes Loop variables, so it belongs directly in a Loop body")

def Container.isLoop (container : Container) : Bool :=
  container.loopVariables.isSome

def compileNode {B : Type} [Bdd B] (compileBody : CompileBody) (container : Option Container)
    (scopes : ActivationScopes B) (outgoing : List EdgeProgram) (base available : SchemaMap)
    (id : String) (total : Nat) : NodeDefinition → Except CompileError CompiledNode
  | .start => .ok ⟨.start, none, none, total⟩
  | .template vars template => do
    validateTemplate template vars
    checkTemplateVariables available id vars
    .ok ⟨.template vars template, some textSchema, none, total⟩
  | .list input filter sort limit extract => do
    let array ← (valueSchema input available id 0).mapError (.under "input")
    validateListValues array filter extract available id
    let outputSchema ← listSchema array filter sort limit
    .ok ⟨.list input filter sort limit extract outputSchema, some outputSchema, none, total⟩
  | .classifier model input instruction classes => do
    let call ← classifier model input instruction classes available id
    requirePorts container outgoing (classes.map fun item => .ofCase item.id)
      "Classifier requires a successor per class"
    .ok ⟨.model call, some classifierResultSchema, none, total⟩
  | .code language vars code outputs retry onError => do
    validateCode vars code available id
    let schema ← codeOutputSchema outputs
    validateWorkflowSchema schema "Code outputs"
    validateRetry retry "Code" id
    checkDefaultValue schema onError "Code default value must satisfy its outputs"
    .ok ⟨.tool (.builtin "bash") (.code language vars code) (.code schema) retry onError,
      some schema, none, total⟩
  | .aggregate grouped groups => do
    validateGroups groups grouped
    checkGroups scopes base available id 0 (activeGroups groups grouped)
    let outputSchema ← aggregateSchema groups grouped
    .ok ⟨.aggregate grouped (activeGroups groups grouped) outputSchema, some outputSchema, none,
      total⟩
  | .model model messages output retry onError => do
    (lowerModelPolicy model).mapError (.under "model")
    validateModel model messages output available id
    validateModelFailure retry onError output id
    .ok ⟨.model { classes := [], model, messages, output, retry, onError }, some output.schema,
      none, total⟩
  | .loop vars breakCondition loopCount body =>
    compileLoop compileBody available id total vars breakCondition loopCount body
  | .iteration iterator output isParallel parallelNums mode flatten body =>
    compileIteration compileBody available id total iterator output isParallel parallelNums mode
      flatten body
  | .loopEnd => do
    require (container.any Container.isLoop)
      (.invalidField "Exit Loop belongs directly in a Loop body")
    require outgoing.isEmpty
      (.unterminated s!"Exit Loop {debug id} cannot have outgoing edges")
    .ok ⟨.loopEnd, none, none, total⟩
  | .assigner items => compileAssigner container available id total items
  | .review content actions timeoutMs => do
    validateReview content actions timeoutMs available id
    requirePorts container outgoing
      ((actions.map fun action => .ofCase action.id) ++ [.ofCase reviewTimeoutPort])
      s!"Human Input {debug id} requires a successor for every action and its timeout"
    .ok ⟨.review content actions timeoutMs, some (reviewResultSchema actions), none, total⟩
  | .tool selector arguments result retry onError => do
    lowerToolSelector selector
    let input ← (valueSchema arguments available id 0).mapError (.under "arguments")
    require (schemaType input == some .object)
      (.under "arguments" (.invalidField "Tool arguments must construct an object"))
    (validateWorkflowSchema result.schema "Tool result").mapError (.under "result.schema")
    validateRetry retry "Tool" id
    checkDefaultValue result.schema onError
      s!"Tool {debug id} default value must satisfy its result schema"
    .ok ⟨.tool selector (.value arguments) (.native result) retry onError, some result.schema,
      none, total⟩
  | .agent profile task output routes onError => do
    require (validSubagentName profile)
      (.under "profile" (.invalidField "Agent selection requires a valid named profile"))
    validateAgent task output routes onError available id
    requirePorts container outgoing
      ((routes.map fun route => .ofCase route.id) ++ if onError = .failBranch then [.fail] else [])
      s!"Agent {debug id} requires a successor for every route and its fail branch"
    .ok ⟨.agent { profile, task, output, routes, onError },
      some (agentValueSchema output routes), none, total⟩
  | .branch cases => do
    checkEach (fun index _ (case : BranchCase) =>
      (validatePredicate available id 0 case.condition).mapError
        (.under s!"cases.{index}.condition")) BranchCase.id 0 [] cases
    -- A body's path may end at any port.
    requirePorts container outgoing ((cases.map fun case => .ofCase case.id) ++ [.false])
      s!"Branch {debug id} requires a successor for every case and ELSE"
    .ok ⟨.branch cases, none, none, total⟩
  | .returns outputs => do
    require container.isNone
      (.invalidField "Return ends the workflow; a body ends where its nodes do")
    require outgoing.isEmpty
      (.unterminated s!"Return node {debug id} cannot have outgoing edges")
    let (output, schema) ← returnOutput outputs available id
    .ok ⟨.returns output, none, some schema, total⟩

end Nodes

def NodeProgram.exitsChecked : NodeProgram → Bool
  | .returns _ | .branch _ | .review .. => true
  | .agent child => !child.routes.isEmpty
  | .model call => !call.classes.isEmpty
  | _ => false

structure CompileState where
  nodes : List (String × NodeProgram)
  after : String → Option SchemaMap
  returned : List Schema
  total : Nat

/-- What compiling a block leaves: its program, the variables at its completion and
the nodes counted so far; with them the analysis its nodes were checked against. -/
structure Compiled (B : Type) where
  program : BlockProgram
  completed : SchemaMap
  total : Nat
  flow : ControlFlow B
  base : SchemaMap
  after : String → Option SchemaMap

section Blocks

variable [FloatText] [Host] {B : Type} [Bdd B]

def availableBefore (scopes : ActivationScopes B) (after : String → Option SchemaMap)
    (base : SchemaMap) (id : String) : NodeDefinition → SchemaMap
  | .aggregate .. => scopes.potentialScope id after base
  | _ => scopes.scope id after base

def compileStep (compileBody : String → CompileBody) (container : Option Container)
    (nodes : List (String × NodeDefinition)) (flow : ControlFlow B) (base : SchemaMap)
    (state : CompileState) (id : String) : Except CompileError CompileState :=
  match nodes.lookup id with
  | none => .error (.under s!"nodes.{id}" (.invalidField "topological node exists"))
  | some node => do
    let available := availableBefore flow.scopes state.after base id node
    let compiled ← (compileNode (compileBody id) container flow.scopes (flow.outgoing id) base
      available id state.total node).mapError (.under s!"nodes.{id}")
    require (compiled.program.exitsChecked || container.isSome || hasEdge (flow.outgoing id) .next)
      (.under s!"nodes.{id}" (.unterminated
        s!"node {debug id} requires a successor on its success (next) exit"))
    .ok
      { nodes := Assoc.insert id compiled.program state.nodes
        after := Function.update state.after id
          (some (compiled.declared.elim available (available.withPrefix id)))
        returned := state.returned ++ compiled.returned.toList
        total := compiled.total }

def compileBody (compile : WorkflowBlock → List String → Nat → Option Container →
      Except CompileError (Compiled B)) (path : List String) (owner : String) : CompileBody :=
  fun body container total => do
    require (isEmptyObjectSchema body.input) (.under "body"
      (.invalidField "a body declares no input; it reads the variables around it"))
    let compiled ← (compile body (path ++ [owner, "body"]) total (some container)).mapError
      (.under "body")
    .ok (compiled.program, compiled.completed, compiled.total)

def tooDeep : CompileError :=
  .invalidField "aggregate block depth/node bound exceeded"

/-- `compile_block`. The levels left never run out before the depth bound does. -/
def compileBlock (B : Type) [Bdd B] : Nat → WorkflowBlock → List String → Nat →
    Option Container → Except CompileError (Compiled B)
  | 0, _, _, _, _ => .error tooDeep
  | levels + 1, definition, path, counted, container => do
    -- The nodes are a map, read in the order of its keys.
    require (decide ((definition.nodes.map Prod.fst).Pairwise (· < ·)))
      (.invalidField "duplicate map key")
    let total := counted + definition.nodes.length
    require (decide (path.length / 2 ≤ maxBlockDepth) && decide (total ≤ maxWorkflowNodes)) tooDeep
    (validateRootSchema definition.input "input").mapError (.under "input")
    let base := container.elim (SchemaMap.fromSchema definition.input) Container.base
    -- A body's ids never hide a variable in scope around it.
    forM definition.nodes fun (id, _) => require (base id).isNone (.under s!"nodes.{id}"
      (.invalidField s!"node id {debug id} is already used around this body"))
    let flow ← controlFlow definition
    checkWriters flow.scopes (writersOf definition.nodes)
    checkReaders flow.scopes definition.nodes
    let state ← flow.topological.foldlM
      (compileStep (compileBody (compileBlock B levels) path) container definition.nodes flow base)
      { nodes := [], after := fun _ => none, returned := [], total }
    require (container.isSome || state.nodes.any fun node => node.2.isReturn)
      (.unterminated "every workflow must contain a reachable Return node")
    let outputSchema ← mergeReturnSchemas state.returned
    .ok
      { program :=
          { path, inputSchema := definition.input, outputSchema, entry := flow.entry
            nodes := state.nodes, outgoing := flow.outgoing }
        completed := flow.scopes.completionScope (ActivationScopes.declared state.after) base
        total := state.total
        flow, base, after := state.after }

end Blocks

end RustX
