import RustX.Workflow.Activation
import RustX.Workflow.Compile

/-!
What a compiled block guarantees: every node was checked in the scope the finished
analysis gives it, and its program keeps the exits of its definition.
-/
namespace RustX

open Checked Schema PortGraph ActivationScopes List Except

section Exits

variable [FloatText] {available : SchemaMap} {id : String}

theorem validateAgent_distinct
    (accepted : validateAgent task output routes onError available id = .ok ()) :
    (routes.map AgentRoute.id).Nodup := by
  simp only [validateAgent, bind_eq_ok_iff] at accepted
  obtain ⟨_, -, _, -, _, -, _, -, _, each, -⟩ := accepted
  refine (checkEach_distinct ?_ each).1
  intro index seen route checked
  simp only [bind_eq_ok_iff, require_eq_ok_iff, Bool.and_eq_true] at checked
  obtain ⟨_, ⟨-, fresh⟩, -⟩ := checked
  simpa using fresh

theorem validateReview_distinct
    (accepted : validateReview content actions timeoutMs available id = .ok ()) :
    (actions.map ReviewAction.id ++ [reviewTimeoutPort]).Nodup := by
  simp only [validateReview, bind_eq_ok_iff] at accepted
  obtain ⟨_, -, _, -, _, -, _, -, _, each, -⟩ := accepted
  rw [nodup_append]
  refine ⟨(checkEach_distinct ?_ each).1, by simp, ?_⟩
  · intro index seen action checked
    simp only [bind_eq_ok_iff, require_eq_ok_iff, Bool.and_eq_true] at checked
    obtain ⟨_, ⟨-, fresh⟩, -⟩ := checked
    simpa using fresh
  · intro name member timeout only
    obtain ⟨action, listed, rfl⟩ := mem_map.mp member
    obtain ⟨index, seen, checked⟩ := checkEach_each each listed
    simp only [bind_eq_ok_iff, require_eq_ok_iff, Bool.and_eq_true] at checked
    obtain ⟨_, ⟨⟨-, named⟩, -⟩, -⟩ := checked
    rw [mem_singleton.mp only]
    simpa using named

variable [Host]

theorem classifier_accepted
    (accepted : classifier model input instruction classes available id = .ok call) :
    (classes.map ClassifierClass.id).Nodup ∧ classes ≠ [] ∧ call.classes = classes ∧
      call.onError = .stop := by
  simp only [classifier, bind_eq_ok_iff, require_eq_ok_iff] at accepted
  obtain ⟨_, -, _, -, _, -, _, -, _, some, _, each, _, -, _, -, _, -, same⟩ := accepted
  obtain rfl := ok.inj same
  refine ⟨(checkEach_distinct ?_ each).1, ?_, rfl, rfl⟩
  · intro index seen item checked
    simp only [bind_eq_ok_iff, require_eq_ok_iff, Bool.and_eq_true] at checked
    obtain ⟨_, -, _, -, ⟨⟨⟨⟨-, fresh⟩, -⟩, -⟩, -⟩⟩ := checked
    simpa using fresh
  · rintro rfl
    simp at some

end Exits

/-- What the executor may rely on about one compiled node. -/
structure CompiledNode.Keeps (result : CompiledNode) (node : NodeDefinition) : Prop where
  exits : result.program.exits = node.exits
  declared : result.declared = result.program.valueSchema
  failBranch : result.program.failBranch = node.failBranch
  returned : result.returned.isSome = result.program.isReturn
  assigned : result.program.assigned = (node.assignments.getD []).map Assignment.var

section Nodes

variable [FloatText] [Host] {B : Type} [Bdd B] {body : CompileBody} {container : Option Container}
  {scopes : ActivationScopes B} {outgoing : List EdgeProgram} {base available : SchemaMap}
  {id : String} {total : Nat} {node : NodeDefinition} {result : CompiledNode}

/-- Every kind of node keeps its exits and declares the schema of its value. -/
theorem compileNode_keeps
    (accepted : compileNode body container scopes outgoing base available id total node =
      .ok result) : result.Keeps node := by
  cases node with
  | start =>
    obtain rfl := ok.inj accepted
    exact ⟨rfl, rfl, rfl, rfl, rfl⟩
  | template | loopEnd | review | branch =>
    simp only [compileNode, bind_eq_ok_iff, ok.injEq] at accepted
    obtain ⟨_, -, _, -, rfl⟩ := accepted
    exact ⟨rfl, rfl, rfl, rfl, rfl⟩
  | list | aggregate | agent =>
    simp only [compileNode, bind_eq_ok_iff, ok.injEq] at accepted
    obtain ⟨_, -, _, -, _, -, rfl⟩ := accepted
    exact ⟨rfl, rfl, rfl, rfl, rfl⟩
  | classifier model input instruction classes =>
    simp only [compileNode, bind_eq_ok_iff, ok.injEq] at accepted
    obtain ⟨call, called, _, -, rfl⟩ := accepted
    obtain ⟨-, some, rfl, stops⟩ := classifier_accepted called
    have nonempty : call.classes.isEmpty = false := by simpa using some
    refine ⟨?_, ?_, ?_, rfl, rfl⟩
    · simp [NodeProgram.exits, NodeDefinition.exits, nonempty]
    · simp [NodeProgram.valueSchema, nonempty]
    · simp [NodeProgram.failBranch, NodeDefinition.failBranch, stops]
  | code language vars code outputs retry onError =>
    simp only [compileNode, bind_eq_ok_iff, ok.injEq] at accepted
    obtain ⟨_, -, schema, -, _, -, _, -, _, -, rfl⟩ := accepted
    exact ⟨rfl, rfl, rfl, rfl, rfl⟩
  | model model messages output retry onError =>
    simp only [compileNode, bind_eq_ok_iff, ok.injEq] at accepted
    obtain ⟨_, -, _, -, _, -, rfl⟩ := accepted
    exact ⟨by simp [NodeProgram.exits, NodeDefinition.exits, NodeDefinition.failBranch], rfl, rfl,
      rfl, rfl⟩
  | loop vars breakCondition loopCount block =>
    simp only [compileNode, compileLoop, bind_eq_ok_iff, ok.injEq] at accepted
    obtain ⟨_, -, _, -, ⟨_, _, _⟩, -, _, -, rfl⟩ := accepted
    exact ⟨rfl, rfl, rfl, rfl, rfl⟩
  | iteration iterator output isParallel parallelNums mode flatten block =>
    simp only [compileNode, compileIteration, bind_eq_ok_iff] at accepted
    obtain ⟨_, -, _, -, accepted⟩ := accepted
    split at accepted
    · cases accepted
    · simp only [bind_eq_ok_iff, ok.injEq] at accepted
      obtain ⟨_, -, _, -, _, -, ⟨_, _, _⟩, -, _, -, rfl⟩ := accepted
      exact ⟨rfl, rfl, rfl, rfl, rfl⟩
  | assigner items =>
    simp only [compileNode, compileAssigner] at accepted
    split at accepted
    · simp only [bind_eq_ok_iff, ok.injEq] at accepted
      obtain ⟨_, -, types, -, rfl⟩ := accepted
      exact ⟨rfl, rfl, rfl, rfl, rfl⟩
    · cases accepted
  | tool selector arguments outcome retry onError =>
    simp only [compileNode, bind_eq_ok_iff, ok.injEq] at accepted
    obtain ⟨_, -, _, -, _, -, _, -, _, -, _, -, rfl⟩ := accepted
    exact ⟨rfl, rfl, rfl, rfl, rfl⟩
  | returns outputs =>
    simp only [compileNode, bind_eq_ok_iff, ok.injEq] at accepted
    obtain ⟨_, -, _, -, ⟨output, schema⟩, -, rfl⟩ := accepted
    exact ⟨rfl, rfl, rfl, rfl, rfl⟩

/-- The identities of a node's exits are distinct; those of a Branch are checked
with the control flow. -/
theorem compileNode_exitIds
    (accepted : compileNode body container scopes outgoing base available id total node =
      .ok result) (branches : ∀ cases, node = .branch cases → (cases.map BranchCase.id).Nodup) :
    node.exitIds.Nodup := by
  cases node with
  | classifier model input instruction classes =>
    simp only [compileNode, bind_eq_ok_iff] at accepted
    obtain ⟨call, called, -⟩ := accepted
    exact (classifier_accepted called).1
  | branch cases => exact branches cases rfl
  | review content actions timeoutMs =>
    simp only [compileNode, bind_eq_ok_iff] at accepted
    obtain ⟨_, reviewed, -⟩ := accepted
    exact validateReview_distinct reviewed
  | agent profile task output routes onError =>
    simp only [compileNode, bind_eq_ok_iff] at accepted
    obtain ⟨_, -, _, validated, -⟩ := accepted
    exact validateAgent_distinct validated
  | _ => exact nodup_nil

omit [FloatText] [Host] in
/-- Where the compiler checked every exit on its own, there is no next port. -/
theorem NodeProgram.next_not_mem_exits {program : NodeProgram}
    (checked : program.exitsChecked = true) (continues : program.isReturn = false) :
    .next ∉ program.exits := by
  have apart : ∀ id, WorkflowPort.next ≠ .ofCase id := fun id =>
    (WorkflowPort.ofCase_ne_next id).symm
  cases program <;>
    simp_all [NodeProgram.exitsChecked, NodeProgram.isReturn, NodeProgram.exits]

/-- In a root block every exit of a node leads somewhere, except from a Return. -/
theorem compileNode_complete
    (accepted : compileNode body none scopes outgoing base available id total node = .ok result)
    (success : result.program.exitsChecked = true ∨ hasEdge outgoing .next = true)
    (fails : node.failBranch = true → hasEdge outgoing .fail = true)
    (continues : result.program.isReturn = false) :
    ∀ port ∈ node.exits, hasEdge outgoing port = true := by
  have ordinary : node.exits = .next :: (if node.failBranch then [.fail] else []) →
      ∀ port ∈ node.exits, hasEdge outgoing port = true := by
    intro exits port member
    have keeps := (compileNode_keeps accepted).exits
    rw [exits, mem_cons] at member
    rcases member with rfl | failed
    · refine success.resolve_left fun checked =>
        NodeProgram.next_not_mem_exits checked continues ?_
      simp [keeps, exits]
    · split at failed
      · rename_i failing
        obtain rfl : port = .fail := by simpa using failed
        exact fails failing
      · cases failed
  cases node with
  | classifier model input instruction classes =>
    simp only [compileNode, bind_eq_ok_iff, requirePorts, require_eq_ok_iff] at accepted
    obtain ⟨call, called, _, ports, -⟩ := accepted
    simpa [NodeDefinition.exits] using ports
  | branch | review =>
    simp only [compileNode, bind_eq_ok_iff, requirePorts, require_eq_ok_iff] at accepted
    obtain ⟨_, -, _, ports, -⟩ := accepted
    simpa [NodeDefinition.exits, or_imp, forall_and] using ports
  | agent profile task output routes onError =>
    simp only [compileNode, bind_eq_ok_iff, requirePorts, require_eq_ok_iff] at accepted
    obtain ⟨_, -, _, -, _, ports, same⟩ := accepted
    obtain rfl := ok.inj same
    have all : ∀ port ∈ (routes.map fun route => WorkflowPort.ofCase route.id) ++
        (if onError = .failBranch then [.fail] else []), hasEdge outgoing port = true := by
      exact all_eq_true.mp (by simpa only [Option.isSome_none, Bool.false_or] using ports)
    intro port member
    simp only [NodeDefinition.exits, mem_append] at member
    rcases member with route | failed
    · split at route
      · rename_i empty
        obtain rfl : port = .next := by simpa using route
        exact success.resolve_left (by simp [NodeProgram.exitsChecked, empty])
      · exact all port (mem_append_left _ route)
    · exact all port (mem_append_right _ failed)
  | returns outputs =>
    simp only [compileNode, bind_eq_ok_iff] at accepted
    obtain ⟨_, -, _, -, ⟨output, schema⟩, -, same⟩ := accepted
    obtain rfl := ok.inj same
    simp [NodeProgram.isReturn] at continues
  | _ => exact ordinary rfl

end Nodes

section Blocks

variable {B : Type} [Bdd B]

/-- A scope depends on what the ancestors of the node declared only. -/
theorem availableBefore_congr {scopes : ActivationScopes B} {id : String}
    (agree : ∀ ancestor ∈ scopes.ancestors id, left ancestor = right ancestor) :
    availableBefore scopes left base id node = availableBefore scopes right base id node := by
  have declared : ∀ producer, (scopes.ancestors id).contains producer = true →
      declared left producer = declared right producer := by
    intro producer member
    rw [declared, declared, agree producer (by simpa using member)]
  have scope : scopes.scope id left base = scopes.scope id right base := by
    funext producer
    have provision : scopes.provision id left producer = scopes.provision id right producer := by
      unfold provision
      split
      · rename_i condition
        rw [declared producer (Bool.and_eq_true _ _ ▸ condition).1]
      · rfl
    rw [scope, scope, provision]
  have potential : scopes.potentialScope id left base = scopes.potentialScope id right base := by
    funext producer
    unfold potentialScope
    split
    · rename_i member
      rw [declared producer member]
    · rfl
  cases node <;> first | exact scope | exact potential

variable {flow : ControlFlow B}

/-- What compiles between two nodes of a path comes earlier in the order. -/
theorem ControlFlow.Sound.before (sound : flow.Sound definition)
    (path : Relation.TransGen (ActivationScopes.Leads flow.outgoing) ancestor node) :
    ∀ before after, flow.topological = before ++ node :: after → ancestor ∈ before := by
  induction path with
  | single leads =>
    intro before after split
    obtain ⟨edge, leaves, target⟩ := leads
    exact sound.sorted before _ after split _ (sound.source_known leaves) edge leaves target
  | tail _ leads ih =>
    intro before after split
    obtain ⟨edge, leaves, target⟩ := leads
    have earlier := sound.sorted before _ after split _ (sound.source_known leaves) edge leaves
      target
    obtain ⟨first, second, rfl⟩ := append_of_mem earlier
    exact mem_append_left _ (ih first _ (by simpa using split))

variable [FloatText] [Host]

structure CompiledAt (compileBody : String → CompileBody) (container : Option Container)
    (flow : ControlFlow B) (base : SchemaMap) (after : String → Option SchemaMap)
    (program : List (String × NodeProgram)) (id : String) (node : NodeDefinition)
    (available : SchemaMap) (total : Nat) (result : CompiledNode) : Prop where
  accepted : compileNode (compileBody id) container flow.scopes (flow.outgoing id) base available id
    total node = .ok result
  success : (result.program.exitsChecked || container.isSome || hasEdge (flow.outgoing id) .next) =
    true
  listed : program.lookup id = some result.program
  after_eq : after id = some (result.declared.elim available (available.withPrefix id))

theorem compileStep_spec {next} {compileBody : String → CompileBody}
    {id : String} (ran : compileStep compileBody container nodes flow base state id = .ok next) :
    ∃ node result, nodes.lookup id = some node ∧
      CompiledAt compileBody container flow base next.after next.nodes id node
        (availableBefore flow.scopes state.after base id node) state.total result ∧
      ∀ other ≠ id, next.after other = state.after other ∧
        next.nodes.lookup other = state.nodes.lookup other := by
  unfold compileStep at ran
  split at ran
  · cases ran
  rename_i node found
  simp only [bind_eq_ok_iff, mapError_eq_ok_iff, require_eq_ok_iff] at ran
  obtain ⟨result, compiled, _, success, same⟩ := ran
  obtain rfl := ok.inj same
  refine ⟨node, result, found, ⟨compiled, success, Assoc.lookup_insert_self .., ?_⟩,
    fun other differs => ⟨?_, Assoc.lookup_insert_of_ne differs ..⟩⟩
  · exact Function.update_self ..
  · exact Function.update_of_ne differs ..

/-- Each node is compiled against what the nodes before it left, and keeps it. -/
theorem compileSteps_spec {compileBody : String → CompileBody}
    {order : List String} (distinct : order.Nodup)
    (ran : order.foldlM (compileStep compileBody container nodes flow base) state = .ok final) :
    (∀ id ∉ order, final.after id = state.after id ∧
      final.nodes.lookup id = state.nodes.lookup id) ∧
    ∀ before id later, order = before ++ id :: later → ∃ node after total result,
      nodes.lookup id = some node ∧ (∀ other ∉ id :: later, after other = final.after other) ∧
      CompiledAt compileBody container flow base final.after final.nodes id node
        (availableBefore flow.scopes after base id node) total result := by
  induction order generalizing state with
  | nil =>
    obtain rfl := ok.inj ran
    refine ⟨fun _ _ => ⟨rfl, rfl⟩, fun before id later split => ?_⟩
    simp at split
  | cons first order ih =>
    obtain ⟨fresh, distinct⟩ := nodup_cons.mp distinct
    rw [foldlM_cons, bind_eq_ok_iff] at ran
    obtain ⟨next, step, rest⟩ := ran
    obtain ⟨kept, later⟩ := ih distinct rest
    obtain ⟨node, result, found, compiled, others⟩ := compileStep_spec step
    have unchanged : ∀ id ∉ first :: order, final.after id = state.after id ∧
        final.nodes.lookup id = state.nodes.lookup id := by
      intro id absent
      obtain ⟨differs, absent⟩ : id ≠ first ∧ id ∉ order := by simpa using absent
      exact ⟨(kept id absent).1.trans (others id differs).1,
        (kept id absent).2.trans (others id differs).2⟩
    refine ⟨unchanged, fun before id tail split => ?_⟩
    cases before with
    | nil =>
      obtain ⟨rfl, rfl⟩ := List.cons.inj split
      refine ⟨node, state.after, state.total, result, found,
        fun other absent => (unchanged other absent).1.symm, ?_⟩
      exact ⟨compiled.accepted, compiled.success,
        (kept first fresh).2.trans compiled.listed, (kept first fresh).1.trans compiled.after_eq⟩
    | cons head before =>
      obtain ⟨rfl, rfl⟩ := List.cons.inj split
      exact later before id tail rfl

theorem compileSteps_distinct {compileBody : String → CompileBody}
    {order : List String} {state : CompileState} (distinct : (state.nodes.map Prod.fst).Nodup)
    (ran : order.foldlM (compileStep compileBody container nodes flow base) state = .ok final) :
    (final.nodes.map Prod.fst).Nodup := by
  induction order generalizing state with
  | nil =>
    obtain rfl := ok.inj ran
    exact distinct
  | cons id order ih =>
    rw [foldlM_cons, bind_eq_ok_iff] at ran
    obtain ⟨next, step, rest⟩ := ran
    refine ih ?_ rest
    unfold compileStep at step
    split at step
    · cases step
    · simp only [bind_eq_ok_iff] at step
      obtain ⟨result, -, _, -, same⟩ := step
      obtain rfl := ok.inj same
      exact Assoc.nodup_keys_insert distinct ..

structure Compiled.Sound (levels : Nat) (definition : WorkflowBlock) (container : Option Container)
    (compiled : Compiled B) : Prop where
  flow : compiled.flow.Sound definition
  entry : compiled.program.entry = compiled.flow.entry
  outgoing : compiled.program.outgoing = compiled.flow.outgoing
  base : compiled.base = container.elim (SchemaMap.fromSchema definition.input) Container.base
  completed : compiled.completed = compiled.flow.scopes.completionScope
    (declared compiled.after) compiled.base
  free : ∀ id ∈ definition.nodes.map Prod.fst, compiled.base id = none
  writers : checkWriters compiled.flow.scopes (writersOf definition.nodes) = .ok ()
  readers : checkReaders compiled.flow.scopes definition.nodes = .ok ()
  nodes : ∀ id node, definition.nodes.lookup id = some node → ∃ total result,
    CompiledAt (compileBody (compileBlock B levels) compiled.program.path) container compiled.flow
      compiled.base compiled.after compiled.program.nodes id node
      (availableBefore compiled.flow.scopes compiled.after compiled.base id node) total result
  known : ∀ id, (compiled.program.nodes.lookup id).isSome = true ↔
    id ∈ definition.nodes.map Prod.fst
  distinct : (compiled.program.nodes.map Prod.fst).Nodup
  undeclared : ∀ id ∉ definition.nodes.map Prod.fst, compiled.after id = none

theorem compileBlock_sound {levels : Nat} {counted : Nat}
    (accepted : compileBlock B (levels + 1) definition path counted container = .ok compiled) :
    compiled.Sound levels definition container := by
  simp only [compileBlock, bind_eq_ok_iff, require_eq_ok_iff, mapError_eq_ok_iff, forM_eq_ok_iff,
    decide_eq_true_eq] at accepted
  obtain ⟨_, increasing, _, -, _, -, _, free, flow, flowed, _, writers, _, readers, state, ran, _,
    -, outputSchema, -, same⟩ := accepted
  obtain rfl := ok.inj same
  have distinct : (definition.nodes.map Prod.fst).Nodup := by
    refine List.Pairwise.imp ?_ increasing
    rintro left _ less rfl
    exact String.lt_irrefl left less
  have sound := controlFlow_sound distinct flowed
  obtain ⟨kept, compiledAt⟩ := compileSteps_spec sound.order_distinct ran
  refine ⟨sound, rfl, rfl, rfl, rfl, ?_, writers, readers, ?_, ?_,
    compileSteps_distinct (by simp) ran, ?_⟩
  · intro id member
    obtain ⟨entry, listed, rfl⟩ := mem_map.mp member
    simpa using free entry listed
  · intro id node found
    have member := (sound.order_mem id).mpr (Assoc.mem_keys_of_lookup found)
    obtain ⟨before, later, split⟩ := append_of_mem member
    obtain ⟨other, after, total, result, listed, agree, compiled⟩ := compiledAt before id later split
    obtain rfl : other = node := by
      rw [found] at listed
      exact (Option.some.inj listed).symm
    -- The ancestors were compiled before the node, so their declarations are final.
    have scope : ∀ base, availableBefore flow.scopes after base id other =
        availableBefore flow.scopes state.after base id other := by
      intro base
      refine availableBefore_congr fun ancestor listed => agree ancestor fun late => ?_
      have early := sound.before (sound.ancestorsLead id ancestor listed) before later split
      have order := split ▸ sound.order_distinct
      exact (nodup_append.mp order).2.2 ancestor early ancestor late rfl
    exact ⟨total, result, scope _ ▸ compiled⟩
  · intro id
    rw [← sound.order_mem]
    by_cases member : id ∈ flow.topological
    · obtain ⟨before, later, split⟩ := append_of_mem member
      obtain ⟨node, after, total, result, -, -, compiled⟩ := compiledAt before id later split
      simp [member, compiled.listed]
    · simp [member, (kept id member).2]
  · intro id absent
    exact (kept id fun member => absent ((sound.order_mem id).mp member)).1

namespace Compiled.Sound

variable {levels : Nat} {definition : WorkflowBlock} {container : Option Container}
  {compiled : Compiled B}

section

variable (sound : compiled.Sound levels definition container)
include sound

theorem exitIds : ∀ entry ∈ definition.nodes, entry.2.exitIds.Nodup := by
  rintro ⟨id, node⟩ member
  obtain ⟨total, result, at_⟩ := sound.nodes id node (Assoc.lookup_of_mem sound.flow.distinct member)
  refine compileNode_exitIds at_.accepted ?_
  rintro cases rfl
  exact sound.flow.cases_distinct id cases member

theorem means :
    compiled.flow.scopes.Means definition.nodes compiled.flow.entry compiled.flow.outgoing
      fun valuation id => blockDecision valuation 0 definition.nodes id :=
  sound.flow.means sound.exitIds

theorem node {id : String} {program : NodeProgram}
    (found : compiled.program.nodes.lookup id = some program) :
    ∃ node total result, definition.nodes.lookup id = some node ∧ result.program = program ∧
      CompiledAt (compileBody (compileBlock B levels) compiled.program.path) container compiled.flow
        compiled.base compiled.after compiled.program.nodes id node
        (availableBefore compiled.flow.scopes compiled.after compiled.base id node) total result ∧
      result.Keeps node := by
  have member := (sound.known id).mp (by rw [found]; rfl)
  obtain ⟨node, listed⟩ := Option.isSome_iff_exists.mp (Assoc.lookup_isSome_iff.mpr member)
  obtain ⟨total, result, at_⟩ := sound.nodes id node listed
  have same := at_.listed.symm.trans found
  exact ⟨node, total, result, listed, Option.some.inj same, at_, compileNode_keeps at_.accepted⟩

theorem mem_nodes {id : String} :
    id ∈ compiled.program.nodes.map Prod.fst ↔ id ∈ definition.nodes.map Prod.fst := by
  rw [← Assoc.lookup_isSome_iff, sound.known]

end

/-- The acyclic graph that the executor runs over. -/
def graph (sound : compiled.Sound levels definition container) : PortGraph.Graph String WorkflowPort where
  nodes := compiled.program.nodes.map Prod.fst
  entry := compiled.program.entry
  outgoing := compiled.program.outgoing
  rank := sound.flow.graph.rank
  distinct := sound.distinct
  entry_mem := by
    rw [sound.mem_nodes, sound.entry]
    exact sound.flow.graph.entry_mem
  closed source known edge member := by
    rw [sound.outgoing] at member
    exact sound.mem_nodes.mpr (sound.flow.graph.closed source (sound.mem_nodes.mp known) edge member)
  rises source known edge member := by
    rw [sound.outgoing] at member
    exact sound.flow.graph.rises source (sound.mem_nodes.mp known) edge member
  entered id known other := by
    rw [sound.entry] at other
    obtain ⟨source, listed, edge, leaves, target⟩ :=
      sound.flow.graph.entered id (sound.mem_nodes.mp known) other
    refine ⟨source, sound.mem_nodes.mpr listed, edge, ?_, target⟩
    rw [sound.outgoing]
    exact leaves
  unentered source known edge member := by
    rw [sound.outgoing] at member
    rw [sound.entry]
    exact sound.flow.graph.unentered source (sound.mem_nodes.mp known) edge member

theorem not_ancestor_self (sound : compiled.Sound levels definition container) (id : String) :
    id ∉ compiled.flow.scopes.ancestors id := by
  intro member
  have path := sound.flow.ancestorsLead id id member
  obtain ⟨source, -, edge, leaves, target⟩ := Relation.TransGen.tail'_iff.mp path
  obtain ⟨_, -, -, known⟩ := sound.flow.edges source edge leaves
  obtain ⟨before, later, split⟩ := append_of_mem ((sound.flow.order_mem _).mpr known)
  rw [target] at split
  have early := sound.flow.before path before later split
  exact (nodup_append.mp (split ▸ sound.flow.order_distinct)).2.2 id early id (by simp) rfl

/-- What a node is recorded to declare is the schema of its value. -/
theorem declared_eq (sound : compiled.Sound levels definition container) {id : String}
    {program : NodeProgram} (found : compiled.program.nodes.lookup id = some program) :
    declared compiled.after id = program.valueSchema := by
  obtain ⟨node, total, result, listed, rfl, at_, keeps⟩ := sound.node found
  rw [declared, at_.after_eq, ← keeps.declared, Option.bind_some]
  cases declares : result.declared with
  | some schema => exact Function.update_self ..
  | none =>
    have own := sound.not_ancestor_self id
    have free := sound.free id (Assoc.mem_keys_of_lookup listed)
    have unscoped : compiled.flow.scopes.scope id compiled.after compiled.base id = none := by
      simp [scope, provision, own, free]
    have unlisted : compiled.flow.scopes.potentialScope id compiled.after compiled.base id =
        none := by
      simp [potentialScope, own, free]
    cases node <;> first | exact unscoped | exact unlisted

/-- In a root block every exit leads somewhere, except from a Return. -/
theorem complete (sound : compiled.Sound levels definition none) {id : String}
    {program : NodeProgram} (found : compiled.program.nodes.lookup id = some program)
    (continues : program.isReturn = false) (member : port ∈ program.exits) :
    ∃ edge ∈ compiled.program.outgoing id, edge.port = port := by
  obtain ⟨node, total, result, listed, rfl, at_, keeps⟩ := sound.node found
  have success := at_.success
  simp only [Option.isSome_none, Bool.or_false, Bool.or_eq_true] at success
  have fails : node.failBranch = true → hasEdge (compiled.flow.outgoing id) .fail = true := by
    intro failing
    simpa [hasEdge] using sound.flow.fails id node (Assoc.mem_of_lookup listed) failing
  have edges := compileNode_complete at_.accepted success fails continues port (keeps.exits ▸ member)
  rw [sound.outgoing]
  simpa [hasEdge] using edges

end Compiled.Sound

end Blocks

end RustX
