import RustX.Library.Topological
import RustX.Workflow.Flow

/-!
The control flow of a block: its entry, the ports of its edges, a topological
order, and the activation analysis over them.
-/
namespace RustX

open Function Checked PortGraph NodeDefinition List Prod

def validLocalKey (key : String) : Bool :=
  !key.isEmpty && decide (key.utf8ByteSize ≤ 64) &&
    key.toList.all fun c => c.isAlphanum || c == '_' || c == '-'

/-- Ports a case, route, class or action cannot be named after. -/
def isReservedPort (id : String) : Bool :=
  id == "false" || id == "next" || id == "fail"

/-- Check items in turn; each check sees its position and the ids before it. -/
def checkEach {α : Type} (check : Nat → List String → α → Except CompileError Unit)
    (id : α → String) : Nat → List String → List α → Except CompileError Unit
  | _, _, [] => .ok ()
  | index, seen, item :: items => do
    check index seen item
    checkEach check id (index + 1) (seen ++ [id item]) items

def NodeDefinition.exits : NodeDefinition → List WorkflowPort
  | .classifier _ _ _ classes => classes.map fun item => .ofCase item.id
  | .branch cases => (cases.map fun case => .ofCase case.id) ++ [.false]
  | .review _ actions _ => (actions.map fun action => .ofCase action.id) ++ [.ofCase reviewTimeoutPort]
  | .agent _ _ _ routes onError =>
    (if routes.isEmpty then [.next] else routes.map fun route => .ofCase route.id) ++
      if onError = .failBranch then [.fail] else []
  | node => .next :: if node.failBranch then [.fail] else []

def resolvePort (node : NodeDefinition) (source : String) (port : Option WorkflowPort) :
    Except CompileError WorkflowPort :=
  match node, port with
  | .classifier _ _ _ classes, some port =>
    if classes.any fun item => .ofCase item.id == port then .ok port
    else .error (.invalidBranch "Classifier edge must name a class ID")
  | .classifier .., none => .error (.invalidBranch "Classifier edge must name a class ID")
  | .branch cases, some port =>
    if port == .false || cases.any fun case => .ofCase case.id == port then .ok port
    else .error (.invalidBranch
      s!"Branch node {debug source} must use an authored case ID or false (ELSE)")
  | .branch _, none => .error (.invalidBranch
      s!"Branch node {debug source} must use an authored case ID or false (ELSE)")
  | .review _ actions _, some port =>
    if port == .ofCase reviewTimeoutPort || actions.any fun action => .ofCase action.id == port then
      .ok port
    else .error (.invalidBranch
      s!"Human Input node {debug source} must use one of its action IDs or timeout")
  | .review .., none => .error (.invalidBranch
      s!"Human Input node {debug source} must use one of its action IDs or timeout")
  | .agent _ _ _ routes onError, port =>
    if onError = .failBranch ∧ port = some .fail then .ok .fail
    else
      match routes, port with
      | [], none => .ok .next
      | [], some port => .error (.invalidField
          s!"ordinary node {debug source} cannot have port {port.debug}")
      | route :: routes, some port =>
        if (route :: routes).any fun route => .ofCase route.id == port then .ok port
        else .error (.invalidBranch
          s!"routed Agent node {debug source} must use one of its route IDs")
      | _ :: _, none => .error (.invalidBranch
          s!"routed Agent node {debug source} must use one of its route IDs")
  | node, some port =>
    if node.failBranch && port == .fail then .ok .fail
    else .error (.invalidField s!"ordinary node {debug source} cannot have port {port.debug}")
  | _, none => .ok .next

/-- The edges accepted so far, by source, and how many lead to each node. -/
structure EdgeTable where
  outgoing : String → List EdgeProgram
  incoming : String → Nat

def addEdge (nodes : List (String × NodeDefinition)) (index : Nat) (table : EdgeTable)
    (edge : EdgeDefinition) : Except CompileError EdgeTable :=
  match nodes.lookup edge.source with
  | none => .error (.under s!"edges.{index}.from"
      (.danglingReference s!"edge source {debug edge.source} is not a workflow node"))
  | some node => do
    require (nodes.lookup edge.target).isSome (.under s!"edges.{index}.to"
      (.danglingReference s!"edge destination {debug edge.target} is not a workflow node"))
    let port ← (resolvePort node edge.source edge.port).mapError (.under s!"edges.{index}.port")
    -- Validated in authored order, before the runtime edges are sorted.
    require (!(table.outgoing edge.source).contains ⟨edge.target, port⟩)
      (.under s!"edges.{index}.port"
        (.invalidBranch s!"node {debug edge.source} already has this {port.debug} connection"))
    .ok
      { outgoing := update table.outgoing edge.source
          (table.outgoing edge.source ++ [⟨edge.target, port⟩])
        incoming := update table.incoming edge.target (table.incoming edge.target + 1) }

def addEdges (nodes : List (String × NodeDefinition)) :
    Nat → EdgeTable → List EdgeDefinition → Except CompileError EdgeTable
  | _, table, [] => .ok table
  | index, table, edge :: edges => do
    let table ← addEdge nodes index table edge
    addEdges nodes (index + 1) table edges

def edgeLe (left right : EdgeProgram) : Prop :=
  left.port.before right.port ∨ (left.port = right.port ∧ left.target ≤ right.target)

instance : DecidableRel edgeLe := fun _ _ => inferInstanceAs (Decidable (_ ∨ _))

def topologicalOrder (nodes : List String) (outgoing : String → List EdgeProgram)
    (incoming : String → Nat) : Except CompileError (List String) :=
  match kahn outgoing nodes.length (nodes.filter fun node => incoming node = 0) incoming [] with
  | none => .error (.cycle "")
  | some (order, counts) =>
    if order.length = nodes.length then .ok order
    else
      let node := (nodes.find? fun node => decide (0 < counts node)).getD ""
      .error (.under s!"nodes.{node}" (.cycle node))

def reachableNodes (nodes : List String) (entry : String) (outgoing : String → List EdgeProgram) :
    List String :=
  (visit outgoing ((nodes.flatMap outgoing).length + 1) [entry] []).getD []

structure ControlFlow (B : Type) where
  entry : String
  scopes : ActivationScopes B
  outgoing : String → List EdgeProgram
  topological : List String

def NodeDefinition.isStart : NodeDefinition → Bool
  | .start => true
  | _ => false

def findEntry (nodes : List (String × NodeDefinition)) : Except CompileError String :=
  match nodes.filter fun node => node.2.isStart with
  | [(entry, _)] => .ok entry
  | _ => .error (.under "nodes" (.invalidEntry "block must contain exactly one Start node"))

def checkNodeId (id : String) : Except CompileError Unit :=
  require (id != "args" && validLocalKey id) (.under s!"nodes.{id}" (.invalidField
    s!"workflow node id {debug id} must be non-empty, at most 64 bytes, and contain no dots"))

def checkBranch (id : String) : NodeDefinition → Except CompileError Unit
  | .branch cases => do
    require (!cases.isEmpty && decide (cases.length ≤ 32))
      (.under s!"nodes.{id}.cases" (.invalidBranch "Branch requires 1..=32 cases"))
    checkEach (fun index seen (case : BranchCase) =>
      require (validLocalKey case.id && !isReservedPort case.id && !seen.contains case.id)
        (.under s!"nodes.{id}.cases.{index}.id" (.invalidBranch
          "case IDs must be unique valid local keys and cannot name a reserved port")))
      BranchCase.id 0 [] cases
  | _ => .ok ()

/-- A fail branch is a path of its own, so it must lead somewhere. -/
def checkFailBranch (outgoing : String → List EdgeProgram) (id : String) (node : NodeDefinition) :
    Except CompileError Unit :=
  require (!node.failBranch || (outgoing id).any fun edge => edge.port == .fail)
    (.under s!"nodes.{id}.on_error" (.invalidField
      s!"node {debug id} handles errors with a fail branch but has no fail connection"))

def controlFlow {B : Type} [Bdd B] (definition : WorkflowBlock) :
    Except CompileError (ControlFlow B) := do
  let ids := definition.nodes.map fst
  require (!definition.nodes.isEmpty && decide (definition.nodes.length ≤ maxWorkflowNodes))
    (.invalidField s!"block must contain between one and {maxWorkflowNodes} nodes")
  let entry ← findEntry definition.nodes
  forM ids checkNodeId
  forM definition.nodes fun node => checkBranch node.1 node.2
  let table ← addEdges definition.nodes 0 ⟨fun _ => [], fun _ => 0⟩ definition.edges
  let outgoing := fun id => (table.outgoing id).insertionSort edgeLe
  forM definition.nodes fun node => checkFailBranch outgoing node.1 node.2
  require (table.incoming entry == 0) (.under s!"nodes.{entry}"
    (.invalidEntry s!"entry node {debug entry} must not have an incoming edge"))
  let topological ← topologicalOrder ids outgoing table.incoming
  let reachable := reachableNodes ids entry outgoing
  forM ids fun id => require (reachable.contains id) (.under s!"nodes.{id}" (.unreachable id))
  let scopes ← ActivationScopes.new definition.nodes entry outgoing topological
  .ok { entry, scopes, outgoing, topological }

theorem resolvePort_mem_exits (resolved : resolvePort node source port = .ok result) :
    result ∈ node.exits := by
  cases node with
  | classifier | branch | review =>
    cases port with
    | none => cases resolved
    | some port =>
      simp only [resolvePort] at resolved
      split at resolved
      · rename_i allowed
        obtain rfl := Except.ok.inj resolved
        simpa [exits, or_comm] using allowed
      · cases resolved
  | agent profile task output routes onError =>
    simp only [resolvePort] at resolved
    split at resolved
    · rename_i failing
      obtain rfl := Except.ok.inj resolved
      simp [exits, failing.1]
    cases routes with
    | nil =>
      cases port with
      | none =>
        obtain rfl := Except.ok.inj resolved
        simp [exits]
      | some port => cases resolved
    | cons route routes =>
      cases port with
      | none => cases resolved
      | some port =>
        simp only at resolved
        split at resolved
        · rename_i allowed
          obtain rfl := Except.ok.inj resolved
          have listed : ∃ item ∈ route :: routes, WorkflowPort.ofCase item.id = port := by
            simpa using allowed
          exact mem_append_left _ (by simpa [eq_comm] using listed)
        · cases resolved
  | _ =>
    cases port <;> simp only [resolvePort] at resolved
    · simp_all [exits]
    · split at resolved <;> simp_all [exits]

/-- What the edges accepted so far satisfy. -/
structure EdgeTable.Valid (nodes : List (String × NodeDefinition)) (table : EdgeTable) : Prop where
  edges : ∀ id, ∀ edge ∈ table.outgoing id, ∃ node, nodes.lookup id = some node ∧
    edge.port ∈ node.exits ∧ edge.target ∈ nodes.map fst
  counted : ∀ id, table.incoming id = arrivals ((nodes.map fst).flatMap table.outgoing) id

variable {outgoing : String → List EdgeProgram}

theorem arrivals_flatMap_update {ids : List String} (distinct : ids.Nodup) (member : source ∈ ids) :
    arrivals (ids.flatMap (update outgoing source (outgoing source ++ [edge]))) target =
      arrivals (ids.flatMap outgoing) target + if edge.target = target then 1 else 0 := by
  induction ids with
  | nil => cases member
  | cons id ids ih =>
    obtain ⟨fresh, distinct⟩ := nodup_cons.mp distinct
    rw [flatMap_cons, flatMap_cons, arrivals_append, arrivals_append]
    by_cases same : source = id
    · subst same
      have others : ids.flatMap (update outgoing source (outgoing source ++ [edge])) =
          ids.flatMap outgoing := by
        refine flatMap_congr fun id listed => update_of_ne ?_ ..
        rintro rfl
        exact fresh listed
      rw [others, update_self, arrivals_append, arrivals_cons, arrivals_nil]
      omega
    · rw [ih distinct ((mem_cons.mp member).resolve_left same), update_of_ne (Ne.symm same)]
      omega

variable {nodes : List (String × NodeDefinition)}

theorem addEdge_valid {table : EdgeTable} (distinct : (nodes.map fst).Nodup)
    (valid : table.Valid nodes) (added : addEdge nodes index table edge = .ok result) :
    result.Valid nodes := by
  unfold addEdge at added
  split at added
  · cases added
  rename_i node found
  simp only [bind_eq_ok_iff, require_eq_ok_iff, mapError_eq_ok_iff] at added
  obtain ⟨_, known, port, resolved, _, -, same⟩ := added
  obtain rfl := Except.ok.inj same
  have target := Assoc.lookup_isSome_iff.mp known
  refine ⟨?_, ?_⟩
  · intro id other member
    dsimp only at member
    by_cases here : id = edge.source
    · subst here
      rw [update_self, mem_append, mem_singleton] at member
      rcases member with old | rfl
      · exact valid.edges _ other old
      · exact ⟨node, found, resolvePort_mem_exits resolved, target⟩
    · rw [update_of_ne here] at member
      exact valid.edges id other member
  · intro id
    have source : edge.source ∈ nodes.map fst := Assoc.lookup_isSome_iff.mp (by rw [found]; rfl)
    dsimp only
    rw [arrivals_flatMap_update distinct source, ← valid.counted]
    by_cases here : id = edge.target
    · subst here
      simp
    · rw [update_of_ne here, if_neg (Ne.symm here), Nat.add_zero]

theorem addEdges_valid {table : EdgeTable} (distinct : (nodes.map fst).Nodup)
    (valid : table.Valid nodes) (added : addEdges nodes index table edges = .ok result) :
    result.Valid nodes := by
  induction edges generalizing index table with
  | nil =>
    obtain rfl := Except.ok.inj added
    exact valid
  | cons edge edges ih =>
    simp only [addEdges, bind_eq_ok_iff] at added
    obtain ⟨middle, first, rest⟩ := added
    exact ih (addEdge_valid distinct valid first) rest

/-- The graph of a block as the compiler accepted it. -/
structure ControlFlow.Sound {B : Type} [Bdd B] (definition : WorkflowBlock)
    (flow : ControlFlow B) : Prop where
  distinct : (definition.nodes.map fst).Nodup
  entry : definition.nodes.lookup flow.entry = some .start
  unentered : ∀ id, ∀ edge ∈ flow.outgoing id, edge.target ≠ flow.entry
  edges : ∀ id, ∀ edge ∈ flow.outgoing id, ∃ node, definition.nodes.lookup id = some node ∧
    edge.port ∈ node.exits ∧ edge.target ∈ definition.nodes.map fst
  order_distinct : flow.topological.Nodup
  order_mem : ∀ id, id ∈ flow.topological ↔ id ∈ definition.nodes.map fst
  sorted : PortGraph.Sorted (definition.nodes.map fst) flow.outgoing flow.topological
  entered : ∀ id ∈ definition.nodes.map fst, id ≠ flow.entry →
    ∃ source, ∃ edge ∈ flow.outgoing source, edge.target = id
  cases_distinct : ∀ id cases, (id, .branch cases) ∈ definition.nodes →
    (cases.map BranchCase.id).Nodup
  fails : ∀ id node, (id, node) ∈ definition.nodes → node.failBranch = true →
    ∃ edge ∈ flow.outgoing id, edge.port = .fail
  scopes : ActivationScopes.new definition.nodes flow.entry flow.outgoing flow.topological =
    .ok flow.scopes

theorem checkEach_distinct {α : Type} {check : Nat → List String → α → Except CompileError Unit}
    {id : α → String} (fresh : ∀ index seen item, check index seen item = .ok () → id item ∉ seen)
    {items : List α} (checked : checkEach check id index seen items = .ok ()) :
    (items.map id).Nodup ∧ ∀ item ∈ items, id item ∉ seen := by
  induction items generalizing index seen with
  | nil => simp
  | cons item items ih =>
    simp only [checkEach, bind_eq_ok_iff] at checked
    obtain ⟨_, first, rest⟩ := checked
    obtain ⟨distinct, later⟩ := ih rest
    refine ⟨?_, ?_⟩
    · rw [map_cons, nodup_cons]
      refine ⟨?_, distinct⟩
      rintro member
      obtain ⟨other, listed, same⟩ := mem_map.mp member
      exact later other listed (by simp [same])
    · intro other member
      rcases mem_cons.mp member with rfl | member
      · exact fresh index seen other first
      · intro listed
        exact later other member (by simp [listed])

theorem checkEach_each {α : Type} {check : Nat → List String → α → Except CompileError Unit}
    {id : α → String} {items : List α} {index : Nat} {seen : List String}
    (checked : checkEach check id index seen items = .ok ()) {item : α} (member : item ∈ items) :
    ∃ index seen, check index seen item = .ok () := by
  induction items generalizing index seen with
  | nil => cases member
  | cons first items ih =>
    simp only [checkEach, bind_eq_ok_iff] at checked
    obtain ⟨_, here, rest⟩ := checked
    rcases mem_cons.mp member with rfl | later
    · exact ⟨index, seen, here⟩
    · exact ih rest later

theorem findEntry_lookup (distinct : (nodes.map fst).Nodup)
    (found : findEntry nodes = .ok entry) : nodes.lookup entry = some .start := by
  unfold findEntry at found
  split at found
  · rename_i id node only
    obtain rfl := Except.ok.inj found
    have member : (id, node) ∈ nodes.filter fun node => node.2.isStart := by simp [only]
    obtain ⟨member, start⟩ := mem_filter.mp member
    cases node <;> simp [isStart] at start
    exact Assoc.lookup_of_mem distinct member
  · cases found

theorem checkBranch_distinct {id : String} {cases : List BranchCase}
    (checked : checkBranch id (.branch cases) = .ok ()) : (cases.map BranchCase.id).Nodup := by
  simp only [checkBranch, bind_eq_ok_iff] at checked
  obtain ⟨_, -, each⟩ := checked
  refine (checkEach_distinct ?_ each).1
  intro index seen case accepted
  simp only [require_eq_ok_iff, Bool.and_eq_true] at accepted
  simpa using accepted.2

theorem topologicalOrder_sorted {nodes : List String} (distinct : nodes.Nodup)
    (closed : ∀ source ∈ nodes, ∀ edge ∈ outgoing source, edge.target ∈ nodes)
    (counted : ∀ node, incoming node = arrivals (nodes.flatMap outgoing) node)
    (ordered : topologicalOrder nodes outgoing incoming = .ok order) :
    order.Nodup ∧ (∀ id, id ∈ order ↔ id ∈ nodes) ∧ PortGraph.Sorted nodes outgoing order := by
  obtain ⟨result, counts, run, counting⟩ := kahn_spec distinct closed
    (Counting.initial distinct counted) (show nodes.length ≤ [].length + nodes.length by simp)
  simp only [topologicalOrder, run] at ordered
  split at ordered
  · obtain rfl := Except.ok.inj ordered
    have distinctOrder : result.Nodup := by simpa using counting.distinct
    have known : result ⊆ nodes := fun id member => counting.known id (by simpa using member)
    have same := (subperm_of_subset distinctOrder known).perm_of_length_le (by omega)
    exact ⟨distinctOrder, fun id => same.mem_iff, counting.sorted⟩
  · cases ordered

/-- A node that a visit reaches is its start or the target of an edge. -/
theorem reachableNodes_entered {nodes : List String} {id : String}
    (reached : id ∈ reachableNodes nodes entry outgoing) :
    id = entry ∨ ∃ source, ∃ edge ∈ outgoing source, edge.target = id := by
  unfold reachableNodes at reached
  cases ran : visit outgoing ((nodes.flatMap outgoing).length + 1) [entry] [] with
  | none =>
    rw [ran] at reached
    cases reached
  | some seen =>
    rw [ran, Option.getD_some] at reached
    have step : ∀ node, (node = entry ∨ ∃ source, ∃ edge ∈ outgoing source, edge.target = node) →
        ∀ edge ∈ outgoing node, edge.target = entry ∨
          ∃ source, ∃ other ∈ outgoing source, other.target = edge.target :=
      fun node _ edge leaves => .inr ⟨node, edge, leaves, rfl⟩
    exact visit_sound ran (by simp) step id reached

theorem controlFlow_sound {B : Type} [Bdd B] {definition : WorkflowBlock} {flow : ControlFlow B}
    (distinct : (definition.nodes.map fst).Nodup)
    (accepted : controlFlow definition = .ok flow) : flow.Sound definition := by
  simp only [controlFlow, bind_eq_ok_iff, require_eq_ok_iff, forM_eq_ok_iff] at accepted
  obtain ⟨_, -, entry, found, _, -, _, branches, table, added, _, fails, _, free, topological,
    ordered, _, reachable, scopes, activated, same⟩ := accepted
  obtain rfl := Except.ok.inj same
  have valid : table.Valid definition.nodes := by
    refine addEdges_valid distinct ⟨by simp, fun id => ?_⟩ added
    rw [flatMap_eq_nil_iff.mpr fun _ _ => rfl]
    rfl
  have perm : ∀ id, ((table.outgoing id).insertionSort edgeLe).Perm (table.outgoing id) :=
    fun id => perm_insertionSort edgeLe _
  have edges : ∀ id, ∀ edge ∈ (table.outgoing id).insertionSort edgeLe, ∃ node,
      definition.nodes.lookup id = some node ∧ edge.port ∈ node.exits ∧
        edge.target ∈ definition.nodes.map fst :=
    fun id edge member => valid.edges id edge ((perm id).mem_iff.mp member)
  have counted : ∀ id, table.incoming id = arrivals ((definition.nodes.map fst).flatMap
      fun id => (table.outgoing id).insertionSort edgeLe) id := by
    intro id
    rw [valid.counted]
    exact ((List.Perm.refl _).flatMap fun id _ => (perm id).symm).countP_eq _
  have closed : ∀ source ∈ definition.nodes.map fst,
      ∀ edge ∈ (table.outgoing source).insertionSort edgeLe,
        edge.target ∈ definition.nodes.map fst := by
    intro source _ edge member
    obtain ⟨_, _, _, target⟩ := edges source edge member
    exact target
  obtain ⟨orderDistinct, orderMem, sorted⟩ :=
    topologicalOrder_sorted distinct closed counted ordered
  refine ⟨distinct, findEntry_lookup distinct found, ?_, edges, orderDistinct, orderMem, sorted,
    ?_, ?_, ?_, activated⟩
  · rintro id edge member rfl
    obtain ⟨node, listed, -, -⟩ := edges id edge member
    have source : id ∈ definition.nodes.map fst := Assoc.lookup_isSome_iff.mp (by rw [listed]; rfl)
    have none : table.incoming edge.target = 0 := by simpa using free
    rw [counted] at none
    exact absurd none (arrivals_pos_iff.mpr ⟨edge, mem_flatMap.mpr ⟨id, source, member⟩, rfl⟩).ne'
  · intro id member other
    have reached := reachable id member
    exact (reachableNodes_entered (by simpa using reached)).resolve_left other
  · intro id cases member
    exact checkBranch_distinct (branches _ member)
  · intro id node member failing
    have checked := fails _ member
    simpa [checkFailBranch, failing] using checked

namespace ControlFlow.Sound

variable {B : Type} [Bdd B] {definition : WorkflowBlock} {flow : ControlFlow B}

theorem source_known (sound : flow.Sound definition) {id : String}
    (member : edge ∈ flow.outgoing id) : id ∈ definition.nodes.map fst := by
  obtain ⟨node, listed, -, -⟩ := sound.edges id edge member
  exact Assoc.lookup_isSome_iff.mp (by rw [listed]; rfl)

/-- Accepted control flow is an acyclic graph, ranked by its topological order. -/
def graph (sound : flow.Sound definition) : PortGraph.Graph String WorkflowPort where
  nodes := definition.nodes.map fst
  entry := flow.entry
  outgoing := flow.outgoing
  rank := flow.topological.idxOf
  distinct := sound.distinct
  entry_mem := Assoc.lookup_isSome_iff.mp (by rw [sound.entry]; rfl)
  closed source _ edge member := by
    obtain ⟨_, _, _, target⟩ := sound.edges source edge member
    exact target
  rises source known edge member := by
    obtain ⟨_, _, _, target⟩ := sound.edges source edge member
    exact sound.sorted.idxOf_lt sound.order_distinct known member ((sound.order_mem _).mpr target)
  entered id known other := by
    obtain ⟨source, edge, member, target⟩ := sound.entered id known other
    exact ⟨source, sound.source_known member, edge, member, target⟩
  unentered source _ edge member := sound.unentered source edge member

end ControlFlow.Sound

end RustX
