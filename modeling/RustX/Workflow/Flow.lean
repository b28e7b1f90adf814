import RustX.Library.Bdd
import RustX.Workflow.Inference
import RustX.Workflow.References

/-!
Activation proofs for the graph of a block. Every choice a node can make is a
Boolean variable; a node is active where some path of chosen exits leads to it.
A producer is in scope where every activation of the consumer activates it too.
-/
namespace RustX

open Checked Schema Bdd

def maxActivationNodes : Nat := 65536

def tooComplex : CompileError :=
  .invalidField "workflow activation proof exceeds its bounded complexity"

/-- An operation that may exceed its size limit. -/
def limited {α : Type} (result : Option α) : Except CompileError α :=
  match result with
  | some value => .ok value
  | none => .error tooComplex

@[simp] theorem limited_eq_ok_iff : limited result = .ok value ↔ result = some value := by
  cases result <;> simp [limited]

def NodeDefinition.failBranch : NodeDefinition → Bool
  | .model _ _ _ _ onError => onError == .failBranch
  | .tool _ _ _ _ onError | .code _ _ _ _ _ onError | .agent _ _ _ _ onError =>
    onError == .failBranch
  | _ => false

/-- The Boolean variables that encode the choices of a node. -/
def NodeDefinition.choices : NodeDefinition → Nat
  | .branch cases => cases.length
  | .review _ actions _ => actions.length
  | .agent _ _ _ routes onError => routes.length - 1 + if onError = .failBranch then 1 else 0
  | .classifier _ _ _ classes => classes.length - 1
  | node => if node.failBranch then 1 else 0

section Gates

variable {B : Type} [Bdd B]

/-- Exits tried in order: each takes what the earlier ones left, if its variable
is set. Returns their gates, the next variable and what remains. -/
def caseGates : List String → Nat → B → Except CompileError (List (WorkflowPort × B) × Nat × B)
  | [], next, remaining => .ok ([], next, remaining)
  | id :: ids, next, remaining => do
    let selected := mkVar next
    let guard ← limited (andWithLimit maxActivationNodes remaining selected)
    let rest ← limited (andWithLimit maxActivationNodes remaining (not selected))
    let (gates, next, remaining) ← caseGates ids (next + 1) rest
    .ok ((.ofCase id, guard) :: gates, next, remaining)

/-- Mutually exclusive exits: the last takes what remains. -/
def exclusiveGates (ids : List String) (next : Nat) (remaining : B) :
    Except CompileError (List (WorkflowPort × B) × Nat) := do
  let (gates, next, remaining) ← caseGates ids.dropLast next remaining
  .ok (gates ++ ids.getLast?.toList.map fun id => (.ofCase id, remaining), next)

/-- The gates of a node's exits, and the variable of its success. -/
structure NodeGates (B : Type) where
  ports : List (WorkflowPort × B)
  succeeded : Option B

/-- The gate of a port; the last one inserted wins. -/
def NodeGates.gate (gates : NodeGates B) (port : WorkflowPort) : Option B :=
  gates.ports.reverse.lookup port

/-- The exits of a call that may fail. -/
def outcomeGates (ok : B) : List (WorkflowPort × B) :=
  [(.next, ok), (.fail, not ok)]

def nodeGates (next : Nat) : NodeDefinition → Except CompileError (NodeGates B × Nat)
  | .classifier _ _ _ classes => do
    let (ports, next) ← exclusiveGates (classes.map ClassifierClass.id) next mkTrue
    .ok (⟨ports, none⟩, next)
  | .branch cases => do
    let (ports, next, remaining) ← caseGates (cases.map BranchCase.id) next mkTrue
    .ok (⟨ports ++ [(.false, remaining)], none⟩, next)
  | .review _ actions _ => do
    let (ports, next, remaining) ← caseGates (actions.map ReviewAction.id) next mkTrue
    .ok (⟨ports ++ [(.ofCase reviewTimeoutPort, remaining)], none⟩, next)
  | .agent _ _ _ routes onError =>
    let ids := routes.map AgentRoute.id
    if onError = .failBranch then do
      let ok := mkVar next
      let (ports, next) ← exclusiveGates ids (next + 1) ok
      .ok (⟨ports ++ outcomeGates ok, some ok⟩, next)
    else do
      let (ports, next) ← exclusiveGates ids next mkTrue
      .ok (⟨ports, none⟩, next)
  | node =>
    if node.failBranch then
      .ok (⟨outcomeGates (mkVar next), some (mkVar next)⟩, next + 1)
    else .ok (⟨[], none⟩, next)

/-- Allocate the variables of the nodes in the order of their ids. -/
def blockGates : List (String × NodeDefinition) → Nat →
    Except CompileError (List (String × NodeGates B))
  | [], _ => .ok []
  | (id, node) :: nodes, next => do
    let (gates, next) ← nodeGates next node
    let rest ← blockGates nodes next
    .ok ((id, gates) :: rest)

end Gates

structure ActivationScopes (B : Type) where
  active : String → Option B
  ancestors : String → List String
  /-- For a node with a fail branch: true exactly when it succeeded. -/
  succeeded : String → Option B

namespace ActivationScopes

variable {B : Type} [Bdd B]

variable (scopes : ActivationScopes B)

variable (node : String)

def activation : B :=
  (scopes.active node).getD mkFalse

def throughGate (gate : Option B) (current : B) : Except CompileError B :=
  match gate with
  | some gate => limited (andWithLimit maxActivationNodes current gate)
  | none => .ok current

def activateEdge (gates : WorkflowPort → Option B) (node : String) (current : B)
    (scopes : ActivationScopes B) (edge : EdgeProgram) :
    Except CompileError (ActivationScopes B) := do
  let path ← throughGate (gates edge.port) current
  let joined ← limited
    (orWithLimit maxActivationNodes (scopes.activation edge.target) path)
  .ok { scopes with
    active := Function.update scopes.active edge.target (some joined)
    ancestors := Function.update scopes.ancestors edge.target
      (scopes.ancestors edge.target ∪ (scopes.ancestors node ∪ [node])) }

def activateNode (gates : String → WorkflowPort → Option B)
    (outgoing : String → List EdgeProgram) (scopes : ActivationScopes B) (node : String) :
    Except CompileError (ActivationScopes B) :=
  (outgoing node).foldlM (activateEdge (gates node) node (scopes.activation node)) scopes

def new (nodes : List (String × NodeDefinition)) (entry : String)
    (outgoing : String → List EdgeProgram) (order : List String) :
    Except CompileError (ActivationScopes B) := do
  let count := (nodes.map fun node => node.2.choices).sum
  require (decide (count < 2 ^ 16)) tooComplex
  let gates ← blockGates nodes 0
  order.foldlM (activateNode (fun node port => (gates.lookup node).bind (·.gate port)) outgoing)
    { active := fun node => if node = entry then some mkTrue else none
      ancestors := fun _ => []
      succeeded := fun node => (gates.lookup node).bind (·.succeeded) }

/-- A proof that needs no branching at all. -/
def implies (actual expected : B) : Bool :=
  (impWithLimit 2 actual expected).any isTrue

def unorderedTogether (left right : String) : Bool :=
  !(scopes.ancestors left).contains right && !(scopes.ancestors right).contains left &&
    (andWithLimit 2 (scopes.activation left) (scopes.activation right)).all
      fun overlap => !isFalse overlap

def availableAtCompletion (producer : String) : Bool :=
  (scopes.active producer).any isTrue && (scopes.succeeded producer).all isTrue

def completionScope (declarations base : SchemaMap) : SchemaMap :=
  fun producer =>
    if scopes.availableAtCompletion producer then
      match declarations producer with
      | some schema => some schema
      | none => base producer
    else base producer

/-- What a consumer may read of a producer: its declared value, or the error its
fail branch left. -/
inductive Provision
  | declared (schema : Schema)
  | failure

def Provision.schema : Provision → Schema
  | .declared schema => schema
  | .failure => errorSchema

section

variable (after : String → Option SchemaMap)

/-- The schema a node declared for its own value. -/
def declared (producer : String) : Option Schema :=
  (after producer).bind fun scope => scope producer

/-- What `scope` proves of one ancestor of `node`. -/
def provision (producer : String) : Option Provision :=
  if (scopes.ancestors node).contains producer &&
      implies (scopes.activation node) (scopes.activation producer) then
    match declared after producer, scopes.succeeded producer with
    | none, _ => none
    | some schema, none => some (.declared schema)
    | some schema, some ok =>
      if implies (scopes.activation node) ok then some (.declared schema)
      else if implies (scopes.activation node) (not ok) then some .failure
      else none
  else none

def scope (base : SchemaMap) : SchemaMap :=
  fun producer =>
    match scopes.provision node after producer with
    | some provided => some provided.schema
    | none => base producer

/-- `potential_scope`: an Aggregate may name ancestors on exclusive paths. -/
def potentialScope (base : SchemaMap) : SchemaMap :=
  fun producer =>
    if (scopes.ancestors node).contains producer then
      match declared after producer with
      | some schema => some schema
      | none => base producer
    else base producer

end

/-- Where one source of an Aggregate is present. -/
def presence (base : SchemaMap) (path : List String) : Except CompileError B :=
  let active := scopes.activation node
  match path with
  | [] => .error (.invalidReference "empty aggregate selector")
  | producer :: _ =>
    if (base producer).isSome then .ok active
    else do
      require ((scopes.ancestors node).contains producer)
        (.invalidReference "aggregate source must precede the node")
      let present ← throughGate (scopes.succeeded producer) (scopes.activation producer)
      limited (andWithLimit maxActivationNodes active present)

/-- The union of the sources seen so far. -/
def coverage (base : SchemaMap) (union : B) (path : List String) : Except CompileError B := do
  let present ← scopes.presence node base path
  limited (orWithLimit maxActivationNodes union present)

def validateAggregate (paths : List (List String))
    (base : SchemaMap) : Except CompileError Unit := do
  let active := scopes.activation node
  let union ← paths.foldlM (scopes.coverage node base) (and active (not active))
  require (implies active union)
    (.invalidReference "aggregate sources must cover every activation")

end ActivationScopes

end RustX
