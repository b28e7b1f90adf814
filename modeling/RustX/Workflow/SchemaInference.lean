import RustX.Library.Metered
import RustX.Workflow.Documents

/-!
`SchemaInference`: one inference for compilation and for bounded authoring
requests. References borrow declarations, derived schemas are allocated, and
every step is charged before it is taken. Results are memoized by path, weights
by the address of the declaration they measure.
-/
namespace RustX.SchemaInference

open Document Metered

inductive InferenceError
  | budget
  | unavailable
  | invalid (error : CompileError)
  deriving DecidableEq

def InferenceError.at (path : String) : InferenceError → InferenceError
  | .budget => .budget
  | .unavailable => .unavailable
  | .invalid error => .invalid (error.under path)

def InferenceError.intoCompileError : InferenceError → CompileError
  | .budget => RustX.invalid "analysis schema inference budget exhausted"
  | .unavailable => RustX.invalid "reference path was already proven unavailable"
  | .invalid error => error

/-- A borrowed schema lies inside a declaration, a derived one in an allocation of
its own. -/
inductive SchemaRef
  | borrowed (address : Nat) (value : Json) (weight : Nat)
  | derived (address : Nat) (value : Json) (weight : Nat)

namespace SchemaRef

def value : SchemaRef → Json
  | .borrowed _ value _ => value
  | .derived _ value _ => value

def weight : SchemaRef → Nat
  | .borrowed _ _ weight => weight
  | .derived _ _ weight => weight

def identity : SchemaRef → Nat
  | .borrowed address _ _ => address
  | .derived address _ _ => address

end SchemaRef

structure SchemaBudget where
  allocation : Nat
  work : Nat
  steps : Nat
  bounded : Bool
  exhausted : Bool

namespace SchemaBudget

def limited (allocation work steps : Nat) : SchemaBudget :=
  { allocation, work, steps, bounded := true, exhausted := false }

def unlimited : SchemaBudget :=
  { limited (2 ^ 64 - 1) (2 ^ 64 - 1) (2 ^ 64 - 1) with bounded := false }

end SchemaBudget

/-- Where schemas are stored. Every path into the declarations has its own address.
An allocation avoids the declarations and whatever is still held; the address of a
released value may be given out again. -/
structure Memory where
  locate : List String → Nat
  allocate : Nat → List Nat → Nat
  locate_injective : Function.Injective locate
  allocate_fresh : ∀ count held, allocate count held ∉ held
  allocate_apart : ∀ count held path, allocate count held ≠ locate path

/-- Paths on the even addresses, allocations on the odd ones. -/
instance : Nonempty Memory := by
  have chars : Countable Char :=
    Function.Injective.countable (f := Char.toNat) fun _ _ same => Char.toNat_inj.mp same
  have strings : Countable String :=
    Function.Injective.countable (f := String.toList) fun _ _ same => String.toList_inj.mp same
  obtain ⟨code, injective⟩ := exists_injective_nat (List String)
  refine ⟨{ locate := fun path => 2 * code path, allocate := fun _ held => 2 * held.foldr max 0 + 1
            locate_injective := fun path other same => injective (by dsimp only at same; omega)
            allocate_fresh := fun _ held member => ?_
            allocate_apart := fun _ held path => by omega }⟩
  have bound := List.le_max_of_le' 0 member (le_refl _)
  omega

structure Serializer [FloatText] where
  pieces : WorkflowValue → List Nat
  pieces_sum : ∀ expression, (pieces expression).sum = expression.toJson.serializedBytes

structure Environment [FloatText] where
  declarations : String → Option Json
  node : String
  validator : Json → Option (Json → Bool)
  memory : Memory
  serializer : Serializer

/-- The mutable part of `SchemaInference`; a cached reference is the address and
the document it names. `allocations` counts the derived schemas. -/
structure State where
  budget : SchemaBudget
  weights : Nat → Option Nat
  references : List String → Option (Option (Nat × Json))
  allocations : Nat

def State.new (budget : SchemaBudget) : State :=
  { budget, weights := fun _ => none, references := fun _ => none, allocations := 0 }

abbrev Inferring := Metered State InferenceError

def take (allocation work steps : Nat) : Inferring Unit := do
  let state ← get
  if state.budget.bounded then
    if state.budget.allocation < allocation ∨ state.budget.work < work ∨
        state.budget.steps < steps then
      set { state with budget := { state.budget with exhausted := true } }
      throw .budget
    else
      set { state with
            budget := { state.budget with
                        allocation := state.budget.allocation - allocation
                        work := state.budget.work - work
                        steps := state.budget.steps - steps } }
  else pure ()

def refuse {α : Type} (error : CompileError) : Inferring α :=
  throw (.invalid error)

def whenBounded (x : Inferring Nat) : Inferring Nat := do
  if (← get).budget.bounded then x else pure 0

mutual

/-- A bound for the text and the storage of a document. -/
def measure : Json → Inferring Nat
  | .string text => whenBounded do
    take 0 64 1
    take 0 text.utf8ByteSize 0
    pure (saturating (128 + saturating (text.utf8ByteSize * 6)))
  | .array values => whenBounded do
    take 0 64 1
    let weight ← measureItems 128 values
    take 0 0 0
    pure weight
  | .object fields => whenBounded do
    take 0 64 1
    let weight ← measureFields 128 fields
    take 0 0 0
    pure weight
  | _ => whenBounded do
    take 0 64 1
    take 0 0 0
    pure 128

def measureItems (weight : Nat) : List Json → Inferring Nat
  | [] => pure weight
  | value :: values => do
    let more ← measure value
    measureItems (saturating (weight + more)) values

def measureFields (weight : Nat) : List (String × Json) → Inferring Nat
  | [] => pure weight
  | (key, value) :: fields => do
    let named := saturating (weight + (128 + saturating (key.utf8ByteSize * 6)))
    let more ← measure value
    measureFields (saturating (named + more)) fields

end

mutual

def valueNodes : Json → Inferring Nat
  | .array items => do
    take 0 64 1
    valueNodesItems 1 items
  | .object fields => do
    take 0 64 1
    valueNodesFields 1 fields
  | _ => do
    take 0 64 1
    pure 1

def valueNodesItems (nodes : Nat) : List Json → Inferring Nat
  | [] => pure nodes
  | item :: items => do
    let more ← valueNodes item
    valueNodesItems (saturating (nodes + more)) items

def valueNodesFields (nodes : Nat) : List (String × Json) → Inferring Nat
  | [] => pure nodes
  | (_, value) :: fields => do
    let more ← valueNodes value
    valueNodesFields (saturating (nodes + more)) fields

end

/-- What a proof step costs: a validator is compiled from its schema, and a nested
value may meet the same contract at every node. -/
def admitProof (actual expected : Json) (step : SchemaProofStep) : Inferring Unit := do
  let actualWeight ← measure actual
  let expectedWeight ← measure expected
  match step with
  | .compileValidator =>
    take (saturating (expectedWeight * 4)) (saturating (actualWeight + expectedWeight)) 1
  | .validateValue => do
    let nodes ← valueNodes actual
    take 0 (saturating (actualWeight + saturating (expectedWeight * nodes))) 1
  | .structure_ =>
    let allocation :=
      if schemaType actual = some "object" ∧ schemaType expected = some "object" then
        saturating (((requiredFields actual).length + (requiredFields expected).length) * 128)
      else 0
    take allocation (saturating (actualWeight + expectedWeight)) 1

section Inference

variable [FloatText] (env : Environment)

def compatible (actual expected : Json) : Inferring Bool :=
  schemasCompatibleWith env.validator admitProof actual expected

def remember (path : List String) (known : Option (Nat × Json)) : Inferring Unit :=
  modify fun state =>
    { state with references := Function.update state.references path (some known) }

/-- `resolve`: a path that was looked up before is answered from the cache, also
when the budget cannot pay for it. -/
def resolve (path : List String) : Inferring (Nat × Json) := do
  let work := (path.map fun key => key.utf8ByteSize * 16 + 64).sum
  match (← get).references path with
  | some known =>
    let _ ← attempt (take 0 work 1)
    match known with
    | some located => pure located
    | none => throw .unavailable
  | none =>
    take 0 work 1
    take (saturating (path.length * 512)) 0 0
    let schema ← attempt
      (referenceSchemaWith path env.declarations env.node (fun work => take 0 work 1) refuse)
    match schema with
    | .error .budget => throw .budget
    | .error error =>
      remember path none
      throw error
    | .ok schema =>
      remember path (some (env.memory.locate path, schema))
      pure (env.memory.locate path, schema)

def borrowed (located : Nat × Json) : Inferring SchemaRef := do
  let state ← get
  if state.budget.bounded then
    match state.weights located.1 with
    | some weight => pure (.borrowed located.1 located.2 weight)
    | none =>
      let weight ← measure located.2
      take 256 0 0
      modify fun state =>
        { state with weights := Function.update state.weights located.1 (some weight) }
      pure (.borrowed located.1 located.2 weight)
  else pure (.borrowed located.1 located.2 0)

/-- A derived schema is paid for before it is built, beside everything that is held. -/
def derived (held : List Nat) (weight : Nat) (value : Json) : Inferring SchemaRef := do
  take weight weight 1
  let state ← get
  set { state with allocations := state.allocations + 1 }
  pure (.derived (env.memory.allocate state.allocations held) value weight)

/-- `SizeWriter`: the text is charged piece by piece and never kept. -/
def writePieces (bytes : Nat) : List Nat → Inferring Unit
  | [] => pure ()
  | piece :: pieces => do
    take 0 piece 0
    if maxValueBytes < saturating (bytes + piece) then
      refuse (invalid "construction depth/byte bound exceeded")
    else writePieces (saturating (bytes + piece)) pieces

def templatePart : WorkflowValue → Inferring Unit
  | .literal (.string _) => pure ()
  | .reference path => do
    let _ ← resolve env path
    pure ()
  | _ => refuse (invalid "template parts are text or references only")

def templateParts (index : Nat) : List WorkflowValue → Inferring Unit
  | [] => pure ()
  | part :: parts => do
    ExceptT.adapt (InferenceError.at s!"parts.{index}") (templatePart env part)
    templateParts (index + 1) parts

def template (held : List Nat) (parts : List WorkflowValue) : Inferring SchemaRef := do
  if maxModelMessageParts < parts.length then refuse (invalid "template exceeds its part bound")
  else
    templateParts env 0 parts
    derived env held 512 (.object [("type", .string "string")])

/-- Repeated addresses are skipped before a schema is compared by value. -/
def distinctSchemas (seen : List Nat) (distinct : List SchemaRef) :
    List SchemaRef → Inferring (List SchemaRef)
  | [] => pure distinct
  | schema :: schemas => do
    if schema.identity ∈ seen then distinctSchemas seen distinct schemas
    else
      take 0 schema.weight 1
      if schema.value ∈ distinct.map SchemaRef.value then
        distinctSchemas (schema.identity :: seen) distinct schemas
      else distinctSchemas (schema.identity :: seen) (distinct ++ [schema]) schemas

def isDuplicate (value : Json) : List Json → Inferring Bool
  | [] => pure false
  | prior :: values => do
    let valueWeight ← measure value
    let priorWeight ← measure prior
    take 0 (saturating (valueWeight + priorWeight)) 1
    if value = prior then pure true else isDuplicate value values

def finiteValues (first : Option String) (values : List Json) :
    List SchemaRef → Inferring (List Json)
  | [] => pure values
  | schema :: schemas => do
    if schemaType schema.value ≠ first then
      refuse (invalid "constructed arrays require one element type")
    else
      if ← isDuplicate (constantOf schema.value) values then finiteValues first values schemas
      else finiteValues first (values ++ [constantOf schema.value]) schemas

def admitsAll (candidate : SchemaRef) : List SchemaRef → Inferring Bool
  | [] => pure true
  | actual :: schemas => do
    if ← compatible env actual.value candidate.value then admitsAll candidate schemas
    else pure false

def commonContract (schemas : List SchemaRef) : List SchemaRef → Inferring SchemaRef
  | [] => refuse (invalid "constructed array element contracts are incompatible")
  | candidate :: candidates => do
    if ← admitsAll env candidate schemas then pure candidate
    else commonContract schemas candidates

/-- `element`: the common finite values or the first schema that admits every other. -/
def element (schemas : List SchemaRef) : Inferring (Document.Element SchemaRef) := do
  take (saturating (schemas.length * 256)) 0 0
  let distinct ← distinctSchemas [] [] schemas
  match distinct with
  | [] => pure .empty
  | first :: rest =>
    if (first :: rest).all (fun schema => (schema.value.get "const").isSome) then
      let values ← finiteValues (schemaType first.value) [] (first :: rest)
      pure (.finite ((first.value.get "type").getD .null) values)
    else
      let schema ← commonContract env (first :: rest) (first :: rest)
      pure (.contract schema)

def arraySchema (held : List Nat) : Document.Element SchemaRef → Inferring SchemaRef
  | .empty => derived env held 512 emptyArray
  | .contract schema =>
    derived env held (saturating (schema.weight + 512)) (contractArray schema.value)
  | .finite kind values => do
    let weight ← measureItems 1024 values
    derived env held weight (finiteArray kind values)

def checkExpression (expression : WorkflowValue) (depth : Nat) : Inferring Unit := do
  take 0 0 1
  if maxValueDepth < depth then refuse (invalid "construction depth/byte bound exceeded")
  else writePieces 0 (env.serializer.pieces expression)

mutual

/-- `infer`. `held` lists the addresses that are in use around the expression. -/
def infer (held : List Nat) (depth : Nat) : WorkflowValue → Inferring SchemaRef
  | .reference path => do
    checkExpression env (.reference path) depth
    let located ← resolve env path
    borrowed located
  | .literal value => do
    checkExpression env (.literal value) depth
    if maxValueDepth < depth + value.height then refuse (invalid "literal depth exceeded")
    else
      let weight ← measure value
      derived env held (saturating (weight + 512)) (literalSchema value)
  | .object fields => do
    checkExpression env (.object fields) depth
    take (saturating (fields.length * 128)) 0 0
    let (children, weight) ← inferFields held depth [] 1024 fields
    derived env (children.map (fun child => child.2.identity) ++ held) weight
      (objectSchema
        (children.foldl (fun properties child => Assoc.insert child.1 child.2.value properties) [])
        (fields.map Prod.fst))
  | .array items => do
    checkExpression env (.array items) depth
    take (saturating (items.length * 128)) 0 0
    let schemas ← inferItems held depth 0 [] items
    let element ← element env schemas
    arraySchema env (schemas.map SchemaRef.identity ++ held) element
  | .template parts => do
    checkExpression env (.template parts) depth
    template env held parts

def inferFields (held : List Nat) (depth : Nat) (children : List (String × SchemaRef))
    (weight : Nat) :
    List (String × WorkflowValue) → Inferring (List (String × SchemaRef) × Nat)
  | [] => pure (children, weight)
  | (key, value) :: fields => do
    if key.isEmpty = true ∨ 64 < key.utf8ByteSize then refuse (invalid "invalid construction field")
    else
      let schema ← ExceptT.adapt (InferenceError.at s!"fields.{key}")
        (infer (children.map (fun child => child.2.identity) ++ held) (depth + 1) value)
      inferFields held depth (children ++ [(key, schema)])
        (saturating (saturating (weight + schema.weight) + (256 + key.utf8ByteSize * 12))) fields

def inferItems (held : List Nat) (depth index : Nat) (schemas : List SchemaRef) :
    List WorkflowValue → Inferring (List SchemaRef)
  | [] => pure schemas
  | item :: items => do
    let schema ← ExceptT.adapt (InferenceError.at s!"items.{index}")
      (infer (schemas.map SchemaRef.identity ++ held) (depth + 1) item)
    inferItems held depth (index + 1) (schemas ++ [schema]) items

end

/-- `value_schema`: a fresh inference with an unlimited budget. -/
def valueSchema (expression : WorkflowValue) (depth : Nat) : Except CompileError Json :=
  match (infer env [] depth expression (State.new .unlimited)).1 with
  | .ok schema => .ok schema.value
  | .error error => .error error.intoCompileError

end Inference

end RustX.SchemaInference
