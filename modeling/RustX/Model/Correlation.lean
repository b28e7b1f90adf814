import RustX.Library.Places

/-!
Correlation of calls and results on the wire. A provider request is visited twice: once to
read the ids its calls and results carry, once to give every call a label of its own.
-/
namespace RustX.Model.Correlation

open Places

inductive ModelProtocol
  | openAiChatCompletions
  | openAiResponses
  | anthropicMessages
  deriving DecidableEq

section Visit

variable {σ : Type}

def hasToolRole (message : Json) : Bool :=
  message.index "role" == .string "tool"

/-- A tool message names the call it answers. -/
def visitToolRole : Bool → (Bool → Visitor σ) → Visitor σ
  | true, field => atKey "tool_call_id" (field false)
  | false, _ => pass

def visitChatMessage (field : Bool → Visitor σ) : Visitor σ :=
  andThen (atKey "tool_calls" (eachItem (atKey "id" (field true))))
    fun message => visitToolRole (hasToolRole message) field message

inductive WireKind
  | call
  | result
  | other

def wireKind (call result : String) (block : Json) : WireKind :=
  match (block.index "type").asStr with
  | some type => if type = call then .call else if type = result then .result else .other
  | none => .other

/-- A call carries its id under one key, a result the id of its call under another. -/
def visitKind (callKey resultKey : String) : WireKind → (Bool → Visitor σ) → Visitor σ
  | .call, field => atKey callKey (field true)
  | .result, field => atKey resultKey (field false)
  | .other, _ => pass

def visitAnthropicBlock (field : Bool → Visitor σ) : Visitor σ := fun block =>
  visitKind "id" "tool_use_id" (wireKind "tool_use" "tool_result" block) field block

def visitResponsesItem (field : Bool → Visitor σ) : Visitor σ := fun item =>
  visitKind "call_id" "call_id" (wireKind "function_call" "function_call_output" item) field item

/-- `field` is told whether the id is a call's. -/
def visit (protocol : ModelProtocol) (field : Bool → Visitor σ) : Visitor σ :=
  match protocol with
  | .openAiChatCompletions => atKey "messages" (eachItem (visitChatMessage field))
  | .anthropicMessages =>
    atKey "messages" (eachItem (atKey "content" (eachItem (visitAnthropicBlock field))))
  | .openAiResponses => atKey "input" (eachItem (visitResponsesItem field))

end Visit

/-- Underscores are added until the label is free. One more candidate than there are
occupied labels is enough. -/
def freeLabel (occupied : List String) : Nat → String → String
  | 0, label => label
  | fuel + 1, label =>
    if label ∈ occupied then freeLabel occupied fuel (label.push '_') else label

def countIds (raw : List String) : String → Nat :=
  raw.foldl (fun remaining id => Function.update remaining id (remaining id + 1)) fun _ => 0

/-- The last call of an id keeps it; every other call gets a free label. -/
def labelCalls : Nat → List String → (String → Nat) → List String → List String
  | _, [], _, _ => []
  | index, id :: raw, remaining, occupied =>
    let count := remaining id - 1
    let remaining := Function.update remaining id count
    if count = 0 then id :: labelCalls (index + 1) raw remaining occupied
    else
      let label := freeLabel occupied occupied.length s!"rustx_occurrence_{index}"
      label :: labelCalls (index + 1) raw remaining (label :: occupied)

def wireLabels (raw : List String) : List String :=
  labelCalls 0 raw (countIds raw) raw

def sourceId (id : Json) : String :=
  id.asStr.getD ""

structure Scan where
  raw : List String := []
  pendingIds : List String := []
  invalid : Option String := none

def Scan.checkEmpty (scan : Scan) (source : String) : Scan :=
  if source = "" then { scan with invalid := some "empty provider wire correlation ID" } else scan

/-- Wire strings cannot tell which of two unresolved calls owns a result. -/
def Scan.issue (scan : Scan) (source : String) : Scan :=
  if source ∈ scan.pendingIds then
    { scan with
      invalid := some "ambiguous unresolved provider wire correlation ID"
      raw := scan.raw ++ [source] }
  else
    { scan with pendingIds := source :: scan.pendingIds, raw := scan.raw ++ [source] }

def Scan.resolve (scan : Scan) (source : String) : Scan :=
  { scan with pendingIds := scan.pendingIds.filter (· ≠ source) }

def scanField (call : Bool) : Visitor Scan := fun id scan =>
  let scan := scan.checkEmpty (sourceId id)
  some (id, if call then scan.issue (sourceId id) else scan.resolve (sourceId id))

/-- Calls labelled so far, and the labels of unresolved calls by their source id. -/
structure Relabelling where
  ordinal : Nat := 0
  pending : List (String × String) := []

def relabelField (labels : List String) (call : Bool) : Visitor Relabelling := fun id state =>
  let source := sourceId id
  if call then do
    let label ← labels[state.ordinal]?
    some (.string label,
      { ordinal := state.ordinal + 1, pending := Assoc.insert source label state.pending })
  else
    match state.pending.lookup source with
    | some label =>
      some (.string label, { state with pending := state.pending.filter (·.1 ≠ source) })
    | none => some (id, state)

/-- The result of an encoding and the value it leaves behind; no outcome is a crash. -/
def encode (protocol : ModelProtocol) (value : Json) : Option (Except String Unit × Json) := do
  let (value, scan) ← visit protocol scanField value {}
  match scan.invalid with
  | some error => some (.error error, value)
  | none =>
    let (value, _) ← visit protocol (relabelField (wireLabels scan.raw)) value {}
    some (.ok (), value)

end RustX.Model.Correlation
