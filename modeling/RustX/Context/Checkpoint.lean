import RustX.Conversation.Projected

/-!
Compiling a checkpoint candidate: its immutable sources are resolved, the tool calls of the
projected messages are collected, and every projected result is paired with its call.
-/
namespace RustX.Context

open Checked Conversation
open Recovery (ConversationId MessageId)

structure CheckpointMessageOccurrence where
  checkpointId : String
  itemIndex : Nat
  deriving DecidableEq

structure CheckpointCallCoordinate where
  message : CheckpointMessageOccurrence
  block : Nat
  deriving DecidableEq

structure ProjectedCallSource where
  block : Nat
  assistant : CanonicalMessageRef
  canonicalBlock : ContentBlockIndex
  deriving DecidableEq

inductive CheckpointMessage
  | original (reference : CanonicalMessageRef)
  | derived (message : DerivedModelMessage)

structure CheckpointItem where
  message : CheckpointMessage
  callSources : List ProjectedCallSource
  resultCall : Option CheckpointCallCoordinate

structure ResourceReadCut where
  conversationId : ConversationId
  ledger : Nat

/-- `encodedBytes` is the length of the candidate's own encoding. -/
structure CheckpointCandidate where
  checkpointId : String
  readCut : ResourceReadCut
  baseFrontier : Nat
  items : List CheckpointItem
  encodedBytes : Nat

structure CompiledToolAssociation where
  call : CheckpointCallCoordinate
  result : CheckpointMessageOccurrence
  canonicalSource : ToolCallOccurrenceRef
  wireId : ToolCallId
  deriving DecidableEq

structure CompiledCheckpoint where
  messages : List ModelInputMessage
  tools : List CompiledToolAssociation
  deriving DecidableEq

structure CanonicalDependency where
  frontier : Nat
  reference : CanonicalMessageRef
  body : Option MessageBlock

/-- The digest of a canonical body and the lengths of encodings. Every block of a message
takes room in its encoding. -/
structure Encoding where
  digest : MessageBlock → String
  blockBytes : MessageBlock → Nat
  inputBytes : ModelInputMessage → Nat
  content_le : ∀ message content, message.view = .assistant content →
    content.length ≤ inputBytes message

/-- A resolver may answer from a state of its own. -/
abbrev Resolver (σ : Type) :=
  CanonicalMessageRef → Bool → StateT σ (Except String) CanonicalDependency

def maxMaterializedBytes : Nat := 16 * 1024 * 1024

namespace CheckpointItem

def references (item : CheckpointItem) : Nat :=
  item.callSources.length + match item.message with
    | .original _ => 0
    | .derived derived => derived.sources.length + derived.checkpointSources.length

end CheckpointItem

/-- The running count of references is checked after every item. -/
def checkReferences : Nat → List CheckpointItem → Except String Unit
  | _, [] => .ok ()
  | seen, item :: items => do
    require (seen + item.references ≤ 1024) "checkpoint inline provenance budget exceeded"
    checkReferences (seen + item.references) items

def CheckpointCandidate.validateBudget (candidate : CheckpointCandidate) : Except String Unit := do
  require (!(decide (candidate.readCut.ledger < candidate.baseFrontier) ||
    decide (8192 < candidate.items.length)))
    "checkpoint base frontier or item count exceeds authority"
  checkReferences 0 candidate.items
  require (candidate.encodedBytes ≤ 8 * 1024 * 1024) "checkpoint body byte budget exceeded"

/-- Bodies by id, and what is left of the two byte budgets. -/
structure Loading (σ : Type) where
  resolver : σ
  originals : List (MessageId × MessageBlock)
  sourceBudget : Nat
  outputBudget : Nat

abbrev Loader (σ : Type) := StateT (Loading σ) (Except String)

namespace CanonicalMessageRef

def of (encoding : Encoding) (conversation : ConversationId) (message : MessageBlock) :
    CanonicalMessageRef where
  conversationId := conversation
  messageId := message.id
  contentDigest := encoding.digest message

def matchesBody (reference : CanonicalMessageRef) (encoding : Encoding) (message : MessageBlock) :
    Bool :=
  of encoding reference.conversationId message = reference

end CanonicalMessageRef

section Loader

variable {σ : Type} (encoding : Encoding) (resolve : Resolver σ) (candidate : CheckpointCandidate)

def verifyDependency (expected : CanonicalMessageRef) (dependency : CanonicalDependency) :
    Except String Unit :=
  require (!(dependency.frontier == 0 || decide (candidate.baseFrontier < dependency.frontier) ||
    dependency.reference != expected ||
    expected.conversationId != candidate.readCut.conversationId))
    "checkpoint Original is outside base or changed"

section

variable (source : CanonicalMessageRef)

def resolveSource (body : Bool) : Loader σ CanonicalDependency :=
  fun loading => do
    let (dependency, resolver) ← resolve source body loading.resolver
    return (dependency, { loading with resolver })

def cachedOriginal (id : MessageId) : Loader σ (Option MessageBlock) :=
  return (← get).originals.lookup id

/-- A body is counted once, when it is first materialized. -/
def keepOriginal (id : MessageId) (message : MessageBlock) : Loader σ MessageBlock := fun loading =>
  if encoding.blockBytes message ≤ loading.sourceBudget then
    .ok (message, { loading with
      originals := Assoc.insert id message loading.originals
      sourceBudget := loading.sourceBudget - encoding.blockBytes message })
  else .error "checkpoint immutable dependency materialization exceeds budget"

def materialize (body : Option MessageBlock) : Except String MessageBlock :=
  match body with
  | none => .error "missing required immutable Original body"
  | some message =>
    if CanonicalMessageRef.matchesBody source encoding message then .ok message
    else .error "checkpoint Original body integrity mismatch"

def loadOriginal : Loader σ MessageBlock := do
  let dependency ← resolveSource resolve source true
  verifyDependency candidate source dependency
  keepOriginal encoding source.messageId (← materialize encoding source dependency.body)

def reuseOriginal (message : MessageBlock) : Except String MessageBlock :=
  if CanonicalMessageRef.matchesBody source encoding message then .ok message
  else .error "conflicting checkpoint Original integrity"

def original : Loader σ MessageBlock := do
  require (source.conversationId == candidate.readCut.conversationId)
    "foreign checkpoint Original source"
  match ← cachedOriginal source.messageId with
  | some message => reuseOriginal encoding source message
  | none => loadOriginal encoding resolve candidate source

end

def needsNativeBody : ProjectedMessage → Bool
  | .assistant content => content.any fun
    | .reasoning block => block.providerState.isSome
    | _ => false
  | _ => false

def checkProvenance (derived : DerivedModelMessage) : Except String Unit := do
  require (!(derived.sources.isEmpty && derived.checkpointSources.isEmpty))
    "historical Derived message requires immutable provenance"
  require (!derived.checkpointSources.any fun source =>
    source.conversationId != candidate.readCut.conversationId ||
      source.checkpointId == candidate.checkpointId)
    "foreign or self-referential checkpoint provenance"
  match derived.message with
  | .user _ source .compactionContext _ =>
    require (source == .runtime && derived.transformations.contains .summary)
      "compaction context requires Runtime origin and Summary provenance"
  | _ => .ok ()

def loadSource (body : Bool) (source : CanonicalMessageRef) : Loader σ Unit :=
  if body then do
    let _ ← original encoding resolve candidate source
  else do
    let dependency ← resolveSource resolve source false
    verifyDependency candidate source dependency

def loadMessage : CheckpointMessage → Loader σ ModelInputMessage
  | .original reference => do
    return .canonical (← original encoding resolve candidate reference)
  | .derived derived => do
    checkProvenance candidate derived
    forM derived.sources (loadSource encoding resolve candidate (needsNativeBody derived.message))
    return .derived derived

def isAssistantWith (condition : List Conversation.AssistantContentBlock → Bool) :
    Option MessageBlock → Bool
  | some (.assistant assistant) => condition assistant.content
  | _ => false

def checkReasoning (originals : List (MessageId × MessageBlock)) (sources : List CanonicalMessageRef)
    (content : List Conversation.AssistantContentBlock) (reasoning : Conversation.ReasoningBlock) :
    Except String Unit := do
  let holds (condition : List Conversation.AssistantContentBlock → Bool) :=
    sources.any fun source => isAssistantWith condition (originals.lookup source.messageId)
  match reasoning.providerState with
  | none => .ok ()
  | some state => do
    match state with
    | .openAiStateless _ =>
      require (holds fun native => native = content)
        "changed complete native reasoning/output replay unit"
    | _ => .ok ()
    require (holds fun native => native.contains (.reasoning reasoning))
      "changed or invented native reasoning replay unit"

def reasoningBlock? : Conversation.AssistantContentBlock → Option Conversation.ReasoningBlock
  | .reasoning block => some block
  | _ => none

def validateNativeReasoning (message : ModelInputMessage)
    (originals : List (MessageId × MessageBlock)) : Except String Unit :=
  match message with
  | .derived { message := .assistant content, sources, .. } =>
    forM (content.filterMap reasoningBlock?) (checkReasoning originals sources content)
  | _ => .ok ()

def admitMessage (message : ModelInputMessage) : Loader σ ModelInputMessage := fun loading => do
  validateNativeReasoning message loading.originals
  require (encoding.inputBytes message ≤ loading.outputBudget)
    "compiled checkpoint cumulative materialization budget exceeded"
  return (message, { loading with
    outputBudget := loading.outputBudget - encoding.inputBytes message })

def loadItem (item : CheckpointItem) : Loader σ ModelInputMessage := do
  let message ← loadMessage encoding resolve candidate item.message
  forM item.callSources fun source => loadSource encoding resolve candidate true source.assistant
  admitMessage encoding message

def loadItems : List CheckpointItem → Loader σ (List ModelInputMessage)
  | [] => pure []
  | item :: items => do
    let message ← loadItem encoding resolve candidate item
    return message :: (← loadItems items)

def load (start : σ) : Except String (List ModelInputMessage × Loading σ) :=
  loadItems encoding resolve candidate candidate.items
    { resolver := start, originals := [], sourceBudget := maxMaterializedBytes
      outputBudget := maxMaterializedBytes }

end Loader

structure Call where
  source : ToolCallOccurrenceRef
  wireId : ToolCallId
  toolId : ToolId
  deriving DecidableEq

def callBlocks (content : List Conversation.AssistantContentBlock) : List (Nat × ToolCall) :=
  content.zipIdx.filterMap fun (block, index) => block.call?.map (index, ·)

section Collect

variable (candidate : CheckpointCandidate) (originals : List (MessageId × MessageBlock))

def occurrence (index : Nat) : Except String CheckpointMessageOccurrence :=
  if index < 2 ^ 32 then .ok { checkpointId := candidate.checkpointId, itemIndex := index }
  else .error "checkpoint coordinate overflow"

/-- The canonical block a derived call names, checked against its body. -/
def derivedSource (derived : DerivedModelMessage) (source : ProjectedCallSource) (call : ToolCall) :
    Except String ToolCallOccurrenceRef := do
  require (derived.sources.contains source.assistant)
    "Derived call source is absent from scoped provenance"
  match originals.lookup source.assistant.messageId with
  | some (.assistant assistant) =>
    match assistant.content[source.canonicalBlock]? with
    | some (.toolCall native) => do
      require (native.toolId == call.toolId) "Derived call changes canonical Tool ownership"
      return { assistantMessageId := assistant.id, blockIndex := source.canonicalBlock }
    | _ => .error "Derived call source is not a canonical ToolCall"
  | _ => .error "Derived call source is not Assistant"

def callSource (item : CheckpointItem) (message : ModelInputMessage) (block : Nat)
    (call : ToolCall) : Except String ToolCallOccurrenceRef :=
  match message with
  | .canonical (.assistant assistant) => do
    require item.callSources.isEmpty "Original call has rewritten block coordinates"
    return { assistantMessageId := assistant.id, blockIndex := block }
  | .derived derived =>
    match item.callSources.filter fun source => source.block = block with
    | [source] => derivedSource originals derived source call
    | _ => .error "Derived call needs one explicit canonical block source"
  -- no other message has an assistant view
  | _ => .error "Assistant semantic view belongs to Assistant content"

/-- The calls of one batch; `seen` are the wire ids before them. -/
def batchCalls (index : Nat) (item : CheckpointItem) (message : ModelInputMessage) :
    List ToolCallId → List (Nat × ToolCall) → Except String (List (CheckpointCallCoordinate × Call))
  | _, [] => .ok []
  | seen, (block, call) :: rest => do
    require (!seen.contains call.id) "duplicate wire ID inside projected batch"
    require (block < 2 ^ 32) "projected block overflow"
    let source ← callSource originals item message block call
    let here ← occurrence candidate index
    let calls ← batchCalls index item message (call.id :: seen) rest
    return ({ message := here, block }, { source, wireId := call.id, toolId := call.toolId }) :: calls

def usedSources (message : ModelInputMessage) (calls : Nat) : Nat :=
  match message with
  | .derived _ => calls
  | _ => 0

def messageCalls (index : Nat) (item : CheckpointItem) (message : ModelInputMessage) :
    Except String (List (CheckpointCallCoordinate × Call)) :=
  match message.view with
  | .assistant content => do
    let calls ← batchCalls candidate originals index item message [] (callBlocks content)
    require (item.callSources.isEmpty ||
      usedSources message calls.length == item.callSources.length)
      "unused or duplicate Derived call source"
    return calls
  | _ => do
    require item.callSources.isEmpty "call source belongs to a non-Assistant item"
    return []

def collectCalls : Nat → List CheckpointItem → List ModelInputMessage →
    Except String (List (CheckpointCallCoordinate × Call))
  | index, item :: items, message :: messages => do
    let calls ← messageCalls candidate originals index item message
    return calls ++ (← collectCalls (index + 1) items messages)
  | _, _, _ => .ok []

end Collect

structure Pairings where
  paired : List CheckpointCallCoordinate := []
  tools : List CompiledToolAssociation := []
  pending : List CheckpointCallCoordinate := []

def resultTool : ModelInputMessage → Option ToolId
  | .canonical (.tool tool) => some tool.toolId
  | .derived { message := .tool _ tool _, .. } => some tool
  | _ => none

def recordedOccurrence : ModelInputMessage → Option ToolCallOccurrenceRef
  | .canonical (.tool tool) => some tool.occurrence
  | _ => none

section Pair

variable (candidate : CheckpointCandidate) (calls : List (CheckpointCallCoordinate × Call))

def resultTarget (item : CheckpointItem) (message : ModelInputMessage) :
    Except String CheckpointCallCoordinate :=
  match item.resultCall with
  | some target => .ok target
  | none =>
    match recordedOccurrence message with
    | none => .error "Derived result needs explicit projected call coordinate"
    | some recorded =>
      match calls.filter fun entry => entry.2.source = recorded with
      | [owner] => .ok owner.1
      | _ => .error "orphan or ambiguous Original ToolResult"

def pairResult (here : CheckpointMessageOccurrence) (message : ModelInputMessage)
    (wireId : ToolCallId) (target : CheckpointCallCoordinate) (state : Pairings) :
    Except String Pairings :=
  match calls.lookup target with
  | none => .error "orphan projected ToolResult"
  | some call => do
    require (decide (target.message.itemIndex < here.itemIndex) && state.pending.contains target &&
      !state.paired.contains target)
      "projected result is duplicate or outside its complete Tool batch"
    require ((recordedOccurrence message).all (· == call.source))
      "Original result maps to another physical ToolCall"
    require (resultTool message == some call.toolId && wireId == call.wireId)
      "projected ToolResult disagrees with call correlation or Tool ownership"
    let association : CompiledToolAssociation :=
      { call := target, result := here, canonicalSource := call.source, wireId := call.wireId }
    return { paired := target :: state.paired, pending := state.pending.erase target
             tools := state.tools ++ [association] }

def pairMessage (index : Nat) (item : CheckpointItem) (message : ModelInputMessage)
    (state : Pairings) : Except String Pairings := do
  let here ← occurrence candidate index
  match message.view with
  | .tool wireId _ => do
    let target ← resultTarget calls item message
    pairResult calls here message wireId target state
  | _ => do
    require item.resultCall.isNone "result coordinate belongs to a non-Tool item"
    require state.pending.isEmpty "historical projection splits an unresolved Tool batch"
    return { state with
      pending := (calls.map Prod.fst).filter fun coordinate => coordinate.message = here }

def pairMessages : Nat → List CheckpointItem → List ModelInputMessage → Pairings →
    Except String Pairings
  | index, item :: items, message :: messages, state => do
    let state ← pairMessage candidate calls index item message state
    pairMessages (index + 1) items messages state
  | _, _, _, state => .ok state

def pairResults (messages : List ModelInputMessage) :
    Except String (List CompiledToolAssociation) := do
  let state ← pairMessages candidate calls 0 candidate.items messages {}
  require (state.paired.length == calls.length)
    "historical projection contains orphan ToolCalls"
  return state.tools

end Pair

def compileCheckpoint {σ : Type} (encoding : Encoding) (resolve : Resolver σ) (start : σ)
    (candidate : CheckpointCandidate) : Except String CompiledCheckpoint := do
  candidate.validateBudget
  let (messages, loading) ← load encoding resolve candidate start
  let calls ← collectCalls candidate loading.originals 0 candidate.items messages
  let tools ← pairResults candidate calls messages
  return { messages, tools }

end RustX.Context
