import RustX.Model.Adapter
import RustX.Model.Assembly

/-!
The Chat Completions adapter: chunks of a provider stream become canonical
events. A block gets its canonical index when it is first seen. Text, reasoning
and refusal are visible from then on; a tool call only once its id and its name
are known.
-/
namespace RustX.Chat

open Checked

inductive ChatToolProtocol
  | native | qwenXml
  deriving DecidableEq

def ChatToolProtocol.asStr : ChatToolProtocol → String
  | native => "native"
  | qwenXml => "Qwen XML"

/-- The recognizer of a leaked in-band tool region, by the shape it found. -/
class ReservedProtocol where
  toolProtocolEmission : String → Option String

structure FunctionChunk where
  name : Option String := none
  arguments : Option String := none

def FunctionChunk.hasArguments (function : Option FunctionChunk) : Bool :=
  (function.bind FunctionChunk.arguments).any (· ≠ "")

structure ToolCallChunk where
  index : Nat
  id : Option String := none
  toolType : Option String := none
  custom : Option Json := none
  mcp : Option Json := none
  function : Option FunctionChunk := none

structure ToolCallSnapshot where
  id : Option String := none
  toolType : Option String := none
  function : Option FunctionChunk := none
  custom : Option Json := none
  mcp : Option Json := none

structure Delta where
  content : Option String := none
  reasoning : Option String := none
  reasoningContent : Option String := none
  reasoningDetails : Option (List Json) := none
  refusal : Option String := none
  functionCall : Option Json := none
  audio : Option Json := none
  toolCalls : Option (List ToolCallChunk) := none

structure MessageSnapshot where
  content : Option String := none
  reasoning : Option String := none
  reasoningContent : Option String := none
  reasoningDetails : Option (List Json) := none
  refusal : Option String := none
  audio : Option Json := none
  toolCalls : Option (List ToolCallSnapshot) := none

structure Choice where
  index : Option Nat := none
  delta : Option Delta := none
  message : Option MessageSnapshot := none
  finishReason : Option String := none

structure BaseResponse where
  statusCode : Option Int := none
  statusMsg : Option String := none

structure ChunkWire where
  choices : List Choice := []
  usage : Option Json := none
  moderation : Option Json := none
  videoResult : Option Json := none
  webSearch : Option Json := none
  contentFilter : Option Json := none
  inputSensitive : Option Bool := none
  outputSensitive : Option Bool := none
  inputSensitiveType : Option Int := none
  outputSensitiveType : Option Int := none
  baseResp : Option BaseResponse := none

/-- A raw chunk after the first look at it: it carries an `error` member, does
not fit the wire shape, or is read. -/
inductive Chunk
  | streamError (error : ModelError)
  | malformed (reason : String)
  | wire (chunk : ChunkWire)

def nonNullValue (value : Option Json) : Bool :=
  value.any (· ≠ .null)

def valueHasOutput : Option Json → Bool
  | none | some .null => false
  | some (.array items) => !items.isEmpty
  | some (.object fields) => !fields.isEmpty
  | some (.string text) => text ≠ ""
  | some (.bool value) => value
  | some (.number _) => true

/-- The shared usage reader of the two protocols. A report without any figure is
no report. -/
def normalizeUsage (usage : Json) (inputField outputField inputDetails outputDetails : String) :
    Option ModelUsage :=
  let inputTokens := (usage.get inputField).bind Json.asU64
  let outputTokens := (usage.get outputField).bind Json.asU64
  let totalTokens := ((usage.get "total_tokens").bind Json.asU64).orElse fun _ =>
    inputTokens.bind fun input => outputTokens.bind (checkedAdd input)
  let reasoningTokens :=
    ((usage.get outputDetails).bind (·.get "reasoning_tokens")).bind Json.asU64
  let cachedInputTokens :=
    ((usage.get inputDetails).bind (·.get "cached_tokens")).bind Json.asU64
  let details :=
    if reasoningTokens.isSome || cachedInputTokens.isSome then
      some { reasoningTokens := reasoningTokens, cachedInputTokens := cachedInputTokens }
    else none
  if inputTokens.isSome || outputTokens.isSome || totalTokens.isSome || details.isSome then
    some { inputTokens := inputTokens, outputTokens := outputTokens, totalTokens := totalTokens
           details := details }
  else none

def normalizeChatUsage (usage : Json) : Option ModelUsage :=
  normalizeUsage usage "prompt_tokens" "completion_tokens" "prompt_tokens_details"
    "completion_tokens_details"

def ChunkWire.reportedUsage (chunk : ChunkWire) : Option ModelUsage :=
  chunk.usage.bind normalizeChatUsage

def mapChatFinishReason : String → ModelFinishReason
  | "stop" => .stop
  | "tool_calls" => .toolCalls
  | "length" => .length
  | "content_filter" | "sensitive" => .contentFilter
  | other => .other other

/-- The reasoning of a delta under its two spellings. -/
def Delta.reasoningDelta (delta : Delta) : Except ModelError (Option String) :=
  match delta.reasoning.filter (· ≠ ""), delta.reasoningContent.filter (· ≠ "") with
  | some reasoning, some reasoningContent =>
    if reasoning ≠ reasoningContent then
      .error (.provider "chat chunk contains conflicting reasoning and reasoning_content deltas")
    else .ok (some reasoning)
  | some reasoning, none => .ok (some reasoning)
  | none, some reasoningContent => .ok (some reasoningContent)
  | none, none => .ok none

/-- The reasoning of a snapshot: of two spellings the one that is not empty. -/
def MessageSnapshot.reasoningValue (message : MessageSnapshot) :
    Except ModelError (Option String) :=
  match message.reasoning, message.reasoningContent with
  | some reasoning, some reasoningContent =>
    if reasoning ≠ "" ∧ reasoningContent ≠ "" ∧ reasoning ≠ reasoningContent then
      .error (.provider "chat message contains conflicting reasoning and reasoning_content values")
    else if reasoning ≠ "" then .ok (some reasoning)
    else if reasoningContent ≠ "" then .ok (some reasoningContent)
    else .ok (some reasoning)
  | some reasoning, none => .ok (some reasoning)
  | none, reasoningContent => .ok reasoningContent

inductive BlockKey
  /-- The one text, reasoning or refusal block of the single choice. -/
  | content (kind : BlockKind)
  /-- A tool call by its provider tool index. -/
  | tool (index : Nat)
  deriving DecidableEq

structure ToolAssembly where
  blockIndex : ContentBlockIndex
  callId : Option ToolCallId
  name : Option String
  arguments : String
  started : Bool

structure ChatStreamNormalizer where
  tools : ValidatedTools
  toolProtocol : ChatToolProtocol
  blocks : BlockAllocator BlockKey
  toolCalls : List (Nat × ToolAssembly)
  usage : Option ModelUsage
  finishReason : Option ModelFinishReason
  /-- What was streamed of each kind. -/
  buffer : BlockKind → Option String
  bufferedGeneration : Bool

def contentDelta : BlockKind → ContentBlockIndex → String → ModelEvent
  | .text, index, text => .textDelta index text
  | .reasoning, index, text => .reasoningDelta index text
  | .refusal, index, text => .refusalDelta index text

abbrev Emitted := Except ModelError (ChatStreamNormalizer × List ModelEvent)

/-- What a chunk brings, piece by piece in the order the adapter takes it. -/
inductive Piece
  | delta (kind : BlockKind) (text : String)
  | toolChunk (chunk : ToolCallChunk)
  | snapshot (kind : BlockKind) (text : String)
  | toolSnapshot (index : Nat) (snapshot : ToolCallSnapshot)

namespace ChatStreamNormalizer

def new (tools : ValidatedTools) (toolProtocol : ChatToolProtocol) : ChatStreamNormalizer where
  tools := tools
  toolProtocol := toolProtocol
  blocks := .new
  toolCalls := []
  usage := none
  finishReason := none
  buffer _ := none
  bufferedGeneration := false

section

variable (normalizer : ChatStreamNormalizer)

section

variable (kind : BlockKind)

def emit (text : String) : ChatStreamNormalizer × List ModelEvent :=
  let allocated := normalizer.blocks.allocate (.content kind)
  ({ normalizer with blocks := allocated.2 }, [contentDelta kind allocated.1 text])

def setBuffer (text : String) : ChatStreamNormalizer :=
  { normalizer with buffer := Function.update normalizer.buffer kind (some text) }

def pushContentDelta (text : String) : ChatStreamNormalizer × List ModelEvent :=
  (normalizer.setBuffer kind ((normalizer.buffer kind).getD "" ++ text)).emit kind text

/-- A cumulative value only shows what no delta has streamed. -/
def pushContentSnapshot (text : String) : ChatStreamNormalizer × List ModelEvent :=
  if (normalizer.buffer kind).isSome then (normalizer, [])
  else if text = "" then (normalizer.setBuffer kind text, [])
  else (normalizer.setBuffer kind text).emit kind text

def validateSnapshot (snapshot : Option String) : Except ModelError Unit :=
  match snapshot, normalizer.buffer kind with
  | some snapshot, some streamed =>
    require (streamed = snapshot) (.provider
      s!"Chat cumulative {kind.describe} snapshot disagrees with streamed {kind.describe}")
  | _, _ => .ok ()

end

def noteGeneration (generated : Bool) : ChatStreamNormalizer :=
  { normalizer with bufferedGeneration := normalizer.bufferedGeneration || generated }

def markBufferedGeneration (chunk : ToolCallChunk) : ChatStreamNormalizer :=
  let assembly := normalizer.toolCalls.lookup chunk.index
  let callIdKnown := (assembly.bind ToolAssembly.callId).isSome || chunk.id.isSome
  let nameKnown := (assembly.bind ToolAssembly.name).isSome ||
    (chunk.function.bind FunctionChunk.name).isSome
  let unstarted := assembly.all fun assembly => !assembly.started
  normalizer.noteGeneration
    (FunctionChunk.hasArguments chunk.function && unstarted && !(callIdKnown && nameKnown))

section

variable (index : Nat)

def openAssembly : ChatStreamNormalizer × ToolAssembly :=
  match normalizer.toolCalls.lookup index with
  | some assembly => (normalizer, assembly)
  | none =>
    let allocated := normalizer.blocks.allocate (.tool index)
    let assembly :=
      { blockIndex := allocated.1, callId := none, name := none, arguments := "", started := false }
    ({ normalizer with
        blocks := allocated.2, toolCalls := Assoc.insert index assembly normalizer.toolCalls },
      assembly)

section

variable (assembly : ToolAssembly)

def setAssembly : ChatStreamNormalizer :=
  { normalizer with toolCalls := Assoc.insert index assembly normalizer.toolCalls }

/-- Record an identity part once; it may repeat but not change. -/
def record (known new : Option String) (error : ModelError) : Except ModelError (Option String) :=
  match new with
  | none => .ok known
  | some value => if known.all (· = value) then .ok (some value) else .error error

def recordChunk (chunk : ToolCallChunk) : Except ModelError ToolAssembly := do
  let callId ← record assembly.callId chunk.id (.provider
    s!"provider changed the invocation id of tool call index {chunk.index}")
  let name ← record assembly.name (chunk.function.bind FunctionChunk.name) (.provider
    s!"provider changed the function name of tool call index {chunk.index}")
  let more := (chunk.function.bind FunctionChunk.arguments).getD ""
  .ok { assembly with callId := callId, name := name, arguments := assembly.arguments ++ more }

def startBufferedToolCall : Emitted :=
  match assembly.callId, assembly.name with
  | some callId, some name => do
    let start ← resolveToolIdentity (some callId) (some name) normalizer.tools
    .ok (normalizer.setAssembly index { assembly with started := true },
      .toolCallStarted assembly.blockIndex start :: if assembly.arguments = "" then []
        else [.toolCallArgumentsDelta assembly.blockIndex callId assembly.arguments])
  | _, _ => .ok (normalizer, [])

def pushToolCallChunk (chunk : ToolCallChunk) : Emitted := do
  require (chunk.toolType.all (· = "function") && !nonNullValue chunk.custom &&
      !nonNullValue chunk.mcp)
    (.unsupported ("custom Chat Completions tool calls cannot be represented as canonical JSON " ++
      "function calls"))
  let (normalizer, opened) := (normalizer.markBufferedGeneration chunk).openAssembly chunk.index
  let assembly ← recordChunk opened chunk
  let normalizer := normalizer.setAssembly chunk.index assembly
  if assembly.started then
    let delta := (chunk.function.bind FunctionChunk.arguments).getD ""
    -- A started call has its id.
    .ok (normalizer, if delta = "" then [] else
      [.toolCallArgumentsDelta assembly.blockIndex (assembly.callId.getD "") delta])
  else normalizer.startBufferedToolCall chunk.index assembly

/-- Merge a cumulative call into an assembly that has not started: the longer of
two compatible argument texts stays. -/
def mergeToolCallSnapshot (snapshot : ToolCallSnapshot) : Except ModelError ToolAssembly := do
  let callId ← record assembly.callId (snapshot.id.filter (· ≠ "")) (.provider
    s!"tool call snapshot changed the invocation id at index {index}")
  let name ← record assembly.name (snapshot.function.bind FunctionChunk.name) (.provider
    s!"tool call snapshot changed the function name at index {index}")
  let assembly := { assembly with callId := callId, name := name }
  match snapshot.function.bind FunctionChunk.arguments with
  | none => .ok assembly
  | some arguments =>
    if assembly.arguments = "" || arguments.startsWith assembly.arguments then
      .ok { assembly with arguments := arguments }
    else if assembly.arguments.startsWith arguments then .ok assembly
    else .error (.provider
      s!"tool call snapshot disagrees with streamed arguments at index {index}")

end

def checkToolCallSnapshot (existing : ToolAssembly) (snapshot : ToolCallSnapshot) :
    Except ModelError Unit := do
  let _ ← record existing.callId (snapshot.id.filter (· ≠ "")) (.provider
    s!"tool call snapshot changed the invocation id at index {index}")
  let _ ← record existing.name (snapshot.function.bind FunctionChunk.name) (.provider
    s!"tool call snapshot changed the function name at index {index}")
  require ((snapshot.function.bind FunctionChunk.arguments).all fun arguments =>
      existing.arguments = "" || existing.arguments = arguments)
    (.provider s!"tool call snapshot disagrees with streamed arguments at index {index}")

def pushToolCallSnapshot (snapshot : ToolCallSnapshot) : Emitted := do
  require (!nonNullValue snapshot.mcp)
    (.unsupported "provider-hosted MCP calls are not canonical rustX function calls")
  match normalizer.toolCalls.lookup index with
  | some existing =>
    if existing.started then do
      checkToolCallSnapshot index existing snapshot
      .ok (normalizer, [])
    else do
      let assembly ← mergeToolCallSnapshot index existing snapshot
      let incomplete := assembly.callId.isNone || assembly.name.isNone
      let noted := normalizer.noteGeneration
        (FunctionChunk.hasArguments snapshot.function && incomplete)
      (noted.setAssembly index assembly).startBufferedToolCall index assembly
  | none =>
    normalizer.pushToolCallChunk
      { index := index, id := snapshot.id, toolType := snapshot.toolType, custom := snapshot.custom
        mcp := snapshot.mcp, function := snapshot.function }

end

def pushPiece : Piece → Emitted
  | .delta kind text => .ok (normalizer.pushContentDelta kind text)
  | .toolChunk chunk => normalizer.pushToolCallChunk chunk
  | .snapshot kind text => .ok (normalizer.pushContentSnapshot kind text)
  | .toolSnapshot index snapshot => do
    require (index < 2 ^ 32) (.provider "too many tool call snapshots")
    normalizer.pushToolCallSnapshot index snapshot

def pushPieces (normalizer : ChatStreamNormalizer) : List Piece → Emitted
  | [] => .ok (normalizer, [])
  | piece :: rest => do
    let (next, events) ← normalizer.pushPiece piece
    let (last, more) ← next.pushPieces rest
    .ok (last, events ++ more)

def deltaPieces (delta : Delta) (reasoning : Option String) : List Piece :=
  (reasoning.map (Piece.delta .reasoning)).toList ++
    ((delta.content.filter (· ≠ "")).map (Piece.delta .text)).toList ++
    ((delta.refusal.filter (· ≠ "")).map (Piece.delta .refusal)).toList ++
    (delta.toolCalls.getD []).map .toolChunk

def pushDelta (delta : Delta) : Emitted := do
  require delta.functionCall.isNone (.unsupported
    "deprecated Chat Completions function_call deltas lack a stable invocation id")
  require (!nonNullValue delta.audio) (.unsupported
    "Chat Completions audio deltas have no canonical representation")
  require (delta.reasoningDetails.all List.isEmpty) (.unsupported
    "structured Chat Completions reasoning_details require lossless replay state")
  let reasoning ← delta.reasoningDelta
  normalizer.pushPieces (deltaPieces delta reasoning)

def snapshotPieces (message : MessageSnapshot) (reasoning : Option String) : List Piece :=
  (reasoning.map (Piece.snapshot .reasoning)).toList ++
    (message.content.map (Piece.snapshot .text)).toList ++
    (message.refusal.map (Piece.snapshot .refusal)).toList ++
    ((message.toolCalls.getD []).zipIdx.map fun entry => .toolSnapshot entry.2 entry.1)

def pushMessageSnapshot (message : MessageSnapshot) : Emitted := do
  require (!nonNullValue message.audio) (.unsupported
    "Chat Completions audio output has no canonical representation")
  require (message.reasoningDetails.all List.isEmpty) (.unsupported
    "structured Chat Completions reasoning_details require lossless replay state")
  let reasoning ← message.reasoningValue
  normalizer.validateSnapshot .reasoning reasoning
  normalizer.validateSnapshot .text message.content
  normalizer.validateSnapshot .refusal message.refusal
  normalizer.pushPieces (snapshotPieces message reasoning)

/-- The finish reason, unless it stands for a failure. -/
def readFinishReason (reason : String) : Except ModelError ModelFinishReason :=
  if reason = "function_call" then
    .error (.unsupported ("deprecated Chat Completions function_call finish semantics lack a " ++
      "canonical invocation id"))
  else if reason.toLower = "malformed_function_call" || reason.toLower = "malformed_tool_call" then
    .error (.malformed .providerDeclared (s!"the provider terminated the generation with " ++
      s!"{debug reason}: it declared the model's tool call malformed"))
  else if isContextWindowError "" (some reason) then
    .error { kind := .contextWindowExceeded, providerCode := some reason
             message := s!"provider terminated Chat Completions generation with {debug reason}" }
  else if ["error", "network_error", "insufficient_system_resource", "abort"].contains reason then
    .error { kind := .providerError, providerCode := some reason
             message := s!"provider terminated Chat Completions generation with {debug reason}" }
  else .ok (mapChatFinishReason reason)

section

variable (choice : Choice)

def pushChoiceDelta : Emitted :=
  match choice.delta with
  | some delta => normalizer.pushDelta delta
  | none => .ok (normalizer, [])

def pushChoiceMessage : Emitted :=
  match choice.message with
  | some message => normalizer.pushMessageSnapshot message
  | none => .ok (normalizer, [])

def setFinishReason : Except ModelError ChatStreamNormalizer :=
  match choice.finishReason with
  | some reason => do
    let finishReason ← readFinishReason reason
    .ok { normalizer with finishReason := some finishReason }
  | none => .ok normalizer

def checkChoiceIndex : Except ModelError Unit :=
  match choice.index with
  | none => .error (.provider "Chat Completions choice lacks an index")
  | some index =>
    require (index = 0) (.unsupported (s!"Chat Completions choice index {index} cannot " ++
      "be represented as the single canonical Assistant turn"))

def pushChoice : Emitted := do
  checkChoiceIndex choice
  let (streamed, deltas) ← normalizer.pushChoiceDelta choice
  let (merged, snapshots) ← streamed.pushChoiceMessage choice
  let finished ← merged.setFinishReason choice
  .ok (finished, deltas ++ snapshots)

end

/-- `base_resp`: a status other than zero fails the generation. -/
def checkBaseResponse (base : BaseResponse) : Except ModelError Unit :=
  match base.statusCode with
  | none => .ok ()
  | some code =>
    if code = 0 then .ok ()
    else
      let message := base.statusMsg.getD "provider reported an unsuccessful base_resp"
      let kind : ModelErrorKind :=
        if code = 401 ∨ code = 403 then .authentication
        else if code = 408 then .timeout
        else if code = 429 then .rateLimit
        else if isContextWindowError message (some (toString code)) then .contextWindowExceeded
        else if code = 400 then .invalidRequest
        else .providerError
      .error { kind := kind, message := message, providerCode := some (toString code) }

def noteUsage (chunk : ChunkWire) : ChatStreamNormalizer :=
  { normalizer with usage := chunk.reportedUsage.or normalizer.usage }

def pushWire (chunk : ChunkWire) : Emitted := do
  require (!(valueHasOutput chunk.moderation || valueHasOutput chunk.videoResult ||
      valueHasOutput chunk.webSearch || valueHasOutput chunk.contentFilter ||
      chunk.inputSensitive = some true || chunk.outputSensitive = some true ||
      chunk.inputSensitiveType.any (· ≠ 0) || chunk.outputSensitiveType.any (· ≠ 0)))
    (.unsupported ("Chat Completions moderation, search, video, or sensitive-output data has no " ++
      "canonical representation"))
  whenSome chunk.baseResp checkBaseResponse
  require (chunk.choices.length ≤ 1) (.unsupported ("multiple Chat Completions choices " ++
    "cannot be represented as one canonical Assistant turn"))
  let reported := (chunk.reportedUsage.map ModelEvent.usageUpdate).toList
  match chunk.choices with
  | [] => .ok (normalizer.noteUsage chunk, reported)
  | choice :: _ =>
    let (next, events) ← (normalizer.noteUsage chunk).pushChoice choice
    .ok (next, reported ++ events)

def pushEvents : Chunk → Emitted
  | .streamError error => .error error
  | .malformed reason => .error (.provider s!"malformed chat chunk: {reason}")
  | .wire chunk => normalizer.pushWire chunk

def resetGeneration : ChatStreamNormalizer :=
  { normalizer with bufferedGeneration := false }

def push (chunk : Chunk) : Except ModelError (ChatStreamNormalizer × List ModelStreamItem) := do
  let (next, events) ← normalizer.resetGeneration.pushEvents chunk
  .ok (next, events.map .event ++ if next.bufferedGeneration then [.progress .generation] else [])

end

variable [JsonParser]

/-- Complete every assembled call: the argument text is parsed here, once. -/
def completeCalls (tools : ValidatedTools) : List (Nat × ToolAssembly) →
    Except ModelError (List ModelEvent)
  | [] => .ok []
  | (_, assembly) :: rest => do
    let start ← resolveToolIdentity assembly.callId assembly.name tools
    let call ← acceptToolCallArguments start assembly.arguments
    let more ← completeCalls tools rest
    .ok (.toolCallCompleted assembly.blockIndex call :: more)

variable [ReservedProtocol]

/-- The failure of a complete generation that leaked reserved markup and made no
structured call. -/
def reservedProtocolResidue (normalizer : ChatStreamNormalizer)
    (finishReason : ModelFinishReason) : Option ModelError :=
  if normalizer.toolProtocol = .native || normalizer.tools.isEmpty then none
  else if finishReason ≠ .stop ∧ finishReason ≠ .toolCalls then none
  else
    let found := ((normalizer.buffer .text).bind ReservedProtocol.toolProtocolEmission).orElse
      fun _ => (normalizer.buffer .reasoning).bind ReservedProtocol.toolProtocolEmission
    found.map fun envelope => .malformed .reservedProtocolLeak
      (s!"the model emitted the reserved {normalizer.toolProtocol.asStr} tool-protocol region " ++
        s!"{envelope} into ordinary output and produced no structured tool call")

def finish (normalizer : ChatStreamNormalizer) : Except ModelError (List ModelEvent) := do
  let completions ← completeCalls normalizer.tools normalizer.toolCalls
  match normalizer.finishReason with
  | none => .error (.provider "provider stream ended without a finish reason")
  | some finishReason =>
    match if normalizer.toolCalls.isEmpty then normalizer.reservedProtocolResidue finishReason
      else none with
    | some residue => .error residue
    | none => .ok (completions ++ [.completed finishReason normalizer.usage])

/-- The events of a whole provider stream after `Started`: the first error ends it
as `Failed`. -/
def stream (normalizer : ChatStreamNormalizer) : List Chunk → List ModelEvent
  | [] =>
    match normalizer.finish with
    | .ok events => events
    | .error error => [.failed error]
  | chunk :: rest =>
    match normalizer.push chunk with
    | .ok (next, items) => items.filterMap ModelStreamItem.event? ++ next.stream rest
    | .error error => [.failed error]

end ChatStreamNormalizer

end RustX.Chat
