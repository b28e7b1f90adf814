import RustX.Model.Adapter
import RustX.Model.Assembly

/-!
The Anthropic Messages adapter: content blocks open, stream and stop under
provider indexes. A block gets its canonical index when it opens, whether or not
it ever shows anything.
-/
namespace RustX.Anthropic

structure WireUsage where
  inputTokens : Option Nat := none
  outputTokens : Option Nat := none
  cacheReadInputTokens : Option Nat := none
  cacheCreationInputTokens : Option Nat := none
  thinkingTokens : Option Nat := none

structure WireContentBlock where
  blockType : Option String := none
  id : Option String := none
  name : Option String := none
  input : Option Json := none
  thinking : Option String := none
  signature : Option String := none
  text : Option String := none
  citations : Option (List Json) := none
  data : Option String := none

structure WireDelta where
  deltaType : Option String := none
  text : Option String := none
  thinking : Option String := none
  signature : Option String := none
  partialJson : Option String := none

structure WireStopDetails where
  explanation : Option String := none

inductive WireEvent
  | messageStart (usage : Option WireUsage) (content : Option (List Json))
  | contentBlockStart (index : Nat) (block : WireContentBlock)
  | contentBlockDelta (index : Nat) (delta : WireDelta)
  | contentBlockStop (index : Nat)
  | messageDelta (reason : Option String) (usage : Option WireUsage)
    (stopDetails : Option WireStopDetails)
  | messageStop
  | ping
  /-- A provider error, as the adapter classifies it. -/
  | error (error : ModelError)
  | unknown

inductive Payload
  | malformed (reason : String)
  | event (event : WireEvent)

inductive BlockKey
  | provider (index : Nat)
  | refusal
  deriving DecidableEq

inductive BlockState
  | text (canonicalIndex : ContentBlockIndex)
  | thinking (canonicalIndex : ContentBlockIndex) (buffer : String) (signature : Option String)
    (stateEmitted : Bool)
  | redactedThinking (canonicalIndex : ContentBlockIndex) (data : String) (stateEmitted : Bool)
  | toolUse (canonicalIndex : ContentBlockIndex) (start : ToolCallStart) (argumentBuffer : String)
    (initialInputComplete sawInputDelta completed : Bool)

def usageHasEvidence (usage : WireUsage) : Bool :=
  usage.inputTokens.isSome || usage.outputTokens.isSome || usage.cacheReadInputTokens.isSome ||
    usage.cacheCreationInputTokens.isSome || usage.thinkingTokens.isSome

/-- The latest cumulative snapshot over that of the message start, never summed. -/
def normalizeUsage (messageStartUsage latestDeltaUsage : Option WireUsage) : ModelUsage :=
  let read (field : WireUsage → Option Nat) :=
    (latestDeltaUsage.bind field).orElse fun _ => messageStartUsage.bind field
  let cacheCreation := (read WireUsage.cacheCreationInputTokens).getD 0
  let cacheRead := read WireUsage.cacheReadInputTokens
  let outputTokens := read WireUsage.outputTokens
  let reasoningTokens := read WireUsage.thinkingTokens
  let inputTokens := (read WireUsage.inputTokens).bind fun base =>
    (checkedAdd base cacheCreation).bind fun sum => checkedAdd sum (cacheRead.getD 0)
  { inputTokens := inputTokens
    outputTokens := outputTokens
    totalTokens := inputTokens.bind fun input => outputTokens.bind (checkedAdd input)
    details :=
      if reasoningTokens.isSome || cacheRead.isSome then
        some { reasoningTokens := reasoningTokens, cachedInputTokens := cacheRead }
      else none }

def mapFinishReason : String → ModelFinishReason
  | "end_turn" | "stop_sequence" => .stop
  | "tool_use" => .toolCalls
  | "max_tokens" => .length
  | "refusal" => .refusal
  | other => .other other

structure AnthropicStreamNormalizer where
  tools : ValidatedTools
  blocks : BlockAllocator BlockKey
  blockStates : List (Nat × BlockState)
  messageStartUsage : Option WireUsage
  latestUsage : Option WireUsage
  stopReason : Option String
  stopDetails : Option WireStopDetails
  refusalBlock : Option ContentBlockIndex
  terminalEmitted : Bool
  pendingProgress : Option ModelStreamProgress

abbrev Emitted := Except ModelError (AnthropicStreamNormalizer × List ModelEvent)

namespace AnthropicStreamNormalizer

def new (tools : ValidatedTools) : AnthropicStreamNormalizer where
  tools := tools
  blocks := .new
  blockStates := []
  messageStartUsage := none
  latestUsage := none
  stopReason := none
  stopDetails := none
  refusalBlock := none
  terminalEmitted := false
  pendingProgress := none

section

variable (normalizer : AnthropicStreamNormalizer)

variable (index : Nat)

def indexOf : ContentBlockIndex :=
  (normalizer.blocks.allocate (.provider index)).1

def openBlock (state : BlockState) : AnthropicStreamNormalizer :=
  { normalizer with
    blocks := (normalizer.blocks.allocate (.provider index)).2
    blockStates := Assoc.insert index state normalizer.blockStates }

def setBlock (state : BlockState) : AnthropicStreamNormalizer :=
  { normalizer with blockStates := Assoc.insert index state normalizer.blockStates }

def startTextBlock (block : WireContentBlock) : Emitted := do
  Checked.require (block.citations.all List.isEmpty)
    (.unsupported "Anthropic text citations have no canonical representation")
  let canonicalIndex := normalizer.indexOf index
  .ok (normalizer.openBlock index (.text canonicalIndex),
    ((block.text.filter (· ≠ "")).map (ModelEvent.textDelta canonicalIndex)).toList)

def startThinkingBlock (block : WireContentBlock) : AnthropicStreamNormalizer × List ModelEvent :=
  let canonicalIndex := normalizer.indexOf index
  let initialThinking := block.thinking.getD ""
  (normalizer.openBlock index (.thinking canonicalIndex initialThinking block.signature false),
    if initialThinking = "" then [] else [.reasoningDelta canonicalIndex initialThinking])

def startRedactedThinkingBlock (block : WireContentBlock) : Emitted :=
  match block.data with
  | none => .error (.provider "provider redacted_thinking block lacks the opaque data field")
  | some data =>
    .ok (normalizer.openBlock index (.redactedThinking (normalizer.indexOf index) data false), [])

end

section ToolUse

variable [FloatText]

/-- The input a `tool_use` block starts with; an empty object is only a
placeholder for streamed fragments. -/
def initialInput (block : WireContentBlock) : Json :=
  block.input.getD (.object [])

def initialInputComplete (block : WireContentBlock) : Bool :=
  match initialInput block with
  | .object fields => !fields.isEmpty
  | _ => true

def startToolUseBlock (normalizer : AnthropicStreamNormalizer) (index : Nat)
    (block : WireContentBlock) : Emitted := do
  let canonicalIndex := normalizer.indexOf index
  let call ← resolveToolIdentity block.id block.name normalizer.tools
  let argumentBuffer := (initialInput block).text
  .ok (normalizer.openBlock index (.toolUse canonicalIndex call argumentBuffer
      (initialInputComplete block) false false),
    .toolCallStarted canonicalIndex call :: if initialInputComplete block then
        [.toolCallArgumentsDelta canonicalIndex call.id argumentBuffer]
      else [])

def pushContentBlockStart (normalizer : AnthropicStreamNormalizer) (index : Nat)
    (block : WireContentBlock) : Emitted :=
  if (normalizer.blockStates.lookup index).isSome then
    .error (.provider s!"duplicate content block start for index {index}")
  else
    match block.blockType with
    | some "text" => normalizer.startTextBlock index block
    | some "thinking" => .ok (normalizer.startThinkingBlock index block)
    | some "redacted_thinking" => normalizer.startRedactedThinkingBlock index block
    | some "tool_use" => normalizer.startToolUseBlock index block
    | some "fallback" => .error (.unsupported ("Anthropic fallback blocks require lossless " ++
        "positional replay; server-side fallback is not supported by the M2 adapter"))
    | some other =>
      if ["server_tool_use", "mcp_tool_use", "web_search_tool_result"].contains other then
        .error (.unsupported
          s!"provider-hosted tool block type {debug other} is not a rustX tool call")
      else .error (.unsupported s!"unsupported output-bearing content block type {debug other}")
    | none => .error (.provider "content block without a type")

end ToolUse

section

variable (normalizer : AnthropicStreamNormalizer)

section

variable (index : Nat)

section

variable (delta : WireDelta)

def pushTextDelta : Emitted :=
  match normalizer.blockStates.lookup index with
  | none => .error (.provider s!"text delta for unknown block index {index}")
  | some (.text canonicalIndex) =>
    .ok (normalizer, ((delta.text.filter (· ≠ "")).map (ModelEvent.textDelta canonicalIndex)).toList)
  | some _ => .error (.provider s!"text delta for non-text block index {index}")

def pushThinkingDelta : Emitted :=
  match normalizer.blockStates.lookup index with
  | none => .error (.provider s!"thinking delta for unknown block index {index}")
  | some (.thinking canonicalIndex buffer signature emitted) =>
    let text := delta.thinking.getD ""
    .ok (normalizer.setBlock index (.thinking canonicalIndex (buffer ++ text) signature emitted),
      if text = "" then [] else [.reasoningDelta canonicalIndex text])
  | some _ => .error (.provider s!"thinking delta for non-thinking block index {index}")

def pushSignatureDelta : Emitted :=
  match normalizer.blockStates.lookup index with
  | none => .error (.provider s!"signature delta for unknown block index {index}")
  | some (.thinking canonicalIndex buffer signature emitted) =>
    .ok (normalizer.setBlock index
      (.thinking canonicalIndex buffer (delta.signature.or signature) emitted), [])
  | some _ => .error (.provider s!"signature delta for non-thinking block index {index}")

/-- The first fragment replaces the placeholder. -/
def appendFragment (sawInputDelta : Bool) (buffer fragment : String) : String :=
  if sawInputDelta then buffer ++ fragment else fragment

def pushInputJsonDelta : Emitted :=
  match normalizer.blockStates.lookup index with
  | none => .error (.provider s!"input delta for unknown block index {index}")
  | some (.toolUse canonicalIndex start buffer complete sawInputDelta completed) =>
    let fragment := delta.partialJson.getD ""
    if fragment = "" then .ok (normalizer, [])
    else if complete then
      .error (.provider (s!"tool block index {index} streamed partial JSON after providing " ++
        "complete initial input"))
    else
      .ok (normalizer.setBlock index (.toolUse canonicalIndex start
          (appendFragment sawInputDelta buffer fragment) complete true completed),
        [.toolCallArgumentsDelta canonicalIndex start.id fragment])
  | some _ => .error (.provider s!"input delta for non-tool block index {index}")

def pushContentBlockDelta : Emitted :=
  match delta.deltaType with
  | some "text_delta" => normalizer.pushTextDelta index delta
  | some "thinking_delta" => normalizer.pushThinkingDelta index delta
  | some "signature_delta" => normalizer.pushSignatureDelta index delta
  | some "input_json_delta" => normalizer.pushInputJsonDelta index delta
  | some other => .error (.unsupported s!"unsupported content block delta type {debug other}")
  | none => .error (.provider "content block delta without a type")

end

def thinkingState (buffer signature : String) : ProviderContinuationState :=
  .anthropic (.object [("signature", .string signature), ("thinking", .string buffer),
    ("type", .string "thinking")])

def redactedState (data : String) : ProviderContinuationState :=
  .anthropic (.object [("data", .string data), ("type", .string "redacted_thinking")])

def closeBlock : AnthropicStreamNormalizer :=
  { normalizer with blockStates := normalizer.blockStates.filter fun entry => entry.1 ≠ index }

end

def stopEvents [JsonParser] : BlockState → Except ModelError (List ModelEvent)
  | .text _ => .ok []
  | .thinking canonicalIndex buffer signature emitted =>
    if emitted then .ok []
    else
      match signature.filter (· ≠ "") with
      | none => .error (.provider ("provider thinking block stopped without a signature; a " ++
          "thinking block without provider state cannot be replayed losslessly"))
      | some signature => .ok [.continuationState canonicalIndex (thinkingState buffer signature)]
  | .redactedThinking canonicalIndex data emitted =>
    if emitted then .ok [] else .ok [.continuationState canonicalIndex (redactedState data)]
  | .toolUse canonicalIndex start buffer _ _ completed =>
    if completed then .ok []
    else do
      let call ← acceptToolCallArguments start buffer
      .ok [.toolCallCompleted canonicalIndex call]

def pushContentBlockStop [JsonParser] (normalizer : AnthropicStreamNormalizer) (index : Nat) :
    Emitted :=
  match normalizer.blockStates.lookup index with
  | none => .error (.provider s!"content block stop for unknown index {index}")
  | some state => do
    let events ← stopEvents state
    .ok (normalizer.closeBlock index, events)

def failureEvents (error : ModelError) : List ModelEvent :=
  let usage := (normalizer.latestUsage.or normalizer.messageStartUsage).filter usageHasEvidence
  (usage.map fun usage =>
    ModelEvent.usageUpdate (normalizeUsage normalizer.messageStartUsage (some usage))).toList ++
    [.failed error]

def finalUsage : Option ModelUsage :=
  if normalizer.messageStartUsage.any usageHasEvidence ||
      normalizer.latestUsage.any usageHasEvidence then
    some (normalizeUsage normalizer.messageStartUsage normalizer.latestUsage)
  else none

def refusalExplanation : Option String :=
  if normalizer.stopReason = some "refusal" then
    (normalizer.stopDetails.bind WireStopDetails.explanation).filter (· ≠ "")
  else none

/-- `message_stop`. -/
def terminal : Emitted :=
  if normalizer.terminalEmitted then .ok (normalizer, [])
  else if !normalizer.blockStates.isEmpty then
    .error (.provider (s!"provider reached message_stop with unclosed content block indexes " ++
      toString (normalizer.blockStates.map Prod.fst)))
  else
    let ended := { normalizer with terminalEmitted := true }
    match normalizer.stopReason with
    | none => .error (.provider "provider stream reached message_stop without a stop reason")
    | some stopReason =>
      if isContextWindowError "" (some stopReason) then
        .ok (ended, normalizer.failureEvents
          { kind := .contextWindowExceeded, providerCode := some stopReason
            message := s!"provider terminated Anthropic generation with {debug stopReason}" })
      else
        let completed := .completed (mapFinishReason stopReason) normalizer.finalUsage
        match normalizer.refusalExplanation with
        | none => .ok (ended, [completed])
        | some explanation =>
          match normalizer.refusalBlock with
          | some blockIndex => .ok (ended, [.refusalDelta blockIndex explanation, completed])
          | none =>
            let allocated := normalizer.blocks.allocate .refusal
            .ok ({ ended with blocks := allocated.2, refusalBlock := some allocated.1 },
              [.refusalDelta allocated.1 explanation, completed])

def noteMessageDelta (reason : Option String)
    (usage : Option WireUsage) (stopDetails : Option WireStopDetails) :
    AnthropicStreamNormalizer :=
  { normalizer with
    stopReason := reason.or normalizer.stopReason
    stopDetails := stopDetails.or normalizer.stopDetails
    latestUsage := (usage.filter usageHasEvidence).or normalizer.latestUsage }

/-- A cumulative snapshot without a stop reason is surfaced at once: it may be the
last evidence before a failure. -/
def messageDeltaEvents (reason : Option String) (usage : Option WireUsage) : List ModelEvent :=
  if reason.isSome then []
  else ((usage.filter usageHasEvidence).map fun usage =>
    ModelEvent.usageUpdate (normalizeUsage normalizer.messageStartUsage (some usage))).toList

end

variable [FloatText] [JsonParser]

section

variable (normalizer : AnthropicStreamNormalizer)

def pushWire : WireEvent → Emitted
  | .messageStart usage content => do
    Checked.require (content.all List.isEmpty) (.provider ("Anthropic message_start " ++
      "unexpectedly contains output blocks; streaming blocks would be ambiguous"))
    .ok ({ normalizer with messageStartUsage := usage }, [])
  | .contentBlockStart index block => normalizer.pushContentBlockStart index block
  | .contentBlockDelta index delta => normalizer.pushContentBlockDelta index delta
  | .contentBlockStop index => normalizer.pushContentBlockStop index
  | .messageDelta reason usage stopDetails =>
    .ok (normalizer.noteMessageDelta reason usage stopDetails,
      normalizer.messageDeltaEvents reason usage)
  | .messageStop => normalizer.terminal
  | .ping => .ok ({ normalizer with pendingProgress := some .liveness }, [])
  | .unknown => .ok (normalizer, [])
  | .error error => .error error

def pushEvents : Payload → Emitted
  | .malformed reason => .error (.provider s!"malformed Anthropic stream event: {reason}")
  | .event event => normalizer.pushWire event

def resetProgress : AnthropicStreamNormalizer :=
  { normalizer with pendingProgress := none }

def pushEvent (payload : Payload) :
    Except ModelError (AnthropicStreamNormalizer × List ModelStreamItem) := do
  let (next, events) ← normalizer.resetProgress.pushEvents payload
  .ok (next.resetProgress, events.map .event ++
    (next.pendingProgress.map ModelStreamItem.progress).toList)

def finish : Except ModelError (List ModelEvent) :=
  if normalizer.terminalEmitted then .ok []
  else .error (.provider "provider stream ended without a terminal message event")

end

/-- The events of a whole provider stream after `Started`. An error ends it with the
failure events, and nothing is read after a terminal event. -/
def stream (normalizer : AnthropicStreamNormalizer) : List Payload → List ModelEvent
  | [] =>
    match normalizer.finish with
    | .ok events => events
    | .error error => normalizer.failureEvents error
  | payload :: rest =>
    match normalizer.pushEvent payload with
    | .error error => normalizer.failureEvents error
    | .ok (next, items) =>
      let events := items.filterMap ModelStreamItem.event?
      if events.any ModelEvent.isTerminal then events else events ++ next.stream rest

end AnthropicStreamNormalizer

end RustX.Anthropic
