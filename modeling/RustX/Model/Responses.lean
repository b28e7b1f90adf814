import RustX.Model.ChatCompletions

/-!
The Responses adapter: events name output items and content parts by their
coordinates, done events repeat what was streamed, and the terminal event repeats
the whole output. A canonical index is allocated when a coordinate first matters,
which need not be when it first shows something.
-/
namespace RustX.Responses

inductive StorageMode
  | stored | stateless
  deriving DecidableEq

inductive BlockKey
  | itemPart (outputIndex contentIndex : Nat)
  /-- A whole output item, reasoning or function call. -/
  | item (outputIndex : Nat)
  deriving DecidableEq

inductive ContentPart
  | text | refusal
  deriving DecidableEq

def ContentPart.kind : ContentPart → BlockKind
  | text => .text
  | refusal => .refusal

inductive ReasoningPart
  | summary (outputIndex summaryIndex : Nat)
  | content (outputIndex contentIndex : Nat)
  deriving DecidableEq

def ReasoningPart.text : ReasoningPart → String
  | summary outputIndex index => s!"Summary({outputIndex}, {index})"
  | content outputIndex index => s!"Content({outputIndex}, {index})"

structure ToolAssembly where
  blockIndex : ContentBlockIndex
  callId : Option ToolCallId
  name : Option String
  arguments : String
  started : Bool

def ToolAssembly.setArguments (assembly : ToolAssembly) (arguments : String) : ToolAssembly :=
  { assembly with arguments := arguments }

def ToolAssembly.start (assembly : ToolAssembly) (call : ToolCallStart) (arguments : String) :
    ToolAssembly :=
  { assembly with
    callId := some call.id, name := some call.name, arguments := arguments, started := true }

structure ResponsesNormalizer where
  tools : ValidatedTools
  storageMode : StorageMode
  blocks : BlockAllocator BlockKey
  toolCalls : Nat → Option ToolAssembly
  usage : Option ModelUsage
  contentParts : Nat × Nat → Option ContentPart
  contentBuffers : Nat × Nat → Option String
  reasoningBuffers : ReasoningPart → Option String
  outputItemsDone : Nat → Bool
  terminalEmitted : Bool
  responseId : Option String
  pendingProgress : Option ModelStreamProgress

abbrev Emitted := Except ModelError (ResponsesNormalizer × List ModelEvent)

section

variable (value : Json)

variable (field : String)

def strField : Option String :=
  (value.get field).bind Json.asStr

def requiredStrField : Except ModelError String :=
  match strField value field with
  | some text => .ok text
  | none => .error (.provider s!"provider stream event lacks a string {debug field} field")

def asU32 : Option Nat :=
  value.asU64.filter fun n => decide (n < 2 ^ 32)

def u32Field : Except ModelError Nat :=
  match (value.get field).bind asU32 with
  | some n => .ok n
  | none => .error (.provider s!"provider stream event lacks an integer {debug field} field")

def optionalU32Field : Except ModelError (Option Nat) :=
  match value.get field with
  | none => .ok none
  | some raw =>
    match asU32 raw with
    | some n => .ok (some n)
    | none => .error (.provider s!"provider stream event has a non-integer {debug field} field")

def arrayField : List Json :=
  ((value.get field).bind Json.asArray).getD []

end

inductive EventKind
  /-- `created`, `in_progress` and `queued`: the stream is alive. -/
  | lifecycle
  | reasoningSummaryPart
  | outputItemAdded
  | outputItemDone
  | contentPartAdded
  | contentPartDone
  | contentDelta (part : ContentPart)
  | contentDone (part : ContentPart)
  | reasoningDelta (summary : Bool)
  | reasoningDone (summary : Bool)
  | openrouterReasoningDelta
  | openrouterReasoningDone
  | functionCallArgumentsDelta
  | functionCallArgumentsDone
  | terminal (incomplete : Bool)
  | failed
  | unsupported
  | error
  | unknown
  deriving DecidableEq

def unsupportedResponseEvents : List String :=
  ["response.audio.delta", "response.audio.done", "response.audio.transcript.delta",
    "response.audio.transcript.done", "response.file_search_call.in_progress",
    "response.file_search_call.searching", "response.file_search_call.completed",
    "response.web_search_call.in_progress", "response.web_search_call.searching",
    "response.web_search_call.completed", "response.image_generation_call.in_progress",
    "response.image_generation_call.generating", "response.image_generation_call.partial_image",
    "response.image_generation_call.completed", "response.code_interpreter_call.in_progress",
    "response.code_interpreter_call.interpreting", "response.code_interpreter_call.completed",
    "response.code_interpreter_call_code.delta", "response.code_interpreter_call_code.done",
    "response.mcp_call_arguments.delta", "response.mcp_call_arguments.done",
    "response.mcp_call.in_progress", "response.mcp_call.completed", "response.mcp_call.failed",
    "response.mcp_list_tools.in_progress", "response.mcp_list_tools.completed",
    "response.mcp_list_tools.failed", "response.output_text.annotation.added",
    "response.custom_tool_call_input.delta", "response.custom_tool_call_input.done"]

def eventKind : String → EventKind
  | "response.created" | "response.in_progress" | "response.queued" => .lifecycle
  | "response.reasoning_summary_part.added" | "response.reasoning_summary_part.done" =>
    .reasoningSummaryPart
  | "response.output_item.added" => .outputItemAdded
  | "response.output_item.done" => .outputItemDone
  | "response.content_part.added" => .contentPartAdded
  | "response.content_part.done" => .contentPartDone
  | "response.output_text.delta" => .contentDelta .text
  | "response.output_text.done" => .contentDone .text
  | "response.refusal.delta" => .contentDelta .refusal
  | "response.refusal.done" => .contentDone .refusal
  | "response.reasoning_summary_text.delta" => .reasoningDelta true
  | "response.reasoning_text.delta" => .reasoningDelta false
  | "response.reasoning.delta" => .openrouterReasoningDelta
  | "response.reasoning_summary_text.done" => .reasoningDone true
  | "response.reasoning_text.done" => .reasoningDone false
  | "response.reasoning.done" => .openrouterReasoningDone
  | "response.function_call_arguments.delta" => .functionCallArgumentsDelta
  | "response.function_call_arguments.done" => .functionCallArgumentsDone
  | "response.completed" => .terminal false
  | "response.incomplete" => .terminal true
  | "response.failed" => .failed
  | "response.error" | "error" => .error
  | other => if unsupportedResponseEvents.contains other then .unsupported else .unknown

inductive Piece
  | register (outputIndex contentIndex : Nat) (part : ContentPart)
  /-- Streamed content. The coordinate is taken before the text is read. -/
  | delta (outputIndex contentIndex : Nat) (part : ContentPart) (text : Except ModelError String)
  /-- Cumulative content, with the object that may carry annotations. -/
  | value (outputIndex contentIndex : Nat) (part : ContentPart) (text : String) (source : Json)
  | reasoningDelta (outputIndex : Nat) (part : ReasoningPart) (text : String)
  | reasoningValue (outputIndex : Nat) (part : ReasoningPart) (text : String)
  | callAdded (outputIndex : Nat) (call : ToolCallStart) (arguments : Option String)
  | argumentsDelta (outputIndex : Nat) (delta : Option String)
  | argumentsDone (outputIndex : Nat) (arguments : String)
  | refused (error : ModelError)

namespace ResponsesNormalizer

def new (tools : ValidatedTools) (storageMode : StorageMode) : ResponsesNormalizer where
  tools := tools
  storageMode := storageMode
  blocks := .new
  toolCalls _ := none
  usage := none
  contentParts _ := none
  contentBuffers _ := none
  reasoningBuffers _ := none
  outputItemsDone _ := false
  terminalEmitted := false
  responseId := none
  pendingProgress := none

section

variable (normalizer : ResponsesNormalizer)

def registerContentPart (outputIndex contentIndex : Nat)
    (part : ContentPart) : Except ModelError ResponsesNormalizer :=
  if (normalizer.contentParts (outputIndex, contentIndex)).all (· = part) then
    .ok { normalizer with
      contentParts :=
        Function.update normalizer.contentParts (outputIndex, contentIndex) (some part) }
  else
    .error (.provider s!"Responses content part {outputIndex}:{contentIndex} changed kind")

def partIndex (outputIndex contentIndex : Nat) : ContentBlockIndex :=
  (normalizer.blocks.allocate (.itemPart outputIndex contentIndex)).1

section

variable (outputIndex : Nat)

def itemIndex : ContentBlockIndex :=
  (normalizer.blocks.allocate (.item outputIndex)).1

def takePart (outputIndex contentIndex : Nat) : ResponsesNormalizer :=
  { normalizer with blocks := (normalizer.blocks.allocate (.itemPart outputIndex contentIndex)).2 }

def takeItem : ResponsesNormalizer :=
  { normalizer with blocks := (normalizer.blocks.allocate (.item outputIndex)).2 }

def setContentBuffer (outputIndex contentIndex : Nat) (text : String) : ResponsesNormalizer :=
  { normalizer with
    contentBuffers :=
      Function.update normalizer.contentBuffers (outputIndex, contentIndex) (some text) }

def setReasoningBuffer (part : ReasoningPart) (text : String) : ResponsesNormalizer :=
  { normalizer with
    reasoningBuffers := Function.update normalizer.reasoningBuffers part (some text) }

def contentDelta (part : ContentPart) (index : ContentBlockIndex) (text : String) : ModelEvent :=
  match part with
  | .text => .textDelta index text
  | .refusal => .refusalDelta index text

def pushContentDelta (outputIndex contentIndex : Nat)
    (part : ContentPart) (text : Except ModelError String) : Emitted := do
  let registered ← normalizer.registerContentPart outputIndex contentIndex part
  let taken := registered.takePart outputIndex contentIndex
  let text ← text
  if text = "" then .ok (taken, [])
  else
    let sofar := (normalizer.contentBuffers (outputIndex, contentIndex)).getD ""
    .ok (taken.setContentBuffer outputIndex contentIndex (sofar ++ text),
      [contentDelta part (normalizer.partIndex outputIndex contentIndex) text])

/-- A cumulative value repeats what was streamed, or shows what no delta did. -/
def pushContentValue (outputIndex contentIndex : Nat)
    (part : ContentPart) (text : String) (source : Json) : Emitted := do
  Checked.require (arrayField source "annotations").isEmpty
    (.unsupported "Responses output text annotations have no canonical representation")
  let registered ← normalizer.registerContentPart outputIndex contentIndex part
  let taken := registered.takePart outputIndex contentIndex
  match normalizer.contentBuffers (outputIndex, contentIndex) with
  | some streamed =>
    Checked.require (streamed = text) (.provider
      (s!"Responses cumulative {part.kind.describe} value disagrees with streamed " ++
        s!"{part.kind.describe} for output {outputIndex} content {contentIndex}"))
    .ok (taken, [])
  | none =>
    .ok (taken.setContentBuffer outputIndex contentIndex text,
      if text = "" then []
      else [contentDelta part (normalizer.partIndex outputIndex contentIndex) text])

def pushReasoningDelta
    (part : ReasoningPart) (text : String) : ResponsesNormalizer × List ModelEvent :=
  if text = "" then (normalizer, [])
  else
    let sofar := (normalizer.reasoningBuffers part).getD ""
    ((normalizer.takeItem outputIndex).setReasoningBuffer part (sofar ++ text),
      [.reasoningDelta (normalizer.itemIndex outputIndex) text])

def pushReasoningValue (part : ReasoningPart) (text : String) : Emitted :=
  match normalizer.reasoningBuffers part with
  | some streamed => do
    Checked.require (streamed = text) (.provider
      (s!"Responses cumulative reasoning value disagrees with streamed reasoning for output " ++
        s!"{outputIndex} part {part.text}"))
    .ok (normalizer, [])
  | none =>
    .ok ((normalizer.takeItem outputIndex).setReasoningBuffer part text,
      if text = "" then [] else [.reasoningDelta (normalizer.itemIndex outputIndex) text])

def toolAssembly : ResponsesNormalizer × ToolAssembly :=
  match normalizer.toolCalls outputIndex with
  | some assembly => (normalizer, assembly)
  | none =>
    (normalizer.takeItem outputIndex,
      { blockIndex := normalizer.itemIndex outputIndex, callId := none, name := none
        arguments := "", started := false })

def setAssembly (assembly : ToolAssembly) : ResponsesNormalizer :=
  { normalizer with toolCalls := Function.update normalizer.toolCalls outputIndex (some assembly) }

def noteProgress (noted : Bool) : ResponsesNormalizer :=
  if noted then { normalizer with pendingProgress := some .generation } else normalizer

/-- Of two compatible argument texts the longer one. -/
def mergeArguments (known arguments : String) (error : ModelError) : Except ModelError String :=
  if known = "" || arguments.startsWith known then .ok arguments
  else if known.startsWith arguments then .ok known
  else .error error

def itemArguments (assembly : ToolAssembly) (outputIndex : Nat) :
    Option String → Except ModelError String
  | none => .ok assembly.arguments
  | some arguments => mergeArguments assembly.arguments arguments (.provider
      (s!"Responses function call item disagrees with buffered arguments at output index " ++
        toString outputIndex))

def pushCallAdded (call : ToolCallStart) (arguments : Option String) : Emitted := do
  let (opened, assembly) := normalizer.toolAssembly outputIndex
  Checked.require (assembly.callId.all (· = call.id) && assembly.name.all (· = call.name))
    (.provider (s!"provider changed the identity of Responses tool call at output index " ++
      toString outputIndex))
  if assembly.started then .ok (opened.setAssembly outputIndex assembly, [])
  else
    let arguments ← itemArguments assembly outputIndex arguments
    .ok (opened.setAssembly outputIndex (assembly.start call arguments),
      .toolCallStarted assembly.blockIndex call :: if arguments = "" then []
        else [.toolCallArgumentsDelta assembly.blockIndex call.id arguments])

def unstarted : Bool :=
  (normalizer.toolCalls outputIndex).all fun assembly => !assembly.started

/-- Fragments stay buffered until the call has its identity. -/
def pushArgumentsDelta (delta : Option String) : ResponsesNormalizer × List ModelEvent :=
  let text := delta.getD ""
  let noted := normalizer.noteProgress (normalizer.unstarted outputIndex && text ≠ "")
  let (opened, assembly) := noted.toolAssembly outputIndex
  (opened.setAssembly outputIndex (assembly.setArguments (assembly.arguments ++ text)),
    -- A started call has its id.
    if assembly.started && text ≠ "" then
      [.toolCallArgumentsDelta assembly.blockIndex (assembly.callId.getD "") text]
    else [])

def pushArgumentsDone (arguments : String) : Emitted := do
  let noted := normalizer.noteProgress (!normalizer.unstarted outputIndex || arguments ≠ "")
  let (opened, assembly) := noted.toolAssembly outputIndex
  if !assembly.started && arguments ≠ "" then
    let merged ← mergeArguments assembly.arguments arguments (.provider
      (s!"Responses function call completion disagrees with buffered arguments at output index " ++
        toString outputIndex))
    .ok (opened.setAssembly outputIndex (assembly.setArguments merged), [])
  else .ok (opened.setAssembly outputIndex assembly, [])

end

def pushPiece : Piece → Emitted
  | .register outputIndex contentIndex part => do
    let registered ← normalizer.registerContentPart outputIndex contentIndex part
    .ok (registered, [])
  | .delta outputIndex contentIndex part text =>
    normalizer.pushContentDelta outputIndex contentIndex part text
  | .value outputIndex contentIndex part text source =>
    normalizer.pushContentValue outputIndex contentIndex part text source
  | .reasoningDelta outputIndex part text =>
    .ok (normalizer.pushReasoningDelta outputIndex part text)
  | .reasoningValue outputIndex part text => normalizer.pushReasoningValue outputIndex part text
  | .callAdded outputIndex call arguments => normalizer.pushCallAdded outputIndex call arguments
  | .argumentsDelta outputIndex delta => .ok (normalizer.pushArgumentsDelta outputIndex delta)
  | .argumentsDone outputIndex arguments => normalizer.pushArgumentsDone outputIndex arguments
  | .refused error => .error error

end

def pushPieces (normalizer : ResponsesNormalizer) : List Piece → Emitted
  | [] => .ok (normalizer, [])
  | piece :: rest => do
    let (next, events) ← normalizer.pushPiece piece
    let (last, more) ← next.pushPieces rest
    .ok (last, events ++ more)

section

variable (outputIndex : Nat)

def messagePart (entry : Json × Nat) : Piece :=
  if 2 ^ 32 ≤ entry.2 then .refused (.provider "too many response content parts")
  else
    let read (part : ContentPart) (field : String) : Piece :=
      match requiredStrField entry.1 field with
      | .ok text => .value outputIndex entry.2 part text entry.1
      | .error error => .refused error
    match strField entry.1 "type" with
    | some "output_text" => read .text "text"
    | some "refusal" => read .refusal "refusal"
    | some other => .refused (.unsupported
        s!"Responses message content part type {debug other} has no canonical representation")
    | none => .refused (.provider "message content part lacks a type")

def messagePieces (item : Json) : List Piece :=
  (arrayField item "content").zipIdx.map (messagePart outputIndex)

def summaryPart (entry : Json × Nat) : Piece :=
  if 2 ^ 32 ≤ entry.2 then .refused (.provider "too many reasoning summary parts")
  else
    match requiredStrField entry.1 "text" with
    | .ok text => .reasoningValue outputIndex (.summary outputIndex entry.2) text
    | .error error => .refused error

def reasoningPart (entry : Json × Nat) : Piece :=
  if 2 ^ 32 ≤ entry.2 then .refused (.provider "too many reasoning content parts")
  else if strField entry.1 "type" ≠ some "reasoning_text" then
    .refused (.unsupported "Responses reasoning item contains a non-reasoning content part")
  else
    match requiredStrField entry.1 "text" with
    | .ok text => .reasoningValue outputIndex (.content outputIndex entry.2) text
    | .error error => .refused error

def reasoningPieces (item : Json) : List Piece :=
  (arrayField item "summary").zipIdx.map (summaryPart outputIndex) ++
    (arrayField item "content").zipIdx.map (reasoningPart outputIndex)

end

/-- What a non-terminal event other than a finished item asks for. -/
def readPieces (tools : ValidatedTools) (event : Json) : EventKind → Except ModelError (List Piece)
  | .contentDelta part => do
    let outputIndex ← u32Field event "output_index"
    let contentIndex ← u32Field event "content_index"
    .ok [.delta outputIndex contentIndex part (requiredStrField event "delta")]
  | .contentDone part => do
    let outputIndex ← u32Field event "output_index"
    let contentIndex ← u32Field event "content_index"
    let text ← requiredStrField event part.kind.describe
    .ok [.value outputIndex contentIndex part text event]
  | .contentPartAdded => do
    let outputIndex ← u32Field event "output_index"
    let contentIndex ← u32Field event "content_index"
    match event.get "part" with
    | none => .error (.provider "content_part.added lacks a part")
    | some part =>
      match strField part "type" with
      | some "output_text" => .ok [.register outputIndex contentIndex .text]
      | some "refusal" => .ok [.register outputIndex contentIndex .refusal]
      | some "reasoning_text" => .ok []
      | some other => .error (.unsupported
          s!"Responses content part type {debug other} has no canonical representation")
      | none => .error (.provider "content part lacks a type")
  | .contentPartDone =>
    match event.get "part" with
    | none => .error (.provider "content_part.done lacks a part")
    | some part =>
      match strField part "type" with
      | some "output_text" => do
        let outputIndex ← u32Field event "output_index"
        let contentIndex ← u32Field event "content_index"
        let text ← requiredStrField part "text"
        .ok [.value outputIndex contentIndex .text text part]
      | some "refusal" => do
        let outputIndex ← u32Field event "output_index"
        let contentIndex ← u32Field event "content_index"
        let text ← requiredStrField part "refusal"
        .ok [.value outputIndex contentIndex .refusal text part]
      | some "reasoning_text" => do
        let outputIndex ← u32Field event "output_index"
        let contentIndex ← u32Field event "content_index"
        let text ← requiredStrField part "text"
        .ok [.reasoningValue outputIndex (.content outputIndex contentIndex) text]
      | some other => .error (.unsupported
          s!"Responses content part type {debug other} has no canonical representation")
      | none => .error (.provider "content part lacks a type")
  | .reasoningDelta summary => do
    let outputIndex ← u32Field event "output_index"
    let index ← u32Field event (if summary then "summary_index" else "content_index")
    let text ← requiredStrField event "delta"
    .ok [.reasoningDelta outputIndex
      (if summary then .summary outputIndex index else .content outputIndex index) text]
  | .reasoningDone summary => do
    let outputIndex ← u32Field event "output_index"
    let index ← u32Field event (if summary then "summary_index" else "content_index")
    let text ← requiredStrField event "text"
    .ok [.reasoningValue outputIndex
      (if summary then .summary outputIndex index else .content outputIndex index) text]
  | .openrouterReasoningDelta => do
    let outputIndex ← optionalU32Field event "output_index"
    let text ← requiredStrField event "delta"
    .ok [.reasoningDelta (outputIndex.getD 0) (.content (outputIndex.getD 0) 0) text]
  | .openrouterReasoningDone => do
    let outputIndex ← optionalU32Field event "output_index"
    let text := ((strField event "text").orElse fun _ => strField event "delta").getD ""
    .ok [.reasoningValue (outputIndex.getD 0) (.content (outputIndex.getD 0) 0) text]
  | .functionCallArgumentsDelta => do
    let outputIndex ← u32Field event "output_index"
    .ok [.argumentsDelta outputIndex (strField event "delta")]
  | .functionCallArgumentsDone => do
    let outputIndex ← u32Field event "output_index"
    .ok [.argumentsDone outputIndex ((strField event "arguments").getD "")]
  | .outputItemAdded =>
    match event.get "item" with
    | none => .error (.provider "output_item.added lacks an item")
    | some item => do
      let itemType ← requiredStrField item "type"
      if ["message", "function_call_output", "reasoning"].contains itemType then .ok []
      else if itemType = "function_call" then do
        let outputIndex ← u32Field event "output_index"
        let callId := (strField item "call_id").orElse fun _ => strField item "id"
        let call ← resolveToolIdentity callId (strField item "name") tools
        .ok [.callAdded outputIndex call (strField item "arguments")]
      else .error (.unsupported (s!"provider-hosted or unsupported output item type " ++
        s!"{debug itemType}; refusing to reinterpret it as a rustX tool call"))
  | .unsupported =>
    let eventType := (strField event "type").getD ""
    .error (.unsupported (s!"Responses stream event {debug eventType} has output semantics " ++
      "with no canonical representation"))
  | _ => .ok []

variable [JsonParser]

section

variable (normalizer : ResponsesNormalizer)

def completeFunctionCall (outputIndex : Nat) (item : Json) : Except ModelError (List ModelEvent) :=
  match normalizer.toolCalls outputIndex with
  | none => .error (.provider "function call completed without a matching start")
  | some assembly => do
    let arguments := (strField item "arguments").getD assembly.arguments
    let call ← acceptToolCall assembly.callId assembly.name arguments normalizer.tools
    .ok [.toolCallCompleted assembly.blockIndex call]

def markDone (outputIndex : Nat) : ResponsesNormalizer :=
  { normalizer with
    outputItemsDone := Function.update normalizer.outputItemsDone outputIndex true }

def providerHostedItems : List String :=
  ["file_search_call", "web_search_call", "computer_call", "computer_call_output",
    "code_interpreter_call", "mcp_call", "custom_tool_call", "image_generation_call"]

/-- A finished item completes its call once; content that is repeated is checked. -/
def pushOutputItemDone (outputIndex : Nat) (item : Json) : Emitted := do
  let itemType ← requiredStrField item "type"
  if itemType = "message" then do
    let (next, events) ← normalizer.pushPieces (messagePieces outputIndex item)
    .ok (next.markDone outputIndex, events)
  else if itemType = "reasoning" then do
    let (next, events) ← normalizer.pushPieces (reasoningPieces outputIndex item)
    .ok (next.markDone outputIndex, events)
  else if itemType = "function_call" then
    if normalizer.outputItemsDone outputIndex then .ok (normalizer, [])
    else do
      let events ← normalizer.completeFunctionCall outputIndex item
      .ok (normalizer.markDone outputIndex, events)
  else if itemType = "function_call_output" then .ok (normalizer.markDone outputIndex, [])
  else if !normalizer.outputItemsDone outputIndex && providerHostedItems.contains itemType then
    .error (.unsupported
      s!"provider-hosted output item type {debug itemType} has no canonical representation")
  else .error (.unsupported
    s!"Responses output item type {debug itemType} has no canonical representation")

def readOutputItemDone (event : Json) : Emitted := do
  let outputIndex ← u32Field event "output_index"
  match event.get "item" with
  | none => .error (.provider "output_item.done lacks an item")
  | some item => normalizer.pushOutputItemDone outputIndex item

def pushOutput (normalizer : ResponsesNormalizer) : List (Json × Nat) → Emitted
  | [] => .ok (normalizer, [])
  | (item, outputIndex) :: rest => do
    Checked.require (outputIndex < 2 ^ 32) (.provider "too many response output items")
    let (next, events) ← normalizer.pushOutputItemDone outputIndex item
    let (last, more) ← next.pushOutput rest
    .ok (last, events ++ more)

def deriveCompletedFinishReason (response : Json) : ModelFinishReason :=
  match (strField response "status").getD "" with
  | "failed" => .other "failed"
  | "cancelled" => .other "cancelled"
  | "incomplete" =>
    .other (((response.get "incomplete_details").bind (strField · "reason")).getD "unknown")
  | _ =>
    let output := arrayField response "output"
    if output.any fun item => strField item "type" = some "function_call" then .toolCalls
    else if output.any fun item => (arrayField item "content").any fun part =>
      strField part "type" = some "refusal" then .refusal
    else .stop

def terminalFinishReason (response : Json) (incomplete : Bool) :
    Except ModelError ModelFinishReason :=
  if incomplete then
    let reason := ((response.get "incomplete_details").bind (strField · "reason")).getD "unknown"
    if isContextWindowError "" (some reason) then
      .error { kind := .contextWindowExceeded, providerCode := some reason
               message := s!"provider reported incomplete response reason {debug reason}" }
    else if reason = "max_output_tokens" then .ok .length
    else if reason = "content_filter" then .ok .contentFilter
    else .ok (.other reason)
  else .ok (deriveCompletedFinishReason response)

def parseUsage (usage : Json) : Option ModelUsage :=
  Chat.normalizeUsage usage "input_tokens" "output_tokens" "input_tokens_details"
    "output_tokens_details"

def continuation (response : Json) (responseId : String) : ProviderContinuationState :=
  match normalizer.storageMode with
  | .stored => .openAiStored responseId
  | .stateless => .openAiStateless (arrayField response "output")

def noteResponse (response : Json) (responseId : String) : ResponsesNormalizer :=
  { normalizer with
    responseId := some responseId
    usage := (response.get "usage").elim normalizer.usage parseUsage }

/-- `response.completed` and `response.incomplete`. -/
def finishTerminal (event : Json) (incomplete : Bool) : Emitted :=
  match event.get "response" with
  | none => .error (.provider "terminal event lacks a response object")
  | some response =>
    match strField response "id" with
    | none => .error (.provider "response lacks an id")
    | some responseId => do
      let (last, repeated) ←
        (normalizer.noteResponse response responseId).pushOutput
          (arrayField response "output").zipIdx
      let finishReason ← terminalFinishReason response incomplete
      .ok ({ last with terminalEmitted := true, usage := none },
        repeated ++ [.continuationState last.blocks.next (last.continuation response responseId),
          .completed finishReason last.usage])

def responsesStreamError (event : Json) : ModelError :=
  let response := (event.get "response").getD event
  let error := (response.get "error").getD response
  let message := ((strField error "message").orElse fun _ => strField event "message").getD
    "OpenAI-compatible Responses stream error"
  let errorType := ((strField response "error_type").orElse fun _ =>
    strField event "error_type").orElse fun _ => strField error "error_type"
  let code := (strField error "code").orElse fun _ => strField event "code"
  let named (names : List String) : Bool :=
    errorType.any names.contains || code.any names.contains
  let kind : ModelErrorKind :=
    if named ["authentication", "authentication_error", "invalid_api_key", "401", "403"] then
      .authentication
    else if named ["rate_limit_exceeded", "rate_limit_error", "429"] then .rateLimit
    else if isContextWindowError message code || isContextWindowError message errorType then
      .contextWindowExceeded
    else if named ["invalid_request", "invalid_prompt", "invalid_request_error"] then
      .invalidRequest
    else if named ["timeout", "408"] then .timeout
    else .providerError
  { kind := kind, message := message, providerCode := code.or errorType }

def pushEvents (event : Json) : Emitted :=
  match eventKind ((strField event "type").getD "") with
  | .lifecycle => .ok ({ normalizer with pendingProgress := some .liveness }, [])
  | .outputItemDone => normalizer.readOutputItemDone event
  | .terminal incomplete => normalizer.finishTerminal event incomplete
  | .failed =>
    .ok ({ normalizer with terminalEmitted := true }, [.failed (responsesStreamError event)])
  | .error => .error (responsesStreamError event)
  | kind => do
    let pieces ← readPieces normalizer.tools event kind
    normalizer.pushPieces pieces

def resetProgress : ResponsesNormalizer :=
  { normalizer with pendingProgress := none }

def push (event : Json) : Except ModelError (ResponsesNormalizer × List ModelStreamItem) := do
  let (next, events) ← normalizer.resetProgress.pushEvents event
  .ok (next.resetProgress, events.map .event ++
    (next.pendingProgress.map ModelStreamItem.progress).toList)

def finish : Except ModelError (List ModelEvent) :=
  if normalizer.terminalEmitted then .ok []
  else .error (.provider "provider stream ended without a terminal response event")

end

/-- The events of a whole provider stream after `Started`. An error ends it, and
nothing is read after a terminal event. -/
def stream (normalizer : ResponsesNormalizer) : List Json → List ModelEvent
  | [] =>
    match normalizer.finish with
    | .ok events => events
    | .error error => [.failed error]
  | event :: rest =>
    match normalizer.push event with
    | .error error => [.failed error]
    | .ok (next, items) =>
      let events := items.filterMap ModelStreamItem.event?
      if events.any ModelEvent.isTerminal then events else events ++ next.stream rest

end ResponsesNormalizer

end RustX.Responses
