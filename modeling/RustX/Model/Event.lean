import RustX.Workflow.Base

/-!
The canonical stream protocol between a model adapter and the agent kernel, and
the normalized errors of a failed generation.
-/
namespace RustX

inductive ModelErrorKind
  | invalidRequest | authentication | rateLimit | timeout | transport | providerError
  | contextWindowExceeded | cancelled | unsupported | malformedToolProposal
  | generationDegenerated | generationBudgetExceeded
  deriving DecidableEq

inductive MalformedToolProposalSource
  | providerDeclared | adapterStructural | streamAssembly | reservedProtocolLeak
  deriving DecidableEq

structure ModelError where
  kind : ModelErrorKind
  message : String
  providerCode : Option String := none
  malformedToolProposal : Option MalformedToolProposalSource := none
  deriving DecidableEq

def maxMalformedToolProposalMessageBytes : Nat := 512

def malformedToolProposalTruncationMarker : String := "…[truncated]"

/-- The longest run of leading characters that takes at most `bytes` bytes. -/
def takeBytes (bytes : Nat) : List Char → List Char
  | [] => []
  | c :: cs => if c.utf8Size ≤ bytes then c :: takeBytes (bytes - c.utf8Size) cs else []

def boundMalformedMessage (message : String) : String :=
  if message.utf8ByteSize ≤ maxMalformedToolProposalMessageBytes then message
  else
    String.ofList (takeBytes (maxMalformedToolProposalMessageBytes -
      malformedToolProposalTruncationMarker.utf8ByteSize) message.toList) ++
      malformedToolProposalTruncationMarker

namespace ModelError

def malformed (source : MalformedToolProposalSource) (message : String) : ModelError where
  kind := .malformedToolProposal
  message := boundMalformedMessage message
  malformedToolProposal := some source

def provider (message : String) : ModelError where
  kind := .providerError
  message := message

def unsupported (message : String) : ModelError where
  kind := .unsupported
  message := message

end ModelError

def mentions (message pattern : String) : Bool :=
  decide (pattern.toList <:+: message.toList)

/-- Whether a provider failure reports an exceeded context window. Throttling
texts are ruled out first: they must stay retryable. -/
def isContextWindowError (message : String) (providerCode : Option String) : Bool :=
  let message := message.toLower
  if ["rate limit", "too many requests", "throttling", "service unavailable"].any
      (mentions message) then false
  else if providerCode.any fun code =>
      ["context_length_exceeded", "model_context_window_exceeded", "prompt_too_long",
        "input_too_long", "max_tokens_exceeded", "token_limit_exceeded"].contains code.toLower then
    true
  else
    ["prompt is too long", "prompt too long", "input is too long for requested model",
      "exceeds the context window", "maximum context length", "context length exceeded",
      "context_length_exceeded", "context window", "maximum prompt length",
      "reduce the length of the messages", "maximum allowed input length",
      "longer than the model's context length", "exceeds the available context size",
      "greater than the context length", "exceeded model token limit", "configured context size",
      "model_context_window_exceeded", "range of input length should be", "token limit exceeded",
      "too many tokens"].any (mentions message) ||
      (mentions message "input token count" && mentions message "exceeds the maximum")

structure UsageDetails where
  reasoningTokens : Option Nat
  cachedInputTokens : Option Nat
  deriving DecidableEq

structure ModelUsage where
  inputTokens : Option Nat
  outputTokens : Option Nat
  totalTokens : Option Nat
  details : Option UsageDetails
  deriving DecidableEq

def checkedAdd (a b : Nat) : Option Nat :=
  if a + b < 2 ^ 64 then some (a + b) else none

inductive ModelFinishReason
  | stop | toolCalls | length | contentFilter | refusal
  | other (reason : String)
  deriving DecidableEq

inductive ProviderContinuationState
  | openAiStored (previousResponseId : String)
  | openAiStateless (items : List Json)
  | anthropic (opaqueState : Json)
  deriving DecidableEq

abbrev ContentBlockIndex := Nat
abbrev ToolCallId := String
abbrev ToolId := String

structure ToolCallStart where
  id : ToolCallId
  toolId : ToolId
  name : String
  deriving DecidableEq

structure ToolCall where
  id : ToolCallId
  toolId : ToolId
  name : String
  arguments : Json
  deriving DecidableEq

inductive ModelEvent
  | started
  | textDelta (blockIndex : ContentBlockIndex) (text : String)
  | reasoningDelta (blockIndex : ContentBlockIndex) (text : String)
  | refusalDelta (blockIndex : ContentBlockIndex) (text : String)
  | toolCallStarted (blockIndex : ContentBlockIndex) (call : ToolCallStart)
  | toolCallArgumentsDelta (blockIndex : ContentBlockIndex) (callId : ToolCallId)
    (argumentsDelta : String)
  | toolCallCompleted (blockIndex : ContentBlockIndex) (call : ToolCall)
  | usageUpdate (usage : ModelUsage)
  | continuationState (blockIndex : ContentBlockIndex) (state : ProviderContinuationState)
  | completed (finishReason : ModelFinishReason) (usage : Option ModelUsage)
  | failed (error : ModelError)
  deriving DecidableEq

/-- No event follows one of these: the adapter's stream is finished. -/
def ModelEvent.isTerminal : ModelEvent → Bool
  | completed _ _ | failed _ => true
  | _ => false

inductive ModelStreamProgress
  | generation | liveness
  deriving DecidableEq

inductive ModelStreamItem
  | event (content : ModelEvent)
  | progress (progress : ModelStreamProgress)
  deriving DecidableEq

/-- Progress is evidence for deadlines only; the assembler never sees it. -/
def ModelStreamItem.event? : ModelStreamItem → Option ModelEvent
  | .event content => some content
  | .progress _ => none

end RustX
