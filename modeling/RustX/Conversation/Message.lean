import RustX.Inbox.Store
import RustX.Model.Event

/-!
The canonical conversation model: what a user, the agent and its tools have said.
References to files and images, and records no function here looks into, are their
encoded form.
-/
namespace RustX.Conversation

open Recovery (MessageId GoalRef ToolExecutionStatus)
open Inbox (UserSource UserContentBlock)

inductive AgentStatusModuleId
  | time | background | todo
  deriving DecidableEq

def AgentStatusModuleId.rank : AgentStatusModuleId → Nat
  | time => 0
  | background => 1
  | todo => 2

structure AgentStatusGenerationMetadata where
  generatedAt : Int
  modules : List AgentStatusModuleId
  nonempty : modules ≠ []
  ordered : (modules.map AgentStatusModuleId.rank).Pairwise (· < ·)
  deriving DecidableEq

inductive ContextKind
  | nativeEnvironment
  | goalStatus (snapshot : Json)
  | runtimeToolObservation
  | extensionEnvironment
  | agentStatus (metadata : AgentStatusGenerationMetadata)
  deriving DecidableEq

inductive InboundKind
  | goalContinuation (goal : GoalRef)
  | message
  | context (kind : ContextKind)
  deriving DecidableEq

structure UserMessageBlock where
  id : MessageId
  content : List UserContentBlock
  source : UserSource
  kind : InboundKind
  timestamp : Option Int
  deriving DecidableEq

structure ReasoningBlock where
  text : Option String
  providerState : Option ProviderContinuationState
  deriving DecidableEq

inductive AssistantContentBlock
  | text (text : String)
  | reasoning (block : ReasoningBlock)
  | toolCall (call : ToolCall)
  | refusal (text : String)
  | image (reference : String)
  deriving DecidableEq

structure AssistantMessageBlock where
  id : MessageId
  content : List AssistantContentBlock
  deriving DecidableEq

structure ToolCallOccurrenceRef where
  assistantMessageId : MessageId
  blockIndex : ContentBlockIndex
  deriving DecidableEq

inductive ToolResultContent
  | text (text : String)
  | json (value : Json)
  | file (reference : String)
  | image (reference : String)
  deriving DecidableEq

/-- `facts` are the runtime-owned fields: duration, artifacts, truncation and the like. -/
structure ToolExecutionResult where
  status : ToolExecutionStatus
  content : List ToolResultContent
  facts : Json
  deriving DecidableEq

structure ToolMessageBlock where
  id : MessageId
  occurrence : ToolCallOccurrenceRef
  toolCallId : ToolCallId
  toolId : ToolId
  result : ToolExecutionResult
  deriving DecidableEq

inductive MessageBlock
  | user (message : UserMessageBlock)
  | assistant (message : AssistantMessageBlock)
  | tool (message : ToolMessageBlock)
  deriving DecidableEq

namespace MessageBlock

def id : MessageBlock → MessageId
  | user message => message.id
  | assistant message => message.id
  | tool message => message.id

def agentStatusMetadata : MessageBlock → Option AgentStatusGenerationMetadata
  | user { kind := .context (.agentStatus metadata), .. } => some metadata
  | _ => none

end MessageBlock

end RustX.Conversation
