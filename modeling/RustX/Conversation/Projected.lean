import RustX.Conversation.Message

/-!
Model input: canonical messages, identity-free messages derived from them, and values that
exist only for one request.
-/
namespace RustX.Conversation

open Recovery (ConversationId MessageId GoalRef)
open Inbox (UserSource UserContentBlock)

/-- The source of a projected message: a message and the digest of its complete body. -/
structure CanonicalMessageRef where
  conversationId : ConversationId
  messageId : MessageId
  contentDigest : String
  deriving DecidableEq

inductive ProjectedUserKind
  | message
  | goalContinuation (goal : GoalRef)
  | context (kind : ContextKind)
  | compactionContext
  deriving DecidableEq

inductive ProjectedMessage
  | user (content : List UserContentBlock) (source : UserSource) (kind : ProjectedUserKind)
      (timestamp : Option Int)
  | assistant (content : List AssistantContentBlock)
  | tool (toolCallId : ToolCallId) (toolId : ToolId) (result : ToolExecutionResult)
  deriving DecidableEq

structure CheckpointSourceRef where
  conversationId : ConversationId
  checkpointId : String
  contentDigest : String
  deriving DecidableEq

inductive SemanticTransformation
  | summary | imageDowngrade | uploadRendering
  deriving DecidableEq

structure DerivedModelMessage where
  message : ProjectedMessage
  sources : List CanonicalMessageRef
  checkpointSources : List CheckpointSourceRef
  transformations : List SemanticTransformation
  deriving DecidableEq

/-- The admitted records of a carryover are their encoded form. -/
structure RenderedUnresolvedOutputCarryover where
  sourceStreamId : String
  records : Json
  deriving DecidableEq

inductive RequestOnlyModelContext
  | unresolvedOutputCarryover (carryover : RenderedUnresolvedOutputCarryover)
  | auxiliaryQuestion (text : String)
  | auxiliaryAnswer (text : String)
  deriving DecidableEq

inductive ModelInputMessage
  | canonical (message : MessageBlock)
  | requestOnly (context : RequestOnlyModelContext)
  | derived (message : DerivedModelMessage)
  deriving DecidableEq

inductive ModelMessageView
  | user (content : List UserContentBlock)
  | assistant (content : List AssistantContentBlock)
  | tool (call : ToolCallId) (result : ToolExecutionResult)
  | requestOnly (context : RequestOnlyModelContext)
  deriving DecidableEq

namespace ModelInputMessage

def view : ModelInputMessage → ModelMessageView
  | canonical (.user message) => .user message.content
  | canonical (.assistant message) => .assistant message.content
  | canonical (.tool message) => .tool message.toolCallId message.result
  | derived { message := .user content .., .. } => .user content
  | derived { message := .assistant content, .. } => .assistant content
  | derived { message := .tool call _ result, .. } => .tool call result
  | requestOnly context => .requestOnly context

def canonicalId : ModelInputMessage → Option MessageId
  | canonical message => some message.id
  | requestOnly _ | derived _ => none

end ModelInputMessage

def AssistantContentBlock.call? : AssistantContentBlock → Option ToolCall
  | .toolCall call => some call
  | _ => none

inductive RequestOnlyInsertionAnchor
  | beforeMessage (id : MessageId)
  | afterCanonical
  deriving DecidableEq

end RustX.Conversation
