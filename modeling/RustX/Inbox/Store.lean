import RustX.Recovery.Evidence
import RustX.Workflow.Validation

/-!
The inbox of a conversation. Work is accepted into a table of pending rows, can be edited
or removed there by its author, and is adopted into the message ledger up to a watermark.
Every operation is one transaction.
-/
namespace RustX.Inbox

open Recovery (AttemptId ConversationId MessageId ToolExecutionId GoalRef)

inductive UserSource
  | human
  | agent (agent : String)
  | fleet
  | externalSystem
  | runtime
  | extension (contributor : String)
  deriving DecidableEq

/-- The payload of a context fact is its encoded form. -/
inductive InboundKind
  | goalContinuation (goal : GoalRef)
  | message
  | context (kind : String)
  deriving DecidableEq

/-- References to files and images are their encoded form. -/
inductive UserContentBlock
  | uploadedFile (reference : String)
  | text (text : String)
  | image (reference : String)
  | file (reference : String)
  deriving DecidableEq

/-- Timestamps count nanoseconds. -/
structure UserMessageBlock where
  id : MessageId
  content : List UserContentBlock
  source : UserSource
  kind : InboundKind
  timestamp : Option Int
  deriving DecidableEq

/-- A canonical message; of one that no user wrote only the identity is of interest. -/
inductive MessageBlock
  | user (message : UserMessageBlock)
  | other (id : MessageId)
  deriving DecidableEq

def MessageBlock.id : MessageBlock → MessageId
  | .user message => message.id
  | .other id => id

def InboundKind.isContext : InboundKind → Bool
  | .context _ => true
  | _ => false

def InboundKind.isGoalContinuation : InboundKind → Bool
  | .goalContinuation _ => true
  | _ => false

/-- Context facts are durable model input, but no part of the transcript. -/
def transcriptVisibleMessage : MessageBlock → Bool
  | .user message => !message.kind.isContext
  | .other _ => true

structure InboundDraft where
  messageId : Option MessageId
  source : UserSource
  kind : InboundKind
  content : List UserContentBlock
  timestamp : Int
  correlation : Option String
  deriving DecidableEq

structure PendingRow where
  sequence : Nat
  revision : Nat
  messageId : MessageId
  message : UserMessageBlock
  correlation : Option String
  deriving DecidableEq

structure PendingInboundItem extends PendingRow where
  transcriptCursor : Option Nat
  deriving DecidableEq

structure PendingInboundRef where
  sequence : Nat
  revision : Nat
  deriving DecidableEq

structure AcceptedInbound where
  sequence : Nat
  messageId : MessageId
  message : UserMessageBlock
  transcriptCursor : Option Nat
  retried : Bool
  deriving DecidableEq

inductive PendingMutationOutcome
  | applied | notPending | conflict | invalidItem
  deriving DecidableEq

inductive GoalPhase
  | active | paused | blocked | complete
  deriving DecidableEq

structure GoalSnapshot where
  reference : GoalRef
  phase : GoalPhase
  autonomousRoundBudget : Nat
  autonomousRoundsConsumed : Nat
  lastRoundMessageId : Option MessageId
  deriving DecidableEq

/-- The facts that the inbox writes, and those it must not be given. -/
inductive RuntimeEvent
  | inboundTurnAdopted (messages : List MessageId)
  | backgroundTerminalPublished (execution : ToolExecutionId) (message : MessageId)
  | goalRoundAdmitted (previous current : GoalRef) (round : Nat) (message : MessageId)
  | other
  deriving DecidableEq

structure RuntimeEventEnvelope where
  eventId : String := ""
  attempt : Option AttemptId := none
  event : RuntimeEvent
  deriving DecidableEq

/-- An event without an identity takes the one that its writer has for it. -/
def RuntimeEventEnvelope.identify (envelope : RuntimeEventEnvelope) (eventId : String) :
    RuntimeEventEnvelope :=
  if envelope.eventId = "" then { envelope with eventId } else envelope

inductive ConversationStoreError
  | emptyContent
  | sequenceExhausted
  | correlationConflict (correlation : String)
  | duplicateMessageId (id : MessageId)
  | invalidReference (message : String)
  | storage (message : String)
  deriving DecidableEq

/-- The tables of one conversation: the pending rows in the order of their sequence, the
correlation keys with the sequence and message each was accepted under, the ledger, and
the transcript positions of messages. -/
structure InboxStore where
  conversation : ConversationId
  pending : List PendingRow
  nextInboundSequence : Nat
  pendingObservationCount : Int
  correlations : List (String × Nat × MessageId)
  ledger : List MessageBlock
  transcript : List (MessageId × Nat)
  nextTranscriptPosition : Nat
  retainedTranscriptCount : Int
  goal : Option GoalSnapshot
  journal : List RuntimeEventEnvelope
  deriving DecidableEq

def GoalSnapshot.admitRound (goal : GoalSnapshot) (message : MessageId) : GoalSnapshot :=
  { goal with
    reference := { goal.reference with revision := goal.reference.revision + 1 }
    autonomousRoundsConsumed := goal.autonomousRoundsConsumed + 1
    lastRoundMessageId := some message }

abbrev Stored := Except ConversationStoreError

/-- Identities that only the scheduler may use. -/
def isSchedulerIdentity (text : String) : Bool :=
  "scheduler:".toList.isPrefixOf text.toList

namespace InboxStore

variable (store : InboxStore)

section

variable (id : MessageId)

def pendingMessageExists : Bool :=
  store.pending.any fun row => row.messageId = id

def ledgerMessageExists : Bool :=
  store.ledger.any fun message => message.id = id

def messageExists : Bool :=
  store.pendingMessageExists id || store.ledgerMessageExists id

def appendTranscriptReference : Stored (InboxStore × Nat) :=
  match store.transcript.lookup id with
  | some position => .ok (store, position)
  | none =>
    let position := store.nextTranscriptPosition + 1
    if 2 ^ 63 ≤ position then .error (.storage "transcript position exhausted")
    else .ok
      ({ store with
         transcript := store.transcript ++ [(id, position)]
         nextTranscriptPosition := position
         retainedTranscriptCount := store.retainedTranscriptCount + 1 }, position)

def appendVisibleReference (message : MessageBlock) : Stored (InboxStore × Option Nat) :=
  if transcriptVisibleMessage message then do
    let (next, position) ← store.appendTranscriptReference message.id
    .ok (next, some position)
  else .ok (store, none)

def appendMessageLedger (message : MessageBlock)
    (allowedPending : Option MessageId) : Stored (InboxStore × Option Nat) :=
  if store.pendingMessageExists message.id ∧ allowedPending ≠ some message.id then
    .error (.duplicateMessageId message.id)
  else if store.ledgerMessageExists message.id then .error (.duplicateMessageId message.id)
  else { store with ledger := store.ledger ++ [message] }.appendVisibleReference message

def loadCorrelatedUserMessage : Stored UserMessageBlock :=
  match store.pending.find? fun row => row.messageId = id with
  | some row =>
    if row.message.id ≠ id then .error (.invalidReference
      s!"correlation for {id} points to a pending body with a different identity")
    else .ok row.message
  | none =>
    match store.ledger.find? fun message => message.id = id with
    | none => .error (.invalidReference s!"message {id} is unavailable")
    | some (.other _) => .error (.invalidReference
        s!"correlation for {id} points to a non-User Ledger fact")
    | some (.user message) => .ok message

end

section

variable (draft : InboundDraft)

/-- A draft repeats a message if it differs from it in nothing that it states. -/
def repeats (message : UserMessageBlock) : Bool :=
  draft.messageId.all (· = message.id) && draft.source = message.source &&
    draft.kind = message.kind && draft.content = message.content &&
    message.timestamp = some draft.timestamp

/-- The acceptance that a correlation key already stands for. -/
def retryAccepted (correlation : String)
    (sequence : Nat) (id : MessageId) : Stored AcceptedInbound := do
  let message ← store.loadCorrelatedUserMessage id
  if !repeats draft message then .error (.correlationConflict correlation)
  else
    let accepted : AcceptedInbound :=
      { sequence, messageId := id, message, transcriptCursor := none, retried := true }
    if message.kind.isContext then .ok accepted
    else match store.transcript.lookup id with
      | none => .error (.invalidReference
          s!"accepted inbound {id} is missing its transcript reference")
      | some position => .ok { accepted with transcriptCursor := some position }

/-- The row and the keys of a new acceptance. -/
def insertPending (row : PendingRow) : Stored InboxStore :=
  if row.correlation.isSome && store.correlations.any (fun entry => entry.2.2 = row.messageId) then
    .error (.storage "insert correlation: UNIQUE constraint failed: inbound_correlation.message_id")
  else .ok
    { store with
      pending := store.pending ++ [row]
      nextInboundSequence := row.sequence
      pendingObservationCount := store.pendingObservationCount + 1
      correlations := store.correlations ++
        (row.correlation.map fun key => (key, row.sequence, row.messageId)).toList }

def acceptNew : Stored (InboxStore × AcceptedInbound) :=
  let sequence := store.nextInboundSequence + 1
  let conversation := store.conversation
  let id := draft.messageId.getD s!"{conversation}-inbound-{sequence}"
  let message : UserMessageBlock :=
    { id, content := draft.content, source := draft.source, kind := draft.kind
      timestamp := some draft.timestamp }
  if 2 ^ 63 ≤ sequence then .error .sequenceExhausted
  else if store.messageExists id then .error (.duplicateMessageId id)
  else do
    let inserted ← store.insertPending
      { sequence, revision := 0, messageId := id, message, correlation := draft.correlation }
    let (next, transcriptCursor) ← inserted.appendVisibleReference (.user message)
    .ok (next, { sequence, messageId := id, message, transcriptCursor, retried := false })

def acceptScheduledInboundTx : Stored (InboxStore × AcceptedInbound) :=
  if draft.content = [] then .error .emptyContent
  else match draft.correlation with
    | none => store.acceptNew draft
    | some correlation =>
      match store.correlations.lookup correlation with
      | none => store.acceptNew draft
      | some (sequence, id) => do
        let accepted ← store.retryAccepted draft correlation sequence id
        .ok (store, accepted)

def acceptInboundTx : Stored (InboxStore × AcceptedInbound) :=
  if draft.correlation.any isSchedulerIdentity || draft.messageId.any isSchedulerIdentity then
    .error (.invalidReference "Scheduler identities require atomic scheduled admission")
  else store.acceptScheduledInboundTx draft

def rejectUnaccountedGoal : Stored Unit :=
  if draft.kind.isGoalContinuation then .error (.invalidReference
    "Goal continuation must cross accept_goal_round with atomic accounting")
  else .ok ()

def acceptInbound : Stored (InboxStore × AcceptedInbound) := do
  rejectUnaccountedGoal draft
  store.acceptInboundTx draft

/-- Appends an event under its own identity, or under one made of its position. -/
def persistEvent (envelope : RuntimeEventEnvelope) : Stored (InboxStore × RuntimeEventEnvelope) :=
  let conversation := store.conversation
  let sequence := store.journal.length + 1
  let named := envelope.identify s!"{conversation}-event-{sequence}"
  if store.journal.any fun event => event.eventId = named.eventId then
    .error (.storage "UNIQUE constraint failed: events.event_id")
  else .ok ({ store with journal := store.journal ++ [named] }, named)

def findEventById (eventId : String) : Option RuntimeEventEnvelope :=
  store.journal.find? fun event => event.eventId = eventId

def validateBackgroundReference (id : MessageId) : Stored Unit := do
  let notification ← store.loadCorrelatedUserMessage id
  if notification.source ≠ .runtime ∨ notification.kind ≠ .message then
    .error (.invalidReference
      s!"background terminal fact references an ineligible notification {id}")
  else .ok ()

def acceptInboundWithEvent (envelope : RuntimeEventEnvelope) :
    Stored (InboxStore × AcceptedInbound × RuntimeEventEnvelope) := do
  rejectUnaccountedGoal draft
  match envelope.event with
  | .backgroundTerminalPublished execution message =>
    let event := envelope.identify s!"background-terminal-event:{execution}"
    let (next, accepted) ← store.acceptInboundTx draft
    let id := accepted.messageId
    if message ≠ id then .error (.invalidReference
      s!"detached terminal fact references {message}, accepted inbound is {id}")
    else if accepted.retried then
      match store.findEventById event.eventId with
      | none => .error (.invalidReference s!"correlated inbound {id} has no durable terminal fact")
      | some existing =>
        if existing.event ≠ event.event then .error (.invalidReference
          "correlated inbound terminal fact conflicts with the stored fact")
        else .ok (next, accepted, existing)
    else do
      next.validateBackgroundReference message
      let (written, persisted) ← next.persistEvent event
      .ok (written, accepted, persisted)
  | _ => .error (.invalidReference ("inbound/event acceptance owns only a detached background " ++
      "terminal fact; a subagent terminal publishes through accept_subagent_terminal"))

def acceptGoalRound (expected : GoalRef) (draft : InboundDraft) :
    Stored (InboxStore × Option AcceptedInbound) :=
  match store.goal with
  | none => .ok (store, none)
  | some goal =>
    if goal.reference ≠ expected ∨ goal.phase ≠ .active ∨
        goal.autonomousRoundBudget ≤ goal.autonomousRoundsConsumed then .ok (store, none)
    else if store.pending ≠ [] then .ok (store, none)
    else if draft.source ≠ .runtime ∨ draft.kind ≠ .goalContinuation expected then
      .error (.invalidReference "Goal admission requires its exact typed runtime trigger")
    else do
      let (next, accepted) ← store.acceptInboundTx draft
      if accepted.retried then .error (.invalidReference "Goal round identity already accepted")
      else if 2 ^ 64 ≤ goal.reference.revision + 1 then .error .sequenceExhausted
      else do
        let admitted := goal.admitRound accepted.messageId
        let (written, _) ← { next with goal := some admitted }.persistEvent
          { event := .goalRoundAdmitted expected admitted.reference
              admitted.autonomousRoundsConsumed accepted.messageId }
        .ok (written, some accepted)

/-- The part of a scheduled admission that concerns the inbox. -/
def acceptScheduled : Stored (InboxStore × AcceptedInbound) := do
  let (next, accepted) ← store.acceptScheduledInboundTx draft
  if accepted.retried then
    .error (.storage "schedule revision points at an already admitted occurrence")
  else .ok (next, accepted)

end

def pendingItem (row : PendingRow) : PendingInboundItem :=
  { row with transcriptCursor := store.transcript.lookup row.messageId }

section

variable (item : PendingInboundItem)

def checkPendingItem : Stored Unit :=
  let id := item.messageId
  if item.message.id ≠ item.messageId then .error (.invalidReference
    s!"pending row {id} contains a different message identity")
  else if item.message.kind.isContext = item.transcriptCursor.isSome then .error
    (.invalidReference s!"pending inbound {id} has an invalid transcript reference")
  else .ok ()

def loadPendingRows : Stored (List PendingInboundItem) := do
  let items := store.pending.map store.pendingItem
  forM items checkPendingItem
  .ok items

def loadPendingUntil (watermark : Nat) : Stored (List PendingInboundItem) := do
  let items ← store.loadPendingRows
  .ok (items.filter fun item => item.sequence ≤ watermark)

/-- How the source prints an optional transcript cursor. -/
def cursorText : Option Nat → String
  | none => "None"
  | some position => s!"Some(TranscriptCursor({position}))"

/-- One message moves into the ledger and keeps its place in the transcript. -/
def adoptItem : Stored InboxStore := do
  let (next, cursor) ← store.appendMessageLedger (.user item.message) (some item.messageId)
  if cursor ≠ item.transcriptCursor then
    let id := item.messageId
    let before := cursorText item.transcriptCursor
    let after := cursorText cursor
    .error (.invalidReference
      s!"adopted inbound {id} changed its transcript cursor from {before} to {after}")
  else .ok next

/-- Everything pending up to the watermark becomes canonical, in order, and the turn that
is now owed an answer is recorded. -/
def adoptPendingBatch (watermark : Nat) (attempt : Option AttemptId) :
    Stored (InboxStore × List PendingInboundItem) := do
  let items ← store.loadPendingUntil watermark
  let appended ← items.foldlM adoptItem store
  let adopted :=
    { appended with
      pending := appended.pending.filter fun row => watermark < row.sequence
      pendingObservationCount := appended.pendingObservationCount - items.length }
  if items = [] then .ok (adopted, items)
  else do
    let (written, _) ← adopted.persistEvent
      { attempt, event := .inboundTurnAdopted (items.map fun item => item.messageId) }
    .ok (written, items)

def loadPendingExact (row : PendingRow) : Stored PendingInboundItem :=
  let item := store.pendingItem row
  if item.message.id ≠ item.messageId ∨
      item.message.kind.isContext = item.transcriptCursor.isSome then
    .error (.invalidReference "pending source identity or transcript mismatch")
  else .ok item

def isSingleText : List UserContentBlock → Bool
  | [.text _] => true
  | _ => false

def rewritePendingBody (text : String) : Stored InboxStore :=
  if 2 ^ 63 ≤ item.revision + 1 then .error .sequenceExhausted
  else .ok
    { store with
      pending := store.pending.map fun row =>
        if row.sequence = item.sequence then
          { row with
            message := { item.message with content := [.text text] }
            revision := item.revision + 1 }
        else row }

/-- Takes a row back: it leaves the table and the transcript. -/
def deletePending : InboxStore :=
  { store with
    pending := store.pending.filter fun row => row.sequence ≠ item.sequence
    transcript := store.transcript.filter fun entry => entry.1 ≠ item.messageId
    retainedTranscriptCount := store.retainedTranscriptCount - 1
    pendingObservationCount := store.pendingObservationCount - 1 }

end

/-- Edits or removes the named revision of a row that a human wrote. -/
def mutatePending (expected : PendingInboundRef) (text : Option String) :
    Stored (InboxStore × PendingMutationOutcome) :=
  match store.pending.find? fun row => row.sequence = expected.sequence with
  | none => .ok (store, .notPending)
  | some row =>
    if row.revision ≠ expected.revision then .ok (store, .conflict)
    else do
      let item ← store.loadPendingExact row
      if item.message.source ≠ .human ∨ item.message.kind ≠ .message ∨
          item.correlation.isSome then .ok (store, .invalidItem)
      else match text with
        | some text =>
          if isBlank text || !isSingleText item.message.content then .ok (store, .invalidItem)
          else do
            let next ← store.rewritePendingBody item text
            .ok (next, .applied)
        | none => .ok (store.deletePending item, .applied)

def editPending (expected : PendingInboundRef) (text : String) :
    Stored (InboxStore × PendingMutationOutcome) :=
  store.mutatePending expected (some text)

def removePending (expected : PendingInboundRef) : Stored (InboxStore × PendingMutationOutcome) :=
  store.mutatePending expected none

def appendCanonical (message : MessageBlock) : Stored InboxStore := do
  let (next, _) ← store.appendMessageLedger message none
  .ok next

/-- A change of the goal, whatever it decides. -/
def writeGoal (goal : GoalSnapshot) : Stored InboxStore := do
  let (next, _) ← { store with goal := some goal }.persistEvent { event := .other }
  .ok next

end InboxStore

end RustX.Inbox
