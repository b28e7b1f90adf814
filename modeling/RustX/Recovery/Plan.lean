import RustX.Recovery.Journal

/-!
One startup recovery: what it reads from the durable conversation, the plan it makes
of that, and the commits of the plan, each accepted or refused as a whole.
-/
namespace RustX.Recovery

abbrev PublicationStreamId := String

inductive AssistantContentBlock
  | toolCall (call : ToolCallId) (tool : ToolId)
  | other
  deriving DecidableEq

structure ToolCallOccurrenceRef where
  assistant : MessageId
  block : Nat
  deriving DecidableEq

structure ToolMessageBlock where
  id : MessageId
  occurrence : ToolCallOccurrenceRef
  call : ToolCallId
  tool : ToolId
  result : ToolExecutionResult
  deriving DecidableEq

inductive MessageBlock
  | user (id : MessageId)
  | assistant (id : MessageId) (content : List AssistantContentBlock)
  | tool (message : ToolMessageBlock)
  deriving DecidableEq

/-- A row of `canonical_tool_calls`. -/
structure CanonicalToolCall where
  occurrence : ToolCallOccurrenceRef
  call : ToolCallId
  tool : ToolId
  deriving DecidableEq

namespace MessageBlock

def id : MessageBlock → MessageId
  | .user id | .assistant id _ => id
  | .tool message => message.id

/-- The rows that the append of this message writes. -/
def toolCalls : MessageBlock → List CanonicalToolCall
  | .assistant id content => content.zipIdx.filterMap fun entry =>
    match entry.1 with
    | .toolCall call name => some ⟨⟨id, entry.2⟩, call, name⟩
    | .other => none
  | _ => []

def toolResult : MessageBlock → Option ToolMessageBlock
  | .tool message => some message
  | _ => none

end MessageBlock

inductive PublicationAuditKind
  | incomplete | unaccepted
  deriving DecidableEq

inductive PublicationSettlement
  | canonical
  | audited (kind : PublicationAuditKind)
  deriving DecidableEq

structure PublicationStreamRecord where
  stream : PublicationStreamId
  attempt : AttemptId
  /-- The stream has its publication terminal. -/
  terminal : Bool
  settlement : Option PublicationSettlement
  deriving DecidableEq

def PublicationStreamRecord.auditKind (record : PublicationStreamRecord) : PublicationAuditKind :=
  if record.terminal then .unaccepted else .incomplete

def PublicationAuditKind.text : PublicationAuditKind → String
  | .incomplete => "incomplete"
  | .unaccepted => "unaccepted"

def PublicationSettlement.text : PublicationSettlement → String
  | .canonical => "canonical"
  | .audited kind => kind.text

inductive LifecycleKey
  | attempt (attempt : AttemptId)
  | background (execution : ToolExecutionId)
  | subagent (subagent : SubagentId)
  deriving DecidableEq

def LifecycleKey.text : LifecycleKey → String
  | .attempt id => "attempt:" ++ id
  | .background id => "background:" ++ id
  | .subagent id => "subagent:" ++ id

/-- The lifecycles of attempts, executions and children that an event belongs to, and
whether it closes them. -/
def RuntimeEventEnvelope.lifecycleKeys (envelope : RuntimeEventEnvelope) :
    List (LifecycleKey × Bool) :=
  match envelope.event with
  | .modelRequestStarted .auxiliary _ | .modelRequestSettled .auxiliary _ _ => []
  | .agentActivationAdmission _ => []
  | .backgroundExecutionCommitted execution _ _ _ => [(.background execution, false)]
  | .backgroundTerminalPublished execution => [(.background execution, true)]
  | .subagentOwnershipCommitted child => [(.subagent child.subagentId, false)]
  | .subagentTerminal subagent => [(.subagent subagent, true)]
  | .attemptStarted attempt => [(.attempt (envelope.attempt.getD attempt), false)]
  | .attemptTerminal attempt _ => [(.attempt (envelope.attempt.getD attempt), true)]
  -- Some of the other facts have lifecycles of their own and none of an attempt.
  | .other => []
  | _ => (envelope.attempt.map fun attempt => (LifecycleKey.attempt attempt, false)).toList

inductive ConversationStoreError
  | duplicateMessageId (id : MessageId)
  | invalidReference (message : String)
  | terminalViolation (message : String)
  | publicationViolation (message : String)
  deriving DecidableEq

namespace Journal

variable (journal : Journal)

def mentions (key : LifecycleKey) : Bool :=
  journal.any fun envelope => envelope.lifecycleKeys.any fun entry => entry.1 = key

def isTerminal (key : LifecycleKey) : Bool :=
  journal.any fun envelope => envelope.lifecycleKeys.contains (key, true)

section

variable (envelope : RuntimeEventEnvelope)

def validateEventIdentity : Except ConversationStoreError Unit :=
  match envelope.event, envelope.attempt with
  | .attemptStarted attempt, some owner | .attemptTerminal attempt _, some owner =>
    if attempt = owner then .ok ()
    else .error (.invalidReference
      "event envelope attempt identity disagrees with its typed payload")
  | _, _ => .ok ()

def validateAttemptStartUniqueness : Except ConversationStoreError Unit :=
  match envelope.event with
  | .attemptStarted attempt =>
    if journal.mentions (.attempt attempt) then
      .error (.terminalViolation (s!"attempt {attempt} already entered durable authority; " ++
        "an attempt identity starts exactly once"))
    else .ok ()
  | _ => .ok ()

/-- What the journal lets in: one start of an attempt, before its other facts, and
nothing of a lifecycle after its terminal. -/
def persistEvent : Except ConversationStoreError Journal := do
  validateEventIdentity envelope
  validateAttemptStartUniqueness journal envelope
  match envelope.lifecycleKeys.find? fun entry => journal.isTerminal entry.1 with
  | some (key, _) =>
    let name := key.text
    .error (.terminalViolation s!"lifecycle {name} is already terminal")
  | none => .ok (journal ++ [{ envelope with sequence := journal.length + 1 }])

end

def persistEvents (envelopes : List RuntimeEventEnvelope) : Except ConversationStoreError Journal :=
  envelopes.foldlM persistEvent journal

end Journal

/-- The durable tables that recovery reads and writes. -/
structure ConversationStore where
  conversation : ConversationId
  ledger : List MessageBlock
  /-- The messages of the current surface head, in model order. -/
  activeMessageIds : List MessageId
  journal : Journal
  publications : List PublicationStreamRecord
  pending : List MessageId
  /-- The correlation keys that an inbound message was accepted under. -/
  correlations : List String
  deriving DecidableEq

namespace ConversationStore

def toolCalls (store : ConversationStore) : List CanonicalToolCall :=
  store.ledger.flatMap MessageBlock.toolCalls

section

variable (store : ConversationStore)

def toolResults : List ToolMessageBlock :=
  store.ledger.filterMap MessageBlock.toolResult

def resultOf (occurrence : ToolCallOccurrenceRef) : Option ToolMessageBlock :=
  store.toolResults.find? fun message => message.occurrence = occurrence

def message (store : ConversationStore) (id : MessageId) : Option MessageBlock :=
  store.ledger.find? fun message => message.id = id

/-- The order of the pending index: by message, then by block. -/
def occurrenceLe (a b : CanonicalToolCall) : Prop :=
  a.occurrence.assistant < b.occurrence.assistant ∨
    a.occurrence.assistant = b.occurrence.assistant ∧ a.occurrence.block ≤ b.occurrence.block

instance : DecidableRel occurrenceLe := fun a b =>
  inferInstanceAs (Decidable (a.occurrence.assistant < b.occurrence.assistant ∨
    a.occurrence.assistant = b.occurrence.assistant ∧ a.occurrence.block ≤ b.occurrence.block))

/-- The calls without a result, at most `limit` of them. -/
def unsettledCanonicalToolCalls (limit : Nat) : List CanonicalToolCall :=
  ((store.toolCalls.filter fun call => store.resultOf call.occurrence = none).insertionSort
    occurrenceLe).take limit

def loadUnsettledPublicationStreams : List PublicationStreamRecord :=
  store.publications.filter fun record => record.settlement = none

def associateCanonicalToolResult (message : ToolMessageBlock) :
    Except ConversationStoreError Unit :=
  match store.toolCalls.find? fun call => call.occurrence = message.occurrence with
  | none => .error (.invalidReference
      "Tool result occurrence does not name a canonical ToolCall block")
  | some call =>
    if call.call ≠ message.call ∨ call.tool ≠ message.tool then
      .error (.invalidReference "Tool result correlation differs from its canonical occurrence")
    else if (store.resultOf message.occurrence).isSome then
      .error (.invalidReference "canonical Tool occurrence already has a result")
    else .ok ()

def messageExists (id : MessageId) : Bool :=
  store.pending.contains id || store.ledger.any fun message => message.id = id

def appendToolResult (message : ToolMessageBlock) :
    Except ConversationStoreError ConversationStore :=
  if store.messageExists message.id then .error (.duplicateMessageId message.id)
  else do
    store.associateCanonicalToolResult message
    .ok { store with
          ledger := store.ledger ++ [.tool message]
          activeMessageIds := store.activeMessageIds ++ [message.id] }

def persistEvents (store : ConversationStore) (envelopes : List RuntimeEventEnvelope) :
    Except ConversationStoreError ConversationStore := do
  let journal ← store.journal.persistEvents envelopes
  .ok { store with journal := journal }

def appendCanonicalBatchWithEvents (blocks : List ToolMessageBlock)
    (events : List RuntimeEventEnvelope) : Except ConversationStoreError ConversationStore := do
  let appended ← blocks.foldlM appendToolResult store
  appended.persistEvents events

def terminalizePublicationAudit (stream : PublicationStreamId) :
    Except ConversationStoreError ConversationStore :=
  match store.publications.find? fun record => record.stream = stream with
  | none => .error (.publicationViolation s!"publication stream {stream} was never opened")
  | some record =>
    match record.settlement with
    | some settlement =>
      let name := settlement.text
      .error (.publicationViolation s!"publication stream {stream} already settled as {name}")
    | none => .ok
      { store with
        publications := store.publications.map fun record =>
          if record.stream = stream then
            { record with settlement := some (.audited record.auditKind) }
          else record }

/-- Accepts a terminal notice under its correlation key, together with its event. -/
def acceptInboundWithEvent (message : MessageId) (correlation : String) (event : RuntimeEvent) :
    Except ConversationStoreError ConversationStore :=
  if store.correlations.contains correlation then
    .error (.invalidReference s!"correlated inbound {message} has no durable terminal fact")
  else if store.messageExists message then .error (.duplicateMessageId message)
  else
    { store with
      pending := store.pending ++ [message]
      correlations := store.correlations ++ [correlation] }.persistEvents [{ event := event }]

end

end ConversationStore

structure ReconstructedEvidence extends RecoveryEvidence where
  active : List MessageBlock
  unsettledCanonicalCalls : List ToolCallOccurrenceRef
  pending : List MessageId
  unsettledBackground : List BackgroundEvidence
  unsettledSubagents : List SubagentEvidence
  unsettledPublications : List PublicationStreamRecord

def ConversationStore.missingAssistants (store : ConversationStore) : List MessageId :=
  ((store.unsettledCanonicalToolCalls 8192).map fun call => call.occurrence.assistant).dedup.filter
    fun id => !store.activeMessageIds.contains id

/-- The surface, and behind it every other message that has an unsettled call. -/
def ConversationStore.activeMessages (store : ConversationStore) : List MessageBlock :=
  (store.activeMessageIds ++ store.missingAssistants).filterMap store.message

def reconstruct (store : ConversationStore) : ReconstructedEvidence :=
  let evidence := RecoveryEvidence.foldAll
    { conversation := store.conversation
      activeIds := store.activeMessages.map MessageBlock.id } store.journal
  { toRecoveryEvidence := evidence
    active := store.activeMessages
    unsettledCanonicalCalls := (store.unsettledCanonicalToolCalls 8192).map (·.occurrence)
    pending := store.pending
    unsettledBackground :=
      (evidence.background.map Prod.snd).insertionSort fun a b => a.sequence ≤ b.sequence
    unsettledSubagents := evidence.subagents.map Prod.snd
    unsettledPublications := store.loadUnsettledPublicationStreams }

/-- What the recovered runtime may continue. -/
inductive ResumeDisposition
  | pendingInboundOnly
  | continueAdoptedTurn (goal : Option GoalRef)
  | blockedIndeterminate
  deriving DecidableEq

structure PublicationRecoveryClass where
  stream : PublicationStreamId
  attempt : AttemptId
  kind : PublicationAuditKind
  deriving DecidableEq

structure MissingToolResult where
  block : Nat
  call : ToolCallId
  tool : ToolId
  result : ToolExecutionResult
  deriving DecidableEq

structure ToolTurnRepair where
  assistant : MessageId
  missing : List MissingToolResult
  deriving DecidableEq

structure RecoveryPlan where
  attempt : AttemptRecoveryClass
  background : List BackgroundEvidence
  subagents : List SubagentEvidence
  toolRepairs : List ToolTurnRepair
  resume : ResumeDisposition
  nextAttemptOrdinal : Nat
  highestSubagentOrdinal : Nat
  pendingInbound : Nat
  unsettledAttempts : List AttemptId
  toolSummary : Option ToolExternalSummary
  publications : List PublicationRecoveryClass
  deriving DecidableEq

def unknownOutcomeResult : ToolExecutionResult :=
  { status := .outcomeUnknown
      "execution started, then the runtime restarted before a durable outcome was committed" }

/-- A call that nothing shows to have started was given up with its attempt. -/
def abandonedResult : ToolExecutionResult :=
  { status := .cancelled .parentCancelled .beforeStart }

def repairResult (call : CanonicalToolCall) :
    Option ToolRepairEvidence → ToolId × ToolExecutionResult
  | some ⟨tool, .startedOutcomeUnknown⟩ => (tool, unknownOutcomeResult)
  | some ⟨tool, .outcomeKnown result⟩ => (tool, result)
  | none => (call.tool, abandonedResult)

namespace ReconstructedEvidence

variable (evidence : ReconstructedEvidence)

/-- The evidence of a call in the attempt that committed its Assistant message. -/
def toolRepairFor (call : ToolCallId) (owning : Option AttemptId) : Option ToolRepairEvidence :=
  owning.bind fun attempt => evidence.toolRepairs.lookup ⟨attempt, call⟩

def missingResult (call : CanonicalToolCall) : MissingToolResult :=
  let repair := repairResult call (evidence.toolRepairFor call.call
    (evidence.assistantAttempts.lookup call.occurrence.assistant))
  { block := call.occurrence.block, call := call.call, tool := repair.1, result := repair.2 }

def missingResults (message : MessageBlock) : List MissingToolResult :=
  (message.toolCalls.filter fun call =>
    evidence.unsettledCanonicalCalls.contains call.occurrence).map evidence.missingResult

def planToolRepairs : List ToolTurnRepair :=
  (evidence.active.map fun message => ⟨message.id, evidence.missingResults message⟩).filter
    fun repair => repair.missing ≠ []

def nextAttemptOrdinal : Nat :=
  evidence.highestAttemptOrdinal.elim 0 fun seen => min (seen + 1) (2 ^ 64 - 1)

end ReconstructedEvidence

def AttemptRecoveryClass.isIndeterminate : AttemptRecoveryClass → Bool
  | .indeterminateExternalOutcome .. => true
  | _ => false

def resumeDisposition (attempt : AttemptRecoveryClass)
    (unanswered : Option (MessageId × Option GoalRef)) : ResumeDisposition :=
  if attempt.isIndeterminate then .blockedIndeterminate
  else match unanswered with
    | some (_, goal) => .continueAdoptedTurn goal
    | none => .pendingInboundOnly

def classify (evidence : ReconstructedEvidence) : RecoveryPlan :=
  let attempt := classifyAttempt evidence.toRecoveryEvidence
  { attempt := attempt
    background := evidence.unsettledBackground
    subagents := evidence.unsettledSubagents
    toolRepairs := evidence.planToolRepairs
    resume := resumeDisposition attempt evidence.unansweredAdoptedTurn
    nextAttemptOrdinal := evidence.nextAttemptOrdinal
    highestSubagentOrdinal := evidence.highestSubagentOrdinal
    pendingInbound := evidence.pending.length
    unsettledAttempts := evidence.unsettledAttempts.map Prod.fst
    toolSummary := evidence.unsettledAttempts.head?.map fun entry => entry.2.tools
    publications := evidence.unsettledPublications.map fun record =>
      { stream := record.stream, attempt := record.attempt, kind := record.auditKind } }

/-- The attempt to settle and what its terminal says of the work it had outside. -/
def interruption (attempt : AttemptRecoveryClass) (summary : Option ToolExternalSummary) :
    Option (AttemptId × String) :=
  match attempt with
  | .notStarted | .alreadyTerminal => none
  | .admittedWithoutExternalStart attempt => some (attempt,
      s!"the runtime restarted while attempt {attempt} was durably non-terminal; " ++
      "no model request and no tool execution had crossed a durable start commit, " ++
      "so no external side effect is outstanding")
  | .indeterminateExternalOutcome attempt modelRequest toolCalls =>
    let request := match modelRequest with
      | none => "no model request outcome was unknown"
      | some request => s!"model request {request} started and its provider outcome is unknown"
    let named := ", ".intercalate toolCalls
    let tools :=
      if toolCalls = [] then
        if summary.any ToolExternalSummary.isUnknown then
          "a started tool execution's external outcome remains unknown"
        else "no tool execution outcome is indeterminate"
      else s!"the external outcome of tool call(s) {named} is unknown"
    some (attempt, s!"the runtime restarted while attempt {attempt} was durably " ++
      s!"non-terminal; {request}; {tools}. Nothing was resent and nothing was re-executed")
  | .externalOutcomeKnown attempt modelRequest toolCalls =>
    let request := match modelRequest with
      | none => "no model request outcome was pending"
      | some known =>
        let name := known.request.getD "(identity not durable)"
        match known.outcome with
        | .completed => s!"model request {name} completed durably; its Assistant message " ++
            "never became canonical, so no response body is fabricated"
        | .failed => s!"model request {name} failed durably; the historical failure is " ++
            "preserved and was not retried"
    let named := ", ".intercalate toolCalls
    let tools :=
      if toolCalls = [] then
        if summary.any (· ≠ .neverStarted) then
          "the durably known outcome of a started tool execution is preserved"
        else "no tool execution outcome was pending"
      else s!"the durably known outcome of tool call(s) {named} is preserved"
    some (attempt, s!"the runtime restarted while attempt {attempt} was durably " ++
      s!"non-terminal; {request}; {tools}. Nothing was resent and nothing was re-executed")

/-- One atomic durable transition of a reconciliation. -/
inductive Commit
  | publicationAudit (stream : PublicationStreamId)
  | toolTurn (repair : ToolTurnRepair)
  | attemptTerminal (attempt : AttemptId) (diagnostic : String)
  | backgroundTerminal (execution : ToolExecutionId)
  | subagentTerminal (subagent : SubagentId) (ownership : SubagentOwnershipKind)
  deriving DecidableEq

namespace RecoveryPlan

def commits (plan : RecoveryPlan) : List Commit :=
  (plan.publications.map fun record => .publicationAudit record.stream) ++
    (plan.toolRepairs.map .toolTurn ++
      ((interruption plan.attempt plan.toolSummary).map fun entry =>
          .attemptTerminal entry.1 entry.2).toList ++
      (plan.background.map fun entry => .backgroundTerminal entry.executionId) ++
      plan.subagents.map fun child => .subagentTerminal child.subagentId child.ownership)

end RecoveryPlan

namespace ToolTurnRepair

def blocks (repair : ToolTurnRepair) : List ToolMessageBlock :=
  repair.missing.map fun missing =>
    { id := recoveredToolMessage repair.assistant missing.call
      occurrence := ⟨repair.assistant, missing.block⟩
      call := missing.call
      tool := missing.tool
      result := missing.result }

/-- Recovery's own facts carry no attempt. -/
def events (repair : ToolTurnRepair) : List RuntimeEventEnvelope :=
  repair.missing.map fun missing =>
    { event := .toolMessageCommitted (recoveredToolMessage repair.assistant missing.call)
        missing.call }

end ToolTurnRepair

namespace ConversationStore

def commit (store : ConversationStore) : Commit → Except ConversationStoreError ConversationStore
  | .publicationAudit stream => store.terminalizePublicationAudit stream
  | .toolTurn repair => store.appendCanonicalBatchWithEvents repair.blocks repair.events
  | .attemptTerminal attempt diagnostic => store.persistEvents
      [{ attempt := some attempt, event := .attemptTerminal attempt (.restartInterrupted diagnostic) }]
  | .backgroundTerminal execution => store.acceptInboundWithEvent
      ("background-" ++ execution ++ "-terminal") ("background-terminal:" ++ execution)
      (.backgroundTerminalPublished execution)
  | .subagentTerminal subagent .normal => store.acceptInboundWithEvent
      ("subagent-" ++ subagent ++ "-terminal") ("subagent-terminal:" ++ subagent)
      (.subagentTerminal subagent)
  | .subagentTerminal subagent .workflow =>
    store.persistEvents [{ event := .subagentTerminal subagent }]

def commitAll (store : ConversationStore) (commits : List Commit) :
    Except ConversationStoreError ConversationStore :=
  commits.foldlM commit store

end ConversationStore

inductive RecoveryError
  | durable (error : ConversationStoreError)
  | unrecoverable (message : String)
  deriving DecidableEq

/-- The new durable facts of one recovery. -/
structure RecoveryReconciliation where
  repairedToolResults : List ToolCallId
  attemptTerminal : Option AttemptId
  backgroundTerminals : List ToolExecutionId
  subagentTerminals : List SubagentId
  publicationAudits : List (PublicationStreamId × PublicationAuditKind)
  deriving DecidableEq

def RecoveryReconciliation.isEmpty (made : RecoveryReconciliation) : Bool :=
  made.repairedToolResults.isEmpty && made.attemptTerminal.isNone &&
    made.backgroundTerminals.isEmpty && made.subagentTerminals.isEmpty &&
    made.publicationAudits.isEmpty

def RecoveryPlan.reconciliation (plan : RecoveryPlan) : RecoveryReconciliation :=
  { repairedToolResults := plan.toolRepairs.flatMap fun repair => repair.missing.map (·.call)
    attemptTerminal := (interruption plan.attempt plan.toolSummary).map Prod.fst
    backgroundTerminals := plan.background.map (·.executionId)
    subagentTerminals := plan.subagents.map (·.subagentId)
    publicationAudits := plan.publications.map fun record => (record.stream, record.kind) }

structure RecoveryReport where
  plan : RecoveryPlan
  reconciliation : RecoveryReconciliation
  deriving DecidableEq

/-- The commits of a plan, unless it found attempts that cannot all be the one active. -/
def RecoveryPlan.reconcile (plan : RecoveryPlan) (store : ConversationStore) :
    Except RecoveryError (RecoveryReport × ConversationStore) :=
  if 1 < plan.unsettledAttempts.length then
    let count := plan.unsettledAttempts.length
    let names := ", ".intercalate plan.unsettledAttempts
    .error (.unrecoverable (s!"the durable authority holds {count} concurrently " ++
      s!"non-terminal attempts ({names}), " ++
      "but a conversation admits at most one attempt at a time"))
  else match store.commitAll plan.commits with
    | .error error => .error (.durable error)
    | .ok settled => .ok (⟨plan, plan.reconciliation⟩, settled)

/-- One whole recovery. It checks afterwards that no call is left without a result. -/
def recover (store : ConversationStore) :
    Except RecoveryError (RecoveryReport × ConversationStore) := do
  let (report, settled) ← (classify (reconstruct store)).reconcile store
  match settled.unsettledCanonicalToolCalls 1 with
  | [] => .ok (report, settled)
  | call :: _ =>
    let name := call.call
    .error (.unrecoverable (s!"the reconciled Surface still ends inside an incomplete tool " ++
      s!"turn: tool call {name} has no committed ToolResult"))

end RustX.Recovery
