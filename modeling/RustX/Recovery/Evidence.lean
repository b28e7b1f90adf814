import RustX.Library.Assoc
import RustX.Workflow.Json

/-!
Startup recovery reads the event journal once and keeps only what is unresolved:
a summary of each attempt that has no terminal, the tool calls whose canonical
result is missing, and the background executions and children that never settled.
-/
namespace RustX.Recovery

abbrev AttemptId := String
abbrev ConversationId := String
abbrev MessageId := String
abbrev RequestId := String
abbrev ToolCallId := String
abbrev ToolId := String
abbrev ToolExecutionId := String
abbrev SubagentId := String

structure GoalRef where
  id : String
  revision : Nat
  deriving DecidableEq

inductive CancellationReason
  | userRequested | runtimeShutdown | parentCancelled | subagentExecutionDeadlineExceeded
  deriving DecidableEq

inductive ToolCancellationPhase
  | beforeStart | duringExecution
  deriving DecidableEq

inductive ToolExecutionStatus
  | success
  | failed (error : String)
  | denied (reason : String)
  | cancelled (reason : CancellationReason) (phase : ToolCancellationPhase)
  | timedOut
  | outcomeUnknown (detail : String)
  deriving DecidableEq

structure ToolExecutionResult where
  status : ToolExecutionStatus
  content : List Json := []
  durationMs : Nat := 0
  exitCode : Option Int := none
  artifacts : List Json := []
  deliveries : List Json := []
  truncation : Option Json := none
  workflow : Option Json := none
  managedOutput : Option Json := none
  deriving DecidableEq

/-- How an attempt ended. No live runtime writes `restartInterrupted`. -/
inductive AttemptTerminal
  | completed
  | cancelled
  | timedOut
  | limitExceeded
  | failed
  | restartInterrupted (message : String)
  deriving DecidableEq

inductive SubagentOwnershipKind
  | normal | workflow
  deriving DecidableEq

inductive RequestOutcome
  | completed | failed
  deriving DecidableEq

inductive ModelRequestOwner
  | agent | auxiliary
  deriving DecidableEq

structure BackgroundEvidence where
  sequence : Nat
  executionId : ToolExecutionId
  toolCallId : ToolCallId
  toolId : ToolId
  toolName : String
  deriving DecidableEq

structure SubagentEvidence where
  subagentId : SubagentId
  childAgentId : String
  agent : String
  definitionDigest : String
  ownership : SubagentOwnershipKind
  deriving DecidableEq

/-- The facts the fold tells apart; every other one is `other`. -/
inductive RuntimeEvent
  | attemptStarted (attempt : AttemptId)
  | goalRoundAdmitted (message : MessageId) (current : GoalRef)
  | inboundTurnAdopted (messages : List MessageId)
  | attemptTerminal (attempt : AttemptId) (terminal : AttemptTerminal)
  | modelRequestStarted (owner : ModelRequestOwner) (request : RequestId)
  | modelRequestSettled (owner : ModelRequestOwner) (request : RequestId) (outcome : RequestOutcome)
  | assistantMessageCommitted (message : MessageId)
  | toolExecutionStarted (call : ToolCallId) (tool : ToolId)
  | toolExecutionCompleted (call : ToolCallId) (tool : ToolId) (result : ToolExecutionResult)
  | toolExecutionFailed (call : ToolCallId) (tool : ToolId) (error : String)
  | toolMessageCommitted (message : MessageId) (call : ToolCallId)
  | backgroundExecutionCommitted (execution : ToolExecutionId) (call : ToolCallId) (tool : ToolId)
      (toolName : String)
  | backgroundTerminalPublished (execution : ToolExecutionId)
  | agentActivationAdmission (activation : SubagentId)
  | subagentOwnershipCommitted (child : SubagentEvidence)
  /-- Published to the parent, or settled inside a workflow. -/
  | subagentTerminal (subagent : SubagentId)
  | other
  deriving DecidableEq

structure RuntimeEventEnvelope where
  sequence : Nat := 0
  attempt : Option AttemptId := none
  event : RuntimeEvent
  deriving DecidableEq

inductive ExternalRequestLifecycle
  | neverStarted
  | startedOutcomeUnknown (request : RequestId)
  | startedOutcomeKnown (request : Option RequestId) (outcome : RequestOutcome)
  deriving DecidableEq

inductive ToolExternalSummary
  | neverStarted
  | allOutcomesKnown
  | unknownOutstanding
  /-- A call whose canonical result was committed with its outcome unknown. -/
  | unknownIrreversible
  deriving DecidableEq

structure AttemptEvidence where
  request : ExternalRequestLifecycle := .neverStarted
  lastStartedRequest : Option RequestId := none
  tools : ToolExternalSummary := .neverStarted
  lastAcceptedAssistant : Option MessageId := none
  deriving DecidableEq

namespace AttemptEvidence

variable (known : AttemptEvidence)

def startRequest (request : RequestId) : AttemptEvidence :=
  { known with request := .startedOutcomeUnknown request, lastStartedRequest := some request }

def setRequest (request : ExternalRequestLifecycle) : AttemptEvidence :=
  { known with request := request }

def setTools (tools : ToolExternalSummary) : AttemptEvidence :=
  { known with tools := tools }

def acceptAssistant (message : MessageId) : AttemptEvidence :=
  { known with lastAcceptedAssistant := some message }

def forgetRequest : AttemptEvidence :=
  { known with lastStartedRequest := none }

end AttemptEvidence

inductive ToolExternalLifecycle
  | startedOutcomeUnknown
  | outcomeKnown (result : ToolExecutionResult)
  deriving DecidableEq

structure ToolRepairEvidence where
  toolId : ToolId
  lifecycle : ToolExternalLifecycle
  deriving DecidableEq

/-- A call of an attempt, in the order of the map that holds its repair evidence. -/
structure CallKey where
  attempt : AttemptId
  call : ToolCallId
  deriving DecidableEq

instance : LT CallKey :=
  ⟨fun a b => a.attempt < b.attempt ∨ a.attempt = b.attempt ∧ a.call < b.call⟩

instance : DecidableLT CallKey := fun a b =>
  inferInstanceAs (Decidable (a.attempt < b.attempt ∨ a.attempt = b.attempt ∧ a.call < b.call))

structure RecoveryEvidence where
  conversation : ConversationId
  activeIds : List MessageId
  unsettledAttempts : List (AttemptId × AttemptEvidence) := []
  toolRepairs : List (CallKey × ToolRepairEvidence) := []
  assistantAttempts : List (MessageId × AttemptId) := []
  background : List (ToolExecutionId × BackgroundEvidence) := []
  subagents : List (SubagentId × SubagentEvidence) := []
  highestAttemptOrdinal : Option Nat := none
  highestSubagentOrdinal : Nat := 0
  sawAnyAttempt : Bool := false
  unansweredAdoptedTurn : Option (MessageId × Option GoalRef) := none
  unadoptedGoalRound : Option (MessageId × GoalRef) := none
  deriving DecidableEq

/-- `str::parse::<u64>`. -/
def parseU64 (text : String) : Option Nat :=
  let digits := if text.startsWith "+" then (text.drop 1).toString else text
  if digits ≠ "" && digits.all Char.isDigit then
    digits.toNat?.filter fun n => decide (n < 2 ^ 64)
  else none

def conversationOrdinal (infixText : String) (conversation : ConversationId) (id : String) :
    Option Nat :=
  let start := conversation ++ infixText
  if id.startsWith start then parseU64 (id.drop start.length).toString else none

def attemptOrdinal : ConversationId → AttemptId → Option Nat :=
  conversationOrdinal "-attempt-"

def subagentOrdinal : ConversationId → SubagentId → Option Nat :=
  conversationOrdinal "-subagent-"

/-- The message a repair of this call is committed under. -/
def recoveredToolMessage (assistant : MessageId) (call : ToolCallId) : MessageId :=
  assistant ++ "-recovered-tool-" ++ call

/-- Only a terminal that a live runtime wrote decides about the turn. -/
def AttemptTerminal.decidesTheTurn : AttemptTerminal → Bool
  | .restartInterrupted _ => false
  | _ => true

def ExternalRequestLifecycle.settle (outcome : RequestOutcome) :
    ExternalRequestLifecycle → ExternalRequestLifecycle
  | .startedOutcomeUnknown request => .startedOutcomeKnown (some request) outcome
  | .startedOutcomeKnown request _ => .startedOutcomeKnown request outcome
  | .neverStarted => .startedOutcomeKnown none outcome

def ToolExternalSummary.start : ToolExternalSummary → ToolExternalSummary
  | .neverStarted | .allOutcomesKnown => .unknownOutstanding
  | other => other

def failedResult (error : String) : ToolExecutionResult :=
  { status := .failed error }

namespace RecoveryEvidence

variable (evidence : RecoveryEvidence)

section

variable (attempt : AttemptId)

def noteAttempt : RecoveryEvidence :=
  { evidence with
    sawAnyAttempt := true
    highestAttemptOrdinal :=
      match attemptOrdinal evidence.conversation attempt with
      | none => evidence.highestAttemptOrdinal
      | some ordinal => some (evidence.highestAttemptOrdinal.elim ordinal (max · ordinal)) }

def noteSubagent (subagent : SubagentId) : RecoveryEvidence :=
  { evidence with
    highestSubagentOrdinal :=
      (subagentOrdinal evidence.conversation subagent).elim evidence.highestSubagentOrdinal
        (max evidence.highestSubagentOrdinal) }

/-- `get_mut` on an attempt that has no terminal. -/
def modifyAttempt (update : AttemptEvidence → AttemptEvidence) : RecoveryEvidence :=
  { evidence with
    unsettledAttempts := evidence.unsettledAttempts.map fun entry =>
      if entry.1 = attempt then (entry.1, update entry.2) else entry }

def openAttempt : RecoveryEvidence :=
  if (evidence.unsettledAttempts.lookup attempt).isSome then evidence
  else
    { evidence with
      unsettledAttempts := Assoc.insert attempt {} evidence.unsettledAttempts }

def removeAttempt : RecoveryEvidence :=
  { evidence with
    unsettledAttempts := evidence.unsettledAttempts.filter fun entry => entry.1 ≠ attempt }

def noteRepair (call : ToolCallId) (repair : ToolRepairEvidence) : RecoveryEvidence :=
  { evidence with toolRepairs := Assoc.insert ⟨attempt, call⟩ repair evidence.toolRepairs }

def releaseRepair (call : ToolCallId) : RecoveryEvidence :=
  { evidence with
    toolRepairs := evidence.toolRepairs.filter fun entry => entry.1 ≠ ⟨attempt, call⟩ }

/-- Whether a started call of the attempt still has no recorded outcome. -/
def outstandingUnknown : Bool :=
  evidence.toolRepairs.any fun entry =>
    entry.1.attempt = attempt && entry.2.lifecycle = .startedOutcomeUnknown

/-- One outcome became known; what stays unknown is read off the repairs. -/
def noteKnownToolOutcome : RecoveryEvidence :=
  let unknown := evidence.outstandingUnknown attempt
  evidence.modifyAttempt attempt fun known =>
    if known.tools = .unknownIrreversible then known
    else known.setTools (if unknown then .unknownOutstanding else .allOutcomesKnown)

def adoptTurn (messages : List MessageId) : RecoveryEvidence :=
  match messages.getLast? with
  | none => evidence
  | some last =>
    match evidence.unadoptedGoalRound.filter fun round => messages.contains round.1 with
    | some (_, goal) =>
      { evidence with
        unadoptedGoalRound := none, unansweredAdoptedTurn := some (last, some goal) }
    | none => { evidence with unansweredAdoptedTurn := some (last, none) }

/-- Whose result a commit settles: the attempt it names, or the one that committed
the Assistant message a recovered result belongs to. -/
def commitOwner (attempt : Option AttemptId) (message : MessageId)
    (call : ToolCallId) : Option AttemptId :=
  match attempt with
  | some attempt => some attempt
  | none =>
    (evidence.assistantAttempts.find? fun entry =>
      message = recoveredToolMessage entry.1 call).map Prod.snd

def settleCall (call : ToolCallId) : RecoveryEvidence :=
  let unknown := (evidence.toolRepairs.lookup ⟨attempt, call⟩).any fun repair =>
    repair.lifecycle = .startedOutcomeUnknown
  let released := evidence.releaseRepair attempt call
  if unknown then
    released.modifyAttempt attempt (·.setTools .unknownIrreversible)
  else released

end

/-- One durable event enters the unresolved working set. -/
def fold (envelope : RuntimeEventEnvelope) : RecoveryEvidence :=
  match envelope.event with
  | .attemptStarted attempt => (evidence.noteAttempt attempt).openAttempt attempt
  | .goalRoundAdmitted message current =>
    { evidence with unadoptedGoalRound := some (message, current) }
  | .inboundTurnAdopted messages =>
    let adopted := evidence.adoptTurn messages
    { adopted with
      unsettledAttempts := adopted.unsettledAttempts.map fun entry =>
        (entry.1, entry.2.forgetRequest) }
  | .attemptTerminal attempt terminal =>
    let noted := evidence.noteAttempt attempt
    let decided := if terminal.decidesTheTurn then
        { noted with unansweredAdoptedTurn := none }
      else noted
    decided.removeAttempt attempt
  | .modelRequestStarted .agent request =>
    let carried := { evidence with unansweredAdoptedTurn := none }
    match envelope.attempt with
    | none => carried
    | some attempt =>
      (carried.noteAttempt attempt).modifyAttempt attempt (·.startRequest request)
  | .modelRequestSettled .agent _ outcome =>
    match envelope.attempt with
    | none => evidence
    | some attempt => (evidence.noteAttempt attempt).modifyAttempt attempt fun known =>
      known.setRequest (known.request.settle outcome)
  | .assistantMessageCommitted message =>
    match envelope.attempt with
    | none => evidence
    | some attempt =>
      let noted := evidence.modifyAttempt attempt (·.acceptAssistant message)
      if noted.activeIds.contains message then
        { noted with assistantAttempts := Assoc.insert message attempt noted.assistantAttempts }
      else noted
  | .toolExecutionStarted call tool =>
    match envelope.attempt with
    | none => evidence
    | some attempt =>
      (evidence.modifyAttempt attempt fun known => known.setTools known.tools.start).noteRepair
        attempt call { toolId := tool, lifecycle := .startedOutcomeUnknown }
  | .toolExecutionCompleted call tool result =>
    match envelope.attempt with
    | none => evidence
    | some attempt =>
      (evidence.noteRepair attempt call
        { toolId := tool, lifecycle := .outcomeKnown result }).noteKnownToolOutcome attempt
  | .toolExecutionFailed call tool error =>
    match envelope.attempt with
    | none => evidence
    | some attempt =>
      (evidence.noteRepair attempt call
        { toolId := tool
          lifecycle := .outcomeKnown (failedResult error) }).noteKnownToolOutcome attempt
  | .toolMessageCommitted message call =>
    match evidence.commitOwner envelope.attempt message call with
    | none => evidence
    | some attempt => evidence.settleCall attempt call
  | .backgroundExecutionCommitted execution call tool toolName =>
    { evidence with
      background := Assoc.insert execution
        { sequence := envelope.sequence, executionId := execution, toolCallId := call
          toolId := tool, toolName := toolName } evidence.background }
  | .backgroundTerminalPublished execution =>
    { evidence with background := evidence.background.filter fun entry => entry.1 ≠ execution }
  | .agentActivationAdmission activation => evidence.noteSubagent activation
  | .subagentOwnershipCommitted child =>
    let noted := evidence.noteSubagent child.subagentId
    { noted with subagents := Assoc.insert child.subagentId child noted.subagents }
  | .subagentTerminal subagent =>
    let noted := evidence.noteSubagent subagent
    { noted with subagents := noted.subagents.filter fun entry => entry.1 ≠ subagent }
  -- Auxiliary requests and every other fact name an attempt and nothing else.
  | .modelRequestStarted .auxiliary _ | .modelRequestSettled .auxiliary _ _ | .other =>
    match envelope.attempt with
    | none => evidence
    | some attempt => evidence.noteAttempt attempt

def foldAll (journal : List RuntimeEventEnvelope) : RecoveryEvidence :=
  journal.foldl fold evidence

end RecoveryEvidence

structure KnownModelOutcome where
  request : Option RequestId
  outcome : RequestOutcome
  deriving DecidableEq

inductive AttemptRecoveryClass
  | notStarted
  | admittedWithoutExternalStart (attempt : AttemptId)
  | indeterminateExternalOutcome (attempt : AttemptId) (modelRequest : Option RequestId)
      (toolCalls : List ToolCallId)
  | alreadyTerminal
  | externalOutcomeKnown (attempt : AttemptId) (modelRequest : Option KnownModelOutcome)
      (toolCalls : List ToolCallId)
  deriving DecidableEq

def ToolExternalSummary.isUnknown : ToolExternalSummary → Bool
  | .unknownOutstanding | .unknownIrreversible => true
  | _ => false

/-- The calls of an attempt that can still be named, by what is known of them. -/
def RecoveryEvidence.callsOf (evidence : RecoveryEvidence) (attempt : AttemptId) (unknown : Bool) :
    List ToolCallId :=
  (evidence.toolRepairs.filter fun entry => entry.1.attempt = attempt &&
    decide (entry.2.lifecycle = .startedOutcomeUnknown) == unknown).map fun entry => entry.1.call

def classifyAttempt (evidence : RecoveryEvidence) : AttemptRecoveryClass :=
  match evidence.unsettledAttempts with
  | [] => if evidence.sawAnyAttempt then .alreadyTerminal else .notStarted
  | (attempt, known) :: _ =>
    match known.request with
    | .startedOutcomeUnknown request =>
      .indeterminateExternalOutcome attempt (some request) (evidence.callsOf attempt true)
    | .neverStarted =>
      if known.tools.isUnknown then
        .indeterminateExternalOutcome attempt none (evidence.callsOf attempt true)
      else if known.tools = .neverStarted &&
          !evidence.toolRepairs.any (fun entry => entry.1.attempt = attempt) then
        .admittedWithoutExternalStart attempt
      else .externalOutcomeKnown attempt none (evidence.callsOf attempt false)
    | .startedOutcomeKnown request outcome =>
      if known.tools.isUnknown then
        .indeterminateExternalOutcome attempt none (evidence.callsOf attempt true)
      else
        .externalOutcomeKnown attempt (some ⟨request, outcome⟩) (evidence.callsOf attempt false)

end RustX.Recovery
