import RustX.Recovery.Journal

/-!
The fold keeps a true summary of every open attempt, although it forgets a call as
soon as its canonical result is committed.
-/
namespace RustX.Recovery

namespace RecoveryEvidence

open Journal RuntimeEventEnvelope Assoc List

def view (evidence : RecoveryEvidence) (attempt : AttemptId) :
    Option (ExternalRequestLifecycle × ToolExternalSummary) :=
  (evidence.unsettledAttempts.lookup attempt).map fun known => (known.request, known.tools)

def isUnknown (evidence : RecoveryEvidence) (attempt : AttemptId) (call : ToolCallId) : Bool :=
  (evidence.toolRepairs.lookup ⟨attempt, call⟩).any fun repair =>
    repair.lifecycle = .startedOutcomeUnknown

variable {evidence : RecoveryEvidence} {active : List MessageId} {journal : Journal}
  {attempt : AttemptId} {call : ToolCallId}

theorem lookup_modifyAttempt (evidence : RecoveryEvidence) (attempt other : AttemptId)
    (update : AttemptEvidence → AttemptEvidence) :
    (evidence.modifyAttempt attempt update).unsettledAttempts.lookup other =
      (evidence.unsettledAttempts.lookup other).map fun known =>
        if other = attempt then update known else known := by
  have same : (evidence.modifyAttempt attempt update).unsettledAttempts =
      evidence.unsettledAttempts.map fun entry =>
        (entry.1, if entry.1 = attempt then update entry.2 else entry.2) := by
    apply map_congr_left
    intro entry _
    split <;> rfl
  rw [same, lookup_map_value _ fun name known =>
    if name = attempt then update known else known]

theorem keys_modifyAttempt (evidence : RecoveryEvidence) (attempt : AttemptId)
    (update : AttemptEvidence → AttemptEvidence) :
    (evidence.modifyAttempt attempt update).unsettledAttempts.map Prod.fst =
      evidence.unsettledAttempts.map Prod.fst := by
  simp only [modifyAttempt, map_map]
  apply map_congr_left
  intro entry _
  simp only [Function.comp_apply]
  split <;> rfl

theorem recoveredToolMessage_injective
    (same : recoveredToolMessage first call = recoveredToolMessage second call) :
    first = second := by
  simp only [recoveredToolMessage, ← String.toList_inj, String.toList_append] at same ⊢
  exact append_cancel_right (append_cancel_right same)

/-- What the working set records of calls and their owners is what the journal says of
them, in whatever order it was written. -/
structure Attributed (evidence : RecoveryEvidence) (active : List MessageId) (journal : Journal) :
    Prop where
  actives : evidence.activeIds = active
  attemptsDistinct : (evidence.unsettledAttempts.map Prod.fst).Nodup
  repairsDistinct : (evidence.toolRepairs.map Prod.fst).Nodup
  ownersDistinct : (evidence.assistantAttempts.map Prod.fst).Nodup
  owners : ∀ message, evidence.assistantAttempts.lookup message =
    if message ∈ active then assistantOwner journal message else none
  repairs : ∀ attempt call, evidence.isUnknown attempt call = true ↔
    HasFate active journal attempt call .outstanding
  named : ∀ attempt call, evidence.toolRepairs.lookup ⟨attempt, call⟩ ≠ none →
    ∃ envelope ∈ journal, envelope.toolFact attempt = true

/-- The open attempts are the running ones, and the tools of each are summarised. -/
structure Tracks (evidence : RecoveryEvidence) (active : List MessageId) (journal : Journal) :
    Prop extends Attributed evidence active journal where
  running : ∀ attempt, (evidence.view attempt).isSome = true ↔ Running journal attempt
  tools : ∀ attempt request tools, evidence.view attempt = some (request, tools) →
    ToolsMatch active journal attempt tools

/-- The working set is what the journal so far makes it. -/
structure Summarises (evidence : RecoveryEvidence) (active : List MessageId) (journal : Journal) :
    Prop extends Tracks evidence active journal where
  requests : ∀ attempt request tools, evidence.view attempt = some (request, tools) →
    RequestMatches journal attempt request

theorem attributed_empty (conversation : ConversationId) (active : List MessageId) :
    ({ conversation := conversation, activeIds := active } : RecoveryEvidence).Attributed
      active [] := by
  constructor <;> simp [isUnknown, assistantOwner, HasFate]

theorem tracks_empty (conversation : ConversationId) (active : List MessageId) :
    ({ conversation := conversation, activeIds := active } : RecoveryEvidence).Tracks
      active [] where
  toAttributed := attributed_empty conversation active
  running := by simp [view, Running]
  tools := by simp [view]

variable {envelope : RuntimeEventEnvelope}

/-- The owner a commit is attributed to is the one the journal gives it. -/
theorem Attributed.commitOwner_iff (held : evidence.Attributed active journal)
    (event : envelope.event = .toolMessageCommitted message call) :
    evidence.commitOwner envelope.attempt message call = some attempt ↔
      commitsCall active journal envelope attempt call = true := by
  unfold commitsCall RecoveryEvidence.commitOwner
  rw [event]
  cases envelope.attempt with
  | some owner => simp
  | none =>
    simp only [decide_true, Bool.true_and, any_eq_true, Bool.and_eq_true, decide_eq_true_eq,
      Option.map_eq_some_iff]
    constructor
    · rintro ⟨⟨assistant, owner⟩, found, rfl⟩
      have member := mem_of_find?_eq_some found
      have named := find?_some found
      have lookup := lookup_of_mem held.ownersDistinct member
      rw [held.owners] at lookup
      split at lookup
      · rename_i present
        exact ⟨assistant, present, by simpa using named, lookup⟩
      · cases lookup
    · rintro ⟨assistant, present, rfl, owned⟩
      have lookup : evidence.assistantAttempts.lookup assistant = some attempt := by
        rw [held.owners, if_pos present, owned]
      have member := mem_of_lookup lookup
      obtain ⟨⟨first, owner⟩, found⟩ := Option.isSome_iff_exists.mp
        (find?_isSome.mpr ⟨_, member, by simp⟩ : (evidence.assistantAttempts.find? fun entry =>
          recoveredToolMessage assistant call = recoveredToolMessage entry.1 call).isSome = true)
      have named := find?_some found
      obtain rfl : assistant = first := recoveredToolMessage_injective (by simpa using named)
      have again := lookup_of_mem held.ownersDistinct (mem_of_find?_eq_some found)
      rw [lookup, Option.some.injEq] at again
      exact ⟨_, found, again.symm⟩

/-- An unknown outcome is outstanding exactly if some call of the attempt is. -/
theorem outstandingUnknown_iff (distinct : (evidence.toolRepairs.map Prod.fst).Nodup) :
    evidence.outstandingUnknown attempt = true ↔ ∃ call, evidence.isUnknown attempt call = true := by
  simp only [outstandingUnknown, any_eq_true, Bool.and_eq_true, decide_eq_true_eq, isUnknown,
    Option.any_eq_true]
  constructor
  · rintro ⟨⟨⟨owner, call⟩, repair⟩, member, rfl, unknown⟩
    exact ⟨call, repair, lookup_of_mem distinct member, unknown⟩
  · rintro ⟨call, repair, found, unknown⟩
    exact ⟨_, mem_of_lookup found, rfl, unknown⟩

def requestStep (envelope : RuntimeEventEnvelope) (attempt : AttemptId)
    (request : ExternalRequestLifecycle) : ExternalRequestLifecycle :=
  match envelope.event with
  | .modelRequestStarted .agent name =>
    if envelope.attempt = some attempt then .startedOutcomeUnknown name else request
  | .modelRequestSettled .agent _ outcome =>
    if envelope.attempt = some attempt then request.settle outcome else request
  | _ => request

def toolStep (evidence : RecoveryEvidence) (envelope : RuntimeEventEnvelope) (attempt : AttemptId)
    (tools : ToolExternalSummary) : ToolExternalSummary :=
  match envelope.event with
  | .toolExecutionStarted _ _ => if envelope.attempt = some attempt then tools.start else tools
  | .toolExecutionCompleted .. | .toolExecutionFailed .. =>
    if envelope.attempt = some attempt then
      if tools = .unknownIrreversible then tools
      else if (evidence.fold envelope).outstandingUnknown attempt then .unknownOutstanding
      else .allOutcomesKnown
    else tools
  | .toolMessageCommitted message call =>
    if evidence.commitOwner envelope.attempt message call = some attempt ∧
        evidence.isUnknown attempt call = true then .unknownIrreversible
    else tools
  | _ => tools

section

variable (evidence : RecoveryEvidence) (attempt other : AttemptId)

theorem view_openAttempt : (evidence.openAttempt attempt).view other =
      if other = attempt ∧ evidence.view other = none then some (.neverStarted, .neverStarted)
      else evidence.view other := by
  unfold openAttempt
  split
  · rename_i present
    rw [if_neg]
    rintro ⟨rfl, absent⟩
    rw [view, Option.map_eq_none_iff] at absent
    rw [absent] at present
    cases present
  · rename_i absent
    rw [view, lookup_insert]
    by_cases same : other = attempt
    · subst same
      rw [Function.update_self, if_pos]
      · rfl
      · rw [view, Option.map_eq_none_iff]
        exact ⟨rfl, Option.not_isSome_iff_eq_none.mp absent⟩
    · rw [Function.update_of_ne same, if_neg fun both => same both.1]
      rfl

theorem view_removeAttempt :
    (evidence.removeAttempt attempt).view other =
      if other = attempt then none else evidence.view other := by
  unfold view removeAttempt
  split
  · rename_i same
    rw [same, lookup_filter_self, Option.map_none]
  · rename_i differs
    rw [lookup_filter_ne _ differs]

theorem view_modifyTools (update : AttemptEvidence → AttemptEvidence)
    (step : ToolExternalSummary → ToolExternalSummary)
    (same : ∀ known, (update known).request = known.request ∧ (update known).tools = step known.tools) :
    (evidence.modifyAttempt attempt update).view other = (evidence.view other).map fun known =>
        (known.1, if some attempt = some other then step known.2 else known.2) := by
  rw [view, lookup_modifyAttempt, view, Option.map_map, Option.map_map]
  congr 1
  funext known
  simp only [Function.comp_apply, Option.some.injEq, @eq_comm _ attempt]
  split <;> simp only [same]

theorem view_modifyRequest (update : AttemptEvidence → AttemptEvidence)
    (step : ExternalRequestLifecycle → ExternalRequestLifecycle)
    (same : ∀ known, (update known).request = step known.request ∧
      (update known).tools = known.tools) :
    (evidence.modifyAttempt attempt update).view other = (evidence.view other).map fun known =>
        (if some attempt = some other then step known.1 else known.1, known.2) := by
  rw [view, lookup_modifyAttempt, view, Option.map_map, Option.map_map]
  congr 1
  funext known
  simp only [Function.comp_apply, Option.some.injEq, @eq_comm _ attempt]
  split <;> simp only [same]

theorem view_noteKnownToolOutcome :
    (evidence.noteKnownToolOutcome attempt).view other = (evidence.view other).map fun known =>
        (known.1, if some attempt = some other then
            if known.2 = .unknownIrreversible then known.2
            else if evidence.outstandingUnknown other then .unknownOutstanding
            else .allOutcomesKnown
          else known.2) := by
  unfold noteKnownToolOutcome
  rw [view_modifyTools evidence attempt other _ fun tools =>
    if tools = .unknownIrreversible then tools
    else if evidence.outstandingUnknown attempt then .unknownOutstanding else .allOutcomesKnown]
  · by_cases mine : attempt = other
    · rw [mine]
    · simp only [Option.some.injEq, mine, if_false]
  · intro known
    split <;> exact ⟨rfl, rfl⟩

theorem view_settleCall (call : ToolCallId) :
    (evidence.settleCall attempt call).view other = (evidence.view other).map fun known =>
        (known.1, if some attempt = some other ∧ evidence.isUnknown other call = true then
          .unknownIrreversible else known.2) := by
  have settles : evidence.settleCall attempt call = if evidence.isUnknown attempt call then
        (evidence.releaseRepair attempt call).modifyAttempt attempt (·.setTools .unknownIrreversible)
      else evidence.releaseRepair attempt call := rfl
  rw [settles]
  split
  · rename_i unknown
    rw [view_modifyTools _ attempt other (·.setTools .unknownIrreversible)
      (fun _ => .unknownIrreversible) fun _ => ⟨rfl, rfl⟩]
    by_cases mine : attempt = other
    · simp only [← mine, unknown, and_true]
      rfl
    · simp only [Option.some.injEq, mine, false_and, if_false]
      rfl
  · rename_i known
    have kept : ¬ (some attempt = some other ∧ evidence.isUnknown other call = true) := by
      rintro ⟨⟨⟩, unknown⟩
      exact known unknown
    simp only [kept, if_false]
    exact Option.map_id'.symm

/-- A terminal that decides about the turn leaves the attempts. -/
theorem view_decided (decided : Bool) (attempt : AttemptId) :
    (if decided then { evidence with unansweredAdoptedTurn := none } else evidence).view attempt =
      evidence.view attempt := by
  split <;> rfl

/-- Adopting a turn changes the obligation and the goal round only. -/
theorem adoptTurn_eq (messages : List MessageId) :
    evidence.adoptTurn messages =
      { evidence with
        unadoptedGoalRound := (evidence.adoptTurn messages).unadoptedGoalRound
        unansweredAdoptedTurn := (evidence.adoptTurn messages).unansweredAdoptedTurn } := by
  unfold adoptTurn
  split
  · rfl
  · split <;> rfl

theorem view_adoptTurn (messages : List MessageId) (attempt : AttemptId) :
    (evidence.fold { event := .inboundTurnAdopted messages }).view attempt =
      evidence.view attempt := by
  simp only [fold, view]
  rw [adoptTurn_eq]
  rw [lookup_map_value evidence.unsettledAttempts fun _ known => known.forgetRequest,
    Option.map_map]
  rfl

theorem view_fold (envelope : RuntimeEventEnvelope) (attempt : AttemptId) :
    (evidence.fold envelope).view attempt =
      if envelope.starts attempt = true ∧ evidence.view attempt = none then
        some (.neverStarted, .neverStarted)
      else if envelope.ends attempt = true then none
      else (evidence.view attempt).map fun known =>
        (requestStep envelope attempt known.1, evidence.toolStep envelope attempt known.2) := by
  obtain ⟨sequence, owner, event⟩ := envelope
  have same : (evidence.view attempt).map (fun known => (known.1, known.2)) =
      evidence.view attempt := by
    cases evidence.view attempt <;> rfl
  cases event with
  | attemptStarted started =>
    have named : starts ⟨sequence, owner, .attemptStarted started⟩ attempt =
        decide (attempt = started) := by
      simp [starts, eq_comm]
    rw [named]
    simp only [fold, view_openAttempt, decide_eq_true_eq, ends,
      Bool.false_eq_true, if_false, requestStep, toolStep, same]
    rfl
  | attemptTerminal ended terminal =>
    have named : ends ⟨sequence, owner, .attemptTerminal ended terminal⟩
        attempt = decide (attempt = ended) := by
      simp [ends, eq_comm]
    rw [named]
    simp only [fold, view_removeAttempt, view_decided, starts, reduceCtorEq,
      decide_false, Bool.false_eq_true, false_and, if_false, decide_eq_true_eq, requestStep,
      toolStep, same]
    rfl
  | inboundTurnAdopted messages =>
    exact (view_adoptTurn evidence messages attempt).trans same.symm
  | modelRequestStarted kind request =>
    cases kind with
    | auxiliary => cases owner <;> exact same.symm
    | agent =>
      cases owner with
      | none => exact same.symm
      | some owner =>
        exact view_modifyRequest _ owner attempt _
          (fun _ => .startedOutcomeUnknown request) fun _ => ⟨rfl, rfl⟩
  | modelRequestSettled kind request outcome =>
    cases kind with
    | auxiliary => cases owner <;> exact same.symm
    | agent =>
      cases owner with
      | none => exact same.symm
      | some owner =>
        exact view_modifyRequest _ owner attempt (fun known => known.setRequest _)
          _ fun _ => ⟨rfl, rfl⟩
  | assistantMessageCommitted message =>
    cases owner with
    | none => exact same.symm
    | some owner =>
      have kept := view_modifyTools evidence owner attempt (·.acceptAssistant message) id
        fun _ => ⟨rfl, rfl⟩
      simp only [id_eq, ite_self, same] at kept
      simp only [fold]
      split
      · exact kept.trans same.symm
      · exact kept.trans same.symm
  | toolExecutionStarted call tool =>
    cases owner with
    | none => exact same.symm
    | some owner =>
      exact view_modifyTools evidence owner attempt
        (fun known => known.setTools known.tools.start) _
        fun _ => ⟨rfl, rfl⟩
  | toolExecutionCompleted call tool outcome | toolExecutionFailed call tool outcome =>
    cases owner with
    | none => exact same.symm
    | some owner => exact view_noteKnownToolOutcome _ owner attempt
  | toolMessageCommitted message call =>
    simp only [fold, starts, reduceCtorEq, decide_false, Bool.false_eq_true,
      false_and, if_false, ends, requestStep, toolStep]
    cases evidence.commitOwner owner message call with
    | none => simp only [reduceCtorEq, false_and, if_false, same]
    | some settled => exact view_settleCall evidence settled attempt call
  | other => cases owner <;> exact same.symm
  | _ => exact same.symm

end

def repairWrite (evidence : RecoveryEvidence) (envelope : RuntimeEventEnvelope) :
    Option (CallKey × Option ToolRepairEvidence) :=
  match envelope.event with
  | .toolExecutionStarted call tool =>
    envelope.attempt.map fun attempt => (⟨attempt, call⟩, some ⟨tool, .startedOutcomeUnknown⟩)
  | .toolExecutionCompleted call tool result =>
    envelope.attempt.map fun attempt => (⟨attempt, call⟩, some ⟨tool, .outcomeKnown result⟩)
  | .toolExecutionFailed call tool error =>
    envelope.attempt.map fun attempt =>
      (⟨attempt, call⟩, some ⟨tool, .outcomeKnown (failedResult error)⟩)
  | .toolMessageCommitted message call =>
    (evidence.commitOwner envelope.attempt message call).map fun attempt =>
      (⟨attempt, call⟩, none)
  | _ => none

/-- The working set after an event, but for the attempts themselves. -/
theorem fold_frame (evidence : RecoveryEvidence) (envelope : RuntimeEventEnvelope) :
    (evidence.fold envelope).activeIds = evidence.activeIds ∧
    ((evidence.fold envelope).toolRepairs = match evidence.repairWrite envelope with
      | none => evidence.toolRepairs
      | some (key, some repair) => insert key repair evidence.toolRepairs
      | some (key, none) => evidence.toolRepairs.filter fun entry => entry.1 ≠ key) ∧
    ((evidence.fold envelope).assistantAttempts = match envelope.event, envelope.attempt with
      | .assistantMessageCommitted message, some attempt =>
        if evidence.activeIds.contains message then
          insert message attempt evidence.assistantAttempts
        else evidence.assistantAttempts
      | _, _ => evidence.assistantAttempts) ∧
    ((evidence.fold envelope).background = match envelope.event with
      | .backgroundExecutionCommitted execution call tool toolName => insert execution
          { sequence := envelope.sequence, executionId := execution, toolCallId := call
            toolId := tool, toolName := toolName } evidence.background
      | .backgroundTerminalPublished execution =>
        evidence.background.filter fun entry => entry.1 ≠ execution
      | _ => evidence.background) ∧
    ((evidence.fold envelope).subagents = match envelope.event with
      | .subagentOwnershipCommitted child =>
        insert child.subagentId child evidence.subagents
      | .subagentTerminal subagent => evidence.subagents.filter fun entry => entry.1 ≠ subagent
      | _ => evidence.subagents) ∧
    ((evidence.unsettledAttempts.map Prod.fst).Nodup →
      ((evidence.fold envelope).unsettledAttempts.map Prod.fst).Nodup) := by
  have modified (evidence : RecoveryEvidence) attempt (update : AttemptEvidence → AttemptEvidence) :
      (evidence.unsettledAttempts.map Prod.fst).Nodup →
        ((evidence.modifyAttempt attempt update).unsettledAttempts.map Prod.fst).Nodup := by
    rw [keys_modifyAttempt]
    exact id
  obtain ⟨sequence, owner, event⟩ := envelope
  cases event with
  | attemptStarted started =>
    simp only [fold, openAttempt]
    split
    · exact ⟨rfl, rfl, rfl, rfl, rfl, id⟩
    · exact ⟨rfl, rfl, rfl, rfl, rfl, fun distinct => nodup_keys_insert distinct _ _⟩
  | attemptTerminal ended terminal =>
    simp only [fold]
    split <;> exact ⟨rfl, rfl, rfl, rfl, rfl, fun distinct =>
      distinct.sublist (filter_sublist.map _)⟩
  | inboundTurnAdopted messages =>
    simp only [fold]
    rw [adoptTurn_eq, map_map]
    exact ⟨rfl, rfl, rfl, rfl, rfl, id⟩
  | modelRequestStarted kind request | modelRequestSettled kind request outcome =>
    cases kind <;> cases owner <;>
      first
      | exact ⟨rfl, rfl, rfl, rfl, rfl, id⟩
      | exact ⟨rfl, rfl, rfl, rfl, rfl, fun distinct => modified _ _ _ distinct⟩
  | assistantMessageCommitted message =>
    cases owner with
    | none => exact ⟨rfl, rfl, rfl, rfl, rfl, id⟩
    | some owner =>
      have kept := modified evidence owner (·.acceptAssistant message)
      simp only [fold]
      split
      · rename_i listed
        exact ⟨rfl, rfl, (if_pos listed).symm, rfl, rfl, kept⟩
      · rename_i unlisted
        exact ⟨rfl, rfl, (if_neg unlisted).symm, rfl, rfl, kept⟩
  | toolMessageCommitted message call =>
    simp only [fold, repairWrite]
    cases evidence.commitOwner owner message call with
    | none => exact ⟨rfl, rfl, rfl, rfl, rfl, id⟩
    | some attempt =>
      simp only [settleCall]
      split
      · exact ⟨rfl, rfl, rfl, rfl, rfl, modified (evidence.releaseRepair attempt call) _ _⟩
      · exact ⟨rfl, rfl, rfl, rfl, rfl, id⟩
  | toolExecutionStarted call tool =>
    cases owner with
    | none => exact ⟨rfl, rfl, rfl, rfl, rfl, id⟩
    | some owner => exact ⟨rfl, rfl, rfl, rfl, rfl, modified evidence owner fun known =>
      known.setTools known.tools.start⟩
  | toolExecutionCompleted call tool outcome | toolExecutionFailed call tool outcome =>
    cases owner with
    | none => exact ⟨rfl, rfl, rfl, rfl, rfl, id⟩
    | some owner => exact ⟨rfl, rfl, rfl, rfl, rfl, modified (evidence.noteRepair owner call _) _ _⟩
  | other => cases owner <;> exact ⟨rfl, rfl, rfl, rfl, rfl, id⟩
  | _ => exact ⟨rfl, rfl, rfl, rfl, rfl, id⟩

theorem lookup_toolRepairs_fold (evidence : RecoveryEvidence) (envelope : RuntimeEventEnvelope)
    (key : CallKey) :
    (evidence.fold envelope).toolRepairs.lookup key = match evidence.repairWrite envelope with
      | none => evidence.toolRepairs.lookup key
      | some (written, repair) =>
        if key = written then repair else evidence.toolRepairs.lookup key := by
  rw [(fold_frame evidence envelope).2.1]
  rcases evidence.repairWrite envelope with _ | ⟨written, _ | repair⟩
  · rfl
  · dsimp only
    split
    · rename_i same
      rw [same, lookup_filter_self]
    · rename_i differs
      exact lookup_filter_ne _ differs
  · dsimp only
    split
    · rename_i same
      rw [same, lookup_insert_self]
    · rename_i differs
      exact lookup_insert_of_ne differs repair _

theorem repairsDistinct_fold (distinct : (evidence.toolRepairs.map Prod.fst).Nodup)
    (envelope : RuntimeEventEnvelope) :
    ((evidence.fold envelope).toolRepairs.map Prod.fst).Nodup := by
  rw [(fold_frame evidence envelope).2.1]
  rcases evidence.repairWrite envelope with _ | ⟨written, _ | repair⟩
  · exact distinct
  · exact distinct.sublist (filter_sublist.map _)
  · exact nodup_keys_insert distinct _ _

def Releases (evidence : RecoveryEvidence) (envelope : RuntimeEventEnvelope) (attempt : AttemptId)
    (call : ToolCallId) : Prop :=
  ∃ message, envelope.event = .toolMessageCommitted message call ∧
    evidence.commitOwner envelope.attempt message call = some attempt

theorem Attributed.releases_iff (held : evidence.Attributed active journal)
    (envelope : RuntimeEventEnvelope) :
    evidence.Releases envelope attempt call ↔
      commitsCall active journal envelope attempt call = true := by
  constructor
  · rintro ⟨message, event, owned⟩
    exact (held.commitOwner_iff event).mp owned
  intro committed
  have committing := committed
  unfold commitsCall at committing
  split at committing
  · rename_i message other event
    rw [Bool.and_eq_true, decide_eq_true_eq] at committing
    obtain ⟨rfl, -⟩ := committing
    exact ⟨message, event, (held.commitOwner_iff event).mpr committed⟩
  · cases committing

/-- Which calls are started without an outcome after an event. -/
theorem isUnknown_fold (evidence : RecoveryEvidence) (envelope : RuntimeEventEnvelope)
    (attempt : AttemptId) (call : ToolCallId) :
    (evidence.fold envelope).isUnknown attempt call = true ↔
      envelope.startsCall attempt call = true ∨
        (evidence.isUnknown attempt call = true ∧ ¬ evidence.Releases envelope attempt call ∧
          envelope.settlesCall attempt call = false) := by
  obtain ⟨sequence, owner, event⟩ := envelope
  unfold isUnknown
  rw [lookup_toolRepairs_fold]
  cases event with
  | toolExecutionStarted other tool =>
    cases owner with
    | none => simp [repairWrite, startsCall, Releases, settlesCall]
    | some owner =>
      by_cases same : attempt = owner ∧ call = other
      · obtain ⟨rfl, rfl⟩ := same
        simp [repairWrite, startsCall]
      · have differs : ¬ (owner = attempt ∧ other = call) := by
          rintro ⟨rfl, rfl⟩
          exact same ⟨rfl, rfl⟩
        simp [repairWrite, startsCall, Releases, settlesCall, same, differs]
  | toolExecutionCompleted other tool outcome | toolExecutionFailed other tool outcome =>
    cases owner with
    | none => simp [repairWrite, startsCall, Releases, settlesCall]
    | some owner =>
      by_cases same : attempt = owner ∧ call = other
      · obtain ⟨rfl, rfl⟩ := same
        simp [repairWrite, startsCall, settlesCall]
      · have unsettled : (owner = attempt → ¬ other = call) := by
          rintro rfl rfl
          exact same ⟨rfl, rfl⟩
        simpa [repairWrite, startsCall, Releases, settlesCall, same] using fun _ => unsettled
  | toolMessageCommitted message other =>
    simp only [repairWrite, startsCall, Releases,
      settlesCall, Bool.false_eq_true, false_or, and_true,
      RuntimeEvent.toolMessageCommitted.injEq]
    cases owned : evidence.commitOwner owner message other with
    | none =>
      have unreleased : ¬ ∃ name, (message = name ∧ other = call) ∧
          evidence.commitOwner owner name call = some attempt := by
        rintro ⟨_, ⟨rfl, rfl⟩, mine⟩
        rw [owned] at mine
        cases mine
      simp only [Option.map_none, unreleased, not_false_eq_true, and_true]
    | some settled =>
      by_cases same : attempt = settled ∧ call = other
      · obtain ⟨rfl, rfl⟩ := same
        simp [owned]
      · have unreleased : ¬ ∃ name, (message = name ∧ other = call) ∧
            evidence.commitOwner owner name call = some attempt := by
          rintro ⟨_, ⟨rfl, rfl⟩, mine⟩
          rw [owned, Option.some.injEq] at mine
          exact same ⟨mine.symm, rfl⟩
        simp only [Option.map_some, CallKey.mk.injEq, same, if_false, unreleased,
          not_false_eq_true, and_true]
  | _ => simp [repairWrite, startsCall, Releases, settlesCall]

section

variable (held : evidence.Attributed active journal)
include held

section

variable (envelope : RuntimeEventEnvelope)

theorem Attributed.repairs_fold (attempt : AttemptId) (call : ToolCallId) :
    (evidence.fold envelope).isUnknown attempt call = true ↔
      HasFate active (journal ++ [envelope]) attempt call .outstanding := by
  rw [isUnknown_fold, outstanding_snoc, held.repairs, held.releases_iff, Bool.not_eq_true]

theorem Attributed.owners_fold (message : MessageId) :
    (evidence.fold envelope).assistantAttempts.lookup message =
      if message ∈ active then assistantOwner (journal ++ [envelope]) message else none := by
  rw [(fold_frame evidence envelope).2.2.1, assistantOwner_snoc]
  obtain ⟨sequence, owner, event⟩ := envelope
  cases event with
  | assistantMessageCommitted other =>
    cases owner with
    | none => simpa [commitsAssistant] using held.owners message
    | some owner =>
      dsimp only
      rw [held.actives]
      by_cases same : message = other
      · subst same
        by_cases present : message ∈ active
        · simp [commitsAssistant, present, lookup_insert_self]
        · simp [present, held.owners]
      · have quiet : commitsAssistant
            ⟨sequence, some owner, .assistantMessageCommitted other⟩ message = none := by
          simp [commitsAssistant, Ne.symm same]
        rw [quiet, Option.none_or, ← held.owners]
        split
        · exact lookup_insert_of_ne same owner _
        · rfl
  | _ => exact held.owners message

theorem Attributed.ownersDistinct_fold :
    ((evidence.fold envelope).assistantAttempts.map Prod.fst).Nodup := by
  rw [(fold_frame evidence envelope).2.2.1]
  split
  · split
    · exact nodup_keys_insert held.ownersDistinct _ _
    · exact held.ownersDistinct
  · exact held.ownersDistinct

end

end

theorem requestMatches_step (orderly : Orderly (journal ++ [envelope]))
    (held : RequestMatches journal attempt request) :
    RequestMatches (journal ++ [envelope]) attempt (requestStep envelope attempt request) := by
  by_cases quiet : envelope.requestFact attempt = false
  · simp only [requestFact, Bool.or_eq_false_iff,
      Option.isSome_eq_false_iff, Option.isNone_iff_eq_none] at quiet
    have same : requestStep envelope attempt request = request := by
      obtain ⟨starts, settles⟩ := quiet
      unfold requestStep
      unfold startsRequest at starts
      unfold settlesRequest at settles
      split
      · rename_i event
        simp only [event, ite_eq_right_iff, reduceCtorEq, imp_false] at starts
        rw [if_neg starts]
      · rename_i event
        simp only [event, ite_eq_right_iff, reduceCtorEq, imp_false] at settles
        rw [if_neg settles]
      · rfl
    rw [same]
    exact held.quiet quiet.1 quiet.2
  · have fact : envelope.requestFact attempt = true := by simpa using quiet
    have owner := requestFact_owner fact
    obtain ⟨sequence, attempt', event⟩ := envelope
    cases owner
    cases event with
    | modelRequestStarted kind name =>
      cases kind with
      | auxiliary => cases fact
      | agent =>
        simp only [requestStep, if_true]
        refine (requestOpen_snoc journal _ name).mpr (.inl ?_)
        simp [startsRequest]
    | modelRequestSettled kind name outcome =>
      cases kind with
      | auxiliary => cases fact
      | agent =>
        have closed other : ¬ RequestOpen (journal ++
            [⟨sequence, some attempt, .modelRequestSettled .agent name outcome⟩])
            attempt other := by
          intro opened
          rcases (requestOpen_snoc journal _ other).mp opened with starts | ⟨was, -, other_named⟩
          · cases starts
          · have named := (orderly.alone journal _ [] attempt name other rfl was).2
              (by simp [settlesRequest])
            apply other_named
            simp [settlesRequest, named]
        simp only [requestStep, if_true]
        cases request <;> exact ⟨⟨_, by simp, fact⟩, closed⟩
    | _ => cases fact

theorem noLost_of_toolsMatch (held : ToolsMatch active journal attempt tools)
    (reversible : tools ≠ .unknownIrreversible) :
    ∀ call, ¬ HasFate active journal attempt call .lost := by
  intro call lost
  cases tools with
  | neverStarted =>
    obtain ⟨envelope, member, fact⟩ := lost.toolFact
    rw [held envelope member] at fact
    cases fact
  | allOutcomesKnown => exact held.2 (callUnsettled_iff.mpr (.inr ⟨call, lost⟩))
  | unknownOutstanding => exact held.2 call lost
  | unknownIrreversible => exact reversible rfl

/-- An event that is no tool fact of the attempt and releases nothing unknown of it. -/
theorem toolsMatch_quiet (held : ToolsMatch active journal attempt tools)
    (fact : envelope.toolFact attempt = false)
    (commits : ∀ call, HasFate active journal attempt call .outstanding →
      commitsCall active journal envelope attempt call = false) :
    ToolsMatch active (journal ++ [envelope]) attempt tools := by
  unfold toolFact at fact
  refine held.quiet fact ?_ ?_ commits
  · intro call
    unfold startsCall
    split
    · rename_i event
      simp only [event] at fact
      rw [fact, Bool.false_and]
    · rfl
  · intro call
    unfold settlesCall
    split
    on_goal 3 => rfl
    all_goals
      rename_i event
      simp only [event] at fact
      rw [fact, Bool.false_and]

/-- An event that commits nothing of the attempt loses no call of it. -/
theorem lost_snoc_of_uncommitted
    (uncommitted : ∀ call, commitsCall active journal envelope attempt call = false)
    (call : ToolCallId) : HasFate active (journal ++ [envelope]) attempt call .lost ↔
      HasFate active journal attempt call .lost := by
  rw [lost_snoc, uncommitted]
  simp

/-- A recorded outcome: what is unknown now is what is still outstanding. -/
theorem Attributed.toolsMatch_outcome (held : evidence.Attributed active journal)
    (matched : ToolsMatch active journal attempt tools) (fact : envelope.toolFact attempt = true)
    (uncommitted : ∀ call, commitsCall active journal envelope attempt call = false) :
    ToolsMatch active (journal ++ [envelope]) attempt
      (if tools = .unknownIrreversible then tools
        else if (evidence.fold envelope).outstandingUnknown attempt then .unknownOutstanding
        else .allOutcomesKnown) := by
  have lost := lost_snoc_of_uncommitted uncommitted
  have outstanding : (evidence.fold envelope).outstandingUnknown attempt = true ↔
      ∃ call, HasFate active (journal ++ [envelope]) attempt call .outstanding := by
    rw [outstandingUnknown_iff (repairsDistinct_fold held.repairsDistinct envelope)]
    exact exists_congr fun call => held.repairs_fold envelope attempt call
  split
  · rename_i irreversible
    subst irreversible
    obtain ⟨call, gone⟩ := matched
    exact ⟨call, (lost call).mpr gone⟩
  · rename_i reversible
    have none_lost := noLost_of_toolsMatch matched reversible
    split
    · rename_i unknown
      exact ⟨outstanding.mp unknown, fun call gone => none_lost call ((lost call).mp gone)⟩
    · rename_i known
      refine ⟨⟨envelope, by simp, fact⟩, ?_⟩
      rw [callUnsettled_iff]
      rintro (waiting | ⟨call, gone⟩)
      · exact known (outstanding.mpr waiting)
      · exact none_lost call ((lost call).mp gone)

theorem toolsMatch_start (matched : ToolsMatch active journal attempt tools)
    (starts : envelope.startsCall attempt call = true)
    (uncommitted : ∀ call, commitsCall active journal envelope attempt call = false) :
    ToolsMatch active (journal ++ [envelope]) attempt tools.start := by
  have lost := lost_snoc_of_uncommitted uncommitted
  by_cases irreversible : tools = .unknownIrreversible
  · subst irreversible
    obtain ⟨other, gone⟩ := matched
    exact ⟨other, (lost other).mpr gone⟩
  · have none_lost := noLost_of_toolsMatch matched irreversible
    have summary : tools.start = .unknownOutstanding := by
      cases tools <;> first | rfl | exact absurd rfl irreversible
    rw [summary]
    exact ⟨⟨call, (outstanding_snoc journal envelope).mpr (.inl starts)⟩,
      fun call gone => none_lost call ((lost call).mp gone)⟩

/-- The tool plane stays true across an event. -/
theorem Attributed.toolsMatch_step (held : evidence.Attributed active journal)
    (matched : ToolsMatch active journal attempt tools) :
    ToolsMatch active (journal ++ [envelope]) attempt
      (evidence.toolStep envelope attempt tools) := by
  obtain ⟨sequence, owner, event⟩ := envelope
  cases event with
  | toolExecutionStarted other tool =>
    simp only [toolStep]
    split
    · rename_i mine
      have starts : startsCall
          ⟨sequence, owner, .toolExecutionStarted other tool⟩ attempt other = true := by
        simp [startsCall, mine]
      exact toolsMatch_start matched starts fun _ => rfl
    · rename_i foreign
      exact toolsMatch_quiet matched (decide_eq_false foreign) fun _ _ => rfl
  | toolExecutionCompleted | toolExecutionFailed =>
    simp only [toolStep]
    split
    · rename_i mine
      exact held.toolsMatch_outcome matched (decide_eq_true mine) fun _ => rfl
    · rename_i foreign
      exact toolsMatch_quiet matched (decide_eq_false foreign) fun _ _ => rfl
  | toolMessageCommitted message other =>
    simp only [toolStep]
    split
    · rename_i released
      obtain ⟨owned, unknown⟩ := released
      have committed := (held.releases_iff ⟨sequence, owner, .toolMessageCommitted message other⟩).mp
        ⟨message, rfl, owned⟩
      exact ⟨other, (lost_snoc journal _).mpr
        (.inr ⟨(held.repairs attempt other).mp unknown, committed⟩)⟩
    · rename_i unreleased
      refine toolsMatch_quiet matched rfl ?_
      intro call waiting
      rw [← Bool.not_eq_true, ← held.releases_iff]
      rintro ⟨_, ⟨rfl⟩, owned⟩
      exact unreleased ⟨owned, (held.repairs attempt other).mpr waiting⟩
  | _ => exact toolsMatch_quiet matched rfl fun _ _ => rfl

/-- A repair entry after an event was there before, or the event is a fact of its call. -/
theorem repair_fold_cases
    (present : (evidence.fold envelope).toolRepairs.lookup ⟨attempt, call⟩ ≠ none) :
    evidence.toolRepairs.lookup ⟨attempt, call⟩ ≠ none ∨ envelope.toolFact attempt = true := by
  rw [lookup_toolRepairs_fold] at present
  rcases written : evidence.repairWrite envelope with _ | ⟨key, repair⟩
  · rw [written] at present
    exact .inl present
  rw [written] at present
  dsimp only at present
  split at present
  · rename_i same
    subst same
    right
    unfold repairWrite at written
    unfold toolFact
    split at written
    all_goals
      rename_i event
      simp only [event]
      simp only [Option.map_eq_some_iff, Prod.mk.injEq, CallKey.mk.injEq, reduceCtorEq] at written
    on_goal 4 =>
      obtain ⟨_, -, -, rfl⟩ := written
      exact absurd rfl present
    all_goals
      obtain ⟨_, owner, ⟨rfl, -⟩, -⟩ := written
      exact decide_eq_true owner
  · exact .inl present

theorem Attributed.step (held : evidence.Attributed active journal)
    (envelope : RuntimeEventEnvelope) :
    (evidence.fold envelope).Attributed active (journal ++ [envelope]) where
  actives := (fold_frame evidence envelope).1.trans held.actives
  attemptsDistinct := (fold_frame evidence envelope).2.2.2.2.2 held.attemptsDistinct
  repairsDistinct := repairsDistinct_fold held.repairsDistinct envelope
  ownersDistinct := held.ownersDistinct_fold envelope
  owners := held.owners_fold envelope
  repairs := held.repairs_fold envelope
  named attempt call present := by
    rcases repair_fold_cases present with was | fact
    · obtain ⟨earlier, member, fact⟩ := held.named attempt call was
      exact ⟨earlier, by simp [member], fact⟩
    · exact ⟨envelope, by simp, fact⟩

/-- An attempt that is open after an event has just begun, or was open before. -/
theorem view_fold_eq_some (seen : (evidence.fold envelope).view attempt = some (request, tools)) :
    (envelope.starts attempt = true ∧ evidence.view attempt = none ∧ request = .neverStarted ∧
      tools = .neverStarted) ∨
    ∃ was, evidence.view attempt = some was ∧ request = requestStep envelope attempt was.1 ∧
      tools = evidence.toolStep envelope attempt was.2 := by
  rw [view_fold] at seen
  split at seen
  · rename_i begins
    cases seen
    exact .inl ⟨begins.1, begins.2, rfl, rfl⟩
  · split at seen
    · cases seen
    · obtain ⟨was, before, same⟩ := Option.map_eq_some_iff.mp seen
      cases same
      exact .inr ⟨was, before, rfl, rfl⟩

theorem Tracks.idle (held : evidence.Tracks active journal) (absent : evidence.view attempt = none) :
    ¬ Running journal attempt := by
  rw [← held.running, absent]
  simp

/-- One event keeps the open attempts and their tools true to the journal. -/
theorem Tracks.step (held : evidence.Tracks active journal) (fresh : Fresh (journal ++ [envelope])) :
    (evidence.fold envelope).Tracks active (journal ++ [envelope]) := by
  refine ⟨held.toAttributed.step envelope, ?_, ?_⟩
  · intro attempt
    rw [view_fold, running_snoc]
    have running := held.running attempt
    split
    · rename_i begins
      have event : envelope.event = .attemptStarted attempt := of_decide_eq_true begins.1
      have endless := (fresh.last begins.1).1
      have ongoing : envelope.ends attempt = false := by
        simp [ends, event]
      simpa [begins.1, ongoing] using endless
    · rename_i continues
      split
      · rename_i ended
        simp [ended]
      rename_i ongoing
      rw [Option.isSome_map, running, Running]
      constructor
      · rintro ⟨started, endless⟩
        exact ⟨.inl started, endless, by simpa using ongoing⟩
      · rintro ⟨started | starts, endless, -⟩
        · exact ⟨started, endless⟩
        · have present : evidence.view attempt ≠ none := fun absent => continues ⟨starts, absent⟩
          exact running.mp (Option.isSome_iff_ne_none.mpr present)
  · intro attempt request tools seen
    rcases view_fold_eq_some seen with ⟨starts, absent, -, rfl⟩ | ⟨was, before, -, rfl⟩
    · have event : envelope.event = .attemptStarted attempt := of_decide_eq_true starts
      refine forall_mem_append.mpr
        ⟨(fresh.last starts).2 (held.idle absent), forall_mem_singleton.mpr ?_⟩
      simp [toolFact, event]
    · exact held.toolsMatch_step (held.tools attempt _ _ before)

section

variable (conversation : ConversationId)

theorem foldAll_attributed (active : List MessageId) (journal : Journal) :
    (foldAll { conversation := conversation, activeIds := active } journal).Attributed active
      journal := by
  induction journal using List.reverseRecOn with
  | nil => exact attributed_empty conversation active
  | append_singleton before envelope ih =>
    rw [foldAll, foldl_append]
    exact ih.step envelope

theorem foldAll_tracks (active : List MessageId) (fresh : Fresh journal) :
    (foldAll { conversation := conversation, activeIds := active } journal).Tracks active
      journal := by
  induction journal using List.reverseRecOn with
  | nil => exact tracks_empty conversation active
  | append_singleton before envelope ih =>
    rw [foldAll, foldl_append]
    exact (ih fresh.before).step fresh

/-- One event keeps the working set true to the journal. -/
theorem Summarises.step (held : evidence.Summarises active journal)
    (orderly : Orderly (journal ++ [envelope])) :
    (evidence.fold envelope).Summarises active (journal ++ [envelope]) := by
  refine ⟨held.toTracks.step orderly.fresh, ?_⟩
  intro attempt request tools seen
  rcases view_fold_eq_some seen with ⟨starts, absent, rfl, -⟩ | ⟨was, before, rfl, -⟩
  · have event : envelope.event = .attemptStarted attempt := of_decide_eq_true starts
    refine forall_mem_append.mpr ⟨fun earlier member => Bool.eq_false_iff.mpr fun fact =>
      orderly.unowned starts (held.idle absent) earlier member
        (requestFact_owner fact), forall_mem_singleton.mpr ?_⟩
    simp [requestFact, startsRequest, settlesRequest, event]
  · exact requestMatches_step orderly (held.requests attempt _ _ before)

theorem foldAll_summarises (active : List MessageId) (orderly : Orderly journal) :
    (foldAll { conversation := conversation, activeIds := active } journal).Summarises active
      journal := by
  induction journal using List.reverseRecOn with
  | nil => exact ⟨tracks_empty conversation active, by simp [view, foldAll]⟩
  | append_singleton before envelope ih =>
    rw [foldAll, foldl_append]
    exact (ih orderly.before).step orderly

end

/-- The one running attempt is the one that is classified. -/
theorem Summarises.classified (held : evidence.Summarises active journal)
    (only : ∀ other, Running journal other ↔ other = attempt) :
    ∃ known rest, evidence.unsettledAttempts = (attempt, known) :: rest ∧
      RequestMatches journal attempt known.request ∧
      ToolsMatch active journal attempt known.tools := by
  cases listed : evidence.unsettledAttempts with
  | nil =>
    have present := (held.running attempt).mpr ((only attempt).mpr rfl)
    simp [view, listed] at present
  | cons entry rest =>
    obtain ⟨name, known⟩ := entry
    have seen : evidence.view name = some (known.request, known.tools) := by
      simp [view, listed]
    obtain rfl : name = attempt := (only name).mp ((held.running name).mp (by simp [seen]))
    exact ⟨known, rest, rfl, held.requests _ _ _ seen, held.tools _ _ _ seen⟩

theorem Attributed.not_any_repair (held : evidence.Attributed active journal)
    (unstarted : ∀ envelope ∈ journal, envelope.toolFact attempt = false) :
    evidence.toolRepairs.any (fun entry => entry.1.attempt = attempt) = false := by
  rw [any_eq_false]
  rintro ⟨⟨owner, call⟩, repair⟩ member owned
  obtain rfl : owner = attempt := of_decide_eq_true owned
  have found := lookup_of_mem held.repairsDistinct member
  obtain ⟨envelope, among, fact⟩ := held.named owner call (by simp [found])
  rw [unstarted envelope among] at fact
  cases fact

/-- What the summary of the tools says about unsettled calls. -/
theorem isUnknown_iff_unsettled (matched : ToolsMatch active journal attempt tools) :
    tools.isUnknown = true ↔ CallUnsettled active journal attempt := by
  rw [callUnsettled_iff]
  cases tools with
  | neverStarted =>
    simp only [ToolExternalSummary.isUnknown, Bool.false_eq_true, false_iff]
    rintro (⟨call, held⟩ | ⟨call, held⟩) <;>
      obtain ⟨envelope, member, fact⟩ := held.toolFact <;>
      simp [matched envelope member] at fact
  | allOutcomesKnown =>
    simpa [ToolExternalSummary.isUnknown, callUnsettled_iff] using matched.2
  | unknownOutstanding => exact ⟨fun _ => .inl matched.1, fun _ => rfl⟩
  | unknownIrreversible => exact ⟨fun _ => .inr matched, fun _ => rfl⟩

end RecoveryEvidence

namespace Journal

def Untouched (journal : Journal) (attempt : AttemptId) : Prop :=
  ∀ envelope ∈ journal, envelope.requestFact attempt = false ∧ envelope.toolFact attempt = false

/-- The last started request, or a started call, has no outcome. -/
def Unsettled (active : List MessageId) (journal : Journal) (attempt : AttemptId) : Prop :=
  (∃ request, RequestOpen journal attempt request) ∨ CallUnsettled active journal attempt

end Journal

/-- A call that recovery answered before it could end the attempt. -/
def recoveredCall : Journal :=
  [{ attempt := some "c-attempt-0", event := .attemptStarted "c-attempt-0" },
    { attempt := some "c-attempt-0", event := .assistantMessageCommitted "m" },
    { attempt := some "c-attempt-0", event := .toolExecutionStarted "call" "tool" },
    { event := .toolMessageCommitted "m-recovered-tool-call" "call" }]

/-- The same call with an outcome recorded after recovery answered it. -/
def recoveredThenCompleted : Journal :=
  recoveredCall ++
    [{ attempt := some "c-attempt-0"
       event := .toolExecutionCompleted "call" "tool" { status := .success } }]

end RustX.Recovery
