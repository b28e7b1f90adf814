import RustX.Recovery.Fold
import RustX.Recovery.Store

/-!
Recovery may die after any of its commits and run again on what it left behind. What
the restarts together write is what the first one would have written.
-/
namespace RustX.Recovery

open RecoveryEvidence ReconstructedEvidence List

namespace RuntimeEventEnvelope

variable {envelope : RuntimeEventEnvelope}

theorem not_closes_of_opens (opened : envelope.opens key = true) : envelope.closes key = false := by
  obtain ⟨sequence, owner, event⟩ := envelope
  cases event with
  | modelRequestStarted requester | modelRequestSettled requester =>
    cases requester <;> cases owner <;> simp_all [opens, closes, lifecycleKeys]
  | _ => cases owner <;> simp_all [opens, closes, lifecycleKeys]

end RuntimeEventEnvelope

namespace RecoveryEvidence

open RuntimeEventEnvelope

variable {evidence : RecoveryEvidence}

/-- The executions and children that are still owned; attempts are kept elsewhere. -/
def Owns (evidence : RecoveryEvidence) : LifecycleKey → Prop
  | .attempt _ => False
  | .background execution => execution ∈ evidence.background.map Prod.fst
  | .subagent subagent => subagent ∈ evidence.subagents.map Prod.fst

theorem owns_fold (owned : ∀ attempt, key ≠ .attempt attempt) :
    (evidence.fold envelope).Owns key ↔
      envelope.opens key = true ∨ (evidence.Owns key ∧ envelope.closes key = false) := by
  obtain ⟨-, -, -, background, subagents, -⟩ := fold_frame evidence envelope
  obtain ⟨sequence, owner, event⟩ := envelope
  cases key with
  | attempt attempt => exact absurd rfl (owned attempt)
  | _ =>
    simp only [Owns, background, subagents]
    cases event with
    | backgroundExecutionCommitted | subagentOwnershipCommitted =>
      simp [Assoc.mem_keys_insert, opens, closes, lifecycleKeys]
    | backgroundTerminalPublished | subagentTerminal =>
      simp [opens, closes, lifecycleKeys]
    | modelRequestStarted requester | modelRequestSettled requester =>
      cases requester <;> cases owner <;> simp [opens, closes, lifecycleKeys]
    | _ => cases owner <;> simp [opens, closes, lifecycleKeys]

/-- Each owned execution and child is filed under its own name. -/
structure Filed (evidence : RecoveryEvidence) : Prop where
  background : ∀ entry ∈ evidence.background, entry.2.executionId = entry.1
  subagents : ∀ entry ∈ evidence.subagents, entry.2.subagentId = entry.1

theorem Filed.step (filed : evidence.Filed) (envelope : RuntimeEventEnvelope) :
    (evidence.fold envelope).Filed := by
  obtain ⟨-, -, -, background, subagents, -⟩ := fold_frame evidence envelope
  constructor
  · rw [background]
    split
    · intro entry member
      rcases Assoc.mem_insert.mp member with rfl | ⟨earlier, -⟩
      · rfl
      · exact filed.background entry earlier
    · intro entry member
      exact filed.background entry (mem_of_mem_filter member)
    · exact filed.background
  · rw [subagents]
    split
    · intro entry member
      rcases Assoc.mem_insert.mp member with rfl | ⟨earlier, -⟩
      · rfl
      · exact filed.subagents entry earlier
    · intro entry member
      exact filed.subagents entry (mem_of_mem_filter member)
    · exact filed.subagents

theorem foldAll_snoc (evidence : RecoveryEvidence) (journal : Journal)
    (envelope : RuntimeEventEnvelope) :
    evidence.foldAll (journal ++ [envelope]) = (evidence.foldAll journal).fold envelope := by
  rw [foldAll, foldl_append]
  rfl

variable (conversation : ConversationId) (active : List MessageId)

theorem foldAll_filed (journal : Journal) :
    (foldAll { conversation := conversation, activeIds := active } journal).Filed := by
  induction journal using List.reverseRecOn with
  | nil => constructor <;> simp [foldAll]
  | append_singleton before envelope ih =>
    rw [foldAll_snoc]
    exact ih.step envelope

theorem owns_iff {journal : Journal} (admitted : journal.Admitted)
    (owned : ∀ attempt, key ≠ .attempt attempt) :
    (foldAll { conversation := conversation, activeIds := active } journal).Owns key ↔
      journal.Unclosed key := by
  refine admitted.unclosed_iff
    (fun journal => (foldAll { conversation := conversation, activeIds := active } journal).Owns key)
    (by cases key <;> simp [foldAll, Owns]) ?_
    fun envelope => RuntimeEventEnvelope.not_closes_of_opens
  intro journal envelope
  rw [foldAll_snoc, owns_fold owned]

end RecoveryEvidence

namespace Journal

/-- What an event leaves known of a call of an attempt. A result that the attempt itself
commits uses the evidence up. -/
def noteFact (attempt : AttemptId) (call : ToolCallId) (known : Option ToolRepairEvidence)
    (envelope : RuntimeEventEnvelope) : Option ToolRepairEvidence :=
  if envelope.attempt = some attempt then
    match envelope.event with
    | .toolExecutionStarted other tool =>
      if other = call then some ⟨tool, .startedOutcomeUnknown⟩ else known
    | .toolExecutionCompleted other tool result =>
      if other = call then some ⟨tool, .outcomeKnown result⟩ else known
    | .toolExecutionFailed other tool error =>
      if other = call then some ⟨tool, .outcomeKnown (failedResult error)⟩ else known
    | .toolMessageCommitted _ other => if other = call then none else known
    | _ => known
  else known

def lastFact (journal : Journal) (attempt : AttemptId) (call : ToolCallId) :
    Option ToolRepairEvidence :=
  journal.foldl (noteFact attempt call) none

theorem lastFact_snoc (journal : Journal) (envelope : RuntimeEventEnvelope) (attempt : AttemptId)
    (call : ToolCallId) : lastFact (journal ++ [envelope]) attempt call =
      noteFact attempt call (lastFact journal attempt call) envelope := by
  simp [lastFact]

def RecoveredFor (journal : Journal) (attempt : AttemptId) (call : ToolCallId) : Prop :=
  ∃ envelope ∈ journal, ∃ assistant, envelope.attempt = none ∧
    envelope.event = .toolMessageCommitted (recoveredToolMessage assistant call) call ∧
    ∃ commit ∈ journal, commit.commitsAssistant assistant = some attempt

theorem RecoveredFor.mono {after} (recovered : RecoveredFor journal attempt call) :
    RecoveredFor (journal ++ after) attempt call := by
  obtain ⟨envelope, member, assistant, unowned, event, commit, among, owns⟩ := recovered
  exact ⟨envelope, by simp [member], assistant, unowned, event, commit, by simp [among], owns⟩

theorem exists_commit_of_assistantOwner (owner : assistantOwner journal message = some attempt) :
    ∃ commit ∈ journal, commit.commitsAssistant message = some attempt := by
  obtain ⟨commit, member, owns⟩ := exists_of_findSome?_eq_some owner
  exact ⟨commit, by simpa using member, owns⟩

/-- Where recovery committed no result for the attempt under this call, the repair map
has the last fact of the call. -/
theorem lookup_toolRepairs_eq (conversation : ConversationId) (active : List MessageId)
    (unrecovered : ¬ RecoveredFor journal attempt call) :
    (foldAll { conversation := conversation, activeIds := active } journal).toolRepairs.lookup
      ⟨attempt, call⟩ = lastFact journal attempt call := by
  induction journal using List.reverseRecOn with
  | nil => rfl
  | append_singleton before envelope ih =>
    have earlier := ih fun recovered => unrecovered recovered.mono
    have held := foldAll_attributed conversation active before
    rw [foldAll_snoc, lookup_toolRepairs_fold, earlier, lastFact_snoc]
    generalize foldAll _ before = evidence at held
    obtain ⟨sequence, owner, event⟩ := envelope
    have keys first name :
        (⟨attempt, call⟩ : CallKey) = ⟨first, name⟩ ↔ some first = some attempt ∧ name = call := by
      simp [eq_comm]
    cases event with
    | toolExecutionStarted name | toolExecutionCompleted name | toolExecutionFailed name =>
      cases owner with
      | none => simp [repairWrite, noteFact]
      | some owner =>
        simp only [repairWrite, noteFact, Option.map_some, keys]
        by_cases own : some owner = some attempt <;> simp [own]
    | toolMessageCommitted message name =>
      cases owner with
      | some owner =>
        simp only [repairWrite, noteFact, commitOwner, Option.map_some, keys]
        by_cases own : some owner = some attempt <;> simp [own]
      | none =>
        have foreign : evidence.commitOwner none message name = some attempt → name ≠ call := by
          rintro attributed rfl
          have event : (⟨sequence, none, .toolMessageCommitted message name⟩ :
            RuntimeEventEnvelope).event = .toolMessageCommitted message name := rfl
          have commits := (held.commitOwner_iff event).mp attributed
          simp only [commitsCall, decide_true, Bool.true_and, any_eq_true,
            Bool.and_eq_true, decide_eq_true_eq] at commits
          obtain ⟨assistant, -, rfl, owned⟩ := commits
          obtain ⟨commit, among, owns⟩ := exists_commit_of_assistantOwner owned
          exact unrecovered ⟨⟨sequence, none, .toolMessageCommitted _ name⟩, by simp, assistant,
            rfl, rfl, commit, by simp [among], owns⟩
        simp only [repairWrite, noteFact, reduceCtorEq, if_false]
        cases found : evidence.commitOwner none message name with
        | none => rfl
        | some other =>
          simp only [Option.map_some, keys]
          split
          · rename_i same
            obtain ⟨rfl⟩ := same.1
            exact absurd same.2 (foreign found)
          · rfl
    | _ => cases owner <;> simp [repairWrite, noteFact]

end Journal

/-- A run that made some of its commits, in order, and died. -/
def Interrupted (store next : ConversationStore) : Prop :=
  (classify (reconstruct store)).unsettledAttempts.length ≤ 1 ∧
    ∃ made rest, (classify (reconstruct store)).commits = made ++ rest ∧
      store.commitAll made = .ok next

/-- Any number of runs that died. -/
inductive Crashes (start : ConversationStore) : ConversationStore → Prop
  | none : Crashes start start
  | again {store next : ConversationStore} :
      Crashes start store → Interrupted store next → Crashes start next

namespace ConversationStore

def callEvidence (store : ConversationStore) (call : CanonicalToolCall) :
    Option ToolRepairEvidence :=
  (store.journal.assistantOwner call.occurrence.assistant).bind fun attempt =>
    store.journal.lastFact attempt call.call

/-- The result an unsettled call deserves: the recorded one, an unknown outcome if it
only started, and a cancellation if it never did. -/
def verdict (store : ConversationStore) (call : CanonicalToolCall) : ToolExecutionResult :=
  (repairResult call (store.callEvidence call)).2

/-- No other unsettled call of the attempt has the same call id, and recovery committed
none of the attempt's results under it before. -/
def Sole (store : ConversationStore) (call : CanonicalToolCall) : Prop :=
  ∀ attempt, store.journal.assistantOwner call.occurrence.assistant = some attempt →
    (∀ other ∈ store.toolCalls, store.resultOf other.occurrence = none → other.call = call.call →
      (∃ commit ∈ store.journal,
        commit.commitsAssistant other.occurrence.assistant = some attempt) → other = call) ∧
    ¬ store.journal.RecoveredFor attempt call.call

variable {store : ConversationStore}

theorem mem_unsettled (member : call ∈ store.unsettledCanonicalToolCalls limit) :
    call ∈ store.toolCalls ∧ store.resultOf call.occurrence = none := by
  have kept := (perm_insertionSort _ _).mem_iff.mp (mem_of_mem_take member)
  simpa using mem_filter.mp kept

theorem unsettled_eq_nil_iff (positive : 0 < limit) : store.unsettledCanonicalToolCalls limit = [] ↔
      ∀ call ∈ store.toolCalls, store.resultOf call.occurrence ≠ none := by
  rw [unsettledCanonicalToolCalls, take_eq_nil_iff]
  constructor
  · rintro (zero | empty) call member unsettled
    · omega
    · have kept : call ∈ (store.toolCalls.filter fun call =>
          store.resultOf call.occurrence = none).insertionSort occurrenceLe :=
        (perm_insertionSort _ _).mem_iff.mpr (by simp [member, unsettled])
      rw [empty] at kept
      cases kept
  · intro settled
    right
    rw [eq_nil_iff_forall_not_mem]
    intro call member
    have kept := mem_filter.mp ((perm_insertionSort _ _).mem_iff.mp member)
    exact settled call kept.1 (by simpa using kept.2)

end ConversationStore

theorem MessageBlock.toolCalls_assistant {message : MessageBlock}
    (member : call ∈ message.toolCalls) : call.occurrence.assistant = message.id := by
  cases message with
  | assistant id content =>
    obtain ⟨entry, -, same⟩ := mem_filterMap.mp member
    split at same
    · cases same
      rfl
    · cases same
  | user id => cases member
  | tool message => cases member

variable {store : ConversationStore}

/-- A result that a plan wants to commit answers a call that has none, with what the
evidence gives it. -/
theorem mem_commits_blocks
    (member : block ∈ (classify (reconstruct store)).commits.flatMap Commit.blocks) :
    ∃ call ∈ store.toolCalls, store.resultOf call.occurrence = none ∧
      call.occurrence.assistant ∈ store.activeMessages.map MessageBlock.id ∧
      block.id = recoveredToolMessage call.occurrence.assistant call.call ∧
      block.occurrence = call.occurrence ∧ block.call = call.call ∧
      block.result = (repairResult call ((reconstruct store).toolRepairFor call.call
        ((reconstruct store).assistantAttempts.lookup call.occurrence.assistant))).2 := by
  obtain ⟨commit, among, inside⟩ := mem_flatMap.mp member
  cases commit with
  | toolTurn repair =>
    have planned : repair ∈ (reconstruct store).planToolRepairs := by
      simpa [RecoveryPlan.commits, classify] using among
    simp only [planToolRepairs, mem_filter, mem_map] at planned
    obtain ⟨⟨message, active, rfl⟩, -⟩ := planned
    simp only [Commit.blocks, ToolTurnRepair.blocks, missingResults, mem_map, mem_filter] at inside
    obtain ⟨_, ⟨call, ⟨called, unsettled⟩, rfl⟩, rfl⟩ := inside
    have named := MessageBlock.toolCalls_assistant called
    obtain ⟨row, listed, same⟩ : ∃ row ∈ store.unsettledCanonicalToolCalls 8192,
        row.occurrence = call.occurrence := by
      simpa [reconstruct] using unsettled
    have held : message ∈ store.ledger := by
      obtain ⟨id, -, found⟩ := mem_filterMap.mp active
      exact mem_of_find?_eq_some found
    refine ⟨call, mem_flatMap.mpr ⟨message, held, called⟩,
      same ▸ (ConversationStore.mem_unsettled listed).2,
      named ▸ mem_map_of_mem active, ?_, ?_, rfl, rfl⟩
    · rw [named]
      rfl
    · rw [← named]
      rfl
  | _ => simp [Commit.blocks] at inside

/-- The facts that recovery writes, beside the results it commits. -/
def Recovered (results : List ToolMessageBlock) : Option AttemptId × RuntimeEvent → Prop
  | (none, .toolMessageCommitted message call) =>
    ∃ block ∈ results, message = block.id ∧ call = block.call
  | (some owner, .attemptTerminal attempt (.restartInterrupted _)) => owner = attempt
  | (none, .backgroundTerminalPublished _) | (none, .subagentTerminal _) => True
  | _ => False

theorem Recovered.mono (recovered : Recovered results fact) (within : results ⊆ more) :
    Recovered more fact := by
  unfold Recovered at *
  split at recovered
  · obtain ⟨block, member, same⟩ := recovered
    exact ⟨block, within member, same⟩
  · exact recovered
  · trivial
  · trivial
  · exact recovered

theorem recovered_events {commits : List Commit} (member : envelope ∈ commits.flatMap Commit.events) :
    Recovered (commits.flatMap Commit.blocks) envelope.fact := by
  obtain ⟨commit, among, inside⟩ := mem_flatMap.mp member
  cases commit with
  | publicationAudit stream => cases inside
  | toolTurn repair =>
    obtain ⟨missing, wanted, rfl⟩ := mem_map.mp inside
    refine ⟨_, mem_flatMap.mpr ⟨_, among, mem_map_of_mem wanted⟩, rfl, rfl⟩
  | attemptTerminal attempt diagnostic =>
    obtain rfl := mem_singleton.mp inside
    rfl
  | backgroundTerminal execution =>
    obtain rfl := mem_singleton.mp inside
    trivial
  | subagentTerminal subagent ownership =>
    obtain rfl := mem_singleton.mp inside
    trivial

namespace RuntimeEventEnvelope

variable {envelope : RuntimeEventEnvelope}

/-- Recovery commits no Assistant message, starts nothing and records no outcome. -/
theorem recovered_quiet (recovered : Recovered results envelope.fact) :
    (∀ message, envelope.commitsAssistant message = none) ∧
      (∀ attempt, envelope.starts attempt = false) ∧
      (∀ attempt call known, Journal.noteFact attempt call known envelope = known) ∧
      (∀ key, envelope.opens key = false) := by
  obtain ⟨sequence, owner, event⟩ := envelope
  cases owner <;> cases event <;>
    simp_all [Recovered, fact, commitsAssistant, starts, Journal.noteFact, opens, lifecycleKeys]

end RuntimeEventEnvelope

namespace Journal

theorem assistantOwner_append
    (quiet : ∀ envelope ∈ written, envelope.commitsAssistant message = none) :
    assistantOwner (journal ++ written) message = assistantOwner journal message := by
  induction written using List.reverseRecOn with
  | nil => rw [append_nil]
  | append_singleton before last ih =>
    rw [← append_assoc, assistantOwner_snoc, quiet last (by simp), Option.none_or]
    exact ih fun envelope member => quiet envelope (by simp [member])

theorem lastFact_append
    (quiet : ∀ envelope ∈ written, ∀ known, noteFact attempt call known envelope = known) :
    lastFact (journal ++ written) attempt call = lastFact journal attempt call := by
  induction written using List.reverseRecOn with
  | nil => rw [append_nil]
  | append_singleton before last ih =>
    rw [← append_assoc, lastFact_snoc, quiet last (by simp)]
    exact ih fun envelope member => quiet envelope (by simp [member])

end Journal

def Repairs (start : ConversationStore) (block : ToolMessageBlock) : Prop :=
  ∃ call ∈ start.toolCalls, start.resultOf call.occurrence = none ∧
    block.id = recoveredToolMessage call.occurrence.assistant call.call ∧
    block.occurrence = call.occurrence ∧ block.call = call.call ∧
    (start.Sole call → block.result = start.verdict call)

/-- What the runs so far have made of the tables they started from. -/
structure Continues (start : ConversationStore) (results : List ToolMessageBlock)
    (written : Journal) (store : ConversationStore) : Prop where
  valid : store.Valid
  conversation : store.conversation = start.conversation
  ledger : store.ledger = start.ledger ++ results.map .tool
  surface : store.activeMessageIds = start.activeMessageIds ++ results.map (·.id)
  journal : store.journal = start.journal ++ written
  facts : ∀ envelope ∈ written, Recovered results envelope.fact
  repairs : ∀ block ∈ results, Repairs start block
  publications : store.publications.map PublicationStreamRecord.audited =
    start.publications.map PublicationStreamRecord.audited

namespace Continues

variable {call : CanonicalToolCall}

section

variable (held : Continues start results written store)
include held

theorem toolCalls : store.toolCalls = start.toolCalls :=
  ConversationStore.toolCalls_append held.ledger

theorem unsettled_start (unsettled : store.resultOf occurrence = none) :
    start.resultOf occurrence = none := by
  rw [ConversationStore.resultOf_eq_none_iff] at unsettled ⊢
  rw [ConversationStore.toolResults_append held.ledger] at unsettled
  exact fun message member => unsettled message (by simp [member])

/-- Recovery has committed no result of a call that is still without one, so what the
repair map has of it is what the first run would have read. -/
theorem unrecovered (unsettled : store.resultOf call.occurrence = none) (sole : start.Sole call)
    (owner : start.journal.assistantOwner call.occurrence.assistant = some attempt) :
    ¬ store.journal.RecoveredFor attempt call.call := by
  rintro ⟨envelope, member, assistant, unowned, event, commit, among, owns⟩
  rw [held.journal, mem_append] at member among
  have early : commit ∈ start.journal := by
    refine among.resolve_right fun late => ?_
    rw [(RuntimeEventEnvelope.recovered_quiet (held.facts commit late)).1] at owns
    cases owns
  rcases member with before | after
  · exact (sole attempt owner).2 ⟨envelope, before, assistant, unowned, event, commit, early, owns⟩
  have recovered := held.facts envelope after
  rw [RuntimeEventEnvelope.fact, unowned, event] at recovered
  obtain ⟨block, listed, named, answered⟩ := recovered
  obtain ⟨other, called, was, id, occurrence, same, -⟩ := held.repairs block listed
  rw [same] at answered
  rw [id, ← answered] at named
  obtain rfl := recoveredToolMessage_injective named
  obtain rfl := (sole attempt owner).1 other called was answered.symm ⟨commit, early, owns⟩
  rw [ConversationStore.resultOf_eq_none_iff,
    ConversationStore.toolResults_append held.ledger] at unsettled
  exact unsettled block (by simp [listed]) occurrence

theorem toolRepairFor_eq (unsettled : store.resultOf call.occurrence = none)
    (sole : start.Sole call)
    (active : call.occurrence.assistant ∈ store.activeMessages.map MessageBlock.id) :
    (reconstruct store).toolRepairFor call.call
        ((reconstruct store).assistantAttempts.lookup call.occurrence.assistant) =
      start.callEvidence call := by
  have attributed := foldAll_attributed store.conversation
    (store.activeMessages.map MessageBlock.id) store.journal
  have owner : (reconstruct store).assistantAttempts.lookup call.occurrence.assistant =
      start.journal.assistantOwner call.occurrence.assistant := by
    rw [← Journal.assistantOwner_append fun envelope member =>
      (RuntimeEventEnvelope.recovered_quiet (held.facts envelope member)).1 _, ← held.journal]
    exact (attributed.owners _).trans (if_pos active)
  rw [owner, ConversationStore.callEvidence, toolRepairFor]
  cases found : start.journal.assistantOwner call.occurrence.assistant with
  | none => rfl
  | some attempt =>
    have unrecovered := held.unrecovered unsettled sole found
    rw [Option.bind_some, Option.bind_some, ← Journal.lastFact_append fun envelope member known =>
        (RuntimeEventEnvelope.recovered_quiet (held.facts envelope member)).2.2.1 _ _ known,
      ← held.journal]
    exact Journal.lookup_toolRepairs_eq _ _ unrecovered

/-- Every prefix of a run keeps what the runs before it kept. -/
theorem interrupted {next} (died : Interrupted store next) :
    ∃ more wrote, Continues start (results ++ more) (written ++ wrote) next := by
  obtain ⟨-, made, rest, commits, done⟩ := died
  have adds := ConversationStore.commitAll_adds done
  obtain ⟨wrote, journal, asked⟩ := adds.journal
  refine ⟨made.flatMap Commit.blocks, wrote, adds.valid held.valid,
    adds.conversation.trans held.conversation, ?_, ?_, ?_, ?_, ?_,
    (adds.audited held.valid).trans held.publications⟩
  · rw [adds.ledger, held.ledger, map_append, append_assoc]
  · rw [adds.surface, held.surface, map_append, append_assoc]
  · rw [journal, held.journal, append_assoc]
  · intro envelope member
    rcases mem_append.mp member with early | late
    · exact (held.facts envelope early).mono (subset_append_left _ _)
    · obtain ⟨event, wanted, same⟩ := mem_map.mp (asked ▸ mem_map_of_mem late)
      rw [← same]
      exact (recovered_events wanted).mono (subset_append_right _ _)
  · intro block member
    rcases mem_append.mp member with early | late
    · exact held.repairs block early
    have planned : block ∈ (classify (reconstruct store)).commits.flatMap Commit.blocks := by
      rw [commits, flatMap_append]
      exact mem_append_left _ late
    obtain ⟨call, called, unsettled, active, id, occurrence, same, result⟩ :=
      mem_commits_blocks planned
    refine ⟨call, held.toolCalls ▸ called, held.unsettled_start unsettled, id, occurrence, same,
      fun sole => ?_⟩
    rw [result, held.toolRepairFor_eq unsettled sole active, ConversationStore.verdict]

end

end Continues

theorem Crashes.continues {start : ConversationStore} (crashes : Crashes start store)
    (valid : start.Valid) : ∃ results written, Continues start results written store := by
  induction crashes with
  | none => exact ⟨[], [], valid, rfl, by simp, by simp, by simp, by simp, by simp, rfl⟩
  | again _ died ih =>
    obtain ⟨results, written, held⟩ := ih
    obtain ⟨more, wrote, continued⟩ := held.interrupted died
    exact ⟨_, _, continued⟩

/-- The open attempt is the one whose interruption is reported. -/
theorem interruption_of_open {evidence : RecoveryEvidence}
    (listed : evidence.unsettledAttempts = (attempt, known) :: rest)
    (summary : Option ToolExternalSummary) :
    ∃ diagnostic, interruption (classifyAttempt evidence) summary = some (attempt, diagnostic) := by
  unfold classifyAttempt
  rw [listed]
  dsimp only
  cases known.request with
  | startedOutcomeUnknown request => exact ⟨_, rfl⟩
  | startedOutcomeKnown request outcome =>
    dsimp only
    split <;> exact ⟨_, rfl⟩
  | neverStarted =>
    dsimp only
    split
    · exact ⟨_, rfl⟩
    · split <;> exact ⟨_, rfl⟩

theorem settle_unsettled {commits : List Commit}
    (member : record ∈ commits.foldl (fun records commit => commit.settle records) records)
    (unsettled : record.settlement = none) :
    record ∈ records ∧ .publicationAudit record.stream ∉ commits := by
  induction commits generalizing records with
  | nil => exact ⟨member, by simp⟩
  | cons commit commits ih =>
    obtain ⟨before, absent⟩ := ih member
    cases commit with
    | publicationAudit stream =>
      obtain ⟨earlier, present, same⟩ := mem_map.mp before
      split at same
      · rw [← same] at unsettled
        cases unsettled
      · rename_i other
        subst same
        exact ⟨present, by simp [absent, other]⟩
    | _ => exact ⟨before, by simp [absent]⟩

structure Completed (store settled : ConversationStore) : Prop where
  single : (classify (reconstruct store)).unsettledAttempts.length ≤ 1
  done : store.commitAll (classify (reconstruct store)).commits = .ok settled

namespace Completed

section

variable (run : Completed store settled)
include run

theorem interrupted : Interrupted store settled :=
  ⟨run.single, _, [], by simp, run.done⟩

/-- Every event of the plan is in the journal, and what else came is recovery's own. -/
theorem journal : ∃ wrote, settled.journal = store.journal ++ wrote ∧
    (∀ envelope ∈ wrote, ∃ results, Recovered results envelope.fact) ∧
    ∀ commit ∈ (classify (reconstruct store)).commits, ∀ event ∈ commit.events,
      ∃ envelope ∈ wrote, envelope.fact = event.fact := by
  obtain ⟨wrote, journal, asked⟩ := (ConversationStore.commitAll_adds run.done).journal
  refine ⟨wrote, journal, ?_, ?_⟩
  · intro envelope member
    obtain ⟨event, wanted, same⟩ := mem_map.mp (asked ▸ mem_map_of_mem member)
    exact ⟨_, same ▸ recovered_events wanted⟩
  · intro commit among event inside
    have wanted : event ∈ (classify (reconstruct store)).commits.flatMap Commit.events :=
      mem_flatMap.mpr ⟨commit, among, inside⟩
    exact mem_map.mp (asked.symm ▸ mem_map_of_mem wanted)

theorem not_running (valid : store.Valid) (attempt : AttemptId) :
    ¬ Journal.Running settled.journal attempt := by
  obtain ⟨wrote, journal, recovered, complete⟩ := run.journal
  rw [journal]
  rintro ⟨⟨start, member, starts⟩, endless⟩
  have early : start ∈ store.journal := by
    refine (mem_append.mp member).resolve_right fun late => ?_
    obtain ⟨results, own⟩ := recovered start late
    rw [(RuntimeEventEnvelope.recovered_quiet own).2.1] at starts
    cases starts
  have running : Journal.Running store.journal attempt :=
    ⟨⟨start, early, starts⟩, fun envelope before => endless envelope (by simp [before])⟩
  have tracks := foldAll_tracks store.conversation (store.activeMessages.map MessageBlock.id)
    valid.admitted.fresh
  have open_ := (tracks.running attempt).mpr running
  rw [view, Option.isSome_map] at open_
  have listed := Assoc.lookup_isSome_iff.mp open_
  obtain ⟨⟨name, known⟩, among, rfl⟩ := mem_map.mp listed
  have single : (reconstruct store).unsettledAttempts.length ≤ 1 := by
    simpa [classify] using run.single
  have alone : (reconstruct store).unsettledAttempts = [(name, known)] := by
    have present : (name, known) ∈ (reconstruct store).unsettledAttempts := among
    generalize (reconstruct store).unsettledAttempts = attempts at single present
    rcases attempts with _ | ⟨entry, _ | _⟩
    · cases present
    · rw [mem_singleton.mp present]
    · simp at single
  obtain ⟨diagnostic, interrupts⟩ := interruption_of_open alone
    (classify (reconstruct store)).toolSummary
  obtain ⟨envelope, late, same⟩ := complete (.attemptTerminal name diagnostic)
    (by simp [RecoveryPlan.commits, show (classify (reconstruct store)).attempt =
      classifyAttempt (reconstruct store).toRecoveryEvidence from rfl, interrupts])
    _ (mem_singleton.mpr rfl)
  have ended := endless envelope (by simp [late])
  have event : envelope.event = .attemptTerminal name (.restartInterrupted diagnostic) :=
    (Prod.ext_iff.mp same).2
  simp [RuntimeEventEnvelope.ends, event] at ended

theorem not_unclosed
    (planned : store.journal.Unclosed key → ∃ commit ∈ (classify (reconstruct store)).commits,
      ∃ event ∈ commit.events, event.closes key = true) : ¬ settled.journal.Unclosed key := by
  obtain ⟨wrote, journal, recovered, complete⟩ := run.journal
  rw [journal]
  rintro ⟨⟨opening, member, opened⟩, unclosed⟩
  have early : opening ∈ store.journal := by
    refine (mem_append.mp member).resolve_right fun late => ?_
    obtain ⟨results, own⟩ := recovered opening late
    rw [(RuntimeEventEnvelope.recovered_quiet own).2.2.2] at opened
    cases opened
  obtain ⟨commit, among, event, inside, closing⟩ := planned ⟨⟨opening, early, opened⟩,
    fun envelope before => unclosed envelope (by simp [before])⟩
  obtain ⟨envelope, late, same⟩ := complete commit among event inside
  have closed : envelope.closes key = event.closes key := by
    obtain ⟨owner, said⟩ := Prod.ext_iff.mp same
    simp only [RuntimeEventEnvelope.fact] at owner said
    simp only [RuntimeEventEnvelope.closes, RuntimeEventEnvelope.lifecycleKeys, owner, said]
  rw [unclosed envelope (by simp [late]), closing] at closed
  cases closed

theorem background_closed (valid : store.Valid) (execution : ToolExecutionId) :
    ¬ settled.journal.Unclosed (.background execution) := by
  apply run.not_unclosed
  intro unclosed
  have listed := (owns_iff store.conversation (store.activeMessages.map MessageBlock.id)
    valid.admitted (by simp)).mpr unclosed
  obtain ⟨entry, among, rfl⟩ := mem_map.mp listed
  have named := (foldAll_filed _ _ _).background entry among
  have planned : entry.2 ∈ (reconstruct store).unsettledBackground :=
    (perm_insertionSort _ _).mem_iff.mpr (mem_map_of_mem among)
  refine ⟨.backgroundTerminal entry.2.executionId, ?_, _, mem_singleton.mpr rfl, ?_⟩
  · simp only [RecoveryPlan.commits, mem_append, mem_map]
    exact .inr (.inl (.inr ⟨_, planned, rfl⟩))
  · simp [RuntimeEventEnvelope.closes, RuntimeEventEnvelope.lifecycleKeys, named]

theorem subagents_closed (valid : store.Valid) (subagent : SubagentId) :
    ¬ settled.journal.Unclosed (.subagent subagent) := by
  apply run.not_unclosed
  intro unclosed
  have listed := (owns_iff store.conversation (store.activeMessages.map MessageBlock.id)
    valid.admitted (by simp)).mpr unclosed
  obtain ⟨entry, among, rfl⟩ := mem_map.mp listed
  have named := (foldAll_filed _ _ _).subagents entry among
  have planned : entry.2 ∈ (reconstruct store).unsettledSubagents := mem_map_of_mem among
  refine ⟨.subagentTerminal entry.2.subagentId entry.2.ownership, ?_, _, mem_singleton.mpr rfl, ?_⟩
  · simp only [RecoveryPlan.commits, mem_append, mem_map]
    exact .inr (.inr ⟨_, planned, rfl⟩)
  · simp [RuntimeEventEnvelope.closes, RuntimeEventEnvelope.lifecycleKeys, named]

theorem publications_settled : ∀ record ∈ settled.publications, record.settlement ≠ none := by
  intro record member unsettled
  rw [(ConversationStore.commitAll_adds run.done).publications] at member
  obtain ⟨present, absent⟩ := settle_unsettled member unsettled
  apply absent
  simp only [RecoveryPlan.commits, mem_append, mem_map]
  refine .inl ⟨⟨record.stream, record.attempt, record.auditKind⟩, ?_, rfl⟩
  simp only [classify, reconstruct, ConversationStore.loadUnsettledPublicationStreams, mem_map]
  exact ⟨record, by simp [present, unsettled], rfl⟩

end

end Completed

theorem recover_eq_ok_iff {settled : ConversationStore} :
    recover store = .ok (report, settled) ↔ Completed store settled ∧
      report = ⟨classify (reconstruct store), (classify (reconstruct store)).reconciliation⟩ ∧
      ∀ call ∈ settled.toolCalls, settled.resultOf call.occurrence ≠ none := by
  rw [← ConversationStore.unsettled_eq_nil_iff (by decide : 0 < 1)]
  unfold recover RecoveryPlan.reconcile
  constructor
  · intro ok
    split at ok
    · cases ok
    cases done : store.commitAll (classify (reconstruct store)).commits with
    | error error => simp [done] at ok
    | ok next =>
      rw [done] at ok
      simp only [Checked.ok_bind] at ok
      cases unsettled : next.unsettledCanonicalToolCalls 1 with
      | nil =>
        rw [unsettled] at ok
        obtain ⟨rfl, rfl⟩ := ok
        exact ⟨⟨by omega, done⟩, rfl, unsettled⟩
      | cons call rest =>
        rw [unsettled] at ok
        cases ok
  · rintro ⟨⟨single, done⟩, rfl, unsettled⟩
    rw [if_neg (by omega), done]
    simp only [Checked.ok_bind, unsettled]

theorem countP_eq_one {α : Type} {items : List α} {p : α → Bool} (atMost : items.countP p ≤ 1)
    (atLeast : ∃ item ∈ items, p item = true) : items.countP p = 1 := by
  have positive := countP_pos_iff.mpr atLeast
  omega

/-- What was begun, is not still open, and ends at most once, ended once. -/
theorem closed_once {begun journal : Journal} {opens : RuntimeEventEnvelope → Bool}
    (atMost : journal.countP closes ≤ 1)
    (closed : ¬ ((∃ envelope ∈ journal, opens envelope = true) ∧
      ∀ envelope ∈ journal, closes envelope = false))
    (kept : ∀ envelope ∈ begun, envelope ∈ journal)
    (opened : ∃ envelope ∈ begun, opens envelope = true) : journal.countP closes = 1 := by
  apply countP_eq_one atMost
  by_contra endless
  obtain ⟨envelope, member, opening⟩ := opened
  refine closed ⟨⟨envelope, kept envelope member, opening⟩, fun later among => ?_⟩
  exact Bool.eq_false_iff.mpr fun ended => endless ⟨later, among, ended⟩

/-- Started from a conversation that nothing is left to do for, recovery does nothing. -/
theorem recover_settled (valid : store.Valid)
    (attempts : ∀ attempt, ¬ Journal.Running store.journal attempt)
    (background : ∀ execution, ¬ store.journal.Unclosed (.background execution))
    (subagents : ∀ subagent, ¬ store.journal.Unclosed (.subagent subagent))
    (publications : ∀ record ∈ store.publications, record.settlement ≠ none)
    (calls : ∀ call ∈ store.toolCalls, store.resultOf call.occurrence ≠ none) :
    ∃ report, recover store = .ok (report, store) ∧ report.reconciliation.isEmpty = true := by
  have tracks := foldAll_tracks store.conversation (store.activeMessages.map MessageBlock.id)
    valid.admitted.fresh
  have noAttempt : (reconstruct store).unsettledAttempts = [] := by
    match listed : (reconstruct store).unsettledAttempts with
    | [] => rfl
    | (attempt, known) :: rest =>
      have seen : (reconstruct store).view attempt = some (known.request, known.tools) := by
        simp [view, listed]
      exact absurd ((tracks.running attempt).mp (by rw [Option.isSome_iff_exists]; exact ⟨_, seen⟩))
        (attempts attempt)
  have noBackground : (reconstruct store).background = [] := by
    rw [← map_eq_nil_iff, eq_nil_iff_forall_not_mem]
    intro execution listed
    exact background execution ((owns_iff _ _ valid.admitted (by simp)).mp listed)
  have noSubagent : (reconstruct store).subagents = [] := by
    rw [← map_eq_nil_iff, eq_nil_iff_forall_not_mem]
    intro subagent listed
    exact subagents subagent ((owns_iff _ _ valid.admitted (by simp)).mp listed)
  have noPublication : store.loadUnsettledPublicationStreams = [] := by
    simpa [ConversationStore.loadUnsettledPublicationStreams] using publications
  have noCall : store.unsettledCanonicalToolCalls 8192 = [] :=
    (ConversationStore.unsettled_eq_nil_iff (by decide)).mpr calls
  have noRepair : (reconstruct store).planToolRepairs = [] := by
    simp [planToolRepairs, missingResults, reconstruct, noCall]
  have idle : ∀ summary, interruption (classifyAttempt (reconstruct store).toRecoveryEvidence)
      summary = none := by
    intro summary
    unfold classifyAttempt
    rw [noAttempt]
    dsimp only
    split <;> rfl
  have noOwned : (reconstruct store).unsettledBackground = [] := by
    simp [show (reconstruct store).unsettledBackground =
      ((reconstruct store).background.map _).insertionSort fun a b => a.sequence ≤ b.sequence
      from rfl, noBackground]
  have noChild : (reconstruct store).unsettledSubagents = [] := by
    simp [show (reconstruct store).unsettledSubagents =
      (reconstruct store).subagents.map _ from rfl, noSubagent]
  have noStream : (reconstruct store).unsettledPublications = [] := noPublication
  refine ⟨_, recover_eq_ok_iff.mpr ⟨⟨?_, ?_⟩, rfl, calls⟩, ?_⟩
  · simp [classify, noAttempt]
  · have none : (classify (reconstruct store)).commits = [] := by
      simp [RecoveryPlan.commits, classify, noStream, noRepair, idle, noOwned, noChild]
    rw [none]
    rfl
  · simp [RecoveryPlan.reconciliation, RecoveryReconciliation.isEmpty, classify, noStream, noRepair,
      idle, noOwned, noChild]

/-- However many runs died before it, a recovery that succeeds leaves every call with one
result, the one it deserved at the start if no other open call of its attempt shares its
id; every attempt, execution, child and stream with one terminal; and nothing to do. -/
theorem recover_converges (start : ConversationStore) (valid : start.Valid)
    {store settled : ConversationStore} {report : RecoveryReport} (crashes : Crashes start store)
    (recovered : recover store = .ok (report, settled)) :
    (∀ call ∈ settled.toolCalls,
      settled.toolResults.countP (fun message => message.occurrence = call.occurrence) = 1) ∧
    (∀ call ∈ start.toolCalls, start.resultOf call.occurrence = none → start.Sole call →
      (settled.resultOf call.occurrence).map ToolMessageBlock.result = some (start.verdict call)) ∧
    (∀ attempt, (∃ envelope ∈ start.journal, envelope.starts attempt = true) →
      settled.journal.countP (·.ends attempt) = 1) ∧
    (∀ execution, (∃ envelope ∈ start.journal, envelope.opens (.background execution) = true) →
      settled.journal.countP (·.closes (.background execution)) = 1) ∧
    (∀ subagent, (∃ envelope ∈ start.journal, envelope.opens (.subagent subagent) = true) →
      settled.journal.countP (·.closes (.subagent subagent)) = 1) ∧
    settled.publications = start.publications.map PublicationStreamRecord.audited ∧
    ∃ again, recover settled = .ok (again, settled) ∧ again.reconciliation.isEmpty = true := by
  obtain ⟨run, -, answered⟩ := recover_eq_ok_iff.mp recovered
  obtain ⟨before, earlier, held⟩ := crashes.continues valid
  obtain ⟨more, wrote, final⟩ := held.interrupted run.interrupted
  have attempts := run.not_running held.valid
  have background := run.background_closed held.valid
  have subagents := run.subagents_closed held.valid
  have publications := run.publications_settled
  have kept : ∀ envelope ∈ start.journal, envelope ∈ settled.journal := by
    intro envelope member
    rw [final.journal]
    exact mem_append_left _ member
  refine ⟨?_, ?_, ?_, ?_, ?_, ?_, recover_settled final.valid attempts background subagents
    publications answered⟩
  · intro call member
    obtain ⟨message, found⟩ := Option.ne_none_iff_exists'.mp (answered call member)
    have among := mem_of_find?_eq_some found
    have named := find?_some found
    apply countP_eq_one _ ⟨message, among, named⟩
    have once := nodup_iff_count_le_one.mp final.valid.resultOnce call.occurrence
    rw [List.count, countP_map] at once
    refine le_of_eq_of_le (countP_congr fun message _ => ?_) once
    simp
  · intro call member unsettled sole
    have called : call ∈ settled.toolCalls := final.toolCalls ▸ member
    obtain ⟨message, found⟩ := Option.ne_none_iff_exists'.mp (answered call called)
    have among := mem_of_find?_eq_some found
    have named : message.occurrence = call.occurrence := by simpa using find?_some found
    rw [ConversationStore.toolResults_append final.ledger] at among
    have late : message ∈ before ++ more := by
      refine (mem_append.mp among).resolve_left fun old => ?_
      exact ConversationStore.resultOf_eq_none_iff.mp unsettled message old named
    obtain ⟨other, called, -, -, occurrence, -, honest⟩ := final.repairs message late
    obtain rfl : other = call := inj_on_of_nodup_map valid.occurrences called member
      (occurrence.symm.trans named)
    rw [found, Option.map_some, honest sole]
  · intro attempt
    exact closed_once (final.valid.admitted.ends_once attempt) (attempts attempt) kept
  · intro execution
    exact closed_once (final.valid.admitted.closes_once _) (background execution) kept
  · intro subagent
    exact closed_once (final.valid.admitted.closes_once _) (subagents subagent) kept
  · rw [← final.publications]
    conv_lhs => rw [← map_id settled.publications]
    apply map_congr_left
    intro record member
    exact (PublicationStreamRecord.audited_eq_self (publications record member)).symm

/-- A run that dies after so many commits, and the run after it. -/
def crashAndRecover (start : ConversationStore) (count : Nat) :
    Except RecoveryError (RecoveryReport × ConversationStore) :=
  match start.commitAll ((classify (reconstruct start)).commits.take count) with
  | .error error => .error (.durable error)
  | .ok store => recover store

theorem crashAndRecover_ok {count}
    (single : (classify (reconstruct start)).unsettledAttempts.length ≤ 1)
    (ok : crashAndRecover start count = .ok (report, settled)) :
    ∃ store, Crashes start store ∧ recover store = .ok (report, settled) := by
  unfold crashAndRecover at ok
  split at ok
  · cases ok
  · rename_i store done
    exact ⟨store, .again .none ⟨single, _, _, (take_append_drop count _).symm, done⟩, ok⟩

def openCalls (messages : List MessageId) (journal : Journal) : ConversationStore :=
  { conversation := "c"
    ledger := messages.map fun id => .assistant id [.toolCall "call" "tool"]
    activeMessageIds := messages
    journal := journal
    publications := []
    pending := []
    correlations := [] }

def startedCall : ConversationStore :=
  openCalls ["m"]
    [⟨1, some "a", .attemptStarted "a"⟩, ⟨2, some "a", .assistantMessageCommitted "m"⟩,
      ⟨3, some "a", .toolExecutionStarted "call" "tool"⟩]

theorem startedCall_valid : startedCall.Valid where
  admitted := (Journal.persistEvents_ok (by decide +kernel :
    Journal.persistEvents [] startedCall.journal = .ok _)).2 .empty
  ids := by decide +kernel
  occurrences := by decide +kernel
  results := by decide +kernel
  resultOnce := by decide +kernel
  surface := by decide +kernel
  committed := by simp [startedCall, openCalls]
  streams := by decide +kernel

theorem startedCall_sole : startedCall.Sole ⟨⟨"m", 0⟩, "call", "tool"⟩ := by
  intro attempt _
  constructor
  · intro other member _ _ _
    simpa [startedCall, openCalls, ConversationStore.toolCalls, MessageBlock.toolCalls] using member
  · rintro ⟨envelope, member, assistant, unowned, -⟩
    simp only [startedCall, openCalls, mem_cons, not_mem_nil, or_false] at member
    rcases member with rfl | rfl | rfl <;> cases unowned

/-- The first run dies after its repair, and the second one settles the rest. -/
theorem recover_converges_started : ∃ store report settled, Crashes startedCall store ∧
    recover store = .ok (report, settled) ∧
    (settled.resultOf ⟨"m", 0⟩).map ToolMessageBlock.result = some unknownOutcomeResult ∧
    settled.journal.countP (·.ends "a") = 1 := by
  have ok : (crashAndRecover startedCall 1).toOption.isSome = true := by decide +kernel
  obtain ⟨⟨report, settled⟩, run⟩ := Option.isSome_iff_exists.mp ok
  obtain ⟨store, crashes, recovered⟩ :=
    crashAndRecover_ok (by decide +kernel) (Checked.toOption_eq_some_iff.mp run)
  have converges := recover_converges startedCall startedCall_valid crashes recovered
  refine ⟨store, report, settled, crashes, recovered, ?_, converges.2.2.1 "a" (by decide +kernel)⟩
  exact (converges.2.1 _ (by decide +kernel) (by decide +kernel) startedCall_sole).trans
    (by decide +kernel)

def sharedCallId : ConversationStore :=
  openCalls ["m1", "m2"]
    [⟨1, some "a", .attemptStarted "a"⟩, ⟨2, some "a", .assistantMessageCommitted "m1"⟩,
      ⟨3, some "a", .toolExecutionStarted "call" "tool"⟩,
      ⟨4, some "a", .toolExecutionCompleted "call" "tool" { status := .success }⟩,
      ⟨5, some "a", .assistantMessageCommitted "m2"⟩]

theorem sharedCallId_valid : sharedCallId.Valid where
  admitted := (Journal.persistEvents_ok (by decide +kernel :
    Journal.persistEvents [] sharedCallId.journal = .ok _)).2 .empty
  ids := by decide +kernel
  occurrences := by decide +kernel
  results := by decide +kernel
  resultOnce := by decide +kernel
  surface := by decide +kernel
  committed := by simp [sharedCallId, openCalls]
  streams := by decide +kernel

/-- The repair of the first message uses up the evidence of the attempt's call: whether
the second message gets the recorded outcome or counts as never started depends on
whether the process died between the two repairs. -/
theorem sharedCallId_diverges : sharedCallId.Valid ∧
    (classify (reconstruct sharedCallId)).unsettledAttempts = ["a"] ∧
    sharedCallId.verdict ⟨⟨"m2", 0⟩, "call", "tool"⟩ = { status := .success } ∧
    (∃ report settled, recover sharedCallId = .ok (report, settled) ∧
      (settled.resultOf ⟨"m2", 0⟩).map ToolMessageBlock.result = some { status := .success }) ∧
    ∃ store report settled, Crashes sharedCallId store ∧ recover store = .ok (report, settled) ∧
      (settled.resultOf ⟨"m2", 0⟩).map ToolMessageBlock.result = some abandonedResult := by
  refine ⟨sharedCallId_valid, by decide +kernel, by decide +kernel, ?_, ?_⟩
  · have ok : (recover sharedCallId).toOption.bind (fun run =>
        (run.2.resultOf ⟨"m2", 0⟩).map ToolMessageBlock.result) = some { status := .success } := by
      decide +kernel
    obtain ⟨⟨report, settled⟩, run, result⟩ := Option.bind_eq_some_iff.mp ok
    exact ⟨report, settled, Checked.toOption_eq_some_iff.mp run, result⟩
  · have ok : (crashAndRecover sharedCallId 1).toOption.bind (fun run =>
        (run.2.resultOf ⟨"m2", 0⟩).map ToolMessageBlock.result) = some abandonedResult := by
      decide +kernel
    obtain ⟨⟨report, settled⟩, run, result⟩ := Option.bind_eq_some_iff.mp ok
    obtain ⟨store, crashes, recovered⟩ :=
      crashAndRecover_ok (by decide +kernel) (Checked.toOption_eq_some_iff.mp run)
    exact ⟨store, report, settled, crashes, recovered, result⟩

end RustX.Recovery
