import RustX.Library.Checked
import RustX.Recovery.Plan

/-!
What the durable store keeps true: which events the journal lets in, that every call
has at most one result, and what one commit of a recovery adds.
-/
namespace RustX.Recovery

open ConversationStore List PublicationStreamRecord

namespace RuntimeEventEnvelope

section

variable (envelope : RuntimeEventEnvelope)

/-- What an event says, apart from the position it gets. -/
def fact : Option AttemptId × RuntimeEvent :=
  (envelope.attempt, envelope.event)

def closes (key : LifecycleKey) : Bool :=
  envelope.lifecycleKeys.contains (key, true)

def opens (key : LifecycleKey) : Bool :=
  envelope.lifecycleKeys.contains (key, false)

end

theorem closes_iff {envelope : RuntimeEventEnvelope} :
    envelope.closes key = true ↔ (key, true) ∈ envelope.lifecycleKeys := by
  simp [closes]

theorem opens_iff {envelope : RuntimeEventEnvelope} :
    envelope.opens key = true ↔ (key, false) ∈ envelope.lifecycleKeys := by
  simp [opens]

end RuntimeEventEnvelope

namespace Journal

variable {journal next : Journal} {envelope : RuntimeEventEnvelope} {attempt : AttemptId}

structure Enters (journal : Journal) (envelope : RuntimeEventEnvelope) : Prop where
  agrees : ∀ attempt, envelope.starts attempt = true ∨ envelope.ends attempt = true →
    envelope.attempt.getD attempt = attempt
  once : ∀ attempt, envelope.starts attempt = true → journal.mentions (.attempt attempt) = false
  unended : ∀ entry ∈ envelope.lifecycleKeys, journal.isTerminal entry.1 = false

theorem validateEventIdentity_eq_ok_iff : validateEventIdentity envelope = .ok () ↔
    ∀ attempt, envelope.starts attempt = true ∨ envelope.ends attempt = true →
      envelope.attempt.getD attempt = attempt := by
  obtain ⟨sequence, owner, event⟩ := envelope
  cases owner with
  | none => cases event <;> simp [validateEventIdentity]
  | some owner =>
    cases event with
    | attemptStarted | attemptTerminal =>
      simp only [validateEventIdentity, RuntimeEventEnvelope.starts,
        RuntimeEventEnvelope.ends, Option.getD_some]
      split <;> simp_all [eq_comm]
    | _ => simp [validateEventIdentity, RuntimeEventEnvelope.starts, RuntimeEventEnvelope.ends]

theorem validateAttemptStartUniqueness_eq_ok_iff :
    validateAttemptStartUniqueness journal envelope = .ok () ↔
      ∀ attempt, envelope.starts attempt = true → journal.mentions (.attempt attempt) = false := by
  obtain ⟨sequence, owner, event⟩ := envelope
  cases event with
  | attemptStarted started =>
    simp only [validateAttemptStartUniqueness, RuntimeEventEnvelope.starts]
    split <;> simp_all
  | _ => simp [validateAttemptStartUniqueness, RuntimeEventEnvelope.starts]

theorem persistEvent_eq_ok_iff : persistEvent journal envelope = .ok next ↔
    Enters journal envelope ∧
      next = journal ++ [{ envelope with sequence := journal.length + 1 }] := by
  unfold persistEvent
  simp only [Checked.bind_eq_ok_iff]
  constructor
  · rintro ⟨_, identity, _, unique, saved⟩
    split at saved
    · cases saved
    · rename_i clear
      refine ⟨⟨validateEventIdentity_eq_ok_iff.mp identity,
        validateAttemptStartUniqueness_eq_ok_iff.mp unique, ?_⟩, by simpa using saved.symm⟩
      simpa using find?_eq_none.mp clear
  · rintro ⟨⟨agrees, once, unended⟩, rfl⟩
    refine ⟨(), validateEventIdentity_eq_ok_iff.mpr agrees, (),
      validateAttemptStartUniqueness_eq_ok_iff.mpr once, ?_⟩
    rw [find?_eq_none.mpr (by simpa using unended)]

/-- The journals that the store itself wrote. -/
inductive Admitted : Journal → Prop
  | empty : Admitted []
  | persist {journal next : Journal} {envelope : RuntimeEventEnvelope} :
      Admitted journal → persistEvent journal envelope = .ok next → Admitted next

theorem Admitted.last (admitted : Admitted (before ++ [envelope])) :
    Admitted before ∧ Enters before envelope := by
  generalize whole : before ++ [envelope] = journal at admitted
  cases admitted with
  | empty => simp at whole
  | persist earlier saved =>
    obtain ⟨enters, rfl⟩ := persistEvent_eq_ok_iff.mp saved
    obtain ⟨rfl, same⟩ := append_inj' whole rfl
    obtain rfl := singleton_inj.mp same
    exact ⟨earlier, enters.agrees, enters.once, enters.unended⟩

/-- What is written is what was asked for, in its place. -/
theorem persistEvents_ok (saved : journal.persistEvents events = .ok next) :
    (∃ written, next = journal ++ written ∧
      written.map RuntimeEventEnvelope.fact = events.map RuntimeEventEnvelope.fact) ∧
    (Admitted journal → Admitted next) := by
  induction events generalizing journal with
  | nil =>
    obtain rfl : journal = next := by simpa [persistEvents, pure, Except.pure] using saved
    exact ⟨⟨[], by simp⟩, id⟩
  | cons event events ih =>
    simp only [persistEvents, foldlM_cons, Checked.bind_eq_ok_iff] at saved
    obtain ⟨middle, first, rest⟩ := saved
    obtain ⟨⟨written, rfl, same⟩, keeps⟩ := ih rest
    obtain ⟨-, rfl⟩ := persistEvent_eq_ok_iff.mp first
    refine ⟨⟨_ :: written, by rw [append_assoc, singleton_append], ?_⟩,
      fun admitted => keeps (admitted.persist first)⟩
    rw [map_cons, map_cons, same]
    rfl

theorem Admitted.agrees (admitted : Admitted journal) : ∀ envelope ∈ journal, ∀ attempt,
    envelope.starts attempt = true ∨ envelope.ends attempt = true →
      envelope.attempt.getD attempt = attempt := by
  induction journal using List.reverseRecOn with
  | nil => simp
  | append_singleton before last ih =>
    exact Assoc.forall_mem_snoc.mpr ⟨ih admitted.last.1, admitted.last.2.agrees⟩

/-- Nothing enters a lifecycle after its terminal, so it has at most one. -/
theorem Admitted.closes_once (admitted : Admitted journal) (key : LifecycleKey) :
    journal.countP (·.closes key) ≤ 1 := by
  induction journal using List.reverseRecOn with
  | nil => simp
  | append_singleton before last ih =>
    rw [countP_append, countP_singleton]
    split
    · rename_i closing
      have open_ := admitted.last.2.unended _ (RuntimeEventEnvelope.closes_iff.mp closing)
      have none : before.countP (·.closes key) = 0 := by
        rw [countP_eq_zero]
        intro envelope member closed
        simp only [isTerminal, any_eq_false] at open_
        exact open_ envelope member closed
      omega
    · have := ih admitted.last.1
      omega

theorem closes_of_ends (agrees : envelope.attempt.getD attempt = attempt)
    (ends : envelope.ends attempt = true) : envelope.closes (.attempt attempt) = true := by
  obtain ⟨sequence, owner, event⟩ := envelope
  cases event <;> simp_all [RuntimeEventEnvelope.ends, RuntimeEventEnvelope.closes,
    RuntimeEventEnvelope.lifecycleKeys]

theorem Admitted.ends_once (admitted : Admitted journal) (attempt : AttemptId) :
    journal.countP (·.ends attempt) ≤ 1 := by
  refine (countP_mono_left fun envelope member ended => ?_).trans
    (admitted.closes_once (.attempt attempt))
  exact closes_of_ends (admitted.agrees envelope member attempt (.inr ended)) ended

theorem mentions_of_owner (member : envelope ∈ journal)
    (keyed : ∃ entry ∈ envelope.lifecycleKeys, entry.1 = key) : journal.mentions key = true := by
  obtain ⟨entry, among, rfl⟩ := keyed
  simp only [mentions, any_eq_true, decide_eq_true_eq]
  exact ⟨envelope, member, entry, among, rfl⟩

theorem Admitted.fresh (admitted : Admitted journal) : Fresh journal := by
  induction journal using List.reverseRecOn with
  | nil =>
    intro before envelope after attempt split
    simp at split
  | append_singleton journal last ih =>
    intro before envelope after attempt split starts
    rcases snoc_split split with ⟨-, rfl, rfl⟩ | ⟨rest, -, earlier⟩
    · have unmentioned := admitted.last.2.once attempt starts
      constructor
      · intro earlier member
        refine Bool.eq_false_iff.mpr fun ended => ?_
        have closing := closes_of_ends
          (admitted.last.1.agrees earlier member attempt (.inr ended)) ended
        rw [mentions_of_owner member ⟨_, RuntimeEventEnvelope.closes_iff.mp closing, rfl⟩]
          at unmentioned
        cases unmentioned
      · intro _ earlier member
        refine Bool.eq_false_iff.mpr fun fact => ?_
        have owner := RuntimeEventEnvelope.toolFact_owner fact
        have keyed : ∃ entry ∈ earlier.lifecycleKeys, entry.1 = .attempt attempt := by
          unfold RuntimeEventEnvelope.toolFact at fact
          unfold RuntimeEventEnvelope.lifecycleKeys
          split at fact <;> simp_all
        rw [mentions_of_owner member keyed] at unmentioned
        cases unmentioned
    · exact ih admitted.last.1 before envelope rest attempt earlier starts

def Unclosed (journal : Journal) (key : LifecycleKey) : Prop :=
  (∃ envelope ∈ journal, envelope.opens key = true) ∧
    ∀ envelope ∈ journal, envelope.closes key = false

theorem unclosed_snoc : Unclosed (before ++ [envelope]) key ↔
    ((∃ earlier ∈ before, earlier.opens key = true) ∨ envelope.opens key = true) ∧
      (∀ earlier ∈ before, earlier.closes key = false) ∧ envelope.closes key = false := by
  constructor
  · rintro ⟨⟨opening, member, opened⟩, unclosed⟩
    refine ⟨?_, fun earlier among => unclosed earlier (by simp [among]), unclosed _ (by simp)⟩
    rcases mem_append.mp member with earlier | last
    · exact .inl ⟨opening, earlier, opened⟩
    · rw [mem_singleton] at last
      exact .inr (last ▸ opened)
  · rintro ⟨opened, unclosed, open_⟩
    constructor
    · rcases opened with ⟨opening, member, opened⟩ | opened
      · exact ⟨opening, by simp [member], opened⟩
      · exact ⟨envelope, by simp, opened⟩
    · exact Assoc.forall_mem_snoc.mpr ⟨unclosed, open_⟩

/-- What grows by openings and shrinks by terminals is what is unclosed. -/
theorem Admitted.unclosed_iff (holds : Journal → Prop) (empty : ¬ holds [])
    (step : ∀ journal envelope, holds (journal ++ [envelope]) ↔
      envelope.opens key = true ∨ (holds journal ∧ envelope.closes key = false))
    (apart : ∀ envelope : RuntimeEventEnvelope, envelope.opens key = true →
      envelope.closes key = false) (admitted : Admitted journal) :
    holds journal ↔ Unclosed journal key := by
  induction journal using List.reverseRecOn with
  | nil => simp [Unclosed, empty]
  | append_singleton before last ih =>
    rw [step, ih admitted.last.1, unclosed_snoc]
    constructor
    · rintro (opened | ⟨⟨opened, unclosed⟩, open_⟩)
      · refine ⟨.inr opened, ?_, apart last opened⟩
        intro earlier member
        have still := admitted.last.2.unended _ (RuntimeEventEnvelope.opens_iff.mp opened)
        simp only [isTerminal, any_eq_false] at still
        exact Bool.eq_false_iff.mpr (still earlier member)
      · exact ⟨.inl opened, unclosed, open_⟩
    · rintro ⟨opened | opened, unclosed, open_⟩
      · exact .inr ⟨⟨opened, unclosed⟩, open_⟩
      · exact .inl opened

end Journal

namespace Commit

def blocks : Commit → List ToolMessageBlock
  | .toolTurn repair => repair.blocks
  | _ => []

def events : Commit → List RuntimeEventEnvelope
  | .publicationAudit _ => []
  | .toolTurn repair => repair.events
  | .attemptTerminal attempt diagnostic =>
    [{ attempt := some attempt, event := .attemptTerminal attempt (.restartInterrupted diagnostic) }]
  | .backgroundTerminal execution => [{ event := .backgroundTerminalPublished execution }]
  | .subagentTerminal subagent _ => [{ event := .subagentTerminal subagent }]

def settle : Commit → List PublicationStreamRecord → List PublicationStreamRecord
  | .publicationAudit stream, records => records.map fun record =>
    if record.stream = stream then
      { record with settlement := some (.audited record.auditKind) }
    else record
  | _, records => records

end Commit

def PublicationStreamRecord.audited (record : PublicationStreamRecord) : PublicationStreamRecord :=
  if record.settlement = none then
    { record with settlement := some (.audited record.auditKind) }
  else record

theorem PublicationStreamRecord.audited_eq_self {record : PublicationStreamRecord}
    (settled : record.settlement ≠ none) : record.audited = record :=
  if_neg settled

namespace ConversationStore

/-- What the tables keep: unique identities, results of existing calls, at most one for
each, and commit events of messages that exist. -/
structure Valid (store : ConversationStore) : Prop where
  admitted : store.journal.Admitted
  ids : (store.ledger.map MessageBlock.id).Nodup
  occurrences : (store.toolCalls.map CanonicalToolCall.occurrence).Nodup
  results : ∀ message ∈ store.toolResults, ∃ call ∈ store.toolCalls,
    call.occurrence = message.occurrence ∧ call.call = message.call ∧ call.tool = message.tool
  resultOnce : (store.toolResults.map ToolMessageBlock.occurrence).Nodup
  surface : ∀ id ∈ store.activeMessageIds, ∃ message ∈ store.ledger, message.id = id
  committed : ∀ envelope ∈ store.journal, ∀ message,
    envelope.event = .assistantMessageCommitted message →
      ∃ content, .assistant message content ∈ store.ledger
  streams : (store.publications.map stream).Nodup

variable {store next : ConversationStore}

variable {blocks : List ToolMessageBlock}

theorem toolCalls_append (ledger : next.ledger = store.ledger ++ blocks.map .tool) :
    next.toolCalls = store.toolCalls := by
  have none : (blocks.map MessageBlock.tool).flatMap MessageBlock.toolCalls = [] := by
    simp [flatMap_map, MessageBlock.toolCalls]
  rw [toolCalls, ledger, flatMap_append, none, append_nil, toolCalls]

theorem toolResults_append (ledger : next.ledger = store.ledger ++ blocks.map .tool) :
    next.toolResults = store.toolResults ++ blocks := by
  rw [toolResults, ledger, filterMap_append, filterMap_map]
  congr 1
  exact filterMap_some

theorem resultOf_eq_none_iff : store.resultOf occurrence = none ↔
      ∀ message ∈ store.toolResults, message.occurrence ≠ occurrence := by
  simp [resultOf, find?_eq_none]

theorem appendToolResult_ok {message : ToolMessageBlock}
    (done : store.appendToolResult message = .ok next) :
    next = { store with
      ledger := store.ledger ++ [.tool message]
      activeMessageIds := store.activeMessageIds ++ [message.id] } ∧
    (∀ other ∈ store.ledger, other.id ≠ message.id) ∧
    store.resultOf message.occurrence = none ∧
    ∃ call ∈ store.toolCalls, call.occurrence = message.occurrence ∧
      call.call = message.call ∧ call.tool = message.tool := by
  unfold appendToolResult at done
  split at done
  · cases done
  rename_i fresh
  simp only [Checked.bind_eq_ok_iff] at done
  obtain ⟨_, associated, same⟩ := done
  refine ⟨by simpa using same.symm, ?_, ?_⟩
  · simp only [messageExists, Bool.or_eq_true, not_or, any_eq_true, not_exists, not_and,
      decide_eq_true_eq] at fresh
    exact fresh.2
  unfold associateCanonicalToolResult at associated
  split at associated
  · cases associated
  rename_i call found
  split at associated
  · cases associated
  · rename_i agrees
    split at associated
    · cases associated
    · rename_i first
      simp only [not_or, not_not] at agrees
      refine ⟨by simpa using first, call, mem_of_find?_eq_some found, ?_, agrees⟩
      simpa using find?_some found

theorem Valid.appendToolResult (valid : store.Valid) {message : ToolMessageBlock}
    (done : store.appendToolResult message = .ok next) : next.Valid := by
  obtain ⟨same, fresh, first, call, among, agrees⟩ := appendToolResult_ok done
  have ledger : next.ledger = store.ledger ++ [message].map .tool := by rw [same]; rfl
  have calls := toolCalls_append ledger
  have results := toolResults_append ledger
  constructor
  · rw [same]
    exact valid.admitted
  · rw [ledger, map_append, nodup_append]
    refine ⟨valid.ids, by simp, ?_⟩
    intro id member other final same
    obtain ⟨earlier, present, rfl⟩ := mem_map.mp member
    obtain rfl : other = message.id := by simpa [MessageBlock.id] using final
    exact fresh earlier present same
  · rw [calls]
    exact valid.occurrences
  · rw [calls, results]
    exact Assoc.forall_mem_snoc.mpr ⟨valid.results, call, among, agrees⟩
  · rw [results, map_append, nodup_append]
    refine ⟨valid.resultOnce, by simp, ?_⟩
    intro occurrence member other final same
    obtain ⟨earlier, present, rfl⟩ := mem_map.mp member
    rw [map_singleton, mem_singleton] at final
    exact resultOf_eq_none_iff.mp first earlier present (same.trans final)
  · intro id member
    rw [ledger]
    rw [same] at member
    rcases mem_append.mp member with earlier | final
    · obtain ⟨found, present, named⟩ := valid.surface id earlier
      exact ⟨found, mem_append_left _ present, named⟩
    · rw [mem_singleton] at final
      exact ⟨.tool message, by simp, final.symm⟩
  · intro envelope member assistant event
    rw [same] at member
    obtain ⟨content, present⟩ := valid.committed envelope member assistant event
    exact ⟨content, ledger ▸ mem_append_left _ present⟩
  · rw [same]
    exact valid.streams

theorem appendToolResults_ok (done : blocks.foldlM appendToolResult store = .ok next) :
    next = { store with
      ledger := store.ledger ++ blocks.map .tool
      activeMessageIds := store.activeMessageIds ++ blocks.map (·.id) } ∧
    (store.Valid → next.Valid) := by
  induction blocks generalizing store with
  | nil =>
    obtain rfl : store = next := by simpa [pure, Except.pure] using done
    exact ⟨by simp, id⟩
  | cons block blocks ih =>
    simp only [foldlM_cons, Checked.bind_eq_ok_iff] at done
    obtain ⟨middle, first, rest⟩ := done
    obtain ⟨rfl, keeps⟩ := ih rest
    refine ⟨?_, fun valid => keeps (valid.appendToolResult first)⟩
    obtain ⟨rfl, -⟩ := appendToolResult_ok first
    simp

/-- Events that commit no Assistant message leave the tables in order. -/
theorem Valid.persistEvents (valid : store.Valid) {journal : Journal}
    (saved : store.journal.persistEvents events = .ok journal)
    (unrelated : ∀ envelope ∈ events, ∀ message,
      envelope.event ≠ .assistantMessageCommitted message) :
    { store with journal := journal }.Valid := by
  obtain ⟨⟨written, rfl, same⟩, keeps⟩ := Journal.persistEvents_ok saved
  refine ⟨keeps valid.admitted, valid.ids, valid.occurrences, valid.results, valid.resultOnce,
    valid.surface, ?_, valid.streams⟩
  intro envelope member message event
  rcases mem_append.mp member with earlier | last
  · exact valid.committed envelope earlier message event
  · obtain ⟨asked, among, told⟩ := mem_map.mp (same ▸ mem_map_of_mem last)
    exact absurd ((Prod.ext_iff.mp told).2.trans event) (unrelated asked among message)

structure Adds (store : ConversationStore) (commit : Commit) (next : ConversationStore) : Prop where
  conversation : next.conversation = store.conversation
  ledger : next.ledger = store.ledger ++ commit.blocks.map .tool
  surface : next.activeMessageIds = store.activeMessageIds ++ commit.blocks.map (·.id)
  journal : store.journal.persistEvents commit.events = .ok next.journal
  publications : next.publications = commit.settle store.publications
  audited : store.Valid → next.publications.map audited =
    store.publications.map audited
  valid : store.Valid → next.Valid

theorem persistEvents_eq_ok_iff : store.persistEvents events = .ok next ↔
      ∃ journal, store.journal.persistEvents events = .ok journal ∧
        next = { store with journal := journal } := by
  simp only [persistEvents, Checked.bind_eq_ok_iff, Except.ok.injEq]
  constructor
  · rintro ⟨journal, saved, rfl⟩
    exact ⟨journal, saved, rfl⟩
  · rintro ⟨journal, saved, rfl⟩
    exact ⟨journal, saved, rfl⟩

/-- A commit that writes a single event and perhaps an inbound notice. -/
theorem adds_event {attempt : Option AttemptId} {commit : Commit} {pending : List MessageId}
    {correlations : List String}
    (done : { store with pending := pending, correlations := correlations }.persistEvents
      [{ attempt := attempt, event := event }] = .ok next)
    (events : commit.events = [{ attempt := attempt, event := event }])
    (blocks : commit.blocks = []) (settle : commit.settle = fun records => records)
    (unrelated : ∀ message, event ≠ .assistantMessageCommitted message) :
    store.Adds commit next := by
  obtain ⟨journal, saved, rfl⟩ := persistEvents_eq_ok_iff.mp done
  refine ⟨rfl, by simp [blocks], by simp [blocks], by rw [events]; exact saved, by rw [settle],
    fun _ => rfl, ?_⟩
  intro valid
  have kept : { store with pending := pending, correlations := correlations }.Valid :=
    ⟨valid.admitted, valid.ids, valid.occurrences, valid.results, valid.resultOnce,
      valid.surface, valid.committed, valid.streams⟩
  exact kept.persistEvents saved (by simpa using unrelated)

theorem commit_adds {commit : Commit} (done : store.commit commit = .ok next) :
    store.Adds commit next := by
  cases commit with
  | publicationAudit stream =>
    simp only [commit, terminalizePublicationAudit] at done
    split at done
    · cases done
    rename_i record found
    split at done
    · cases done
    rename_i unsettled
    obtain rfl := Except.ok.inj done
    have among := mem_of_find?_eq_some found
    have named : record.stream = stream := by simpa using find?_some found
    refine ⟨rfl, by simp [Commit.blocks], by simp [Commit.blocks], rfl, rfl, ?_, ?_⟩
    · intro valid
      rw [map_map]
      apply map_congr_left
      intro other member
      simp only [Function.comp_apply]
      split
      · rename_i same
        obtain rfl : other = record :=
          inj_on_of_nodup_map valid.streams member among (same.trans named.symm)
        simp [audited, unsettled, auditKind]
      · rfl
    intro valid
    refine ⟨valid.admitted, valid.ids, valid.occurrences, valid.results,
      valid.resultOnce, valid.surface, valid.committed, ?_⟩
    have same : ∀ records,
        (Commit.settle (.publicationAudit stream) records).map
          PublicationStreamRecord.stream = records.map PublicationStreamRecord.stream := by
      intro records
      rw [Commit.settle, map_map]
      apply map_congr_left
      intro record _
      simp only [Function.comp_apply]
      split <;> rfl
    exact (same _).symm ▸ valid.streams
  | toolTurn repair =>
    simp only [commit, appendCanonicalBatchWithEvents, Checked.bind_eq_ok_iff] at done
    obtain ⟨middle, appended, saved⟩ := done
    obtain ⟨rfl, keeps⟩ := appendToolResults_ok appended
    obtain ⟨journal, written, rfl⟩ := persistEvents_eq_ok_iff.mp saved
    refine ⟨rfl, rfl, rfl, written, rfl, fun _ => rfl, ?_⟩
    intro valid
    apply (keeps valid).persistEvents written
    intro envelope member message
    obtain ⟨missing, -, rfl⟩ := mem_map.mp member
    simp
  | attemptTerminal attempt diagnostic =>
    exact adds_event done rfl rfl rfl (by simp)
  | backgroundTerminal execution =>
    simp only [commit, acceptInboundWithEvent] at done
    split at done
    · cases done
    · split at done
      · cases done
      · exact adds_event done rfl rfl rfl (by simp)
  | subagentTerminal subagent ownership =>
    cases ownership with
    | normal =>
      simp only [commit, acceptInboundWithEvent] at done
      split at done
      · cases done
      · split at done
        · cases done
        · exact adds_event done rfl rfl rfl (by simp)
    | workflow => exact adds_event done rfl rfl rfl (by simp)

structure AddsAll (store : ConversationStore) (commits : List Commit) (next : ConversationStore) :
    Prop where
  conversation : next.conversation = store.conversation
  ledger : next.ledger = store.ledger ++ (commits.flatMap Commit.blocks).map .tool
  surface : next.activeMessageIds =
    store.activeMessageIds ++ (commits.flatMap Commit.blocks).map (·.id)
  journal : ∃ written, next.journal = store.journal ++ written ∧
    written.map RuntimeEventEnvelope.fact =
      (commits.flatMap Commit.events).map RuntimeEventEnvelope.fact
  publications : next.publications =
    commits.foldl (fun records commit => commit.settle records) store.publications
  audited : store.Valid → next.publications.map audited =
    store.publications.map audited
  valid : store.Valid → next.Valid

theorem commitAll_adds (done : store.commitAll commits = .ok next) :
    store.AddsAll commits next := by
  induction commits generalizing store with
  | nil =>
    obtain rfl : store = next := by simpa [commitAll, pure, Except.pure] using done
    exact ⟨rfl, by simp, by simp, ⟨[], by simp⟩, rfl, fun _ => rfl, id⟩
  | cons commit commits ih =>
    simp only [commitAll, foldlM_cons, Checked.bind_eq_ok_iff] at done
    obtain ⟨middle, first, rest⟩ := done
    have adds := commit_adds first
    have later := ih rest
    obtain ⟨⟨early, begun, asked⟩, -⟩ := Journal.persistEvents_ok adds.journal
    obtain ⟨written, continued, same⟩ := later.journal
    refine ⟨later.conversation.trans adds.conversation, ?_, ?_, ⟨early ++ written, ?_, ?_⟩, ?_,
      fun valid => (later.audited (adds.valid valid)).trans (adds.audited valid),
      fun valid => later.valid (adds.valid valid)⟩
    · rw [later.ledger, adds.ledger, flatMap_cons, map_append, append_assoc]
    · rw [later.surface, adds.surface, flatMap_cons, map_append, append_assoc]
    · rw [continued, begun, append_assoc]
    · rw [map_append, flatMap_cons, map_append, asked, same]
    · rw [later.publications, adds.publications, foldl_cons]

end ConversationStore

end RustX.Recovery
