import RustX.Inbox.Store

/-!
What each transaction of the inbox does to the tables when it commits.
-/
namespace RustX.Inbox

open Checked

open Recovery (AttemptId ConversationId MessageId GoalRef)

def RuntimeEvent.adoptedIds : RuntimeEvent → Option (List MessageId)
  | .inboundTurnAdopted messages => some messages
  | _ => none

namespace InboxStore

variable {store next : InboxStore} {message : MessageBlock} {cursor : Option Nat}
  {draft : InboundDraft} {receipt : AcceptedInbound}

def adoptedTurns (store : InboxStore) : List (List MessageId) :=
  store.journal.filterMap fun envelope => envelope.event.adoptedIds

/-- The transcript after a message took its place in it. -/
structure Shows (store : InboxStore) (message : MessageBlock) (next : InboxStore)
    (cursor : Option Nat) : Prop where
  visible : cursor.isSome = transcriptVisibleMessage message
  lookup : ∀ id, next.transcript.lookup id =
    if id = message.id ∧ transcriptVisibleMessage message = true then cursor
    else store.transcript.lookup id
  rest : next = { store with
    transcript := next.transcript
    nextTranscriptPosition := next.nextTranscriptPosition
    retainedTranscriptCount := next.retainedTranscriptCount }

theorem appendTranscriptReference_eq {id : MessageId}
    (known : store.transcript.lookup id = some position) :
    store.appendTranscriptReference id = .ok (store, position) := by
  simp [appendTranscriptReference, known]

theorem appendVisibleReference_ok
    (done : store.appendVisibleReference message = .ok (next, cursor)) :
    Shows store message next cursor := by
  unfold appendVisibleReference at done
  split at done
  · rename_i visible
    obtain ⟨⟨written, position⟩, took, result⟩ := bind_eq_ok_iff.mp done
    obtain ⟨rfl, rfl⟩ := result
    unfold appendTranscriptReference at took
    split at took
    · rename_i known found
      cases took
      refine ⟨by simp [visible], fun id => ?_, rfl⟩
      split
      · rename_i same
        rw [same.1, found]
      · rfl
    · rename_i unknown
      dsimp only at took
      split at took
      · cases took
      cases took
      refine ⟨by simp [visible], fun id => ?_, rfl⟩
      rw [List.lookup_append]
      by_cases same : id = message.id
      · subst same
        simp [unknown, visible]
      · have differs : (id == message.id) = false := by simpa using same
        simp [same, List.lookup, differs]
  · rename_i hidden
    cases done
    exact ⟨by simp [hidden], fun id => by simp [hidden], rfl⟩

/-- The tables that the inbox is about, unchanged. -/
structure Same (store next : InboxStore) : Prop where
  pending : next.pending = store.pending
  sequence : next.nextInboundSequence = store.nextInboundSequence
  count : next.pendingObservationCount = store.pendingObservationCount
  correlations : next.correlations = store.correlations
  ledger : next.ledger = store.ledger
  transcript : next.transcript = store.transcript
  turns : next.adoptedTurns = store.adoptedTurns
  journal : store.journal <+: next.journal

theorem Same.refl (store : InboxStore) : Same store store :=
  ⟨rfl, rfl, rfl, rfl, rfl, rfl, rfl, List.prefix_rfl⟩

/-- Changes of the goal, and events that are no adoptions, are none of the inbox. -/
theorem Same.of_tables {journal : List RuntimeEventEnvelope} {goal : Option GoalSnapshot}
    (tables : next = { store with journal := journal, goal := goal })
    (turns : next.adoptedTurns = store.adoptedTurns) (grows : store.journal <+: next.journal) :
    Same store next := by
  subst tables
  exact ⟨rfl, rfl, rfl, rfl, rfl, rfl, turns, grows⟩

theorem identify_event (envelope : RuntimeEventEnvelope) (eventId : String) :
    (envelope.identify eventId).event = envelope.event := by
  unfold RuntimeEventEnvelope.identify
  split <;> rfl

variable {persisted : RuntimeEventEnvelope}

section

variable (done : store.persistEvent envelope = .ok (next, persisted))
include done

theorem persistEvent_ok : next = { store with journal := store.journal ++ [persisted] } ∧
      persisted.event = envelope.event := by
  unfold persistEvent at done
  dsimp only at done
  split at done
  · cases done
  · cases done
    exact ⟨rfl, identify_event envelope _⟩

theorem persistEvent_grows : store.journal <+: next.journal := by
  obtain ⟨rfl, -⟩ := persistEvent_ok done
  exact List.prefix_append _ _

theorem persistEvent_turns :
    next.adoptedTurns = store.adoptedTurns ++ envelope.event.adoptedIds.toList := by
  obtain ⟨rfl, same⟩ := persistEvent_ok done
  rw [adoptedTurns, List.filterMap_append, ← same]
  cases event : persisted.event.adoptedIds <;> simp [adoptedTurns, event]

theorem persistEvent_same (quiet : envelope.event.adoptedIds = none) : Same store next := by
  have turns := persistEvent_turns done
  rw [quiet, Option.toList_none, List.append_nil] at turns
  exact .of_tables (persistEvent_ok done).1 turns (persistEvent_grows done)

end

structure Accepts (store : InboxStore) (draft : InboundDraft) (receipt : AcceptedInbound)
    (next : InboxStore) : Prop where
  content : draft.content ≠ []
  named : draft.messageId.all (· = receipt.messageId) = true
  absent : store.messageExists receipt.messageId = false
  unkeyed : ∀ key, draft.correlation = some key → store.correlations.lookup key = none
  fresh : receipt.retried = false
  number : receipt.sequence = store.nextInboundSequence + 1
  message : receipt.message =
    { id := receipt.messageId, content := draft.content, source := draft.source
      kind := draft.kind, timestamp := some draft.timestamp }
  visible : receipt.transcriptCursor.isSome = !draft.kind.isContext
  pending : next.pending = store.pending ++
    [{ sequence := receipt.sequence, revision := 0, messageId := receipt.messageId
       message := receipt.message, correlation := draft.correlation }]
  sequence : next.nextInboundSequence = receipt.sequence
  count : next.pendingObservationCount = store.pendingObservationCount + 1
  correlations : next.correlations = store.correlations ++
    (draft.correlation.map fun key => (key, receipt.sequence, receipt.messageId)).toList
  ledger : next.ledger = store.ledger
  transcript : ∀ id, next.transcript.lookup id =
    if id = receipt.messageId ∧ draft.kind.isContext = false then receipt.transcriptCursor
    else store.transcript.lookup id
  turns : next.adoptedTurns = store.adoptedTurns
  journal : store.journal <+: next.journal

theorem acceptNew_ok (content : draft.content ≠ [])
    (unkeyed : ∀ key, draft.correlation = some key → store.correlations.lookup key = none)
    (done : store.acceptNew draft = .ok (next, receipt)) : Accepts store draft receipt next := by
  unfold acceptNew at done
  dsimp only at done
  split at done
  · cases done
  split at done
  · cases done
  rename_i absent
  obtain ⟨inserted, into, rest⟩ := bind_eq_ok_iff.mp done
  obtain ⟨⟨shown, cursor⟩, took, result⟩ := bind_eq_ok_iff.mp rest
  cases result
  have shows := appendVisibleReference_ok took
  unfold insertPending at into
  split at into
  · cases into
  cases into
  have kept := shows.rest
  refine ⟨content, ?_, by simpa using absent, unkeyed, rfl, rfl, rfl, ?_, ?_, ?_, ?_, ?_, ?_,
    ?_, ?_, ?_⟩
  · cases draft.messageId <;> simp
  · simpa [transcriptVisibleMessage] using shows.visible
  · rw [kept]
  · rw [kept]
  · rw [kept]
  · rw [kept]
  · rw [kept]
  · intro id
    simpa [transcriptVisibleMessage, MessageBlock.id] using shows.lookup id
  · rw [kept]
    rfl
  · rw [kept]

/-- A retry changes nothing, and returns the acceptance that its key stands for. -/
structure Retries (store : InboxStore) (draft : InboundDraft) (receipt : AcceptedInbound)
    (next : InboxStore) : Prop where
  same : next = store
  retried : receipt.retried = true
  known : ∃ key, draft.correlation = some key ∧
    store.correlations.lookup key = some (receipt.sequence, receipt.messageId)

theorem acceptScheduledInboundTx_ok
    (done : store.acceptScheduledInboundTx draft = .ok (next, receipt)) :
    Accepts store draft receipt next ∨ Retries store draft receipt next := by
  unfold acceptScheduledInboundTx at done
  split at done
  · cases done
  rename_i content
  split at done
  · rename_i uncorrelated
    exact .inl (acceptNew_ok content (by simp [uncorrelated]) done)
  rename_i key correlated
  split at done
  · rename_i unknown
    refine .inl (acceptNew_ok content (fun other same => ?_) done)
    rw [correlated] at same
    cases same
    exact unknown
  · rename_i sequence id known
    obtain ⟨accepted, retried, result⟩ := bind_eq_ok_iff.mp done
    cases result
    obtain ⟨message, -, rest⟩ := bind_eq_ok_iff.mp retried
    split at rest
    · cases rest
    · split at rest
      · cases rest
        exact .inr ⟨rfl, rfl, key, correlated, known⟩
      · split at rest
        · cases rest
        · cases rest
          exact .inr ⟨rfl, rfl, key, correlated, known⟩

theorem acceptInboundTx_ok (done : store.acceptInboundTx draft = .ok (next, receipt)) :
    Accepts store draft receipt next ∨ Retries store draft receipt next := by
  unfold acceptInboundTx at done
  split at done
  · cases done
  · exact acceptScheduledInboundTx_ok done

theorem Accepts.then_same (accepts : Accepts store draft receipt next) (same : Same next last) :
    Accepts store draft receipt last :=
  { accepts with
    pending := same.pending.trans accepts.pending
    sequence := same.sequence.trans accepts.sequence
    count := same.count.trans accepts.count
    correlations := same.correlations.trans accepts.correlations
    ledger := same.ledger.trans accepts.ledger
    transcript := fun id => by rw [same.transcript]; exact accepts.transcript id
    turns := same.turns.trans accepts.turns
    journal := accepts.journal.trans same.journal }

theorem acceptInboundWithEvent_ok
    (done : store.acceptInboundWithEvent draft envelope = .ok (next, receipt, persisted)) :
    Accepts store draft receipt next ∨ Retries store draft receipt next := by
  unfold acceptInboundWithEvent at done
  obtain ⟨-, -, rest⟩ := bind_eq_ok_iff.mp done
  split at rest
  · rename_i execution message event
    dsimp only at rest
    obtain ⟨⟨taken, accepted⟩, took, rest⟩ := bind_eq_ok_iff.mp rest
    dsimp only at rest
    split at rest
    · cases rest
    split at rest
    · split at rest
      · cases rest
      · split at rest
        · cases rest
        · cases rest
          exact acceptInboundTx_ok took
    · rename_i new
      obtain ⟨-, -, rest⟩ := bind_eq_ok_iff.mp rest
      obtain ⟨⟨written, stored⟩, wrote, result⟩ := bind_eq_ok_iff.mp rest
      cases result
      rcases acceptInboundTx_ok took with accepts | retries
      · exact .inl (accepts.then_same (persistEvent_same wrote (by
          rw [identify_event, event]
          rfl)))
      · exact absurd retries.retried new
  · cases rest

theorem acceptGoalRound_ok (done : store.acceptGoalRound expected draft = .ok (next, accepted)) :
    (accepted = none ∧ next = store) ∨
      ∃ receipt, accepted = some receipt ∧ Accepts store draft receipt next := by
  unfold acceptGoalRound at done
  split at done
  · cases done
    exact .inl ⟨rfl, rfl⟩
  rename_i goal held
  split at done
  · cases done
    exact .inl ⟨rfl, rfl⟩
  split at done
  · cases done
    exact .inl ⟨rfl, rfl⟩
  split at done
  · cases done
  obtain ⟨⟨taken, receipt⟩, took, rest⟩ := bind_eq_ok_iff.mp done
  dsimp only at rest
  split at rest
  · cases rest
  rename_i new
  split at rest
  · cases rest
  obtain ⟨⟨written, stored⟩, wrote, result⟩ := bind_eq_ok_iff.mp rest
  cases result
  rcases acceptInboundTx_ok took with accepts | retries
  · have counted : Same taken
        { taken with goal := some (goal.admitRound receipt.messageId) } :=
      .of_tables rfl rfl List.prefix_rfl
    exact .inr ⟨receipt, rfl, (accepts.then_same counted).then_same (persistEvent_same wrote rfl)⟩
  · exact absurd retries.retried new

theorem acceptScheduled_ok (done : store.acceptScheduled draft = .ok (next, receipt)) :
    Accepts store draft receipt next := by
  obtain ⟨⟨taken, accepted⟩, took, rest⟩ := bind_eq_ok_iff.mp done
  dsimp only at rest
  split at rest
  · cases rest
  · rename_i new
    cases rest
    exact (acceptScheduledInboundTx_ok took).resolve_right fun retries => new retries.retried

structure Edits (store : InboxStore) (row : PendingRow) (text : String) (next : InboxStore) :
    Prop where
  held : row ∈ store.pending
  uncorrelated : row.correlation = none
  pending : ∃ revision, next.pending = store.pending.map fun other =>
    if other.sequence = row.sequence then
      { other with message := { row.message with content := [.text text] }, revision }
    else other
  rest : next = { store with pending := next.pending }

structure Removes (store : InboxStore) (row : PendingRow) (next : InboxStore) : Prop where
  held : row ∈ store.pending
  uncorrelated : row.correlation = none
  pending : next.pending = store.pending.filter fun other => other.sequence ≠ row.sequence
  transcript : ∀ id, next.transcript.lookup id =
    if id = row.messageId then none else store.transcript.lookup id
  rest : next = { store with
    pending := next.pending
    transcript := next.transcript
    retainedTranscriptCount := store.retainedTranscriptCount - 1
    pendingObservationCount := store.pendingObservationCount - 1 }

theorem mutatePending_ok (done : store.mutatePending expected text = .ok (next, outcome)) :
    (outcome ≠ .applied ∧ next = store) ∨
      outcome = .applied ∧ ∃ row, row.sequence = expected.sequence ∧ match text with
        | some text => Edits store row text next
        | none => Removes store row next := by
  unfold mutatePending at done
  split at done
  · cases done
    exact .inl ⟨by simp, rfl⟩
  rename_i row found
  have held := List.mem_of_find?_eq_some found
  have number : row.sequence = expected.sequence := by simpa using List.find?_some found
  split at done
  · cases done
    exact .inl ⟨by simp, rfl⟩
  obtain ⟨item, exact_, rest⟩ := bind_eq_ok_iff.mp done
  obtain rfl : item = store.pendingItem row := by
    unfold loadPendingExact at exact_
    dsimp only at exact_
    split at exact_
    · cases exact_
    · cases exact_
      rfl
  split at rest
  · cases rest
    exact .inl ⟨by simp, rfl⟩
  rename_i mutable
  have uncorrelated : row.correlation = none := by
    simp only [not_or] at mutable
    simpa [pendingItem] using mutable.2.2
  split at rest
  · split at rest
    · cases rest
      exact .inl ⟨by simp, rfl⟩
    · obtain ⟨written, wrote, result⟩ := bind_eq_ok_iff.mp rest
      cases result
      unfold rewritePendingBody at wrote
      split at wrote
      · cases wrote
      · cases wrote
        exact .inr ⟨rfl, row, number, held, uncorrelated, ⟨_, rfl⟩, rfl⟩
  · cases rest
    refine .inr ⟨rfl, row, number, held, uncorrelated, rfl, fun id => ?_, rfl⟩
    by_cases same : id = row.messageId
    · subst same
      rw [if_pos rfl]
      exact Assoc.lookup_filter_self _ _
    · rw [if_neg same]
      exact Assoc.lookup_filter_ne _ same

structure Adopts (store : InboxStore) (watermark : Nat) (items : List PendingInboundItem)
    (next : InboxStore) : Prop where
  batch : items = (store.pending.map store.pendingItem).filter fun item => item.sequence ≤ watermark
  pending : next.pending = store.pending.filter fun row => watermark < row.sequence
  ledger : next.ledger = store.ledger ++ items.map fun item => .user item.message
  count : next.pendingObservationCount = store.pendingObservationCount - items.length
  sequence : next.nextInboundSequence = store.nextInboundSequence
  correlations : next.correlations = store.correlations
  transcript : next.transcript = store.transcript
  turns : next.adoptedTurns = store.adoptedTurns ++
    if items = [] then [] else [items.map fun item => item.messageId]
  journal : store.journal <+: next.journal

/-- A row whose message keeps its place only enters the ledger. -/
theorem adoptItem_ok {item : PendingInboundItem} (checked : checkPendingItem item = .ok ())
    (place : item.transcriptCursor = store.transcript.lookup item.messageId)
    (done : store.adoptItem item = .ok next) :
    next = { store with ledger := store.ledger ++ [.user item.message] } := by
  have id : item.message.id = item.messageId ∧
      item.message.kind.isContext ≠ item.transcriptCursor.isSome := by
    unfold checkPendingItem at checked
    split at checked
    · cases checked
    · rename_i named
      split at checked
      · cases checked
      · exact ⟨by simpa using named, by assumption⟩
  obtain ⟨⟨appended, cursor⟩, append, rest⟩ := bind_eq_ok_iff.mp done
  dsimp only at rest
  split at rest
  · cases rest
  cases rest
  unfold appendMessageLedger at append
  split at append
  · cases append
  split at append
  · cases append
  unfold appendVisibleReference at append
  cases kind : item.message.kind.isContext with
  | true =>
    rw [if_neg (by simp [transcriptVisibleMessage, kind])] at append
    cases append
    rfl
  | false =>
    rw [if_pos (by simp [transcriptVisibleMessage, kind])] at append
    have seen : item.transcriptCursor.isSome = true := by
      simpa [kind, Option.isSome_iff_ne_none] using id.2
    obtain ⟨position, known⟩ := Option.isSome_iff_exists.mp seen
    rw [place, ← id.1] at known
    have took : ∀ appended : InboxStore, appended.transcript = store.transcript →
        appended.appendTranscriptReference item.message.id = .ok (appended, position) :=
      fun appended same => appendTranscriptReference_eq (by rw [same, known])
    rw [show (MessageBlock.user item.message).id = item.message.id from rfl,
      took { store with ledger := store.ledger ++ [.user _] } rfl] at append
    cases append
    rfl

variable {items : List PendingInboundItem}

theorem adoptItems_ok (checked : ∀ item ∈ items, checkPendingItem item = .ok ())
    (places : ∀ item ∈ items, item.transcriptCursor = store.transcript.lookup item.messageId)
    (done : items.foldlM adoptItem store = .ok next) :
    next = { store with ledger := store.ledger ++ items.map fun item => .user item.message } := by
  induction items generalizing store with
  | nil =>
    cases done
    simp
  | cons item items ih =>
    obtain ⟨appended, first, rest⟩ := bind_eq_ok_iff.mp done
    obtain rfl := adoptItem_ok (checked item (by simp)) (places item (by simp)) first
    refine (ih (fun other member => checked other (by simp [member])) ?_ rest).trans (by simp)
    exact fun other member => places other (by simp [member])

theorem loadPendingRows_ok (done : store.loadPendingRows = .ok items) :
    items = store.pending.map store.pendingItem ∧
      ∀ item ∈ items, checkPendingItem item = .ok () := by
  obtain ⟨_, checked, result⟩ := bind_eq_ok_iff.mp done
  cases result
  exact ⟨rfl, forM_eq_ok_iff.mp checked⟩

theorem adoptPendingBatch_ok (done : store.adoptPendingBatch watermark attempt = .ok (next, items)) :
    Adopts store watermark items next := by
  obtain ⟨loaded, load, rest⟩ := bind_eq_ok_iff.mp done
  obtain ⟨rows, read, kept⟩ := bind_eq_ok_iff.mp load
  cases kept
  obtain ⟨rfl, checked⟩ := loadPendingRows_ok read
  obtain ⟨appended, fold, rest⟩ := bind_eq_ok_iff.mp rest
  have places : ∀ item ∈ (store.pending.map store.pendingItem).filter
      (fun item => item.sequence ≤ watermark),
      item.transcriptCursor = store.transcript.lookup item.messageId := by
    intro item member
    obtain ⟨row, -, rfl⟩ := List.mem_map.mp (List.mem_of_mem_filter member)
    rfl
  obtain rfl := adoptItems_ok
    (fun item member => checked item (List.mem_of_mem_filter member)) places fold
  split at rest
  · rename_i empty
    cases rest
    refine ⟨rfl, rfl, rfl, rfl, rfl, rfl, rfl, ?_, List.prefix_rfl⟩
    rw [if_pos empty, List.append_nil]
    rfl
  · rename_i some_
    obtain ⟨⟨written, persisted⟩, wrote, result⟩ := bind_eq_ok_iff.mp rest
    cases result
    have turns := persistEvent_turns wrote
    have grows := persistEvent_grows wrote
    obtain ⟨rfl, -⟩ := persistEvent_ok wrote
    refine ⟨rfl, rfl, rfl, rfl, rfl, rfl, rfl, ?_, grows⟩
    rw [turns, if_neg some_]
    rfl

structure Appends (store : InboxStore) (message : MessageBlock) (next : InboxStore) : Prop where
  absent : store.messageExists message.id = false
  ledger : next.ledger = store.ledger ++ [message]
  transcript : ∀ id, id ≠ message.id → next.transcript.lookup id = store.transcript.lookup id
  visible : transcriptVisibleMessage message = true →
    (next.transcript.lookup message.id).isSome = true
  rest : next = { store with
    ledger := next.ledger
    transcript := next.transcript
    nextTranscriptPosition := next.nextTranscriptPosition
    retainedTranscriptCount := next.retainedTranscriptCount }

theorem appendCanonical_ok (done : store.appendCanonical message = .ok next) :
    Appends store message next := by
  obtain ⟨⟨appended, cursor⟩, append, result⟩ := bind_eq_ok_iff.mp done
  cases result
  unfold appendMessageLedger at append
  split at append
  · cases append
  rename_i unowned
  split at append
  · cases append
  rename_i unknown
  have shows := appendVisibleReference_ok append
  have kept := shows.rest
  refine ⟨?_, by rw [kept], fun id other => ?_, fun visible => ?_, kept.trans ?_⟩
  · have absent : store.pendingMessageExists message.id = false := by
      simpa using unowned
    simp [messageExists, absent, unknown]
  · rw [shows.lookup, if_neg fun same => other same.1]
  · rw [shows.lookup, if_pos ⟨rfl, visible⟩, shows.visible, visible]
  · rw [kept]

theorem writeGoal_ok {goal : GoalSnapshot} (done : store.writeGoal goal = .ok next) :
    Same store next := by
  obtain ⟨⟨written, persisted⟩, wrote, result⟩ := bind_eq_ok_iff.mp done
  cases result
  have turns := persistEvent_turns wrote
  have grows := persistEvent_grows wrote
  obtain ⟨rfl, -⟩ := persistEvent_ok wrote
  refine .of_tables rfl (turns.trans ?_) grows
  simp [RuntimeEvent.adoptedIds, adoptedTurns]

end InboxStore

end RustX.Inbox
