import RustX.Inbox.Changes

/-!
What becomes of accepted work over any sequence of transactions: it is neither lost nor
duplicated between its acceptance and its adoption.
-/
namespace RustX.Inbox

open InboxStore Checked List

open Recovery (AttemptId ConversationId MessageId GoalRef)

/-- The transactions on the inbox tables. -/
inductive Operation
  | acceptInbound (draft : InboundDraft)
  | acceptInboundWithEvent (draft : InboundDraft) (envelope : RuntimeEventEnvelope)
  | acceptGoalRound (expected : GoalRef) (draft : InboundDraft)
  | acceptScheduled (draft : InboundDraft)
  | editPending (expected : PendingInboundRef) (text : String)
  | removePending (expected : PendingInboundRef)
  | adoptPendingBatch (watermark : Nat) (attempt : Option AttemptId)
  | appendCanonical (message : MessageBlock)
  | writeGoal (goal : GoalSnapshot)

/-- What a committed transaction did to accepted work. -/
inductive Effect
  | accepted (draft : InboundDraft) (receipt : AcceptedInbound)
  | edited (sequence : Nat) (text : String)
  | removed (sequence : Nat)
  | adopted (items : List PendingInboundItem)
  | none
  deriving DecidableEq

def PendingMutationOutcome.effect (outcome : PendingMutationOutcome) (applied : Effect) : Effect :=
  match outcome with
  | .applied => applied
  | _ => .none

namespace InboxStore

def perform (store : InboxStore) : Operation → Stored (InboxStore × Effect)
  | .acceptInbound draft => do
    let (next, receipt) ← store.acceptInbound draft
    .ok (next, .accepted draft receipt)
  | .acceptInboundWithEvent draft envelope => do
    let (next, receipt, _) ← store.acceptInboundWithEvent draft envelope
    .ok (next, .accepted draft receipt)
  | .acceptGoalRound expected draft => do
    let (next, receipt) ← store.acceptGoalRound expected draft
    .ok (next, receipt.elim .none (.accepted draft))
  | .acceptScheduled draft => do
    let (next, receipt) ← store.acceptScheduled draft
    .ok (next, .accepted draft receipt)
  | .editPending expected text => do
    let (next, outcome) ← store.editPending expected text
    .ok (next, outcome.effect (.edited expected.sequence text))
  | .removePending expected => do
    let (next, outcome) ← store.removePending expected
    .ok (next, outcome.effect (.removed expected.sequence))
  | .adoptPendingBatch watermark attempt => do
    let (next, items) ← store.adoptPendingBatch watermark attempt
    .ok (next, .adopted items)
  | .appendCanonical message => do
    let next ← store.appendCanonical message
    .ok (next, .none)
  | .writeGoal goal => do
    let next ← store.writeGoal goal
    .ok (next, .none)

/-- A conversation into which nothing has been accepted. -/
def empty (conversation : ConversationId) (goal : Option GoalSnapshot) : InboxStore :=
  { conversation, pending := [], nextInboundSequence := 0, pendingObservationCount := 0
    correlations := [], ledger := [], transcript := [], nextTranscriptPosition := 0
    retainedTranscriptCount := 0, goal, journal := [] }

/-- One transaction commits, or rolls back and leaves the tables as they were. -/
def Steps (store : InboxStore) (effect : Effect) (next : InboxStore) : Prop :=
  (∃ operation, store.perform operation = .ok (next, effect)) ∨ (effect = .none ∧ next = store)

end InboxStore

/-- Any sequence of transactions, with what each of them did. -/
inductive Run (start : InboxStore) : List Effect → InboxStore → Prop
  | start : Run start [] start
  | step {history : List Effect} {store next : InboxStore} {effect : Effect} :
      Run start history store → store.Steps effect next → Run start (history ++ [effect]) next

namespace Effect

def acceptance : Effect → Option (InboundDraft × AcceptedInbound)
  | .accepted draft receipt => if receipt.retried then Option.none else some (draft, receipt)
  | _ => Option.none

def adoption : Effect → Option (List PendingInboundItem)
  | .adopted items => some items
  | _ => Option.none

def removal : Effect → Option Nat
  | .removed sequence => some sequence
  | _ => Option.none

def textOf (sequence : Nat) : Effect → Option String
  | .edited other text => if other = sequence then some text else Option.none
  | _ => Option.none

end Effect

section

variable (history : List Effect)

def accepted : List (InboundDraft × AcceptedInbound) :=
  history.filterMap Effect.acceptance

def adoptions : List (List PendingInboundItem) :=
  history.filterMap Effect.adoption

def adopted : List PendingInboundItem :=
  (adoptions history).flatten

def removed : List Nat :=
  history.filterMap Effect.removal

/-- The text of the last edit of an accepted message. -/
def lastText (sequence : Nat) : Option String :=
  history.reverse.findSome? (Effect.textOf sequence)

def body (receipt : AcceptedInbound) : UserMessageBlock :=
  match lastText history receipt.sequence with
  | none => receipt.message
  | some text => { receipt.message with content := [.text text] }

end

section History

variable (history : List Effect) (effect : Effect)

@[simp] theorem accepted_snoc : accepted (history ++ [effect]) =
    accepted history ++ effect.acceptance.toList := by
  rw [accepted, filterMap_append]
  cases same : effect.acceptance <;> simp [accepted, same]

@[simp] theorem adoptions_snoc : adoptions (history ++ [effect]) =
    adoptions history ++ effect.adoption.toList := by
  rw [adoptions, filterMap_append]
  cases same : effect.adoption <;> simp [adoptions, same]

@[simp] theorem adopted_snoc : adopted (history ++ [effect]) =
    adopted history ++ effect.adoption.getD [] := by
  rw [adopted, adoptions_snoc, flatten_append]
  cases effect.adoption <;> simp [adopted]

@[simp] theorem removed_snoc : removed (history ++ [effect]) =
    removed history ++ effect.removal.toList := by
  rw [removed, filterMap_append]
  cases same : effect.removal <;> simp [removed, same]

@[simp] theorem lastText_snoc (sequence : Nat) : lastText (history ++ [effect]) sequence =
    (effect.textOf sequence).or (lastText history sequence) := by
  rw [lastText, reverse_append, reverse_singleton, singleton_append, findSome?_cons]
  cases effect.textOf sequence <;> rfl

theorem body_snoc {receipt : AcceptedInbound} (unedited : effect.textOf receipt.sequence = none) :
    body (history ++ [effect]) receipt = body history receipt := by
  rw [body, lastText_snoc, unedited, Option.none_or, body]

end History

namespace InboxStore

variable {store next : InboxStore}

inductive Change (store : InboxStore) : Effect → InboxStore → Prop
  | same {next : InboxStore} : Same store next → Change store .none next
  | retried {draft : InboundDraft} {receipt : AcceptedInbound} : receipt.retried = true →
      Change store (.accepted draft receipt) store
  | accepted {draft : InboundDraft} {receipt : AcceptedInbound} {next : InboxStore} :
      Accepts store draft receipt next → Change store (.accepted draft receipt) next
  | edited {row : PendingRow} {text : String} {next : InboxStore} : Edits store row text next →
      Change store (.edited row.sequence text) next
  | removed {row : PendingRow} {next : InboxStore} : Removes store row next →
      Change store (.removed row.sequence) next
  | adopted {watermark : Nat} {items : List PendingInboundItem} {next : InboxStore} :
      Adopts store watermark items next → Change store (.adopted items) next
  | appended {message : MessageBlock} {next : InboxStore} : Appends store message next →
      Change store .none next

theorem change_of_accept
    (either : Accepts store draft receipt next ∨ Retries store draft receipt next) :
    Change store (.accepted draft receipt) next := by
  rcases either with accepts | retries
  · exact .accepted accepts
  · rw [retries.same]
    exact .retried retries.retried

theorem perform_change (done : store.perform operation = .ok (next, effect)) :
    Change store effect next := by
  cases operation with
  | acceptInbound draft =>
    obtain ⟨⟨taken, receipt⟩, took, result⟩ := bind_eq_ok_iff.mp done
    cases result
    obtain ⟨-, -, took⟩ := bind_eq_ok_iff.mp took
    exact change_of_accept (acceptInboundTx_ok took)
  | acceptInboundWithEvent draft envelope =>
    obtain ⟨⟨taken, receipt, persisted⟩, took, result⟩ := bind_eq_ok_iff.mp done
    cases result
    exact change_of_accept (acceptInboundWithEvent_ok took)
  | acceptGoalRound expected draft =>
    obtain ⟨⟨taken, accepted⟩, took, result⟩ := bind_eq_ok_iff.mp done
    cases result
    rcases acceptGoalRound_ok took with ⟨rfl, rfl⟩ | ⟨receipt, rfl, accepts⟩
    · exact .same (.refl _)
    · exact .accepted accepts
  | acceptScheduled draft =>
    obtain ⟨⟨taken, receipt⟩, took, result⟩ := bind_eq_ok_iff.mp done
    cases result
    exact .accepted (acceptScheduled_ok took)
  | editPending expected text =>
    obtain ⟨⟨taken, outcome⟩, took, result⟩ := bind_eq_ok_iff.mp done
    cases result
    rcases mutatePending_ok took with ⟨refused, rfl⟩ | ⟨rfl, row, same, edits⟩
    · cases outcome <;> first | exact absurd rfl refused | exact .same (.refl _)
    · rw [← same]
      exact .edited edits
  | removePending expected =>
    obtain ⟨⟨taken, outcome⟩, took, result⟩ := bind_eq_ok_iff.mp done
    cases result
    rcases mutatePending_ok took with ⟨refused, rfl⟩ | ⟨rfl, row, same, removes⟩
    · cases outcome <;> first | exact absurd rfl refused | exact .same (.refl _)
    · rw [← same]
      exact .removed removes
  | adoptPendingBatch watermark attempt =>
    obtain ⟨⟨taken, items⟩, took, result⟩ := bind_eq_ok_iff.mp done
    cases result
    exact .adopted (adoptPendingBatch_ok took)
  | appendCanonical message =>
    obtain ⟨taken, took, result⟩ := bind_eq_ok_iff.mp done
    cases result
    exact .appended (appendCanonical_ok took)
  | writeGoal goal =>
    obtain ⟨taken, took, result⟩ := bind_eq_ok_iff.mp done
    cases result
    exact .same (writeGoal_ok took)

theorem Steps.change (steps : store.Steps effect next) : Change store effect next := by
  rcases steps with ⟨operation, done⟩ | ⟨rfl, rfl⟩
  · exact perform_change done
  · exact .same (.refl _)

end InboxStore

abbrev Acceptance := InboundDraft × AcceptedInbound

/-- A row is what an acceptance became through its edits, at the place it was given. -/
structure Holds (history : List Effect) (store : InboxStore) (entry : Acceptance)
    (row : PendingRow) : Prop where
  sequence : row.sequence = entry.2.sequence
  messageId : row.messageId = entry.2.messageId
  message : row.message = body history entry.2
  correlation : row.correlation = entry.1.correlation
  cursor : store.transcript.lookup row.messageId = entry.2.transcriptCursor

structure Receipted (entry : Acceptance) : Prop where
  content : entry.1.content ≠ []
  named : entry.1.messageId.all (· = entry.2.messageId) = true
  fresh : entry.2.retried = false
  message : entry.2.message =
    { id := entry.2.messageId, content := entry.1.content, source := entry.1.source
      kind := entry.1.kind, timestamp := some entry.1.timestamp }
  visible : entry.2.transcriptCursor.isSome = !entry.1.kind.isContext

structure Traces (history : List Effect) (store : InboxStore) : Prop where
  numbered : (accepted history).map (fun entry => entry.2.sequence) =
    List.range' 1 store.nextInboundSequence
  places : (store.pending.map PendingRow.sequence ++
    ((adopted history).map (fun item => item.sequence) ++ removed history)).Perm
      ((accepted history).map fun entry => entry.2.sequence)
  sorted : (store.pending.map PendingRow.sequence).Pairwise (· < ·)
  order : ((adopted history).map fun item => item.sequence).Pairwise (· < ·)
  before : ∀ item ∈ adopted history, ∀ row ∈ store.pending, item.sequence < row.sequence
  ids : (store.pending.map PendingRow.messageId ++ store.ledger.map MessageBlock.id).Nodup
  receipts : ∀ entry ∈ accepted history, Receipted entry
  rows : ∀ row ∈ store.pending, ∃ entry ∈ accepted history, Holds history store entry row
  items : ∀ item ∈ adopted history, ∃ entry ∈ accepted history,
    Holds history store entry item.toPendingRow ∧ item.transcriptCursor = entry.2.transcriptCursor
  ledger : ((adopted history).map fun item => MessageBlock.user item.message).Sublist store.ledger
  shown : ∀ id, (store.transcript.lookup id).isSome = true → store.messageExists id = true
  keys : ∀ key sequence id, store.correlations.lookup key = some (sequence, id) →
    ∃ entry ∈ accepted history, entry.1.correlation = some key ∧
      entry.2.sequence = sequence ∧ entry.2.messageId = id
  keyed : ∀ entry ∈ accepted history, ∀ key, entry.1.correlation = some key →
    store.correlations.lookup key = some (entry.2.sequence, entry.2.messageId)
  kept : ∀ entry ∈ accepted history, entry.1.correlation ≠ none →
    entry.2.sequence ∉ removed history ∧ lastText history entry.2.sequence = none
  reuse : (accepted history).Pairwise fun earlier later =>
    earlier.2.messageId = later.2.messageId → earlier.2.sequence ∈ removed history
  distinct : ((accepted history).filterMap fun entry => entry.1.correlation).Nodup
  unedited : ∀ sequence, store.nextInboundSequence < sequence → lastText history sequence = none
  count : store.pendingObservationCount = store.pending.length
  turns : store.adoptedTurns = ((adoptions history).filter fun items => items ≠ []).map
    fun items => items.map fun item => item.messageId

theorem traces_empty (conversation : ConversationId) (goal : Option GoalSnapshot) :
    Traces [] (empty conversation goal) := by
  constructor <;> simp [accepted, adopted, adoptions, removed, lastText, empty, adoptedTurns]

theorem body_id (history : List Effect) (receipt : AcceptedInbound) :
    (body history receipt).id = receipt.message.id := by
  unfold body
  split <;> rfl

namespace InboxStore

variable {store : InboxStore} {id : MessageId}

theorem messageExists_iff : store.messageExists id = true ↔
    id ∈ store.pending.map PendingRow.messageId ++ store.ledger.map MessageBlock.id := by
  simp [messageExists, pendingMessageExists, ledgerMessageExists]

theorem messageExists_eq_false_iff : store.messageExists id = false ↔
    id ∉ store.pending.map PendingRow.messageId ++ store.ledger.map MessageBlock.id := by
  rw [← messageExists_iff, Bool.not_eq_true]

end InboxStore

variable {history : List Effect} {store next : InboxStore}

/-- A row stays what it is over a step that leaves its text and its place alone. -/
theorem Holds.step {effect : Effect} {entry : Acceptance} {row : PendingRow}
    (held : Holds history store entry row) (unedited : effect.textOf row.sequence = none)
    (place : next.transcript.lookup row.messageId = store.transcript.lookup row.messageId) :
    Holds (history ++ [effect]) next entry row where
  sequence := held.sequence
  messageId := held.messageId
  message := by
    rw [held.message, body_snoc]
    rw [← held.sequence, unedited]
  correlation := held.correlation
  cursor := place.trans held.cursor

namespace Traces

variable {history : List Effect} {store next : InboxStore}

section

variable (traces : Traces history store)
include traces

theorem sequences_nodup : ((accepted history).map fun entry => entry.2.sequence).Nodup := by
  rw [traces.numbered]
  exact nodup_range'

theorem unique (one : first ∈ accepted history) (other : second ∈ accepted history)
    (same : first.2.sequence = second.2.sequence) : first = second :=
  inj_on_of_nodup_map traces.sequences_nodup one other same

theorem places_nodup : (store.pending.map PendingRow.sequence ++
      ((adopted history).map (fun item => item.sequence) ++ removed history)).Nodup :=
  traces.places.nodup_iff.mpr traces.sequences_nodup

theorem row_unique (one : first ∈ store.pending) (other : second ∈ store.pending)
    (same : first.sequence = second.sequence) : first = second :=
  inj_on_of_nodup_map (nodup_append.mp traces.places_nodup).1 one other same

theorem id_of_row (member : row ∈ store.pending) : row.message.id = row.messageId := by
  obtain ⟨entry, among, held⟩ := traces.rows row member
  rw [held.message, body_id, (traces.receipts entry among).message, held.messageId]

/-- The message of an adopted row is in the ledger under its own identity. -/
theorem adopted_id (member : item ∈ adopted history) :
    item.messageId ∈ store.ledger.map MessageBlock.id := by
  obtain ⟨entry, among, held, -⟩ := traces.items item member
  have same : item.message.id = item.messageId := by
    rw [held.message, body_id, (traces.receipts entry among).message, held.messageId]
  have inside := traces.ledger.subset (mem_map_of_mem member)
  rw [← same]
  exact mem_map_of_mem inside

/-- Tables that did not change are still what the history made of them. -/
theorem same (same : InboxStore.Same store next) {effect : Effect}
    (quiet : effect.acceptance = none ∧ effect.adoption = none ∧
      effect.removal = none ∧ ∀ sequence, effect.textOf sequence = none) :
    Traces (history ++ [effect]) next := by
  have holds : ∀ {entry row}, Holds history store entry row →
      Holds (history ++ [effect]) next entry row :=
    fun held => held.step (quiet.2.2.2 _) (by rw [same.transcript])
  constructor
  · simpa [quiet, same.sequence] using traces.numbered
  · simpa [quiet, same.pending] using traces.places
  · simpa [same.pending] using traces.sorted
  · simpa [quiet] using traces.order
  · simpa [quiet, same.pending] using traces.before
  · simpa [same.pending, same.ledger] using traces.ids
  · simpa [quiet] using traces.receipts
  · intro row member
    obtain ⟨entry, among, held⟩ := traces.rows row (same.pending ▸ member)
    exact ⟨entry, by simpa [quiet] using among, holds held⟩
  · intro item member
    obtain ⟨entry, among, held, cursor⟩ := traces.items item (by simpa [quiet] using member)
    exact ⟨entry, by simpa [quiet] using among, holds held, cursor⟩
  · simpa [quiet, same.ledger] using traces.ledger
  · intro id known
    rw [messageExists_iff, same.pending, same.ledger, ← messageExists_iff]
    exact traces.shown id (same.transcript ▸ known)
  · simpa [quiet, same.correlations] using traces.keys
  · simpa [quiet, same.correlations] using traces.keyed
  · simpa [quiet] using traces.kept
  · simpa [quiet] using traces.reuse
  · simpa [quiet] using traces.distinct
  · simpa [quiet, same.sequence] using traces.unedited
  · rw [same.count, same.pending]
    exact traces.count
  · simpa [quiet, same.turns] using traces.turns

end

attribute [simp] Effect.acceptance Effect.adoption Effect.removal Effect.textOf

section

variable (traces : Traces history store)
include traces

/-- An identity that is free again was removed whenever it was accepted before. -/
theorem removed_of_absent (among : entry ∈ accepted history)
    (absent : store.messageExists entry.2.messageId = false) :
    entry.2.sequence ∈ removed history := by
  rw [messageExists_eq_false_iff, mem_append, not_or] at absent
  have somewhere := traces.places.mem_iff.mpr (mem_map_of_mem among)
  rcases mem_append.mp somewhere with waiting | settled
  · obtain ⟨row, member, same⟩ := mem_map.mp waiting
    obtain ⟨other, listed, held⟩ := traces.rows row member
    obtain rfl := traces.unique listed among (held.sequence.symm.trans same)
    exact absurd (held.messageId ▸ mem_map_of_mem member) absent.1
  · rcases mem_append.mp settled with taken | gone
    · obtain ⟨item, member, same⟩ := mem_map.mp taken
      obtain ⟨other, listed, held, -⟩ := traces.items item member
      obtain rfl := traces.unique listed among (held.sequence.symm.trans same)
      exact absurd (held.messageId ▸ traces.adopted_id member) absent.2
    · exact gone

theorem accept (accepts : InboxStore.Accepts store draft receipt next) :
    Traces (history ++ [.accepted draft receipt]) next := by
  have acceptances : accepted (history ++ [.accepted draft receipt]) =
      accepted history ++ [(draft, receipt)] := by
    simp [accepts.fresh]
  have adopts : adopted (history ++ [.accepted draft receipt]) = adopted history := by simp
  have removes : removed (history ++ [.accepted draft receipt]) = removed history := by simp
  have absent := messageExists_eq_false_iff.mp accepts.absent
  -- The numbers handed out so far are below the new one.
  have below : ∀ entry ∈ accepted history, entry.2.sequence < receipt.sequence := by
    intro entry among
    have number := mem_map_of_mem (f := fun entry => entry.2.sequence) among
    rw [traces.numbered, mem_range'_1] at number
    rw [accepts.number]
    omega
  have untouched : ∀ {entry row}, Holds history store entry row →
      row.messageId ∈ store.pending.map PendingRow.messageId ++ store.ledger.map MessageBlock.id →
      Holds (history ++ [.accepted draft receipt]) next entry row := by
    intro entry row held member
    refine held.step rfl ?_
    rw [accepts.transcript, if_neg]
    rintro ⟨same, -⟩
    exact absent (same ▸ member)
  have unseen : store.transcript.lookup receipt.messageId = none := by
    rw [← Option.not_isSome_iff_eq_none]
    intro known
    exact absent (messageExists_iff.mp (traces.shown _ known))
  have unedited : lastText history receipt.sequence = none :=
    traces.unedited _ (by rw [accepts.number]; omega)
  have fresh : Holds (history ++ [.accepted draft receipt]) next (draft, receipt)
      { sequence := receipt.sequence, revision := 0, messageId := receipt.messageId
        message := receipt.message, correlation := draft.correlation } := by
    refine ⟨rfl, rfl, by simp [body, unedited], rfl, ?_⟩
    rw [accepts.transcript]
    split
    · rfl
    · rename_i hidden
      have unplaced := accepts.visible
      simp only [true_and, Bool.not_eq_false] at hidden
      rw [hidden, Bool.not_true, Option.isSome_eq_false_iff, Option.isNone_iff_eq_none] at unplaced
      rw [unseen, unplaced]
  constructor
  · rw [acceptances, map_append, traces.numbered, accepts.sequence, accepts.number, range'_concat]
    simp [accepts.number]
    omega
  · rw [acceptances, adopts, removes, accepts.pending, map_append, map_append]
    refine List.Perm.trans ?_ (traces.places.append_right _)
    rw [append_assoc, append_assoc]
    exact List.Perm.append_left _ perm_append_comm
  · rw [accepts.pending, map_append, pairwise_append]
    refine ⟨traces.sorted, pairwise_singleton _ _, fun number member new last => ?_⟩
    obtain ⟨row, waiting, rfl⟩ := mem_map.mp member
    obtain ⟨entry, among, held⟩ := traces.rows row waiting
    rw [map_singleton, mem_singleton] at last
    rw [last, held.sequence]
    exact below entry among
  · simpa using traces.order
  · rw [adopts, accepts.pending]
    intro item member row among
    rcases mem_append.mp among with waiting | last
    · exact traces.before item member row waiting
    · obtain ⟨entry, listed, held, -⟩ := traces.items item member
      rw [mem_singleton.mp last]
      exact held.sequence ▸ below entry listed
  · rw [accepts.pending, accepts.ledger, map_append]
    refine (List.Perm.nodup_iff ?_).mpr (nodup_cons.mpr ⟨absent, traces.ids⟩)
    rw [append_assoc]
    exact perm_middle
  · rw [acceptances]
    exact Assoc.forall_mem_snoc.mpr ⟨traces.receipts,
      accepts.content, accepts.named, accepts.fresh, accepts.message, accepts.visible⟩
  · rw [acceptances, accepts.pending]
    refine Assoc.forall_mem_snoc.mpr ⟨fun row waiting => ?_, _, by simp, fresh⟩
    obtain ⟨entry, among, held⟩ := traces.rows row waiting
    exact ⟨entry, mem_append_left _ among,
      untouched held (mem_append_left _ (mem_map_of_mem waiting))⟩
  · rw [acceptances, adopts]
    intro item member
    obtain ⟨entry, among, held, cursor⟩ := traces.items item member
    exact ⟨entry, mem_append_left _ among,
      untouched held (mem_append_right _ (traces.adopted_id member)), cursor⟩
  · simpa [accepts.ledger] using traces.ledger
  · intro id known
    rw [messageExists_iff, accepts.pending, accepts.ledger]
    by_cases same : id = receipt.messageId
    · simp [same]
    · rw [accepts.transcript, if_neg fun both => same both.1] at known
      have member := messageExists_iff.mp (traces.shown id known)
      rw [mem_append] at member
      rw [map_append, mem_append, mem_append]
      exact member.imp_left .inl
  · rw [acceptances, accepts.correlations]
    intro key sequence id known
    rw [lookup_append, Option.or_eq_some_iff] at known
    rcases known with known | ⟨-, new⟩
    · obtain ⟨entry, among, facts⟩ := traces.keys key sequence id known
      exact ⟨entry, mem_append_left _ among, facts⟩
    refine ⟨(draft, receipt), by simp, ?_⟩
    cases correlated : draft.correlation with
    | none => simp [correlated] at new
    | some other =>
      have member := Assoc.mem_of_lookup new
      simp only [correlated, Option.map_some, Option.toList_some, mem_singleton,
        Prod.mk.injEq] at member
      obtain ⟨rfl, rfl, rfl⟩ := member
      exact ⟨rfl, rfl, rfl⟩
  · rw [acceptances, accepts.correlations]
    intro entry among key correlated
    rw [lookup_append]
    rcases mem_append.mp among with earlier | last
    · rw [traces.keyed entry earlier key correlated, Option.some_or]
    · rw [mem_singleton] at last
      subst last
      rw [accepts.unkeyed key correlated, Option.none_or, correlated]
      simp
  · simp only [acceptances, removes, lastText_snoc]
    refine Assoc.forall_mem_snoc.mpr ⟨traces.kept, fun _ => ⟨fun gone => ?_, unedited⟩⟩
    have listed := traces.places.subset (mem_append_right _ (mem_append_right _ gone))
    obtain ⟨earlier, among, same⟩ := mem_map.mp listed
    exact absurd same (Nat.ne_of_lt (below earlier among))
  · rw [acceptances, removes, pairwise_append]
    refine ⟨traces.reuse, pairwise_singleton _ _, fun earlier among later last same => ?_⟩
    rw [mem_singleton] at last
    subst last
    exact traces.removed_of_absent among (same ▸ accepts.absent)
  · rw [acceptances, filterMap_append, nodup_append]
    refine ⟨traces.distinct, ?_, fun key earlier new last same => ?_⟩
    · cases correlated : draft.correlation <;> simp [correlated]
    obtain ⟨entry, among, correlated⟩ := mem_filterMap.mp earlier
    obtain ⟨other, single, named⟩ := mem_filterMap.mp last
    rw [mem_singleton] at single
    subst single
    subst same
    have known := traces.keyed entry among key correlated
    rw [accepts.unkeyed key named] at known
    cases known
  · intro sequence above
    rw [accepts.sequence, accepts.number] at above
    simpa using traces.unedited sequence (by omega)
  · rw [accepts.count, accepts.pending, traces.count]
    simp
  · simpa [accepts.turns] using traces.turns

theorem edit (edits : InboxStore.Edits store row text next) :
    Traces (history ++ [.edited row.sequence text]) next := by
  obtain ⟨revision, rewritten⟩ := edits.pending
  have silent : ∀ {sequence}, sequence ≠ row.sequence →
      (Effect.edited row.sequence text).textOf sequence = none :=
    fun other => if_neg fun same => other same.symm
  have sequences : next.pending.map PendingRow.sequence =
      store.pending.map PendingRow.sequence := by
    rw [rewritten, map_map]
    exact map_congr_left fun other _ => by dsimp only [Function.comp_apply]; split <;> rfl
  have identities : next.pending.map PendingRow.messageId =
      store.pending.map PendingRow.messageId := by
    rw [rewritten, map_map]
    exact map_congr_left fun other _ => by dsimp only [Function.comp_apply]; split <;> rfl
  have tables := edits.rest
  have places : next.transcript = store.transcript := by rw [tables]
  have ledger : next.ledger = store.ledger := by rw [tables]
  have sequence : next.nextInboundSequence = store.nextInboundSequence := by rw [tables]
  have correlations : next.correlations = store.correlations := by rw [tables]
  -- The number of the edited row is neither adopted nor above the others.
  have waiting : row.sequence ∈ store.pending.map PendingRow.sequence := mem_map_of_mem edits.held
  have apart := (nodup_append.mp traces.places_nodup).2.2 row.sequence waiting
  obtain ⟨own, listed, owns⟩ := traces.rows row edits.held
  constructor
  · simpa [sequence] using traces.numbered
  · simpa [sequences] using traces.places
  · simpa [sequences] using traces.sorted
  · simpa using traces.order
  · intro item member other among
    have number := mem_map_of_mem (f := PendingRow.sequence) among
    rw [sequences] at number
    obtain ⟨same, present, equal⟩ := mem_map.mp number
    exact equal ▸ traces.before item (by simpa using member) same present
  · rw [identities, ledger]
    exact traces.ids
  · simpa using traces.receipts
  · rw [rewritten]
    intro changed member
    obtain ⟨other, present, rfl⟩ := mem_map.mp member
    by_cases same : other.sequence = row.sequence
    · rw [if_pos same]
      obtain rfl := traces.row_unique present edits.held same
      refine ⟨own, by simpa using listed, owns.sequence, owns.messageId, ?_, owns.correlation, ?_⟩
      · rw [body, lastText_snoc, ← owns.sequence, owns.message, body]
        simp only [Effect.textOf, if_true, Option.some_or]
        split <;> rfl
      · rw [places]
        exact owns.cursor
    · rw [if_neg same]
      obtain ⟨entry, among, held⟩ := traces.rows other present
      exact ⟨entry, by simpa using among, held.step (silent same) (by rw [places])⟩
  · intro item member
    have member : item ∈ adopted history := by simpa using member
    obtain ⟨entry, among, held, cursor⟩ := traces.items item member
    refine ⟨entry, by simpa using among, held.step (silent ?_) (by rw [places]), cursor⟩
    intro same
    exact apart _ (mem_append_left _ (mem_map_of_mem member)) same.symm
  · simpa [ledger] using traces.ledger
  · intro id known
    rw [places] at known
    have member := messageExists_iff.mp (traces.shown id known)
    rwa [messageExists_iff, identities, ledger]
  · simpa [correlations] using traces.keys
  · simpa [correlations] using traces.keyed
  · intro entry among correlated
    have among : entry ∈ accepted history := by simpa using among
    have kept := traces.kept entry among correlated
    refine ⟨by simpa using kept.1, ?_⟩
    rw [lastText_snoc, silent, kept.2, Option.none_or]
    intro same
    obtain rfl := traces.unique among listed (same.trans owns.sequence)
    exact correlated (owns.correlation ▸ edits.uncorrelated)
  · simpa using traces.reuse
  · simpa using traces.distinct
  · intro above high
    rw [sequence] at high
    rw [lastText_snoc, silent, traces.unedited above high, Option.none_or]
    rintro rfl
    have number := mem_map_of_mem (f := fun entry => entry.2.sequence) listed
    rw [traces.numbered, mem_range'_1, ← owns.sequence] at number
    omega
  · rw [tables]
    rw [traces.count, rewritten, length_map]
  · have turns : next.adoptedTurns = store.adoptedTurns := by rw [tables]; rfl
    simpa [turns] using traces.turns

theorem remove (removal : InboxStore.Removes store row next) :
    Traces (history ++ [.removed row.sequence]) next := by
  have tables := removal.rest
  have ledger : next.ledger = store.ledger := by rw [tables]
  have sequence : next.nextInboundSequence = store.nextInboundSequence := by rw [tables]
  have correlations : next.correlations = store.correlations := by rw [tables]
  have turns : next.adoptedTurns = store.adoptedTurns := by rw [tables]; rfl
  have within : next.pending.Sublist store.pending := by
    rw [removal.pending]
    exact filter_sublist
  -- The row is the only one with its number, and the only message with its identity.
  have split_ : store.pending.Perm (row :: next.pending) := by
    have distinct : store.pending.Nodup :=
      List.Nodup.of_map _ (nodup_append.mp traces.places_nodup).1
    have erased : next.pending = store.pending.erase row := by
      rw [removal.pending, distinct.erase_eq_filter]
      apply filter_congr
      intro other member
      by_cases same : other = row
      · simp [same]
      · have differs : other.sequence ≠ row.sequence :=
          fun number => same (traces.row_unique member removal.held number)
        simp [same, differs]
    rw [erased]
    exact perm_cons_erase removal.held
  have ids := (List.Perm.append_right _ (split_.map _)).nodup_iff.mp traces.ids
  rw [map_cons, cons_append, nodup_cons] at ids
  have elsewhere : ∀ {entry other}, Holds history store entry other →
      other.messageId ∈ next.pending.map PendingRow.messageId ++ store.ledger.map MessageBlock.id →
      Holds (history ++ [.removed row.sequence]) next entry other := by
    intro entry other held member
    refine held.step rfl ?_
    rw [removal.transcript, if_neg]
    intro same
    exact ids.1 (same ▸ member)
  obtain ⟨own, listed, owns⟩ := traces.rows row removal.held
  constructor
  · simpa [sequence] using traces.numbered
  · simp only [accepted_snoc, adopted_snoc, removed_snoc, Effect.acceptance, Effect.adoption,
      Effect.removal, Option.toList_none, Option.toList_some, Option.getD_none, append_nil]
    refine List.Perm.trans ?_ traces.places
    refine List.Perm.trans ?_ ((split_.map _).symm.append_right _)
    simp only [map_cons, cons_append, ← append_assoc]
    exact perm_append_singleton _ _
  · exact traces.sorted.sublist (within.map _)
  · simpa using traces.order
  · intro item member other among
    exact traces.before item (by simpa using member) other (within.subset among)
  · rw [ledger]
    exact ids.2
  · simpa using traces.receipts
  · intro other member
    obtain ⟨entry, among, held⟩ := traces.rows other (within.subset member)
    exact ⟨entry, by simpa using among, elsewhere held (mem_append_left _ (mem_map_of_mem member))⟩
  · intro item member
    have member : item ∈ adopted history := by simpa using member
    obtain ⟨entry, among, held, cursor⟩ := traces.items item member
    exact ⟨entry, by simpa using among,
      elsewhere held (mem_append_right _ (traces.adopted_id member)), cursor⟩
  · simpa [ledger] using traces.ledger
  · intro id known
    rw [removal.transcript] at known
    split at known
    · cases known
    · rename_i other
      have member := messageExists_iff.mp (traces.shown id known)
      rw [((split_.map _).append_right _).mem_iff, map_cons, cons_append, mem_cons] at member
      rw [messageExists_iff, ledger]
      exact member.resolve_left other
  · simpa [correlations] using traces.keys
  · simpa [correlations] using traces.keyed
  · intro entry among correlated
    have among : entry ∈ accepted history := by simpa using among
    have kept := traces.kept entry among correlated
    refine ⟨fun member => ?_, by simpa using kept.2⟩
    rw [removed_snoc] at member
    rcases mem_append.mp member with earlier | last
    · exact kept.1 earlier
    · obtain rfl := traces.unique among listed ((mem_singleton.mp last).trans owns.sequence)
      exact correlated (owns.correlation ▸ removal.uncorrelated)
  · simpa using traces.reuse.imp fun gone same => mem_append_left [row.sequence] (gone same)
  · simpa using traces.distinct
  · simpa [sequence] using traces.unedited
  · have length := split_.length_eq
    rw [length_cons] at length
    rw [tables]
    dsimp only
    rw [traces.count]
    omega
  · simpa [turns] using traces.turns

theorem adopt {items : List PendingInboundItem}
    (adoption : InboxStore.Adopts store watermark items next) :
    Traces (history ++ [.adopted items]) next := by
  have holds : ∀ {entry row}, Holds history store entry row →
      Holds (history ++ [.adopted items]) next entry row :=
    fun held => held.step rfl (by rw [adoption.transcript])
  -- The rows are those that stay and those that are taken.
  have taken : items = (store.pending.filter fun row => row.sequence ≤ watermark).map
      store.pendingItem := by
    rw [adoption.batch, filter_map]
    rfl
  have split_ : (next.pending ++ store.pending.filter fun row => row.sequence ≤ watermark).Perm
      store.pending := by
    rw [adoption.pending]
    refine List.Perm.trans (List.Perm.append_left _ (List.Perm.of_eq ?_))
      (filter_append_perm (fun row => decide _) store.pending)
    apply filter_congr
    intro row _
    rw [Bool.eq_iff_iff]
    simp
  have within : next.pending.Sublist store.pending := by
    rw [adoption.pending]
    exact filter_sublist
  have member_iff : ∀ item ∈ items, ∃ row ∈ store.pending, row.sequence ≤ watermark ∧
      item = store.pendingItem row := by
    intro item member
    rw [taken] at member
    obtain ⟨row, kept, rfl⟩ := mem_map.mp member
    obtain ⟨present, low⟩ := mem_filter.mp kept
    exact ⟨row, present, by simpa using low, rfl⟩
  have numbers : items.map (fun item => item.sequence) =
      (store.pending.filter fun row => row.sequence ≤ watermark).map PendingRow.sequence := by
    rw [taken, map_map]
    rfl
  have entered : (items.map fun item => MessageBlock.user item.message).map MessageBlock.id =
      (store.pending.filter fun row => row.sequence ≤ watermark).map PendingRow.messageId := by
    rw [taken, map_map, map_map]
    apply map_congr_left
    intro row member
    exact traces.id_of_row (mem_of_mem_filter member)
  constructor
  · simpa [adoption.sequence] using traces.numbered
  · simp only [accepted_snoc, adopted_snoc, removed_snoc, Effect.acceptance, Effect.adoption,
      Effect.removal, Option.toList_none, Option.getD_some, append_nil, map_append, numbers]
    refine List.Perm.trans ?_ traces.places
    refine List.Perm.trans ?_ ((split_.map _).append_right _)
    simp only [map_append, append_assoc]
    refine List.Perm.append_left _ ?_
    simp only [← append_assoc]
    exact List.Perm.append_right _ perm_append_comm
  · exact traces.sorted.sublist (within.map _)
  · rw [adopted_snoc, map_append, pairwise_append]
    refine ⟨traces.order, ?_, ?_⟩
    · exact numbers ▸ traces.sorted.sublist (filter_sublist.map _)
    · intro first early second late
      obtain ⟨item, among, rfl⟩ := mem_map.mp early
      rw [Effect.adoption, Option.getD_some, numbers] at late
      obtain ⟨row, kept, rfl⟩ := mem_map.mp late
      exact traces.before item among row (mem_of_mem_filter kept)
  · intro item member row among
    rw [adopted_snoc] at member
    rcases mem_append.mp member with early | late
    · exact traces.before item early row (within.subset among)
    · obtain ⟨other, -, low, rfl⟩ := member_iff item late
      rw [adoption.pending] at among
      have high := (mem_filter.mp among).2
      simp only [decide_eq_true_eq] at high
      exact Nat.lt_of_le_of_lt low high
  · rw [adoption.ledger, map_append, entered]
    refine (List.Perm.nodup_iff ?_).mpr traces.ids
    refine List.Perm.trans ?_ ((split_.map _).append_right _)
    rw [map_append, append_assoc]
    exact List.Perm.append_left _ perm_append_comm
  · simpa using traces.receipts
  · intro row member
    obtain ⟨entry, among, held⟩ := traces.rows row (within.subset member)
    exact ⟨entry, by simpa using among, holds held⟩
  · intro item member
    rw [adopted_snoc] at member
    rcases mem_append.mp member with early | late
    · obtain ⟨entry, among, held, cursor⟩ := traces.items item early
      exact ⟨entry, by simpa using among, holds held, cursor⟩
    · obtain ⟨row, present, -, rfl⟩ := member_iff item late
      obtain ⟨entry, among, held⟩ := traces.rows row present
      exact ⟨entry, by simpa using among, holds held, held.cursor⟩
  · rw [adopted_snoc, adoption.ledger, map_append]
    exact traces.ledger.append (List.Sublist.refl _)
  · intro id known
    rw [adoption.transcript] at known
    have member := messageExists_iff.mp (traces.shown id known)
    rw [messageExists_iff, adoption.ledger, map_append, entered]
    refine (List.Perm.mem_iff ?_).mp member
    refine List.Perm.trans ((split_.map _).append_right _).symm ?_
    rw [map_append, append_assoc]
    exact List.Perm.append_left _ perm_append_comm
  · simpa [adoption.correlations] using traces.keys
  · simpa [adoption.correlations] using traces.keyed
  · simpa using traces.kept
  · simpa using traces.reuse
  · simpa using traces.distinct
  · simpa [adoption.sequence] using traces.unedited
  · have length := split_.length_eq
    rw [length_append] at length
    have taking := congrArg List.length taken
    rw [length_map] at taking
    rw [adoption.count, traces.count]
    omega
  · rw [adoption.turns, traces.turns, adoptions_snoc, filter_append, map_append]
    by_cases none : items = []
    · simp [none]
    · simp [none]

theorem append (appends : InboxStore.Appends store message next) :
    Traces (history ++ [.none]) next := by
  have tables := appends.rest
  have pending : next.pending = store.pending := by rw [tables]
  have sequence : next.nextInboundSequence = store.nextInboundSequence := by rw [tables]
  have correlations : next.correlations = store.correlations := by rw [tables]
  have turns : next.adoptedTurns = store.adoptedTurns := by rw [tables]; rfl
  have absent := messageExists_eq_false_iff.mp appends.absent
  have untouched : ∀ {entry row}, Holds history store entry row →
      row.messageId ∈ store.pending.map PendingRow.messageId ++ store.ledger.map MessageBlock.id →
      Holds (history ++ [.none]) next entry row := by
    intro entry row held member
    refine held.step rfl (appends.transcript _ fun same => ?_)
    exact absent (same ▸ member)
  constructor
  · simpa [sequence] using traces.numbered
  · simpa [pending] using traces.places
  · simpa [pending] using traces.sorted
  · simpa using traces.order
  · simpa [pending] using traces.before
  · rw [pending, appends.ledger, map_append, ← append_assoc]
    exact (List.Perm.nodup_iff (perm_append_singleton _ _)).mpr
      (nodup_cons.mpr ⟨absent, traces.ids⟩)
  · simpa using traces.receipts
  · rw [pending]
    intro row member
    obtain ⟨entry, among, held⟩ := traces.rows row member
    exact ⟨entry, by simpa using among, untouched held (mem_append_left _ (mem_map_of_mem member))⟩
  · intro item member
    have member : item ∈ adopted history := by simpa using member
    obtain ⟨entry, among, held, cursor⟩ := traces.items item member
    exact ⟨entry, by simpa using among,
      untouched held (mem_append_right _ (traces.adopted_id member)), cursor⟩
  · rw [appends.ledger]
    simpa using traces.ledger.trans (sublist_append_left _ [message])
  · intro id known
    rw [messageExists_iff, pending, appends.ledger, map_append, ← append_assoc, mem_append]
    by_cases same : id = message.id
    · exact .inr (by simp [same])
    · rw [appends.transcript id same] at known
      exact .inl (messageExists_iff.mp (traces.shown id known))
  · simpa [correlations] using traces.keys
  · simpa [correlations] using traces.keyed
  · simpa using traces.kept
  · simpa using traces.reuse
  · simpa using traces.distinct
  · simpa [sequence] using traces.unedited
  · rw [pending, ← traces.count, tables]
  · simpa [turns] using traces.turns

theorem step (steps : store.Steps effect next) : Traces (history ++ [effect]) next := by
  cases steps.change with
  | same same => exact traces.same same ⟨rfl, rfl, rfl, fun _ => rfl⟩
  | retried again =>
    exact traces.same (.refl _) ⟨by simp [Effect.acceptance, again], rfl, rfl, fun _ => rfl⟩
  | accepted accepts => exact traces.accept accepts
  | edited edits => exact traces.edit edits
  | removed removal => exact traces.remove removal
  | adopted adoption => exact traces.adopt adoption
  | appended appends => exact traces.append appends

end

end Traces

variable {conversation : ConversationId} {goal : Option GoalSnapshot}

theorem Run.traces (run : Run (.empty conversation goal) history store) : Traces history store := by
  induction run with
  | start => exact traces_empty conversation goal
  | step _ steps ih => exact ih.step steps

theorem Run.trans {start : InboxStore} (one : Run start first middle)
    (other : Run middle second final) : Run start (first ++ second) final := by
  induction other with
  | start => rwa [append_nil]
  | step _ steps ih =>
    rw [← append_assoc]
    exact .step ih steps

theorem accepted_append (first second : List Effect) :
    accepted (first ++ second) = accepted first ++ accepted second :=
  filterMap_append

namespace Traces

variable {history : List Effect} {store : InboxStore}

/-- A correlated message is still what was accepted, wherever it is by now. -/
theorem correlated_body (traces : Traces history store) (among : entry ∈ accepted history)
    (correlated : entry.1.correlation = some key) :
    body history entry.2 = entry.2.message := by
  rw [body, (traces.kept entry among (by simp [correlated])).2]

theorem loadCorrelated (traces : Traces history store) (among : entry ∈ accepted history)
    (correlated : entry.1.correlation = some key) :
    store.loadCorrelatedUserMessage entry.2.messageId = .ok entry.2.message ∧
      store.transcript.lookup entry.2.messageId = entry.2.transcriptCursor := by
  have ids := nodup_append.mp traces.ids
  have original := traces.correlated_body among correlated
  have identity : entry.2.message.id = entry.2.messageId := by
    rw [(traces.receipts entry among).message]
  have somewhere := traces.places.mem_iff.mpr (mem_map_of_mem among)
  unfold loadCorrelatedUserMessage
  rcases mem_append.mp somewhere with waiting | settled
  · obtain ⟨row, member, same⟩ := mem_map.mp waiting
    obtain ⟨other, listed, held⟩ := traces.rows row member
    obtain rfl := traces.unique listed among (held.sequence.symm.trans same)
    refine ⟨?_, held.messageId ▸ held.cursor⟩
    have found : (store.pending.find? fun row => row.messageId = other.2.messageId) = some row :=
      Assoc.find?_of_mem ids.1 member held.messageId
    rw [found]
    dsimp only
    rw [held.message, original, if_neg (by simp [identity])]
  · rcases mem_append.mp settled with taken | gone
    · obtain ⟨item, member, same⟩ := mem_map.mp taken
      obtain ⟨other, listed, held, -⟩ := traces.items item member
      obtain rfl := traces.unique listed among (held.sequence.symm.trans same)
      refine ⟨?_, held.messageId ▸ held.cursor⟩
      have inside := traces.ledger.subset (mem_map_of_mem member)
      have absent : (store.pending.find? fun row => row.messageId = other.2.messageId) = none := by
        rw [find?_eq_none]
        intro row waiting named
        rw [decide_eq_true_eq] at named
        have clash := ids.2.2 _ (mem_map_of_mem waiting) _ (traces.adopted_id member)
        exact clash (named.trans held.messageId.symm)
      have found : (store.ledger.find? fun message => message.id = other.2.messageId) =
          some (.user item.message) := by
        have own : (MessageBlock.user item.message).id = other.2.messageId := by
          rw [MessageBlock.id, held.message, original, identity]
        exact Assoc.find?_of_mem ids.2.1 inside own
      rw [absent, found, held.message, original]
    · exact absurd gone (traces.kept entry among (by simp [correlated])).1

/-- A draft under a key that is taken is compared with what the key was taken for. -/
theorem retry (traces : Traces history store) (among : entry ∈ accepted history)
    (correlated : entry.1.correlation = some key) {draft : InboundDraft}
    (same : draft.correlation = some key) (content : draft.content ≠ []) :
    store.acceptScheduledInboundTx draft =
      if repeats draft entry.2.message then .ok (store, { entry.2 with retried := true })
      else .error (.correlationConflict key) := by
  have receipt := traces.receipts entry among
  obtain ⟨message, cursor⟩ := traces.loadCorrelated among correlated
  unfold acceptScheduledInboundTx
  rw [if_neg content, same]
  dsimp only
  rw [traces.keyed entry among key correlated]
  dsimp only [retryAccepted]
  rw [message, ok_bind]
  by_cases repeats : repeats draft entry.2.message = true
  · have kind : entry.2.message.kind = entry.1.kind := by rw [receipt.message]
    simp only [repeats, Bool.not_true, Bool.false_eq_true, if_false, if_true, kind]
    cases hidden : entry.1.kind.isContext with
    | true =>
      have unplaced := receipt.visible
      rw [hidden, Bool.not_true, Option.isSome_eq_false_iff, Option.isNone_iff_eq_none] at unplaced
      simp [unplaced]
    | false =>
      have placed := receipt.visible
      rw [hidden, Bool.not_false] at placed
      obtain ⟨position, known⟩ := Option.isSome_iff_exists.mp placed
      simp [cursor, known]
  · simp [repeats]
    rfl

theorem repeats_self (receipt : Receipted entry) : repeats entry.1 entry.2.message = true := by
  simp [repeats, receipt.message, receipt.named]

end Traces

variable {more : List Effect} {later : InboxStore}

/-- An accepted correlated draft, sent again at any later time, is answered with the
acceptance it got. -/
theorem acceptScheduledInboundTx_again (run : Run (.empty conversation goal) history store)
    (took : store.acceptScheduledInboundTx draft = .ok (next, receipt))
    (keyed : draft.correlation ≠ none)
    (continues : Run (.empty conversation goal) (history ++ .accepted draft receipt :: more) later) :
    later.acceptScheduledInboundTx draft = .ok (later, { receipt with retried := true }) := by
  obtain ⟨key, correlated⟩ := Option.ne_none_iff_exists'.mp keyed
  have content : draft.content ≠ [] := by
    intro empty
    simp [acceptScheduledInboundTx, empty] at took
  have traces := continues.traces
  rcases acceptScheduledInboundTx_ok took with accepts | retries
  · have among : (draft, receipt) ∈ accepted (history ++ .accepted draft receipt :: more) := by
      simp [accepted, Effect.acceptance, accepts.fresh]
    rw [traces.retry among correlated correlated content,
      if_pos (Traces.repeats_self (traces.receipts _ among))]
  · obtain ⟨other, same, known⟩ := retries.known
    cases correlated.symm.trans same
    obtain ⟨entry, among, keyed, -⟩ := run.traces.keys _ _ _ known
    have again := run.traces.retry among keyed correlated content
    rw [took] at again
    split at again
    · rename_i repeats
      simp only [Except.ok.injEq, Prod.mk.injEq] at again
      rw [traces.retry (by rw [accepted_append]; exact mem_append_left _ among) keyed correlated
        content, if_pos repeats, again.2]
    · cases again

theorem InboxStore.Change.grows (change : store.Change effect next) :
    store.journal <+: next.journal := by
  cases change with
  | same same => exact same.journal
  | retried => exact prefix_rfl
  | accepted accepts => exact accepts.journal
  | edited edits => rw [edits.rest]
  | removed removal => rw [removal.rest]
  | adopted adoption => exact adoption.journal
  | appended appends => rw [appends.rest]

theorem Run.grows {start : InboxStore} (run : Run start history store) :
    start.journal <+: store.journal := by
  induction run with
  | start => exact prefix_rfl
  | step _ steps ih => exact ih.trans steps.change.grows

namespace InboxStore

theorem findEventById_grows {store later : InboxStore}
    (known : store.findEventById eventId = some found) (grows : store.journal <+: later.journal) :
    later.findEventById eventId = some found := by
  obtain ⟨more, same⟩ := grows
  rw [findEventById, ← same, find?_append]
  rw [findEventById] at known
  rw [known, Option.some_or]

/-- An event with an identity of its own is found under it. -/
theorem persistEvent_found {store : InboxStore}
    (done : store.persistEvent envelope = .ok (next, persisted)) (named : envelope.eventId ≠ "") :
    persisted = envelope ∧ next.findEventById envelope.eventId = some envelope := by
  unfold persistEvent RuntimeEventEnvelope.identify at done
  dsimp only at done
  rw [if_neg named] at done
  split at done
  · cases done
  rename_i unused
  cases done
  refine ⟨rfl, ?_⟩
  rw [findEventById, find?_append]
  have absent : (store.journal.find? fun event => event.eventId = envelope.eventId) = none := by
    simpa using unused
  rw [absent, Option.none_or]
  simp

end InboxStore

theorem Run.accept {operation : Operation} (run : Run (.empty conversation goal) history store)
    (done : store.perform operation = .ok (next, effect)) (continues : Run next more later) :
    Run (.empty conversation goal) (history ++ effect :: more) later := by
  have longer := (Run.step run (.inl ⟨operation, done⟩)).trans continues
  rwa [append_assoc, singleton_append] at longer

theorem acceptInbound_again (run : Run (.empty conversation goal) history store)
    (took : store.acceptInbound draft = .ok (next, receipt)) (keyed : draft.correlation ≠ none)
    (continues : Run next more later) :
    later.acceptInbound draft = .ok (later, { receipt with retried := true }) := by
  have longer := run.accept (show store.perform (.acceptInbound draft) =
    .ok (next, .accepted draft receipt) by simp [perform, took]) continues
  obtain ⟨_, allowed, inner⟩ := bind_eq_ok_iff.mp took
  unfold acceptInboundTx at inner
  split at inner
  · cases inner
  · rename_i foreign
    unfold acceptInbound acceptInboundTx
    rw [allowed, ok_bind, if_neg foreign]
    exact acceptScheduledInboundTx_again run inner keyed longer

theorem backgroundEvent_named (envelope : RuntimeEventEnvelope) (execution : String) :
    (envelope.identify s!"background-terminal-event:{execution}").eventId ≠ "" := by
  unfold RuntimeEventEnvelope.identify
  split
  · intro empty
    have none := congrArg String.length empty
    simp only [String.length_append] at none
    have letters : 0 < (toString "background-terminal-event:").length := by decide
    rw [String.length_empty] at none
    omega
  · assumption

theorem acceptInboundWithEvent_again (run : Run (.empty conversation goal) history store)
    (took : store.acceptInboundWithEvent draft envelope = .ok (next, receipt, persisted))
    (keyed : draft.correlation ≠ none) (continues : Run next more later) :
    later.acceptInboundWithEvent draft envelope =
      .ok (later, { receipt with retried := true }, persisted) := by
  have longer := run.accept (show store.perform (.acceptInboundWithEvent draft envelope) =
    .ok (next, .accepted draft receipt) by simp [perform, took]) continues
  unfold acceptInboundWithEvent at took ⊢
  obtain ⟨_, allowed, rest⟩ := bind_eq_ok_iff.mp took
  rw [allowed, ok_bind]
  split at rest
  · rename_i execution message event
    dsimp only at rest ⊢
    obtain ⟨⟨taken, accepted⟩, inner, rest⟩ := bind_eq_ok_iff.mp rest
    dsimp only at rest
    have foreign : ¬ (draft.correlation.any isSchedulerIdentity ||
        draft.messageId.any isSchedulerIdentity) = true := by
      intro scheduled
      simp [acceptInboundTx, scheduled] at inner
    have scheduledTx : store.acceptScheduledInboundTx draft = .ok (taken, accepted) := by
      rwa [acceptInboundTx, if_neg foreign] at inner
    split at rest
    · cases rest
    rename_i same
    have found : accepted = receipt ∧ later.findEventById
        (envelope.identify s!"background-terminal-event:{execution}").eventId = some persisted ∧
        persisted.event = (envelope.identify s!"background-terminal-event:{execution}").event := by
      split at rest
      · rename_i again
        split at rest
        · cases rest
        rename_i existing known
        split at rest
        · cases rest
        rename_i agrees
        cases rest
        rw [ne_eq, not_not] at agrees
        refine ⟨rfl, findEventById_grows known ?_, agrees⟩
        rcases acceptScheduledInboundTx_ok scheduledTx with accepts | retries
        · rw [accepts.fresh] at again
          cases again
        · exact retries.same ▸ continues.grows
      · obtain ⟨_, _, rest⟩ := bind_eq_ok_iff.mp rest
        obtain ⟨⟨written, stored⟩, wrote, result⟩ := bind_eq_ok_iff.mp rest
        cases result
        obtain ⟨rfl, known⟩ := persistEvent_found wrote (backgroundEvent_named envelope execution)
        exact ⟨rfl, findEventById_grows known continues.grows, rfl⟩
    obtain ⟨rfl, known, agrees⟩ := found
    have again := acceptScheduledInboundTx_again run scheduledTx keyed longer
    have inner' : later.acceptInboundTx draft = .ok (later, { accepted with retried := true }) := by
      rw [acceptInboundTx, if_neg foreign, again]
    rw [inner', ok_bind]
    rw [if_neg (by simp [same]), if_pos rfl, known]
    dsimp only
    rw [if_neg (by simp [agrees])]
  · cases rest

/-- What is pending later, and was accepted by now, is pending now. -/
theorem Run.pending_of_later (run : Run (.empty conversation goal) history store)
    (continues : Run store more later) {row : PendingRow} (waiting : row ∈ later.pending)
    (known : row.sequence ≤ store.nextInboundSequence) :
    row.sequence ∈ store.pending.map PendingRow.sequence := by
  have traces := run.traces
  have after := (run.trans continues).traces
  obtain ⟨entry, among, held⟩ := after.rows row waiting
  have positive : 1 ≤ row.sequence := by
    have number := mem_map_of_mem (f := fun entry => entry.2.sequence) among
    rw [after.numbered, mem_range'_1, ← held.sequence] at number
    exact number.1
  have listed : row.sequence ∈ (accepted history).map fun entry => entry.2.sequence := by
    rw [traces.numbered, mem_range'_1]
    omega
  have apart := (nodup_append.mp after.places_nodup).2.2 row.sequence
    (mem_map_of_mem waiting) row.sequence
  refine (mem_append.mp (traces.places.mem_iff.mpr listed)).resolve_right fun settled => ?_
  refine apart ?_ rfl
  rw [adopted, adoptions, filterMap_append, flatten_append, removed, filterMap_append, map_append]
  rcases mem_append.mp settled with taken | gone
  · exact mem_append_left _ (mem_append_left _ taken)
  · exact mem_append_right _ (mem_append_left _ gone)

/-- Over any interleaving of transactions, every acceptance is at each moment pending,
adopted or removed, and moves only out of the pending rows; what is adopted enters the
ledger in the order of acceptance, with the body of its last edit and its first place; a
correlation key stands for one message; and every adopted turn is recorded once. -/
theorem inbox_conserves (conversation : ConversationId) (goal : Option GoalSnapshot)
    {history : List Effect} {store : InboxStore}
    (run : Run (.empty conversation goal) history store) :
    -- One place for each acceptance, and no way back.
    ((accepted history).map fun entry => entry.2.sequence).Nodup ∧
    (store.pending.map PendingRow.sequence ++
      ((adopted history).map (fun item => item.sequence) ++ removed history)).Perm
        ((accepted history).map fun entry => entry.2.sequence) ∧
    (∀ more later, Run store more later → ∀ row ∈ later.pending,
      row.sequence ≤ store.nextInboundSequence →
        row.sequence ∈ store.pending.map PendingRow.sequence) ∧
    -- An identity is in one place, and is free again only after a removal.
    (store.pending.map PendingRow.messageId ++ store.ledger.map MessageBlock.id).Nodup ∧
    ((accepted history).Pairwise fun earlier later =>
      earlier.2.messageId = later.2.messageId → earlier.2.sequence ∈ removed history) ∧
    -- Bodies, order and places in the transcript.
    (∀ row ∈ store.pending, ∃ entry ∈ accepted history, Holds history store entry row) ∧
    ((adopted history).map fun item => item.sequence).Pairwise (· < ·) ∧
    ((adopted history).map fun item => MessageBlock.user item.message).Sublist store.ledger ∧
    (∀ item ∈ adopted history, ∃ entry ∈ accepted history,
      Holds history store entry item.toPendingRow ∧
        item.transcriptCursor = entry.2.transcriptCursor) ∧
    -- Correlation keys.
    ((accepted history).filterMap fun entry => entry.1.correlation).Nodup ∧
    (∀ draft receipt next more later, store.acceptInbound draft = .ok (next, receipt) →
      draft.correlation ≠ none → Run next more later →
      later.acceptInbound draft = .ok (later, { receipt with retried := true })) ∧
    (∀ draft envelope persisted receipt next more later,
      store.acceptInboundWithEvent draft envelope = .ok (next, receipt, persisted) →
      draft.correlation ≠ none → Run next more later →
      later.acceptInboundWithEvent draft envelope =
        .ok (later, { receipt with retried := true }, persisted)) ∧
    -- Recorded turns and the counter.
    store.adoptedTurns = ((adoptions history).filter fun items => items ≠ []).map
      (fun items => items.map fun item => item.messageId) ∧
    store.pendingObservationCount = store.pending.length := by
  have traces := run.traces
  refine ⟨traces.sequences_nodup, traces.places, ?_, traces.ids, traces.reuse, traces.rows,
    traces.order, traces.ledger, traces.items, traces.distinct, ?_, ?_, traces.turns, traces.count⟩
  · intro more later continues row waiting known
    exact run.pending_of_later continues waiting known
  · intro draft receipt next more later took keyed continues
    exact acceptInbound_again run took keyed continues
  · intro draft envelope persisted receipt next more later took keyed continues
    exact acceptInboundWithEvent_again run took keyed continues

/-- The transactions of a list, one after the other. -/
def InboxStore.performAll (store : InboxStore) : List Operation → Stored (InboxStore × List Effect)
  | [] => .ok (store, [])
  | operation :: rest => do
    let (next, effect) ← store.perform operation
    let (final, effects) ← next.performAll rest
    .ok (final, effect :: effects)

theorem InboxStore.performAll_run (done : store.performAll operations = .ok (final, effects)) :
    Run store effects final := by
  induction operations generalizing store effects with
  | nil =>
    cases done
    exact .start
  | cons operation rest ih =>
    obtain ⟨⟨next, effect⟩, first, done⟩ := bind_eq_ok_iff.mp done
    obtain ⟨⟨last, others⟩, later, result⟩ := bind_eq_ok_iff.mp done
    cases result
    exact (Run.step .start (.inl ⟨operation, first⟩)).trans (ih later)

/-- What a human writes under an identity of their own choice. -/
def humanDraft (id : MessageId) (text : String) : InboundDraft :=
  { messageId := some id, source := .human, kind := .message, content := [.text text]
    timestamp := 0, correlation := none }

/-- A message is accepted, edited and adopted with its new text. -/
theorem inbox_conserves_edited : ∃ history store, Run (.empty "c" none) history store ∧
    store.ledger = [.user
      { id := "m", content := [.text "new"], source := .human, kind := .message
        timestamp := some 0 }] ∧
    store.adoptedTurns = [["m"]] ∧ store.pendingObservationCount = store.pending.length := by
  have ok : ((empty "c" none).performAll [.acceptInbound (humanDraft "m" "old"),
      .editPending ⟨1, 0⟩ "new", .adoptPendingBatch 1 none]).toOption.map
        (fun run => (run.1.ledger, run.1.adoptedTurns)) =
      some ([.user { id := "m", content := [.text "new"], source := .human, kind := .message
                     timestamp := some 0 }], [["m"]]) := by
    decide +kernel
  obtain ⟨⟨store, history⟩, done, result⟩ := Option.map_eq_some_iff.mp ok
  have run := performAll_run (toOption_eq_some_iff.mp done)
  obtain ⟨ledger, turns⟩ := Prod.ext_iff.mp result
  have conserves := inbox_conserves "c" none run
  exact ⟨history, store, run, ledger, turns, conserves.2.2.2.2.2.2.2.2.2.2.2.2.2⟩

/-- An identity that was removed is accepted again, and is pending once more. -/
theorem removed_identity_returns : ∃ history store, Run (.empty "c" none) history store ∧
    removed history = [1] ∧
    (accepted history).map (fun entry => (entry.2.sequence, entry.2.messageId)) =
      [(1, "m"), (2, "m")] ∧
    store.pending.map PendingRow.messageId = ["m"] := by
  have ok : ((empty "c" none).performAll [.acceptInbound (humanDraft "m" "one"),
      .removePending ⟨1, 0⟩, .acceptInbound (humanDraft "m" "two")]).toOption.map
        (fun run => (removed run.2,
          (accepted run.2).map (fun entry => (entry.2.sequence, entry.2.messageId)),
          run.1.pending.map PendingRow.messageId)) =
      some ([1], [(1, "m"), (2, "m")], ["m"]) := by
    decide +kernel
  obtain ⟨⟨store, history⟩, done, result⟩ := Option.map_eq_some_iff.mp ok
  obtain ⟨gone, rest⟩ := Prod.ext_iff.mp result
  obtain ⟨twice, waiting⟩ := Prod.ext_iff.mp rest
  exact ⟨history, store, performAll_run (toOption_eq_some_iff.mp done), gone, twice, waiting⟩

end RustX.Inbox
