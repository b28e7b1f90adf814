import RustX.Conversation.State

/-!
The derived indexes of a selection answer what its appended messages say.
-/
namespace RustX.Conversation

open Recovery (MessageId)

namespace CanonicalSelection

/-- The ordinary messages after an identity. -/
def nonStatusSince (selection : CanonicalSelection) (id : MessageId) : Option Nat :=
  (selection.positions id).map fun place => selection.nonStatus - place.2

def appendAll (selection : CanonicalSelection) (messages : List MessageBlock) :
    Option CanonicalSelection :=
  messages.foldlM append selection

structure Format (α : Type) where
  write : List MessageBlock → α
  read : α → Except String (List MessageBlock)
  read_write : ∀ messages, read (write messages) = .ok messages

variable {α : Type}

def serialize (format : Format α) (selection : CanonicalSelection) : α :=
  format.write selection.records

def duplicateIdentity : String :=
  "duplicate canonical selection identity"

def readMessages (selection : CanonicalSelection) :
    List MessageBlock → Option (Except String CanonicalSelection)
  | [] => some (.ok selection)
  | message :: rest =>
    if (selection.position message.id).isSome then some (.error duplicateIdentity)
    else do
      let next ← selection.append message
      next.readMessages rest

def deserialize (format : Format α) (input : α) : Option (Except String CanonicalSelection) :=
  match format.read input with
  | .error error => some (.error error)
  | .ok messages => readMessages {} messages

structure Answers (selection : CanonicalSelection) (messages : List MessageBlock) : Prop where
  listed : ∀ before message after, messages = before ++ message :: after →
    selection.position message.id = some before.length ∧ selection.get message.id = some message ∧
      selection.nonStatusSince message.id = some (ordinary after)
  absent : ∀ id, id ∉ messages.map MessageBlock.id →
    selection.position id = none ∧ selection.get id = none ∧ selection.nonStatusSince id = none
  status : ∀ module,
    selection.latestStatus module = messages.reverse.findSome? (statusOf module)

variable {selection : CanonicalSelection}

theorem Sound.answers (sound : selection.Sound) : selection.Answers selection.records := by
  constructor
  · intro before message after split
    have place : selection.position message.id = some before.length := by
      rw [sound.placed, split, List.getElem?_append_right (Nat.le_refl _)]
      simp
    obtain ⟨⟨first, count⟩, held, rfl⟩ := Option.map_eq_some_iff.mp place
    refine ⟨place, ?_, ?_⟩
    · exact sound.placed.resolve (by simp [split])
    · -- the count of the message covers everything up to itself
      have upto := sound.since _ _ _ held
      have total := sound.counted
      rw [split, List.append_cons] at upto total
      rw [List.take_left' (by simp)] at upto
      rw [ordinary, List.countP_append, ← ordinary, ← ordinary] at total
      rw [nonStatusSince, held, Option.map_some, upto, total, Nat.add_sub_cancel_left]
  · intro id unlisted
    have none : selection.positions id = none := by
      rw [← Option.map_eq_none_iff, ← Option.not_isSome_iff_eq_none]
      exact fun found => unlisted (sound.placed.isSome_iff.mp found)
    simp [position, get, nonStatusSince, none]
  · exact sound.newest

theorem ids_appended (selection : CanonicalSelection) (message : MessageBlock)
    (rest : List MessageId) :
    (selection.appended message).ids ++ rest = selection.ids ++ message.id :: rest := by
  simp [ids, CanonicalSelection.appended]

/-- New identities are appended one by one, and are read back the same way. -/
theorem Sound.appendAll (sound : selection.Sound) {messages : List MessageBlock}
    (distinct : (selection.ids ++ messages.map MessageBlock.id).Nodup) :
    ∃ next, selection.appendAll messages = some next ∧
      selection.readMessages messages = some (.ok next) ∧ next.Sound ∧
      next.records = selection.records ++ messages := by
  induction messages generalizing selection with
  | nil => exact ⟨selection, rfl, rfl, sound, (List.append_nil _).symm⟩
  | cons message rest ih =>
    have fresh : selection.position message.id = none := by
      rw [← Option.not_isSome_iff_eq_none, sound.placed.isSome_iff]
      exact fun member => (List.nodup_append.mp distinct).2.2 _ member _ (by simp) rfl
    have takes := append_eq_some_iff.mpr ⟨fresh, rfl⟩
    obtain ⟨next, appends, reads, kept, records⟩ := ih (sound.appended fresh)
      (by rwa [ids_appended])
    refine ⟨next, ?_, ?_, kept, records.trans (by simp [CanonicalSelection.appended])⟩
    · rw [CanonicalSelection.appendAll, List.foldlM_cons, takes]
      exact appends
    · rw [readMessages, fresh, if_neg (by simp), takes]
      exact reads

/-- A repeated identity is noticed where it comes again. -/
theorem Sound.readMessages_repeated (sound : selection.Sound) {messages : List MessageBlock}
    (repeated : ¬ (selection.ids ++ messages.map MessageBlock.id).Nodup) :
    selection.readMessages messages = some (.error duplicateIdentity) := by
  induction messages generalizing selection with
  | nil => exact absurd (by simpa [ids] using sound.placed.nodup) repeated
  | cons message rest ih =>
    cases held : selection.position message.id with
    | some place => simp [readMessages, held]
    | none =>
      rw [readMessages, held, if_neg (by simp), append_eq_some_iff.mpr ⟨held, rfl⟩]
      exact ih (sound.appended held) (by rwa [ids_appended])

end CanonicalSelection

open CanonicalSelection

/-- The indexes of a selection are exact at every moment: a snapshot keeps its answers
while the original grows, a selection that is written is read back, and no selection is
read from a repeated identity. -/
theorem selection_indexes_exact {α : Type} (format : Format α) {messages : List MessageBlock}
    (distinct : (messages.map MessageBlock.id).Nodup) (taken : Nat) :
    (∃ snapshot selection, CanonicalSelection.appendAll {} (messages.take taken) = some snapshot ∧
      snapshot.appendAll (messages.drop taken) = some selection ∧
      snapshot.Answers (messages.take taken) ∧ selection.Answers messages ∧
      deserialize format (selection.serialize format) = some (.ok selection)) ∧
    ∀ input repeated, format.read input = .ok repeated → ¬ (repeated.map MessageBlock.id).Nodup →
      deserialize format input = some (.error duplicateIdentity) := by
  constructor
  · obtain ⟨snapshot, first, -, sound, early⟩ := @Sound.appendAll {} .empty (messages.take taken)
      (distinct.sublist ((List.take_sublist taken messages).map _))
    rw [List.nil_append] at early
    obtain ⟨selection, second, -, grown, whole⟩ := @Sound.appendAll snapshot sound
      (messages.drop taken) (by rwa [ids, early, ← List.map_append, List.take_append_drop])
    rw [early, List.take_append_drop] at whole
    obtain ⟨again, appends, reads, -, -⟩ := @Sound.appendAll {} .empty messages distinct
    have same : again = selection := by
      have both : CanonicalSelection.appendAll {} (messages.take taken ++ messages.drop taken) =
          some selection := by
        rw [CanonicalSelection.appendAll, List.foldlM_append]
        exact (congrArg (· >>= _) first).trans second
      rw [List.take_append_drop, appends] at both
      exact Option.some.inj both
    refine ⟨snapshot, selection, first, second, early ▸ sound.answers, whole ▸ grown.answers, ?_⟩
    rw [deserialize, serialize, whole, format.read_write, ← same]
    exact reads
  · intro input repeated read twice
    rw [deserialize, read]
    exact Sound.empty.readMessages_repeated twice

/-- A status between two ordinary messages, read from a snapshot of the first two. -/
def statusBetween : List MessageBlock :=
  [.assistant ⟨"a", []⟩,
    .user { id := "s", content := [], source := .runtime, timestamp := none
            kind := .context (.agentStatus ⟨5, [.todo], by decide, by decide⟩) },
    .assistant ⟨"b", []⟩]

theorem selection_indexes_exact_status : ∃ snapshot selection,
    CanonicalSelection.appendAll {} (statusBetween.take 2) = some snapshot ∧
    snapshot.appendAll (statusBetween.drop 2) = some selection ∧
    snapshot.nonStatusSince "a" = some 0 ∧ selection.nonStatusSince "a" = some 1 ∧
    selection.latestStatus .todo = some ("s", 5) := by
  obtain ⟨⟨snapshot, selection, first, second, early, whole, -⟩, -⟩ :=
    selection_indexes_exact ⟨fun messages => messages, .ok, fun _ => rfl⟩
      (by decide : (statusBetween.map MessageBlock.id).Nodup) 2
  exact ⟨snapshot, selection, first, second, (early.listed [] _ _ rfl).2.2,
    (whole.listed [] _ _ rfl).2.2, whole.status .todo⟩

end RustX.Conversation
