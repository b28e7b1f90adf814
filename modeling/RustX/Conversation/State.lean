import RustX.Conversation.Message

/-!
The hot state of a conversation: an append-only ledger of messages with an index, the
selection of active messages that shares the bodies of the ledger, and the operations
since the revision the state was opened at. After its message is durable, a validated
commit is installed without a further check.

An operation that returns `none` panics; its caller sees no state after it.
-/
namespace RustX.Conversation

open Function List Option
open Recovery (MessageId)

/-- The next revision of a surface, while the 64-bit domain lasts. -/
def nextRevision (revision : Nat) : Option Nat :=
  if revision + 1 < 2 ^ 64 then some (revision + 1) else none

inductive LedgerError
  | duplicateMessageId (id : MessageId)
  deriving DecidableEq

inductive SurfaceError
  | alreadyActive (id : MessageId)
  | unknownRevision (revision : Nat)
  deriving DecidableEq

inductive ConversationError
  | ledger (error : LedgerError)
  | surface (error : SurfaceError)
  | danglingSurfaceIdentity (id : MessageId)
  deriving DecidableEq

structure MessageLedger where
  records : List MessageBlock := []
  index : MessageId → Option Nat := fun _ => none

namespace MessageLedger

variable (ledger : MessageLedger)

/-- `get`, and `shared` of the same body. -/
def get (id : MessageId) : Option MessageBlock :=
  (ledger.index id).bind fun position => ledger.records[position]?

def contains (id : MessageId) : Bool :=
  (ledger.index id).isSome

def appendAfterValidation (message : MessageBlock) : MessageLedger where
  records := ledger.records ++ [message]
  index := update ledger.index message.id (some ledger.records.length)

def append (message : MessageBlock) : Except LedgerError MessageLedger :=
  if ledger.contains message.id then .error (.duplicateMessageId message.id)
  else .ok (ledger.appendAfterValidation message)

end MessageLedger

/-- The active messages with what is derived from them: the place of each identity
with the ordinary messages up to it, and the newest status of each module. -/
structure CanonicalSelection where
  records : List MessageBlock := []
  positions : MessageId → Option (Nat × Nat) := fun _ => none
  nonStatus : Nat := 0
  latestStatus : AgentStatusModuleId → Option (MessageId × Int) := fun _ => none

namespace CanonicalSelection

variable (selection : CanonicalSelection)

def ids : List MessageId :=
  selection.records.map MessageBlock.id

def position (id : MessageId) : Option Nat :=
  (selection.positions id).map Prod.fst

def get (id : MessageId) : Option MessageBlock :=
  (selection.position id).bind fun position => selection.records[position]?

def appended (message : MessageBlock) : CanonicalSelection :=
  let nonStatus := selection.nonStatus + (if message.agentStatusMetadata.isSome then 0 else 1)
  { records := selection.records ++ [message]
    positions := update selection.positions message.id
      (some (selection.records.length, nonStatus))
    nonStatus
    latestStatus :=
      match message.agentStatusMetadata with
      | some metadata => fun module =>
        if module ∈ metadata.modules then some (message.id, metadata.generatedAt)
        else selection.latestStatus module
      | none => selection.latestStatus }

/-- Appending an identity that is already selected is an assertion failure. -/
def append (message : MessageBlock) : Option CanonicalSelection :=
  if (selection.positions message.id).isSome then none else some (selection.appended message)

end CanonicalSelection

inductive SurfaceOp
  | append (messageId : MessageId)
  deriving DecidableEq

def SurfaceOp.introduces : SurfaceOp → MessageId
  | append messageId => messageId

/-- What an operation means to every reader of a retained log. -/
def applySurfaceOp (active : List MessageId) : SurfaceOp → Except String (List MessageId)
  | .append messageId =>
    if messageId ∈ active then .error s!"Surface Append repeats active message {messageId}"
    else .ok (active ++ [messageId])

structure ConversationSurface where
  active : CanonicalSelection := {}
  revision : Nat := 0
  historyBaseRevision : Nat := 0
  historyBaseActive : List MessageId := []
  compactionGeneration : Nat := 0
  ops : List SurfaceOp := []

namespace ConversationSurface

def fromCurrentHead (active : CanonicalSelection) (revision : Nat)
    (compactionGeneration : Nat) : ConversationSurface where
  active := active
  revision := revision
  historyBaseRevision := revision
  historyBaseActive := active.ids
  compactionGeneration := compactionGeneration

section

variable (surface : ConversationSurface)

def isActive (id : MessageId) : Bool :=
  (surface.active.position id).isSome

def appendAfterValidation (message : MessageBlock) : Option ConversationSurface := do
  let active ← surface.active.append message
  let revision ← nextRevision surface.revision
  some { surface with active, ops := surface.ops ++ [.append message.id], revision }

def reconstruct (revision : Nat) : Except SurfaceError (List MessageId) :=
  if revision < surface.historyBaseRevision || surface.revision < revision then
    .error (.unknownRevision revision)
  else
    let upto := revision - surface.historyBaseRevision
    if surface.ops.length < upto then .error (.unknownRevision revision)
    else
      .ok ((surface.ops.take upto).foldl (fun active op => active ++ [op.introduces])
        surface.historyBaseActive)

end

end ConversationSurface

structure ConversationState where
  ledger : MessageLedger := {}
  surface : ConversationSurface := {}

/-- A validated commit, bound to the message that was validated. -/
structure PreparedCanonicalCommit where
  id : MessageId
  message : MessageBlock

/-- The first occurrence of each identity, in order. -/
def retainFirst (seen : List MessageId) : List MessageId → List MessageId
  | [] => []
  | id :: ids => if id ∈ seen then retainFirst seen ids else id :: retainFirst (id :: seen) ids

namespace ConversationState

def new : ConversationState := {}

/-- Load the ledger: a message that is there already with the same body is skipped. -/
def loadMessage (ledger : MessageLedger) (message : MessageBlock) :
    Except ConversationError MessageLedger :=
  if ledger.get message.id = some message then .ok ledger
  else (ledger.append message).mapError .ledger

def selectActive (ledger : MessageLedger) (selection : CanonicalSelection) :
    List MessageId → Option (Except ConversationError CanonicalSelection)
  | [] => some (.ok selection)
  | id :: ids =>
    match ledger.get id with
    | none => some (.error (.danglingSurfaceIdentity id))
    | some message => do
      let selection ← selection.append message
      selectActive ledger selection ids

def fromDurableHead (messages : List MessageBlock) (activeIds : List MessageId)
    (revision : Nat) (compactionGeneration : Nat) :
    Option (Except ConversationError ConversationState) :=
  match messages.foldlM loadMessage {} with
  | .error error => some (.error error)
  | .ok ledger =>
    (selectActive ledger {} (retainFirst [] activeIds)).map fun selected =>
      selected.map fun active =>
        { ledger, surface := .fromCurrentHead active revision compactionGeneration }

section

variable (state : ConversationState)

def validateCommit (message : MessageBlock) : Except ConversationError MessageId :=
  if state.surface.isActive message.id then .error (.surface (.alreadyActive message.id))
  else if state.ledger.contains message.id then
    .error (.ledger (.duplicateMessageId message.id))
  else .ok message.id

def prepareCommit (message : MessageBlock) : Except ConversationError PreparedCanonicalCommit :=
  (state.validateCommit message).map fun id => { id, message }

def installPrepared (prepared : PreparedCanonicalCommit) :
    Option (ConversationState × MessageId) := do
  let ledger := state.ledger.appendAfterValidation prepared.message
  let body ← ledger.get prepared.id
  let surface ← state.surface.appendAfterValidation body
  some ({ ledger, surface }, prepared.id)

/-- The state after a commit, and what the caller is told. -/
def commit (message : MessageBlock) :
    Option (ConversationState × Except ConversationError MessageId) :=
  match state.validateCommit message with
  | .error error => some (state, .error error)
  | .ok id => (state.installPrepared { id, message }).map fun (next, id) => (next, .ok id)

def reconstruct (state : ConversationState) (revision : Nat) :
    Except ConversationError (List MessageId) :=
  (state.surface.reconstruct revision).mapError .surface

/-- The two ways a message is committed: at once, or prepared and, once it is durable,
installed by the same owner. -/
inductive Operation
  | commit (message : MessageBlock)
  | prepareInstall (message : MessageBlock)

def Operation.message : Operation → MessageBlock
  | commit message | prepareInstall message => message

def perform : Operation → Option (ConversationState × Except ConversationError MessageId)
  | .commit message => state.commit message
  | .prepareInstall message =>
    match state.prepareCommit message with
    | .error error => some (state, .error error)
    | .ok prepared => (state.installPrepared prepared).map fun (next, id) => (next, .ok id)

end

def run (state : ConversationState) :
    List Operation → Option (ConversationState × List (Except ConversationError MessageId))
  | [] => some (state, [])
  | operation :: operations => do
    let (next, result) ← state.perform operation
    let (final, results) ← next.run operations
    some (final, result :: results)

end ConversationState

section Indexes

/-- The index gives every identity of the records its position, and no other. -/
def Indexes (records : List MessageBlock) (index : MessageId → Option Nat) : Prop :=
  ∀ id position, index id = some position ↔ (records[position]?).map MessageBlock.id = some id

theorem Indexes.nil : Indexes [] fun _ => none := by
  intro id position
  simp

section

variable (indexes : Indexes records index)
include indexes

theorem Indexes.isSome_iff {id : MessageId} :
    (index id).isSome = true ↔ id ∈ records.map MessageBlock.id := by
  rw [isSome_iff_exists]
  constructor
  · rintro ⟨position, found⟩
    obtain ⟨message, there, rfl⟩ := map_eq_some_iff.mp ((indexes id position).mp found)
    exact mem_map_of_mem (mem_of_getElem? there)
  · intro member
    obtain ⟨message, listed, rfl⟩ := mem_map.mp member
    obtain ⟨position, there⟩ := mem_iff_getElem?.mp listed
    exact ⟨position, (indexes _ position).mpr (by rw [there, map_some])⟩

theorem Indexes.append {message : MessageBlock} (fresh : index message.id = none) :
    Indexes (records ++ [message]) (update index message.id (some records.length)) := by
  have absent : message.id ∉ records.map MessageBlock.id := by
    rw [← indexes.isSome_iff, fresh]
    simp
  intro id position
  rcases Nat.lt_trichotomy position records.length with earlier | rfl | later
  · rw [getElem?_append_left earlier]
    by_cases same : id = message.id
    · subst same
      rw [update_self, getElem?_eq_getElem earlier, map_some]
      constructor
      · intro found
        have := some.inj found
        omega
      · intro named
        exact absurd (mem_map.mpr ⟨_, getElem_mem earlier, some.inj named⟩) absent
    · rw [update_of_ne same]
      exact indexes id position
  · by_cases same : id = message.id
    · subst same
      simp
    · rw [update_of_ne same, indexes]
      simp [Ne.symm same]
  · rw [getElem?_eq_none (by simp; omega), map_none]
    by_cases same : id = message.id
    · subst same
      rw [update_self]
      simp only [some.injEq, reduceCtorEq, iff_false]
      omega
    · rw [update_of_ne same, indexes, getElem?_eq_none (by omega), map_none]

theorem Indexes.resolve (member : message ∈ records) :
    ((index message.id).bind fun position => records[position]?) = some message := by
  obtain ⟨position, there⟩ := mem_iff_getElem?.mp member
  have found := (indexes _ position).mpr (by rw [there, map_some])
  rw [found, bind_some, there]

theorem Indexes.mem_of_resolve {id : MessageId}
    (found : ((index id).bind fun position => records[position]?) = some message) :
    message ∈ records ∧ message.id = id := by
  obtain ⟨position, place, there⟩ := bind_eq_some_iff.mp found
  have named := (indexes id position).mp place
  rw [there] at named
  exact ⟨mem_of_getElem? there, some.inj named⟩

theorem Indexes.nodup : (records.map MessageBlock.id).Nodup := by
  rw [nodup_iff_getElem?_ne_getElem?]
  intro first second ordered within same
  rw [length_map] at within
  have earlier : first < records.length := by omega
  rw [getElem?_map, getElem?_map, getElem?_eq_getElem earlier, getElem?_eq_getElem within] at same
  have one := (indexes _ first).mpr (by rw [getElem?_eq_getElem earlier, map_some])
  have two := (indexes _ second).mpr (by rw [getElem?_eq_getElem within, map_some])
  rw [map_some, map_some, some_inj] at same
  rw [same, two] at one
  have := some.inj one
  omega

end

end Indexes

namespace CanonicalSelection

def ordinary (messages : List MessageBlock) : Nat :=
  messages.countP fun message => message.agentStatusMetadata.isNone

def statusOf (module : AgentStatusModuleId) (message : MessageBlock) : Option (MessageId × Int) :=
  message.agentStatusMetadata.bind fun metadata =>
    if module ∈ metadata.modules then some (message.id, metadata.generatedAt) else none

/-- The derived fields agree with the selected messages. -/
structure Sound (selection : CanonicalSelection) : Prop where
  placed : Indexes selection.records selection.position
  counted : selection.nonStatus = ordinary selection.records
  since : ∀ id position count, selection.positions id = some (position, count) →
    count = ordinary (selection.records.take (position + 1))
  newest : ∀ module,
    selection.latestStatus module = selection.records.reverse.findSome? (statusOf module)

theorem Sound.empty : Sound {} :=
  ⟨Indexes.nil, rfl, by simp, by simp⟩

theorem append_eq_some_iff {next} {selection : CanonicalSelection} :
    selection.append message = some next ↔
      selection.position message.id = none ∧ next = selection.appended message := by
  unfold append position
  cases selection.positions message.id <;> simp [eq_comm]

theorem position_appended (selection : CanonicalSelection) (message : MessageBlock) :
    (selection.appended message).position =
      update selection.position message.id (some selection.records.length) := by
  funext id
  by_cases same : id = message.id
  · subst same
    simp [position, appended]
  · simp [position, appended, same]

theorem ordinary_concat (messages : List MessageBlock) (message : MessageBlock) :
    ordinary (messages ++ [message]) =
      ordinary messages + (if message.agentStatusMetadata.isSome then 0 else 1) := by
  rw [ordinary, ordinary, countP_append]
  cases status : message.agentStatusMetadata <;> simp [status]

theorem Sound.appended {selection : CanonicalSelection} {message : MessageBlock}
    (sound : selection.Sound) (absent : selection.position message.id = none) :
    (selection.appended message).Sound := by
  constructor
  · rw [position_appended]
    exact sound.placed.append absent
  · rw [CanonicalSelection.appended, ordinary_concat, sound.counted]
  · intro id place count found
    by_cases same : id = message.id
    · subst same
      simp only [CanonicalSelection.appended, update_self, some.injEq, Prod.mk.injEq] at found ⊢
      obtain ⟨rfl, rfl⟩ := found
      rw [take_of_length_le (by simp), ordinary_concat, sound.counted]
    · simp only [CanonicalSelection.appended, update_of_ne same] at found ⊢
      -- an earlier message stands before the appended one
      have before : place < selection.records.length := by
        have there := (sound.placed id place).mp (by simp [position, found])
        obtain ⟨_, there, -⟩ := map_eq_some_iff.mp there
        exact (List.getElem?_eq_some_iff.mp there).1
      rw [take_append_of_le_length (by omega)]
      exact sound.since id place count found
  · intro module
    simp only [CanonicalSelection.appended]
    rw [reverse_append, reverse_singleton, singleton_append, findSome?_cons, ← sound.newest]
    cases status : message.agentStatusMetadata with
    | none => simp [statusOf, status]
    | some metadata => by_cases shown : module ∈ metadata.modules <;> simp [statusOf, status, shown]

end CanonicalSelection

namespace ConversationState

structure Sound (state : ConversationState) : Prop where
  indexed : Indexes state.ledger.records state.ledger.index
  selection : state.surface.active.Sound
  shared : ∀ message ∈ state.surface.active.records, message ∈ state.ledger.records
  history : state.surface.active.ids =
    state.surface.historyBaseActive ++ state.surface.ops.map SurfaceOp.introduces
  counted : state.surface.revision = state.surface.historyBaseRevision + state.surface.ops.length

/-- What an accepted commit does to the state, and nothing else. -/
structure Accepts (state : ConversationState) (message : MessageBlock) (next : ConversationState) :
    Prop where
  fresh : state.ledger.index message.id = none
  ledger : next.ledger = state.ledger.appendAfterValidation message
  inactive : state.surface.active.position message.id = none
  active : next.surface.active = state.surface.active.appended message
  ops : next.surface.ops = state.surface.ops ++ [.append message.id]
  revision : next.surface.revision = state.surface.revision + 1
  baseRevision : next.surface.historyBaseRevision = state.surface.historyBaseRevision
  baseActive : next.surface.historyBaseActive = state.surface.historyBaseActive
  generation : next.surface.compactionGeneration = state.surface.compactionGeneration

variable {state : ConversationState} {message : MessageBlock}

theorem validateCommit_eq_ok {id : MessageId} (valid : state.validateCommit message = .ok id) :
    id = message.id ∧ state.surface.active.position message.id = none ∧
      state.ledger.index message.id = none := by
  unfold validateCommit at valid
  split at valid
  · cases valid
  rename_i inactive
  split at valid
  · cases valid
  · rename_i absent
    cases valid
    refine ⟨rfl, ?_, ?_⟩
    · simpa [ConversationSurface.isActive] using inactive
    · simpa [MessageLedger.contains] using absent

@[simp] theorem get_appendAfterValidation (ledger : MessageLedger) (message : MessageBlock) :
    (ledger.appendAfterValidation message).get message.id = some message := by
  simp [MessageLedger.get, MessageLedger.appendAfterValidation]

/-- Installing a validated commit: it is accepted, unless no revision is left. -/
theorem installPrepared_eq {id : MessageId} (valid : state.validateCommit message = .ok id) :
    (state.installPrepared { id, message } = none ∧ 2 ^ 64 ≤ state.surface.revision + 1) ∨
      ∃ next, state.installPrepared { id, message } = some (next, id) ∧
        Accepts state message next := by
  obtain ⟨rfl, inactive, fresh⟩ := validateCommit_eq_ok valid
  have appended := CanonicalSelection.append_eq_some_iff.mpr ⟨inactive, rfl⟩
  by_cases room : state.surface.revision + 1 < 2 ^ 64
  · right
    refine ⟨{ ledger := state.ledger.appendAfterValidation message,
              surface := { state.surface with
                active := state.surface.active.appended message,
                ops := state.surface.ops ++ [.append message.id],
                revision := state.surface.revision + 1 } }, ?_, ?_⟩
    · have next : nextRevision state.surface.revision = some (state.surface.revision + 1) :=
        if_pos room
      simp [installPrepared, ConversationSurface.appendAfterValidation, appended, next]
    · exact ⟨fresh, rfl, inactive, rfl, rfl, rfl, rfl, rfl, rfl⟩
  · left
    refine ⟨?_, Nat.le_of_not_lt room⟩
    have last : nextRevision state.surface.revision = none := if_neg room
    simp [installPrepared, ConversationSurface.appendAfterValidation, last]

/-- All that a committed message can have done: nothing, when it was refused, or the
one append. -/
theorem perform_cases (state : ConversationState) (operation : Operation) :
    (∃ error, state.perform operation = some (state, .error error)) ∨
      (state.perform operation = none ∧ 2 ^ 64 ≤ state.surface.revision + 1) ∨
      ∃ next, state.perform operation = some (next, .ok operation.message.id) ∧
        Accepts state operation.message next := by
  have both : state.perform operation = match state.validateCommit operation.message with
      | .error error => some (state, .error error)
      | .ok id => (state.installPrepared { id, message := operation.message }).map
          fun (next, id) => (next, .ok id) := by
    cases operation with
    | commit message => rfl
    | prepareInstall message =>
      simp only [perform, prepareCommit, Operation.message]
      cases state.validateCommit message <;> rfl
  rw [both]
  cases valid : state.validateCommit operation.message with
  | error error => exact .inl ⟨error, rfl⟩
  | ok id =>
    right
    obtain ⟨rfl, -, -⟩ := validateCommit_eq_ok valid
    rcases installPrepared_eq valid with ⟨panics, full⟩ | ⟨next, installed, accepts⟩
    · exact .inl ⟨by simp [panics], full⟩
    · exact .inr ⟨next, by simp [installed], accepts⟩

theorem Accepts.sound {next} (accepts : Accepts state message next) (sound : state.Sound) :
    next.Sound := by
  have records : next.surface.active.records = state.surface.active.records ++ [message] := by
    rw [accepts.active, CanonicalSelection.appended]
  constructor
  · rw [accepts.ledger]
    exact sound.indexed.append accepts.fresh
  · rw [accepts.active]
    exact sound.selection.appended accepts.inactive
  · intro other member
    rw [records, mem_append, mem_singleton] at member
    rw [accepts.ledger, MessageLedger.appendAfterValidation, mem_append, mem_singleton]
    exact member.imp_left (sound.shared other)
  · have listed := sound.history
    simp only [CanonicalSelection.ids] at listed ⊢
    rw [records, accepts.baseActive, accepts.ops, map_append, listed]
    simp [SurfaceOp.introduces]
  · rw [accepts.revision, accepts.baseRevision, accepts.ops, sound.counted, length_append]
    simp [Nat.add_assoc]

theorem Sound.new : Sound new :=
  ⟨Indexes.nil, .empty, by simp [ConversationState.new], rfl, rfl⟩

variable {ledger : MessageLedger}

theorem loadMessage_indexed {next}
    (indexed : Indexes ledger.records ledger.index)
    (loaded : loadMessage ledger message = .ok next) : Indexes next.records next.index := by
  unfold loadMessage at loaded
  split at loaded
  · cases loaded
    exact indexed
  · rw [Checked.mapError_eq_ok_iff, MessageLedger.append] at loaded
    split at loaded
    · cases loaded
    · rename_i absent
      cases loaded
      exact indexed.append (by simpa [MessageLedger.contains] using absent)

theorem foldlM_loadMessage_indexed {next} {messages : List MessageBlock}
    (indexed : Indexes ledger.records ledger.index)
    (loaded : messages.foldlM loadMessage ledger = .ok next) : Indexes next.records next.index := by
  induction messages generalizing ledger with
  | nil =>
    cases loaded
    exact indexed
  | cons message messages ih =>
    rw [foldlM_cons, Checked.bind_eq_ok_iff] at loaded
    obtain ⟨middle, first, rest⟩ := loaded
    exact ih (loadMessage_indexed indexed first) rest

/-- The identities that are kept are new ones, each once. -/
theorem nodup_retainFirst (seen ids : List MessageId) :
    (retainFirst seen ids).Nodup ∧ ∀ id ∈ retainFirst seen ids, id ∉ seen := by
  induction ids generalizing seen with
  | nil => simp [retainFirst]
  | cons id ids ih =>
    unfold retainFirst
    split
    · exact ih seen
    · rename_i new
      obtain ⟨distinct, fresh⟩ := ih _
      refine ⟨nodup_cons.mpr ⟨fun member => fresh id member mem_cons_self, distinct⟩, ?_⟩
      intro other member
      rcases mem_cons.mp member with rfl | member
      · exact new
      · exact fun old => fresh other member (.tail _ old)

/-- Selecting distinct identities that are not selected yet never panics; when every
one resolves, the selection shares the bodies of the ledger. -/
theorem selectActive_spec (indexed : Indexes ledger.records ledger.index)
    {ids : List MessageId} {selection : CanonicalSelection} (sound : selection.Sound)
    (shared : ∀ message ∈ selection.records, message ∈ ledger.records)
    (distinct : ids.Nodup) (fresh : ∀ id ∈ ids, id ∉ selection.ids) :
    ∃ result, selectActive ledger selection ids = some result ∧ ∀ active, result = .ok active →
        active.Sound ∧ ∀ message ∈ active.records, message ∈ ledger.records := by
  induction ids generalizing selection with
  | nil => exact ⟨_, rfl, by rintro _ ⟨⟩; exact ⟨sound, shared⟩⟩
  | cons id ids ih =>
    rw [selectActive]
    cases found : ledger.get id with
    | none => exact ⟨_, rfl, by rintro _ ⟨⟩⟩
    | some message =>
      obtain ⟨member, named⟩ := indexed.mem_of_resolve found
      have absent : selection.position message.id = none := by
        have new := fresh id mem_cons_self
        rw [← named] at new
        rw [← not_isSome_iff_eq_none]
        exact fun old => new (sound.placed.isSome_iff.mp old)
      have appended := CanonicalSelection.append_eq_some_iff.mpr ⟨absent, rfl⟩
      rw [nodup_cons] at distinct
      simp only [appended, bind_eq_bind, bind_some]
      apply ih (sound.appended absent) ?_ distinct.2 ?_
      · intro other listed
        rw [CanonicalSelection.appended, mem_append, mem_singleton] at listed
        rcases listed with old | rfl
        · exact shared other old
        · exact member
      · intro other listed old
        rw [CanonicalSelection.ids, CanonicalSelection.appended, map_append, mem_append] at old
        rcases old with old | new
        · exact fresh other (.tail _ listed) old
        · rw [map_singleton, mem_singleton, named] at new
          exact distinct.1 (new ▸ listed)

/-- Hydrating a durable head returns, and what it returns is sound. -/
theorem fromDurableHead_spec (messages : List MessageBlock) (activeIds : List MessageId)
    (revision : Nat) (generation : Nat) :
    ∃ result, fromDurableHead messages activeIds revision generation = some result ∧
      ∀ state, result = .ok state → state.Sound ∧ state.surface.revision = revision ∧
        state.surface.historyBaseRevision = revision ∧ state.surface.ops = [] := by
  unfold fromDurableHead
  cases loaded : messages.foldlM loadMessage ({} : MessageLedger) with
  | error error => exact ⟨_, rfl, by rintro _ ⟨⟩⟩
  | ok ledger =>
    have indexed : Indexes ledger.records ledger.index :=
      foldlM_loadMessage_indexed Indexes.nil loaded
    obtain ⟨result, selected, spec⟩ := selectActive_spec indexed CanonicalSelection.Sound.empty
      (by simp) (nodup_retainFirst [] activeIds).1 (by simp [CanonicalSelection.ids])
    simp only [selected, map_some]
    refine ⟨_, rfl, ?_⟩
    intro state opened
    cases result with
    | error error => cases opened
    | ok active =>
      cases opened
      obtain ⟨sound, shared⟩ := spec active rfl
      exact ⟨⟨indexed, sound, shared, by simp [ConversationSurface.fromCurrentHead],
        by simp [ConversationSurface.fromCurrentHead]⟩, rfl, rfl, rfl⟩

/-- One state of a conversation and a later one: nothing that was committed is changed
or removed, and the operations of the later state continue those of the earlier. -/
structure Extends (earlier later : ConversationState) : Prop where
  records : earlier.ledger.records <+: later.ledger.records
  ops : earlier.surface.ops <+: later.surface.ops
  baseRevision : later.surface.historyBaseRevision = earlier.surface.historyBaseRevision
  baseActive : later.surface.historyBaseActive = earlier.surface.historyBaseActive

theorem Extends.refl (state : ConversationState) : Extends state state :=
  ⟨prefix_refl _, prefix_refl _, rfl, rfl⟩

theorem Extends.trans (first : Extends a b) (second : Extends b c) : Extends a c :=
  ⟨first.records.trans second.records, first.ops.trans second.ops,
    second.baseRevision.trans first.baseRevision, second.baseActive.trans first.baseActive⟩

theorem Accepts.extends {next} (accepts : Accepts state message next) : Extends state next := by
  refine ⟨?_, ?_, accepts.baseRevision, accepts.baseActive⟩
  · rw [accepts.ledger]
    exact prefix_append _ _
  · rw [accepts.ops]
    exact prefix_append _ _

def accepted (results : List (Except ConversationError MessageId)) : Nat :=
  results.countP fun result => result.isOk

theorem run_spec (sound : state.Sound) (ran : state.run operations = some (final, results)) :
    final.Sound ∧ Extends state final ∧
      final.surface.revision = state.surface.revision + accepted results := by
  induction operations generalizing state results with
  | nil =>
    cases ran
    exact ⟨sound, .refl _, rfl⟩
  | cons operation operations ih =>
    rw [run] at ran
    rcases perform_cases state operation with ⟨error, refused⟩ | ⟨panics, -⟩ | ⟨next, done, accepts⟩
    · simp only [refused, bind_eq_bind, bind_some, bind_eq_some_iff] at ran
      obtain ⟨⟨_, later⟩, rest, ran⟩ := ran
      cases ran
      obtain ⟨held, extended, revision⟩ := ih sound rest
      exact ⟨held, extended, by simpa [accepted, Except.isOk, Except.toBool] using revision⟩
    · simp [panics] at ran
    · simp only [done, bind_eq_bind, bind_some, bind_eq_some_iff] at ran
      obtain ⟨⟨_, later⟩, rest, ran⟩ := ran
      cases ran
      obtain ⟨held, extended, revision⟩ := ih (accepts.sound sound) rest
      refine ⟨held, accepts.extends.trans extended, ?_⟩
      rw [revision, accepts.revision]
      simp [accepted, Except.isOk, Except.toBool]
      omega

theorem foldl_introduces (ops : List SurfaceOp) (active : List MessageId) :
    ops.foldl (fun active op => active ++ [op.introduces]) active =
      active ++ ops.map SurfaceOp.introduces := by
  induction ops generalizing active with
  | nil => simp
  | cons op ops ih => simp [ih]

/-- A retained revision is reconstructed from the base and the operations up to it. -/
theorem Sound.reconstruct_eq_ok_iff (sound : state.Sound) : state.reconstruct revision = .ok ids ↔
      state.surface.historyBaseRevision ≤ revision ∧ revision ≤ state.surface.revision ∧
        ids = state.surface.historyBaseActive ++
          (state.surface.ops.take (revision - state.surface.historyBaseRevision)).map
            SurfaceOp.introduces := by
  have counted := sound.counted
  rw [reconstruct, Checked.mapError_eq_ok_iff, ConversationSurface.reconstruct]
  split
  · rename_i outside
    simp only [Bool.or_eq_true, decide_eq_true_eq] at outside
    constructor
    · rintro ⟨⟩
    · rintro ⟨above, below, -⟩
      omega
  · rename_i inside
    simp only [Bool.or_eq_true, decide_eq_true_eq, not_or, not_lt] at inside
    rw [if_neg (by omega), foldl_introduces]
    constructor
    · intro built
      cases built
      exact ⟨inside.1, inside.2, rfl⟩
    · rintro ⟨-, -, rfl⟩
      rfl

/-- Every reader that replays the retained operations sees the same identities. -/
theorem foldlM_applySurfaceOp {ops : List SurfaceOp}
    (distinct : (active ++ ops.map SurfaceOp.introduces).Nodup) :
    ops.foldlM applySurfaceOp active = .ok (active ++ ops.map SurfaceOp.introduces) := by
  induction ops generalizing active with
  | nil => simp [pure, Except.pure]
  | cons op ops ih =>
    obtain ⟨id⟩ := op
    have absent : id ∉ active := by
      intro member
      exact (nodup_append.mp distinct).2.2 id member id mem_cons_self rfl
    rw [foldlM_cons, applySurfaceOp, if_neg absent, Checked.ok_bind,
      ih (by simpa [SurfaceOp.introduces] using distinct)]
    simp [SurfaceOp.introduces]

inductive Opened : Nat → ConversationState → Prop
  | new : Opened 0 .new
  | durable {messages : List MessageBlock} {activeIds : List MessageId}
      {revision : Nat} {generation : Nat} {state : ConversationState}
      (hydrated : fromDurableHead messages activeIds revision generation = some (.ok state)) :
      Opened revision state

theorem Opened.spec (start : Opened base state) : state.Sound ∧ state.surface.revision = base ∧
      state.surface.historyBaseRevision = base ∧ state.surface.ops = [] := by
  cases start with
  | new => exact ⟨.new, rfl, rfl, rfl⟩
  | @durable messages activeIds _ generation _ hydrated =>
    obtain ⟨result, returned, spec⟩ := fromDurableHead_spec messages activeIds base generation
    rw [hydrated] at returned
    exact spec state (some.inj returned).symm

/-- The conversation state over whole runs. `opened` is any start, `earlier` any state a
run reaches and `later` any state after it. -/
theorem conversation_invariant {base : Nat}
    {opened earlier later : ConversationState} {operations more : List Operation}
    {results moreResults : List (Except ConversationError MessageId)}
    (start : Opened base opened) (ran : opened.run operations = some (earlier, results))
    (continued : earlier.run more = some (later, moreResults)) :
    -- active identities are distinct, and the ledger holds the bodies the surface shares
    (earlier.surface.active.ids.Nodup ∧ ∀ message ∈ earlier.surface.active.records,
      earlier.ledger.get message.id = some message ∧
        earlier.surface.active.get message.id = some message) ∧
    earlier.surface.revision = base + accepted results ∧
    -- what can be reconstructed, and what it is
    (∀ revision ids, earlier.reconstruct revision = .ok ids ↔
      base ≤ revision ∧ revision ≤ earlier.surface.revision ∧ ids = earlier.surface.active.ids.take
          (opened.surface.active.ids.length + (revision - base))) ∧
    (∀ revision ids, earlier.reconstruct revision = .ok ids → later.reconstruct revision = .ok ids ∧
      (earlier.surface.ops.take (revision - base)).foldlM applySurfaceOp
        earlier.surface.historyBaseActive = .ok ids) ∧
    (∀ operation next error, earlier.perform operation = some (next, .error error) →
      next = earlier) ∧
    -- committed records stay, in place and under their identity
    (earlier.ledger.records <+: later.ledger.records ∧ ∀ id message,
      earlier.ledger.get id = some message → later.ledger.get id = some message) ∧
    -- a commit that does not return has exhausted the revisions
    ∀ operation, earlier.perform operation = none → 2 ^ 64 ≤ earlier.surface.revision + 1 := by
  obtain ⟨openedSound, openedRevision, openedBase, openedOps⟩ := start.spec
  obtain ⟨sound, extended, revision⟩ := run_spec openedSound ran
  obtain ⟨laterSound, extendedLater, laterRevision⟩ := run_spec sound continued
  have baseRevision := extended.baseRevision.trans openedBase
  have baseIds : earlier.surface.historyBaseActive = opened.surface.active.ids := by
    rw [extended.baseActive, openedSound.history, openedOps, map_nil, append_nil]
  have prefixIds : ∀ count, earlier.surface.historyBaseActive ++
      (earlier.surface.ops.take count).map SurfaceOp.introduces =
        earlier.surface.active.ids.take (opened.surface.active.ids.length + count) := by
    intro count
    rw [sound.history, ← baseIds, take_length_add_append, map_take]
  refine ⟨⟨sound.selection.placed.nodup, ?_⟩, ?_, ?_, ?_, ?_, ⟨extendedLater.records, ?_⟩, ?_⟩
  · intro message member
    exact ⟨sound.indexed.resolve (sound.shared message member),
      sound.selection.placed.resolve member⟩
  · rw [revision, openedRevision]
  · intro wanted ids
    rw [sound.reconstruct_eq_ok_iff, baseRevision, prefixIds]
  · intro wanted ids built
    obtain ⟨above, below, rfl⟩ := sound.reconstruct_eq_ok_iff.mp built
    rw [baseRevision] at above ⊢
    constructor
    · rw [laterSound.reconstruct_eq_ok_iff, extendedLater.baseRevision,
        extendedLater.baseActive, baseRevision]
      refine ⟨above, by omega, ?_⟩
      obtain ⟨rest, same⟩ := extendedLater.ops
      have counted := sound.counted
      rw [← same, take_append_of_le_length (by omega)]
    · apply foldlM_applySurfaceOp
      rw [prefixIds]
      exact sound.selection.placed.nodup.sublist (take_sublist _ _)
  · intro operation next error refused
    rcases perform_cases earlier operation with ⟨_, same⟩ | ⟨panics, -⟩ | ⟨_, done, -⟩
    · rw [refused] at same
      cases same
      rfl
    · rw [refused] at panics
      cases panics
    · rw [refused] at done
      cases done
  · intro id message found
    obtain ⟨member, rfl⟩ := sound.indexed.mem_of_resolve found
    exact laterSound.indexed.resolve (extendedLater.records.subset member)
  · intro operation panics
    rcases perform_cases earlier operation with ⟨_, same⟩ | ⟨-, full⟩ | ⟨_, done, -⟩
    · rw [panics] at same
      cases same
    · exact full
    · rw [panics] at done
      cases done

def humanMessage (id : MessageId) : MessageBlock :=
  .user { id, content := [], source := .human, kind := .message, timestamp := none }

/-- A second commit under an identity is refused and changes nothing. -/
theorem conversation_invariant_refused :
    ∃ state results, new.run [.commit (humanMessage "a"), .prepareInstall (humanMessage "a"),
        .prepareInstall (humanMessage "b")] = some (state, results) ∧
      state.surface.active.ids.Nodup ∧ state.surface.revision = 0 + accepted results ∧
      accepted results = 2 ∧ state.surface.active.ids = ["a", "b"] := by
  obtain ⟨⟨state, results⟩, ran⟩ : ∃ final, new.run [.commit (humanMessage "a"),
      .prepareInstall (humanMessage "a"), .prepareInstall (humanMessage "b")] = some final :=
    ⟨_, rfl⟩
  have rest : state.run [] = some (state, []) := rfl
  obtain ⟨⟨distinct, -⟩, revision, -⟩ := conversation_invariant .new ran rest
  cases ran
  exact ⟨_, _, rfl, distinct, revision, rfl, rfl⟩

end ConversationState

end RustX.Conversation
