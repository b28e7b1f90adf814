import RustX.Publication.Frame

/-!
The bounded publication coalescer: provider deltas are buffered and released as
fewer frames. Bytes, latency and structure decide when a frame exists, never
what a reader of the stream sees.
-/
namespace RustX.Publication

open PublicationPayload PublicationFrame List

structure CoalescePolicy where
  maxBytes : Nat := 256
  maxLatencyMillis : Nat := 50

/-- Addition of 64-bit counters that stops at the largest value. -/
def saturatingAdd (a b : Nat) : Nat :=
  min (a + b) (2 ^ 64 - 1)

structure PublicationCoalescer where
  streamId : PublicationStreamId
  messageId : MessageId
  policy : CoalescePolicy
  nextSequence : Nat := 0
  pending : List PublicationPayload := []
  pendingBytes : Nat := 0
  oldestPendingDeadlineMillis : Option Nat := none

namespace PublicationCoalescer

def new (streamId : PublicationStreamId) (messageId : MessageId) (policy : CoalescePolicy) :
    PublicationCoalescer :=
  { streamId, messageId, policy }

/-- The buffer after a payload: merged into the newest one, or behind it. -/
def buffer (pending : List PublicationPayload) (payload : PublicationPayload) :
    List PublicationPayload :=
  if payload.isStructuralBoundary then pending ++ [payload]
  else
    match pending.getLast? with
    | some last =>
      if last.isStructuralBoundary then pending ++ [payload]
      else
        match last.merge payload with
        | some merged => pending.dropLast ++ [merged]
        | none => pending ++ [payload]
    | none => pending ++ [payload]

section

variable (coalescer : PublicationCoalescer)

/-- `push` at a reading of the clock: whether the policy requires a flush now. -/
def push (nowMillis : Nat) (payload : PublicationPayload) : PublicationCoalescer × Bool :=
  let pendingBytes := saturatingAdd coalescer.pendingBytes payload.byteWeight
  ({ coalescer with
      oldestPendingDeadlineMillis := some (coalescer.oldestPendingDeadlineMillis.getD
        (saturatingAdd nowMillis coalescer.policy.maxLatencyMillis))
      pendingBytes
      pending := buffer coalescer.pending payload },
    payload.isStructuralBoundary || decide (coalescer.policy.maxBytes ≤ pendingBytes))

def «seal» (payloads : List PublicationPayload) : PublicationCoalescer × List PublicationFrame :=
  ({ coalescer with nextSequence := coalescer.nextSequence + payloads.length },
    payloads.mapIdx fun index payload =>
      { streamId := coalescer.streamId, messageId := coalescer.messageId,
        sequence := coalescer.nextSequence + index, payload })

def takeFrames : PublicationCoalescer × List PublicationFrame :=
  «seal» { coalescer with pending := [], pendingBytes := 0, oldestPendingDeadlineMillis := none }
    coalescer.pending

def takeTerminalFrames : PublicationCoalescer × List PublicationFrame :=
  let (coalescer, frames) := coalescer.takeFrames
  if frames.isEmpty then coalescer.seal [.terminalOnly] else (coalescer, frames)

inductive Drain
  | frames | terminalFrames

/-- What the owner of a stream does with its coalescer. A flush that `push` asks
for, a deadline that elapsed and the end of the stream are all drains. -/
inductive Operation
  | push (nowMillis : Nat) (payload : PublicationPayload)
  | drain (kind : Drain)

def drain : Drain → PublicationCoalescer × List PublicationFrame
  | .frames => coalescer.takeFrames
  | .terminalFrames => coalescer.takeTerminalFrames

def perform : Operation → PublicationCoalescer × List PublicationFrame
  | .push nowMillis payload => ((coalescer.push nowMillis payload).1, [])
  | .drain kind => coalescer.drain kind

end

def run (coalescer : PublicationCoalescer) :
    List Operation → PublicationCoalescer × List PublicationFrame
  | [] => (coalescer, [])
  | operation :: operations =>
    let (next, frames) := coalescer.perform operation
    let (final, later) := next.run operations
    (final, frames ++ later)

end PublicationCoalescer

open PublicationCoalescer

/-- The payload an operation hands over, in order. -/
def pushed (operations : List Operation) : List PublicationPayload :=
  operations.filterMap fun
    | .push _ payload => some payload
    | .drain _ => none

section Observation

variable {σ : Type} {step : σ → PublicationPayload → σ}

/-- A fold over payloads that cannot tell a merged payload from its two parts, nor
a bare terminal from nothing. -/
structure Unobservant (step : σ → PublicationPayload → σ) : Prop where
  merge : ∀ state first second merged, first.merge second = some merged →
    step (step state first) second = step state merged
  terminal : ∀ state, step state .terminalOnly = state

theorem foldl_buffer (unobservant : Unobservant step) (state : σ)
    (pending : List PublicationPayload) (payload : PublicationPayload) :
    (buffer pending payload).foldl step state = (pending ++ [payload]).foldl step state := by
  unfold buffer
  split
  · rfl
  split
  · rename_i last newest
    split
    · rfl
    · split
      · rename_i merged merges
        obtain ⟨earlier, rfl⟩ := getLast?_eq_some_iff.mp newest
        simp [unobservant.merge _ _ _ _ merges]
      · rfl
  · rfl

section

variable (coalescer : PublicationCoalescer)

/-- What a drain leaves and emits: an empty buffer, and frames numbered on from the
last one whose payloads are the buffer, or a bare terminal for an empty buffer. -/
theorem drain_spec (kind : Drain) :
    ∃ payloads, (payloads = coalescer.pending ∨
        coalescer.pending = [] ∧ payloads = [.terminalOnly]) ∧
      coalescer.drain kind =
        «seal» { coalescer with pending := [], pendingBytes := 0,
                                oldestPendingDeadlineMillis := none } payloads := by
  cases kind with
  | frames => exact ⟨coalescer.pending, .inl rfl, rfl⟩
  | terminalFrames =>
    cases buffered : coalescer.pending with
    | nil =>
      refine ⟨[.terminalOnly], .inr ⟨rfl, rfl⟩, ?_⟩
      simp [drain, takeTerminalFrames, takeFrames, «seal», buffered]
    | cons payload payloads =>
      refine ⟨payload :: payloads, .inl rfl, ?_⟩
      simp [drain, takeTerminalFrames, takeFrames, «seal», buffered]

@[simp] theorem seal_payloads (payloads : List PublicationPayload) :
    (coalescer.seal payloads).2.map payload = payloads := by
  apply ext_getElem
  · simp [«seal»]
  · intro index _ _
    simp [«seal»]

@[simp] theorem seal_pending (payloads : List PublicationPayload) :
    (coalescer.seal payloads).1.pending = coalescer.pending := rfl

end

/-- One operation: what was emitted and what is buffered fold to what they folded to
before, with the handed over payload behind. -/
theorem perform_foldl (unobservant : Unobservant step) (state : σ)
    (coalescer : PublicationCoalescer) (operation : Operation) :
    (((coalescer.perform operation).2.map payload) ++
        (coalescer.perform operation).1.pending).foldl step state =
      (coalescer.pending ++ pushed [operation]).foldl step state := by
  cases operation with
  | push nowMillis payload => exact foldl_buffer unobservant state _ payload
  | drain kind =>
    obtain ⟨payloads, same | ⟨empty, bare⟩, drained⟩ := drain_spec coalescer kind
    · simp [perform, drained, same, pushed]
    · simp [perform, drained, empty, bare, pushed, unobservant.terminal]

/-- A whole run: every fold that is blind to merging sees the payloads that were
handed over. -/
theorem run_foldl (unobservant : Unobservant step) (operations : List Operation) (state : σ)
    (coalescer : PublicationCoalescer) :
    (((coalescer.run operations).2.map payload) ++
        (coalescer.run operations).1.pending).foldl step state =
      (coalescer.pending ++ pushed operations).foldl step state := by
  induction operations generalizing state coalescer with
  | nil => simp [run, pushed]
  | cons operation operations ih =>
    have first := perform_foldl unobservant state coalescer operation
    have split : pushed (operation :: operations) = pushed [operation] ++ pushed operations := by
      cases operation <;> simp [pushed]
    rw [foldl_append] at first
    simp only [run, map_append, append_assoc]
    rw [foldl_append, ih, foldl_append, first, split, ← foldl_append, append_assoc]

end Observation

section

variable (coalescer : PublicationCoalescer)

def Numbered (first : Nat) (frames : List PublicationFrame) : Prop :=
  frames.map sequence = List.range' first frames.length ∧
    ∀ frame ∈ frames, frame.streamId = coalescer.streamId ∧ frame.messageId = coalescer.messageId

theorem seal_numbered (payloads : List PublicationPayload) :
    Numbered coalescer coalescer.nextSequence (coalescer.seal payloads).2 := by
  constructor
  · apply ext_getElem
    · simp [«seal»]
    · intro index _ _
      simp [«seal»]
  · intro frame member
    obtain ⟨index, within, rfl⟩ := mem_mapIdx.mp member
    exact ⟨rfl, rfl⟩

/-- One operation emits the next numbers, and no number is used again. -/
theorem perform_numbered (operation : Operation) :
    Numbered coalescer coalescer.nextSequence (coalescer.perform operation).2 ∧
      (coalescer.perform operation).1.nextSequence =
        coalescer.nextSequence + (coalescer.perform operation).2.length ∧
      (coalescer.perform operation).1.streamId = coalescer.streamId ∧
      (coalescer.perform operation).1.messageId = coalescer.messageId := by
  cases operation with
  | push nowMillis payload => exact ⟨⟨rfl, by simp [perform]⟩, rfl, rfl, rfl⟩
  | drain kind =>
    obtain ⟨payloads, -, drained⟩ := drain_spec coalescer kind
    rw [perform, drained]
    exact ⟨seal_numbered _ payloads, by simp [«seal»], rfl, rfl⟩

theorem run_numbered (operations : List Operation) (coalescer : PublicationCoalescer) :
    Numbered coalescer coalescer.nextSequence (coalescer.run operations).2 := by
  induction operations generalizing coalescer with
  | nil => exact ⟨rfl, by simp [run]⟩
  | cons operation operations ih =>
    obtain ⟨⟨first, owned⟩, next, stream, message⟩ := perform_numbered coalescer operation
    obtain ⟨later, ownedLater⟩ := ih (coalescer.perform operation).1
    rw [next] at later
    constructor
    · simp only [run, map_append, length_append, first, later]
      rw [range'_append_1]
    · intro frame member
      rcases mem_append.mp member with early | late
      · exact owned frame early
      · rw [← stream, ← message]
        exact ownedLater frame late

def textOf (target : Target) (payloads : List PublicationPayload) : String :=
  payloads.foldl (fun text payload =>
    match payload.suffix? with
    | some (own, suffix) => if own = target then text ++ suffix else text
    | none => text) ""

def structural (payloads : List PublicationPayload) : List PublicationPayload :=
  payloads.filter PublicationPayload.isStructuralBoundary

def uncoalesced (streamId : PublicationStreamId) (messageId : MessageId)
    (payloads : List PublicationPayload) : List PublicationFrame :=
  payloads.mapIdx fun sequence payload => { streamId, messageId, sequence, payload }

theorem textOf_unobservant (target : Target) :
    Unobservant fun (text : String) (payload : PublicationPayload) =>
      match payload.suffix? with
      | some (own, suffix) => if own = target then text ++ suffix else text
      | none => text := by
  constructor
  · intro text first second merged merges
    obtain ⟨own, before, after, rfl, rfl, rfl⟩ := merge_eq_some_iff.mp merges
    by_cases same : own = target <;> simp [same, String.append_assoc]
  · intro text
    rfl

theorem structural_unobservant :
    Unobservant fun (seen : List PublicationPayload) (payload : PublicationPayload) =>
      if payload.isStructuralBoundary then seen ++ [payload] else seen := by
  constructor
  · intro seen first second merged merges
    obtain ⟨own, before, after, rfl, rfl, rfl⟩ := merge_eq_some_iff.mp merges
    cases own <;> rfl
  · intro seen
    rfl

theorem structural_eq_foldl (payloads seen : List PublicationPayload) :
    payloads.foldl (fun seen payload =>
      if payload.isStructuralBoundary then seen ++ [payload] else seen) seen =
        seen ++ structural payloads := by
  induction payloads generalizing seen with
  | nil => simp [structural]
  | cons payload payloads ih =>
    rw [foldl_cons, ih]
    cases boundary : payload.isStructuralBoundary <;> simp [structural, boundary]

theorem consolidateAuditContent_eq [FloatText] (frames : List PublicationFrame) :
    consolidateAuditContent frames = (frames.map payload).foldl consolidatePayload [] := by
  rw [consolidateAuditContent, foldl_map]

theorem uncoalesced_payloads (streamId : PublicationStreamId) (messageId : MessageId)
    (payloads : List PublicationPayload) :
    (uncoalesced streamId messageId payloads).map payload = payloads := by
  apply ext_getElem
  · simp [uncoalesced]
  · intro index _ _
    simp [uncoalesced]

theorem run_append (first second : List Operation) (coalescer : PublicationCoalescer) :
    coalescer.run (first ++ second) = (((coalescer.run first).1.run second).1,
        (coalescer.run first).2 ++ ((coalescer.run first).1.run second).2) := by
  induction first generalizing coalescer with
  | nil => rfl
  | cons operation first ih => simp [run, ih]

theorem run_drain_pending (operations : List Operation)
    (last : Drain) : (coalescer.run (operations ++ [.drain last])).1.pending = [] := by
  obtain ⟨payloads, -, drained⟩ := drain_spec (coalescer.run operations).1 last
  rw [run_append]
  simp [run, perform, drained]

end

/-- Coalescing is invisible. Whatever the policy, the clock and the drains are, after
a drain the emitted frames are numbered from zero without a gap, release each
structural payload once and in order, give each target the text it was given, and
fold to the audit of the stream that releases every payload by itself. -/
theorem coalescing_invisible [FloatText] (streamId : PublicationStreamId) (messageId : MessageId)
    (policy : CoalescePolicy) (operations : List Operation) (last : Drain) :
    let frames := ((new streamId messageId policy).run (operations ++ [.drain last])).2
    let payloads := pushed operations
    frames.map PublicationFrame.sequence = List.range frames.length ∧
      structural (frames.map PublicationFrame.payload) = structural payloads ∧
      (∀ target, textOf target (frames.map PublicationFrame.payload) = textOf target payloads) ∧
      consolidateAuditContent frames =
        consolidateAuditContent (uncoalesced streamId messageId payloads) := by
  intro frames payloads
  have given : pushed (operations ++ [.drain last]) = payloads := by simp [pushed, payloads]
  -- whatever a reader folds, the emitted frames and the payloads agree
  have same {σ : Type} {step : σ → PublicationPayload → σ} (unobservant : Unobservant step)
      (state : σ) : (frames.map payload).foldl step state = payloads.foldl step state := by
    have whole := run_foldl unobservant (operations ++ [.drain last]) state
      (new streamId messageId policy)
    rwa [run_drain_pending, append_nil, given] at whole
  refine ⟨?_, ?_, fun target => same (textOf_unobservant target) "", ?_⟩
  · rw [range_eq_range']
    exact (run_numbered _ (new streamId messageId policy)).1
  · have folds := same structural_unobservant []
    rwa [structural_eq_foldl, structural_eq_foldl] at folds
  · rw [consolidateAuditContent_eq, consolidateAuditContent_eq, uncoalesced_payloads]
    exact same ⟨fun blocks _ _ _ merges => consolidatePayload_merge merges blocks, fun _ => rfl⟩ []

end RustX.Publication
