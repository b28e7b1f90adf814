import RustX.Recovery.Evidence

/-!
What the journal itself says about an attempt, read without the fold: its requests,
the fate of each started tool call, and when a summary of it is true.
-/
namespace RustX.Recovery

open List RuntimeEventEnvelope

abbrev Journal := List RuntimeEventEnvelope

namespace RuntimeEventEnvelope

variable (envelope : RuntimeEventEnvelope)

section

variable (attempt : AttemptId)

def startsCall (call : ToolCallId) : Bool :=
  match envelope.event with
  | .toolExecutionStarted other _ => envelope.attempt = some attempt && other = call
  | _ => false

def settlesCall (call : ToolCallId) : Bool :=
  match envelope.event with
  | .toolExecutionCompleted other _ _ | .toolExecutionFailed other _ _ =>
    envelope.attempt = some attempt && other = call
  | _ => false

/-- A start or an outcome of any call of the attempt. -/
def toolFact : Bool :=
  match envelope.event with
  | .toolExecutionStarted .. | .toolExecutionCompleted .. | .toolExecutionFailed .. =>
    envelope.attempt = some attempt
  | _ => false

def startsRequest : Option RequestId :=
  match envelope.event with
  | .modelRequestStarted .agent request => if envelope.attempt = some attempt then some request else none
  | _ => none

def settlesRequest : Option RequestId :=
  match envelope.event with
  | .modelRequestSettled .agent request _ =>
    if envelope.attempt = some attempt then some request else none
  | _ => none

def requestFact : Bool :=
  (envelope.startsRequest attempt).isSome || (envelope.settlesRequest attempt).isSome

def starts : Bool :=
  envelope.event = .attemptStarted attempt

def ends : Bool :=
  match envelope.event with
  | .attemptTerminal other _ => other = attempt
  | _ => false

end

def commitsAssistant (message : MessageId) : Option AttemptId :=
  match envelope.event with
  | .assistantMessageCommitted other => if other = message then envelope.attempt else none
  | _ => none

end RuntimeEventEnvelope

namespace RuntimeEventEnvelope

theorem requestFact_owner {envelope : RuntimeEventEnvelope} {attempt : AttemptId}
    (fact : envelope.requestFact attempt = true) : envelope.attempt = some attempt := by
  simp only [requestFact, startsRequest, settlesRequest, Bool.or_eq_true] at fact
  rcases fact with started | settled
  · split at started
    · split at started
      · assumption
      · cases started
    · cases started
  · split at settled
    · split at settled
      · assumption
      · cases settled
    · cases settled

theorem toolFact_owner {envelope : RuntimeEventEnvelope} {attempt : AttemptId}
    (fact : envelope.toolFact attempt = true) : envelope.attempt = some attempt := by
  unfold toolFact at fact
  split at fact
  · exact of_decide_eq_true fact
  · exact of_decide_eq_true fact
  · exact of_decide_eq_true fact
  · cases fact

end RuntimeEventEnvelope

namespace Journal

def assistantOwner (journal : Journal) (message : MessageId) : Option AttemptId :=
  journal.reverse.findSome? (·.commitsAssistant message)

/-- The commit of the canonical result of a call of this attempt. A live commit names
the attempt; a recovered one names an active Assistant message that the attempt
committed before. -/
def commitsCall (active : List MessageId) (before : Journal) (envelope : RuntimeEventEnvelope)
    (attempt : AttemptId) (call : ToolCallId) : Bool :=
  match envelope.event with
  | .toolMessageCommitted message other => other = call &&
    match envelope.attempt with
    | some owner => owner = attempt
    | none => active.any fun assistant =>
      message = recoveredToolMessage assistant call && assistantOwner before assistant = some attempt
  | _ => false

/-- What became of a started call. -/
inductive Fate
  | outstanding | answered | lost
  deriving DecidableEq

/-- Read on from a start to the first outcome or the first commit of the call. -/
def fate (active : List MessageId) (attempt : AttemptId) (call : ToolCallId) :
    Journal → Journal → Fate
  | _, [] => .outstanding
  | before, envelope :: rest =>
    if commitsCall active before envelope attempt call then .lost
    else if envelope.settlesCall attempt call then .answered
    else fate active attempt call (before ++ [envelope]) rest

def HasFate (active : List MessageId) (journal : Journal) (attempt : AttemptId)
    (call : ToolCallId) (fate : Fate) : Prop :=
  ∃ before start after, journal = before ++ start :: after ∧ start.startsCall attempt call = true ∧
    Journal.fate active attempt call (before ++ [start]) after = fate

/-- Some started call of the attempt has no outcome before its canonical commit, or
before the end of the journal. -/
def CallUnsettled (active : List MessageId) (journal : Journal) (attempt : AttemptId) : Prop :=
  ∃ call fate, fate ≠ .answered ∧ HasFate active journal attempt call fate

/-- The last request the attempt started is this one, and no outcome of it follows. -/
def RequestOpen (journal : Journal) (attempt : AttemptId) (request : RequestId) : Prop :=
  ∃ before start after, journal = before ++ start :: after ∧
    start.startsRequest attempt = some request ∧
    ∀ later ∈ after, later.startsRequest attempt = none ∧
      later.settlesRequest attempt ≠ some request

def Running (journal : Journal) (attempt : AttemptId) : Prop :=
  (∃ envelope ∈ journal, envelope.starts attempt = true) ∧
    ∀ envelope ∈ journal, envelope.ends attempt = false

/-- An attempt's facts lie between its start and its terminal, and it has at most one
request in flight: none starts while one is open, and an outcome names the open one. -/
structure Orderly (journal : Journal) : Prop where
  started : ∀ before envelope after attempt, journal = before ++ envelope :: after →
    envelope.attempt = some attempt → envelope.starts attempt = false →
    ∃ start ∈ before, start.starts attempt = true
  unfinished : ∀ before envelope after attempt, journal = before ++ envelope :: after →
    envelope.attempt = some attempt ∨ envelope.starts attempt = true →
    ∀ earlier ∈ before, earlier.ends attempt = false
  alone : ∀ before envelope after attempt request open_, journal = before ++ envelope :: after →
    RequestOpen before attempt open_ → envelope.startsRequest attempt ≠ some request ∧
      (envelope.settlesRequest attempt = some request → request = open_)

variable {envelope : RuntimeEventEnvelope}

theorem Orderly.before {before : Journal} (orderly : Orderly (before ++ [envelope])) :
    Orderly before where
  started first event after attempt split :=
    orderly.started first event (after ++ [envelope]) attempt (by simp [split])
  unfinished first event after attempt split :=
    orderly.unfinished first event (after ++ [envelope]) attempt (by simp [split])
  alone first event after attempt request open_ split :=
    orderly.alone first event (after ++ [envelope]) attempt request open_ (by simp [split])

variable {active : List MessageId} {attempt : AttemptId} {call : ToolCallId}

/-- One more event decides only what was still outstanding. -/
theorem fate_snoc (before after : Journal) (envelope : RuntimeEventEnvelope) :
    fate active attempt call before (after ++ [envelope]) =
      if fate active attempt call before after = .outstanding then
        if commitsCall active (before ++ after) envelope attempt call then .lost
        else if envelope.settlesCall attempt call then .answered else .outstanding
      else fate active attempt call before after := by
  induction after generalizing before with
  | nil => simp [fate]
  | cons event rest ih =>
    rw [cons_append]
    simp only [fate]
    split
    · simp
    · split
      · simp
      · rw [ih, append_assoc, singleton_append]

/-- Splits of a longer journal at an event: the last one, or one before. -/
theorem snoc_split {α : Type} {first before after : List α} {last mark : α}
    (split : first ++ [last] = before ++ mark :: after) :
    (after = [] ∧ before = first ∧ mark = last) ∨
      ∃ rest, after = rest ++ [last] ∧ first = before ++ mark :: rest := by
  rcases eq_nil_or_concat after with rfl | ⟨rest, final, rfl⟩
  · have same := append_inj' split rfl
    exact .inl ⟨rfl, same.1.symm, by simpa using same.2.symm⟩
  · rw [concat_eq_append, ← cons_append, ← append_assoc] at split
    have same := append_inj' split rfl
    obtain ⟨rfl⟩ : last = final := by simpa using same.2
    exact .inr ⟨rest, by simp, same.1⟩

section

variable (journal : Journal)
include journal

section

variable (envelope : RuntimeEventEnvelope)

theorem hasFate_snoc (result : Fate) : HasFate active (journal ++ [envelope]) attempt call result ↔
      (envelope.startsCall attempt call = true ∧ result = .outstanding) ∨
        ∃ old, HasFate active journal attempt call old ∧ result = if old = .outstanding then
            if commitsCall active journal envelope attempt call then .lost
            else if envelope.settlesCall attempt call then .answered else .outstanding
          else old := by
  constructor
  · rintro ⟨before, start, after, split, starts, reads⟩
    rcases snoc_split split with ⟨rfl, rfl, rfl⟩ | ⟨rest, rfl, rfl⟩
    · exact .inl ⟨starts, reads.symm⟩
    · rw [fate_snoc, append_assoc, singleton_append] at reads
      exact .inr ⟨_, ⟨before, start, rest, rfl, starts, rfl⟩, reads.symm⟩
  · rintro (⟨starts, rfl⟩ | ⟨old, ⟨before, start, after, rfl, starts, rfl⟩, rfl⟩)
    · exact ⟨journal, envelope, [], rfl, starts, rfl⟩
    · refine ⟨before, start, after ++ [envelope], by simp, starts, ?_⟩
      rw [fate_snoc, append_assoc, singleton_append]

/-- A call is outstanding after an event that starts it, or that neither commits nor
settles it. -/
theorem outstanding_snoc : HasFate active (journal ++ [envelope]) attempt call .outstanding ↔
      envelope.startsCall attempt call = true ∨ (HasFate active journal attempt call .outstanding ∧
          commitsCall active journal envelope attempt call = false ∧
          envelope.settlesCall attempt call = false) := by
  rw [hasFate_snoc]
  constructor
  · rintro (⟨starts, -⟩ | ⟨old, held, result⟩)
    · exact .inl starts
    · cases old <;> simp at result
      split at result
      · cases result
      · split at result
        · cases result
        · exact .inr ⟨held, by simp_all, by simp_all⟩
  · rintro (starts | ⟨held, uncommitted, unsettled⟩)
    · exact .inl ⟨starts, rfl⟩
    · exact .inr ⟨_, held, by simp [uncommitted, unsettled]⟩

/-- A call is lost once it is committed while it is outstanding. -/
theorem lost_snoc : HasFate active (journal ++ [envelope]) attempt call .lost ↔
      HasFate active journal attempt call .lost ∨
        (HasFate active journal attempt call .outstanding ∧
          commitsCall active journal envelope attempt call = true) := by
  rw [hasFate_snoc]
  constructor
  · rintro (⟨-, no⟩ | ⟨old, held, result⟩)
    · cases no
    cases old with
    | outstanding =>
      rw [if_pos rfl] at result
      split at result
      · exact .inr ⟨held, by assumption⟩
      · split at result <;> cases result
    | answered => cases result
    | lost => exact .inl held
  · rintro (held | ⟨held, committed⟩)
    · exact .inr ⟨_, held, rfl⟩
    · exact .inr ⟨_, held, by simp [committed]⟩

theorem assistantOwner_snoc (message : MessageId) : assistantOwner (journal ++ [envelope]) message =
      (envelope.commitsAssistant message).or (assistantOwner journal message) := by
  rw [assistantOwner, reverse_append, reverse_singleton, singleton_append, findSome?_cons]
  cases envelope.commitsAssistant message <;> rfl

theorem requestOpen_snoc (request : RequestId) :
    RequestOpen (journal ++ [envelope]) attempt request ↔
      envelope.startsRequest attempt = some request ∨
        (RequestOpen journal attempt request ∧ envelope.startsRequest attempt = none ∧
          envelope.settlesRequest attempt ≠ some request) := by
  constructor
  · rintro ⟨before, start, after, split, starts, quiet⟩
    rcases snoc_split split with ⟨rfl, rfl, rfl⟩ | ⟨rest, rfl, rfl⟩
    · exact .inl starts
    · refine .inr ⟨⟨before, start, rest, rfl, starts, ?_⟩, quiet envelope (by simp)⟩
      intro later member
      exact quiet later (by simp [member])
  · rintro (starts | ⟨⟨before, start, after, rfl, starts, quiet⟩, last⟩)
    · exact ⟨journal, envelope, [], rfl, starts, by simp⟩
    · refine ⟨before, start, after ++ [envelope], by simp, starts, ?_⟩
      exact Assoc.forall_mem_snoc.mpr ⟨quiet, last⟩

theorem running_snoc : Running (journal ++ [envelope]) attempt ↔
      ((∃ start ∈ journal, start.starts attempt = true) ∨ envelope.starts attempt = true) ∧
        (∀ earlier ∈ journal, earlier.ends attempt = false) ∧ envelope.ends attempt = false := by
  simp [Running, or_and_right, exists_or, or_imp, forall_and]

end

end

variable {journal : Journal}

/-- When an attempt that is not running starts, the journal has no fact of it. -/
theorem Orderly.unowned (orderly : Orderly (journal ++ [envelope]))
    (starts : envelope.starts attempt = true) (idle : ¬ Running journal attempt) :
    ∀ earlier ∈ journal, earlier.attempt ≠ some attempt := by
  have endless := orderly.unfinished journal envelope [] attempt rfl (.inr starts)
  have unstarted : ∀ start ∈ journal, start.starts attempt ≠ true := by
    intro start member started
    exact idle ⟨⟨start, member, started⟩, endless⟩
  intro earlier member owned
  obtain ⟨before, after, rfl⟩ := append_of_mem member
  have first : earlier.starts attempt = false := by
    simpa using unstarted earlier (by simp)
  obtain ⟨start, among, started⟩ :=
    orderly.started before earlier (after ++ [envelope]) attempt (by simp) owned first
  exact unstarted start (by simp [among]) started

/-- An attempt that starts has no terminal, and no tool fact unless it runs already. -/
def Fresh (journal : Journal) : Prop :=
  ∀ before envelope after attempt, journal = before ++ envelope :: after →
    envelope.starts attempt = true →
    (∀ earlier ∈ before, earlier.ends attempt = false) ∧
      (¬ Running before attempt → ∀ earlier ∈ before, earlier.toolFact attempt = false)

theorem Fresh.before {before : Journal} (fresh : Fresh (before ++ [envelope])) : Fresh before :=
  fun first event after attempt split =>
    fresh first event (after ++ [envelope]) attempt (by simp [split])

theorem Fresh.last {before : Journal} (fresh : Fresh (before ++ [envelope]))
    (starts : envelope.starts attempt = true) :
    (∀ earlier ∈ before, earlier.ends attempt = false) ∧
      (¬ Running before attempt → ∀ earlier ∈ before, earlier.toolFact attempt = false) :=
  fresh before envelope [] attempt rfl starts

theorem Orderly.fresh (orderly : Orderly journal) : Fresh journal := by
  induction journal using List.reverseRecOn with
  | nil =>
    intro before envelope after attempt split
    simp at split
  | append_singleton journal last ih =>
    intro before envelope after attempt split starts
    rcases snoc_split split with ⟨-, rfl, rfl⟩ | ⟨rest, -, earlier⟩
    · refine ⟨orderly.unfinished before envelope [] attempt rfl (.inr starts), ?_⟩
      intro idle earlier member
      exact Bool.eq_false_iff.mpr fun fact =>
        orderly.unowned starts idle earlier member (toolFact_owner fact)
    · exact ih orderly.before before envelope rest attempt earlier starts

/-- The request plane of an attempt's summary against the journal. -/
def RequestMatches (journal : Journal) (attempt : AttemptId) : ExternalRequestLifecycle → Prop
  | .neverStarted => ∀ envelope ∈ journal, envelope.requestFact attempt = false
  | .startedOutcomeUnknown request => RequestOpen journal attempt request
  | .startedOutcomeKnown _ _ => (∃ envelope ∈ journal, envelope.requestFact attempt = true) ∧
      ∀ request, ¬ RequestOpen journal attempt request

def ToolsMatch (active : List MessageId) (journal : Journal) (attempt : AttemptId) :
    ToolExternalSummary → Prop
  | .neverStarted => ∀ envelope ∈ journal, envelope.toolFact attempt = false
  | .allOutcomesKnown => (∃ envelope ∈ journal, envelope.toolFact attempt = true) ∧
      ¬ CallUnsettled active journal attempt
  | .unknownOutstanding => (∃ call, HasFate active journal attempt call .outstanding) ∧
      ∀ call, ¬ HasFate active journal attempt call .lost
  | .unknownIrreversible => ∃ call, HasFate active journal attempt call .lost

theorem callUnsettled_iff : CallUnsettled active journal attempt ↔
    (∃ call, HasFate active journal attempt call .outstanding) ∨
      ∃ call, HasFate active journal attempt call .lost := by
  constructor
  · rintro ⟨call, result, unsettled, held⟩
    cases result with
    | outstanding => exact .inl ⟨call, held⟩
    | answered => exact absurd rfl unsettled
    | lost => exact .inr ⟨call, held⟩
  · rintro (⟨call, held⟩ | ⟨call, held⟩)
    · exact ⟨call, _, by simp, held⟩
    · exact ⟨call, _, by simp, held⟩

theorem HasFate.toolFact {result : Fate} (held : HasFate active journal attempt call result) :
    ∃ envelope ∈ journal, envelope.toolFact attempt = true := by
  obtain ⟨before, start, after, rfl, starts, -⟩ := held
  refine ⟨start, by simp, ?_⟩
  unfold startsCall at starts
  unfold toolFact
  split at starts
  · rename_i event
    rw [event]
    simp only [Bool.and_eq_true] at starts
    exact starts.1
  · cases starts

theorem RequestOpen.requestFact {request : RequestId} (held : RequestOpen journal attempt request) :
    ∃ envelope ∈ journal, envelope.requestFact attempt = true := by
  obtain ⟨before, start, after, rfl, starts, -⟩ := held
  exact ⟨start, by simp, by simp [requestFact, starts]⟩

/-- An event about no request of the attempt leaves its request plane. -/
theorem RequestMatches.quiet {request : ExternalRequestLifecycle}
    (held : RequestMatches journal attempt request) (starts : envelope.startsRequest attempt = none)
    (settles : envelope.settlesRequest attempt = none) :
    RequestMatches (journal ++ [envelope]) attempt request := by
  have same name :
      RequestOpen (journal ++ [envelope]) attempt name ↔ RequestOpen journal attempt name := by
    rw [requestOpen_snoc, starts, settles]
    simp
  have fact : envelope.requestFact attempt = false := by
    simp [requestFact, starts, settles]
  cases request with
  | neverStarted =>
    exact Assoc.forall_mem_snoc.mpr ⟨held, fact⟩
  | startedOutcomeUnknown name => exact (same name).mpr held
  | startedOutcomeKnown name outcome =>
    obtain ⟨⟨event, member, about⟩, closed⟩ := held
    refine ⟨⟨event, by simp [member], about⟩, fun name => ?_⟩
    rw [same]
    exact closed name

/-- An event about no call of the attempt leaves its tool plane. -/
theorem ToolsMatch.quiet {tools : ToolExternalSummary}
    (held : ToolsMatch active journal attempt tools) (fact : envelope.toolFact attempt = false)
    (starts : ∀ call, envelope.startsCall attempt call = false)
    (settles : ∀ call, envelope.settlesCall attempt call = false)
    (commits : ∀ call, HasFate active journal attempt call .outstanding →
      commitsCall active journal envelope attempt call = false) :
    ToolsMatch active (journal ++ [envelope]) attempt tools := by
  have outstanding call : HasFate active (journal ++ [envelope]) attempt call
      .outstanding ↔ HasFate active journal attempt call .outstanding := by
    rw [outstanding_snoc, starts, settles]
    constructor
    · rintro (no | ⟨held, -, -⟩)
      · cases no
      · exact held
    · intro held
      exact .inr ⟨held, commits call held, rfl⟩
  have lost call : HasFate active (journal ++ [envelope]) attempt call .lost ↔
      HasFate active journal attempt call .lost := by
    rw [lost_snoc]
    constructor
    · rintro (held | ⟨held, committed⟩)
      · exact held
      · rw [commits call held] at committed
        cases committed
    · exact .inl
  cases tools with
  | neverStarted =>
    exact Assoc.forall_mem_snoc.mpr ⟨held, fact⟩
  | allOutcomesKnown =>
    obtain ⟨⟨event, member, about⟩, settled⟩ := held
    refine ⟨⟨event, by simp [member], about⟩, ?_⟩
    rw [callUnsettled_iff] at settled ⊢
    simpa only [outstanding, lost] using settled
  | unknownOutstanding => simpa only [ToolsMatch, outstanding, lost] using held
  | unknownIrreversible => simpa only [ToolsMatch, lost] using held

/-- An event that neither starts nor ends an attempt and is about no request. -/
def isInner (envelope : RuntimeEventEnvelope) : Bool :=
  match envelope.event with
  | .attemptStarted _ | .attemptTerminal .. | .modelRequestStarted .. | .modelRequestSettled .. =>
    false
  | _ => true

theorem isInner_quiet (inner : isInner envelope = true) (attempt : AttemptId) :
    envelope.starts attempt = false ∧ envelope.ends attempt = false ∧
      envelope.requestFact attempt = false := by
  unfold isInner at inner
  unfold starts ends requestFact startsRequest settlesRequest
  cases event : envelope.event <;> simp_all

/-- A journal of one attempt that has no terminal and made no request. -/
theorem orderly_single (starts : start = ⟨start.sequence, some attempt, .attemptStarted attempt⟩)
    (inner : ∀ envelope ∈ rest, isInner envelope = true ∧
      envelope.attempt.all (· = attempt) = true) :
    Orderly (start :: rest) ∧ ∀ other, Running (start :: rest) other ↔ other = attempt := by
  have begins other : start.starts other = true ↔ other = attempt := by
    rw [starts]
    simp [RuntimeEventEnvelope.starts, eq_comm]
  have endless : ∀ envelope ∈ start :: rest, ∀ other, envelope.ends other = false := by
    intro envelope member other
    rcases mem_cons.mp member with rfl | later
    · rw [starts]
      rfl
    · exact (isInner_quiet (inner envelope later).1 other).2.1
  have requestless : ∀ envelope ∈ start :: rest, ∀ other, envelope.requestFact other = false := by
    intro envelope member other
    rcases mem_cons.mp member with rfl | later
    · rw [starts]
      rfl
    · exact (isInner_quiet (inner envelope later).1 other).2.2
  refine ⟨⟨?_, ?_, ?_⟩, ?_⟩
  · intro before envelope after other split owned unstarted
    cases before with
    | nil =>
      obtain ⟨rfl, -⟩ := List.cons.inj split
      rw [starts, Option.some.injEq] at owned
      rw [(begins other).mpr owned.symm] at unstarted
      cases unstarted
    | cons first before =>
      obtain ⟨rfl, tail⟩ := List.cons.inj split
      have mine := (inner envelope (by simp [tail])).2
      rw [owned] at mine
      exact ⟨start, by simp, (begins other).mpr (by simpa using mine)⟩
  · intro before envelope after other split _ earlier member
    exact endless earlier (by simp [split, member]) other
  · intro before envelope after other request open_ split opened
    obtain ⟨earlier, member, fact⟩ := opened.requestFact
    rw [requestless earlier (by simp [split, member]) other] at fact
    cases fact
  · intro other
    constructor
    · rintro ⟨⟨envelope, member, started⟩, -⟩
      rcases mem_cons.mp member with rfl | later
      · exact (begins other).mp started
      · rw [(isInner_quiet (inner envelope later).1 other).1] at started
        cases started
    · rintro rfl
      exact ⟨⟨start, by simp, (begins other).mpr rfl⟩, fun envelope member =>
        endless envelope member other⟩

end Journal

end RustX.Recovery
