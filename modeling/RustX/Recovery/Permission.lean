import RustX.Recovery.Restart

/-!
What a restarted runtime may continue, across restarts. The terminal that recovery gives
an interrupted attempt takes its unknown outcome out of sight, but not the turn it owed
an answer.
-/
namespace RustX.Recovery

open RecoveryEvidence Journal AttemptRecoveryClass

namespace RecoveryEvidence

def turn (evidence : RecoveryEvidence) :
    Option (MessageId × Option GoalRef) × Option (MessageId × GoalRef) :=
  (evidence.unansweredAdoptedTurn, evidence.unadoptedGoalRound)

def turnStep (envelope : RuntimeEventEnvelope)
    (turn : Option (MessageId × Option GoalRef) × Option (MessageId × GoalRef)) :
    Option (MessageId × Option GoalRef) × Option (MessageId × GoalRef) :=
  match envelope.event with
  | .goalRoundAdmitted message current => (turn.1, some (message, current))
  | .inboundTurnAdopted messages =>
    match messages.getLast? with
    | none => turn
    | some last =>
      match turn.2.filter fun round => messages.contains round.1 with
      | some (_, goal) => (some (last, some goal), none)
      | none => (some (last, none), turn.2)
  | .attemptTerminal _ terminal => if terminal.decidesTheTurn then (none, turn.2) else turn
  | .modelRequestStarted .agent _ => (none, turn.2)
  | _ => turn

variable {evidence : RecoveryEvidence}

theorem turn_fold (evidence : RecoveryEvidence) (envelope : RuntimeEventEnvelope) :
    (evidence.fold envelope).turn = turnStep envelope evidence.turn := by
  obtain ⟨sequence, owner, event⟩ := envelope
  cases event with
  | attemptStarted attempt =>
    simp only [fold, openAttempt]
    split <;> rfl
  | inboundTurnAdopted messages =>
    simp only [fold, turnStep, turn, adoptTurn]
    cases messages.getLast? with
    | none => rfl
    | some last =>
      dsimp only
      cases evidence.unadoptedGoalRound.filter fun round => messages.contains round.1 <;> rfl
  | attemptTerminal attempt terminal =>
    simp only [fold, turnStep]
    split <;> rfl
  | modelRequestStarted requester request => cases requester <;> cases owner <;> rfl
  | modelRequestSettled requester request outcome => cases requester <;> cases owner <;> rfl
  | assistantMessageCommitted message =>
    cases owner with
    | none => rfl
    | some attempt =>
      simp only [fold]
      split <;> rfl
  | toolMessageCommitted message call =>
    simp only [fold]
    split
    · rfl
    · simp only [settleCall]
      split <;> rfl
  | _ => cases owner <;> rfl

def requestView (evidence : RecoveryEvidence) (attempt : AttemptId) :
    Option ExternalRequestLifecycle :=
  (evidence.view attempt).map Prod.fst

theorem requestView_fold (evidence : RecoveryEvidence) (envelope : RuntimeEventEnvelope)
    (attempt : AttemptId) :
    (evidence.fold envelope).requestView attempt =
      if envelope.starts attempt = true ∧ evidence.requestView attempt = none then
        some .neverStarted
      else if envelope.ends attempt = true then none
      else (evidence.requestView attempt).map (requestStep envelope attempt) := by
  simp only [requestView, view_fold, Option.map_eq_none_iff]
  split
  · rfl
  · split
    · rfl
    · rw [Option.map_map, Option.map_map]
      rfl

variable (conversation : ConversationId) (active other : List MessageId)

/-- Neither plane depends on which messages are active. -/
theorem foldAll_independent (journal : Journal) (attempt : AttemptId) :
    (foldAll { conversation := conversation, activeIds := active } journal).turn =
      (foldAll { conversation := conversation, activeIds := other } journal).turn ∧
    (foldAll { conversation := conversation, activeIds := active } journal).requestView attempt =
      (foldAll { conversation := conversation, activeIds := other } journal).requestView
        attempt := by
  induction journal using List.reverseRecOn with
  | nil => exact ⟨rfl, rfl⟩
  | append_singleton before envelope ih =>
    rw [foldAll_snoc, foldAll_snoc, turn_fold, turn_fold, requestView_fold, requestView_fold,
      ih.1, ih.2]
    exact ⟨rfl, rfl⟩

end RecoveryEvidence

namespace RuntimeEventEnvelope

variable {envelope : RuntimeEventEnvelope}

/-- Recovery's own facts change no obligation and no request, and start and settle no
call. -/
theorem recovered_still (recovered : Recovered results envelope.fact) :
    (∀ turn, turnStep envelope turn = turn) ∧
      (∀ attempt request, requestStep envelope attempt request = request) ∧
      ∀ attempt call, envelope.startsCall attempt call = false ∧
        envelope.settlesCall attempt call = false := by
  obtain ⟨sequence, owner, event⟩ := envelope
  cases owner <;> cases event <;>
    simp_all [Recovered, fact, turnStep, requestStep, startsCall, settlesCall]
  rename_i terminal
  cases terminal <;> simp_all [AttemptTerminal.decidesTheTurn]

theorem startsCall_owner {attempt : AttemptId} (starts : envelope.startsCall attempt call = true) :
    envelope.attempt = some attempt := by
  obtain ⟨sequence, owner, event⟩ := envelope
  cases event <;> simp_all [startsCall]

theorem settlesCall_owner {attempt : AttemptId} (settles : envelope.settlesCall attempt call = true) :
    envelope.attempt = some attempt ∧ envelope.ends attempt = false := by
  obtain ⟨sequence, owner, event⟩ := envelope
  cases event <;> simp_all [settlesCall, ends]

end RuntimeEventEnvelope

namespace RecoveryEvidence

variable (conversation : ConversationId) (active : List MessageId)

/-- What recovery writes leaves the obligation, and the requests of what still runs. -/
theorem foldAll_recovered (facts : ∀ envelope ∈ written, Recovered results envelope.fact)
    (attempt : AttemptId) :
    (foldAll { conversation := conversation, activeIds := active } (journal ++ written)).turn =
      (foldAll { conversation := conversation, activeIds := active } journal).turn ∧
    ((∀ envelope ∈ written, envelope.ends attempt = false) →
      (foldAll { conversation := conversation, activeIds := active }
        (journal ++ written)).requestView attempt =
      (foldAll { conversation := conversation, activeIds := active } journal).requestView
        attempt) := by
  induction written using List.reverseRecOn with
  | nil => simp
  | append_singleton before last ih =>
    obtain ⟨turns, requests⟩ := ih fun envelope member => facts envelope (by simp [member])
    have own := facts last (by simp)
    obtain ⟨still, quiet, -⟩ := RuntimeEventEnvelope.recovered_still own
    rw [← List.append_assoc, foldAll_snoc, turn_fold, still, turns, requestView_fold]
    refine ⟨rfl, fun endless => ?_⟩
    rw [if_neg (by simp [(RuntimeEventEnvelope.recovered_quiet own).2.1]),
      if_neg (by simp [endless last (by simp)]),
      requests fun envelope member => endless envelope (by simp [member])]
    have same : requestStep last attempt = id := funext (quiet attempt)
    rw [same, Option.map_id, id]

end RecoveryEvidence

namespace Journal

/-- Recovery answers only for attempts that are over: of one that acted before a tool
result committed by recovery, nothing but its terminal follows. -/
def Relinquished (journal : Journal) : Prop :=
  ∀ before commit after message call, journal = before ++ commit :: after →
    commit.fact = (none, .toolMessageCommitted message call) →
    ∀ attempt, (∃ earlier ∈ before, earlier.attempt = some attempt) →
      ∀ later ∈ after, later.attempt = some attempt → later.ends attempt = true

theorem settles_of_answered (answered : fate active attempt call before after = .answered) :
    ∃ envelope ∈ after, envelope.settlesCall attempt call = true := by
  induction after generalizing before with
  | nil => cases answered
  | cons envelope rest ih =>
    simp only [fate] at answered
    split at answered
    · cases answered
    · split at answered
      · exact ⟨envelope, by simp, by assumption⟩
      · obtain ⟨later, member, settles⟩ := ih answered
        exact ⟨later, by simp [member], settles⟩

theorem fate_append_answered (quiet : ∀ envelope ∈ more, envelope.settlesCall attempt call = false) :
    fate active attempt call before (after ++ more) = .answered ↔
      fate active attempt call before after = .answered := by
  induction more using List.reverseRecOn with
  | nil => rw [List.append_nil]
  | append_singleton more last ih =>
    rw [← ih fun envelope member => quiet envelope (by simp [member]), ← List.append_assoc,
      fate_snoc, quiet last (by simp)]
    split
    · rename_i outstanding
      rw [outstanding]
      split <;> simp
    · rfl

/-- Whether a call was answered does not depend on which messages are active: no outcome
follows the commits that only some of them count. -/
theorem fate_answered_of_relinquished (relinquished : Relinquished (before ++ after))
    (acted : ∃ earlier ∈ before, earlier.attempt = some attempt)
    (answered : fate active attempt call before after = .answered) :
    fate other attempt call before after = .answered := by
  induction after generalizing before with
  | nil => cases answered
  | cons envelope rest ih =>
    have uncommitted : commitsCall other before envelope attempt call = false := by
      rw [Bool.eq_false_iff]
      intro committed
      have owned : commitsCall active before envelope attempt call = false := by
        by_contra counted
        rw [Bool.not_eq_false] at counted
        simp [fate, counted] at answered
      obtain ⟨later, member, settles⟩ := settles_of_answered answered
      obtain ⟨owner, going⟩ := RuntimeEventEnvelope.settlesCall_owner settles
      unfold commitsCall at committed owned
      split at committed
      · rename_i message named event
        cases unowned : envelope.attempt with
        | some name => simp_all
        | none =>
          have late : later ∈ rest := by
            refine (List.mem_cons.mp member).resolve_left fun same => ?_
            rw [same, unowned] at owner
            cases owner
          have ended := relinquished before envelope rest message named rfl
            (by rw [RuntimeEventEnvelope.fact, unowned, event]) attempt acted later late owner
          rw [going] at ended
          cases ended
      · cases committed
    simp only [fate] at answered ⊢
    rw [uncommitted, if_neg (by simp)]
    split at answered
    · cases answered
    · split at answered
      · rename_i settled
        rw [if_pos settled]
      · rename_i unsettled
        rw [if_neg unsettled]
        obtain ⟨earlier, member, owned⟩ := acted
        exact ih (by simpa using relinquished) ⟨earlier, by simp [member], owned⟩ answered

/-- What recovery writes neither opens nor settles a call. -/
theorem callUnsettled_append_iff (relinquished : Relinquished journal)
    (facts : ∀ envelope ∈ written, Recovered results envelope.fact) :
    CallUnsettled other (journal ++ written) attempt ↔ CallUnsettled active journal attempt := by
  have still := fun envelope member call =>
    (RuntimeEventEnvelope.recovered_still (facts envelope member)).2.2 attempt call
  constructor
  · rintro ⟨call, result, open_, before, start, after, split, starts, rfl⟩
    have early : start ∉ written := by
      intro late
      rw [(still start late call).1] at starts
      cases starts
    obtain ⟨gap, rfl, rfl⟩ : ∃ gap, journal = before ++ start :: gap ∧ after = gap ++ written := by
      rcases List.append_eq_append_iff.mp split with ⟨gap, -, rest⟩ | ⟨gap, prior, rest⟩
      · exact absurd (by rw [rest]; simp) early
      · cases gap with
        | nil => exact absurd (by rw [List.nil_append] at rest; rw [← rest]; simp) early
        | cons first gap =>
          obtain ⟨rfl, rfl⟩ := List.cons.inj rest
          exact ⟨gap, prior, rfl⟩
    refine ⟨call, _, fun answered => open_ ?_, before, start, gap, rfl, starts, rfl⟩
    rw [fate_append_answered fun envelope member => (still envelope member call).2]
    refine fate_answered_of_relinquished (by simpa using relinquished) ⟨start, by simp, ?_⟩ answered
    exact RuntimeEventEnvelope.startsCall_owner starts
  · rintro ⟨call, result, open_, before, start, after, rfl, starts, rfl⟩
    refine ⟨call, _, fun answered => open_ ?_, before, start, after ++ written, by simp, starts, rfl⟩
    rw [fate_append_answered fun envelope member => (still envelope member call).2] at answered
    refine fate_answered_of_relinquished (by simpa using relinquished) ⟨start, by simp, ?_⟩ answered
    exact RuntimeEventEnvelope.startsCall_owner starts

end Journal

namespace RecoveryEvidence

variable {evidence : RecoveryEvidence}

theorem mem_unsettledAttempts_of_view (view : evidence.view attempt = some seen) :
    ∃ known, (attempt, known) ∈ evidence.unsettledAttempts ∧ (known.request, known.tools) = seen := by
  obtain ⟨known, found, same⟩ := Option.map_eq_some_iff.mp view
  exact ⟨known, Assoc.mem_of_lookup found, same⟩

/-- The one open attempt is indeterminate if its request or one of its tools is. -/
theorem isIndeterminate_iff (single : evidence.unsettledAttempts.length ≤ 1) :
    (classifyAttempt evidence).isIndeterminate = true ↔
      ∃ attempt request tools, evidence.view attempt = some (request, tools) ∧
        ((∃ name, request = .startedOutcomeUnknown name) ∨ tools.isUnknown = true) := by
  unfold classifyAttempt
  match listed : evidence.unsettledAttempts with
  | [] =>
    simp only [view, listed, List.lookup_nil, Option.map_none]
    split <;> simp [isIndeterminate]
  | [(attempt, known)] =>
    have seen : ∀ other request tools, evidence.view other = some (request, tools) ↔
        other = attempt ∧ request = known.request ∧ tools = known.tools := by
      intro other request tools
      by_cases same : other = attempt
      · subst same
        simp [view, listed, eq_comm]
      · have differs : (other == attempt) = false := by simpa using same
        simp [view, listed, List.lookup, differs, same]
    simp only [seen]
    cases request : known.request with
    | startedOutcomeUnknown name => simp [isIndeterminate]
    | startedOutcomeKnown name outcome =>
      dsimp only
      split <;> simp_all [isIndeterminate]
    | neverStarted =>
      dsimp only
      split
      · simp_all [isIndeterminate]
      · split <;> simp_all [isIndeterminate]
  | first :: second :: rest =>
    rw [listed] at single
    simp at single

end RecoveryEvidence

namespace Continues

section

variable (held : Continues start results written store)
include held

theorem reconstruct_eq : (reconstruct store).toRecoveryEvidence = foldAll
      { conversation := start.conversation
        activeIds := store.activeMessages.map MessageBlock.id } (start.journal ++ written) := by
  rw [← held.journal, ← held.conversation]
  rfl

/-- Whoever still runs was running before recovery came. -/
theorem running (running : Running store.journal attempt) :
    Running start.journal attempt ∧ ∀ envelope ∈ written, envelope.ends attempt = false := by
  rw [held.journal] at running
  obtain ⟨⟨begin_, member, starts⟩, endless⟩ := running
  refine ⟨⟨⟨begin_, ?_, starts⟩, fun envelope before => endless envelope (by simp [before])⟩,
    fun envelope late => endless envelope (by simp [late])⟩
  refine (List.mem_append.mp member).resolve_right fun late => ?_
  rw [(RuntimeEventEnvelope.recovered_quiet (held.facts begin_ late)).2.1] at starts
  cases starts

theorem obligation_eq :
    (reconstruct store).unansweredAdoptedTurn = (reconstruct start).unansweredAdoptedTurn := by
  have same : (reconstruct store).turn = (reconstruct start).turn := by
    rw [held.reconstruct_eq]
    exact (foldAll_recovered _ _ held.facts "").1.trans (foldAll_independent _ _ _ _ "").1
  exact (Prod.ext_iff.mp same).1

/-- What is known of an attempt that still runs: its request, and whether a tool of it has
an unknown outcome. -/
theorem view_eq (valid : start.Valid) (relinquished : start.journal.Relinquished)
    (running : Running store.journal attempt) :
    ∃ request tools tools', (reconstruct start).view attempt = some (request, tools) ∧
      (reconstruct store).view attempt = some (request, tools') ∧
      tools'.isUnknown = tools.isUnknown := by
  obtain ⟨before, endless⟩ := held.running running
  have first := foldAll_tracks start.conversation (start.activeMessages.map MessageBlock.id)
    valid.admitted.fresh
  have second := foldAll_tracks store.conversation (store.activeMessages.map MessageBlock.id)
    held.valid.admitted.fresh
  obtain ⟨⟨request, tools⟩, seen⟩ := Option.isSome_iff_exists.mp ((first.running attempt).mpr before)
  obtain ⟨⟨request', tools'⟩, seen'⟩ :=
    Option.isSome_iff_exists.mp ((second.running attempt).mpr running)
  have requests : (reconstruct store).requestView attempt =
      (reconstruct start).requestView attempt := by
    rw [held.reconstruct_eq]
    exact ((foldAll_recovered _ _ held.facts attempt).2 endless).trans
      (foldAll_independent _ _ _ _ attempt).2
  have same : request' = request := by
    have looked : (reconstruct store).view attempt = some (request', tools') := seen'
    have looks : (reconstruct start).view attempt = some (request, tools) := seen
    rw [requestView, requestView, looked, looks] at requests
    exact Option.some.inj requests
  subst same
  refine ⟨request', tools, tools', seen, seen', Bool.eq_iff_iff.mpr ?_⟩
  rw [isUnknown_iff_unsettled (second.tools attempt _ _ seen'),
    isUnknown_iff_unsettled (first.tools attempt _ _ seen), held.journal]
  exact callUnsettled_append_iff relinquished held.facts

theorem single (valid : start.Valid) (single : (reconstruct start).unsettledAttempts.length ≤ 1) :
    (reconstruct store).unsettledAttempts.length ≤ 1 := by
  have first := foldAll_tracks start.conversation (start.activeMessages.map MessageBlock.id)
    valid.admitted.fresh
  have second := foldAll_tracks store.conversation (store.activeMessages.map MessageBlock.id)
    held.valid.admitted.fresh
  have within : (reconstruct store).unsettledAttempts.map Prod.fst ⊆
      (reconstruct start).unsettledAttempts.map Prod.fst := by
    intro attempt member
    have open_ : ((reconstruct store).view attempt).isSome = true := by
      rw [view, Option.isSome_map]
      exact Assoc.lookup_isSome_iff.mpr member
    have running := (first.running attempt).mpr (held.running ((second.running attempt).mp open_)).1
    rw [view, Option.isSome_map] at running
    exact Assoc.lookup_isSome_iff.mp running
  have fewer := (List.subperm_of_subset second.attemptsDistinct within).length_le
  simp only [List.length_map] at fewer
  exact fewer.trans single

/-- A later run finds an unknown outcome exactly if the first one did and its attempt is
still open. -/
theorem isIndeterminate_iff (valid : start.Valid) (relinquished : start.journal.Relinquished)
    (alone : (reconstruct start).unsettledAttempts.length ≤ 1) :
    (classifyAttempt (reconstruct store).toRecoveryEvidence).isIndeterminate = true ↔
      (classifyAttempt (reconstruct start).toRecoveryEvidence).isIndeterminate = true ∧
        ∃ attempt, Running store.journal attempt := by
  have second := foldAll_tracks store.conversation (store.activeMessages.map MessageBlock.id)
    held.valid.admitted.fresh
  rw [RecoveryEvidence.isIndeterminate_iff (held.single valid alone),
    RecoveryEvidence.isIndeterminate_iff alone]
  constructor
  · rintro ⟨attempt, request, tools, seen, unknown⟩
    have running := (second.running attempt).mp (by
      rw [Option.isSome_iff_exists]
      exact ⟨_, seen⟩)
    obtain ⟨known, before, after, was, is, same⟩ := held.view_eq valid relinquished running
    rw [is] at seen
    cases seen
    exact ⟨⟨attempt, request, before, was, same ▸ unknown⟩, attempt, running⟩
  · rintro ⟨⟨attempt, request, tools, seen, unknown⟩, other, running⟩
    obtain ⟨known, before, after, was, is, same⟩ := held.view_eq valid relinquished running
    obtain ⟨entry, listed, read⟩ := mem_unsettledAttempts_of_view seen
    obtain ⟨entry', listed', read'⟩ := mem_unsettledAttempts_of_view was
    have one : (attempt, entry) = (other, entry') := by
      match both : (reconstruct start).unsettledAttempts with
      | [] => rw [both] at listed; cases listed
      | [only] =>
        rw [both, List.mem_singleton] at listed listed'
        rw [listed, listed']
      | first :: second :: rest => rw [both] at alone; simp at alone
    cases one
    cases read.symm.trans read'
    exact ⟨attempt, request, after, is, same ▸ unknown⟩

end

end Continues

/-- The permission a restart computes. -/
def resume (store : ConversationStore) : ResumeDisposition :=
  (classify (reconstruct store)).resume

/-- What a later permission must not change. -/
def ResumeDisposition.Keeps : ResumeDisposition → ResumeDisposition → Prop
  | .blockedIndeterminate, later => ∀ goal, later ≠ .continueAdoptedTurn goal
  | .continueAdoptedTurn goal, later => later = .continueAdoptedTurn goal
  | .pendingInboundOnly, later => later = .pendingInboundOnly

/-- A blocked conversation that owes an answer is the one exception: once recovery has
ended its attempt, the next restart continues the turn. -/
def Unblocks (start : ConversationStore) : Prop :=
  resume start = .blockedIndeterminate ∧ (reconstruct start).unansweredAdoptedTurn ≠ none ∧
    ∃ store, Crashes start store ∧ ∀ attempt, ¬ Running store.journal attempt

/-- Permissions are stable over any number of deaths of recovery, except that a
conversation with an unanswered turn is unblocked by the terminal of its attempt. -/
theorem resume_stable_iff (start : ConversationStore) (valid : start.Valid)
    (relinquished : start.journal.Relinquished)
    (single : (classify (reconstruct start)).unsettledAttempts.length ≤ 1) :
    (∀ store, Crashes start store → (resume start).Keeps (resume store)) ↔ ¬ Unblocks start := by
  have alone : (reconstruct start).unsettledAttempts.length ≤ 1 := by
    simpa [classify] using single
  have reads : ∀ store, resume store = resumeDisposition
      (classifyAttempt (reconstruct store).toRecoveryEvidence)
      (reconstruct store).unansweredAdoptedTurn := fun _ => rfl
  constructor
  · rintro stable ⟨blocked, owed, store, crashes, idle⟩
    obtain ⟨results, written, held⟩ := crashes.continues valid
    have decided : (classifyAttempt (reconstruct store).toRecoveryEvidence).isIndeterminate = false := by
      rw [Bool.eq_false_iff, ne_eq, held.isIndeterminate_iff valid relinquished alone]
      rintro ⟨-, attempt, running⟩
      exact idle attempt running
    obtain ⟨⟨message, goal⟩, open_⟩ := Option.ne_none_iff_exists'.mp owed
    have kept := stable store crashes
    rw [blocked] at kept
    apply kept goal
    simp [reads, resumeDisposition, decided, held.obligation_eq, open_]
  · intro safe store crashes
    obtain ⟨results, written, held⟩ := crashes.continues valid
    have later := held.isIndeterminate_iff valid relinquished alone
    rw [reads, reads, held.obligation_eq]
    unfold resumeDisposition
    by_cases unknown : (classifyAttempt (reconstruct start).toRecoveryEvidence).isIndeterminate = true
    · rw [if_pos unknown]
      intro goal
      split
      · simp
      rename_i ended
      cases owed : (reconstruct start).unansweredAdoptedTurn with
      | none => simp
      | some turn =>
        refine absurd ⟨?_, by simp [owed], store, crashes, ?_⟩ safe
        · simp [reads, resumeDisposition, unknown]
        · intro attempt running
          exact ended (later.mpr ⟨unknown, attempt, running⟩)
    · rw [if_neg unknown, if_neg fun now => unknown (later.mp now).1]
      cases (reconstruct start).unansweredAdoptedTurn <;> rfl

/-- A journal that recovery has not written a tool result to. -/
theorem Journal.relinquished_of_live {journal : Journal}
    (live : ∀ envelope ∈ journal, ∀ message call,
      envelope.fact ≠ (none, .toolMessageCommitted message call)) : journal.Relinquished := by
  intro before commit after message call split committed
  exact absurd committed (live commit (by rw [split]; simp) message call)

/-- The conversation with the started call owes nothing, and stays blocked or waits. -/
theorem resume_stable_started : resume startedCall = .blockedIndeterminate ∧
    ∀ store, Crashes startedCall store → ∀ goal, resume store ≠ .continueAdoptedTurn goal := by
  have blocked : resume startedCall = .blockedIndeterminate := by decide +kernel
  have live : startedCall.journal.Relinquished := by
    apply Journal.relinquished_of_live
    simp [startedCall, openCalls, RuntimeEventEnvelope.fact]
  have stable := (resume_stable_iff startedCall startedCall_valid live (by decide +kernel)).mpr
    fun unblocks => unblocks.2.1 (by decide +kernel)
  rw [blocked] at stable
  exact ⟨blocked, stable⟩

/-- A second turn is adopted between a model response and a tool that never reports. -/
def blockedTurn : ConversationStore :=
  { conversation := "c"
    ledger := [.user "msg-1", .user "msg-2"]
    activeMessageIds := ["msg-1", "msg-2"]
    journal :=
      [⟨1, none, .inboundTurnAdopted ["msg-1"]⟩, ⟨2, some "a", .attemptStarted "a"⟩,
        ⟨3, some "a", .modelRequestStarted .agent "req-0"⟩,
        ⟨4, some "a", .modelRequestSettled .agent "req-0" .completed⟩,
        ⟨5, some "a", .inboundTurnAdopted ["msg-2"]⟩,
        ⟨6, some "a", .toolExecutionStarted "call-1" "tool-a"⟩]
    publications := []
    pending := []
    correlations := [] }

theorem blockedTurn_valid : blockedTurn.Valid where
  admitted := (Journal.persistEvents_ok (by decide +kernel :
    Journal.persistEvents [] blockedTurn.journal = .ok _)).2 .empty
  ids := by decide +kernel
  occurrences := by decide +kernel
  results := by decide +kernel
  resultOnce := by decide +kernel
  surface := by decide +kernel
  committed := by simp [blockedTurn]
  streams := by decide +kernel

/-- The first restart is blocked; it ends the attempt, and the second one continues the
turn behind the tool whose outcome is still unknown. -/
theorem blockedTurn_unblocks : blockedTurn.Valid ∧ blockedTurn.journal.Relinquished ∧
    (classify (reconstruct blockedTurn)).unsettledAttempts = ["a"] ∧
    resume blockedTurn = .blockedIndeterminate ∧
    ∃ report settled, recover blockedTurn = .ok (report, settled) ∧
      Crashes blockedTurn settled ∧ resume settled = .continueAdoptedTurn none := by
  have live : blockedTurn.journal.Relinquished := by
    apply Journal.relinquished_of_live
    simp [blockedTurn, RuntimeEventEnvelope.fact]
  have ok : (recover blockedTurn).toOption.map (fun run => resume run.2) =
      some (.continueAdoptedTurn none) := by decide +kernel
  obtain ⟨⟨report, settled⟩, run, resumes⟩ := Option.map_eq_some_iff.mp ok
  have recovered := Checked.toOption_eq_some_iff.mp run
  refine ⟨blockedTurn_valid, live, by decide +kernel, by decide +kernel, report, settled, recovered,
    ?_, resumes⟩
  exact .again .none (recover_eq_ok_iff.mp recovered).1.interrupted

end RustX.Recovery
