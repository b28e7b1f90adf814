import Mathlib

/-!
A Session that the console observes while it switches to another node. What a notification does
under a current observation is left open: none gets that far while a switch is being admitted.
-/
namespace RustX.Client

open List

structure AttachmentTarget where
  (sessionId conversationId runtimeIncarnation attachmentId : String)
  deriving DecidableEq

/-- The proof under which notifications are applied. -/
structure Observation where
  generation : Nat
  target : AttachmentTarget
  nodeId : String
  intentRevision : Nat
  deriving DecidableEq

inductive AttachmentIntent
  | wanted | released
  deriving DecidableEq

inductive Attachment
  | detached | attaching | attached | resynchronizing | stale | error
  deriving DecidableEq

structure LifecycleFacts where
  attachmentIntent : AttachmentIntent
  attachmentIntentRevision : Nat
  attachmentObservation : Option Observation
  attachment : Attachment
  target : Option AttachmentTarget
  (nodeId nodeConversationId attachmentNodeId : Option String)
  deleting : Bool

inductive Stage
  | preparing | request | sent
  deriving DecidableEq

/-- An admitted switch, with the facts before it. -/
structure Operation where
  generation : Nat
  revision : Nat
  previous : LifecycleFacts
  stage : Stage

inductive FailureKind
  | unsent | uncertain | refused | staleRoute | localFailure
  deriving DecidableEq

structure LifecycleContext where
  generation : Nat
  connected : Bool
  facts : LifecycleFacts
  active : Option Operation

namespace LifecycleContext

variable (context : LifecycleContext)

def observationCurrent (proof : Observation) : Bool :=
  let facts := context.facts
  context.connected ∧ facts.attachmentObservation = some proof ∧
    context.generation = proof.generation ∧ facts.attachmentIntent = .wanted ∧
    facts.attachmentIntentRevision = proof.intentRevision ∧ facts.nodeId = some proof.nodeId ∧
    facts.attachmentNodeId = some proof.nodeId ∧ !facts.deleting ∧
    facts.target = some proof.target

def observe : Option Observation :=
  context.facts.attachmentObservation.filter context.observationCurrent

/-- The admission of a switch revokes the observation; the switch begins at once. -/
def admitSwitch : LifecycleContext :=
  let revision := context.facts.attachmentIntentRevision + 1
  { context with
    facts.attachmentObservation := none, facts.attachmentIntentRevision := revision
    active := some ⟨context.generation, revision, context.facts, .preparing⟩ }

/-- The facts after a failed switch. -/
def settle (op : Operation) (classification : FailureKind) : LifecycleFacts :=
  let facts := context.facts
  let stale := { facts with attachmentObservation := none, attachment := .stale }
  if op.generation ≠ context.generation then
    if classification = .uncertain then { facts with attachmentIntent := .released } else facts
  else if (classification = .unsent ∨ op.stage = .preparing) ∧ context.connected then
    if facts.attachmentIntentRevision = op.revision then op.previous
    else { facts with
      nodeId := op.previous.nodeId, nodeConversationId := op.previous.nodeConversationId }
  else if classification = .unsent then stale
  else { stale with attachmentIntent := .released, nodeId := none, nodeConversationId := none }

end LifecycleContext

inductive ObservationPhase
  | attached | checkpointLoading | subscribePending | following | resyncRequired | unavailable
  | retired

structure ObservationChain where
  phase : ObservationPhase
  applied : Nat

inductive Notification (ε : Type)
  | event (cursor : Nat) (event : ε)
  | resyncRequired
  | observationUnavailable

def delivered (notifications : List (Notification ε)) : List (Nat × ε) :=
  notifications.filterMap fun
    | .event cursor event => some (cursor, event)
    | _ => none

/-- What the console keeps for one Session, with the marks on its observation work. -/
structure Session (σ : Type) where
  lifecycle : LifecycleContext
  chain : ObservationChain
  snapshot : Option σ
  (refreshes dirty resubscribe : Bool)

namespace Session

section

variable (observed : Session σ → Observation → Notification ε → Session σ)
  (target : AttachmentTarget) (session : Session σ)

/-- A revoked observation takes its work along. -/
def project (next : LifecycleContext) : Session σ :=
  let proof := session.lifecycle.facts.attachmentObservation
  if proof ≠ none ∧ next.facts.attachmentObservation ≠ proof then
    ⟨next, session.chain, session.snapshot, false, false, false⟩
  else { session with lifecycle := next }

/-- A notification is passed on to `observed` only under a current observation. -/
def receive (notification : Notification ε) : Session σ :=
  let facts := session.lifecycle.facts
  if facts.attachment = .attaching ∧ facts.target = none then
    { session with
      dirty := true
      resubscribe := session.resubscribe || notification matches .resyncRequired }
  else if facts.target ≠ some target then session
  else match session.lifecycle.observe with
    | none => session
    | some proof =>
      if proof.target ≠ target then session else observed session proof notification

/-- A switch that is admitted, and fails at a stage after the notifications. -/
def abandon (notifications : List (Notification ε)) (stage : Stage)
    (classification : FailureKind) : Session σ :=
  let waiting := notifications.foldl (receive observed target)
    (session.project session.lifecycle.admitSwitch)
  match waiting.lifecycle.active with
  | none => waiting
  | some op => waiting.project { waiting.lifecycle with
      active := none
      facts := waiting.lifecycle.settle { op with stage := stage } classification }

/-- The delivered events are folded up to the last, or the Session does not count as attached and
following, or a refresh was started or marked. -/
def Observes (fold : σ → Nat × ε → Option σ) (after : Session σ) (events : List (Nat × ε)) : Prop :=
  (session.snapshot.bind (events.foldlM fold) = after.snapshot ∧
    after.chain.applied = (events.map Prod.fst).getLastD session.chain.applied) ∨
  ¬ (after.lifecycle.facts.attachment = .attached ∧ after.chain.phase = .following) ∨
  after.refreshes ∨ after.dirty ∨ after.resubscribe

end

/-- A failed switch leaves an observation only by restoring the facts before it. -/
theorem settle_observed {context : LifecycleContext}
    (unobserved : context.facts.attachmentObservation = none)
    (restored : (context.settle op classification).attachmentObservation = some proof) :
    context.settle op classification = op.previous := by
  revert restored
  simp only [LifecycleContext.settle]
  split_ifs <;> simp [unobserved]

variable {session after : Session σ}
  {observed : Session σ → Observation → Notification ε → Session σ}

theorem receive_unobserved {notifications : List (Notification ε)}
    (attached : session.lifecycle.facts.attachment = .attached)
    (unobserved : session.lifecycle.facts.attachmentObservation = none) :
    notifications.foldl (receive observed target) session = session := by
  induction notifications with
  | nil => rfl
  | cons notification rest ih =>
    have ignored : session.receive observed target notification = session := by
      simp [receive, LifecycleContext.observe, attached, unobserved]
    rw [foldl_cons, ignored, ih]

section

variable (attached : session.lifecycle.facts.attachment = .attached)
  (observes : session.lifecycle.facts.attachmentObservation = some proof)
  (abandoned : session.abandon observed target notifications stage classification = after)
  (current : after.lifecycle.observationCurrent proof = true)
include attached observes abandoned current

/-- Once the proof is current again the facts are those before the switch, and nothing else is
left of the window. -/
theorem abandon_restores : after.lifecycle.facts = session.lifecycle.facts ∧
    after = ⟨after.lifecycle, session.chain, session.snapshot, false, false, false⟩ := by
  rw [abandon, project, if_pos (by simp [observes, LifecycleContext.admitSwitch]),
    receive_unobserved] at abandoned
  · subst abandoned
    have proven := (of_decide_eq_true current).2.1
    exact ⟨settle_observed rfl proven, rfl⟩
  · exact attached
  · rfl

/-- Events that arrive between the admission of a switch and its failure are lost: the restored
Session is attached and following, and nothing asks for a refresh. -/
theorem abandon_observes_iff (fold : σ → Nat × ε → Option σ)
    (following : session.chain.phase = .following)
    (consecutive : (delivered notifications).map Prod.fst =
      range' (session.chain.applied + 1) (delivered notifications).length) :
    session.Observes fold after (delivered notifications) ↔ delivered notifications = [] := by
  obtain ⟨facts, restored⟩ := abandon_restores attached observes abandoned current
  rw [Observes, consecutive, facts, restored]
  constructor
  · rintro (⟨-, last⟩ | lost | marked)
    · cases events : delivered notifications with
      | nil => rfl
      | cons event rest =>
        rw [events, length_cons, range'_concat, getLastD_concat] at last
        dsimp only at last
        omega
    · exact absurd ⟨attached, following⟩ lost
    · simp at marked
  · intro none
    simp [none]

end

private def proof : Observation :=
  ⟨1, ⟨"session", "conversation", "incarnation", "attachment"⟩, "node", 1⟩

/-- An attached Session that follows a registration. -/
private def following : Session Unit :=
  ⟨⟨1, true, ⟨.wanted, 1, proof, .attached, proof.target, proof.nodeId, none, proof.nodeId,
    false⟩, none⟩, ⟨.following, 5⟩, some (), false, false, false⟩

private def failed (observed : Session Unit → Observation → Notification Unit → Session Unit)
    (notification : Notification Unit) : Session Unit :=
  following.abandon observed proof.target [notification] .request .unsent

theorem abandon_observes_resync :
    following.Observes (ε := Unit) (fun _ _ => none) (failed (fun session _ _ => session)
      .resyncRequired) [] :=
  (abandon_observes_iff rfl rfl rfl rfl _ rfl rfl).mpr rfl

theorem abandon_loses_event : following.lifecycle.observe = some proof ∧ ∀ observed fold,
    (failed observed (.event 6 ())).lifecycle.observe = some proof ∧
      ¬ following.Observes fold (failed observed (.event 6 ())) [(6, ())] := by
  refine ⟨rfl, fun observed fold => ⟨rfl, ?_⟩⟩
  rintro (⟨-, last⟩ | lost | marked)
  · cases last
  · exact lost ⟨rfl, rfl⟩
  · rcases marked with marked | marked | marked <;> cases marked

end Session

end RustX.Client
