import Mathlib

/-!
The interactions of an active child at its root. The child's coordinator changes its pending
map first and sends the route event afterwards; the root's registry applies the events in the
order in which they were sent.
-/
namespace RustX.Interaction

open Function List

variable {ι κ : Type} [DecidableEq ι] [DecidableEq κ]

/-- The interactions that the root shows, and the children that answer for them. -/
structure Registry (ι κ : Type) where
  routedInteractions : ι → Bool
  routedDirect : ι → Option κ

namespace Registry

/-- A request whose header passed its checks; the result is whether it is shown now. -/
def applyChildInteractionRequested (registry : Registry ι κ) (subagent : κ) (interaction : ι) :
    Registry ι κ × Bool :=
  let owned := { registry with
    routedDirect := update registry.routedDirect interaction (some subagent) }
  if registry.routedInteractions interaction then (owned, false)
  else
    ({ owned with routedInteractions := update registry.routedInteractions interaction true }, true)

def applyChildInteractionSettled (registry : Registry ι κ) (subagent : κ) (interaction : ι) :
    Registry ι κ × Bool :=
  if registry.routedDirect interaction ≠ some subagent then (registry, false)
  else if !registry.routedInteractions interaction then (registry, false)
  else
    ({ routedInteractions := update registry.routedInteractions interaction false
       routedDirect := update registry.routedDirect interaction none }, true)

end Registry

inductive InteractionRouteEvent (ι : Type)
  | requested (interaction : ι)
  | settled (interaction : ι)
  deriving DecidableEq

open InteractionRouteEvent

def Registry.apply (subagent : κ) (registry : Registry ι κ) : InteractionRouteEvent ι → Registry ι κ
  | requested interaction => (registry.applyChildInteractionRequested subagent interaction).1
  | settled interaction => (registry.applyChildInteractionSettled subagent interaction).1

/-- A coordinator and its root. Between them are the events of finished map transitions that
are still to be sent, and those sent that are still to be applied. -/
structure Link (ι κ : Type) where
  pending : List ι := []
  sending : List (InteractionRouteEvent ι) := []
  route : List (InteractionRouteEvent ι) := []
  applied : List (InteractionRouteEvent ι) := []
  registry : Registry ι κ := ⟨fun _ => false, fun _ => none⟩

/-- A publication or a settlement changes the map and sends later. A settlement whose audit was
not committed sends nothing, and the route may refuse an event. -/
inductive Action (ι : Type)
  | publish (interaction : ι)
  | settle (interaction : ι) (audited : Bool)
  | send (event : InteractionRouteEvent ι) (taken : Bool)
  | apply

/-- A publication whose request the route refused leaves the map. -/
def abandonAfterControlFailure (pending : List ι) : InteractionRouteEvent ι → List ι
  | requested interaction => pending.erase interaction
  | settled _ => pending

def Link.perform (subagent : κ) (link : Link ι κ) : Action ι → Option (Link ι κ)
  | .publish interaction =>
    if interaction ∈ link.pending then none
    else some { link with
      pending := interaction :: link.pending, sending := requested interaction :: link.sending }
  | .settle interaction audited =>
    if interaction ∉ link.pending then none
    else some { link with
      pending := link.pending.erase interaction
      sending := if audited then settled interaction :: link.sending else link.sending }
  | .send event taken =>
    if event ∉ link.sending then none
    else if taken then some { link with
      sending := link.sending.erase event, route := link.route ++ [event] }
    else some { link with
      sending := link.sending.erase event
      pending := abandonAfterControlFailure link.pending event }
  | .apply =>
    match link.route with
    | [] => none
    | event :: route => some { link with
        route, applied := link.applied ++ [event], registry := link.registry.apply subagent event }

def Link.run (subagent : κ) (link : Link ι κ) (actions : List (Action ι)) : Option (Link ι κ) :=
  actions.foldlM (perform subagent) link

/-- Whether the last of the events about an interaction is its request. -/
def asked (events : List (InteractionRouteEvent ι)) (interaction : ι) : Bool :=
  events.foldl (fun asked event =>
    if event = requested interaction then true
    else if event = settled interaction then false
    else asked) false

/-- The root shows what the applied events leave asked, and the child answers for it. -/
def Link.Shows (subagent : κ) (link : Link ι κ) : Prop :=
  ∀ interaction, link.registry.routedInteractions interaction = asked link.applied interaction ∧
    (asked link.applied interaction = true → link.registry.routedDirect interaction = some subagent)

theorem Link.Shows.perform {link reached : Link ι κ} (shows : link.Shows subagent)
    (done : link.perform subagent action = some reached) : reached.Shows subagent := by
  revert done
  fun_cases Link.perform subagent link action
  case case9 event route _ =>
    rintro ⟨⟩ interaction
    have here := shows interaction
    rw [asked, foldl_append, ← asked]
    cases event with
    | requested subject =>
      simp only [Registry.apply, Registry.applyChildInteractionRequested]
      split <;> grind [update_apply]
    | settled subject =>
      have there := shows subject
      simp only [Registry.apply, Registry.applyChildInteractionSettled]
      split_ifs <;> grind [update_apply]
  all_goals rintro ⟨⟩ <;> exact shows

theorem Link.Shows.run {link reached : Link ι κ} (shows : link.Shows subagent)
    (done : link.run subagent actions = some reached) : reached.Shows subagent := by
  induction actions generalizing link with
  | nil =>
    cases done
    exact shows
  | cons action actions ih =>
    simp only [Link.run, foldlM_cons, Option.bind_eq_bind, Option.bind_eq_some_iff] at done
    obtain ⟨middle, first, rest⟩ := done
    exact ih (shows.perform first) rest

end RustX.Interaction
