import Mathlib

/-!
Capacity of auxiliary calls. A reservation takes its permits one by one under the process lock;
a call that is dropped returns them one by one without the lock and wakes the contenders last.
-/
namespace RustX.Auxiliary

open Function List

variable {κ : Type} [DecidableEq κ]

/-- The semaphores; a conversation has two of its own. -/
inductive CapacityDomain (κ : Type)
  | processTotal | processGeneral | requiredWriter
  | conversationTotal (conversation : κ) | conversationGeneral (conversation : κ)
  deriving DecidableEq

open CapacityDomain

def CapacityDomain.size : CapacityDomain κ → Nat
  | processTotal | requiredWriter => 32
  | processGeneral => 24
  | conversationTotal _ => 4
  | conversationGeneral _ => 3

/-- The permits of a call, the last taken first, and whether its drop is over. -/
structure CallPermit (κ : Type) where
  conversation : κ
  compaction : Bool
  permits : List (CapacityDomain κ) := []
  woken : Bool := false

namespace CallPermit

/-- What a call needs, in the order in which it is taken. -/
def domains (call : CallPermit κ) : List (CapacityDomain κ) :=
  if call.compaction then [processTotal, conversationTotal call.conversation, requiredWriter]
  else [processTotal, processGeneral, conversationTotal call.conversation,
    conversationGeneral call.conversation, requiredWriter]

/-- No permit was returned yet. -/
def held (call : CallPermit κ) : Bool := call.permits.reverse = call.domains

def Formed (call : CallPermit κ) : Prop :=
  call.permits.reverse <+: call.domains ∧ (call.woken = true → call.permits = [])

end CallPermit

/-- The reservation under the lock has a call and what is still wanted for it. -/
structure Capacity (κ : Type) where
  reservation : Option (CallPermit κ × List (CapacityDomain κ)) := none
  available : CapacityDomain κ → Nat := size
  changed : UInt64 := 0
  calls : List (CallPermit κ) := []

inductive Action (κ : Type)
  | reserve (conversation : κ) (compaction : Bool)
  | take
  | drop (index : Nat)

namespace Capacity

/-- The steps between which others may act. A refused reservation has returned its permits
when the lock is free again. -/
def perform (capacity : Capacity κ) : Action κ → Option (Capacity κ)
  | .reserve conversation compaction =>
    if capacity.reservation.isSome then none
    else some { capacity with
      reservation := some ({ conversation, compaction },
        CallPermit.domains { conversation, compaction }) }
  | .take =>
    match capacity.reservation with
    | none => none
    | some (call, []) => some { capacity with
        reservation := none, calls := capacity.calls ++ [call] }
    | some (call, domain :: wanted) =>
      if capacity.available domain = 0 then some { capacity with
        reservation := none
        available := fun other => capacity.available other + call.permits.count other }
      else some { capacity with
        reservation := some ({ call with permits := domain :: call.permits }, wanted)
        available := update capacity.available domain (capacity.available domain - 1) }
  | .drop index => capacity.calls[index]?.bind fun call =>
    match call.permits, call.woken with
    | domain :: permits, _ => some { capacity with
        available := update capacity.available domain (capacity.available domain + 1)
        calls := capacity.calls.set index { call with permits } }
    | [], false => some { capacity with
        changed := capacity.changed + 1
        calls := capacity.calls.set index { call with woken := true } }
    | [], true => none

def run (capacity : Capacity κ) (actions : List (Action κ)) : Option (Capacity κ) :=
  actions.foldlM perform capacity

def taken (calls : List (CallPermit κ)) (domain : CapacityDomain κ) : Nat :=
  (calls.map (·.permits.count domain)).sum

def number (capacity : Capacity κ) (p : CallPermit κ → Bool) : Nat :=
  (capacity.calls.map fun call => (p call).toNat).sum

/-- Every permit is available, with a call, or with the reservation. -/
structure Sound (capacity : Capacity κ) : Prop where
  balanced : ∀ domain, capacity.available domain + taken capacity.calls domain +
    taken (capacity.reservation.toList.map Prod.fst) domain = domain.size
  formed : ∀ call ∈ capacity.calls, call.Formed
  reserves : ∀ call wanted, capacity.reservation = some (call, wanted) →
    call.woken = false ∧ call.permits.reverse ++ wanted = call.domains

variable {capacity reached : Capacity κ} {call : CallPermit κ} {domain : CapacityDomain κ}

theorem taken_set {calls : List (CallPermit κ)} (found : calls[index]? = some call)
    (new : CallPermit κ) (domain : CapacityDomain κ) :
    taken (calls.set index new) domain + call.permits.count domain =
      taken calls domain + new.permits.count domain := by
  induction calls generalizing index with
  | nil => cases found
  | cons first calls ih => cases index <;> grind [taken]

theorem Sound.perform (sound : capacity.Sound)
    (done : capacity.perform action = some reached) : reached.Sound := by
  obtain ⟨balanced, formed, reserves⟩ := sound
  revert done
  fun_cases Capacity.perform capacity action
  case case2 free =>
    rintro ⟨⟩
    rw [Option.not_isSome_iff_eq_none] at free
    exact ⟨by simpa [taken, free] using balanced, formed, by grind⟩
  case case4 | case5 | case6 =>
    rintro ⟨⟩
    exact ⟨by grind [taken, update_apply], by grind [CallPermit.Formed],
      by grind [CallPermit.domains]⟩
  case case7 index =>
    intro done
    obtain ⟨call, found, done⟩ := Option.bind_eq_some_iff.mp done
    have here := formed call (mem_of_getElem? found)
    have moved := taken_set found
    have shorter permits (domain : CapacityDomain κ) :
        permits.reverse <+: (domain :: permits).reverse := by simp
    split at done <;> cases done
    all_goals exact ⟨by grind [update_apply],
      by grind [CallPermit.Formed, mem_or_eq_of_mem_set, IsPrefix.trans, CallPermit.domains],
      by grind⟩
  all_goals rintro ⟨⟩

theorem Sound.run (sound : capacity.Sound) (done : capacity.run actions = some reached) :
    reached.Sound := by
  induction actions generalizing capacity with
  | nil =>
    cases done
    exact sound
  | cons action actions ih =>
    obtain ⟨middle, first, rest⟩ := Option.bind_eq_some_iff.mp done
    exact ih (sound.perform first) rest

theorem counts (formed : call.Formed) (domain : CapacityDomain κ) :
    call.permits.count domain ≤ call.domains.count domain ∧
    (call.held = true → call.permits.count domain = call.domains.count domain) ∧
    (call.permits = [] ∨ processTotal ∈ call.permits) := by
  obtain ⟨part, -⟩ := formed
  have most := part.sublist.count_le domain
  rw [count_reverse] at most
  refine ⟨most, fun held => ?_, ?_⟩
  · rw [← count_reverse]
    grind [CallPermit.held]
  · obtain ⟨rest, same⟩ := part
    rw [← mem_reverse, ← reverse_eq_nil_iff]
    cases empty : call.permits.reverse <;> grind [CallPermit.domains]

/-- A general call that is whole or gone has as many general permits as total ones. -/
theorem general_counts (formed : call.Formed) (general : call.compaction = false)
    (whole : call.held = false → call.permits = []) (conversation : κ) :
    call.permits.count processTotal = call.permits.count processGeneral ∧
    call.permits.count (conversationTotal conversation) =
      call.permits.count (conversationGeneral conversation) := by
  cases held : call.held with
  | false => simp [whole held]
  | true =>
    have same domain := (counts formed domain).2.1 held
    simp [same, CallPermit.domains, general, count_cons]

section

variable (capacity : Capacity κ)

/-- The next permit that the reservation wants is not there. -/
def Refuses (call : CallPermit κ) (domain : CapacityDomain κ) : Prop :=
  (∃ wanted, capacity.reservation = some (call, domain :: wanted)) ∧ capacity.available domain = 0

/-- The call is a compaction, and the other compactions leave it a protected slot. -/
def Protected (call : CallPermit κ) : Prop :=
  call.compaction = true ∧
  capacity.number (fun other => other.compaction && other.permits ≠ []) < 8 ∧
  ∀ other ∈ capacity.calls, other.compaction = true → other.permits ≠ [] →
    other.conversation ≠ call.conversation

def Occupies (domain : CapacityDomain κ) (index : Nat) : Prop :=
  ∃ call ∈ capacity.calls[index]?, domain ∈ call.permits

def Ended (index : Nat) : Prop :=
  ∃ call ∈ capacity.calls[index]?, call.woken = true

/-- In these steps the counter is bumped after the calls returned all their permits. -/
def Wakes (actions : List (Action κ)) (calls : Nat → Prop) : Prop :=
  ∃ before index after middle, actions = before ++ .drop index :: after ∧
    capacity.run before = some middle ∧
    (middle.perform (.drop index)).map changed = some (middle.changed + 1) ∧
    ∀ index, calls index → ∃ call ∈ middle.calls[index]?, call.permits = []

end

section

variable (sound : capacity.Sound) (refuses : capacity.Refuses call domain)
include sound refuses

theorem Sound.full : domain ∈ call.domains ∧ taken capacity.calls domain = domain.size := by
  obtain ⟨⟨wanted, reservation⟩, none⟩ := refuses
  have balanced := sound.balanced domain
  have same := (sound.reserves call _ reservation).2
  have single : call.domains.Nodup := by
    unfold CallPermit.domains
    split <;> simp
  rw [← same] at single ⊢
  simp only [none, reservation, taken, Option.toList_some, map_cons, map_nil, sum_singleton]
    at balanced ⊢
  grind

/-- A refusal is due to a call that is held or being dropped. -/
theorem Sound.occupied : ∃ index, capacity.Occupies domain index := by
  by_contra! free
  have full := (sound.full refuses).2
  rw [taken, sum_eq_zero] at full
  · cases domain <;> cases full
  · intro count member
    obtain ⟨other, listed, rfl⟩ := mem_map.mp member
    obtain ⟨index, found⟩ := mem_iff_getElem?.mp listed
    exact count_eq_zero.mpr fun taken => free index ⟨other, found, taken⟩

/-- Only a general call that is being dropped keeps a compaction from its protected slot. -/
theorem Sound.compacts (protects : capacity.Protected call) :
    ∃ other ∈ capacity.calls, other.compaction = false ∧ other.held = false ∧
      other.permits ≠ [] := by
  by_contra! whole
  obtain ⟨compaction, few, apart⟩ := protects
  obtain ⟨member, full⟩ := sound.full refuses
  have room total general (p : CallPermit κ → Bool) (each : ∀ other ∈ capacity.calls,
      other.permits.count total ≤ other.permits.count general + (p other).toNat) :
      taken capacity.calls total ≤ taken capacity.calls general + capacity.number p := by
    rw [taken, taken, number, ← sum_map_add]
    exact sum_le_sum each
  simp only [CallPermit.domains, compaction, if_true, mem_cons, not_mem_nil, or_false] at member
  rcases member with rfl | rfl | rfl
  · have general := sound.balanced processGeneral
    have := room processTotal processGeneral
      (fun other => other.compaction && other.permits ≠ []) <| by
      intro other listed
      have formed := sound.formed other listed
      cases kind : other.compaction with
      | false => simp [general_counts formed kind (whole other listed kind) call.conversation]
      | true =>
        have most := (counts formed processTotal).1
        by_cases none : other.permits = [] <;> simp_all [CallPermit.domains]
        omega
    simp only [size] at full general
    omega
  · have general := sound.balanced (conversationGeneral call.conversation)
    have := room (conversationTotal call.conversation) (conversationGeneral call.conversation)
      (fun _ => false) <| by
      intro other listed
      have formed := sound.formed other listed
      cases kind : other.compaction with
      | false => simp [general_counts formed kind (whole other listed kind) _]
      | true =>
        have most := (counts formed (conversationTotal call.conversation)).1
        by_cases none : other.permits = []
        · simp [none]
        · simp [CallPermit.domains, kind, apart other listed kind none] at most
          omega
    simp only [size, number, Bool.toNat_false, map_const', sum_replicate, smul_zero] at *
    omega
  · have total := sound.balanced processTotal
    have fewer : taken capacity.calls requiredWriter ≤ taken capacity.calls processTotal := by
      refine sum_le_sum fun other listed => ?_
      have writer := counts (sound.formed other listed) requiredWriter
      have single : other.domains.count requiredWriter = 1 := by
        unfold CallPermit.domains
        split <;> simp
      grind
    obtain ⟨⟨wanted, reservation⟩, -⟩ := refuses
    obtain ⟨woken, same⟩ := sound.reserves call _ reservation
    have first := (counts ⟨⟨_, same⟩, by simp [woken]⟩ processTotal).2.2.resolve_left <| by
      intro empty
      simp [empty, CallPermit.domains, compaction] at same
    simp only [size, reservation, Option.toList_some, map_cons, map_nil, taken, sum_singleton]
      at full total fewer
    grind

end

/-- A call ends with its wake, which follows its last permit. -/
theorem Sound.ended_before (sound : capacity.Sound)
    (done : capacity.perform action = some reached) (ended : reached.Ended index) :
    capacity.Ended index ∨
      (action = .drop index ∧ reached.changed = capacity.changed + 1 ∧
        ∃ call ∈ capacity.calls[index]?, call.permits = []) := by
  obtain ⟨call, found, woken⟩ := ended
  have reserves := sound.reserves
  revert done
  fun_cases Capacity.perform capacity action
  case case7 dropped =>
    intro done
    obtain ⟨old, place, done⟩ := Option.bind_eq_some_iff.mp done
    split at done <;> cases done
    all_goals grind [Ended]
  all_goals
    rintro ⟨⟩ <;> grind [Ended]

theorem Sound.wakes (sound : capacity.Sound) (occupied : capacity.Occupies domain index)
    (ran : capacity.run actions = some reached)
    (ended : ∀ index, capacity.Occupies domain index → reached.Ended index) :
    capacity.Wakes actions (capacity.Occupies domain) := by
  induction actions using reverseRecOn generalizing reached with
  | nil =>
    cases ran
    obtain ⟨call, found, woken⟩ := ended index occupied
    have formed := sound.formed call (mem_of_getElem? found)
    grind [CallPermit.Formed, Occupies]
  | append_singleton actions action ih =>
    simp only [Capacity.run, foldlM_append, foldlM_cons, foldlM_nil, Option.bind_eq_bind,
      Option.bind_eq_some_iff] at ran
    obtain ⟨middle, first, last, step, ⟨⟩⟩ := ran
    have before := sound.run first
    by_cases earlier : ∀ index, capacity.Occupies domain index → middle.Ended index
    · obtain ⟨before, index, after, rest⟩ := ih first earlier
      exact ⟨before, index, after ++ [action], by grind⟩
    push Not at earlier
    obtain ⟨index, occupies, running⟩ := earlier
    obtain ⟨rfl, bumped, -⟩ :=
      (before.ended_before step (ended index occupies)).resolve_left running
    refine ⟨actions, index, [], middle, rfl, first, by simp [step, bumped], fun other holds => ?_⟩
    rcases before.ended_before step (ended other holds) with ⟨call, found, woken⟩ | returned
    · exact ⟨call, found, (before.formed call (mem_of_getElem? found)).2 woken⟩
    · exact returned.2.2

end Capacity

open Capacity

end RustX.Auxiliary
