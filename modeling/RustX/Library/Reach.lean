import Mathlib

/-!
Depth-first search for a node through successor lists, and when the graph of a
successor function stays without cycles.
-/
namespace RustX.Reach

open Relation

variable {N : Type}

def Edge (next : N → List N) (source target : N) : Prop :=
  target ∈ next source

def Acyclic (next : N → List N) : Prop :=
  ∀ node, ¬ TransGen (Edge next) node node

section Search

variable [DecidableEq N]

/-- Whether the search from a stack of nodes meets `target`. No result: out of fuel. -/
def search (next : N → List N) (target : N) : Nat → List N → List N → Option Bool
  | _, [], _ => some false
  | 0, _ :: _, _ => none
  | fuel + 1, node :: stack, seen =>
    if node = target then some true
    else if node ∈ seen then search next target fuel stack seen
    else search next target fuel ((next node).reverse ++ stack) (node :: seen)

variable {next : N → List N}

def pops (next : N → List N) (nodes stack seen : List N) : Nat :=
  stack.length + ((nodes.filter (· ∉ seen)).map fun node => (next node).length).sum

theorem pops_seen {nodes : List N} (distinct : nodes.Nodup) (leaf : node ∉ nodes → next node = [])
    (fresh : node ∉ seen) :
    pops next nodes ((next node).reverse ++ stack) (node :: seen) = pops next nodes stack seen := by
  by_cases member : node ∈ nodes
  · have moved : (nodes.filter (· ∉ seen)).Perm (node :: nodes.filter (· ∉ node :: seen)) := by
      have kept : nodes.filter (· ∉ node :: seen) = (nodes.filter (· ∉ seen)).erase node := by
        rw [List.Nodup.erase_eq_filter (distinct.filter _), List.filter_filter]
        congr 1
        funext other
        by_cases same : other = node <;> simp [same]
      rw [kept]
      exact List.perm_cons_erase (List.mem_filter.mpr ⟨member, by simpa using fresh⟩)
    simp only [pops, List.length_append, List.length_reverse,
      (moved.map fun node => (next node).length).sum_eq, List.map_cons, List.sum_cons]
    omega
  · have same : nodes.filter (· ∉ node :: seen) = nodes.filter (· ∉ seen) := by
      apply List.filter_congr
      intro other listed
      have differs : other ≠ node := fun same => member (same ▸ listed)
      simp [differs]
    rw [pops, pops, same, leaf member]
    rfl

/-- With fuel for every edge the search has a result. -/
theorem search_total {nodes : List N} (distinct : nodes.Nodup)
    (leaf : ∀ node, node ∉ nodes → next node = []) (enough : pops next nodes stack seen ≤ fuel) :
    ∃ found, search next target fuel stack seen = some found := by
  induction fuel generalizing stack seen with
  | zero =>
    cases stack with
    | nil => exact ⟨false, rfl⟩
    | cons node stack => simp [pops] at enough
  | succ fuel ih =>
    cases stack with
    | nil => exact ⟨false, rfl⟩
    | cons node stack =>
      have popped : pops next nodes stack seen ≤ fuel := by
        simp only [pops, List.length_cons] at enough ⊢
        omega
      rw [search]
      split
      · exact ⟨true, rfl⟩
      · split
        · exact ih popped
        · rename_i fresh
          apply ih
          rw [pops_seen distinct (leaf node) fresh]
          exact popped

theorem search_sound (ran : search next target fuel stack seen = some true) :
    ∃ node ∈ stack, ReflTransGen (Edge next) node target := by
  induction fuel generalizing stack seen with
  | zero => cases stack <;> simp [search] at ran
  | succ fuel ih =>
    cases stack with
    | nil => simp [search] at ran
    | cons node stack =>
      rw [search] at ran
      split at ran
      · rename_i same
        exact ⟨node, List.mem_cons_self, same ▸ .refl⟩
      · split at ran
        · obtain ⟨start, member, path⟩ := ih ran
          exact ⟨start, .tail _ member, path⟩
        · obtain ⟨start, member, path⟩ := ih ran
          rcases List.mem_append.mp member with new | old
          · exact ⟨node, List.mem_cons_self, .head (List.mem_reverse.mp new) path⟩
          · exact ⟨start, .tail _ old, path⟩

/-- A search that finds nothing has seen a closed set around its start, without the
target. -/
theorem search_closed (ran : search next target fuel stack seen = some false)
    (missing : target ∉ seen)
    (closed : ∀ node ∈ seen, ∀ after ∈ next node, after ∈ seen ∨ after ∈ stack) :
    ∃ all : List N, target ∉ all ∧ (∀ node ∈ stack ++ seen, node ∈ all) ∧
      ∀ node ∈ all, ∀ after ∈ next node, after ∈ all := by
  induction fuel generalizing stack seen with
  | zero =>
    cases stack with
    | nil => exact ⟨seen, missing, by simp, by simpa using closed⟩
    | cons node stack => simp [search] at ran
  | succ fuel ih =>
    cases stack with
    | nil => exact ⟨seen, missing, by simp, by simpa using closed⟩
    | cons node stack =>
      rw [search] at ran
      split at ran
      · cases ran
      rename_i other
      split at ran
      · rename_i old
        obtain ⟨all, without, covers, stays⟩ := ih ran missing (by
          intro source member after leads
          rcases closed source member after leads with known | waits
          · exact .inl known
          · rcases List.mem_cons.mp waits with rfl | waits
            · exact .inl old
            · exact .inr waits)
        refine ⟨all, without, ?_, stays⟩
        intro start member
        rcases List.mem_append.mp member with listed | known
        · rcases List.mem_cons.mp listed with rfl | listed
          · exact covers _ (List.mem_append_right _ old)
          · exact covers _ (List.mem_append_left _ listed)
        · exact covers _ (List.mem_append_right _ known)
      · obtain ⟨all, without, covers, stays⟩ := ih ran (by simp [missing, Ne.symm other]) (by
          intro source member after leads
          rcases List.mem_cons.mp member with rfl | member
          · exact .inr (List.mem_append_left _ (List.mem_reverse.mpr leads))
          · rcases closed source member after leads with known | waits
            · exact .inl (.tail _ known)
            · rcases List.mem_cons.mp waits with rfl | waits
              · exact .inl List.mem_cons_self
              · exact .inr (List.mem_append_right _ waits))
        refine ⟨all, without, ?_, stays⟩
        intro start member
        rcases List.mem_append.mp member with listed | known
        · rcases List.mem_cons.mp listed with rfl | listed
          · exact covers _ (by simp)
          · exact covers _ (by simp [listed])
        · exact covers _ (by simp [known])

theorem search_eq_true_iff {nodes : List N} (distinct : nodes.Nodup)
    (leaf : ∀ node, node ∉ nodes → next node = []) (enough : pops next nodes stack [] ≤ fuel) :
    search next target fuel stack [] = some true ↔
      ∃ node ∈ stack, ReflTransGen (Edge next) node target := by
  constructor
  · exact search_sound
  rintro ⟨start, member, path⟩
  obtain ⟨found, ran⟩ : ∃ found, search next target fuel stack [] = some found :=
    search_total distinct leaf enough
  cases found with
  | true => exact ran
  | false =>
    obtain ⟨all, without, covers, stays⟩ := search_closed ran (by simp) (by simp)
    have reached : ∀ node, ReflTransGen (Edge next) start node → node ∈ all := by
      intro node path
      induction path with
      | refl => exact covers start (by simp [member])
      | tail _ edge known => exact stays _ known _ edge
    exact absurd (reached target path) without

end Search

section Changes

/-- A path to `node` in a graph with new edges only out of `node` is, up to its first
arrival there, a path of the old graph. -/
theorem reach_of_changed
    (kept : ∀ other, other ≠ node → ∀ target ∈ after other, target ∈ next other)
    (path : ReflTransGen (Edge after) start node) : ReflTransGen (Edge next) start node := by
  induction path using ReflTransGen.head_induction_on with
  | refl => exact .refl
  | @head source middle edge _ ih =>
    by_cases here : source = node
    · exact here ▸ .refl
    · exact .head (kept source here middle edge) ih

/-- A path of the changed graph that never leaves `node` is one of the old graph. -/
theorem trans_of_changed
    (kept : ∀ other, other ≠ node → ∀ target ∈ after other, target ∈ next other)
    (path : TransGen (Edge after) start final) :
    TransGen (Edge next) start final ∨
      ReflTransGen (Edge after) start node ∧ TransGen (Edge after) node final := by
  induction path using TransGen.head_induction_on with
  | @single source edge =>
    by_cases here : source = node
    · exact .inr ⟨here ▸ .refl, here ▸ .single edge⟩
    · exact .inl (.single (kept source here final edge))
  | @head source middle edge rest ih =>
    by_cases here : source = node
    · exact .inr ⟨here ▸ .refl, here ▸ .head edge rest⟩
    · rcases ih with old | ⟨there, onward⟩
      · exact .inl (.head (kept source here middle edge) old)
      · exact .inr ⟨.head edge there, onward⟩

/-- New edges out of one node close no cycle, unless the node is reached from one of its
new successors. -/
theorem Acyclic.change (acyclic : Acyclic next)
    (kept : ∀ other, other ≠ node → ∀ target ∈ after other, target ∈ next other)
    (apart : ∀ target ∈ after node, ¬ ReflTransGen (Edge next) target node) : Acyclic after := by
  intro start cycle
  rcases trans_of_changed kept cycle with old | ⟨there, back⟩
  · exact acyclic start old
  · -- the cycle meets the changed node, and can be turned to start there
    obtain ⟨target, leaves, path⟩ := TransGen.head'_iff.mp (back.trans_left there)
    exact apart target leaves (reach_of_changed kept path)

end Changes

end RustX.Reach
