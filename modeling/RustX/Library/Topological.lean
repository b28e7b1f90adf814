import RustX.Library.PortGraph

/-!
Topological order by counting down incoming edges, and breadth-first
reachability, over a finite graph given by its outgoing edges.
-/
namespace RustX.PortGraph

open List

variable {N P : Type} [DecidableEq N]

/-- Count down one edge; collect the nodes that reach zero. No result: a counter
fell below zero. -/
def countdown (state : (N → Nat) × List N) (edge : Edge N P) : Option ((N → Nat) × List N) :=
  match state.1 edge.target with
  | 0 => none
  | remaining + 1 =>
    some (Function.update state.1 edge.target remaining,
      if remaining = 0 then state.2 ++ [edge.target] else state.2)

/-- Take nodes from the queue in turn; `order` holds those taken so far. -/
def kahn (outgoing : N → List (Edge N P)) :
    Nat → List N → (N → Nat) → List N → Option (List N × (N → Nat))
  | _, [], counts, order => some (order, counts)
  | 0, _ :: _, _, _ => none
  | fuel + 1, node :: queue, counts, order => do
    let (counts, zero) ← (outgoing node).foldlM countdown (counts, [])
    kahn outgoing fuel (queue ++ zero) counts (order ++ [node])

def visit (outgoing : N → List (Edge N P)) : Nat → List N → List N → Option (List N)
  | _, [], seen => some seen
  | 0, _ :: _, _ => none
  | fuel + 1, node :: queue, seen =>
    if node ∈ seen then visit outgoing fuel queue seen
    else visit outgoing fuel (queue ++ (outgoing node).map Edge.target) (seen ++ [node])

/-- Counting down the edges of a node is passing them while nothing is selected. -/
theorem passEdges_none [DecidableEq P] (edges : List (Edge N P)) (counts : N → Nat)
    (ready zero : List N) :
    edges.foldlM (passEdge none) (⟨counts, fun _ => false, ready⟩, zero) =
      (edges.foldlM countdown (counts, zero)).map fun state =>
        (⟨state.1, fun _ => false, ready⟩, state.2) := by
  induction edges generalizing counts zero with
  | nil => rfl
  | cons edge edges ih =>
    cases count : counts edge.target with
    | zero => simp [passEdge, countdown, count]
    | succ remaining =>
      by_cases last : remaining = 0
      · simpa [passEdge, countdown, count, last] using ih ..
      · simpa [passEdge, countdown, count, last] using ih ..

theorem countdown_spec (edges rest : List (Edge N P)) (counts : N → Nat)
    (counted : ∀ node, counts node = arrivals (edges ++ rest) node) :
    ∃ after zero, edges.foldlM countdown (counts, []) = some (after, zero) ∧
      (∀ node, after node = arrivals rest node) ∧ zero.Nodup ∧
      ∀ node, node ∈ zero ↔ 0 < arrivals edges node ∧ arrivals rest node = 0 := by
  classical
  obtain ⟨⟨after, dead⟩, arrived, run, passed⟩ := passEdges_passed none edges rest
    (⟨counts, fun _ => false, []⟩, []) counted
  rw [passEdges_none] at run
  obtain ⟨⟨left, zero⟩, ran, same⟩ := Option.map_eq_some_iff.mp run
  obtain ⟨rfl, rfl⟩ := Prod.mk.injEq .. ▸ same
  have all : zero = arrived := by
    have dead := passed.dead
    simpa using dead
  subst all
  exact ⟨left, zero, ran, passed.waiting, passed.distinct, passed.arrived_iff⟩

section Order

variable (nodes : List N) (outgoing : N → List (Edge N P))

def Sorted (order : List N) : Prop :=
  ∀ before node after, order = before ++ node :: after →
    ∀ source ∈ nodes, ∀ edge ∈ outgoing source, edge.target = node → source ∈ before

/-- How far the countdown has come. -/
structure Counting (queue : List N) (counts : N → Nat) (order : List N) : Prop where
  distinct : (order ++ queue).Nodup
  known : ∀ node ∈ order ++ queue, node ∈ nodes
  remaining : ∀ node, counts node = arrivals (unpassed nodes outgoing order) node
  zero : ∀ node ∈ nodes, counts node = 0 ↔ node ∈ order ++ queue
  sorted : Sorted nodes outgoing order

variable {nodes outgoing}

theorem Counting.initial (distinct : nodes.Nodup)
    (counted : ∀ node, counts node = arrivals (nodes.flatMap outgoing) node) :
    Counting nodes outgoing (nodes.filter fun node => counts node = 0) counts [] where
  distinct := by simpa using distinct.filter _
  known := by simp +contextual
  remaining := by simpa [unpassed] using counted
  zero := by simp +contextual
  sorted := by simp [Sorted]

theorem Counting.next (distinct : nodes.Nodup)
    (closed : ∀ source ∈ nodes, ∀ edge ∈ outgoing source, edge.target ∈ nodes)
    (counting : Counting nodes outgoing (node :: queue) counts order) :
    ∃ after zero, (outgoing node).foldlM countdown (counts, []) = some (after, zero) ∧
      Counting nodes outgoing (queue ++ zero) after (order ++ [node]) := by
  have known : node ∈ nodes := counting.known node (by simp)
  have fresh : node ∉ order := by
    intro member
    exact (nodup_append.mp counting.distinct).2.2 node member node (by simp) rfl
  obtain ⟨after, zero, run, remaining, distinctZero, arrived⟩ := countdown_spec _ _ counts
    fun target => (counting.remaining target).trans (arrivals_unpassed distinct known fresh)
  have before : ∀ target, counts target = arrivals (outgoing node) target +
      arrivals (unpassed nodes outgoing (order ++ [node])) target := by
    intro target
    rw [counting.remaining, arrivals_unpassed distinct known fresh, arrivals_append]
  have moved : order ++ [node] ++ (queue ++ zero) = order ++ node :: queue ++ zero := by simp
  refine ⟨after, zero, run, ?_, ?_, remaining, ?_, ?_⟩
  · rw [moved, nodup_append]
    refine ⟨counting.distinct, distinctZero, ?_⟩
    rintro other old _ new rfl
    have none := (counting.zero other (counting.known other old)).mpr old
    have := ((arrived other).mp new).1
    have := before other
    omega
  · intro other member
    rw [moved] at member
    rcases mem_append.mp member with old | new
    · exact counting.known other old
    · obtain ⟨edge, leaves, rfl⟩ := arrivals_pos_iff.mp ((arrived other).mp new).1
      exact closed node known edge leaves
  · intro other member
    rw [moved, mem_append, ← counting.zero other member, arrived, remaining]
    have := before other
    omega
  · -- Either the node just taken is listed here, or an earlier one.
    have here : ∀ source ∈ nodes, ∀ edge ∈ outgoing source, edge.target = node →
        source ∈ order := by
      have none := (counting.zero node known).mpr (by simp)
      rwa [counting.remaining, arrivals_unpassed_eq_zero_iff] at none
    intro prior listed later split
    rcases append_eq_append_iff.mp split with ⟨rest, rfl, tail⟩ | ⟨rest, rfl, tail⟩
    · obtain ⟨rfl, rfl⟩ : rest = [] ∧ listed = node := by
        cases rest <;> simp_all
      simpa using here
    · cases rest with
      | nil =>
        obtain ⟨rfl, -⟩ : listed = node ∧ later = [] := by simpa using tail
        simpa using here
      | cons head rest =>
        obtain ⟨rfl, -⟩ : head = listed ∧ rest ++ [node] = later := by simpa using tail.symm
        exact counting.sorted prior head rest rfl

/-- The countdown never fails, and what it has taken is sorted. -/
theorem kahn_spec (distinct : nodes.Nodup)
    (closed : ∀ source ∈ nodes, ∀ edge ∈ outgoing source, edge.target ∈ nodes)
    (counting : Counting nodes outgoing queue counts order)
    (enough : nodes.length ≤ order.length + fuel) :
    ∃ result after, kahn outgoing fuel queue counts order = some (result, after) ∧
      Counting nodes outgoing [] after result := by
  induction fuel generalizing queue counts order with
  | zero =>
    have within := (subperm_of_subset counting.distinct counting.known).length_le
    cases queue with
    | nil => exact ⟨order, counts, rfl, counting⟩
    | cons node queue => simp at within enough; omega
  | succ fuel ih =>
    cases queue with
    | nil => exact ⟨order, counts, rfl, counting⟩
    | cons node queue =>
      obtain ⟨after, zero, run, next⟩ := counting.next distinct closed
      obtain ⟨result, final, rest, done⟩ := ih next (by simp; omega)
      exact ⟨result, final, by rw [kahn, run]; exact rest, done⟩

/-- A sorted list ranks its nodes. -/
theorem Sorted.idxOf_lt (sorted : Sorted nodes outgoing order) (distinct : order.Nodup)
    (known : source ∈ nodes) (leaves : edge ∈ outgoing source) (listed : edge.target ∈ order) :
    order.idxOf source < order.idxOf edge.target := by
  obtain ⟨before, after, rfl⟩ := append_of_mem listed
  have earlier := sorted before _ after rfl source known edge leaves rfl
  have fresh : edge.target ∉ before := by
    intro member
    exact (nodup_append.mp distinct).2.2 _ member _ (by simp) rfl
  rw [idxOf_append_of_mem earlier, idxOf_append_of_notMem fresh, idxOf_cons_self, Nat.add_zero]
  exact idxOf_lt_length_of_mem earlier

end Order

section Visit

/-- Only the start of the queue and targets of edges are visited. -/
theorem visit_sound {allowed : N → Prop} (ran : visit outgoing fuel queue seen = some result)
    (start : ∀ node ∈ queue ++ seen, allowed node)
    (step : ∀ node, allowed node → ∀ edge ∈ outgoing node, allowed edge.target) :
    ∀ node ∈ result, allowed node := by
  induction fuel generalizing queue seen with
  | zero =>
    cases queue with
    | nil => obtain rfl := Option.some.inj ran; simpa using start
    | cons node queue => simp [visit] at ran
  | succ fuel ih =>
    cases queue with
    | nil => obtain rfl := Option.some.inj ran; simpa [visit] using start
    | cons node queue =>
      rw [visit] at ran
      split at ran
      · exact ih ran fun other member => start other (by simp at member ⊢; tauto)
      refine ih ran fun other member => ?_
      have here := start node (by simp)
      simp only [mem_append, mem_map, mem_singleton] at member
      rcases member with (waits | ⟨edge, leaves, rfl⟩) | (old | rfl)
      · exact start other (by simp [waits])
      · exact step node here edge leaves
      · exact start other (by simp [old])
      · exact here

end Visit

end RustX.PortGraph
