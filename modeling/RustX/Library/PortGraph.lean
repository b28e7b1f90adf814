import Mathlib

/-!
Joins over a finite graph with labelled exits. A node that finishes selects one
of its ports; a node whose incoming edges were all passed runs when one of them
was selected, and otherwise dies and passes its own edges on.
-/
namespace RustX.PortGraph

open List

structure Edge (N P : Type) where
  target : N
  port : P
  deriving DecidableEq

variable {N P : Type} [DecidableEq N]

/-- The edges not yet passed, the nodes selected so far, and the nodes to run. -/
structure Joins (N : Type) where
  waiting : N → Nat
  active : N → Bool
  ready : List N

def arrivals (edges : List (Edge N P)) (node : N) : Nat :=
  edges.countP fun edge => edge.target = node

@[simp] theorem arrivals_nil (node : N) : arrivals ([] : List (Edge N P)) node = 0 := rfl

@[simp] theorem arrivals_append (left right : List (Edge N P)) (node : N) :
    arrivals (left ++ right) node = arrivals left node + arrivals right node :=
  countP_append

theorem arrivals_cons (edge : Edge N P) (edges : List (Edge N P)) (node : N) :
    arrivals (edge :: edges) node = arrivals edges node + if edge.target = node then 1 else 0 := by
  simp [arrivals, countP_cons]

theorem arrivals_pos_iff {node : N} :
    0 < arrivals edges node ↔ ∃ edge ∈ edges, edge.target = node := by
  simp [arrivals, countP_pos_iff]

/-- The edges of the nodes outside `done`. -/
def unpassed (nodes : List N) (outgoing : N → List (Edge N P)) (done : List N) : List (Edge N P) :=
  (nodes.filter fun node => node ∉ done).flatMap outgoing

variable {outgoing : N → List (Edge N P)}

theorem unpassed_perm {nodes : List N} (distinct : nodes.Nodup) (member : node ∈ nodes)
    (fresh : node ∉ done) :
    (unpassed nodes outgoing done).Perm
      (outgoing node ++ unpassed nodes outgoing (done ++ [node])) := by
  have erased : (nodes.filter fun other => other ∉ done ++ [node]) =
      (nodes.filter fun other => other ∉ done).erase node := by
    rw [(distinct.filter _).erase_eq_filter, filter_filter]
    refine filter_congr fun other _ => ?_
    by_cases same : other = node <;> simp [same]
  have split : (nodes.filter fun other => other ∉ done).Perm
      (node :: nodes.filter fun other => other ∉ done ++ [node]) := by
    rw [erased]
    exact perm_cons_erase (mem_filter.mpr ⟨member, by simpa using fresh⟩)
  exact split.flatMap_right outgoing

theorem arrivals_unpassed {nodes : List N} (distinct : nodes.Nodup) (member : node ∈ nodes)
    (fresh : node ∉ done) :
    arrivals (unpassed nodes outgoing done) target =
      arrivals (outgoing node ++ unpassed nodes outgoing (done ++ [node])) target :=
  (unpassed_perm distinct member fresh).countP_eq _

theorem arrivals_unpassed_eq_zero_iff {done : List N} :
    arrivals (unpassed nodes outgoing done) target = 0 ↔
      ∀ source ∈ nodes, ∀ edge ∈ outgoing source, edge.target = target → source ∈ done := by
  constructor
  · rintro none source member edge leaves rfl
    by_contra fresh
    have listed : edge ∈ unpassed nodes outgoing done :=
      mem_flatMap.mpr ⟨source, by simp [member, fresh], leaves⟩
    have := arrivals_pos_iff.mpr ⟨edge, listed, rfl⟩
    omega
  · intro all
    by_contra some
    obtain ⟨edge, member, rfl⟩ := arrivals_pos_iff.mp (Nat.pos_of_ne_zero some)
    obtain ⟨source, kept, leaves⟩ := mem_flatMap.mp member
    simp only [mem_filter, decide_eq_true_eq] at kept
    exact kept.2 (all source kept.1 edge leaves rfl)

section Passing

variable [DecidableEq P]

/-- Pass one edge of a node that finished through `port`, or died. The second
component collects the nodes that die. No result: a counter fell below zero. -/
def passEdge (port : Option P) (state : Joins N × List N) (edge : Edge N P) :
    Option (Joins N × List N) :=
  let (joins, dead) := state
  let active :=
    if port = some edge.port then Function.update joins.active edge.target true else joins.active
  match joins.waiting edge.target with
  | 0 => none
  | remaining + 1 =>
    let waiting := Function.update joins.waiting edge.target remaining
    if remaining = 0 then
      if active edge.target then
        some ({ waiting, active, ready := joins.ready ++ [edge.target] }, dead)
      else some ({ waiting, active, ready := joins.ready }, dead ++ [edge.target])
    else some ({ waiting, active, ready := joins.ready }, dead)

def drain (outgoing : N → List (Edge N P)) : Nat → List (N × Option P) → Joins N → Option (Joins N)
  | _, [], joins => some joins
  | 0, _ :: _, _ => none
  | fuel + 1, (node, port) :: queue, joins => do
    let (joins, dead) ← (outgoing node).foldlM (passEdge port) (joins, [])
    drain outgoing fuel (queue ++ dead.map fun node => (node, none)) joins

/-- Whether `port` selects an edge of `edges` to `node`. -/
def selects (port : Option P) (edges : List (Edge N P)) (node : N) : Bool :=
  edges.any fun edge => port == some edge.port && edge.target == node

theorem selects_iff {edges : List (Edge N P)} : selects port edges node = true ↔
      ∃ edge ∈ edges, port = some edge.port ∧ edge.target = node := by
  simp [selects]

/-- What passing `edges` does, when `rest` are the edges still to be passed. -/
structure Passed (port : Option P) (edges rest : List (Edge N P)) (before : Joins N × List N)
    (after : Joins N × List N) (arrived : List N) : Prop where
  waiting : ∀ node, after.1.waiting node = arrivals rest node
  active : ∀ node, after.1.active node = (before.1.active node || selects port edges node)
  distinct : arrived.Nodup
  arrived_iff : ∀ node, node ∈ arrived ↔ 0 < arrivals edges node ∧ arrivals rest node = 0
  ready : after.1.ready = before.1.ready ++ arrived.filter fun node => after.1.active node
  dead : after.2 = before.2 ++ arrived.filter fun node => !after.1.active node

theorem passEdge_passed (port : Option P) (edge : Edge N P) (rest : List (Edge N P))
    (state : Joins N × List N)
    (counted : ∀ node, state.1.waiting node = arrivals (edge :: rest) node) :
    ∃ after, passEdge port state edge = some after ∧ Passed port [edge] rest state after
        (if arrivals rest edge.target = 0 then [edge.target] else []) := by
  obtain ⟨joins, dead⟩ := state
  have here : joins.waiting edge.target = arrivals rest edge.target + 1 := by
    rw [counted, arrivals_cons, if_pos rfl]
  let waiting := Function.update joins.waiting edge.target (arrivals rest edge.target)
  let active :=
    if port = some edge.port then Function.update joins.active edge.target true else joins.active
  have remaining : ∀ node, waiting node = arrivals rest node := by
    intro node
    by_cases same : node = edge.target
    · subst same
      exact Function.update_self ..
    · rw [show waiting node = joins.waiting node from Function.update_of_ne same .., counted,
        arrivals_cons, if_neg (Ne.symm same), Nat.add_zero]
  have marked : ∀ node, active node = (joins.active node || selects port [edge] node) := by
    intro node
    by_cases selected : port = some edge.port
    · rcases eq_or_ne node edge.target with rfl | differs
      · simp [active, selects, selected]
      · simp [active, selects, selected, differs, differs.symm]
    · simp [active, selects, selected]
  have arrived_iff : ∀ node,
      node ∈ (if arrivals rest edge.target = 0 then [edge.target] else []) ↔
        0 < arrivals [edge] node ∧ arrivals rest node = 0 := by
    intro node
    rw [arrivals_pos_iff]
    rcases eq_or_ne node edge.target with rfl | differs
    · by_cases last : arrivals rest edge.target = 0 <;> simp [last]
    · by_cases last : arrivals rest edge.target = 0 <;> simp [last, differs, differs.symm]
  have distinct : (if arrivals rest edge.target = 0 then [edge.target] else []).Nodup := by
    split <;> simp
  by_cases last : arrivals rest edge.target = 0
  · by_cases alive : active edge.target = true
    · refine ⟨(⟨waiting, active, joins.ready ++ [edge.target]⟩, dead), ?_,
        remaining, marked, distinct, arrived_iff, by simp [last, alive], by simp [last, alive]⟩
      simp only [passEdge, here, last, if_true, waiting]
      exact if_pos alive
    · refine ⟨(⟨waiting, active, joins.ready⟩, dead ++ [edge.target]), ?_,
        remaining, marked, distinct, arrived_iff, by simp [last, alive], by simp [last, alive]⟩
      simp only [passEdge, here, last, if_true, waiting]
      exact if_neg alive
  · refine ⟨(⟨waiting, active, joins.ready⟩, dead), ?_,
      remaining, marked, distinct, arrived_iff, by simp [last], by simp [last]⟩
    simp only [passEdge, here, last, if_false]
    rfl

theorem Passed.trans {after} {first : List (Edge N P)}
    (head : Passed port first (second ++ rest) before middle left)
    (tail : Passed port second rest middle after right) :
    Passed port (first ++ second) rest before after (left ++ right) := by
  have active : ∀ node, after.1.active node =
      (before.1.active node || selects port (first ++ second) node) := by
    intro node
    rw [tail.active, head.active, Bool.or_assoc]
    simp [selects]
  -- A node that arrived in the first part is not selected again in the second.
  have same : ∀ node ∈ left, after.1.active node = middle.1.active node := by
    intro node arrived
    have none : arrivals (second ++ rest) node = 0 := ((head.arrived_iff node).mp arrived).2
    have unselected : selects port second node = false := by
      rw [Bool.eq_false_iff, Ne, selects_iff]
      rintro ⟨edge, member, -, target⟩
      have := arrivals_pos_iff.mpr ⟨edge, member, target⟩
      simp at none
      omega
    rw [tail.active, unselected, Bool.or_false]
  have keep : ∀ test : Bool → Bool,
      left.filter (fun node => test (middle.1.active node)) =
        left.filter fun node => test (after.1.active node) := by
    intro test
    refine filter_congr fun node member => ?_
    rw [same node member]
  refine ⟨tail.waiting, active, ?_, ?_, ?_, ?_⟩
  · rw [nodup_append]
    refine ⟨head.distinct, tail.distinct, ?_⟩
    rintro node inLeft _ inRight rfl
    have := ((head.arrived_iff node).mp inLeft).2
    have := ((tail.arrived_iff node).mp inRight).1
    simp at *
    omega
  · intro node
    simp only [mem_append, head.arrived_iff, tail.arrived_iff, arrivals_append]
    omega
  · have alive := keep id
    simp only [id_eq] at alive
    rw [tail.ready, head.ready, filter_append, append_assoc, alive]
  · rw [tail.dead, head.dead, filter_append, append_assoc, keep]

/-- Passing the edges of a node never fails when they are still counted. -/
theorem passEdges_passed (port : Option P) (edges rest : List (Edge N P)) (state : Joins N × List N)
    (counted : ∀ node, state.1.waiting node = arrivals (edges ++ rest) node) :
    ∃ after arrived, edges.foldlM (passEdge port) state = some after ∧
      Passed port edges rest state after arrived := by
  induction edges generalizing state with
  | nil =>
    exact ⟨state, [], rfl, counted, by simp [selects], by simp, by simp, by simp, by simp⟩
  | cons edge edges ih =>
    obtain ⟨middle, step, head⟩ := passEdge_passed port edge _ state counted
    obtain ⟨after, arrived, run, tail⟩ := ih middle head.waiting
    refine ⟨after, _, ?_, head.trans tail⟩
    rw [foldlM_cons, step]
    exact run

end Passing

/-- A path from the entry whose edges were all chosen by the nodes they leave. -/
inductive Reached (entry : N) (outgoing : N → List (Edge N P)) (chose : N → P → Prop) : N → Prop
  | entry : Reached entry outgoing chose entry
  | step {source : N} {edge : Edge N P} (reached : Reached entry outgoing chose source)
      (chosen : chose source edge.port) (member : edge ∈ outgoing source) :
      Reached entry outgoing chose edge.target

/-- No choice can select this node any more: every edge to it leaves a node that
chose another port, or a node that is itself dead. -/
inductive Dead (nodes : List N) (entry : N) (outgoing : N → List (Edge N P))
    (chose : N → P → Prop) : N → Prop
  | intro {node : N} (notEntry : node ≠ entry)
      (edges : ∀ source ∈ nodes, ∀ edge ∈ outgoing source, edge.target = node →
        (¬ ∃ port, chose source port ∧ port ≠ edge.port) → Dead nodes entry outgoing chose source) :
      Dead nodes entry outgoing chose node

/-- A finite acyclic graph that is entered at one node only. -/
structure Graph (N P : Type) where
  nodes : List N
  entry : N
  outgoing : N → List (Edge N P)
  rank : N → Nat
  distinct : nodes.Nodup
  entry_mem : entry ∈ nodes
  closed : ∀ source ∈ nodes, ∀ edge ∈ outgoing source, edge.target ∈ nodes
  rises : ∀ source ∈ nodes, ∀ edge ∈ outgoing source, rank source < rank edge.target
  entered : ∀ node ∈ nodes, node ≠ entry → ∃ source ∈ nodes, ∃ edge ∈ outgoing source,
    edge.target = node
  unentered : ∀ source ∈ nodes, ∀ edge ∈ outgoing source, edge.target ≠ entry

namespace Graph

variable (graph : Graph N P)

def Leads (source target : N) : Prop :=
  source ∈ graph.nodes ∧ ∃ edge ∈ graph.outgoing source, edge.target = target

/-- The nodes that the choices of a run reach. -/
abbrev Reached : (N → P → Prop) → N → Prop :=
  PortGraph.Reached graph.entry graph.outgoing

/-- The nodes that the choices of a run rule out. -/
abbrev Dead : (N → P → Prop) → N → Prop :=
  PortGraph.Dead graph.nodes graph.entry graph.outgoing

omit [DecidableEq N] in
/-- Induction along the edges. -/
theorem induction {motive : N → Prop}
    (step : ∀ node ∈ graph.nodes, (∀ source, graph.Leads source node → motive source) → motive node)
    {node : N} (member : node ∈ graph.nodes) : motive node := by
  induction rank : graph.rank node using Nat.strongRecOn generalizing node with
  | _ _ ih =>
    refine step node member fun source leads => ?_
    obtain ⟨known, edge, leaves, rfl⟩ := leads
    exact ih _ (rank ▸ graph.rises source known edge leaves) known rfl

def initial : Joins N where
  waiting := arrivals (graph.nodes.flatMap graph.outgoing)
  active := fun node => decide (node = graph.entry)
  ready := [graph.entry]

end Graph

/-- The nodes that finished, died, wait in the queue, run or may run. -/
def placed (done queue : List (N × Option P)) (pending ready : List N) : List N :=
  done.map Prod.fst ++ queue.map Prod.fst ++ (pending ++ ready)

/-- How far a run has come: `done` are the nodes whose edges were passed, with
the port they chose or none when they died. -/
structure Progress (graph : Graph N P) (joins : Joins N) (done queue : List (N × Option P))
    (pending : List N) : Prop where
  distinct : (placed done queue pending joins.ready).Nodup
  known : ∀ node ∈ placed done queue pending joins.ready, node ∈ graph.nodes
  waiting : ∀ node, joins.waiting node = arrivals (unpassed graph.nodes graph.outgoing (done.map Prod.fst)) node
  arrived : ∀ node ∈ graph.nodes,
    joins.waiting node = 0 ↔ node ∈ placed done queue pending joins.ready
  active : ∀ node, joins.active node = true ↔ node = graph.entry ∨
    ∃ source port, (source, some port) ∈ done ∧ ∃ edge ∈ graph.outgoing source,
      edge.port = port ∧ edge.target = node
  running : ∀ node ∈ pending ++ joins.ready, joins.active node = true
  resolved : ∀ node port, (node, port) ∈ done ++ queue → joins.active node = port.isSome

namespace Progress

variable {graph : Graph N P} {joins : Joins N} {done queue : List (N × Option P)}
  {pending : List N}

theorem initial (graph : Graph N P) : Progress graph graph.initial [] [] [] where
  distinct := by simp [placed, Graph.initial]
  known := by simp [placed, Graph.initial, graph.entry_mem]
  waiting := by
    intro node
    simp [Graph.initial, unpassed]
  arrived := by
    intro node member
    have whole : unpassed graph.nodes graph.outgoing [] = graph.nodes.flatMap graph.outgoing := by
      simp [unpassed]
    simp only [Graph.initial, placed, map_nil, nil_append, mem_singleton, ← whole,
      arrivals_unpassed_eq_zero_iff]
    constructor
    · intro none
      by_contra other
      obtain ⟨source, sourceMember, edge, leaves, rfl⟩ := graph.entered node member other
      simpa using none source sourceMember edge leaves rfl
    · rintro rfl source sourceMember edge leaves target
      exact absurd target (graph.unentered source sourceMember edge leaves)
  active := by simp [Graph.initial]
  running := by simp [Graph.initial]
  resolved := by simp

variable {node : N}

/-- Every node before a placed one has finished or died. -/
theorem source_done (progress : Progress graph joins done queue pending)
    (member : node ∈ placed done queue pending joins.ready) (leads : graph.Leads source node) :
    source ∈ done.map Prod.fst := by
  have zero := (progress.arrived node (progress.known node member)).mpr member
  rw [progress.waiting, arrivals_unpassed_eq_zero_iff] at zero
  obtain ⟨sourceMember, edge, leaves, target⟩ := leads
  exact zero source sourceMember edge leaves target

theorem finish (progress : Progress graph joins done [] pending) (member : node ∈ pending) :
    Progress graph joins done [(node, some port)] (pending.erase node) := by
  have moved : (placed done [(node, some port)] (pending.erase node) joins.ready).Perm
      (placed done [] pending joins.ready) := by
    simp only [placed, map_cons, map_nil, append_nil, append_assoc]
    refine List.Perm.append_left _ ?_
    exact ((perm_cons_erase member).symm).append_right _
  refine ⟨moved.nodup_iff.mpr progress.distinct,
    fun other placed => progress.known other (moved.mem_iff.mp placed), progress.waiting,
    fun other known => (progress.arrived other known).trans moved.mem_iff.symm,
    progress.active, ?_, ?_⟩
  · intro other running
    refine progress.running other ?_
    rcases mem_append.mp running with left | right
    · exact mem_append_left _ (mem_of_mem_erase left)
    · exact mem_append_right _ right
  · intro other chosen resolved
    rcases mem_append.mp resolved with old | new
    · exact progress.resolved other chosen (by simpa using old)
    · obtain ⟨rfl, rfl⟩ : other = node ∧ chosen = some port := by simpa using new
      simpa using progress.running other (mem_append_left _ member)

theorem start (progress : Progress graph joins done queue pending) :
    Progress graph { joins with ready := [] } done queue (pending ++ joins.ready) where
  distinct := by simpa [placed] using progress.distinct
  known := by simpa [placed] using progress.known
  waiting := progress.waiting
  arrived := by simpa [placed] using progress.arrived
  active := progress.active
  running := by simpa using progress.running
  resolved := progress.resolved

theorem done_length_le (progress : Progress graph joins done queue pending) :
    done.length + queue.length ≤ graph.nodes.length := by
  have within := (subperm_of_subset progress.distinct progress.known).length_le
  simp only [placed, length_append, length_map] at within
  omega

theorem pass [DecidableEq P] {port : Option P}
    (progress : Progress graph joins done ((node, port) :: queue) pending) :
    ∃ after, ∃ dead fresh : List N, (graph.outgoing node).foldlM (passEdge port) (joins, []) =
        some (after, dead) ∧ after.ready = joins.ready ++ fresh ∧
      Progress graph after (done ++ [(node, port)]) (queue ++ dead.map fun node => (node, none))
        pending := by
  have known : node ∈ graph.nodes := progress.known node (by simp [placed])
  have fresh : node ∉ done.map Prod.fst := by
    have distinct := progress.distinct
    simp only [placed, map_cons, append_assoc, cons_append] at distinct
    intro member
    exact (nodup_append.mp distinct).2.2 node member node (by simp) rfl
  obtain ⟨⟨after, dead⟩, arrived, run, passed⟩ := passEdges_passed port _ _ (joins, [])
    (fun target => (progress.waiting target).trans (arrivals_unpassed graph.distinct known fresh))
  have ready := passed.ready
  have died := passed.dead
  simp only [nil_append] at ready died
  refine ⟨after, dead, _, run, ready, ?_⟩
  have before : ∀ target, joins.waiting target = arrivals (graph.outgoing node) target +
      arrivals (unpassed graph.nodes graph.outgoing (done.map Prod.fst ++ [node])) target := by
    intro target
    rw [progress.waiting, arrivals_unpassed graph.distinct known fresh, arrivals_append]
  -- A node placed before had no edge left, so this node does not select it.
  have settled : ∀ other ∈ placed done ((node, port) :: queue) pending joins.ready,
      after.active other = joins.active other := by
    intro other member
    have zero := (progress.arrived other (progress.known other member)).mpr member
    have unselected : selects port (graph.outgoing node) other = false := by
      rw [Bool.eq_false_iff, Ne, selects_iff]
      rintro ⟨edge, leaves, -, target⟩
      have := arrivals_pos_iff.mpr ⟨edge, leaves, target⟩
      have := before other
      omega
    rw [passed.active, unselected, Bool.or_false]
  have moved : (placed (done ++ [(node, port)]) (queue ++ dead.map fun node => (node, none))
        pending after.ready).Perm
      (placed done ((node, port) :: queue) pending joins.ready ++ arrived) := by
    have parts := filter_append_perm (fun other => after.active other) arrived
    rw [ready, died]
    simp only [placed, map_append, map_cons, map_nil, map_map,
      append_assoc, cons_append, nil_append]
    refine List.Perm.append_left _ (List.Perm.cons _ (List.Perm.append_left _ ?_))
    simp only [Function.comp_def, map_id']
    refine List.Perm.trans ?_ (List.Perm.append_left _ (List.Perm.append_left _ parts))
    rw [← append_assoc pending, ← append_assoc pending, ← append_assoc (pending ++ _)]
    refine perm_append_comm.trans ?_
    rfl
  refine ⟨?_, ?_, ?_, ?_, ?_, ?_, ?_⟩
  · rw [moved.nodup_iff, nodup_append]
    refine ⟨progress.distinct, passed.distinct, ?_⟩
    rintro other old _ new rfl
    have zero := (progress.arrived other (progress.known other old)).mpr old
    have := ((passed.arrived_iff other).mp new).1
    have := before other
    omega
  · intro other member
    rcases mem_append.mp (moved.mem_iff.mp member) with old | new
    · exact progress.known other old
    · obtain ⟨edge, leaves, rfl⟩ := arrivals_pos_iff.mp ((passed.arrived_iff other).mp new).1
      exact graph.closed node known edge leaves
  · intro target
    rw [passed.waiting, map_append]
    rfl
  · intro other member
    rw [moved.mem_iff, mem_append, ← progress.arrived other member, passed.arrived_iff,
      passed.waiting]
    have := before other
    omega
  · intro other
    rw [passed.active, Bool.or_eq_true, progress.active, selects_iff]
    constructor
    · rintro ((entry | ⟨source, chosen, member, edge⟩) | ⟨edge, leaves, rfl, target⟩)
      · exact .inl entry
      · exact .inr ⟨source, chosen, by simp [member], edge⟩
      · exact .inr ⟨node, edge.port, by simp, edge, leaves, rfl, target⟩
    · rintro (entry | ⟨source, chosen, member, edge, leaves, rfl, target⟩)
      · exact .inl (.inl entry)
      · rcases mem_append.mp member with old | new
        · exact .inl (.inr ⟨source, edge.port, old, edge, leaves, rfl, target⟩)
        · obtain ⟨rfl, rfl⟩ : source = node ∧ some edge.port = port := by simpa using new
          exact .inr ⟨edge, leaves, rfl, target⟩
  · intro other member
    rw [ready, ← append_assoc] at member
    rcases mem_append.mp member with old | new
    · rw [settled other (by simp [placed, mem_append.mp old])]
      exact progress.running other old
    · simpa using (mem_filter.mp new).2
  · intro other chosen member
    rw [died] at member
    simp only [mem_append, mem_singleton, mem_map, mem_filter] at member
    rcases member with (old | new) | (waits | ⟨_, ⟨-, dies⟩, same⟩)
    · rw [settled other (by simp only [placed, mem_append, mem_map]
                            exact .inl (.inl ⟨_, old, rfl⟩))]
      exact progress.resolved other chosen (by simp [old])
    · obtain ⟨rfl, rfl⟩ := Prod.mk.injEq .. ▸ new
      rw [settled other (by simp [placed])]
      exact progress.resolved other chosen (by simp)
    · rw [settled other (by simp only [placed, mem_append, mem_map, mem_cons]
                            exact .inl (.inr ⟨_, .inr waits, rfl⟩))]
      exact progress.resolved other chosen (by simp [waits])
    · obtain ⟨rfl, rfl⟩ := Prod.mk.injEq .. ▸ same
      simpa using dies

/-- Passing on never fails, and ends with every edge of the queue passed. -/
theorem drain [DecidableEq P] (progress : Progress graph joins done queue pending)
    (enough : graph.nodes.length ≤ done.length + fuel) :
    ∃ after, ∃ dead fresh : List N, PortGraph.drain graph.outgoing fuel queue joins = some after ∧
      after.ready = joins.ready ++ fresh ∧
      Progress graph after (done ++ queue ++ dead.map fun node => (node, none)) [] pending := by
  induction fuel generalizing joins done queue with
  | zero =>
    have bound := progress.done_length_le
    cases queue with
    | nil => exact ⟨joins, [], [], rfl, by simp, by simpa using progress⟩
    | cons entry queue => simp at bound enough; omega
  | succ fuel ih =>
    cases queue with
    | nil => exact ⟨joins, [], [], rfl, by simp, by simpa using progress⟩
    | cons entry queue =>
      obtain ⟨middle, dead, fresh, run, ready, next⟩ := progress.pass
      obtain ⟨after, more, later, rest, laterReady, final⟩ := ih next (by simp; omega)
      refine ⟨after, dead ++ more, fresh ++ later, ?_, ?_, ?_⟩
      · rw [PortGraph.drain, run]
        exact rest
      · rw [laterReady, ready, append_assoc]
      · simpa using final

theorem complete (progress : Progress graph joins done [] []) (idle : joins.ready = [])
    (member : node ∈ graph.nodes) : node ∈ done.map Prod.fst := by
  refine graph.induction (fun node known sources => ?_) member
  have zero : joins.waiting node = 0 := by
    rw [progress.waiting, arrivals_unpassed_eq_zero_iff]
    exact fun source member edge leaves target => sources source ⟨member, edge, leaves, target⟩
  simpa [placed, idle] using (progress.arrived node known).mp zero

section

variable (progress : Progress graph joins done queue pending)
include progress

theorem known_of_done (member : (node, port) ∈ done) : node ∈ graph.nodes :=
  progress.known node
    (mem_append_left _ (mem_append_left _ (mem_map_of_mem member)))

/-- The nodes selected so far are those that a chosen path reaches. -/
theorem active_iff_reached {chose : N → P → Prop}
    (choices : ∀ node port, chose node port ↔ (node, some port) ∈ done) :
    joins.active node = true ↔ graph.Reached chose node := by
  constructor
  · intro active
    have known : node ∈ graph.nodes := by
      rcases (progress.active node).mp active with rfl | ⟨source, port, member, edge, leaves, -, rfl⟩
      · exact graph.entry_mem
      · exact graph.closed source (progress.known_of_done member) edge leaves
    revert active
    refine graph.induction (motive := fun node => joins.active node = true →
      graph.Reached chose node) (fun node _ sources active => ?_) known
    rcases (progress.active node).mp active with
      rfl | ⟨source, port, member, edge, leaves, rfl, rfl⟩
    · exact .entry
    · refine .step (sources source ⟨progress.known_of_done member, edge, leaves, rfl⟩ ?_)
        ((choices ..).mpr member) leaves
      exact progress.resolved source _ (mem_append_left _ member)
  · intro reached
    induction reached with
    | entry => exact (progress.active _).mpr (.inl rfl)
    | step reached chosen member =>
      exact (progress.active _).mpr (.inr ⟨_, _, (choices ..).mp chosen, _, member, rfl, rfl⟩)

/-- Every node with a path to a placed one has finished or died. -/
theorem ancestor_done (path : Relation.TransGen graph.Leads ancestor node)
    (member : node ∈ placed done queue pending joins.ready) : ancestor ∈ done.map Prod.fst := by
  induction path with
  | single leads => exact progress.source_done member leads
  | tail _ leads ih =>
    apply ih
    exact mem_append_left _ (mem_append_left _ (progress.source_done member leads))

/-- A Boolean solution of the joins that agrees with the ports chosen so far says
which placed nodes were selected. -/
theorem activation {value : N → Bool} {decision : N → P}
    (joined : ∀ node, value node = true ↔ node = graph.entry ∨ ∃ source ∈ graph.nodes,
      ∃ edge ∈ graph.outgoing source, edge.target = node ∧ value source = true ∧
        decision source = edge.port)
    (chosen : ∀ source port, (source, some port) ∈ done → decision source = port)
    (member : node ∈ placed done queue pending joins.ready) : joins.active node = value node := by
  have known := progress.known node member
  revert member
  refine graph.induction (motive := fun node => node ∈ placed done queue pending _ →
    joins.active node = value node) (fun node _ sources member => ?_) known
  rw [Bool.eq_iff_iff, progress.active, joined]
  refine or_congr Iff.rfl ⟨?_, ?_⟩
  · rintro ⟨source, port, finished, edge, leaves, rfl, rfl⟩
    have known := progress.known_of_done finished
    have before := sources source ⟨known, edge, leaves, rfl⟩
      (mem_append_left _ (mem_append_left _ (mem_map_of_mem finished)))
    have selected := progress.resolved source _ (mem_append_left _ finished)
    refine ⟨source, known, edge, leaves, rfl, ?_, chosen source _ finished⟩
    rw [← before, selected]
    rfl
  · rintro ⟨source, known, edge, leaves, rfl, on, decided⟩
    have leads : graph.Leads source edge.target := ⟨known, edge, leaves, rfl⟩
    have passed := progress.source_done member leads
    have before := sources source leads (mem_append_left _ (mem_append_left _ passed))
    obtain ⟨⟨_, port⟩, finished, rfl⟩ := mem_map.mp passed
    have selected := progress.resolved _ port (mem_append_left _ finished)
    rw [before, on] at selected
    obtain ⟨port, rfl⟩ := Option.isSome_iff_exists.mp selected.symm
    exact ⟨_, port, finished, edge, leaves, by rw [← decided, chosen _ port finished], rfl⟩

theorem dead_of_none {chose : N → P → Prop}
    (choices : ∀ node port, chose node port ↔ (node, some port) ∈ done) (dead : (node, none) ∈ done) :
    graph.Dead chose node := by
  have known := progress.known_of_done dead
  revert dead
  refine graph.induction (motive := fun node => (node, none) ∈ done → graph.Dead chose node)
    (fun node _ sources dead => ?_) known
  have inactive : joins.active node = false := progress.resolved _ _ (mem_append_left _ dead)
  refine .intro ?_ ?_
  · rintro rfl
    simp [(progress.active _).mpr _] at inactive
  rintro source sourceKnown edge leaves rfl other
  have leads : graph.Leads source edge.target := ⟨sourceKnown, edge, leaves, rfl⟩
  have passed := progress.source_done (mem_append_left _ (mem_append_left _
    (mem_map_of_mem dead))) leads
  obtain ⟨⟨_, chosen⟩, member, rfl⟩ := mem_map.mp passed
  cases chosen with
  | none => exact sources _ leads member
  | some port =>
    -- An edge through the chosen port would have selected the node.
    refine absurd ⟨port, (choices ..).mpr member, ?_⟩ other
    rintro rfl
    have := (progress.active _).mpr (.inr ⟨_, _, member, edge, leaves, rfl, rfl⟩)
    simp [this] at inactive

end

end Progress

end RustX.PortGraph
