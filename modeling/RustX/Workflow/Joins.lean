import RustX.Workflow.Graph

/-!
The joins of a run: a node starts once all edges to it are resolved and one of
them was selected, and edges no execution can select are resolved as skipped.
-/
namespace RustX

open PortGraph Schema List Prod

def Chose (history : List (String × NodeCompletion)) (name : String) (port : WorkflowPort) : Prop :=
  ∃ completion, (name, completion) ∈ history ∧ completion.port = port

/-- How a run relates to the joins of its graph: `done` lists the nodes that
settled, with their ports, and those that can no longer be selected. -/
structure Follows {τ : Type} (graph : PortGraph.Graph String WorkflowPort)
    (history : List (String × NodeCompletion)) (state : GraphState τ)
    (done : List (String × Option WorkflowPort)) : Prop where
  progress : Progress graph state.joins done [] (state.pending.map fst)
  idle : state.joins.ready = []
  calm : state.failures = []
  settled : done.filterMap (fun entry => entry.2.map (entry.1, ·)) =
    history.map fun entry => (entry.1, entry.2.port)

namespace Follows

variable {τ : Type} {state : GraphState τ} (follows : Follows graph history state done)
include follows

theorem chose_iff (name : String) (port : WorkflowPort) :
    Chose history name port ↔ (name, some port) ∈ done := by
  have listed : (name, port) ∈ history.map (fun entry => (entry.1, entry.2.port)) ↔
      (name, some port) ∈ done := by
    rw [← follows.settled, mem_filterMap]
    simp
  rw [← listed, mem_map]
  simp [Chose]

theorem distinct : (history.map fst ++ state.pending.map fst).Nodup := by
  have keys : history.map fst = (done.filterMap fun entry => entry.2.map fun _ => entry.1) := by
    have := congrArg (List.map fst) follows.settled
    simpa [map_filterMap, Function.comp_def] using this.symm
  have sublist : (history.map fst).Sublist (done.map fst) := by
    rw [keys]
    clear * -
    induction done with
    | nil => simp
    | cons entry done ih =>
      obtain ⟨name, _ | port⟩ := entry
      · simpa using ih.cons name
      · simpa using ih.cons_cons name
  have all := follows.progress.distinct
  rw [placed, follows.idle] at all
  simp only [map_nil, append_nil] at all
  exact all.sublist (sublist.append (List.Sublist.refl _))

/-- A node that has started is reached by selected edges only, and every edge to
it leaves a node that settled or can no longer be selected. -/
theorem started (member : name ∈ history.map fst ++ state.pending.map fst) :
    graph.Reached (Chose history) name ∧ ∀ source, graph.Leads source name →
      source ∈ history.map fst ∨ graph.Dead (Chose history) source := by
  have choices := follows.chose_iff
  have here : name ∈ placed done [] (state.pending.map fst) state.joins.ready ∧
      state.joins.active name = true := by
    rcases mem_append.mp member with settled | pending
    · obtain ⟨⟨_, completion⟩, listed, rfl⟩ := mem_map.mp settled
      have chosen := (choices _ _).mp ⟨completion, listed, rfl⟩
      exact ⟨by simp only [placed, mem_append]
                exact .inl (.inl (mem_map_of_mem chosen)),
        follows.progress.resolved _ _ (mem_append_left _ chosen)⟩
    · exact ⟨by simp only [placed, mem_append]
                exact .inr (.inl pending),
        follows.progress.running name (mem_append_left _ pending)⟩
  refine ⟨(follows.progress.active_iff_reached choices).mp here.2, fun source leads => ?_⟩
  obtain ⟨⟨_, port⟩, resolved, rfl⟩ := mem_map.mp (follows.progress.source_done here.1 leads)
  cases port with
  | none => exact .inr (follows.progress.dead_of_none choices resolved)
  | some port =>
    obtain ⟨completion, listed, -⟩ := (choices _ port).mpr resolved
    exact .inl (mem_map_of_mem listed)

/-- At rest, every node that selected edges reach has settled. -/
theorem complete (rest : state.pending = [])
    (reached : graph.Reached (Chose history) name) : name ∈ history.map fst := by
  have choices := follows.chose_iff
  have active := (follows.progress.active_iff_reached choices).mpr reached
  have progress := follows.progress
  rw [rest] at progress
  have known : name ∈ graph.nodes := by
    rcases (progress.active name).mp active with rfl | ⟨source, port, member, edge, leaves, -, rfl⟩
    · exact graph.entry_mem
    · exact graph.closed source (progress.known_of_done member) edge leaves
  obtain ⟨⟨_, port⟩, resolved, rfl⟩ := mem_map.mp (progress.complete follows.idle known)
  have some := progress.resolved _ _ (mem_append_left _ resolved)
  rw [active] at some
  obtain ⟨port, rfl⟩ := Option.isSome_iff_exists.mp some.symm
  obtain ⟨completion, listed, -⟩ := (choices _ port).mpr resolved
  exact mem_map_of_mem listed

end Follows

namespace Compiled.Sound

variable [FloatText] [Host] {B : Type} [Bdd B] {compiled : Compiled B} {τ : Type}

section

variable (sound : compiled.Sound levels definition container)
include sound

theorem enter_follows (begin : Snapshot → τ) (values : Values) :
    Follows sound.graph [] (.enter compiled.program begin values) [] where
  progress := (Progress.initial _).start
  idle := rfl
  calm := rfl
  settled := rfl

/-- Resolving the edges of a pending node never takes a counter below zero. -/
theorem drain_ok (follows : Follows sound.graph history state done)
    (pending : name ∈ state.pending.map fst) (port : WorkflowPort) :
    ∃ joins, ∃ dead : List String, drain compiled.program.outgoing compiled.program.nodes.length
        [(name, some port)] state.joins = some joins ∧
      Progress sound.graph joins
        (done ++ [(name, some port)] ++ dead.map fun name => (name, none)) []
        ((state.pending.map fst).erase name) := by
  have finished : Progress sound.graph state.joins done [(name, some port)] _ :=
    follows.progress.finish pending
  have enough : sound.graph.nodes.length ≤ done.length + compiled.program.nodes.length := by
    simp [Compiled.Sound.graph]
  obtain ⟨joins, dead, -, drained, -, progress⟩ := finished.drain enough
  exact ⟨joins, dead, drained, progress⟩

theorem settle_follows {next} (follows : Follows sound.graph history state done)
    (pending : name ∈ state.pending.map fst) {after : RunBudgets} (begin : Snapshot → τ)
    (settled : settle compiled.program budgets state name completion = some (after, next))
    (succeeded : next.failures = []) :
    ∃ dead : List String, Follows sound.graph (history ++ [(name, completion)]) (next.start begin)
      (done ++ [(name, some completion.port)] ++ dead.map fun name => (name, none)) := by
  obtain ⟨joins, reservation, drained, rfl⟩ := settle_ok settled succeeded
  obtain ⟨joins', dead, drained', progress⟩ := sound.drain_ok follows pending _
  obtain rfl := Option.some.inj (drained'.symm.trans drained)
  have distinct : (state.pending.map fst).Nodup :=
    follows.distinct.sublist (sublist_append_right _ _)
  have rest : ((state.pending.filter fun entry => entry.1 ≠ name).map fst) =
      (state.pending.map fst).erase name := by
    rw [distinct.erase_eq_filter, filter_map]
    congr 1
    refine filter_congr fun entry _ => ?_
    by_cases same : entry.1 = name <;> simp [same]
  rw [← rest] at progress
  have calm : state.failures = [] := follows.calm
  refine ⟨dead, ?_⟩
  simp only [GraphState.start, GraphState.commit, GraphState.remove, calm, isEmpty_nil, if_true]
  refine ⟨?_, rfl, rfl, ?_⟩
  · simpa [Function.comp_def] using progress.start
  · simp [follows.settled]

/-- Every run without a failure follows the joins of its graph. -/
theorem runs_follow (run : Runs compiled.program values history state) :
    ∃ done, Follows sound.graph history state done := by
  induction run with
  | enter => exact ⟨[], sound.enter_follows id values⟩
  | settle _ pending _ _ settled succeeded ih =>
    obtain ⟨done, follows⟩ := ih
    obtain ⟨dead, next⟩ := sound.settle_follows follows (mem_map_of_mem pending) id settled
      succeeded
    exact ⟨_, next⟩

end

/-- A root block that comes to rest has run a Return: every other node leaves by an
exit that leads on. -/
theorem return_ran (sound : compiled.Sound levels definition none)
    (run : Runs compiled.program values history state) (rest : state.pending = []) :
    ∃ entry ∈ history, entry.2.returned.isSome = true := by
  obtain ⟨done, follows⟩ := sound.runs_follow run
  have entered : compiled.program.entry ∈ (history.map fst).toFinset :=
    mem_toFinset.mpr (follows.complete rest .entry)
  obtain ⟨name, settled, last⟩ :=
    Finset.exists_max_image _ sound.graph.rank ⟨compiled.program.entry, entered⟩
  obtain ⟨⟨_, completion⟩, member, rfl⟩ := mem_map.mp (mem_toFinset.mp settled)
  obtain ⟨program, snapshot, node, completes⟩ := run.completes member
  refine ⟨_, member, ?_⟩
  rw [completes.returned]
  by_contra continues
  -- The last node to settle would have selected a later one.
  obtain ⟨edge, leaves, chosen⟩ :=
    sound.complete node (Bool.eq_false_iff.mpr continues) completes.exit
  have reached := (follows.started (mem_append_left _ (mem_map_of_mem member))).1
  have next : edge.target ∈ history.map fst :=
    follows.complete rest (.step reached ⟨completion, member, chosen.symm⟩ leaves)
  have known := sound.graph.rises _ (Assoc.mem_keys_of_lookup node) edge leaves
  have bound := last _ (mem_toFinset.mpr next)
  omega

end Compiled.Sound

section Joined

variable [FloatText]

/-- The join semantics of a block: which nodes a run has started and what it
resolved before. -/
structure Joined (block : BlockProgram) (history : List (String × NodeCompletion))
    (state : GraphState Snapshot) : Prop where
  /-- No node starts twice. -/
  once : (history.map fst ++ state.pending.map fst).Nodup
  /-- A node starts only at the end of a path of selected edges. -/
  selected : ∀ name ∈ history.map fst ++ state.pending.map fst,
    Reached block.entry block.outgoing (Chose history) name
  /-- Before that, the source of each edge to it settled, or could no longer run. -/
  resolved : ∀ name ∈ history.map fst ++ state.pending.map fst,
    ∀ source ∈ block.nodes.map fst, ∀ edge ∈ block.outgoing source, edge.target = name →
      source ∈ history.map fst ∨
        Dead (block.nodes.map fst) block.entry block.outgoing (Chose history) source
  /-- However a node settles, no counter of unresolved edges falls below zero. -/
  counted : ∀ name ∈ state.pending.map fst, ∀ budgets completion,
    settle block budgets state name completion ≠ none
  /-- At rest, every node at the end of such a path has run. -/
  complete : state.pending = [] → ∀ name,
    Reached block.entry block.outgoing (Chose history) name → name ∈ history.map fst

variable [Host] {B : Type} [Bdd B] {levels counted : Nat} {definition : WorkflowBlock}
  {path : List String} {container : Option Container} {compiled : Compiled B} {values : Values}
  {history : List (String × NodeCompletion)} {state : GraphState Snapshot}

theorem execution_joins
    (accepted : compileBlock B levels definition path counted container = .ok compiled)
    (run : Runs compiled.program values history state) :
    Joined compiled.program history state ∧ (container = none → state.pending = [] →
      (∃ entry ∈ history, (compiled.program.nodes.lookup entry.1).any NodeProgram.isReturn = true) ∧
      blockOutput compiled.program state.returned ≠
        .error (.invalidProgram "no active Return node")) := by
  cases levels with
  | zero => cases accepted
  | succ levels =>
    have sound := compileBlock_sound accepted
    obtain ⟨done, follows⟩ := sound.runs_follow run
    constructor
    · constructor
      · exact follows.distinct
      · exact fun name started => (follows.started started).1
      · intro name started source known edge leaves target
        exact (follows.started started).2 source ⟨known, edge, leaves, target⟩
      · intro name pending budgets completion
        obtain ⟨joins, _, drained, -⟩ := sound.drain_ok follows pending completion.port
        exact settle_ne_none drained budgets
      · exact fun rest name reached => follows.complete rest reached
    · rintro rfl rest
      obtain ⟨entry, member, returns⟩ := sound.return_ran run rest
      obtain ⟨program, snapshot, node, completes⟩ := run.completes member
      constructor
      · refine ⟨entry, member, ?_⟩
        rw [node, Option.any_some, ← completes.returned]
        exact returns
      · intro failed
        have output := blockOutput_yields compiled.program (run.returned_ne_nil member returns)
        rw [failed] at output
        obtain ⟨detail, same⟩ := output
        cases same

end Joined

/-- A choice whose second branch decides again before both join at a Return. -/
def choiceBlock : WorkflowBlock where
  input := closed [("urgent", scalar .boolean)] ["urgent"]
  nodes :=
    [("choose", .branch [⟨"urgent", .boolean (.reference ["args", "urgent"])⟩]),
     ("finish", .returns [⟨"urgent", ["args", "urgent"]⟩]),
     ("second", .branch [⟨"again", .boolean (.reference ["args", "urgent"])⟩]),
     ("start", .start)]
  edges :=
    [⟨"start", "choose", none⟩, ⟨"choose", "second", some (.case "urgent")⟩,
     ⟨"choose", "finish", some .false⟩, ⟨"second", "finish", some (.case "again")⟩,
     ⟨"second", "finish", some .false⟩]

def choiceHistory : List (String × NodeCompletion) :=
  [("start", ⟨none, none, .next, false, [], 0⟩), ("choose", ⟨none, none, .false, false, [], 0⟩),
   ("finish", ⟨none, some (.object [("urgent", .bool false)]), .next, false, [], 0⟩)]

/-- A run that skips the second decision comes to rest at the Return. -/
theorem execution_joins_choice : letI := FloatText.exact
    letI := Host.bare
    ∃ compiled state, rehearse Formula choiceBlock choiceHistory = some (compiled, state) ∧
      state.pending = [] ∧ Joined compiled.program choiceHistory state ∧
      blockOutput compiled.program state.returned = .ok (.object [("urgent", .bool false)]) := by
  let := FloatText.exact
  let := Host.bare
  have ran : (rehearse Formula choiceBlock choiceHistory).any (fun result =>
      result.2.pending.isEmpty && (blockOutput result.1.program result.2.returned).toOption ==
        some (.object [("urgent", .bool false)])) = true := by
    decide +kernel
  obtain ⟨⟨compiled, state⟩, rehearsed, checked⟩ := (Option.any_eq_true _ _).mp ran
  simp only [Bool.and_eq_true, List.isEmpty_iff, beq_iff_eq, Checked.toOption_eq_some_iff]
    at checked
  obtain ⟨accepted, run⟩ := rehearse_runs rehearsed
  exact ⟨compiled, state, rehearsed, checked.1, (execution_joins accepted run).1, checked.2⟩

end RustX
