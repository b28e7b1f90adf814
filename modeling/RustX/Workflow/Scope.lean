import RustX.Workflow.Joins

/-!
Static scope against runs: whatever the activation analysis proves to be in the
scope of a node is committed when the node starts.
-/
namespace RustX

open Checked Schema PortGraph List Assoc Prod

section Analysis

variable {B : Type} [Bdd B]

theorem ActivationScopes.implies_eval {expected : B} (proved : implies actual expected = true)
    (holds : Bdd.eval actual valuation = true) : Bdd.eval expected valuation = true := by
  obtain ⟨proof, built, always⟩ := (Option.any_eq_true _ _).mp proved
  have exact := Bdd.eval_impWithLimit built valuation
  rw [(Bdd.isTrue_iff proof).mp always valuation, holds] at exact
  simpa using exact.symm

namespace ActivationScopes

theorem coverage_eval {after} {scopes : ActivationScopes B} {paths : List (List String)}
    (built : paths.foldlM (scopes.coverage node base) before = .ok after)
    (covered : Bdd.eval after valuation = true) :
    Bdd.eval before valuation = true ∨ ∃ path ∈ paths, ∃ present,
      scopes.presence node base path = .ok present ∧ Bdd.eval present valuation = true := by
  induction paths generalizing before with
  | nil =>
    obtain rfl := Except.ok.inj built
    exact .inl covered
  | cons path paths ih =>
    simp only [foldlM_cons, coverage, bind_eq_ok_iff, limited_eq_ok_iff] at built
    obtain ⟨middle, ⟨present, found, union⟩, rest⟩ := built
    rcases ih rest with early | ⟨other, listed, where_⟩
    · rw [Bdd.eval_orWithLimit union, Bool.or_eq_true] at early
      rcases early with before | here
      · exact .inl before
      · exact .inr ⟨path, mem_cons_self, present, found, here⟩
    · exact .inr ⟨other, mem_cons_of_mem _ listed, where_⟩

/-- Wherever the node is active, one of the sources is present. -/
theorem validateAggregate_covers {scopes : ActivationScopes B} {node : String} {base : SchemaMap}
    (accepted : scopes.validateAggregate node paths base = .ok ())
    (active : Bdd.eval (scopes.activation node) valuation = true) :
    ∃ path ∈ paths, ∃ present, scopes.presence node base path = .ok present ∧
      Bdd.eval present valuation = true := by
  simp only [validateAggregate, bind_eq_ok_iff, require_eq_ok_iff] at accepted
  obtain ⟨union, built, proved⟩ := accepted
  rcases coverage_eval built (implies_eval proved active) with none | covered
  · simp at none
  · exact covered

end ActivationScopes

/-- A reference has a schema only when its producer is in scope. -/
theorem referenceSchema_head (found : referenceSchema path available node = .ok schema) :
    ∃ producer fields, path = producer :: fields ∧ (available producer).isSome = true := by
  simp only [referenceSchema, bind_eq_ok_iff] at found
  obtain ⟨_, -, found⟩ := found
  cases path with
  | nil => cases found
  | cons producer fields =>
    refine ⟨producer, fields, rfl, ?_⟩
    cases declared : available producer with
    | none => simp [declared] at found
    | some schema => rfl

end Analysis

namespace Compiled.Sound

variable [FloatText] [Host] {B : Type} [Bdd B] {levels : Nat} {definition : WorkflowBlock}
  {container : Option Container} {compiled : Compiled B} {values : Values}
  {history : List (String × NodeCompletion)} {state : GraphState Snapshot}

/-- The exits of the nodes that settled extend to a valuation of the analysis. -/
theorem valuation (sound : compiled.Sound levels definition container)
    (run : Runs compiled.program values history state) :
    ∃ valuation, ∀ name completion, (name, completion) ∈ history →
      blockDecision valuation 0 definition.nodes name = completion.port := by
  obtain ⟨done, follows⟩ := sound.runs_follow run
  have distinct : (history.map fst).Nodup := (nodup_append.mp follows.distinct).1
  have taken : ∀ name completion, (name, completion) ∈ history → ∃ node,
      definition.nodes.lookup name = some node ∧ completion.port ∈ node.exits := by
    intro name completion member
    obtain ⟨program, snapshot, found, completes⟩ := run.completes member
    obtain ⟨node, _, result, listed, rfl, -, keeps⟩ := sound.node found
    exact ⟨node, listed, keeps.exits ▸ completes.exit⟩
  obtain ⟨valuation, decides⟩ := sound.means.surjective
    (fun name => (history.lookup name).map _) (by
      intro name node port listed chosen
      obtain ⟨completion, settled, rfl⟩ := Option.map_eq_some_iff.mp chosen
      obtain ⟨other, found, exit⟩ := taken name completion (mem_of_lookup settled)
      obtain rfl := Option.some.inj (listed.symm.trans found)
      exact exit)
  refine ⟨valuation, fun name completion member => ?_⟩
  obtain ⟨node, listed, -⟩ := taken name completion member
  refine decides name node _ listed ?_
  rw [lookup_of_mem distinct member, Option.map_some]

variable {done : List (String × Option WorkflowPort)} {valuation : Nat → Bool}
  (sound : compiled.Sound levels definition container)
  (follows : Follows sound.graph history state done)
  (agrees : ∀ name completion, (name, completion) ∈ history →
    blockDecision valuation 0 definition.nodes name = completion.port)
include follows agrees

theorem active_eval (member : name ∈ placed done [] (state.pending.map fst) state.joins.ready) :
    state.joins.active name = Bdd.eval (compiled.flow.scopes.activation name) valuation := by
  have joined : ∀ node, Bdd.eval (compiled.flow.scopes.activation node) valuation = true ↔
      node = sound.graph.entry ∨ ∃ source ∈ sound.graph.nodes, ∃ edge ∈ sound.graph.outgoing source,
        edge.target = node ∧ Bdd.eval (compiled.flow.scopes.activation source) valuation = true ∧
          blockDecision valuation 0 definition.nodes source = edge.port := by
    intro node
    show _ ↔ node = compiled.program.entry ∨ ∃ source ∈ compiled.program.nodes.map fst,
      ∃ edge ∈ compiled.program.outgoing source, _
    rw [sound.means.active, sound.entry, sound.outgoing]
    refine or_congr Iff.rfl ⟨?_, ?_⟩
    · rintro ⟨source, edge, leaves, reaches⟩
      exact ⟨source, sound.mem_nodes.mpr (sound.flow.source_known leaves), edge, leaves, reaches⟩
    · rintro ⟨source, -, edge, leaves, reaches⟩
      exact ⟨source, edge, leaves, reaches⟩
  refine follows.progress.activation joined (fun source port finished => ?_) member
  obtain ⟨completion, settled, rfl⟩ := (follows.chose_iff source port).mpr finished
  exact agrees source completion settled

/-- An ancestor that the analysis proves active has settled before a node starts. -/
theorem ancestor_settled (pending : name ∈ state.pending.map fst)
    (before : ancestor ∈ compiled.flow.scopes.ancestors name)
    (active : Bdd.eval (compiled.flow.scopes.activation ancestor) valuation = true) :
    ∃ completion, (ancestor, completion) ∈ history := by
  have path : Relation.TransGen sound.graph.Leads ancestor name := by
    refine Relation.TransGen.mono ?_ _ _ (sound.means.ancestors name ancestor before)
    rintro source target ⟨edge, leaves, reaches⟩
    refine ⟨sound.mem_nodes.mpr (sound.flow.source_known leaves), edge, ?_, reaches⟩
    show edge ∈ compiled.program.outgoing source
    rwa [sound.outgoing]
  have placed : name ∈ placed done [] (state.pending.map fst) state.joins.ready := by
    simp [PortGraph.placed, pending]
  obtain ⟨⟨_, port⟩, finished, rfl⟩ := mem_map.mp (follows.progress.ancestor_done path placed)
  have selected := follows.progress.resolved _ port (mem_append_left _ finished)
  rw [sound.active_eval follows agrees (mem_append_left _ (mem_append_left _
    (mem_map_of_mem finished))), active] at selected
  obtain ⟨port, rfl⟩ := Option.isSome_iff_exists.mp selected.symm
  obtain ⟨completion, settled, -⟩ := (follows.chose_iff _ port).mpr finished
  exact ⟨completion, settled⟩

end Compiled.Sound

section Committed

variable [FloatText]

theorem compileAssignments_owner [Host]
    (accepted : compileAssignments available node owner vars index items = .ok types)
    (member : item ∈ items) :
    ∃ label, item.var = [owner, label] ∧ (vars.lookup label).isSome = true := by
  induction items generalizing index types with
  | nil => cases member
  | cons first items ih =>
    unfold compileAssignments at accepted
    split at accepted
    · cases accepted
    rename_i varType assigned
    simp only [bind_eq_ok_iff] at accepted
    obtain ⟨_, -, _, -, _, rest, -⟩ := accepted
    rcases mem_cons.mp member with rfl | later
    · unfold assignedType at assigned
      split at assigned
      · split at assigned
        · rename_i shape same
          exact ⟨_, by rw [shape, same], by rw [assigned]; rfl⟩
        · cases assigned
      · cases assigned
    · exact ih rest later

variable [Host] {B : Type} [Bdd B] {levels : Nat} {definition : WorkflowBlock}
  {container : Option Container} {compiled : Compiled B} {values : Values}
  {history : List (String × NodeCompletion)} {state : GraphState Snapshot}

namespace Compiled.Sound

/-- What an Assigner writes belongs to the Loop around its block. -/
theorem assigned_owner (sound : compiled.Sound levels definition container) {id : String}
    {program : NodeProgram} (found : compiled.program.nodes.lookup id = some program)
    (assigned : [owner, label] ∈ program.assigned) :
    ∃ around, container = some around ∧ owner = around.owner := by
  obtain ⟨node, total, result, -, rfl, at_, keeps⟩ := sound.node found
  rw [keeps.assigned] at assigned
  obtain ⟨item, member, written⟩ := mem_map.mp assigned
  have accepted := at_.accepted
  cases node with
  | assigner items =>
    simp only [compileNode, compileAssigner] at accepted
    split at accepted
    · simp only [bind_eq_ok_iff] at accepted
      obtain ⟨_, -, types, checked, -⟩ := accepted
      obtain ⟨_, shape, -⟩ := compileAssignments_owner checked member
      rw [written] at shape
      exact ⟨_, rfl, (List.cons.inj shape).1⟩
    · cases accepted
  | _ => cases member

/-- No node of the block owns a variable that is written in it. -/
theorem owner_outside (sound : compiled.Sound levels definition container) {id : String}
    {program : NodeProgram} (found : compiled.program.nodes.lookup id = some program)
    (assigned : [owner, label] ∈ program.assigned) : owner ∉ definition.nodes.map fst := by
  obtain ⟨around, rfl, rfl⟩ := sound.assigned_owner found assigned
  intro inside
  have free := sound.free _ inside
  rw [sound.base] at free
  have owned := around.owned
  simp only [Option.elim_some] at free
  simp [free] at owned

end Compiled.Sound

/-- What a state holds of its run: the values around the block with the writes of
its Assigners, and what each node committed. -/
structure Recorded (nodes : List String) (values : Values)
    (history : List (String × NodeCompletion)) (state : GraphState Snapshot) : Prop where
  committed : ∀ name completion, (name, completion) ∈ history →
    state.values name = completion.value.or (values name)
  untouched : ∀ name ∈ nodes, name ∉ history.map fst → state.values name = values name
  around : ∀ name ∉ nodes, state.values name =
    mergedValues values (history.flatMap fun entry => entry.2.writes) name
  failed : ∀ name, name ∈ state.failedOutputs ↔
    ∃ completion, (name, completion) ∈ history ∧ completion.port = .fail
  returned : ∀ name value, state.returned.lookup name = some value ↔
    ∃ completion, (name, completion) ∈ history ∧ completion.returned = some value
  ended : state.ended = history.any fun entry => entry.2.ended

omit [FloatText] [Host] in
theorem Recorded.enter {nodes : List String} (values : Values) :
    Recorded nodes values [] (.enter block id values) := by
  constructor <;> simp [GraphState.enter, GraphState.initial, mergedValues_of_unwritten]

omit [FloatText] [Host] in
/-- Committing a node that settles for the first time and writes no value of a node. -/
theorem Recorded.commit {nodes : List String} {completion : NodeCompletion} {reservation : Nat}
    (recorded : Recorded nodes values history state) (listed : name ∈ nodes)
    (settled : ∀ entry ∈ history, entry.1 ∈ nodes) (fresh : name ∉ history.map fst)
    (outside : ∀ write ∈ completion.writes, write.1 ∉ nodes) :
    Recorded nodes values (history ++ [(name, completion)])
      (GraphState.start id { state.commit name completion
        (mergedValues state.values completion.writes) with joins, reservation }) := by
  have kept : ∀ other ∈ nodes,
      mergedValues state.values completion.writes other = state.values other := by
    intro other inside
    apply mergedValues_of_unwritten
    rintro write member rfl
    exact outside write member inside
  have earlier : ∀ {other : String} {before : NodeCompletion}, (other, before) ∈ history →
      other ≠ name := by
    rintro _ _ member rfl
    exact fresh (mem_map_of_mem member)
  constructor
  · intro other before member
    rw [GraphState.start_values]
    rcases mem_append.mp member with old | new
    · have inside := settled _ old
      calc (state.commit name completion _).values other
          = state.values other := by rw [GraphState.commit_values _ _ (earlier old), kept other inside]
        _ = before.value.or _ := recorded.committed other before old
    · obtain ⟨rfl, rfl⟩ := mk.inj (mem_singleton.mp new)
      have unchanged := (kept other listed).trans (recorded.untouched other listed fresh)
      cases value : before.value <;> simp [GraphState.commit, value, unchanged]
  · intro other inside unsettled
    rw [map_append, mem_append, not_or] at unsettled
    have differs : other ≠ name := by simpa using unsettled.2
    rw [GraphState.start_values]
    calc (state.commit name completion _).values other
        = state.values other := by rw [GraphState.commit_values _ _ differs, kept other inside]
      _ = values other := recorded.untouched other inside unsettled.1
  · intro other outer
    have differs : other ≠ name := fun same => outer (same ▸ listed)
    rw [GraphState.start_values, flatMap_append, ← mergedValues_append,
      mergedValues_congr (recorded.around other outer).symm]
    simp only [flatMap_cons, flatMap_nil, append_nil]
    exact GraphState.commit_values completion _ differs
  · intro other
    simp only [GraphState.start_failedOutputs, GraphState.commit, mem_append,
      mem_singleton, mk.injEq]
    split
    · rename_i failing
      rw [mem_cons, recorded.failed]
      constructor
      · rintro (rfl | ⟨before, old, failed⟩)
        · exact ⟨completion, .inr ⟨rfl, rfl⟩, failing⟩
        · exact ⟨before, .inl old, failed⟩
      · rintro ⟨before, old | ⟨rfl, rfl⟩, failed⟩
        · exact .inr ⟨before, old, failed⟩
        · exact .inl rfl
    · rename_i succeeding
      rw [recorded.failed]
      constructor
      · rintro ⟨before, old, failed⟩
        exact ⟨before, .inl old, failed⟩
      · rintro ⟨before, old | ⟨rfl, rfl⟩, failed⟩
        · exact ⟨before, old, failed⟩
        · exact absurd failed succeeding
  · intro other value
    have unreturned : state.returned.lookup name = none := by
      rw [Option.eq_none_iff_forall_ne_some]
      intro value found
      obtain ⟨_, old, -⟩ := (recorded.returned name value).mp found
      exact fresh (mem_map_of_mem old)
    have split : (∃ before, (other, before) ∈ history ++ [(name, completion)] ∧
        before.returned = some value) ↔ state.returned.lookup other = some value ∨
          other = name ∧ completion.returned = some value := by
      rw [recorded.returned]
      constructor
      · rintro ⟨before, member, returns⟩
        rcases mem_append.mp member with old | new
        · exact .inl ⟨before, old, returns⟩
        · obtain ⟨rfl, rfl⟩ := mk.inj (mem_singleton.mp new)
          exact .inr ⟨rfl, returns⟩
      · rintro (⟨before, old, returns⟩ | ⟨rfl, returns⟩)
        · exact ⟨before, mem_append_left _ old, returns⟩
        · exact ⟨completion, by simp, returns⟩
    rw [split, GraphState.start_returned]
    show (completion.returned.elim state.returned fun value =>
      insert name value _).lookup other = some value ↔ _
    cases completion.returned with
    | none => simp
    | some result =>
      by_cases same : other = name
      · subst same
        simp [lookup_insert_self, unreturned]
      · simp [lookup_insert_of_ne, same]
  · simp [GraphState.commit, recorded.ended]

namespace Compiled.Sound

theorem runs_record (sound : compiled.Sound levels definition container)
    (run : Runs compiled.program values history state) :
    Recorded (definition.nodes.map fst) values history state := by
  induction run with
  | enter => exact .enter values
  | @settle history state next name snapshot program completion _ _ run pending node completes
      settled succeeded ih =>
      obtain ⟨done, follows⟩ := sound.runs_follow run
      obtain ⟨joins, reservation, -, rfl⟩ := settle_ok settled succeeded
      refine ih.commit (sound.mem_nodes.mp (mem_keys_of_lookup node)) ?_ ?_ ?_
      · intro entry member
        obtain ⟨_, _, listed, -⟩ := run.completes member
        exact sound.mem_nodes.mp (mem_keys_of_lookup listed)
      · intro member
        exact (nodup_append.mp follows.distinct).2.2 _ member _ (mem_map_of_mem pending) rfl
      · exact fun write member => sound.owner_outside node (completes.writes write member)

end Compiled.Sound

/-- A completion leaves what the scope of a consumer promises. -/
def ActivationScopes.Provision.Met (completion : NodeCompletion) (value : Json) :
    ActivationScopes.Provision → Prop
  | .declared schema => completion.port ≠ .fail ∧ schema.isValid value = true
  | .failure => completion.port = .fail ∧ isErrorValue value = true

namespace Compiled.Sound

section

variable (sound : compiled.Sound levels definition container)
include sound

/-- A node whose value is declared has handed one over. -/
theorem committed (run : Runs compiled.program values history state)
    (declared : ActivationScopes.declared compiled.after producer = some schema)
    (settled : (producer, completion) ∈ history) :
    ∃ value, completion.value = some value ∧ state.values producer = some value ∧
      if completion.port = .fail then isErrorValue value = true else schema.isValid value = true := by
  obtain ⟨program, snapshot, found, completes⟩ := run.completes settled
  have handed := completes.value
  rw [sound.declared_eq found] at declared
  simp only [handsOver, declared, Option.any_eq_true] at handed
  obtain ⟨value, same, checked⟩ := handed
  have stored := (sound.runs_record run).committed producer _ settled
  rw [same, Option.some_or] at stored
  refine ⟨value, same, stored, ?_⟩
  split at checked <;> simp_all

/-- A producer without a success variable never fails; one with a success variable
fails exactly when the variable is false. -/
theorem succeeded_iff (run : Runs compiled.program values history state) {valuation : Nat → Bool}
    (agrees : ∀ name completion, (name, completion) ∈ history →
      blockDecision valuation 0 definition.nodes name = completion.port)
    (settled : (producer, completion) ∈ history) :
    ((compiled.flow.scopes.succeeded producer).all fun ok => Bdd.eval ok valuation) = true ↔
      completion.port ≠ .fail := by
  obtain ⟨program, snapshot, found, completes⟩ := run.completes settled
  obtain ⟨node, _, result, listed, rfl, -, keeps⟩ := sound.node found
  cases outcome : compiled.flow.scopes.succeeded producer with
  | none =>
    have safe := sound.means.fails producer node listed outcome
    simp only [Option.all_none, true_iff]
    intro failed
    exact safe (keeps.exits ▸ failed ▸ completes.exit)
  | some ok =>
    have exact := sound.means.succeeded producer ok (by rw [listed]; rfl) outcome valuation
    rw [agrees producer completion settled] at exact
    simp [exact]

theorem provided (run : Runs compiled.program values history state) {name producer : String}
    (pending : name ∈ state.pending.map fst)
    (visible : compiled.flow.scopes.provision name compiled.after producer = some provision) :
    ∃ completion value, (producer, completion) ∈ history ∧ completion.value = some value ∧
      state.values producer = some value ∧ provision.Met completion value := by
  obtain ⟨done, follows⟩ := sound.runs_follow run
  obtain ⟨valuation, agrees⟩ := sound.valuation run
  have active : Bdd.eval (compiled.flow.scopes.activation name) valuation = true := by
    rw [← sound.active_eval follows agrees (by simp [placed, pending])]
    exact follows.progress.running name (mem_append_left _ pending)
  unfold ActivationScopes.provision at visible
  split at visible
  · rename_i proved
    simp only [Bool.and_eq_true, contains_iff_mem] at proved
    obtain ⟨completion, settled⟩ := sound.ancestor_settled follows agrees pending proved.1
      (ActivationScopes.implies_eval proved.2 active)
    have outcome := sound.succeeded_iff run agrees settled
    cases declares : ActivationScopes.declared compiled.after producer with
    | none => simp [declares] at visible
    | some schema =>
      obtain ⟨value, same, committed, typed⟩ := sound.committed run declares settled
      refine ⟨completion, value, settled, same, committed, ?_⟩
      cases success : compiled.flow.scopes.succeeded producer with
      | none =>
        simp only [declares, success, Option.some.injEq] at visible
        simp only [success, Option.all_none, true_iff] at outcome
        rw [← visible]
        exact ⟨outcome, by simpa [outcome] using typed⟩
      | some ok =>
        simp only [declares, success] at visible
        simp only [success, Option.all_some] at outcome
        split at visible
        · rename_i succeeds
          have fine := outcome.mp (ActivationScopes.implies_eval succeeds active)
          obtain rfl := Option.some.inj visible
          exact ⟨fine, by simpa [fine] using typed⟩
        · split at visible
          · rename_i fails
            have failed := ActivationScopes.implies_eval fails active
            obtain rfl := Option.some.inj visible
            have port : completion.port = .fail := by
              by_contra fine
              simp [outcome.mpr fine] at failed
            exact ⟨port, by simpa [port] using typed⟩
          · cases visible
  · cases visible

end

end Compiled.Sound

omit [Host] in
theorem checkSources_each
    (accepted : checkSources available node group index position paths = .ok ())
    (member : path ∈ paths) :
    ∃ schema, valueSchema (.reference path) available node 0 = .ok schema := by
  induction paths generalizing position with
  | nil => cases member
  | cons first paths ih =>
    simp only [checkSources, checkSource, bind_eq_ok_iff, mapError_eq_ok_iff] at accepted
    obtain ⟨_, ⟨schema, typed, -⟩, rest⟩ := accepted
    rcases mem_cons.mp member with rfl | later
    · exact ⟨schema, typed⟩
    · exact ih rest later

omit [Host] in
theorem checkGroups_each {scopes : ActivationScopes B}
    (accepted : checkGroups scopes base available node index groups = .ok ())
    (member : group ∈ groups) :
    scopes.validateAggregate node group.vars base = .ok () ∧ ∀ path ∈ group.vars,
      ∃ schema, valueSchema (.reference path) available node 0 = .ok schema := by
  induction groups generalizing index with
  | nil => cases member
  | cons first groups ih =>
    simp only [checkGroups, bind_eq_ok_iff, mapError_eq_ok_iff] at accepted
    obtain ⟨_, covered, _, sources, rest⟩ := accepted
    rcases mem_cons.mp member with rfl | later
    · exact ⟨covered, fun path listed => checkSources_each sources listed⟩
    · exact ih rest later

/-- A source that an Aggregate reads: the input, or a value committed as a success. -/
def Present (snapshot : Snapshot) : List String → Prop
  | [] => False
  | producer :: _ => producer = "args" ∨
      (snapshot.values producer).isSome = true ∧ producer ∉ snapshot.failedOutputs

/-- The values around a block hold every variable its nodes may read there. -/
def Surrounds (base : SchemaMap) (values : Values) : Prop :=
  ∀ name, (base name).isSome = true → name ≠ "args" → (values name).isSome = true

omit [FloatText] [Host] in
/-- The entry environment of a root block has only its input. -/
theorem surrounds_fromSchema (input : Schema) (values : Values) :
    Surrounds (SchemaMap.fromSchema input) values := by
  intro name visible args
  simp [SchemaMap.fromSchema, args] at visible

namespace Compiled.Sound

theorem covered (sound : compiled.Sound levels definition container)
    (run : Runs compiled.program values history state) (around : Surrounds compiled.base values)
    (pending : name ∈ state.pending.map fst)
    (node : definition.nodes.lookup name = some (.aggregate grouped groups))
    {group : AggregateGroup} (member : group ∈ activeGroups groups grouped) :
    ∃ path ∈ group.vars, Present state.snapshot path := by
  obtain ⟨done, follows⟩ := sound.runs_follow run
  obtain ⟨valuation, agrees⟩ := sound.valuation run
  have recorded := sound.runs_record run
  have active : Bdd.eval (compiled.flow.scopes.activation name) valuation = true := by
    rw [← sound.active_eval follows agrees (by simp [placed, pending])]
    exact follows.progress.running name (mem_append_left _ pending)
  obtain ⟨total, result, at_⟩ := sound.nodes name _ node
  have accepted := at_.accepted
  simp only [compileNode, bind_eq_ok_iff] at accepted
  obtain ⟨_, -, _, checked, -⟩ := accepted
  obtain ⟨covers, typed⟩ := checkGroups_each checked member
  obtain ⟨path, listed, present, found, here⟩ :=
    ActivationScopes.validateAggregate_covers covers active
  refine ⟨path, listed, ?_⟩
  obtain ⟨schema, source⟩ := typed path listed
  simp only [valueSchema, infer, bind_eq_ok_iff] at source
  obtain ⟨_, -, source⟩ := source
  obtain ⟨producer, fields, rfl, available⟩ := referenceSchema_head source
  have nodeName : ∀ other ∈ state.failedOutputs, other ∈ definition.nodes.map fst := by
    intro other failed
    obtain ⟨completion, settled, -⟩ := (recorded.failed other).mp failed
    obtain ⟨_, _, known, -⟩ := run.completes settled
    exact sound.mem_nodes.mp (mem_keys_of_lookup known)
  unfold ActivationScopes.presence at found
  split at found
  · cases found
  rename_i head _ shape
  obtain ⟨rfl, -⟩ := List.cons.inj shape
  split at found
  · -- A variable around the block is there from the start, and no node of the block.
    rename_i outer
    by_cases args : producer = "args"
    · exact .inl args
    right
    have outside : producer ∉ definition.nodes.map fst := by
      intro inside
      simp [sound.free producer inside] at outer
    constructor
    · show (state.values producer).isSome = true
      rw [recorded.around producer outside, isSome_mergedValues]
      exact around producer outer args
    · exact fun failed => outside (nodeName producer failed)
  · rename_i inner
    simp only [bind_eq_ok_iff, require_eq_ok_iff, contains_iff_mem, limited_eq_ok_iff] at found
    obtain ⟨_, before, through, gated, both⟩ := found
    rw [Bdd.eval_andWithLimit both, Bool.and_eq_true,
      ActivationScopes.throughGate_eval gated, Bool.and_eq_true] at here
    obtain ⟨completion, settled⟩ := sound.ancestor_settled follows agrees pending before here.2.1
    have fine := (sound.succeeded_iff run agrees settled).mp here.2.2
    have declares : ∃ schema, ActivationScopes.declared compiled.after producer = some schema := by
      simp only [availableBefore, ActivationScopes.potentialScope, contains_iff_mem, before,
        if_true] at available
      split at available
      · exact ⟨_, by assumption⟩
      · exact absurd available inner
    obtain ⟨schema, declares⟩ := declares
    obtain ⟨value, -, committed, -⟩ := sound.committed run declares settled
    right
    constructor
    · show (state.values producer).isSome = true
      rw [committed]
      rfl
    intro failed
    obtain ⟨other, again, fails⟩ := (recorded.failed producer).mp failed
    have distinct := (nodup_append.mp follows.distinct).1
    obtain rfl : other = completion := by
      have first := lookup_of_mem distinct again
      rw [lookup_of_mem distinct settled] at first
      exact (Option.some.inj first).symm
    exact fine fails

/-- A body that a node enters is surrounded by the variables it was compiled with. -/
theorem body_surrounded (sound : compiled.Sound levels definition container)
    (run : Runs compiled.program values history state) (around : Surrounds compiled.base values)
    (pending : name ∈ state.pending.map fst) (schema : Schema) (own : Json) :
    Surrounds ((compiled.flow.scopes.scope name compiled.after compiled.base).withPrefix name schema)
      (Function.update state.values name (some own)) := by
  intro producer visible args
  by_cases same : producer = name
  · simp [same]
  rw [Function.update_of_ne same]
  simp only [SchemaMap.withPrefix, Function.update_of_ne same, ActivationScopes.scope] at visible
  cases proved : compiled.flow.scopes.provision name compiled.after producer with
  | some provision =>
    obtain ⟨_, value, -, -, committed, -⟩ := sound.provided run pending proved
    rw [committed]
    rfl
  | none =>
    simp only [proved] at visible
    have outside : producer ∉ definition.nodes.map fst := by
      intro inside
      simp [sound.free producer inside] at visible
    rw [(sound.runs_record run).around producer outside, isSome_mergedValues]
    exact around producer visible args

end Compiled.Sound

theorem scope_sound {path : List String} {counted : Nat}
    (accepted : compileBlock B levels definition path counted container = .ok compiled)
    (run : Runs compiled.program values history state) {name : String} {snapshot : Snapshot}
    (started : (name, snapshot) ∈ state.pending) {node : NodeDefinition}
    (listed : definition.nodes.lookup name = some node) :
    ((∀ grouped groups, node ≠ .aggregate grouped groups) →
      ∀ producer ∈ definition.nodes.map fst, ∀ schema,
        compiled.flow.scopes.scope name compiled.after compiled.base producer = some schema →
        ∃ provision completion value,
          compiled.flow.scopes.provision name compiled.after producer = some provision ∧
          schema = provision.schema ∧ (producer, completion) ∈ history ∧
          completion.value = some value ∧ snapshot.values producer = some value ∧
          provision.Met completion value) ∧
    (Surrounds compiled.base values → (∀ grouped groups, node = .aggregate grouped groups →
        ∀ group ∈ activeGroups groups grouped, ∃ path ∈ group.vars, Present snapshot path) ∧
      ∀ schema own, Surrounds
        ((compiled.flow.scopes.scope name compiled.after compiled.base).withPrefix name schema)
        (Function.update snapshot.values name (some own))) := by
  cases levels with
  | zero => cases accepted
  | succ levels =>
    have sound := compileBlock_sound accepted
    -- What the node sees are the values of the state it started in.
    obtain ⟨earlier, later, origin, rfl, before, pending, rfl⟩ := run.started started
    have running : name ∈ origin.pending.map fst := mem_map_of_mem pending
    refine ⟨fun _ producer inside schema visible => ?_, fun around => ⟨?_, ?_⟩⟩
    · have free := sound.free producer inside
      simp only [ActivationScopes.scope, free] at visible
      cases proved : compiled.flow.scopes.provision name compiled.after producer with
      | none => simp [proved] at visible
      | some provision =>
        simp only [proved, Option.some.injEq] at visible
        obtain ⟨completion, value, settled, same, committed, met⟩ :=
          sound.provided before running proved
        exact ⟨provision, completion, value, rfl, visible.symm,
          mem_append_left _ settled, same, committed, met⟩
    · rintro grouped groups rfl group member
      exact sound.covered before around running listed member
    · exact sound.body_surrounded before around running

end Committed

/-- Two exclusive templates, one of which an Aggregate picks up. -/
def mergeBlock : WorkflowBlock where
  input := closed [("urgent", scalar .boolean)] ["urgent"]
  nodes :=
    [("choose", .branch [⟨"urgent", .boolean (.reference ["args", "urgent"])⟩]),
     ("finish", .returns [⟨"text", ["merge", "output"]⟩]),
     ("later", .template [] "later"),
     ("merge", .aggregate false
       [⟨"first", some .string, [["now", "output"], ["later", "output"]]⟩]),
     ("now", .template [] "now"),
     ("start", .start)]
  edges :=
    [⟨"start", "choose", none⟩, ⟨"choose", "now", some (.case "urgent")⟩,
     ⟨"choose", "later", some .false⟩, ⟨"now", "merge", none⟩, ⟨"later", "merge", none⟩,
     ⟨"merge", "finish", none⟩]

/-- The run that takes the second template. -/
def mergeHistory : List (String × NodeCompletion) :=
  let text := Json.object [("output", .string "later")]
  [("start", ⟨none, none, .next, false, [], 0⟩), ("choose", ⟨none, none, .false, false, [], 0⟩),
   ("later", ⟨some text, none, .next, false, [], 20⟩),
   ("merge", ⟨some text, none, .next, false, [], 20⟩)]

/-- The Return reads the aggregate, and the aggregate one of its sources. -/
theorem scope_sound_merge : letI := FloatText.exact
    letI := Host.bare
    (∃ compiled state snapshot,
      rehearse Formula mergeBlock (mergeHistory.take 3) = some (compiled, state) ∧
      ("merge", snapshot) ∈ state.pending ∧
      ∃ path ∈ [["now", "output"], ["later", "output"]], Present snapshot path) ∧
    ∃ compiled state snapshot, rehearse Formula mergeBlock mergeHistory = some (compiled, state) ∧
      ("finish", snapshot) ∈ state.pending ∧
      compiled.flow.scopes.scope "finish" compiled.after compiled.base "merge" =
        some (record [("output", scalar .string)]) ∧
      ∃ completion value, ("merge", completion) ∈ mergeHistory ∧ completion.value = some value ∧
        snapshot.values "merge" = some value := by
  let := FloatText.exact
  let := Host.bare
  have first : (rehearse Formula mergeBlock (mergeHistory.take 3)).any (fun result =>
      (result.2.pending.lookup "merge").isSome) = true := by
    decide +kernel
  have second : (rehearse Formula mergeBlock mergeHistory).any (fun result =>
      (result.2.pending.lookup "finish").isSome &&
      result.1.flow.scopes.scope "finish" result.1.after result.1.base "merge" ==
        some (record [("output", scalar .string)])) = true := by
    decide +kernel
  constructor
  · obtain ⟨⟨compiled, state⟩, rehearsed, checked⟩ := (Option.any_eq_true _ _).mp first
    obtain ⟨snapshot, pending⟩ := Option.isSome_iff_exists.mp checked
    obtain ⟨accepted, run⟩ := rehearse_runs rehearsed
    have started := mem_of_lookup pending
    have around : Surrounds compiled.base fun _ => none := by
      rw [(compileBlock_sound accepted).base]
      exact surrounds_fromSchema _ _
    have sources := ((scope_sound accepted run started rfl).2 around).1 _ _ rfl _ mem_cons_self
    exact ⟨compiled, state, snapshot, rehearsed, started, sources⟩
  · obtain ⟨⟨compiled, state⟩, rehearsed, checked⟩ := (Option.any_eq_true _ _).mp second
    simp only [Bool.and_eq_true, beq_iff_eq] at checked
    obtain ⟨snapshot, pending⟩ := Option.isSome_iff_exists.mp checked.1
    obtain ⟨accepted, run⟩ := rehearse_runs rehearsed
    have started := mem_of_lookup pending
    obtain ⟨_, completion, value, -, -, settled, same, committed, -⟩ :=
      (scope_sound accepted run started rfl).1 (by simp) "merge" (by decide) _ checked.2
    exact ⟨compiled, state, snapshot, rehearsed, started, checked.2, completion, value, settled, same,
      committed⟩

end RustX
