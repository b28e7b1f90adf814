import RustX.Workflow.ControlFlow

/-!
What the activation analysis means. A valuation of its variables makes every node
decide for one exit; any choice of exits is the decision of some valuation, and a
node's diagram is true exactly where the decided exits lead to it.
-/
namespace RustX

open Checked PortGraph Bdd List Prod Except

/-- The first id whose variable is set. -/
def picked (valuation : Nat → Bool) : Nat → List String → Option String
  | _, [] => none
  | next, id :: ids => if valuation next then some id else picked valuation (next + 1) ids

theorem picked_mem {next} {id : String} (found : picked valuation next ids = some id) :
    id ∈ ids := by
  induction ids generalizing next with
  | nil => cases found
  | cons head ids ih =>
    rw [picked] at found
    split at found
    · obtain rfl := Option.some.inj found
      exact mem_cons_self
    · exact mem_cons_of_mem _ (ih found)

theorem picked_congr {next} {ids : List String}
    (agree : ∀ index, next ≤ index → index < next + ids.length → left index = right index) :
    picked left next ids = picked right next ids := by
  induction ids generalizing next with
  | nil => rfl
  | cons id ids ih =>
    rw [picked, picked, agree next (Nat.le_refl next) (by simp),
      ih fun index above below => agree index (by omega) (by simp; omega)]

/-- Set only the variable of `id`. -/
theorem picked_single (next : Nat) {id : String} (member : id ∈ ids) :
    ∃ valuation, picked valuation next ids = some id := by
  induction ids generalizing next with
  | nil => cases member
  | cons head ids ih =>
    rcases mem_cons.mp member with rfl | later
    · exact ⟨fun _ => true, by simp [picked]⟩
    · obtain ⟨valuation, found⟩ := ih _ later
      refine ⟨fun index => if index = next then false else valuation index, ?_⟩
      rw [picked, if_neg (by simp), ← found]
      exact picked_congr fun index above _ => if_neg (by omega)

theorem picked_none (next : Nat) (ids : List String) : picked (fun _ => false) next ids = none := by
  induction ids generalizing next with
  | nil => rfl
  | cons id ids ih => simp [picked, ih]

section Gates

variable {B : Type} [Bdd B]

variable {ids : List String} {next : Nat} {gates : List (WorkflowPort × B)}

theorem caseGates_spec {next} (distinct : ids.Nodup)
    (built : caseGates ids next remaining = .ok (gates, last, rest)) :
    last = next + ids.length ∧ ∀ valuation,
      gates.map (fun gate => (gate.1, eval gate.2 valuation)) = ids.map (fun id =>
        (.ofCase id, eval remaining valuation && picked valuation next ids == some id)) ∧
      eval rest valuation = (eval remaining valuation && (picked valuation next ids).isNone) := by
  induction ids generalizing next remaining gates with
  | nil =>
    obtain ⟨rfl, rfl, rfl⟩ := built
    simp [picked]
  | cons id ids ih =>
    obtain ⟨fresh, distinct⟩ := nodup_cons.mp distinct
    simp only [caseGates, bind_eq_ok_iff, limited_eq_ok_iff] at built
    obtain ⟨guard, guarded, others, left, ⟨later, last', rest'⟩, recursive, same⟩ := built
    simp only [ok.injEq, mk.injEq] at same
    obtain ⟨rfl, rfl, rfl⟩ := same
    obtain ⟨length, spec⟩ := ih distinct recursive
    refine ⟨by simp [length]; omega, fun valuation => ?_⟩
    obtain ⟨tail, remains⟩ := spec valuation
    have selected := eval_andWithLimit guarded valuation
    have unselected := eval_andWithLimit left valuation
    simp only [eval_mkVar, eval_not] at selected unselected
    rw [map_cons, map_cons, tail, remains, selected, unselected, picked]
    cases value : valuation next with
    | true =>
      refine ⟨?_, by simp⟩
      simp only [Bool.and_true, Bool.not_true, Bool.and_false, Bool.false_and, if_true,
        beq_self_eq_true, List.cons.injEq, true_and]
      refine map_congr_left fun other member => ?_
      have differs : (id == other) = false := by
        rw [beq_eq_false_iff_ne]
        rintro rfl
        exact fresh member
      simp [differs]
    | false =>
      have skipped : (picked valuation (next + 1) ids == some id) = false := by
        rw [beq_eq_false_iff_ne]
        exact fun found => fresh (picked_mem found)
      simp [skipped]


/-- Exits of which the last takes what the others left. -/
def exclusiveChoice (valuation : Nat → Bool) (next : Nat) (ids : List String) : WorkflowPort :=
  match picked valuation next ids.dropLast with
  | some id => .ofCase id
  | none => ids.getLast?.elim .next .ofCase

theorem exclusiveChoice_congr {next}
    (agree : ∀ index, next ≤ index → index < next + (ids.length - 1) → left index = right index) :
    exclusiveChoice left next ids = exclusiveChoice right next ids := by
  rw [exclusiveChoice, exclusiveChoice, picked_congr]
  simpa using agree

theorem exclusiveChoice_surjective (next : Nat) {port : WorkflowPort}
    (member : port ∈ if ids.isEmpty then [.next] else ids.map .ofCase) :
    ∃ valuation, exclusiveChoice valuation next ids = port := by
  cases reversed : ids.getLast? with
  | none =>
    obtain rfl := getLast?_eq_none_iff.mp reversed
    obtain rfl : port = .next := by simpa using member
    exact ⟨fun _ => false, rfl⟩
  | some last =>
    obtain ⟨others, rfl⟩ := getLast?_eq_some_iff.mp reversed
    rw [if_neg (by simp), map_append, mem_append, mem_map, mem_map] at member
    obtain ⟨id, earlier, rfl⟩ | ⟨id, same, rfl⟩ := member
    · obtain ⟨valuation, found⟩ := picked_single next earlier
      exact ⟨valuation, by simp [exclusiveChoice, found]⟩
    · obtain rfl := mem_singleton.mp same
      exact ⟨fun _ => false, by simp [exclusiveChoice, picked_none]⟩

theorem exclusiveGates_spec {next} (distinct : ids.Nodup)
    (built : exclusiveGates ids next remaining = .ok (gates, last)) :
    last = next + (ids.length - 1) ∧ ∀ valuation,
      gates.map (fun gate => (gate.1, eval gate.2 valuation)) = ids.map (fun id =>
        (.ofCase id, eval remaining valuation &&
          exclusiveChoice valuation next ids == .ofCase id)) := by
  simp only [exclusiveGates, bind_eq_ok_iff] at built
  obtain ⟨⟨cases, last', rest⟩, chosen, same⟩ := built
  obtain ⟨rfl, rfl⟩ := same
  obtain ⟨length, spec⟩ := caseGates_spec (distinct.sublist (dropLast_sublist ids)) chosen
  refine ⟨by simpa using length, fun valuation => ?_⟩
  obtain ⟨gates, remains⟩ := spec valuation
  rw [map_append, gates]
  cases reversed : ids.getLast? with
  | none =>
    obtain rfl := getLast?_eq_none_iff.mp reversed
    simp
  | some final =>
    obtain ⟨others, rfl⟩ := getLast?_eq_some_iff.mp reversed
    simp only [dropLast_concat] at remains ⊢
    have apart : final ∉ others := by
      intro member
      exact (nodup_append.mp distinct).2.2 final member final (by simp) rfl
    rw [map_append]
    congr 1
    · refine map_congr_left fun id member => ?_
      have differs : id ≠ final := by
        rintro rfl
        exact apart member
      cases found : picked valuation next others with
      | none =>
        have other : (WorkflowPort.ofCase final == .ofCase id) = false := by
          rw [beq_eq_false_iff_ne]
          exact fun same => differs (WorkflowPort.ofCase_injective same).symm
        simp [exclusiveChoice, found, other]
      | some name =>
        have same : (some name == some id) = (WorkflowPort.ofCase name == .ofCase id) := by
          rw [Bool.eq_iff_iff, beq_iff_eq, beq_iff_eq, WorkflowPort.ofCase_injective.eq_iff,
            Option.some.injEq]
        simp [exclusiveChoice, found, same]
    · simp only [Option.toList_some, map_cons, map_nil, remains]
      cases found : picked valuation next others with
      | none => simp [exclusiveChoice, found]
      | some name =>
        have other : (WorkflowPort.ofCase name == .ofCase final) = false := by
          rw [beq_eq_false_iff_ne]
          intro same
          exact apart (WorkflowPort.ofCase_injective same ▸ picked_mem found)
        simp [exclusiveChoice, found, other]

/-- The exit a node takes under a valuation of the variables from `next` on. -/
def NodeDefinition.decision (valuation : Nat → Bool) (next : Nat) : NodeDefinition → WorkflowPort
  | .classifier _ _ _ classes => exclusiveChoice valuation next (classes.map ClassifierClass.id)
  | .branch cases => (picked valuation next (cases.map BranchCase.id)).elim .false .ofCase
  | .review _ actions _ =>
    (picked valuation next (actions.map ReviewAction.id)).elim (.ofCase reviewTimeoutPort) .ofCase
  | .agent _ _ _ routes onError =>
    let ids := routes.map AgentRoute.id
    if onError = .failBranch then
      if valuation next then exclusiveChoice valuation (next + 1) ids else .fail
    else exclusiveChoice valuation next ids
  | node => if node.failBranch && !valuation next then .fail else .next

/-- The identities a node's exits are named after. -/
def NodeDefinition.exitIds : NodeDefinition → List String
  | .classifier _ _ _ classes => classes.map ClassifierClass.id
  | .branch cases => cases.map BranchCase.id
  | .review _ actions _ => actions.map ReviewAction.id ++ [reviewTimeoutPort]
  | .agent _ _ _ routes _ => routes.map AgentRoute.id
  | _ => []

/-- A port is open where its gate is true; a port without a gate always is. -/
def NodeGates.passes (gates : NodeGates B) (valuation : Nat → Bool) (port : WorkflowPort) : Bool :=
  (gates.gate port).all fun gate => eval gate valuation

theorem NodeGates.passes_eq {gates : NodeGates B} (member : port ∈ gates.ports.map fst)
    (values : ∀ entry ∈ gates.ports.map fun gate => (gate.1, eval gate.2 valuation),
      entry.1 = port → entry.2 = value) : gates.passes valuation port = value := by
  have listed : (gates.ports.reverse.lookup port).isSome = true := by
    simpa using member
  obtain ⟨gate, found⟩ := Option.isSome_iff_exists.mp listed
  have entry := mem_reverse.mp (Assoc.mem_of_lookup found)
  simp only [passes, NodeGates.gate, found, Option.all_some]
  exact values _ (mem_map.mpr ⟨_, entry, rfl⟩) rfl

structure NodeGates.Decides (gates : NodeGates B) (exits : List WorkflowPort)
    (decision : (Nat → Bool) → WorkflowPort) : Prop where
  passes : ∀ valuation, ∀ port ∈ exits,
    gates.passes valuation port = (decision valuation == port)
  fails : gates.succeeded = none → .fail ∉ exits
  succeeded : ∀ ok, gates.succeeded = some ok →
    ∀ valuation, eval ok valuation = (decision valuation != .fail)

/-- Exits tried in order, with one more for when none is taken. -/
theorem caseGates_decides {next} (distinct : ids.Nodup) (apart : ∀ id ∈ ids, .ofCase id ≠ otherwise)
    (notFail : otherwise ≠ .fail) (built : caseGates ids next mkTrue = .ok (gates, last, rest)) :
    NodeGates.Decides ⟨gates ++ [(otherwise, rest)], none⟩ (ids.map .ofCase ++ [otherwise])
      fun valuation => (picked valuation next ids).elim otherwise .ofCase := by
  obtain ⟨-, spec⟩ := caseGates_spec distinct built
  refine ⟨fun valuation port member => ?_, ?_, by simp⟩
  · obtain ⟨values, remains⟩ := spec valuation
    have keys : gates.map fst = ids.map .ofCase := by
      simpa [Function.comp_def] using congrArg (List.map fst) values
    refine NodeGates.passes_eq (by simpa [keys] using member) ?_
    intro entry listed same
    rw [map_append, values, mem_append, mem_map] at listed
    obtain ⟨id, known, rfl⟩ | only := listed
    · subst same
      cases found : picked valuation next ids with
      | none =>
        have other : (otherwise == WorkflowPort.ofCase id) = false := by
          simpa using (apart id known).symm
        simp [other]
      | some name =>
        simp [WorkflowPort.ofCase_injective.eq_iff]
    · obtain rfl : entry = (otherwise, eval rest valuation) := by simpa using only
      subst same
      rw [remains]
      cases found : picked valuation next ids with
      | none => simp
      | some name => simp [apart name (picked_mem found)]
  · intro _ member
    rcases mem_append.mp member with case | last
    · obtain ⟨id, -, same⟩ := mem_map.mp case
      exact WorkflowPort.ofCase_ne_fail id same
    · exact notFail (by simpa using last : WorkflowPort.fail = otherwise).symm

theorem exclusiveChoice_cases (valuation : Nat → Bool) (next : Nat) (ids : List String) :
    (ids = [] ∧ exclusiveChoice valuation next ids = .next) ∨
      ∃ id ∈ ids, exclusiveChoice valuation next ids = .ofCase id := by
  unfold exclusiveChoice
  cases found : picked valuation next ids.dropLast with
  | some id => exact .inr ⟨id, mem_of_mem_dropLast (picked_mem found), rfl⟩
  | none =>
    cases last : ids.getLast? with
    | none => exact .inl ⟨getLast?_eq_none_iff.mp last, rfl⟩
    | some id => exact .inr ⟨id, mem_of_getLast? last, rfl⟩

theorem exclusiveChoice_ne_fail (valuation : Nat → Bool) (next : Nat) (ids : List String) :
    exclusiveChoice valuation next ids ≠ .fail := by
  rcases exclusiveChoice_cases valuation next ids with ⟨-, same⟩ | ⟨id, -, same⟩ <;> simp [same]

/-- Exits that exclude each other; a call without any has its next port only. -/
def exclusiveExits (ids : List String) : List WorkflowPort :=
  if ids.isEmpty then [.next] else ids.map .ofCase

theorem exclusiveGates_decides (distinct : ids.Nodup)
    (built : exclusiveGates ids next mkTrue = .ok (gates, last)) :
    NodeGates.Decides ⟨gates, none⟩ (exclusiveExits ids)
      fun valuation => exclusiveChoice valuation next ids := by
  obtain ⟨-, spec⟩ := exclusiveGates_spec distinct built
  refine ⟨fun valuation port member => ?_, ?_, by simp⟩
  · have values := spec valuation
    unfold exclusiveExits at member
    split at member
    · rename_i empty
      obtain rfl : ids = [] := by simpa using empty
      obtain rfl : port = .next := by simpa using member
      obtain rfl : gates = [] := by simpa using values
      rfl
    · have keys : gates.map fst = ids.map .ofCase := by
        simpa [Function.comp_def] using congrArg (List.map fst) values
      refine NodeGates.passes_eq (by simpa only [keys] using member) ?_
      intro entry listed same
      rw [values, mem_map] at listed
      obtain ⟨id, -, rfl⟩ := listed
      subst same
      simp
  · intro _ member
    unfold exclusiveExits at member
    split at member
    · simp at member
    · obtain ⟨id, -, same⟩ := mem_map.mp member
      exact WorkflowPort.ofCase_ne_fail id same

/-- The same behind a variable that says whether the call succeeded. -/
theorem outcomeGates_decides (distinct : ids.Nodup)
    (built : exclusiveGates ids (next + 1) (mkVar next) = .ok (gates, last)) :
    NodeGates.Decides ⟨gates ++ outcomeGates (mkVar next), some (mkVar next)⟩
      (exclusiveExits ids ++ [.fail]) fun valuation =>
        if valuation next then exclusiveChoice valuation (next + 1) ids else .fail := by
  obtain ⟨-, spec⟩ := exclusiveGates_spec distinct built
  refine ⟨fun valuation port member => ?_, by simp, ?_⟩
  · have values := spec valuation
    have keys : gates.map fst = ids.map .ofCase := by
      simpa [Function.comp_def] using congrArg (List.map fst) values
    have listedPort : port ∈ (gates ++ outcomeGates (mkVar next)).map fst := by
      rw [map_append, keys]
      rcases mem_append.mp member with exit | failed
      · unfold exclusiveExits at exit
        split at exit
        · exact mem_append_right _ (by simp_all [outcomeGates])
        · exact mem_append_left _ exit
      · exact mem_append_right _ (by simp_all [outcomeGates])
    refine NodeGates.passes_eq listedPort ?_
    intro entry listed same
    rw [map_append, values, mem_append, mem_map] at listed
    obtain ⟨id, known, rfl⟩ | outcome := listed
    · subst same
      rw [eval_mkVar]
      cases valuation next with
      | true => simp
      | false => simp [(WorkflowPort.ofCase_ne_fail id).symm]
    · simp only [outcomeGates, map_cons, map_nil, mem_cons, not_mem_nil,
        or_false, eval_mkVar, eval_not] at outcome
      obtain rfl | rfl := outcome
      · subst same
        have empty : ids = [] := by
          by_contra nonempty
          have : (ids.isEmpty = true) = False := by simp [nonempty]
          simp only [exclusiveExits, this, if_false, mem_append, mem_map,
            mem_singleton, reduceCtorEq, or_false] at member
          obtain ⟨id, -, same⟩ := member
          exact WorkflowPort.ofCase_ne_next id same
        subst empty
        cases valuation next <;> simp [exclusiveChoice, picked]
      · subst same
        cases valuation next <;> simp [exclusiveChoice_ne_fail]
  · rintro ok same valuation
    obtain rfl := Option.some.inj same
    cases value : valuation next <;> simp [value, exclusiveChoice_ne_fail]

theorem NodeGates.Decides.mono {gates : NodeGates B} (decides : gates.Decides exits decision)
    (subset : fewer ⊆ exits) : gates.Decides fewer decision where
  passes valuation port member := decides.passes valuation port (subset member)
  fails none member := decides.fails none (subset member)
  succeeded := decides.succeeded

/-- A node whose only choice is whether it fails. -/
theorem ordinaryGates_decides {node : NodeDefinition} {gates : NodeGates B}
    (exits : node.exits = .next :: if node.failBranch then [.fail] else [])
    (choices : node.choices = if node.failBranch then 1 else 0)
    (decision : ∀ valuation, node.decision valuation next =
      if node.failBranch && !valuation next then .fail else .next)
    (gated : (nodeGates next node : Except CompileError (NodeGates B × Nat)) =
      if node.failBranch then
        .ok (⟨outcomeGates (mkVar next), some (mkVar next)⟩, next + 1)
      else .ok (⟨[], none⟩, next)) (built : nodeGates next node = .ok (gates, last)) :
    last = next + node.choices ∧
      gates.Decides node.exits fun valuation => node.decision valuation next := by
  rw [gated] at built
  simp only [exits, choices, decision]
  cases failing : node.failBranch with
  | false =>
    simp only [failing, Bool.false_eq_true, if_false, ok.injEq, mk.injEq] at built
    obtain ⟨rfl, rfl⟩ := built
    exact ⟨rfl, by simp [NodeGates.passes, NodeGates.gate], by simp, by simp⟩
  | true =>
    simp only [failing, if_true, ok.injEq, mk.injEq] at built
    obtain ⟨rfl, rfl⟩ := built
    refine ⟨rfl, ?_⟩
    have none : exclusiveGates [] (next + 1) (mkVar next : B) = .ok ([], next + 1) := rfl
    have same : (fun valuation => if valuation next
        then exclusiveChoice valuation (next + 1) [] else .fail) =
        fun valuation => if true && !valuation next then .fail else .next := by
      funext valuation
      cases valuation next <;> simp [exclusiveChoice, picked]
    rw [← same]
    exact outcomeGates_decides nodup_nil none

theorem nodeGates_decides {node : NodeDefinition} {gates : NodeGates B}
    (distinct : node.exitIds.Nodup) (built : nodeGates next node = .ok (gates, last)) :
    last = next + node.choices ∧
      gates.Decides node.exits fun valuation => node.decision valuation next := by
  cases node with
  | classifier model input instruction classes =>
    simp only [NodeDefinition.exitIds] at distinct
    simp only [nodeGates, bind_eq_ok_iff] at built
    obtain ⟨⟨ports, last'⟩, chosen, same⟩ := built
    obtain ⟨rfl, rfl⟩ := same
    refine ⟨by simpa [NodeDefinition.choices] using (exclusiveGates_spec distinct chosen).1, ?_⟩
    refine (exclusiveGates_decides distinct chosen).mono ?_
    intro port member
    cases classes with
    | nil => cases member
    | cons item classes => simpa [exclusiveExits, NodeDefinition.exits] using member
  | branch cases =>
    simp only [NodeDefinition.exitIds] at distinct
    simp only [nodeGates, bind_eq_ok_iff] at built
    obtain ⟨⟨ports, last', rest⟩, chosen, same⟩ := built
    obtain ⟨rfl, rfl⟩ := same
    refine ⟨by simpa [NodeDefinition.choices] using (caseGates_spec distinct chosen).1, ?_⟩
    simpa [NodeDefinition.exits, NodeDefinition.decision, Function.comp_def] using
      caseGates_decides distinct (fun id _ => WorkflowPort.ofCase_ne_false id) (by simp) chosen
  | review content actions timeoutMs =>
    simp only [nodeGates, bind_eq_ok_iff] at built
    obtain ⟨⟨ports, last', rest⟩, chosen, same⟩ := built
    obtain ⟨rfl, rfl⟩ := same
    obtain ⟨ids, -, apart⟩ := nodup_append.mp distinct
    refine ⟨by simpa [NodeDefinition.choices] using (caseGates_spec ids chosen).1, ?_⟩
    have timeout : ∀ id ∈ actions.map ReviewAction.id,
        WorkflowPort.ofCase id ≠ .ofCase reviewTimeoutPort := fun id member same =>
      apart id member _ (mem_singleton.mpr rfl) (WorkflowPort.ofCase_injective same)
    simpa [NodeDefinition.exits, NodeDefinition.decision, Function.comp_def] using
      caseGates_decides ids timeout (by simp) chosen
  | agent profile task output routes onError =>
    simp only [NodeDefinition.exitIds] at distinct
    simp only [nodeGates] at built
    have exits : exclusiveExits (routes.map AgentRoute.id) =
        if routes.isEmpty then [.next] else routes.map fun route => .ofCase route.id := by
      simp [exclusiveExits, Function.comp_def]
    split at built
    · rename_i failing
      simp only [bind_eq_ok_iff] at built
      obtain ⟨⟨ports, last'⟩, chosen, same⟩ := built
      obtain ⟨rfl, rfl⟩ := same
      have length := (exclusiveGates_spec distinct chosen).1
      refine ⟨by simp [NodeDefinition.choices, failing, length]; omega, ?_⟩
      have decides := outcomeGates_decides distinct chosen
      rw [exits] at decides
      simpa only [NodeDefinition.exits, NodeDefinition.decision, failing, if_true] using decides
    · rename_i stops
      simp only [bind_eq_ok_iff] at built
      obtain ⟨⟨ports, last'⟩, chosen, same⟩ := built
      obtain ⟨rfl, rfl⟩ := same
      have length := (exclusiveGates_spec distinct chosen).1
      refine ⟨by simp [NodeDefinition.choices, stops, length], ?_⟩
      have decides := exclusiveGates_decides distinct chosen
      rw [exits] at decides
      simpa only [NodeDefinition.exits, NodeDefinition.decision, stops, if_false,
        append_nil] using decides
  | _ => exact ordinaryGates_decides rfl rfl (fun _ => rfl) rfl built

end Gates

namespace NodeDefinition

theorem decision_congr {next} (node : NodeDefinition)
    (agree : ∀ index, next ≤ index → index < next + node.choices → left index = right index) :
    node.decision left next = node.decision right next := by
  cases node with
  | classifier model input instruction classes =>
    exact exclusiveChoice_congr (by simpa [choices] using agree)
  | branch | review =>
    rw [decision, decision, picked_congr (by simpa [choices] using agree)]
  | agent profile task output routes onError =>
    simp only [choices] at agree
    simp only [decision]
    split
    · rename_i failing
      simp only [failing, if_true] at agree
      rw [agree next (Nat.le_refl next) (by omega), exclusiveChoice_congr]
      intro index above below
      refine agree index (by omega) ?_
      simp only [length_map] at below
      omega
    · rename_i stops
      simp only [stops, if_false] at agree
      exact exclusiveChoice_congr (by simpa using agree)
  | _ =>
    simp only [decision, choices] at agree ⊢
    split at agree
    · rw [agree next (Nat.le_refl next) (by omega)]
    · rename_i stops
      simp [stops]

theorem decision_surjective {node : NodeDefinition} {port : WorkflowPort} (next : Nat)
    (member : port ∈ node.exits) : ∃ valuation, node.decision valuation next = port := by
  cases node with
  | classifier model input instruction classes =>
    refine exclusiveChoice_surjective next ?_
    cases classes with
    | nil => cases member
    | cons item classes => simpa [exits] using member
  | branch | review =>
    simp only [exits, mem_append, mem_map, mem_singleton] at member
    obtain ⟨case, listed, rfl⟩ | rfl := member
    · obtain ⟨valuation, found⟩ := picked_single next (mem_map_of_mem listed)
      exact ⟨valuation, by rw [decision, found]; rfl⟩
    · exact ⟨fun _ => false, by rw [decision, picked_none]; rfl⟩
  | agent profile task output routes onError =>
    simp only [exits, mem_append] at member
    rcases member with route | failed
    · have listed : port ∈ if (routes.map AgentRoute.id).isEmpty then [.next]
          else (routes.map AgentRoute.id).map .ofCase := by
        simpa [Function.comp_def] using route
      by_cases failing : onError = .failBranch
      · obtain ⟨valuation, chosen⟩ := exclusiveChoice_surjective _ listed
        refine ⟨fun index => if index = next then true else valuation index, ?_⟩
        simp only [decision, failing, if_true, ← chosen]
        exact exclusiveChoice_congr fun index above _ => if_neg (by omega)
      · obtain ⟨valuation, chosen⟩ := exclusiveChoice_surjective next listed
        exact ⟨valuation, by simp only [decision, failing, if_false, chosen]⟩
    · by_cases failing : onError = .failBranch
      · obtain rfl : port = .fail := by simpa [failing] using failed
        exact ⟨fun _ => false, by simp [decision, failing]⟩
      · simp [failing] at failed
  | _ =>
    simp only [exits, mem_cons] at member
    obtain rfl | failed := member
    · exact ⟨fun _ => true, by simp [decision]⟩
    · split at failed
      · rename_i failing
        obtain rfl : port = .fail := by simpa using failed
        exact ⟨fun _ => false, by simp [decision, failing]⟩
      · cases failed

end NodeDefinition

/-- The exits that the nodes of a block take, with variables from `next` on. -/
def blockDecision (valuation : Nat → Bool) :
    Nat → List (String × NodeDefinition) → String → WorkflowPort
  | _, [], _ => .next
  | next, (id, node) :: nodes, name =>
    if name = id then node.decision valuation next
    else blockDecision valuation (next + node.choices) nodes name

theorem blockDecision_congr {next} (agree : ∀ index, next ≤ index → left index = right index)
    (name : String) : blockDecision left next nodes name = blockDecision right next nodes name := by
  induction nodes generalizing next with
  | nil => rfl
  | cons entry nodes ih =>
    obtain ⟨id, node⟩ := entry
    rw [blockDecision, blockDecision, node.decision_congr fun index above _ => agree index above,
      ih fun index above => agree index (by omega)]

/-- Any exits that some of the nodes can take are the decision of some valuation. -/
theorem blockDecision_surjective {nodes : List (String × NodeDefinition)} (next : Nat)
    {choice : String → Option WorkflowPort} (distinct : (nodes.map fst).Nodup)
    (exits : ∀ id node port, nodes.lookup id = some node → choice id = some port →
      port ∈ node.exits) :
    ∃ valuation, ∀ id node port, nodes.lookup id = some node → choice id = some port →
      blockDecision valuation next nodes id = port := by
  induction nodes generalizing next with
  | nil => exact ⟨fun _ => false, by simp⟩
  | cons entry nodes ih =>
    obtain ⟨name, first⟩ := entry
    obtain ⟨fresh, distinct⟩ := nodup_cons.mp distinct
    have skip : ∀ id node, nodes.lookup id = some node →
        ((name, first) :: nodes).lookup id = some node := by
      intro id node found
      rw [Assoc.lookup_cons_ite, if_neg, found]
      rintro rfl
      exact fresh (Assoc.mem_keys_of_lookup found)
    have here : ∃ valuation, ∀ port, choice name = some port →
        first.decision valuation next = port := by
      cases chosen : choice name with
      | none => exact ⟨fun _ => false, by simp⟩
      | some port =>
        obtain ⟨valuation, decided⟩ := NodeDefinition.decision_surjective next
          (exits name first port lookup_cons_self chosen)
        exact ⟨valuation, by simpa using decided⟩
    obtain ⟨head, decided⟩ := here
    obtain ⟨tail, rest⟩ := ih _ distinct
      fun id node port found => exits id node port (skip id node found)
    -- The first node reads the variables below those of the others.
    refine ⟨fun index => if index < next + first.choices then head index else tail index, ?_⟩
    intro id node port found chosen
    rw [Assoc.lookup_cons_ite] at found
    rw [blockDecision]
    split at found
    · rename_i same
      obtain rfl : id = name := same
      rw [if_pos rfl, ← decided port chosen]
      exact first.decision_congr fun index _ below => if_pos below
    · rename_i differs
      rw [if_neg differs, ← rest id node port found chosen]
      exact blockDecision_congr (fun index above => if_neg (by omega)) id

section Blocks

variable {B : Type} [Bdd B]

theorem blockGates_decides {next} {gates : List (String × NodeGates B)}
    (distinct : ∀ entry ∈ nodes, entry.2.exitIds.Nodup) (built : blockGates nodes next = .ok gates)
    {id : String} (found : nodes.lookup id = some node) :
    ∃ here, gates.lookup id = some here ∧
      here.Decides node.exits fun valuation => blockDecision valuation next nodes id := by
  induction nodes generalizing next gates with
  | nil => cases found
  | cons entry nodes ih =>
    simp only [blockGates, bind_eq_ok_iff] at built
    obtain ⟨⟨own, next'⟩, here, others, rest, same⟩ := built
    obtain rfl := ok.inj same
    obtain ⟨firstDistinct, restDistinct⟩ := forall_mem_cons.mp distinct
    obtain ⟨rfl, decides⟩ := nodeGates_decides firstDistinct here
    rw [Assoc.lookup_cons_ite] at found ⊢
    simp only [blockDecision]
    split at found
    · rename_i same
      obtain rfl := Option.some.inj found
      exact ⟨own, if_pos same, by simpa only [if_pos same] using decides⟩
    · rename_i differs
      simp only [if_neg differs]
      exact ih restDistinct rest found

namespace ActivationScopes

def Leads (outgoing : String → List EdgeProgram) (source target : String) : Prop :=
  ∃ edge ∈ outgoing source, edge.target = target

def AncestorsLead (outgoing : String → List EdgeProgram) (scopes : ActivationScopes B) : Prop :=
  ∀ node, ∀ ancestor ∈ scopes.ancestors node, Relation.TransGen (Leads outgoing) ancestor node

def opens (gates : WorkflowPort → Option B) (valuation : Nat → Bool) (port : WorkflowPort) : Bool :=
  (gates port).all fun gate => eval gate valuation

theorem throughGate_eval {gate : Option B} (built : throughGate gate current = .ok path)
    (valuation : Nat → Bool) :
    eval path valuation = (eval current valuation && gate.all fun gate => eval gate valuation) := by
  cases gate with
  | none =>
    obtain rfl := ok.inj built
    simp
  | some gate => exact eval_andWithLimit (limited_eq_ok_iff.mp built) valuation

variable {scopes : ActivationScopes B}

theorem activateEdge_spec {after} {edge : EdgeProgram}
    (ran : activateEdge gates node current scopes edge = .ok after) :
    after.succeeded = scopes.succeeded ∧
      (∀ valuation target, eval (after.activation target) valuation =
        (eval (scopes.activation target) valuation ||
          (edge.target == target && eval current valuation && opens gates valuation edge.port))) ∧
      ∀ outgoing, Leads outgoing node edge.target → scopes.AncestorsLead outgoing →
        after.AncestorsLead outgoing := by
  simp only [activateEdge, bind_eq_ok_iff] at ran
  obtain ⟨path, gated, joined, union, same⟩ := ran
  obtain rfl := ok.inj same
  refine ⟨rfl, fun valuation target => ?_, fun outgoing leads sound target ancestor member => ?_⟩
  · have path_eval := throughGate_eval gated valuation
    have union_eval := eval_orWithLimit (limited_eq_ok_iff.mp union) valuation
    by_cases here : edge.target = target
    · subst here
      simp only [activation, Function.update_self, Option.getD_some, beq_self_eq_true,
        Bool.true_and]
      rw [union_eval, path_eval]
      rfl
    · have differs : (edge.target == target) = false := by simpa using here
      simp only [activation, Function.update_of_ne (Ne.symm here), differs, Bool.false_and,
        Bool.or_false]
  · dsimp only at member
    by_cases here : target = edge.target
    · subst here
      rw [Function.update_self, mem_union_iff, mem_union_iff, mem_singleton] at member
      rcases member with old | before | rfl
      · exact sound _ _ old
      · exact (sound _ _ before).tail leads
      · exact .single leads
    · rw [Function.update_of_ne here] at member
      exact sound _ _ member

theorem activateEdges_spec {after} {edges : List EdgeProgram}
    (ran : edges.foldlM (activateEdge gates node current) scopes = .ok after) :
    after.succeeded = scopes.succeeded ∧
      (∀ valuation target, eval (after.activation target) valuation =
        (eval (scopes.activation target) valuation || edges.any fun edge =>
          edge.target == target && eval current valuation &&
            opens gates valuation edge.port)) ∧
      ∀ outgoing, (∀ edge ∈ edges, Leads outgoing node edge.target) →
        scopes.AncestorsLead outgoing → after.AncestorsLead outgoing := by
  induction edges generalizing scopes with
  | nil =>
    obtain rfl := ok.inj ran
    simp
  | cons edge edges ih =>
    rw [foldlM_cons, bind_eq_ok_iff] at ran
    obtain ⟨middle, first, rest⟩ := ran
    obtain ⟨succeeded, active, ancestors⟩ := activateEdge_spec first
    obtain ⟨restSucceeded, restActive, restAncestors⟩ := ih rest
    refine ⟨restSucceeded.trans succeeded, fun valuation target => ?_, fun outgoing leads sound => ?_⟩
    · rw [restActive, active, any_cons, Bool.or_assoc]
    · obtain ⟨here, others⟩ := forall_mem_cons.mp leads
      exact restAncestors outgoing others (ancestors outgoing here sound)

/-- The analysis after the edges of the nodes in `done`: a node is active at the
entry and behind every active node of `done` whose port is open. -/
structure Activated (gates : String → WorkflowPort → Option B) (entry : String)
    (outgoing : String → List EdgeProgram) (done : List String) (scopes : ActivationScopes B) :
    Prop where
  active : ∀ valuation node, eval (scopes.activation node) valuation = true ↔
    node = entry ∨ ∃ source ∈ done, ∃ edge ∈ outgoing source, edge.target = node ∧
      eval (scopes.activation source) valuation = true ∧
      opens (gates source) valuation edge.port = true
  ancestors : scopes.AncestorsLead outgoing

variable {outgoing : String → List EdgeProgram}

theorem Activated.step {after} (activated : Activated gates entry outgoing done scopes)
    (later : ∀ edge ∈ outgoing node, edge.target ∉ done ++ [node])
    (ran : activateNode gates outgoing scopes node = .ok after) :
    Activated gates entry outgoing (done ++ [node]) after := by
  obtain ⟨-, active, ancestors⟩ := activateEdges_spec ran
  -- The nodes already passed do not change any more.
  have kept : ∀ source ∈ done ++ [node], ∀ valuation,
      eval (after.activation source) valuation = eval (scopes.activation source) valuation := by
    intro source member valuation
    rw [active, Bool.or_eq_left_iff_imp]
    intro reached
    obtain ⟨edge, leaves, reaches⟩ := any_eq_true.mp reached
    simp only [Bool.and_eq_true, beq_iff_eq] at reaches
    exact absurd (reaches.1.1 ▸ member) (later edge leaves)
  refine ⟨fun valuation target => ?_, ancestors outgoing (fun edge leaves => ⟨edge, leaves, rfl⟩)
    activated.ancestors⟩
  rw [active, Bool.or_eq_true, activated.active]
  constructor
  · rintro ((rfl | ⟨source, member, edge, leaves, reaches, on, through⟩) | reached)
    · exact .inl rfl
    · have member := mem_append_left [node] member
      exact .inr ⟨source, member, edge, leaves, reaches, by rwa [kept source member], through⟩
    · obtain ⟨edge, leaves, reaches⟩ := any_eq_true.mp reached
      simp only [Bool.and_eq_true, beq_iff_eq] at reaches
      have member : node ∈ done ++ [node] := by simp
      exact .inr ⟨node, member, edge, leaves, reaches.1.1, by rw [kept node member]; exact reaches.1.2,
        reaches.2⟩
  · rintro (rfl | ⟨source, member, edge, leaves, rfl, on, through⟩)
    · exact .inl (.inl rfl)
    · rw [kept source member] at on
      rcases mem_append.mp member with old | new
      · exact .inl (.inr ⟨source, old, edge, leaves, rfl, on, through⟩)
      · obtain rfl := mem_singleton.mp new
        exact .inr (any_eq_true.mpr ⟨edge, leaves, by simp [on, through]⟩)

theorem Activated.run {after} (activated : Activated gates entry outgoing done scopes)
    (sorted : ∀ before node later, done ++ order = before ++ node :: later →
      ∀ edge ∈ outgoing node, edge.target ∉ before ++ [node])
    (ran : order.foldlM (activateNode gates outgoing) scopes = .ok after) :
    Activated gates entry outgoing (done ++ order) after := by
  induction order generalizing done scopes with
  | nil =>
    obtain rfl := ok.inj ran
    simpa using activated
  | cons node order ih =>
    rw [foldlM_cons, bind_eq_ok_iff] at ran
    obtain ⟨middle, first, rest⟩ := ran
    have stepped := activated.step (sorted done node order rfl) first
    simpa using ih stepped (by simpa using sorted) rest

theorem succeeded_of_run {after} {order : List String}
    (ran : order.foldlM (activateNode gates outgoing) scopes = .ok after) :
    after.succeeded = scopes.succeeded := by
  induction order generalizing scopes with
  | nil =>
    obtain rfl := ok.inj ran
    rfl
  | cons node order ih =>
    rw [foldlM_cons, bind_eq_ok_iff] at ran
    obtain ⟨middle, first, rest⟩ := ran
    exact (ih rest).trans (activateEdges_spec first).1

/-- What an analysis says, with `decision` the exit of each node under a valuation. -/
structure Means (scopes : ActivationScopes B) (nodes : List (String × NodeDefinition))
    (entry : String) (outgoing : String → List EdgeProgram)
    (decision : (Nat → Bool) → String → WorkflowPort) : Prop where
  active : ∀ valuation node, eval (scopes.activation node) valuation = true ↔
    node = entry ∨ ∃ source, ∃ edge ∈ outgoing source, edge.target = node ∧
      eval (scopes.activation source) valuation = true ∧ decision valuation source = edge.port
  ancestors : scopes.AncestorsLead outgoing
  fails : ∀ id node, nodes.lookup id = some node → scopes.succeeded id = none → .fail ∉ node.exits
  succeeded : ∀ id ok, (nodes.lookup id).isSome → scopes.succeeded id = some ok →
    ∀ valuation, eval ok valuation = (decision valuation id != .fail)
  surjective : ∀ choice : String → Option WorkflowPort,
    (∀ id node port, nodes.lookup id = some node → choice id = some port → port ∈ node.exits) →
    ∃ valuation, ∀ id node port, nodes.lookup id = some node → choice id = some port →
      decision valuation id = port

end ActivationScopes

variable {flow : ControlFlow B}

section

variable (sound : flow.Sound definition)
include sound

/-- In a topological order the targets of a node come behind it. -/
theorem ControlFlow.Sound.later {after} (split : flow.topological = before ++ node :: after)
    (leaves : edge ∈ flow.outgoing node) : edge.target ∉ before ++ [node] := by
  have distinct := split ▸ sound.order_distinct
  have fresh : node ∉ before := fun member =>
    (nodup_append.mp distinct).2.2 _ member _ (by simp) rfl
  intro member
  obtain ⟨first, second, rfl⟩ | same : (∃ first second, before = first ++ edge.target :: second) ∨
      edge.target = node := by
    rcases mem_append.mp member with earlier | here
    · exact .inl (append_of_mem earlier)
    · exact .inr (mem_singleton.mp here)
  · exact fresh (mem_append_left _ (sound.sorted first edge.target (second ++ node :: after)
      (by simpa using split) node (sound.source_known leaves) edge leaves rfl))
  · exact fresh (sound.sorted before node after split node (sound.source_known leaves) edge leaves
      same)

/-- The analysis of accepted control flow has passed every node. -/
theorem ControlFlow.Sound.activated : ∃ gates, blockGates definition.nodes 0 = .ok gates ∧
      ActivationScopes.Activated (fun node port => (gates.lookup node).bind (·.gate port))
        flow.entry flow.outgoing flow.topological flow.scopes ∧
      ∀ id, flow.scopes.succeeded id = (gates.lookup id).bind (·.succeeded) := by
  have built := sound.scopes
  simp only [ActivationScopes.new, bind_eq_ok_iff, require_eq_ok_iff] at built
  obtain ⟨_, -, gates, gated, ran⟩ := built
  have start : ActivationScopes.Activated
      (fun node port => (gates.lookup node).bind (·.gate port)) flow.entry flow.outgoing []
      { active := fun node => if node = flow.entry then some mkTrue else none
        ancestors := fun _ => []
        succeeded := fun node => (gates.lookup node).bind (·.succeeded) } := by
    refine ⟨fun valuation node => ?_, by simp [ActivationScopes.AncestorsLead]⟩
    by_cases here : node = flow.entry <;> simp [ActivationScopes.activation, here]
  refine ⟨gates, gated, ?_, congrFun (ActivationScopes.succeeded_of_run ran)⟩
  exact start.run (fun before node later split edge leaves =>
    sound.later (by simpa using split) leaves) ran

theorem ControlFlow.Sound.ancestorsLead : flow.scopes.AncestorsLead flow.outgoing := by
  obtain ⟨gates, -, activated, -⟩ := sound.activated
  exact activated.ancestors

theorem ControlFlow.Sound.means (distinct : ∀ entry ∈ definition.nodes, entry.2.exitIds.Nodup) :
    flow.scopes.Means definition.nodes flow.entry flow.outgoing
      fun valuation id => blockDecision valuation 0 definition.nodes id := by
  obtain ⟨gates, gated, activated, succeeded⟩ := sound.activated
  have decides : ∀ id node, definition.nodes.lookup id = some node → ∃ here,
      gates.lookup id = some here ∧
        here.Decides node.exits fun valuation => blockDecision valuation 0 definition.nodes id :=
    fun id node found => blockGates_decides distinct gated found
  refine ⟨fun valuation node => ?_, activated.ancestors, ?_, ?_, ?_⟩
  · rw [activated.active]
    refine or_congr Iff.rfl ⟨?_, ?_⟩
    · rintro ⟨source, -, edge, leaves, reaches, on, through⟩
      obtain ⟨known, found, exit, -⟩ := sound.edges source edge leaves
      obtain ⟨here, listed, decided⟩ := decides source known found
      have passes := decided.passes valuation _ exit
      simp only [ActivationScopes.opens, listed, Option.bind_some] at through
      rw [NodeGates.passes, through] at passes
      exact ⟨source, edge, leaves, reaches, on, beq_iff_eq.mp passes.symm⟩
    · rintro ⟨source, edge, leaves, reaches, on, chosen⟩
      obtain ⟨known, found, exit, -⟩ := sound.edges source edge leaves
      obtain ⟨here, listed, decided⟩ := decides source known found
      have passes := decided.passes valuation _ exit
      refine ⟨source, (sound.order_mem source).mpr (sound.source_known leaves), edge, leaves, reaches,
        on, ?_⟩
      simp only [ActivationScopes.opens, listed, Option.bind_some]
      rw [← NodeGates.passes, passes, beq_iff_eq]
      exact chosen
  · intro id node found none
    obtain ⟨here, listed, decided⟩ := decides id node found
    rw [succeeded, listed] at none
    exact decided.fails none
  · intro id ok known some valuation
    obtain ⟨node, found⟩ := Option.isSome_iff_exists.mp known
    obtain ⟨here, listed, decided⟩ := decides id node found
    rw [succeeded, listed] at some
    exact decided.succeeded ok some valuation
  · exact fun choice exits => blockDecision_surjective 0 sound.distinct exits

end

end Blocks

end RustX
