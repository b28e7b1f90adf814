import RustX.Library.Assoc
import RustX.Workflow.Json

/-!
Previews of the nodes of an indexed source. One budget of nodes is threaded through the walk,
and a subtree that is small in itself is read whole.
-/
namespace RustX.Observation

open List

/-- The key of a member with the length of its text; items of arrays have none to speak of. -/
structure Key where
  name : String := ""
  bytes : Nat := 0

/-- A key of more than 256 bytes is not kept in the index. -/
def Key.complete (key : Key) : Bool :=
  decide (key.bytes ≤ 256)

inductive Node
  | scalar (value : Json) (bytes : Nat)
  | container (object : Bool) (bytes : Nat) (children : List (Key × Node))

def Node.bytes : Node → Nat
  | .scalar _ bytes => bytes
  | .container _ bytes _ => bytes

/-- Members go into a sorted map, items into a list. -/
def build (object : Bool) (children : List (String × Json)) : Json :=
  if object then .object (children.foldl (fun values child => Assoc.insert child.1 child.2 values) [])
  else .array (children.map Prod.snd)

mutual

/-- What `serde_json::from_slice` reads from the text of a node. -/
def Node.value : Node → Json
  | .scalar value _ => value
  | .container object _ children => build object (childValues children)

def childValues : List (Key × Node) → List (String × Json)
  | [] => []
  | (key, child) :: children => (key.name, child.value) :: childValues children

end

mutual

def nodes : Json → Nat
  | .array items => 1 + nodesItems items
  | .object fields => 1 + nodesFields fields
  | _ => 1

def nodesItems : List Json → Nat
  | [] => 0
  | item :: items => nodes item + nodesItems items

def nodesFields : List (String × Json) → Nat
  | [] => 0
  | (_, value) :: fields => nodes value + nodesFields fields

end

mutual

def Node.WellFormed : Node → Prop
  | .scalar value _ => nodes value = 1
  | .container object _ children =>
    (object = true → (children.map fun child => child.1.name).Nodup) ∧ ChildrenWellFormed children

def ChildrenWellFormed : List (Key × Node) → Prop
  | [] => True
  | (_, child) :: children => child.WellFormed ∧ ChildrenWellFormed children

end

structure SourceNode where
  node : Node
  wellFormed : node.WellFormed

mutual

/-- `LayoutParser::value` counts up to 33 nodes. -/
def Node.recursiveNodes : Node → Nat
  | .scalar _ _ => 1
  | .container _ _ children => countChildren 1 children

def countChildren (recursive : Nat) : List (Key × Node) → Nat
  | [] => recursive
  | (_, child) :: children => countChildren (min (recursive + child.recursiveNodes) 33) children

end

/-- What is read whole, whatever is left of the budget. -/
abbrev Node.Small (node : Node) : Prop :=
  node.recursiveNodes ≤ 32 ∧ node.bytes ≤ 16384

mutual

def previewNode (budget : Nat) : Node → Json × Nat
  | .scalar value bytes =>
    if budget = 0 then (.null, 0)
    else if (Node.scalar value bytes).Small then (value, budget - 1)
    else (if bytes ≤ 1024 then value else .null, budget - 1)
  | .container object bytes children =>
    if budget = 0 then (.null, 0)
    else if (Node.container object bytes children).Small then
      ((Node.container object bytes children).value,
        budget - 1 - ((Node.container object bytes children).recursiveNodes - 1))
    else
      let (shown, budget) := previewChildren object 32 (budget - 1) children
      (build object shown, budget)

/-- At most `left` children are looked at; a member whose key is not in the index is passed over. -/
def previewChildren (object : Bool) (left budget : Nat) :
    List (Key × Node) → List (String × Json) × Nat
  | [] => ([], budget)
  | (key, child) :: children =>
    if left = 0 ∨ budget = 0 then ([], budget)
    else if object ∧ key.complete = false then previewChildren object (left - 1) budget children
    else
      let (value, budget) := previewNode budget child
      let (shown, budget) := previewChildren object (left - 1) budget children
      ((key.name, value) :: shown, budget)

end

mutual

/-- The nodes a preview with no bound would read at a time, in order. -/
def portions : Node → List Nat
  | .scalar _ _ => [1]
  | .container object bytes children =>
    if (Node.container object bytes children).Small then
      [nodes (Node.container object bytes children).value]
    else 1 :: childPortions object 32 children

def childPortions (object : Bool) (left : Nat) : List (Key × Node) → List Nat
  | [] => []
  | (key, child) :: children =>
    if left = 0 then []
    else if object ∧ key.complete = false then childPortions object (left - 1) children
    else portions child ++ childPortions object (left - 1) children

end

/-- The nodes shown and what is left of the budget, after one more portion. -/
def spend (state : Nat × Nat) (portion : Nat) : Nat × Nat :=
  if state.2 = 0 then state else (state.1 + portion, state.2 - portion)

theorem foldl_spend_spent (portions : List Nat) (shown : Nat) :
    portions.foldl spend (shown, 0) = (shown, 0) := by
  induction portions with
  | nil => rfl
  | cons portion portions ih => simpa [spend] using ih

/-- The last portion taken overruns the budget unless some portions make it up exactly. -/
theorem foldl_spend_le_iff (portions : List Nat) (shown budget : Nat) :
    (portions.foldl spend (shown, budget)).1 ≤ shown + budget ↔
      portions.sum ≤ budget ∨ ∃ count, (portions.take count).sum = budget := by
  induction portions generalizing shown budget with
  | nil => simp
  | cons portion portions ih =>
    by_cases spent : budget = 0
    · subst spent
      rw [foldl_spend_spent]
      exact iff_of_true (Nat.le_refl _) (.inr ⟨0, rfl⟩)
    have next : (∃ count, ((portion :: portions).take count).sum = budget) ↔
        ∃ count, portion + (portions.take count).sum = budget := by
      refine ⟨fun ⟨count, made⟩ => ?_, fun ⟨count, made⟩ => ⟨count + 1, by simpa using made⟩⟩
      cases count with
      | zero => exact absurd made.symm spent
      | succ count => exact ⟨count, by simpa using made⟩
    rw [foldl_cons, spend, if_neg spent, next, sum_cons]
    by_cases fits : portion ≤ budget
    · have later := ih (shown + portion) (budget - portion)
      rw [show shown + portion + (budget - portion) = shown + budget by omega] at later
      rw [later]
      exact or_congr (by omega) (exists_congr fun count => by omega)
    · rw [show budget - portion = 0 by omega, foldl_spend_spent]
      refine iff_of_false (by omega) ?_
      rintro (few | ⟨count, made⟩) <;> omega

def total (children : List (String × Json)) : Nat :=
  (children.map fun child => nodes child.2).sum

theorem nodesItems_eq (children : List (String × Json)) :
    nodesItems (children.map Prod.snd) = total children := by
  induction children with
  | nil => rfl
  | cons child children ih => simp [nodesItems, total, ih]

theorem nodesFields_eq (fields : List (String × Json)) : nodesFields fields = total fields := by
  induction fields with
  | nil => rfl
  | cons field fields ih => simp [nodesFields, total, ih]

theorem total_foldl_insert (children values : List (String × Json))
    (distinct : ((values ++ children).map Prod.fst).Nodup) :
    total (children.foldl (fun values child => Assoc.insert child.1 child.2 values) values) =
      total values + total children := by
  induction children generalizing values with
  | nil => simp [total]
  | cons child children ih =>
    have fresh : child.1 ∉ values.map Prod.fst := by
      simp only [map_append, map_cons, nodup_append] at distinct
      exact fun held => distinct.2.2 _ held _ mem_cons_self rfl
    have moved := Assoc.insert_perm_of_fresh child.2 fresh
    rw [foldl_cons, ih]
    · have counted := (moved.map fun child => nodes child.2).sum_nat
      simp only [total, map_cons, sum_cons] at counted ⊢
      omega
    · refine ((moved.append_right children).map _).nodup_iff.mpr ?_
      simpa [nodup_middle] using distinct

theorem nodes_build (distinct : object = true → (children.map Prod.fst).Nodup) :
    nodes (build object children) = 1 + total children := by
  cases object with
  | false => simp [build, nodes, nodesItems_eq]
  | true =>
    have counted := total_foldl_insert children [] (distinct rfl)
    simp only [build, if_true, nodes, nodesFields_eq, counted]
    simp [total]

theorem childValues_names (children : List (Key × Node)) :
    (childValues children).map Prod.fst = children.map fun child => child.1.name := by
  induction children with
  | nil => rfl
  | cons child children ih => simp [childValues, ih]

theorem previewChildren_names (object : Bool) (left budget : Nat) (children : List (Key × Node)) :
    ((previewChildren object left budget children).1.map Prod.fst).Sublist
      (children.map fun child => child.1.name) := by
  induction children generalizing left budget with
  | nil => exact .slnil
  | cons child children ih =>
    rw [previewChildren]
    split
    · exact nil_sublist _
    · split
      · exact (ih _ _).cons _
      · exact (ih _ _).cons_cons _

mutual

theorem Node.recursiveNodes_eq (node : Node) (wellFormed : node.WellFormed) :
    node.recursiveNodes = min (nodes node.value) 33 := by
  cases node with
  | scalar value bytes =>
    rw [Node.WellFormed] at wellFormed
    rw [Node.recursiveNodes, Node.value, wellFormed]
    rfl
  | container object bytes children =>
    rw [Node.value, nodes_build (by rw [childValues_names]; exact wellFormed.1)]
    exact countChildren_eq children wellFormed.2 1 (by decide)

theorem countChildren_eq (children : List (Key × Node)) (wellFormed : ChildrenWellFormed children)
    (recursive : Nat) (small : recursive ≤ 33) :
    countChildren recursive children = min (recursive + total (childValues children)) 33 := by
  cases children with
  | nil => exact (Nat.min_eq_left small).symm
  | cons child children =>
    obtain ⟨key, child⟩ := child
    rw [countChildren, countChildren_eq children wellFormed.2 _ (Nat.min_le_right _ _),
      child.recursiveNodes_eq wellFormed.1]
    simp only [childValues, total, map_cons, sum_cons]
    omega

end

theorem nodes_pos (value : Json) : 0 < nodes value := by
  unfold nodes
  split <;> omega

mutual

theorem previewNode_spend (node : Node) (wellFormed : node.WellFormed) (shown budget : Nat)
    (unspent : budget ≠ 0) :
    (shown + nodes (previewNode budget node).1, (previewNode budget node).2) =
      (portions node).foldl spend (shown, budget) := by
  cases node with
  | scalar value bytes =>
    rw [Node.WellFormed] at wellFormed
    simp only [previewNode, portions, if_neg unspent, foldl_cons, foldl_nil, spend]
    split
    · rw [wellFormed]
    · split
      · rw [wellFormed]
      · rfl
  | container object bytes children =>
    rw [previewNode, portions, if_neg unspent]
    split
    · rename_i small
      have counted := Node.recursiveNodes_eq _ wellFormed
      have some := nodes_pos (Node.container object bytes children).value
      have few := small.1
      simp only [foldl_cons, foldl_nil, spend, if_neg unspent, Prod.mk.injEq, true_and]
      omega
    · have walked := previewChildren_spend object children wellFormed.2 32 (shown + 1) (budget - 1)
      have named := previewChildren_names object 32 (budget - 1) children
      rw [foldl_cons, spend, if_neg unspent, ← walked,
        nodes_build fun isObject => (wellFormed.1 isObject).sublist named, Nat.add_assoc]

theorem previewChildren_spend (object : Bool) (children : List (Key × Node))
    (wellFormed : ChildrenWellFormed children) (left shown budget : Nat) :
    (shown + total (previewChildren object left budget children).1,
        (previewChildren object left budget children).2) =
      (childPortions object left children).foldl spend (shown, budget) := by
  cases children with
  | nil => rfl
  | cons child children =>
    obtain ⟨key, child⟩ := child
    rw [previewChildren, childPortions]
    by_cases none : left = 0
    · simp [none, total]
    by_cases spent : budget = 0
    · simp [spent, total, foldl_spend_spent]
    rw [if_neg (by simp [none, spent]), if_neg none]
    split
    · exact previewChildren_spend object children wellFormed.2 _ shown budget
    · rw [foldl_append, ← previewNode_spend child wellFormed.1 shown budget spent,
        ← previewChildren_spend object children wellFormed.2]
      simp [total, Nat.add_assoc]

end

/-- A preview keeps to 32 nodes exactly where its portions do not overrun them; a node that fits
is shown whole. -/
theorem previewNode_budget_iff (source : SourceNode) : (nodes (previewNode 32 source.node).1 ≤ 32 ∧
        (nodes source.node.value ≤ 32 → source.node.bytes ≤ 16384 →
          (previewNode 32 source.node).1 = source.node.value)) ↔
      (portions source.node).sum ≤ 32 ∨ ∃ count, ((portions source.node).take count).sum = 32 := by
  obtain ⟨node, wellFormed⟩ := source
  have bounded := foldl_spend_le_iff (portions node) 0 32
  rw [← previewNode_spend node wellFormed 0 32 (by decide), Nat.zero_add, Nat.zero_add] at bounded
  rw [bounded]
  refine and_iff_left fun (few : nodes node.value ≤ 32) short => ?_
  have small : node.Small := ⟨by rw [node.recursiveNodes_eq wellFormed]; omega, short⟩
  cases node with
  | scalar value bytes =>
    rw [previewNode, if_neg (by decide), if_pos small]
    rfl
  | container object bytes children => rw [previewNode, if_neg (by decide), if_pos small]

/-- An array of two arrays of sixteen items each. -/
def pairOfSixteens : SourceNode where
  node :=
    let sixteen := .container false 81 (List.replicate 16 ({}, .scalar .null 4))
    .container false 165 [({}, sixteen), ({}, sixteen)]
  wellFormed := by
    simp [Node.WellFormed, ChildrenWellFormed, List.replicate, nodes]

/-- Both are read whole, the second with fourteen nodes left. -/
theorem pairOfSixteens_overruns : nodes (previewNode 32 pairOfSixteens.node).1 = 35 := by
  decide +kernel

end RustX.Observation
