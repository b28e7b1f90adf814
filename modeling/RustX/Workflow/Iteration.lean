import RustX.Workflow.Returns

/-!
What an Iteration makes of its rounds, and the contract the compiler gives it. The rounds'
values are joined by what they are when the run is over, and typed by the contract of one
round: the two agree except where that contract is a union.
-/
namespace RustX.Iteration

open Checked Schema

variable {ε : Type}

/-- The rounds settled so far, by index. -/
structure Rounds (ε : Type) where
  produced : List (Nat × Json) := []
  failures : List (Nat × ε) := []

/-- One settled round. `tolerable` says which errors are failures of a round, and not of
the run. -/
def settle (mode : IterationErrorMode) (tolerable : ε → Bool) (rounds : Rounds ε) :
    Nat × Except ε Json → Rounds ε
  | (index, .ok value) => { rounds with produced := Assoc.insert index value rounds.produced }
  | (index, .error error) =>
    if tolerable error then
      match mode with
      | .terminated => { rounds with failures := Assoc.insert index error rounds.failures }
      | .continueOnError => { rounds with produced := Assoc.insert index .null rounds.produced }
      | .removeAbnormalOutput => rounds
    else { rounds with failures := Assoc.insert index error rounds.failures }

def isNull : Json → Bool
  | .null => true
  | _ => false

def isArray : Json → Bool
  | .array _ => true
  | _ => false

def joined : Json → List Json
  | .array items => items
  | .null => []
  | other => [other]

/-- When every round that produced a value produced an array, their items form one array. -/
def flatten (outputs : List Json) (flag : Bool) : List Json :=
  let produced := outputs.filter fun output => !isNull output
  if !flag || produced.isEmpty || !produced.all isArray then outputs
  else outputs.flatMap joined

def result (flag : Bool) (rounds : Rounds ε) : Json :=
  .object [("output", .array (flatten (rounds.produced.map Prod.snd) flag))]

def Kept (produced : Schema) (mode : IterationErrorMode) (value : Json) : Prop :=
  produced.isValid value = true ∨ mode = .continueOnError ∧ value = .null

/-- Every value is one its round produced, or the null of a failed one. -/
theorem settle_keeps {produced : Schema} {rounds : Rounds ε} {round : Nat × Except ε Json}
    (typed : ∀ value, round.2 = .ok value → produced.isValid value = true)
    (kept : ∀ entry ∈ rounds.produced, Kept produced mode entry.2) :
    ∀ entry ∈ (settle mode tolerable rounds round).produced, Kept produced mode entry.2 := by
  have inserted : ∀ value, Kept produced mode value → ∀ index, ∀ entry ∈
      Assoc.insert index value rounds.produced, Kept produced mode entry.2 := by
    intro value allowed index entry member
    obtain rfl | ⟨old, _⟩ := Assoc.mem_insert.mp member
    · exact allowed
    · exact kept entry old
  obtain ⟨index, outcome⟩ := round
  cases outcome with
  | ok value => exact inserted value (.inl (typed value rfl)) index
  | error error =>
    simp only [settle]
    split
    · cases mode with
      | terminated => exact kept
      | continueOnError => exact inserted .null (.inr ⟨rfl, rfl⟩) index
      | removeAbnormalOutput => exact kept
    · exact kept

theorem rounds_kept {produced : Schema} (mode : IterationErrorMode) (tolerable : ε → Bool)
    {settled : List (Nat × Except ε Json)}
    (typed : ∀ round ∈ settled, ∀ value, round.2 = .ok value → produced.isValid value = true)
    {rounds : Rounds ε} (kept : ∀ entry ∈ rounds.produced, Kept produced mode entry.2) :
    ∀ entry ∈ (settled.foldl (settle mode tolerable) rounds).produced,
      Kept produced mode entry.2 := by
  induction settled generalizing rounds with
  | nil => exact kept
  | cons round settled ih =>
    obtain ⟨here, later⟩ := List.forall_mem_cons.mp typed
    exact ih later (settle_keeps here kept)

theorem isValid_record_output (schema : Schema) (elements : List Json) :
    (record [("output", schema)]).isValid (.object [("output", .array elements)]) = true ↔
      schema.isValid (.array elements) = true := by
  rw [record, isValid_closed_iff]
  simp

theorem isValid_anyArray (elements : List Json) :
    (scalar .array).isValid (.array elements) = true := by
  rfl

/-- The contract of an array whose items are open, or typed. -/
theorem isValid_iterationResult (produced : Schema) (mode : IterationErrorMode) (flag : Bool)
    (elements : List Json) :
    (iterationResultSchema produced mode flag).isValid
        (.object [("output", .array elements)]) = true ↔
      (mode ≠ .continueOnError → ∀ item, iterationItem produced flag = some item →
        ∀ element ∈ elements, item.isValid element = true) := by
  rw [iterationResultSchema, isValid_record_output]
  cases known : iterationItem produced flag with
  | none => simp [isValid_anyArray]
  | some item => cases mode <;> simp [isValid_anyArray, isValid_arrayOf_iff]

theorem iterationItem_unflattened (produced : Schema) :
    iterationItem produced false = some produced := by
  cases produced <;> rfl

theorem iterationItem_other (other : schemaType produced ≠ some .array) :
    iterationItem produced true = some produced := by
  cases produced with
  | anyOf alternatives => rfl
  | keywords object =>
    have differs : object.type ≠ .array := fun same => other (congrArg some same)
    simp [iterationItem, differs]

theorem flatten_cases (outputs : List Json) (flag : Bool) :
    flatten outputs flag = outputs ∨ flag = true ∧ flatten outputs flag = outputs.flatMap joined ∧
      ∀ output ∈ outputs, output = .null ∨ ∃ items, output = .array items := by
  simp only [flatten]
  split
  · exact .inl rfl
  rename_i joins
  simp only [Bool.or_eq_true, Bool.not_eq_true', not_or, Bool.not_eq_false, List.all_eq_true,
    List.mem_filter, and_imp] at joins
  refine .inr ⟨joins.1.1, rfl, fun output member => ?_⟩
  cases output with
  | null => exact .inl rfl
  | array items => exact .inr ⟨items, rfl⟩
  | _ => exact absurd (joins.2 _ member rfl) (by simp [isArray])

/-- Instances of an array contract are joined whenever there is one. -/
theorem flatten_arrays {outputs : List Json} (arrays : ∀ output ∈ outputs, ∃ items,
    output = .array items) : flatten outputs true = outputs.flatMap joined := by
  cases outputs with
  | nil => rfl
  | cons first rest =>
    have nulls : ∀ output ∈ first :: rest, isNull output = false ∧ isArray output = true := by
      intro output member
      obtain ⟨items, rfl⟩ := arrays output member
      exact ⟨rfl, rfl⟩
    have all : (first :: rest).filter (fun output => !isNull output) = first :: rest :=
      List.filter_eq_self.mpr fun output member => by simp [(nulls output member).1]
    have each : (first :: rest).all isArray = true :=
      List.all_eq_true.mpr fun output member => (nulls output member).2
    simp only [flatten, all, each]
    rfl

/-- Joined instances of an array contract have its items. -/
theorem flatten_items (array : schemaType produced = some .array)
    (known : iterationItem produced true = some item)
    (valid : ∀ output ∈ outputs, produced.isValid output = true) :
    ∀ element ∈ flatten outputs true, item.isValid element = true := by
  cases produced with
  | anyOf alternatives => cases array
  | keywords object =>
    have type : object.type = .array := Option.some.inj array
    have items : object.items = some item := by simpa [iterationItem, type] using known
    have each : ∀ output ∈ outputs, ∃ elements, output = .array elements ∧
        ∀ element ∈ elements, item.isValid element = true := by
      intro output member
      have admits := (isValid_keywords_iff object output).mp (valid output member)
      cases output with
      | array elements => exact ⟨elements, rfl, admits.items elements item rfl items⟩
      | _ => exact absurd admits.type (by simp [type, SchemaType.admits])
    rw [flatten_arrays fun output member => (each output member).imp fun _ found => found.1]
    intro element member
    obtain ⟨output, listed, inside⟩ := List.mem_flatMap.mp member
    obtain ⟨elements, rfl, typed⟩ := each output listed
    exact typed element inside

/-- The rounds of an Iteration always meet its contract exactly when its items are open, its
rounds are not joined, a round is known to give an array, or no array a round may give has an
item that is not itself an instance of the round's contract. -/
theorem iterationResult_typed_iff (tolerable : ε → Bool) (produced : Schema)
    (mode : IterationErrorMode) (flag : Bool) :
    (∀ settled : List (Nat × Except ε Json),
      (∀ round ∈ settled, ∀ value, round.2 = .ok value → produced.isValid value = true) →
      (settled.foldl (settle mode tolerable) {}).failures = [] →
      (iterationResultSchema produced mode flag).isValid
        (result flag (settled.foldl (settle mode tolerable) {})) = true) ↔
    (mode = .continueOnError ∨ flag = false ∨ schemaType produced = some .array ∨
      ∀ elements, produced.isValid (.array elements) = true →
        ∀ element ∈ elements, produced.isValid element = true) := by
  constructor
  · intro sound
    by_contra refused
    simp only [not_or, Bool.not_eq_false] at refused
    obtain ⟨strict, rfl, other, unlike⟩ := refused
    refine unlike fun elements valid element member => ?_
    -- one round that gives the array has its items joined to the result
    have single := sound [(0, .ok (.array elements))]
      (by simp only [List.mem_singleton]; rintro _ rfl _ ⟨⟩; exact valid) rfl
    rw [show List.foldl (settle mode tolerable) {} [(0, .ok (.array elements))] =
        ⟨[(0, .array elements)], []⟩ from rfl, result, flatten_arrays (by simp),
      isValid_iterationResult] at single
    exact single strict produced (iterationItem_other other) element (by simpa [joined] using member)
  · intro allowed settled typed _
    have kept : ∀ entry ∈ (settled.foldl (settle mode tolerable) {}).produced,
        Kept produced mode entry.2 :=
      rounds_kept mode tolerable typed nofun
    generalize settled.foldl (settle mode tolerable) {} = rounds at kept ⊢
    rw [result, isValid_iterationResult]
    intro strict item known element member
    have valid : ∀ output ∈ rounds.produced.map Prod.snd, produced.isValid output = true := by
      intro output listed
      obtain ⟨entry, held, rfl⟩ := List.mem_map.mp listed
      exact (kept entry held).resolve_right fun failed => strict failed.1
    cases flag with
    | false =>
      rw [iterationItem_unflattened, Option.some.injEq] at known
      exact known ▸ valid element member
    | true =>
      by_cases array : schemaType produced = some .array
      · exact flatten_items array known valid element member
      have closed := (allowed.resolve_left strict).resolve_left nofun |>.resolve_left array
      rw [iterationItem_other array, Option.some.injEq] at known
      subst known
      obtain same | ⟨_, joins, arrays⟩ := flatten_cases (rounds.produced.map Prod.snd) true
      · exact valid element (same ▸ member)
      · rw [joins] at member
        obtain ⟨output, listed, inside⟩ := List.mem_flatMap.mp member
        obtain rfl | ⟨items, rfl⟩ := arrays output listed
        · cases inside
        · exact closed items (valid _ listed) element inside

/-- For every group the first of its lists: the contract of a round is a union with null. -/
def firstBlock : WorkflowBlock where
  input := closed [("groups", arrayOf (arrayOf (arrayOf (scalar .integer))))] ["groups"]
  nodes :=
    [("each", .iteration (.reference ["args", "groups"]) (.reference ["pick", "first_record"])
       false 1 .terminated true
       { input := emptyObjectSchema
         nodes := [("begin", .start), ("pick", .list (.reference ["each", "item"]) none none none none)]
         edges := [⟨"begin", "pick", none⟩] }),
     ("finish", .returns [⟨"first", ["each", "output"]⟩]),
     ("start", .start)]
  edges := [⟨"start", "each", none⟩, ⟨"each", "finish", none⟩]

/-- A round that gives the list of one number: the joined result holds the number, which the
contract of the compiled node does not admit. -/
theorem iterationResult_untyped : letI := FloatText.exact
    letI := Host.bare
    let produced : Schema := .anyOf [arrayOf (scalar .integer), scalar .null]
    let one := Json.array [.number (.int 1)]
    let rounds : Rounds RunError := [(0, .ok one)].foldl (settle .terminated fun _ => true) {}
    (∃ compiled, compileBlock Formula (maxBlockDepth + 1) firstBlock [] 0 none = .ok compiled ∧
      (compiled.program.nodes.lookup "each").bind NodeProgram.valueSchema =
        some (iterationResultSchema produced .terminated true)) ∧
      produced.isValid one = true ∧ rounds.failures = [] ∧
      result true rounds = .object [("output", one)] ∧
      (iterationResultSchema produced .terminated true).isValid (result true rounds) = false := by
  let := FloatText.exact
  let := Host.bare
  intro produced one rounds
  have compiles : (compileBlock Formula (maxBlockDepth + 1) firstBlock [] 0 none).toOption.any
      (fun compiled => (compiled.program.nodes.lookup "each").bind NodeProgram.valueSchema ==
        some (iterationResultSchema produced .terminated true)) = true := by
    decide +kernel
  obtain ⟨compiled, accepted, schema⟩ := (Option.any_eq_true _ _).mp compiles
  refine ⟨⟨compiled, toOption_eq_some_iff.mp accepted, beq_iff_eq.mp schema⟩, ?_⟩
  exact ⟨by decide +kernel, rfl, rfl, by decide +kernel⟩

end RustX.Iteration
