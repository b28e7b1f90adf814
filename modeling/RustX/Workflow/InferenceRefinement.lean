import RustX.Workflow.SchemaInference

/-!
Budgeted inference refines inference without a budget: charges, addresses and
caches decide how far a request gets, never what it answers.
-/
namespace RustX.SchemaInference

open Document Metered Checked SchemaRef

/-- Only a bounded request runs out. -/
def Spent (bounded : Bool) (error : InferenceError) : Prop :=
  error = .budget ∧ bounded = true

theorem Spent.at {bounded : Bool} (path : String) (spent : Spent bounded error) :
    Spent bounded (error.at path) := by
  obtain ⟨rfl, limited⟩ := spent
  exact ⟨rfl, limited⟩

section Charges

variable [FloatText] {env : Environment} {bounded : Bool}

/-- The caches only hold what a lookup without a budget finds. -/
structure Keeps (env : Environment) (bounded : Bool) (state : State) : Prop where
  bounded : state.budget.bounded = bounded
  references : ∀ path known, state.references path = some known →
    known = (Document.referenceSchema path env.declarations env.node).toOption.map
      fun schema => (env.memory.locate path, schema)

theorem Keeps.new (env : Environment) (budget : SchemaBudget) :
    Keeps env budget.bounded (State.new budget) :=
  ⟨rfl, by simp [State.new]⟩

/-- A step that costs and answers nothing. -/
abbrev Costs (env : Environment) (bounded : Bool) {α : Type} (x : Inferring α) : Prop :=
  Charges (Keeps env bounded) (Spent bounded) (fun _ => True) x

theorem take_costs (allocation work steps : Nat) :
    Costs env bounded (take allocation work steps) := by
  refine charges_get.bind fun state kept => ?_
  split
  · next limited =>
      split
      · exact (charges_set ⟨kept.bounded, kept.references⟩).bind fun _ _ =>
          charges_throw ⟨rfl, kept.bounded ▸ limited⟩
      · exact charges_set ⟨kept.bounded, kept.references⟩
  · exact charges_pure trivial

theorem whenBounded_costs (costs : Costs env bounded x) : Costs env bounded (whenBounded x) := by
  refine charges_get.bind fun state _ => ?_
  split
  · exact costs
  · exact charges_pure trivial

mutual

theorem measure_costs (document : Json) : Costs env bounded (measure document) := by
  cases document with
  | array values =>
    exact whenBounded_costs ((take_costs _ _ _).bind fun _ _ =>
      (measureItems_costs _ values).bind fun _ _ =>
      (take_costs _ _ _).bind fun _ _ => charges_pure trivial)
  | object fields =>
    exact whenBounded_costs ((take_costs _ _ _).bind fun _ _ =>
      (measureFields_costs _ fields).bind fun _ _ =>
      (take_costs _ _ _).bind fun _ _ => charges_pure trivial)
  | _ =>
    exact whenBounded_costs ((take_costs _ _ _).bind fun _ _ =>
      (take_costs _ _ _).bind fun _ _ => charges_pure trivial)

theorem measureItems_costs (weight : Nat) (values : List Json) :
    Costs env bounded (measureItems weight values) := by
  cases values with
  | nil => exact charges_pure trivial
  | cons value values =>
    exact (measure_costs value).bind fun _ _ => measureItems_costs _ values

theorem measureFields_costs (weight : Nat) (fields : List (String × Json)) :
    Costs env bounded (measureFields weight fields) := by
  cases fields with
  | nil => exact charges_pure trivial
  | cons field fields =>
    obtain ⟨key, value⟩ := field
    exact (measure_costs value).bind fun _ _ => measureFields_costs _ fields

end

mutual

theorem valueNodes_costs (document : Json) : Costs env bounded (valueNodes document) := by
  cases document with
  | array items => exact (take_costs _ _ _).bind fun _ _ => valueNodesItems_costs _ items
  | object fields => exact (take_costs _ _ _).bind fun _ _ => valueNodesFields_costs _ fields
  | _ => exact (take_costs _ _ _).bind fun _ _ => charges_pure trivial

theorem valueNodesItems_costs (nodes : Nat) (items : List Json) :
    Costs env bounded (valueNodesItems nodes items) := by
  cases items with
  | nil => exact charges_pure trivial
  | cons item items =>
    exact (valueNodes_costs item).bind fun _ _ => valueNodesItems_costs _ items

theorem valueNodesFields_costs (nodes : Nat) (fields : List (String × Json)) :
    Costs env bounded (valueNodesFields nodes fields) := by
  cases fields with
  | nil => exact charges_pure trivial
  | cons field fields =>
    obtain ⟨key, value⟩ := field
    exact (valueNodes_costs value).bind fun _ _ => valueNodesFields_costs _ fields

end

theorem admitProof_costs (actual expected : Json) (step : SchemaProofStep) :
    Costs env bounded (admitProof actual expected step) := by
  refine (measure_costs actual).bind fun _ _ => (measure_costs expected).bind fun _ _ => ?_
  cases step with
  | compileValidator => exact take_costs _ _ _
  | validateValue => exact (valueNodes_costs actual).bind fun _ _ => take_costs _ _ _
  | structure_ => exact take_costs _ _ _

end Charges

section Proofs

variable {σ ε : Type} {keeps : σ → Prop} {spent : ε → Prop}

abbrev Same (keeps : σ → Prop) (spent : ε → Prop) (x : Metered σ ε Bool)
    (plain : Except Empty Bool) : Prop :=
  Refines keeps spent Eq x plain

/-- A tested answer decides how both sides go on. -/
theorem Same.test (first : Same keeps spent x plain) (accept : Same keeps spent accepted accepts)
    (refuse : Same keeps spent refused refuses) :
    Same keeps spent (do if ← x then accepted else refused)
      (do if ← plain then accepts else refuses) := by
  refine first.bind ?_
  rintro answer _ rfl
  cases answer with
  | false => exact refuse
  | true => exact accept

section

set_option linter.unusedSectionVars false

variable {allow : Json → Json → SchemaProofStep → Metered σ ε Unit} (admits : ∀ actual expected
  step, Charges keeps spent (fun _ => True) (allow actual expected step))
include admits

theorem validValues_same (expected : Json) (isValid : Json → Bool) (values : List Json) :
    Same keeps spent (validValues allow expected isValid values)
      (validValues unlimited expected isValid values) := by
  induction values with
  | nil => exact refines_pure rfl
  | cons value values ih =>
    refine (admits value expected .validateValue).step fun _ _ => ?_
    show Same keeps spent (if isValid value then _ else _) (if isValid value then _ else _)
    split
    · exact ih
    · exact refines_pure rfl

mutual

theorem schemasCompatibleWith_same (actual expected : Json) :
    Same keeps spent (schemasCompatibleWith validator allow actual expected)
      (schemasCompatibleWith validator unlimited actual expected) := by
  unfold schemasCompatibleWith
  refine (admits actual expected .structure_).step fun _ _ => ?_
  split
  · exact refines_pure rfl
  · refine (admits actual expected .compileValidator).step fun _ _ => ?_
    split
    · exact refines_pure rfl
    · exact validValues_same admits expected _ _
  · split
    · exact refines_pure rfl
    · next first rest union =>
        have smaller := sizeOf_alternatives_lt union
        exact alternativesCompatible_same (first :: rest) expected
    · split
      · next alternatives union =>
          have smaller := sizeOf_alternatives_lt union
          exact compatibleAlternative_same actual alternatives
      split
      · split
        · split
          · have smaller := sizeOf_properties_le expected
            exact (propertiesCompatible_same actual (properties expected)).test
              (refines_pure rfl) (refines_pure rfl)
          · exact refines_pure rfl
        · split
          · split
            · next actualItems expectedItems actualFound expectedFound =>
                have actualSmaller := sizeOf_get_lt actualFound
                have expectedSmaller := sizeOf_get_lt expectedFound
                exact schemasCompatibleWith_same actualItems expectedItems
            · exact refines_pure rfl
            · exact refines_pure rfl
          · exact refines_pure rfl
      · exact refines_pure rfl
termination_by 2 * (sizeOf actual + sizeOf expected) + 1
decreasing_by all_goals omega

theorem alternativesCompatible_same (alternatives : List Json) (expected : Json) :
    Same keeps spent (alternativesCompatible validator allow alternatives expected)
      (alternativesCompatible validator unlimited alternatives expected) := by
  cases alternatives with
  | nil =>
    unfold alternativesCompatible
    exact refines_pure rfl
  | cons actual rest =>
    unfold alternativesCompatible
    exact (schemasCompatibleWith_same actual expected).test
      (alternativesCompatible_same rest expected) (refines_pure rfl)
termination_by 2 * (sizeOf alternatives + sizeOf expected)

theorem compatibleAlternative_same (actual : Json) (alternatives : List Json) :
    Same keeps spent (compatibleAlternative validator allow actual alternatives)
      (compatibleAlternative validator unlimited actual alternatives) := by
  cases alternatives with
  | nil =>
    unfold compatibleAlternative
    exact refines_pure rfl
  | cons expected rest =>
    unfold compatibleAlternative
    exact (schemasCompatibleWith_same actual expected).test (refines_pure rfl)
      (compatibleAlternative_same actual rest)
termination_by 2 * (sizeOf actual + sizeOf alternatives)

theorem propertiesCompatible_same (actual : Json) (expected : List (String × Json)) :
    Same keeps spent (propertiesCompatible validator allow actual expected)
      (propertiesCompatible validator unlimited actual expected) := by
  cases expected with
  | nil =>
    unfold propertiesCompatible
    exact refines_pure rfl
  | cons property rest =>
    obtain ⟨key, expectedProperty⟩ := property
    unfold propertiesCompatible
    split
    · next actualProperty found =>
        have declared := sizeOf_property_lt found
        have held := sizeOf_properties_le actual
        exact (schemasCompatibleWith_same actualProperty expectedProperty).test
          (propertiesCompatible_same actual rest) (refines_pure rfl)
    · split
      · exact propertiesCompatible_same actual rest
      · exact refines_pure rfl
termination_by 2 * (sizeOf actual + sizeOf expected)
decreasing_by all_goals simp only [List.cons.sizeOf_spec, Prod.mk.sizeOf_spec]; omega

end

end

end Proofs

def appendNew (known : List Json) : List Json → List Json
  | [] => known
  | document :: documents =>
    if document ∈ known then appendNew known documents
    else appendNew (known ++ [document]) documents

theorem eraseDups_loop (known documents : List Json) :
    List.eraseDupsBy.loop (· == ·) documents known.reverse = appendNew known documents := by
  induction documents generalizing known with
  | nil => simp [List.eraseDupsBy.loop, appendNew]
  | cons document documents ih =>
    have scanned : (known.reverse.any fun other => document == other) =
        decide (document ∈ known) := by
      rw [Bool.eq_iff_iff]
      simp
    rw [List.eraseDupsBy.loop, appendNew, scanned]
    by_cases member : document ∈ known
    · simp [member, ih]
    · simpa [member] using ih (known ++ [document])

theorem appendNew_nil (documents : List Json) : appendNew [] documents = documents.eraseDups :=
  (eraseDups_loop [] documents).symm

section Steps

variable [FloatText] {env : Environment} {bounded : Bool}

/-- One step of inference beside the same step without a budget. -/
abbrev Follows (env : Environment) (bounded : Bool) {α β : Type} (related : α → β → Prop)
    (x : Inferring α) (plain : Except CompileError β) : Prop :=
  Refines (Keeps env bounded) (Spent bounded) related x plain

abbrev Answers (env : Environment) (bounded : Bool) {α : Type} (post : α → Prop)
    (x : Inferring α) : Prop :=
  Charges (Keeps env bounded) (Spent bounded) post x

theorem compatible_answers (actual expected : Json) :
    Answers env bounded (· = Document.schemasCompatible env.validator actual expected)
      (compatible env actual expected) := by
  have admits : ∀ actual expected step, Costs env bounded (admitProof actual expected step) :=
    admitProof_costs
  have same : Same (Keeps env bounded) (Spent bounded) (compatible env actual expected) _ :=
    schemasCompatibleWith_same admits actual expected
  rw [schemasCompatibleWith_unlimited] at same
  exact same.charges

theorem requiresField_follows (key : String) (fields : List Json) :
    Follows env bounded Eq (requiresField (fun work => take 0 work 1) key fields)
      (requiresField (fun _ => .ok ()) key fields) := by
  induction fields with
  | nil => exact refines_pure rfl
  | cons field fields ih =>
    refine (take_costs _ _ _).step fun _ _ => ?_
    show Follows env bounded Eq (if field.asStr = some key then _ else _)
      (if field.asStr = some key then _ else _)
    split
    · exact refines_pure rfl
    · exact ih

theorem referenceMembers_follows (path : List String) (node : String) (schema : Json)
    (keys : List String) :
    Follows env bounded Eq
      (Document.referenceMembers path node (fun work => take 0 work 1) refuse schema keys)
      (Document.referenceMembers path node (fun _ => .ok ()) .error schema keys) := by
  induction keys generalizing schema with
  | nil =>
    unfold Document.referenceMembers
    split
    · exact refines_throw _ _
    · exact refines_pure rfl
  | cons key keys ih =>
    refine (take_costs _ _ _).step fun _ _ => ?_
    refine (requiresField_follows key _).bind ?_
    rintro required _ rfl
    split
    · split
      · exact ih _
      · exact refines_throw _ _
    · exact refines_throw _ _

theorem referenceSchemaWith_follows (path : List String) : Follows env bounded Eq
      (referenceSchemaWith path env.declarations env.node (fun work => take 0 work 1) refuse)
      (Document.referenceSchema path env.declarations env.node) := by
  refine (take_costs _ _ _).step fun _ _ => ?_
  cases path with
  | nil => exact refines_throw _ _
  | cons producer fields =>
    unfold Document.referenceSchema referenceSchemaWith
    dsimp only
    split
    · exact refines_throw _ _
    · split
      · next schema found => exact referenceMembers_follows _ _ schema fields
      · exact refines_throw _ _

theorem remember_costs
    (sound : known = (Document.referenceSchema path env.declarations env.node).toOption.map
      fun schema => (env.memory.locate path, schema)) :
    Costs env bounded (remember path known) := by
  refine charges_modify fun state kept => ⟨kept.bounded, fun other entry found => ?_⟩
  simp only [Function.update_apply] at found
  split at found
  · next same =>
      cases found
      exact same ▸ sound
  · exact kept.references other entry found

theorem resolve_follows (path : List String) :
    Follows env bounded (fun located schema => located = (env.memory.locate path, schema))
      (resolve env path) (Document.referenceSchema path env.declarations env.node) := by
  have lookup : Follows env bounded Eq _ _ := referenceSchemaWith_follows path
  have free : ∀ work, Costs env bounded (take 0 work 1) := fun work => take_costs 0 work 1
  refine charges_get.step fun state kept => ?_
  split
  · next known found =>
      have sound := kept.references path known found
      refine (free _).attempt.step fun _ _ => ?_
      cases plain : Document.referenceSchema path env.declarations env.node with
      | ok schema =>
        rw [plain] at sound
        subst sound
        exact refines_pure rfl
      | error error =>
        rw [plain] at sound
        subst sound
        exact refines_throw _ _
  · refine (free _).step fun _ _ => (take_costs _ _ _).step fun _ _ => ?_
    refine lookup.attempt.step fun result outcome => ?_
    generalize plain : Document.referenceSchema path env.declarations env.node = answer at outcome
    cases outcome with
    | stopped _ exhausted =>
      obtain ⟨rfl, limited⟩ := exhausted
      exact refines_stop ⟨rfl, limited⟩ _
    | ok same =>
      subst same
      exact (remember_costs (by rw [plain]; rfl)).step fun _ _ => refines_pure rfl
    | refused error refusal =>
      have missing : Costs env bounded (remember path none) := remember_costs (by rw [plain]; rfl)
      cases error with
      | budget => exact refines_throw _ _
      | unavailable => exact missing.step fun _ _ => refines_throw _ _
      | invalid error => exact missing.step fun _ _ => refines_throw _ _

/-- Where the schema of an expression may lie: in a declaration, or in an allocation
apart from everything that is held. -/
inductive Placed (env : Environment) (held : List Nat) : SchemaRef → Prop
  | borrowed {path : List String} {schema : Json} (weight : Nat) :
    Document.referenceSchema path env.declarations env.node = .ok schema →
    Placed env held (.borrowed (env.memory.locate path) schema weight)
  | derived {address : Nat} (value : Json) (weight : Nat) :
    address ∉ held → (∀ path, address ≠ env.memory.locate path) →
    Placed env held (.derived address value weight)

/-- Schemas that are held together: one address, one document. -/
structure Coherent (env : Environment) (schemas : List SchemaRef) : Prop where
  placed : ∀ schema ∈ schemas, Placed env [] schema
  agree : ∀ schema ∈ schemas, ∀ other ∈ schemas,
    schema.identity = other.identity → schema.value = other.value

variable {schema : SchemaRef}

theorem Placed.mono (placed : Placed env held schema) (subset : fewer ⊆ held) :
    Placed env fewer schema := by
  cases placed with
  | borrowed weight found => exact .borrowed weight found
  | derived value weight fresh apart =>
    exact .derived value weight (fun member => fresh (subset member)) apart

theorem Placed.agrees {schemas : List SchemaRef}
    (placed : Placed env (schemas.map identity ++ held) schema) (member : other ∈ schemas)
    (known : Placed env [] other) (same : schema.identity = other.identity) :
    schema.value = other.value := by
  cases placed with
  | borrowed weight found =>
    cases known with
    | borrowed otherWeight otherFound =>
      have path := env.memory.locate_injective same
      subst path
      exact Except.ok.inj (found.symm.trans otherFound)
    | derived value weight _ apart => exact absurd same.symm (apart _)
  | derived value weight fresh apart =>
    refine absurd (List.mem_append_left held (List.mem_map.mpr ⟨other, member, ?_⟩)) fresh
    exact same.symm

theorem Coherent.nil : Coherent env [] :=
  ⟨by simp, by simp⟩

theorem Coherent.snoc (coherent : Coherent env schemas)
    (placed : Placed env (schemas.map identity ++ held) schema) :
    Coherent env (schemas ++ [schema]) := by
  refine ⟨fun one member => ?_, fun one first other second same => ?_⟩
  · rcases List.mem_append.mp member with member | member
    · exact coherent.placed one member
    · exact List.mem_singleton.mp member ▸ placed.mono (List.nil_subset _)
  · simp only [List.mem_append, List.mem_singleton] at first second
    rcases first with first | rfl <;> rcases second with second | rfl
    · exact coherent.agree one first other second same
    · exact (placed.agrees first (coherent.placed one first) same.symm).symm
    · exact placed.agrees second (coherent.placed other second) same
    · rfl

def Holds (env : Environment) (held : List Nat) (schema : SchemaRef) (document : Json) : Prop :=
  schema.value = document ∧ Placed env held schema

theorem Holds.release (holds : Holds env (children ++ held) schema document) :
    Holds env held schema document :=
  ⟨holds.1, holds.2.mono (List.subset_append_right children held)⟩

theorem borrowed_answers {schema : Json} (held : List Nat)
    (found : Document.referenceSchema path env.declarations env.node = .ok schema) :
    Answers env bounded (Holds env held · schema) (borrowed (env.memory.locate path, schema)) := by
  refine charges_get.bind fun state _ => ?_
  split
  · split
    · exact charges_pure ⟨rfl, .borrowed _ found⟩
    · refine (measure_costs schema).bind fun weight _ => (take_costs _ _ _).bind fun _ _ => ?_
      refine (charges_modify fun state kept => ?_).bind fun _ _ =>
        charges_pure ⟨rfl, .borrowed _ found⟩
      exact ⟨kept.bounded, kept.references⟩
  · exact charges_pure ⟨rfl, .borrowed _ found⟩

theorem derived_answers (held : List Nat) (weight : Nat) (value : Json) :
    Answers env bounded (Holds env held · value) (derived env held weight value) := by
  refine (take_costs _ _ _).bind fun _ _ => charges_get.bind fun state kept => ?_
  have counted : Keeps env bounded { state with allocations := state.allocations + 1 } :=
    ⟨kept.bounded, kept.references⟩
  refine (charges_set counted).bind fun _ _ => ?_
  exact charges_pure ⟨rfl, .derived value weight (env.memory.allocate_fresh _ _)
    (env.memory.allocate_apart _ _)⟩

theorem writePieces_follows (bytes : Nat) (pieces : List Nat) (fits : bytes ≤ maxValueBytes) :
    Follows env bounded (fun _ _ => True) (writePieces bytes pieces)
      (require (decide (bytes + pieces.sum ≤ maxValueBytes))
        (invalid "construction depth/byte bound exceeded")) := by
  induction pieces generalizing bytes with
  | nil =>
    rw [require, if_pos (decide_eq_true (by simpa using fits))]
    exact refines_pure trivial
  | cons piece pieces ih =>
    have small : maxValueBytes < 2 ^ 64 - 1 := by decide
    have total : bytes + (piece :: pieces).sum = bytes + piece + pieces.sum := by
      rw [List.sum_cons, Nat.add_assoc]
    rw [total]
    refine (take_costs _ _ _).step fun _ _ => ?_
    split
    · next large =>
        have beyond : ¬ bytes + piece + pieces.sum ≤ maxValueBytes := by
          simp only [saturating] at large
          omega
        rw [require, if_neg (by simpa using beyond)]
        exact refines_throw _ _
    · next within =>
        have unchanged : saturating (bytes + piece) = bytes + piece := by
          simp only [saturating] at within ⊢
          omega
        rw [unchanged] at within ⊢
        exact ih _ (Nat.le_of_not_lt within)

theorem checkExpression_follows (expression : WorkflowValue) (depth : Nat) :
    Follows env bounded (fun _ _ => True) (checkExpression env expression depth)
      (checkSize expression.toJson depth) := by
  refine (take_costs _ _ _).step fun _ _ => ?_
  have written : Follows env bounded _ _ _ :=
    writePieces_follows 0 (env.serializer.pieces expression) (Nat.zero_le _)
  rw [Nat.zero_add, env.serializer.pieces_sum] at written
  unfold checkSize
  split
  · next deep =>
      rw [require, if_neg (by simp; omega)]
      exact refines_throw _ _
  · next shallow =>
      have within : decide (depth ≤ maxValueDepth) = true := by simpa using shallow
      rw [within, Bool.true_and]
      exact written

theorem templatePart_follows (part : WorkflowValue) :
    Follows env bounded (fun _ _ => True) (templatePart env part)
      (Document.checkPart env.declarations env.node part) := by
  cases part with
  | reference path => exact (resolve_follows path).bind fun _ _ _ => refines_pure trivial
  | literal value =>
    cases value with
    | string text => exact refines_pure trivial
    | _ => exact refines_throw _ _
  | _ => exact refines_throw _ _

theorem templateParts_follows (index : Nat) (parts : List WorkflowValue) :
    Follows env bounded (fun _ _ => True) (templateParts env index parts)
      (Document.checkParts env.declarations env.node index parts) := by
  induction parts generalizing index with
  | nil => exact refines_pure trivial
  | cons part parts ih =>
    have checked : Follows env bounded (fun _ _ => True)
        (ExceptT.adapt (InferenceError.at s!"parts.{index}") (templatePart env part))
        ((Document.checkPart env.declarations env.node part).mapError
          (CompileError.under s!"parts.{index}")) :=
      (templatePart_follows part).adapt fun _ => Spent.at _
    exact checked.bind fun _ _ _ => ih _

theorem template_follows (held : List Nat) (parts : List WorkflowValue) :
    Follows env bounded (Holds env held) (template env held parts) (do
      require (decide (parts.length ≤ maxModelMessageParts))
        (invalid "template exceeds its part bound")
      Document.checkParts env.declarations env.node 0 parts
      .ok (.object [("type", .string "string")])) := by
  unfold template
  split
  · next many =>
      rw [require, if_neg (by simpa using many)]
      exact refines_throw _ _
  · next few =>
      rw [require, if_pos (by simpa using few)]
      exact (templateParts_follows 0 parts).bind fun _ _ _ =>
        (derived_answers held _ _).refines fun _ holds => holds

theorem distinctSchemas_answers (coherent : Coherent env all) {distinct : List SchemaRef}
    (schemas : List SchemaRef) (within : ∀ schema ∈ schemas, schema ∈ all)
    (noted : ∀ address ∈ seen, ∃ schema ∈ all,
      schema.identity = address ∧ schema.value ∈ distinct.map value) :
    Answers env bounded
      (fun result => result.map value = appendNew (distinct.map value) (schemas.map value))
      (distinctSchemas seen distinct schemas) := by
  induction schemas generalizing seen distinct with
  | nil => exact charges_pure rfl
  | cons schema schemas ih =>
    have member := within schema (List.mem_cons_self ..)
    have later : ∀ one ∈ schemas, one ∈ all := fun one rest =>
      within one (List.mem_cons_of_mem _ rest)
    rw [List.map_cons, appendNew, distinctSchemas]
    by_cases repeated : schema.identity ∈ seen
    · obtain ⟨other, listed, same, known⟩ := noted _ repeated
      rw [coherent.agree other listed schema member same] at known
      rw [if_pos repeated, if_pos known]
      exact ih later noted
    · rw [if_neg repeated]
      refine (take_costs _ _ _).bind fun _ _ => ?_
      split
      · next known =>
          refine ih later fun address found => ?_
          rcases List.mem_cons.mp found with rfl | found
          · exact ⟨schema, member, rfl, known⟩
          · exact noted address found
      · next fresh =>
          have extended : (distinct ++ [schema]).map value =
              distinct.map value ++ [schema.value] := by simp
          rw [← extended]
          refine ih later fun address found => ?_
          rcases List.mem_cons.mp found with rfl | found
          · exact ⟨schema, member, rfl, by simp⟩
          · obtain ⟨other, listed, same, known⟩ := noted address found
            exact ⟨other, listed, same, extended ▸ List.mem_append_left _ known⟩

theorem isDuplicate_answers (value : Json) (values : List Json) :
    Answers env bounded (· = decide (value ∈ values)) (isDuplicate value values) := by
  induction values with
  | nil => exact charges_pure (by simp)
  | cons prior values ih =>
    refine (measure_costs _).bind fun _ _ => (measure_costs _).bind fun _ _ =>
      (take_costs _ _ _).bind fun _ _ => ?_
    split
    · next same => exact charges_pure (by simp [same])
    · next different => simpa [different] using ih

theorem finiteValues_follows (first : Option String) (values : List Json)
    (schemas : List SchemaRef) :
    Follows env bounded Eq (finiteValues first values schemas) (do
      require ((schemas.map value).all fun schema => schemaType schema == first)
        (invalid "constructed arrays require one element type")
      .ok (appendNew values ((schemas.map value).map constantOf))) := by
  induction schemas generalizing values with
  | nil => exact refines_pure rfl
  | cons schema schemas ih =>
    unfold finiteValues
    split
    · next other =>
        rw [require, if_neg (by simp [other])]
        exact refines_throw _ _
    · next same =>
        have alike : schemaType schema.value = first := not_not.mp same
        have plain : ((schema :: schemas).map value).all
            (fun document => schemaType document == first) =
            (schemas.map value).all fun document => schemaType document == first := by
          simp [alike]
        rw [plain, List.map_cons, List.map_cons, appendNew]
        refine (isDuplicate_answers _ values).step fun duplicate known => ?_
        subst known
        by_cases member : constantOf schema.value ∈ values
        · rw [if_pos (decide_eq_true member), if_pos member]
          exact ih values
        · rw [if_neg (by simpa using member), if_neg member]
          exact ih _

theorem admitsAll_answers (candidate : SchemaRef) (schemas : List SchemaRef) : Answers env bounded
      (· = (schemas.map value).all fun actual =>
        Document.schemasCompatible env.validator actual candidate.value)
      (admitsAll env candidate schemas) := by
  induction schemas with
  | nil => exact charges_pure rfl
  | cons actual schemas ih =>
    refine (compatible_answers _ _).bind fun answer known => ?_
    rw [List.map_cons, List.all_cons, ← known]
    cases answer with
    | true => simpa using ih
    | false => exact charges_pure rfl

theorem commonContract_follows (schemas candidates : List SchemaRef) :
    Follows env bounded (fun schema document => schema ∈ candidates ∧ schema.value = document)
      (commonContract env schemas candidates)
      (Document.commonContract env.validator (schemas.map value) (candidates.map value)) := by
  induction candidates with
  | nil => exact refines_throw _ _
  | cons candidate candidates ih =>
    refine (admitsAll_answers candidate schemas).step fun answer known => ?_
    unfold Document.commonContract at ih ⊢
    rw [List.map_cons, List.find?_cons, ← known]
    cases answer with
    | true => exact refines_pure ⟨List.mem_cons_self .., rfl⟩
    | false => exact ih.mono fun schema document found => ⟨List.mem_cons_of_mem _ found.1, found.2⟩

inductive ElementHolds : Document.Element SchemaRef → Document.Element Json → Prop
  | empty : ElementHolds .empty .empty
  | finite (kind : Json) (values : List Json) : ElementHolds (.finite kind values) (.finite kind values)
  | contract (schema : SchemaRef) : ElementHolds (.contract schema) (.contract schema.value)

theorem element_follows (coherent : Coherent env schemas) :
    Follows env bounded ElementHolds (element env schemas)
      (Document.element env.validator (schemas.map value)) := by
  refine (take_costs _ _ _).step fun _ _ => ?_
  refine (distinctSchemas_answers coherent schemas (fun _ member => member) (by simp)).step
    fun distinct documents => ?_
  rw [List.map_nil, appendNew_nil] at documents
  unfold Document.element
  rw [← documents]
  cases distinct with
  | nil => exact refines_pure .empty
  | cons first rest =>
    have constants : (first :: rest).all (fun schema => (schema.value.get "const").isSome) =
        ((first :: rest).map value).all fun document => (document.get "const").isSome := by
      rw [List.all_map]
      rfl
    simp only [constants]
    simp only [List.map_cons]
    split
    · have finite : Follows env bounded Eq _ _ :=
        finiteValues_follows (schemaType first.value) [] (first :: rest)
      rw [appendNew_nil] at finite
      refine finite.bind ?_
      rintro values _ rfl
      exact refines_pure (.finite _ values)
    · refine (commonContract_follows _ _).bind ?_
      rintro schema _ ⟨_, rfl⟩
      exact refines_pure (.contract schema)

theorem arraySchema_follows (held : List Nat) {element : Document.Element SchemaRef}
    (holds : ElementHolds element plain) :
    Answers env bounded (Holds env held · plain.schema) (arraySchema env held element) := by
  cases holds with
  | empty => exact derived_answers held _ _
  | contract schema => exact derived_answers held _ _
  | finite kind values =>
    exact (measureItems_costs _ values).bind fun weight _ => derived_answers held weight _

mutual

theorem infer_follows (held : List Nat) (depth : Nat) (expression : WorkflowValue) :
    Follows env bounded (Holds env held) (infer env held depth expression)
      (Document.infer env.validator env.declarations env.node depth expression) := by
  cases expression with
  | reference path =>
    refine (checkExpression_follows _ depth).bind fun _ _ _ => ?_
    rw [← bind_pure (Document.referenceSchema path env.declarations env.node)]
    refine (resolve_follows path).result.bind ?_
    rintro _ schema ⟨rfl, found⟩
    exact (borrowed_answers held found).refines fun _ holds => holds
  | literal value =>
    refine (checkExpression_follows _ depth).bind fun _ _ _ => ?_
    split
    · next deep =>
        rw [require, if_neg (by simpa using deep)]
        exact refines_throw _ _
    · next shallow =>
        rw [require, if_pos (by simpa using shallow)]
        exact (measure_costs value).step fun weight _ =>
          (derived_answers held _ _).refines fun _ holds => holds
  | object fields =>
    refine (checkExpression_follows _ depth).bind fun _ _ _ => (take_costs _ _ _).step fun _ _ => ?_
    refine (inferFields_follows held depth [] 1024 fields).bind ?_
    rintro ⟨children, weight⟩ properties rfl
    exact (derived_answers _ _ _).refines fun _ holds => holds.release
  | array items =>
    refine (checkExpression_follows _ depth).bind fun _ _ _ => (take_costs _ _ _).step fun _ _ => ?_
    refine (inferItems_follows held depth 0 .nil items).bind ?_
    rintro schemas _ ⟨rfl, coherent⟩
    refine (element_follows coherent).bind fun element plain holds => ?_
    exact (arraySchema_follows _ holds).refines fun _ holds => holds.release
  | template parts =>
    refine (checkExpression_follows _ depth).bind fun _ _ _ => ?_
    exact template_follows held parts

theorem inferFields_follows (held : List Nat) (depth : Nat) (children : List (String × SchemaRef))
    (weight : Nat) (fields : List (String × WorkflowValue)) :
    Follows env bounded
      (fun result properties => properties =
        result.1.foldl (fun properties child => Assoc.insert child.1 child.2.value properties) [])
      (inferFields env held depth children weight fields)
      (Document.inferFields env.validator env.declarations env.node depth
        (children.foldl (fun properties child => Assoc.insert child.1 child.2.value properties) [])
        fields) := by
  cases fields with
  | nil => exact refines_pure rfl
  | cons field fields =>
    obtain ⟨key, value⟩ := field
    rw [inferFields, Document.inferFields]
    split
    · next refused =>
        rw [require, if_neg (by simpa [or_iff_not_imp_left] using refused)]
        exact refines_throw _ _
    · next accepted =>
        rw [require, if_pos (by simpa using accepted)]
        refine ((infer_follows _ (depth + 1) value).adapt fun _ => Spent.at _).bind ?_
        rintro schema _ ⟨rfl, placed⟩
        have next := inferFields_follows held depth (children ++ [(key, schema)])
          (saturating (saturating (weight + schema.weight) + (256 + key.utf8ByteSize * 12))) fields
        rwa [List.foldl_append] at next

theorem inferItems_follows (held : List Nat) (depth index : Nat) (coherent : Coherent env schemas)
    (items : List WorkflowValue) :
    Follows env bounded
      (fun result documents => result.map value = schemas.map value ++ documents ∧
        Coherent env result) (inferItems env held depth index schemas items)
      (Document.inferItems env.validator env.declarations env.node depth index items) := by
  cases items with
  | nil => exact refines_pure ⟨by simp, coherent⟩
  | cons item items =>
    rw [inferItems, Document.inferItems]
    refine ((infer_follows _ (depth + 1) item).adapt fun _ => Spent.at _).bind ?_
    rintro schema _ ⟨rfl, placed⟩
    refine (inferItems_follows held depth (index + 1) (coherent.snoc placed) items).map ?_
    rintro result documents ⟨values, later⟩
    exact ⟨by simpa using values, later⟩

end

end Steps

inductive Within {α : Type} (bounded : Bool) : Except InferenceError α → Except CompileError α → Prop
  | same (result : α) : Within bounded (.ok result) (.ok result)
  | refused (error : InferenceError) (refusal : CompileError) :
    Within bounded (.error error) (.error refusal)
  | exhausted (unlimited : Except CompileError α) : bounded = true →
    Within bounded (.error .budget) unlimited

theorem within_of_outcome {bounded : Bool} {α β : Type} {related : α → β → Prop} {view : α → β}
    {result : Except InferenceError α} {plain : Except CompileError β}
    (outcome : Outcome (Spent bounded) related result plain)
    (viewed : ∀ a b, related a b → view a = b) : Within bounded (result.map view) plain := by
  cases outcome with
  | ok holds =>
    rw [← viewed _ _ holds]
    exact .same _
  | refused error refusal => exact .refused error refusal
  | stopped _ spent =>
    obtain ⟨rfl, limited⟩ := spent
    exact .exhausted _ limited

section Requests

variable [FloatText] (env : Environment)

/-- A request to one inference: the schema of an expression while some addresses are
in use, the declaration a path names, or a compatibility proof. -/
inductive Query
  | infer (held : List Nat) (expression : WorkflowValue) (depth : Nat)
  | resolve (path : List String)
  | compatible (actual expected : Json)

inductive Answer
  | schema (result : Except InferenceError Json)
  | verdict (result : Except InferenceError Bool)

def ask (state : State) : Query → Answer × State
  | .infer held expression depth =>
    let (result, after) := infer env held depth expression state
    (.schema (result.map value), after)
  | .resolve path =>
    let (result, after) := resolve env path state
    (.schema (result.map Prod.snd), after)
  | .compatible actual expected =>
    let (result, after) := compatible env actual expected state
    (.verdict result, after)

/-- The requests of one authoring call share budget and caches. -/
def serve (state : State) : List Query → List Answer
  | [] => []
  | query :: queries =>
    let (answer, after) := ask env state query
    answer :: serve after queries

/-- The answer that an inference with an unlimited budget gives, or an exhaustion. -/
def Agrees (bounded : Bool) : Query → Answer → Prop
  | .infer _ expression depth, .schema result =>
    Within bounded result (valueSchema env expression depth)
  | .resolve path, .schema result =>
    Within bounded result (Document.referenceSchema path env.declarations env.node)
  | .compatible actual expected, .verdict result =>
    Within bounded result (.ok (Document.schemasCompatible env.validator actual expected))
  | _, _ => False

variable {env}

/-- The unlimited run and inference without a budget refuse the same expressions and
find the same schemas. -/
theorem valueSchema_within (env : Environment) (expression : WorkflowValue) (depth : Nat) :
    (∃ schema, Document.infer env.validator env.declarations env.node depth expression = .ok schema ∧
      valueSchema env expression depth = .ok schema) ∨
    (∃ refusal error,
      Document.infer env.validator env.declarations env.node depth expression = .error refusal ∧
      valueSchema env expression depth = .error error) := by
  obtain ⟨outcome, _⟩ := infer_follows [] depth expression _ (Keeps.new env .unlimited)
  unfold valueSchema
  revert outcome
  generalize (infer env [] depth expression (State.new .unlimited)).1 = result
  intro outcome
  generalize Document.infer env.validator env.declarations env.node depth expression = plain at outcome
  cases outcome with
  | ok holds => exact .inl ⟨_, rfl, congrArg _ holds.1⟩
  | refused error refusal => exact .inr ⟨refusal, _, rfl, rfl⟩
  | stopped _ spent => exact absurd spent.2 (by decide)

theorem Within.of_plain {bounded : Bool} {depth : Nat} {result : Except InferenceError Json}
    (within : Within bounded result
      (Document.infer env.validator env.declarations env.node depth expression)) :
    Within bounded result (valueSchema env expression depth) := by
  rcases valueSchema_within env expression depth with
    ⟨schema, plain, same⟩ | ⟨_, error, plain, other⟩
  · rw [same, ← plain]
    exact within
  · rw [plain] at within
    rw [other]
    cases within with
    | refused failure _ => exact .refused failure error
    | exhausted _ limited => exact .exhausted _ limited

/-- One request answers like the unlimited inference, and leaves caches that keep
doing so. -/
theorem ask_agrees {bounded : Bool} {state : State} (kept : Keeps env bounded state) (query : Query) :
    Agrees env bounded query (ask env state query).1 ∧ Keeps env bounded (ask env state query).2 := by
  cases query with
  | infer held expression depth =>
    obtain ⟨outcome, after⟩ := infer_follows held depth expression state kept
    exact ⟨(within_of_outcome outcome fun _ _ holds => holds.1).of_plain, after⟩
  | resolve path =>
    obtain ⟨outcome, after⟩ := resolve_follows path state kept
    exact ⟨within_of_outcome outcome fun located schema same => by rw [same], after⟩
  | compatible actual expected =>
    have proof : Follows env bounded Eq (compatible env actual expected)
        (.ok (Document.schemasCompatible env.validator actual expected)) :=
      (compatible_answers actual expected).refines fun _ same => same
    obtain ⟨outcome, after⟩ := proof state kept
    have within : Within bounded (Except.map id _) _ :=
      within_of_outcome outcome fun _ _ same => same
    rw [Except.map_id] at within
    exact ⟨within, after⟩

theorem serve_keeps {bounded : Bool} (kept : Keeps env bounded state) (queries : List Query) :
    List.Forall₂ (Agrees env bounded) queries (serve env state queries) := by
  induction queries generalizing state with
  | nil => exact .nil
  | cons query queries ih =>
    obtain ⟨agrees, after⟩ := ask_agrees kept query
    exact .cons agrees (ih after)

/-- Whatever was asked before and wherever the budget runs out, every answer is the
one of an unlimited inference or an exhaustion, and only a bounded budget is
exhausted. -/
theorem serve_agrees (env : Environment) (budget : SchemaBudget) (queries : List Query) :
    List.Forall₂ (Agrees env budget.bounded) queries (serve env (State.new budget) queries) :=
  serve_keeps (Keeps.new env budget) queries

end Requests

end RustX.SchemaInference
