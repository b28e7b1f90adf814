import RustX.Tools.Schema

/-!
The schema a model sees accepts a call exactly when the canonical schema accepts the call
without its execution mode.
-/
namespace RustX.Tools

open Checked JsonSchema List Assoc

section Walk

theorem rejectOwnReferences_eq_ok_iff : rejectOwnReferences location node = .ok () ↔
      ∀ keyword ∈ referenceApplicatorKeywords, node.lookup keyword = none := by
  simp [rejectOwnReferences]

theorem rejectEach_item (passed : rejectEach location index items = .ok ()) (member : item ∈ items) :
    ∃ place, rejectReferenceApplicators place item = .ok () := by
  induction items generalizing index with
  | nil => cases member
  | cons first items ih =>
    simp only [rejectEach, bind_eq_ok_iff] at passed
    obtain ⟨_, here, later⟩ := passed
    rcases mem_cons.mp member with rfl | member
    · exact ⟨_, here⟩
    · exact ih later member

theorem rejectMembers_member (passed : rejectMembers location members = .ok ())
    (member : subschema ∈ members.map Prod.snd) :
    ∃ place, rejectReferenceApplicators place subschema = .ok () := by
  induction members with
  | nil => cases member
  | cons first members ih =>
    simp only [rejectMembers, bind_eq_ok_iff] at passed
    obtain ⟨_, here, later⟩ := passed
    rcases mem_cons.mp member with rfl | member
    · exact ⟨_, here⟩
    · exact ih later member

def rejectInKeyword (location keyword : String) (value : Json) : Except SchemaError Unit :=
  if keyword ∈ subschemaKeywords then rejectReferenceApplicators location value
  else if keyword ∈ subschemaListKeywords then rejectInList location value
  else if keyword ∈ schemaMapKeywords then rejectInMap location value
  else if keyword = "items" then
    match value with
    | .array items => rejectEach location 0 items
    | value => rejectReferenceApplicators location value
  else if keyword = "dependencies" then rejectInMap location value
  else .ok ()

theorem rejectInKeywords_cons (location keyword : String) (value : Json)
    (node : List (String × Json)) :
    rejectInKeywords location ((keyword, value) :: node) = (do
        rejectInKeyword (location ++ "/" ++ escapePointerToken keyword) keyword value
        rejectInKeywords location node) := by
  cases value <;> rfl

/-- Every position the drafts know is one the walk descends into. -/
theorem rejectInKeywords_subschema (passed : rejectInKeywords location node = .ok ())
    (listed : (keyword, value) ∈ node) (member : sub ∈ subschemasAt keyword value) :
    ∃ place, rejectReferenceApplicators place sub = .ok () := by
  induction node with
  | nil => cases listed
  | cons first node ih =>
    obtain ⟨name, held⟩ := first
    rw [rejectInKeywords_cons, bind_eq_ok_iff] at passed
    obtain ⟨_, here, later⟩ := passed
    rcases mem_cons.mp listed with same | listed
    · cases same
      unfold rejectInKeyword at here
      unfold subschemasAt at member
      split at member
      · rename_i single
        have known : ∀ keyword ∈ ["not", "if", "then", "else", "contains", "propertyNames",
            "contentSchema", "additionalItems", "additionalProperties", "unevaluatedItems",
            "unevaluatedProperties"], keyword ∈ subschemaKeywords := by decide
        rw [if_pos (known keyword single)] at here
        rw [mem_singleton.mp member]
        exact ⟨_, here⟩
      · split at member
        · rename_i items
          subst items
          rw [if_neg (by decide), if_neg (by decide), if_neg (by decide), if_pos rfl] at here
          split at here
          · exact rejectEach_item here member
          · rename_i single
            split at member
            · exact absurd rfl (single _)
            · rw [mem_singleton.mp member]
              exact ⟨_, here⟩
        · split at member
          · rename_i many
            have known : ∀ keyword ∈ ["allOf", "anyOf", "oneOf", "prefixItems"],
                keyword ∉ subschemaKeywords ∧ keyword ∈ subschemaListKeywords := by decide
            rw [if_neg (known keyword many).1, if_pos (known keyword many).2] at here
            cases value with
            | array items => exact rejectEach_item here member
            | _ => cases member
          · split at member
            · rename_i named
              have walked : rejectInMap (location ++ "/" ++ escapePointerToken keyword) value =
                  .ok () := by
                have known : ∀ keyword ∈ ["properties", "patternProperties", "dependentSchemas",
                    "dependencies", "$defs", "definitions"], keyword ∉ subschemaKeywords ∧
                    keyword ∉ subschemaListKeywords ∧ keyword ≠ "items" ∧
                    (keyword ∈ schemaMapKeywords ∨ keyword = "dependencies") := by decide
                obtain ⟨single, many, items, named | dependencies⟩ := known keyword named
                · rwa [if_neg single, if_neg many, if_pos named] at here
                · subst dependencies
                  rwa [if_neg single, if_neg many, if_neg (by decide), if_neg items,
                    if_pos rfl] at here
              cases value with
              | object members =>
                exact rejectMembers_member walked (mem_filter.mp member).1
              | _ => cases member
            · cases member
    · exact ih later listed

theorem rejectReferenceApplicators_object
    (passed : rejectReferenceApplicators location (.object node) = .ok ()) :
    (∀ keyword ∈ referenceKeywords, node.lookup keyword = none) ∧
      rejectInKeywords location node = .ok () := by
  simp only [rejectReferenceApplicators, bind_eq_ok_iff] at passed
  obtain ⟨_, own, keywords⟩ := passed
  exact ⟨rejectOwnReferences_eq_ok_iff.mp own, keywords⟩

/-- A schema the walk passes has no reference applicator anywhere. -/
theorem referenceFree_of_passed (schema : Json)
    (passed : rejectReferenceApplicators location schema = .ok ()) : ReferenceFree schema := by
  refine .intro schema (fun keyword member => ?_) fun sub inside => ?_
  · cases schema with
    | object node => exact (rejectReferenceApplicators_object passed).1 keyword member
    | _ => rfl
  · have walked : ∃ place, rejectReferenceApplicators place sub = .ok () := by
      cases schema with
      | object node =>
        obtain ⟨⟨keyword, value⟩, listed, member⟩ := mem_flatMap.mp inside
        exact rejectInKeywords_subschema (rejectReferenceApplicators_object passed).2 listed member
      | _ => cases inside
    obtain ⟨place, passed⟩ := walked
    exact referenceFree_of_passed sub passed
  termination_by sizeOf schema
  decreasing_by exact sizeOf_subschemas inside

end Walk

section Root

variable {Outcome : Type} {semantics : Semantics Outcome} {document : Json}
  {fields members : List (String × Json)}

/-- The members of an object that the schema of a root declares, if any. -/
def declaredAt (fields : List (String × Json)) (name : String) : Option Json :=
  (fields.lookup "properties").bind (Json.get · name)

def RequiredAt (fields : List (String × Json)) (name : String) : Prop :=
  ∃ names, fields.lookup "required" = some (.array names) ∧ Json.string name ∈ names

structure Profile (fields : List (String × Json)) : Prop where
  keywords : ∀ keyword held, fields.lookup keyword = some held →
    isDecoratableRootKeyword keyword = true
  object : fields.lookup "type" = some (.string "object")
  properties : ∀ held, fields.lookup "properties" = some held → ∃ members, held = .object members
  required : ∀ held, fields.lookup "required" = some held → ∃ names, held = .array names

theorem Profile.absent (profile : Profile fields)
    (outside : isDecoratableRootKeyword keyword = false) : fields.lookup keyword = none := by
  cases found : fields.lookup keyword with
  | none => rfl
  | some held =>
    rw [profile.keywords keyword held found] at outside
    cases outside

/-- What a root of the profile asks of an object. -/
structure RootHolds (semantics : Semantics Outcome) (document : Json)
    (fields members : List (String × Json)) : Prop where
  properties : ∀ name schema held, declaredAt fields name = some schema →
    members.lookup name = some held → semantics.passes (semantics.evaluate document schema held) = true
  required : ∀ name, RequiredAt fields name → (members.lookup name).isSome = true
  additional : ∀ schema name held, fields.lookup "additionalProperties" = some schema →
    members.lookup name = some held → declaredAt fields name = none →
      semantics.passes (semantics.evaluate document schema held) = true

/-- The four keywords of the profile say all there is to say. -/
theorem Profile.passes_iff (profile : Profile fields) :
    semantics.passes (semantics.evaluate document (.object fields) value) = true ↔
      ∃ members, value = .object members ∧ RootHolds semantics document fields members := by
  have references : ∀ keyword ∈ referenceKeywords, fields.lookup keyword = none := by
    have outside : ∀ keyword ∈ referenceKeywords, isDecoratableRootKeyword keyword = false := by
      decide
    exact fun keyword member => profile.absent (outside keyword member)
  have patterns : fields.lookup "patternProperties" = none := profile.absent (by decide)
  rw [semantics.conjunctive references]
  constructor
  · intro asserted
    obtain ⟨members, rfl⟩ := semantics.type_object.mp (asserted _ _ profile.object)
    refine ⟨members, rfl, ?_, ?_, ?_⟩
    · intro name schema held declared present
      rw [declaredAt, Option.bind_eq_some_iff] at declared
      obtain ⟨properties, found, listed⟩ := declared
      obtain ⟨known, rfl⟩ := profile.properties properties found
      exact semantics.properties.mp (asserted _ _ found) name schema held listed present
    · rintro name ⟨names, found, listed⟩
      exact semantics.required.mp (asserted _ _ found) name listed
    · intro schema name held found present undeclared
      exact (semantics.additionalProperties patterns).mp (asserted _ _ found) name held present
        undeclared
  · rintro ⟨members, rfl, holds⟩ keyword held found
    have inside := profile.keywords keyword held found
    have kinds : ∀ keyword ∈ decoratableRootInstanceKeywords ++ rootAnnotationKeywords,
        keyword = "type" ∨ keyword = "properties" ∨ keyword = "required" ∨
          keyword = "additionalProperties" ∨ keyword ∈ annotationKeywords := by decide
    rcases kinds keyword (by simpa [isDecoratableRootKeyword] using inside) with
      rfl | rfl | rfl | rfl | annotation
    · rw [profile.object] at found
      cases found
      exact semantics.type_object.mpr ⟨members, rfl⟩
    · obtain ⟨known, rfl⟩ := profile.properties held found
      refine semantics.properties.mpr fun name schema value listed present => ?_
      refine holds.properties name schema value ?_ present
      rw [declaredAt, found]
      exact listed
    · obtain ⟨names, rfl⟩ := profile.required held found
      exact semantics.required.mpr fun name listed => holds.required name ⟨names, found, listed⟩
    · exact (semantics.additionalProperties patterns).mpr fun name value present undeclared =>
        holds.additional held name value found present undeclared
    · exact semantics.annotation annotation

theorem executionModeSchema_passes :
    semantics.passes (semantics.evaluate document executionModeSchema value) = true ↔
      ∃ text ∈ executionModeValues, value = .string text := by
  have references : ∀ keyword ∈ referenceKeywords,
      ([("description", Json.string executionModeDescription),
        ("enum", .array (executionModeValues.map .string)), ("type", .string "string")] :
        List (String × Json)).lookup keyword = none := by decide
  rw [executionModeSchema, semantics.conjunctive references]
  constructor
  · intro asserted
    obtain ⟨text, rfl⟩ := semantics.type_string.mp (asserted "type" _ rfl)
    obtain ⟨allowed, listed, same⟩ := semantics.enum.mp (asserted "enum" _ rfl)
    obtain ⟨mode, member, rfl⟩ := mem_map.mp listed
    rw [Json.same_iff] at same
    exact ⟨mode, member, same⟩
  · rintro ⟨text, member, rfl⟩ keyword held found
    rw [lookup_cons_ite, lookup_cons_ite, lookup_cons_ite] at found
    split at found
    · rename_i same
      subst same
      exact semantics.annotation (by decide)
    split at found
    · rename_i same
      subst same
      cases found
      exact semantics.enum.mpr ⟨.string text, mem_map_of_mem member, by simp [Json.same]⟩
    · split at found
      · rename_i same
        subst same
        cases found
        exact semantics.type_string.mpr ⟨text, rfl⟩
      · cases found

/-- What decoration makes of a root: the selector is declared and required, the rest stays. -/
structure Decorated (fields decorated : List (String × Json)) : Prop where
  profile : Profile decorated
  declared : ∀ name, declaredAt decorated name =
    if name = executionModeField then some executionModeSchema else declaredAt fields name
  required : ∀ name, RequiredAt decorated name ↔ RequiredAt fields name ∨ name = executionModeField
  others : ∀ keyword, keyword ≠ "properties" → keyword ≠ "required" →
    decorated.lookup keyword = fields.lookup keyword

theorem declareExecutionMode_spec (profile : Profile fields) :
    ∃ declared, declareExecutionMode (fields.lookup "properties") = some (.object declared) ∧
      ∀ name, declared.lookup name =
        if name = executionModeField then some executionModeSchema else declaredAt fields name := by
  have inserted : ∀ properties : List (String × Json),
      (∀ name, properties.lookup name = declaredAt fields name) → ∀ name,
      (insert executionModeField executionModeSchema properties).lookup name =
        if name = executionModeField then some executionModeSchema else declaredAt fields name := by
    intro properties same name
    split
    · rename_i selector
      rw [selector, lookup_insert_self]
    · rename_i other
      rw [lookup_insert_of_ne other, same]
  cases found : fields.lookup "properties" with
  | none => exact ⟨_, rfl, inserted [] fun name => by simp [declaredAt, found]⟩
  | some held =>
    obtain ⟨properties, rfl⟩ := profile.properties held found
    exact ⟨_, rfl, inserted properties fun name => by simp [declaredAt, found, Json.get]⟩

theorem requireExecutionMode_spec (profile : Profile fields) :
    ∃ names, requireExecutionMode (fields.lookup "required") = some (.array names) ∧
      ∀ name, Json.string name ∈ names ↔ RequiredAt fields name ∨ name = executionModeField := by
  have extended : ∀ names, (∀ name, Json.string name ∈ names ↔ RequiredAt fields name) →
      ∃ after, requireExecutionMode (some (.array names)) = some (.array after) ∧
        ∀ name, Json.string name ∈ after ↔ RequiredAt fields name ∨ name = executionModeField := by
    intro names same
    unfold requireExecutionMode
    by_cases listed : Json.string executionModeField ∈ names
    · refine ⟨names, by simp [listed], fun name => ?_⟩
      rw [same]
      refine ⟨.inl, fun named => named.elim id ?_⟩
      rintro rfl
      exact (same _).mp listed
    · refine ⟨names ++ [.string executionModeField], by simp [listed], fun name => ?_⟩
      simp [same]
  cases found : fields.lookup "required" with
  | none => exact extended [] fun name => by simp [RequiredAt, found]
  | some held =>
    obtain ⟨names, rfl⟩ := profile.required held found
    exact extended names fun name => by simp [RequiredAt, found]

/-- A root of the profile is decorated without a crash. -/
theorem decorateExecutionMode_spec (profile : Profile fields) :
    ∃ decorated, decorateExecutionMode (.object fields) = some (.object decorated) ∧
      Decorated fields decorated := by
  obtain ⟨declared, declares, declaredLookup⟩ := declareExecutionMode_spec profile
  obtain ⟨names, requires, requiredNames⟩ := requireExecutionMode_spec profile
  have kept : (insert "properties" (.object declared) fields).lookup "required" =
      fields.lookup "required" := lookup_insert_of_ne (by decide) _ _
  refine ⟨insert "required" (.array names) (insert "properties" (.object declared) fields), ?_, ?_⟩
  · simp only [decorateExecutionMode, declares, Option.bind_eq_bind, Option.bind_some, kept, requires]
  have properties : (insert "required" (Json.array names)
      (insert "properties" (.object declared) fields)).lookup "properties" =
      some (.object declared) := by
    rw [lookup_insert_of_ne (by decide), lookup_insert_self]
  have required : (insert "required" (Json.array names)
      (insert "properties" (.object declared) fields)).lookup "required" =
      some (.array names) := lookup_insert_self _ _ _
  have others : ∀ keyword, keyword ≠ "properties" → keyword ≠ "required" →
      (insert "required" (Json.array names)
        (insert "properties" (.object declared) fields)).lookup keyword =
        fields.lookup keyword := fun keyword first second => by
    rw [lookup_insert_of_ne second, lookup_insert_of_ne first]
  refine ⟨⟨?_, by rw [others "type" (by decide) (by decide), profile.object], ?_, ?_⟩, ?_, ?_,
    others⟩
  · intro keyword held found
    by_cases first : keyword = "properties"
    · subst first
      decide
    · by_cases second : keyword = "required"
      · subst second
        decide
      · exact profile.keywords keyword held (by rwa [others keyword first second] at found)
  · intro held found
    rw [properties] at found
    exact ⟨declared, (Option.some.inj found).symm⟩
  · intro held found
    rw [required] at found
    exact ⟨names, (Option.some.inj found).symm⟩
  · intro name
    rw [declaredAt, properties]
    exact declaredLookup name
  · intro name
    rw [← requiredNames]
    simp [RequiredAt, required]

theorem referenceFree_declared (free : ReferenceFree (.object fields))
    (declared : declaredAt fields name = some schema) : ReferenceFree schema := by
  rw [declaredAt, Option.bind_eq_some_iff] at declared
  obtain ⟨properties, found, listed⟩ := declared
  cases schema with
  | object _ | bool _ =>
    cases properties with
    | object members =>
      obtain ⟨_, _, nested⟩ := free
      refine nested _ (mem_flatMap.mpr ⟨_, mem_of_lookup found, ?_⟩)
      refine mem_filter.mpr ⟨?_, rfl⟩
      exact mem_map.mpr ⟨_, mem_of_lookup listed, rfl⟩
    | _ => cases listed
  | _ => exact .intro _ (fun _ _ => rfl) fun _ inside => nomatch inside

theorem referenceFree_additional (free : ReferenceFree (.object fields))
    (found : fields.lookup "additionalProperties" = some schema) : ReferenceFree schema := by
  obtain ⟨_, _, nested⟩ := free
  refine nested _ (mem_flatMap.mpr ⟨_, mem_of_lookup found, ?_⟩)
  exact mem_singleton_self schema

/-- A decorated root holds of an object with the selector when the selector names a mode and
the root holds of the object without it. -/
theorem Decorated.holds_iff (known : Decorated fields decorated)
    (free : ReferenceFree (.object fields)) (unrequired : ¬ RequiredAt fields executionModeField)
    {stripped : List (String × Json)} (selected : members.lookup executionModeField = some selector)
    (gone : stripped.lookup executionModeField = none)
    (same : ∀ name, name ≠ executionModeField → members.lookup name = stripped.lookup name) :
    RootHolds semantics (.object decorated) decorated members ↔
      (∃ text ∈ executionModeValues, selector = .string text) ∧
        RootHolds semantics (.object fields) fields stripped := by
  have draft : Json.get (.object decorated) "$schema" = Json.get (.object fields) "$schema" :=
    known.others "$schema" (by decide) (by decide)
  have extra := known.others "additionalProperties" (by decide) (by decide)
  have stripsName : ∀ {name : String} {held : Json}, stripped.lookup name = some held →
      name ≠ executionModeField := by
    rintro name held present rfl
    rw [gone] at present
    cases present
  constructor
  · intro holds
    refine ⟨executionModeSchema_passes.mp (holds.properties executionModeField _ _
      (by rw [known.declared, if_pos rfl]) selected), ?_, ?_, ?_⟩
    · intro name schema held declared present
      have other := stripsName present
      have passed := holds.properties name schema held
        (by rw [known.declared, if_neg other, declared]) (by rw [same name other, present])
      rwa [semantics.evaluate_congr draft (referenceFree_declared free declared)] at passed
    · intro name required
      have other : name ≠ executionModeField := by
        rintro rfl
        exact unrequired required
      rw [← same name other]
      exact holds.required name ((known.required name).mpr (.inl required))
    · intro schema name held found present undeclared
      have other := stripsName present
      have passed := holds.additional schema name held (by rw [extra, found])
        (by rw [same name other, present]) (by rw [known.declared, if_neg other, undeclared])
      rwa [semantics.evaluate_congr draft (referenceFree_additional free found)] at passed
  · rintro ⟨mode, holds⟩
    refine ⟨?_, ?_, ?_⟩
    · intro name schema held declared present
      rw [known.declared] at declared
      split at declared
      · rename_i selects
        subst selects
        cases declared
        rw [selected] at present
        cases present
        exact executionModeSchema_passes.mpr mode
      · rename_i other
        rw [semantics.evaluate_congr draft (referenceFree_declared free declared)]
        exact holds.properties name schema held declared (by rw [← same name other, present])
    · intro name required
      rcases (known.required name).mp required with required | rfl
      · have other : name ≠ executionModeField := by
          rintro rfl
          exact unrequired required
        rw [same name other]
        exact holds.required name required
      · rw [selected]
        rfl
    · intro schema name held found present undeclared
      rw [known.declared] at undeclared
      split at undeclared
      · cases undeclared
      · rename_i other
        rw [extra] at found
        rw [semantics.evaluate_congr draft (referenceFree_additional free found)]
        exact holds.additional schema name held found (by rw [← same name other, present])
          undeclared

end Root

section Calls

variable {members : List (String × Json)}

def withMode (mode : ToolInvocationMode) (members : List (String × Json)) : List (String × Json) :=
  insert executionModeField (.string mode.wireName) members

/-- No member of a call is in the runtime's namespace. -/
def Unreserved : Json → Prop
  | .object members => ∀ name ∈ members.map Prod.fst, isReservedProperty name = false
  | _ => True

theorem rejectReservedInvocationProperties_eq_ok_iff :
    rejectReservedInvocationProperties call = .ok () ↔ Unreserved call := by
  cases call <;> simp [rejectReservedInvocationProperties, rejectReserved, Unreserved]

theorem selectMode_wireName [FloatText] (mode : ToolInvocationMode) :
    selectMode (.string mode.wireName) = .ok mode := by
  cases mode <;> rfl

theorem exists_wireName (named : text ∈ executionModeValues) :
    ∃ mode : ToolInvocationMode, text = mode.wireName := by
  have kinds : ∀ text ∈ executionModeValues, text = "foreground" ∨ text = "background" := by decide
  rcases kinds text named with rfl | rfl
  · exact ⟨.foreground, rfl⟩
  · exact ⟨.background, rfl⟩

theorem wireName_mem (mode : ToolInvocationMode) : mode.wireName ∈ executionModeValues := by
  cases mode <;> decide

theorem resolve_selected [FloatText] {mode : ToolInvocationMode}
    (unreserved : Unreserved (.object call))
    (selected : call.lookup executionModeField = some (.string mode.wireName)) :
    resolveInvocationMetadata .modelSelectable (.object call) =
      .ok (mode, .object (call.filter fun entry => entry.1 ≠ executionModeField)) := by
  rw [resolveInvocationMetadata, rejectReservedInvocationProperties_eq_ok_iff.mpr unreserved, ok_bind]
  simp only [extractExecutionMode, selected, selectMode_wireName, ok_bind]
  rfl

theorem filter_withMode (absent : members.lookup executionModeField = none)
    (mode : ToolInvocationMode) :
    (withMode mode members).filter (fun entry => entry.1 ≠ executionModeField) = members := by
  have others : members.filter (fun entry => entry.1 ≠ executionModeField) = members := by
    refine filter_eq_self.mpr fun entry member => ?_
    have differs := lookup_eq_none_iff.mp absent entry member
    exact decide_eq_true fun same => by simp [same] at differs
  rw [withMode, Assoc.insert, others, filter_append, filter_cons_of_neg (by simp),
    ← filter_append, takeWhile_append_dropWhile, others]

theorem unreserved_withMode (mode : ToolInvocationMode) (unreserved : Unreserved (.object members)) :
    Unreserved (.object (withMode mode members)) := by
  intro name member
  rcases mem_keys_insert.mp member with rfl | member
  · decide
  · exact unreserved name member

end Calls

section Projection

variable {Outcome : Type} {semantics : Semantics Outcome}

/-- What the two checks of a model-selectable schema establish. -/
theorem profile_of_validated (canonical : validateCanonicalSchema semantics schema = .ok ())
    (contract : validateExecutionMetadataContract .modelSelectable schema = .ok ()) :
    ∃ fields, schema = .object fields ∧ Profile fields ∧ ReferenceFree schema ∧
      ¬ RequiredAt fields executionModeField := by
  cases schema with
  | object fields =>
    simp only [validateCanonicalSchema, bind_eq_ok_iff, mapError_eq_ok_iff, require_eq_ok_iff,
      beq_iff_eq, exists_const] at canonical
    obtain ⟨_, built, object, -⟩ := canonical
    simp only [validateExecutionMetadataContract, ne_eq, not_true_eq_false, if_false,
      bind_eq_ok_iff, forM_eq_ok_iff, require_eq_ok_iff] at contract
    obtain ⟨_, claims, _, walked, keywords⟩ := contract
    refine ⟨fields, rfl, ⟨?_, ?_, ?_, ?_⟩, referenceFree_of_passed _ walked, ?_⟩
    · intro keyword held found
      exact keywords keyword (mem_keys_of_lookup found)
    · rw [Option.bind_eq_some_iff] at object
      obtain ⟨held, found, text⟩ := object
      cases held with
      | string name =>
        cases text
        exact found
      | _ => cases text
    · exact fun held found => semantics.build_properties built found
    · exact fun held found => semantics.build_required built found
    · rintro ⟨names, found, listed⟩
      have claimed : requiresExecutionMode fields = true := by
        rw [requiresExecutionMode, found]
        exact any_eq_true.mpr ⟨_, listed, by simp [Json.asStr]⟩
      unfold rejectClaims at claims
      rw [claimed] at claims
      cases declared : declaresExecutionMode fields <;> simp [declared] at claims
  | _ => cases canonical

/-- A compiled schema accepts a call exactly when its selector names a mode and the canonical
schema accepts the rest. -/
theorem accepts_decorated {members stripped : List (String × Json)} (profile : Profile fields)
    (known : Decorated fields decorated) (free : ReferenceFree (.object fields))
    (unrequired : ¬ RequiredAt fields executionModeField)
    (selected : members.lookup executionModeField = some selector)
    (gone : stripped.lookup executionModeField = none)
    (same : ∀ name, name ≠ executionModeField → members.lookup name = stripped.lookup name) :
    semantics.Accepts (.object decorated) (.object members) ↔
      (∃ text ∈ executionModeValues, selector = .string text) ∧
        semantics.Accepts (.object fields) (.object stripped) := by
  have unfolds : ∀ {fields members : List (String × Json)}, Profile fields →
      (semantics.Accepts (.object fields) (.object members) ↔
        RootHolds semantics (.object fields) fields members) := by
    intro fields members profile
    rw [Semantics.Accepts, profile.passes_iff]
    constructor
    · rintro ⟨_, same, holds⟩
      cases same
      exact holds
    · exact fun holds => ⟨members, rfl, holds⟩
  rw [unfolds known.profile, unfolds profile, known.holds_iff free unrequired selected gone same]

end Projection

/-- The model-facing schema of a tool is an exact projection of its canonical one. Under
`modelSelectable` it accepts a call with a mode exactly when the canonical schema accepts the
call without it, and what it accepts resolves to a mode and a call the canonical schema
accepts; under a fixed policy nothing is projected. -/
theorem compileModelDefinition_projects [FloatText] {Outcome : Type}
    (semantics : Semantics Outcome) (definition : ToolDefinition)
    (canonical : validateCanonicalSchema semantics definition.inputSchema = .ok ())
    (contract : validateExecutionMetadataContract definition.executionPolicy
      definition.inputSchema = .ok ()) :
    ∃ compiled, compileModelDefinition definition = some (.ok compiled) ∧
      (definition.executionPolicy = .modelSelectable →
        (∀ business mode, business.lookup executionModeField = none →
          (semantics.Accepts compiled.inputSchema (.object (withMode mode business)) ↔
            semantics.Accepts definition.inputSchema (.object business)) ∧
          (Unreserved (.object business) →
            resolveInvocationMetadata .modelSelectable (.object (withMode mode business)) =
              .ok (mode, .object business))) ∧
        (∀ call, semantics.Accepts compiled.inputSchema call → Unreserved call →
          ∃ mode business, resolveInvocationMetadata .modelSelectable call = .ok (mode, business) ∧
            semantics.Accepts definition.inputSchema business)) ∧
      (definition.executionPolicy ≠ .modelSelectable →
        compiled.inputSchema = definition.inputSchema) := by
  by_cases selectable : definition.executionPolicy = .modelSelectable
  · rw [selectable] at contract
    obtain ⟨fields, schema, profile, free, unrequired⟩ := profile_of_validated canonical contract
    obtain ⟨decorated, compiles, known⟩ := decorateExecutionMode_spec profile
    rw [schema] at contract free
    refine ⟨{ id := definition.id, name := definition.name, inputSchema := .object decorated
              description := withExecutionModeReminder definition.description }, ?_, fun _ =>
      ⟨?_, ?_⟩, absurd selectable⟩
    · simp only [compileModelDefinition, selectable, schema, contract, compiles, if_true,
        Option.bind_eq_bind, Option.bind_some]
    · intro business mode absent
      have selected : (withMode mode business).lookup executionModeField =
          some (.string mode.wireName) := lookup_insert_self _ _ _
      refine ⟨?_, fun unreserved => ?_⟩
      · rw [schema, accepts_decorated profile known free unrequired selected absent
          fun name other => lookup_insert_of_ne other _ _]
        exact and_iff_right ⟨mode.wireName, wireName_mem mode, rfl⟩
      · rw [resolve_selected (unreserved_withMode mode unreserved) selected,
          filter_withMode absent mode]
    · intro call accepted unreserved
      obtain ⟨members, rfl, holds⟩ := known.profile.passes_iff.mp accepted
      have present := holds.required executionModeField ((known.required _).mpr (.inr rfl))
      obtain ⟨selector, selected⟩ := Option.isSome_iff_exists.mp present
      obtain ⟨⟨text, named, rfl⟩, business⟩ := (accepts_decorated profile known free unrequired
        selected (lookup_filter_self members executionModeField)
        fun name other => (lookup_filter_ne members other).symm).mp accepted
      obtain ⟨mode, rfl⟩ := exists_wireName named
      exact ⟨mode, _, resolve_selected unreserved selected, schema ▸ business⟩
  · refine ⟨{ id := definition.id, name := definition.name, description := definition.description
              inputSchema := definition.inputSchema }, ?_, fun same => absurd same selectable,
      fun _ => rfl⟩
    simp only [compileModelDefinition, contract, if_neg selectable]

def pathDefinition : ToolDefinition where
  id := "tool"
  name := "read"
  description := ""
  executionPolicy := .modelSelectable
  inputSchema := .object [("additionalProperties", .bool false),
    ("properties", .object [("path", .object [("type", .string "string")])]),
    ("required", .array [.string "path"]), ("type", .string "object")]

/-- A call in the background, accepted and taken apart. -/
theorem compileModelDefinition_projects_path :
    ∃ compiled, compileModelDefinition pathDefinition = some (.ok compiled) ∧
      JsonSchema.core.Accepts compiled.inputSchema
        (.object (withMode .background [("path", .string "a")])) := by
  have accepted : JsonSchema.core.Accepts pathDefinition.inputSchema
      (.object [("path", .string "a")]) := by
    change JsonSchema.holds pathDefinition.inputSchema (.object [("path", .string "a")]) = true
    decide +kernel
  let _ : FloatText := FloatText.exact
  obtain ⟨compiled, compiles, selectable, -⟩ := compileModelDefinition_projects JsonSchema.core
    pathDefinition (by decide +kernel) (by decide +kernel)
  exact ⟨compiled, compiles,
    (((selectable rfl).1 [("path", .string "a")] .background rfl).1).mpr accepted⟩

end RustX.Tools
