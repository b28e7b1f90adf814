import RustX.Workflow.Budgets
import RustX.Workflow.Compile

/-!
Input normalization: absent defaults are filled in recursively, across one budget of bytes and
work. What it leaves is normal, and every property of the result is read off that.
-/
namespace RustX.Defaults

open Checked Schema Assoc List Prod

def maxNormalizationWork : Nat := 65536

structure Budget where
  bytes : Nat := 0
  work : Nat := 0

abbrev Normalizing := StateT Budget (Except Failure)

def exceeded : Failure :=
  .limitExceeded .retainedData

def visit : Normalizing Unit := fun budget =>
  if budget.work = maxNormalizationWork then .error exceeded
  else .ok ((), { budget with work := budget.work + 1 })

def charge (bytes : Nat) : Normalizing Unit := fun budget =>
  if bytes > maxValueBytes - budget.bytes then .error exceeded
  else .ok ((), { budget with bytes := budget.bytes + bytes })

/-- The writer charges every piece it is given; all of them fit exactly when the text does. -/
def serialized (text : String) : Normalizing Unit :=
  charge text.utf8ByteSize

def property (name : String) (first : Bool) : Normalizing Unit := do
  charge ((!first).toNat + 1)
  serialized (quote name)

def propertiesOf : Option Schema → List (String × Schema)
  | some (.keywords object) => object.properties.getD []
  | _ => []

def itemsOf : Option Schema → Option Schema
  | some (.keywords object) => object.items
  | _ => none

def defaultOf : Schema → Option Json
  | .keywords object => object.default
  | .anyOf _ => none

section Normalize

variable [FloatText]

section Loops

variable (recurse : Option Schema → Json → Normalizing Json)

def normalizeFields (properties : List (String × Schema)) :
    List (String × Json) → List (String × Json) → Normalizing (List (String × Json))
  | result, [] => pure result
  | result, (name, field) :: fields => do
    property name result.isEmpty
    let field ← recurse (properties.lookup name) field
    normalizeFields properties (insert name field result) fields

def fillDefaults (fields : List (String × Json)) :
    List (String × Json) → List (String × Schema) → Normalizing (List (String × Json))
  | result, [] => pure result
  | result, (name, schema) :: properties => do
    visit
    match fields.lookup name, defaultOf schema with
    | none, some default =>
      property name result.isEmpty
      let field ← recurse (some schema) default
      fillDefaults fields (insert name field result) properties
    | _, _ => fillDefaults fields result properties

def normalizeItems (schema : Option Schema) : List Json → List Json → Normalizing (List Json)
  | result, [] => pure result
  | result, item :: items => do
    charge (!result.isEmpty).toNat
    let item ← recurse schema item
    normalizeItems schema (result ++ [item]) items

end Loops

/-- `normalize`, with the levels that are left of the depth bound. -/
def normalize : Nat → Option Schema → Json → Normalizing Json
  | 0, _, _ => throw exceeded
  | levels + 1, schema, value => do
    visit
    match value with
    | .object fields =>
      charge 2
      let result ← normalizeFields (normalize levels) (propertiesOf schema) [] fields
      let result ← fillDefaults (normalize levels) fields result (propertiesOf schema)
      return .object result
    | .array items =>
      charge 2
      let result ← normalizeItems (normalize levels) (itemsOf schema) [] items
      return .array result
    | value =>
      serialized value.text
      return value

/-- `apply_schema_defaults`: the outcome, and the caller's value after it. -/
def applySchemaDefaults (schema : Schema) (value : Json) : Except Failure Unit × Json :=
  match normalize (maxValueDepth + 1) (some schema) value {} with
  | .ok (result, _) => (.ok (), result)
  | .error failure => (.error failure, value)

end Normalize

/-- A normal value of a schema: the members are in order, every member with a default is
there, and all of this holds below. -/
def Normal : Nat → Option Schema → Json → Prop
  | 0, _, _ => False
  | levels + 1, schema, .object fields =>
    Assoc.Sorted fields ∧
    (∀ field ∈ fields, Normal levels ((propertiesOf schema).lookup field.1) field.2) ∧
    ∀ entry ∈ propertiesOf schema, (defaultOf entry.2).isSome = true → entry.1 ∈ fields.map fst
  | levels + 1, schema, .array items => ∀ item ∈ items, Normal levels (itemsOf schema) item
  | _ + 1, _, _ => True

/-- Everything the first value has, the second has in the same place. -/
inductive Extends : Json → Json → Prop
  | same (value : Json) : Extends value value
  | object {fields fields' : List (String × Json)} (value : String × Json → Json)
      (kept : ∀ field ∈ fields, (field.1, value field) ∈ fields')
      (below : ∀ field ∈ fields, Extends field.2 (value field)) :
      Extends (.object fields) (.object fields')
  | array {items items' : List Json} (length : items.length = items'.length)
      (below : ∀ pair ∈ items.zip items', Extends pair.1 pair.2) :
      Extends (.array items) (.array items')

/-- Every object of a decoded document has each of its keys once. -/
inductive Distinct : Json → Prop
  | null : Distinct .null
  | bool (value : Bool) : Distinct (.bool value)
  | number (value : Number) : Distinct (.number value)
  | string (value : String) : Distinct (.string value)
  | array {items : List Json} (each : ∀ item ∈ items, Distinct item) : Distinct (.array items)
  | object {fields : List (String × Json)} (keys : (fields.map fst).Nodup)
      (each : ∀ field ∈ fields, Distinct field.2) : Distinct (.object fields)

inductive DistinctSchema : Schema → Prop
  | keywords {object : Keywords Schema} (keys : ((object.properties.getD []).map fst).Nodup)
      (default : ∀ value, object.default = some value → Distinct value)
      (properties : ∀ entry ∈ object.properties.getD [], DistinctSchema entry.2)
      (items : ∀ schema, object.items = some schema → DistinctSchema schema) :
      DistinctSchema (.keywords object)
  | anyOf (alternatives : List Schema) : DistinctSchema (.anyOf alternatives)

def Budget.Within (budget : Budget) : Prop :=
  budget.bytes ≤ maxValueBytes ∧ budget.work ≤ maxNormalizationWork

/-- What a computation that returns has charged, with its result. -/
def Spending {α : Type} (x : Normalizing α) (post : α → Nat → Nat → Prop) : Prop :=
  ∀ budget : Budget, budget.Within → Yields (fun _ => True) (fun (a, after) => after.Within ∧
    ∃ bytes work, after = ⟨budget.bytes + bytes, budget.work + work⟩ ∧ post a bytes work) (x budget)

/-- A computation that returns `a` wherever its charges fit. -/
def Affords {α : Type} (x : Normalizing α) (a : α) (bytes work : Nat) : Prop :=
  ∀ budget : Budget, budget.bytes + bytes ≤ maxValueBytes →
    budget.work + work ≤ maxNormalizationWork →
    x budget = .ok (a, ⟨budget.bytes + bytes, budget.work + work⟩)

section Accounting

variable {α β : Type}

variable {post : α → Nat → Nat → Prop}

theorem Spending.bind {f : α → Normalizing β} {next : β → Nat → Nat → Prop}
    (first : Spending x post) (rest : ∀ a bytes work, post a bytes work →
      Spending (f a) fun b more further => next b (bytes + more) (work + further)) :
    Spending (x >>= f) next := by
  intro budget within
  refine (first budget within).bind ?_
  rintro ⟨a, after⟩ ⟨held, bytes, work, rfl, result⟩
  refine (rest a bytes work result _ held).mono ?_
  rintro ⟨b, last⟩ ⟨kept, more, further, rfl, outcome⟩
  exact ⟨kept, bytes + more, work + further, by simp only [Nat.add_assoc], outcome⟩

theorem Spending.mono {weak : α → Nat → Nat → Prop} (spending : Spending x post)
    (implies : ∀ a bytes work, post a bytes work → weak a bytes work) :
    Spending x weak := by
  intro budget within
  refine (spending budget within).mono ?_
  rintro ⟨a, after⟩ ⟨held, bytes, work, same, result⟩
  exact ⟨held, bytes, work, same, implies a bytes work result⟩

theorem spending_pure {a : α} (holds : post a 0 0) : Spending (pure a) post :=
  fun _ within => ⟨within, 0, 0, rfl, holds⟩

theorem visit_spending : Spending visit fun _ bytes work => bytes = 0 ∧ work = 1 := by
  intro budget within
  unfold visit
  split
  · trivial
  · rename_i room
    exact ⟨⟨within.1, Nat.succ_le_of_lt (Nat.lt_of_le_of_ne within.2 room)⟩, 0, 1, rfl, rfl, rfl⟩

theorem charge_spending (amount : Nat) :
    Spending (charge amount) fun _ bytes work => bytes = amount ∧ work = 0 := by
  intro budget within
  unfold charge
  split
  · trivial
  · have enough := within.1
    exact ⟨⟨by simp only; omega, within.2⟩, amount, 0, rfl, rfl, rfl⟩

theorem property_spending (name : String) (first : Bool) :
    Spending (property name first) fun _ bytes work =>
      bytes = (!first).toNat + 1 + (quote name).utf8ByteSize ∧ work = 0 := by
  refine (charge_spending _).bind ?_
  rintro _ _ _ ⟨rfl, rfl⟩
  refine (charge_spending _).mono ?_
  rintro _ _ _ ⟨rfl, rfl⟩
  exact ⟨rfl, rfl⟩

theorem Affords.bind {b : β} {bytes work : Nat} (first : Affords x a bytes work)
    (rest : Affords (f a) b more further) :
    Affords (x >>= f) b (bytes + more) (work + further) := by
  intro budget room time
  have begun := first budget (by omega) (by omega)
  have ended := rest ⟨budget.bytes + bytes, budget.work + work⟩ (by simp only; omega)
    (by simp only; omega)
  rw [show (x >>= f) budget = (x budget >>= fun (a, after) => f a after) from rfl, begun]
  refine ended.trans ?_
  simp only [Nat.add_assoc]

theorem Affords.exact {bytes' work work' : Nat} (affords : Affords x a bytes work)
    (sizes : bytes = bytes') (visits : work = work') : Affords x a bytes' work' :=
  sizes ▸ visits ▸ affords

theorem affords_pure (a : α) : Affords (pure a) a 0 0 :=
  fun _ _ _ => rfl

theorem visit_affords : Affords visit () 0 1 := by
  intro budget _ time
  unfold visit
  rw [if_neg (by omega)]
  rfl

theorem charge_affords (amount : Nat) : Affords (charge amount) () amount 0 := by
  intro budget room _
  unfold charge
  rw [if_neg (by omega)]
  rfl

theorem property_affords (name : String) (first : Bool) :
    Affords (property name first) () ((!first).toNat + 1 + (quote name).utf8ByteSize) 0 := by
  exact Affords.bind (f := fun _ => charge _) (charge_affords _) (charge_affords _)

end Accounting

section Sizes

variable [FloatText]

/-- The members of an object with the commas between them. -/
def membersBytes (fields : List (String × Json)) : Nat :=
  (fields.map Json.memberBytes).sum + (fields.length - 1)

def itemsBytes (items : List Json) : Nat :=
  (items.map Json.serializedBytes).sum + (items.length - 1)

theorem membersBytes_cons (name : String) (value : Json) (fields : List (String × Json)) :
    membersBytes ((name, value) :: fields) = membersBytes fields +
      ((!fields.isEmpty).toNat + 1 + (quote name).utf8ByteSize + value.serializedBytes) := by
  cases fields with
  | nil =>
    simp only [membersBytes, Json.memberBytes, map_cons, map_nil, sum_cons,
      sum_nil, length_cons, length_nil, isEmpty_nil]
    simp
    omega
  | cons field fields =>
    simp only [membersBytes, Json.memberBytes, map_cons, sum_cons, length_cons, isEmpty_cons]
    simp
    omega

variable {fields : List (String × Json)}

theorem membersBytes_perm (same : fields.Perm fields') :
    membersBytes fields = membersBytes fields' := by
  rw [membersBytes, membersBytes, (same.map _).sum_eq, same.length_eq]

/-- A new member, at whatever place it is inserted. -/
theorem membersBytes_insert (value : Json) (fresh : name ∉ fields.map fst) :
    membersBytes (insert name value fields) = membersBytes fields +
      ((!fields.isEmpty).toNat + 1 + (quote name).utf8ByteSize + value.serializedBytes) := by
  rw [membersBytes_perm (insert_perm_of_fresh value fresh), membersBytes_cons]

theorem itemsBytes_snoc (items : List Json) (item : Json) : itemsBytes (items ++ [item]) =
      itemsBytes items + ((!items.isEmpty).toNat + item.serializedBytes) := by
  cases items with
  | nil => simp [itemsBytes]
  | cons first rest =>
    simp [itemsBytes]
    omega

omit [FloatText] in
mutual

/-- The visits of a normal value. -/
def effort (schema : Option Schema) : Json → Nat
  | .object fields =>
    1 + effortFields (propertiesOf schema) fields + (propertiesOf schema).length
  | .array items => 1 + effortItems (itemsOf schema) items
  | _ => 1

def effortFields (properties : List (String × Schema)) : List (String × Json) → Nat
  | [] => 0
  | (name, value) :: fields =>
    effort (properties.lookup name) value + effortFields properties fields

def effortItems (schema : Option Schema) : List Json → Nat
  | [] => 0
  | item :: items => effort schema item + effortItems schema items

end

omit [FloatText] in
theorem effortFields_eq_sum (properties : List (String × Schema)) (fields : List (String × Json)) :
    effortFields properties fields =
      (fields.map fun field => effort (properties.lookup field.1) field.2).sum := by
  induction fields with
  | nil => rfl
  | cons field fields ih => rw [effortFields, ih, map_cons, sum_cons]

omit [FloatText] in
theorem effortFields_insert (properties : List (String × Schema)) (value : Json)
    (fresh : name ∉ fields.map fst) :
    effortFields properties (insert name value fields) =
      effortFields properties fields + effort (properties.lookup name) value := by
  rw [effortFields_eq_sum, effortFields_eq_sum,
    ((insert_perm_of_fresh value fresh).map _).sum_eq, map_cons, sum_cons,
    Nat.add_comm]

omit [FloatText] in
theorem effortItems_append (schema : Option Schema) (before after : List Json) :
    effortItems schema (before ++ after) =
      effortItems schema before + effortItems schema after := by
  induction before with
  | nil => simp [effortItems]
  | cons item before ih => rw [cons_append, effortItems, effortItems, ih, Nat.add_assoc]

end Sizes

section Spending

variable [FloatText] {levels : Nat} {properties : List (String × Schema)}

/-- What normalization of a value below has charged and left. -/
def Normalizes (levels : Nat) : Prop :=
  ∀ schema value, (∀ known, schema = some known → DistinctSchema known) → Distinct value →
    Spending (normalize levels schema value) fun result bytes work =>
      Normal levels schema result ∧ Extends value result ∧ bytes = result.serializedBytes ∧
      work = effort schema result

def Members (levels : Nat) (properties : List (String × Schema)) (result : List (String × Json)) :
    Prop :=
  Assoc.Sorted result ∧ ∀ entry ∈ result, Normal levels (properties.lookup entry.1) entry.2

variable {result : List (String × Json)}

omit [FloatText] in
theorem Members.insert (members : Members levels properties result)
    (normal : Normal levels (properties.lookup name) value) :
    Members levels properties (insert name value result) := by
  refine ⟨members.1.insert name value, fun entry member => ?_⟩
  obtain rfl | ⟨old, _⟩ := mem_insert.mp member
  · exact normal
  · exact members.2 entry old

/-- What a loop over members has added to those it began with. -/
structure Grows (levels : Nat) (properties : List (String × Schema))
    (result result' : List (String × Json)) (bytes work : Nat) : Prop where
  members : Members levels properties result'
  kept : ∀ entry ∈ result, entry ∈ result'
  bytes : membersBytes result' = membersBytes result + bytes
  work : effortFields properties result' = effortFields properties result + work

theorem Grows.refl (members : Members levels properties result) :
    Grows levels properties result result 0 0 :=
  ⟨members, fun _ member => member, rfl, rfl⟩

theorem Grows.insert {bytes work : Nat} (fresh : name ∉ result.map fst)
    (grows : Grows levels properties (insert name value result) result' bytes work) :
    Grows levels properties result result' ((!result.isEmpty).toNat + 1 +
      (quote name).utf8ByteSize + value.serializedBytes + bytes)
      (effort (properties.lookup name) value + work) := by
  refine ⟨grows.members, fun entry member => grows.kept entry ?_, ?_, ?_⟩
  · refine mem_insert.mpr (.inr ⟨member, ?_⟩)
    rintro rfl
    exact fresh (mem_map_of_mem member)
  · rw [grows.bytes, membersBytes_insert value fresh]
    omega
  · rw [grows.work, effortFields_insert properties value fresh]
    omega

theorem normalizeFields_spending (below : Normalizes levels)
    (typed : ∀ entry ∈ properties, DistinctSchema entry.2) {fields : List (String × Json)}
    (keys : (fields.map fst).Nodup) (each : ∀ field ∈ fields, Distinct field.2)
    (members : Members levels properties result)
    (fresh : ∀ field ∈ fields, field.1 ∉ result.map fst) :
    Spending (normalizeFields (normalize levels) properties result fields)
      fun result' bytes work => Grows levels properties result result' bytes work ∧
        (∀ name, name ∈ result'.map fst ↔ name ∈ result.map fst ∨ name ∈ fields.map fst) ∧
        ∀ field ∈ fields, ∃ value, (field.1, value) ∈ result' ∧ Extends field.2 value := by
  induction fields generalizing result with
  | nil => exact spending_pure ⟨.refl members, by simp, by simp⟩
  | cons field fields ih =>
    obtain ⟨name, value⟩ := field
    obtain ⟨own, keys⟩ := nodup_cons.mp keys
    obtain ⟨here, later⟩ := forall_mem_cons.mp each
    obtain ⟨new, others⟩ := forall_mem_cons.mp fresh
    refine (property_spending name _).bind ?_
    rintro _ _ _ ⟨rfl, rfl⟩
    refine (below _ value (fun known found => typed _ (mem_of_lookup found)) here).bind ?_
    rintro normalized _ _ ⟨normal, extends_, rfl, rfl⟩
    have unused : ∀ field ∈ fields, field.1 ∉ (insert name normalized result).map fst := by
      intro field member inserted
      obtain same | old := mem_keys_insert.mp inserted
      · exact own (mem_map.mpr ⟨field, member, same⟩)
      · exact others field member old
    refine (ih keys later (members.insert normal) unused).mono ?_
    rintro result' bytes work ⟨grows, names, kept⟩
    refine ⟨?_, fun other => ?_, forall_mem_cons.mpr ⟨⟨normalized, ?_, extends_⟩, kept⟩⟩
    · simpa only [Nat.add_assoc, Nat.zero_add] using grows.insert new
    · rw [names, mem_keys_insert, map_cons, mem_cons]
      tauto
    · exact grows.kept _ (mem_insert.mpr (.inl rfl))

/-- `rest` are the properties still to be looked at; none of their names is among the members
unless it was given. -/
theorem fillDefaults_spending (below : Normalizes levels)
    (typed : ∀ entry ∈ properties, DistinctSchema entry.2) {fields : List (String × Json)}
    {rest : List (String × Schema)} (keys : (rest.map fst).Nodup)
    (known : ∀ entry ∈ rest, properties.lookup entry.1 = some entry.2)
    (members : Members levels properties result)
    (given : ∀ entry ∈ rest, entry.1 ∈ result.map fst ↔ entry.1 ∈ fields.map fst) :
    Spending (fillDefaults (normalize levels) fields result rest)
      fun result' bytes work => (∃ visits, work = visits + rest.length ∧
          Grows levels properties result result' bytes visits) ∧
        ∀ entry ∈ rest, (defaultOf entry.2).isSome = true → entry.1 ∈ result'.map fst := by
  induction rest generalizing result with
  | nil => exact spending_pure ⟨⟨0, rfl, .refl members⟩, by simp⟩
  | cons entry rest ih =>
    obtain ⟨name, schema⟩ := entry
    obtain ⟨own, keys⟩ := nodup_cons.mp keys
    obtain ⟨here, later⟩ := forall_mem_cons.mp known
    obtain ⟨mine, others⟩ := forall_mem_cons.mp given
    refine visit_spending.bind ?_
    rintro _ _ _ ⟨rfl, rfl⟩
    split
    · rename_i default absent provided
      have fresh : name ∉ result.map fst := by
        rw [mine, ← Assoc.lookup_isSome_iff, absent]
        simp
      refine (property_spending name _).bind ?_
      rintro _ _ _ ⟨rfl, rfl⟩
      have distinct := typed _ (mem_of_lookup here)
      have decoded : Distinct default := by
        cases distinct with
        | anyOf => cases provided
        | keywords _ decoded _ _ => exact decoded default provided
      refine (below _ default (by rintro _ ⟨⟩; exact distinct) decoded).bind ?_
      rintro normalized _ _ ⟨normal, _, rfl, rfl⟩
      rw [← here] at normal
      have given' : ∀ entry ∈ rest,
          entry.1 ∈ (insert name normalized result).map fst ↔ entry.1 ∈ fields.map fst := by
        intro entry member
        rw [mem_keys_insert, others entry member]
        refine or_iff_right ?_
        intro same
        exact own (mem_map.mpr ⟨entry, member, same⟩)
      refine (ih keys later (members.insert normal) given').mono ?_
      rintro result' bytes work ⟨⟨visits, rfl, grows⟩, filled⟩
      refine ⟨⟨effort (some schema) normalized + visits, ?_, ?_⟩,
        forall_mem_cons.mpr ⟨fun _ => ?_, filled⟩⟩
      · rw [length_cons]
        omega
      · rw [← here]
        simpa only [Nat.add_assoc, Nat.zero_add] using grows.insert fresh
      · exact mem_map_of_mem (grows.kept _ (mem_insert.mpr (.inl rfl)))
    · rename_i present
      refine (ih keys later members others).mono ?_
      rintro result' bytes work ⟨⟨visits, rfl, grows⟩, filled⟩
      refine ⟨⟨visits, by rw [length_cons]; omega, by simpa using grows⟩,
        forall_mem_cons.mpr ⟨fun provided => ?_, filled⟩⟩
      -- the default is not needed, so the member was given
      obtain ⟨default, provided⟩ := Option.isSome_iff_exists.mp provided
      have found : (fields.lookup name).isSome = true := by
        rw [← Option.ne_none_iff_isSome]
        exact fun absent => present default absent provided
      obtain ⟨entry, member, same⟩ := mem_map.mp (mine.mpr (lookup_isSome_iff.mp found))
      exact mem_map.mpr ⟨entry, grows.kept entry member, same⟩

theorem normalizeItems_spending (below : Normalizes levels)
    (typed : ∀ known, schema = some known → DistinctSchema known) {result : List Json}
    (each : ∀ item ∈ items, Distinct item) (normal : ∀ item ∈ result, Normal levels schema item) :
    Spending (normalizeItems (normalize levels) schema result items)
      fun result' bytes work => (∃ added, result' = result ++ added ∧
          items.length = added.length ∧ ∀ pair ∈ items.zip added, Extends pair.1 pair.2) ∧
        (∀ item ∈ result', Normal levels schema item) ∧
        itemsBytes result' = itemsBytes result + bytes ∧
        effortItems schema result' = effortItems schema result + work := by
  induction items generalizing result with
  | nil => exact spending_pure ⟨⟨[], by simp⟩, normal, rfl, rfl⟩
  | cons item items ih =>
    obtain ⟨here, later⟩ := forall_mem_cons.mp each
    refine (charge_spending _).bind ?_
    rintro _ _ _ ⟨rfl, rfl⟩
    refine (below schema item typed here).bind ?_
    rintro normalized _ _ ⟨own, extends_, rfl, rfl⟩
    refine (ih later (Assoc.forall_mem_snoc.mpr ⟨normal, own⟩)).mono ?_
    rintro _ bytes work ⟨⟨added, rfl, length, kept⟩, normals, sizes, visits⟩
    refine ⟨⟨normalized :: added, by simp, by simp [length], ?_⟩, normals, ?_, ?_⟩
    · exact forall_mem_cons.mpr ⟨extends_, kept⟩
    · rw [sizes, itemsBytes_snoc]
      omega
    · rw [visits, effortItems_append]
      simp only [effortItems]
      omega

omit [FloatText] in
theorem propertiesOf_distinct {schema : Option Schema}
    (typed : ∀ known, schema = some known → DistinctSchema known) :
    ((propertiesOf schema).map fst).Nodup ∧
      ∀ entry ∈ propertiesOf schema, DistinctSchema entry.2 := by
  match schema, typed with
  | none, _ => exact ⟨nodup_nil, nofun⟩
  | some (.anyOf _), _ => exact ⟨nodup_nil, nofun⟩
  | some (.keywords object), typed =>
    cases typed _ rfl with
    | keywords keys _ properties _ => exact ⟨keys, properties⟩

omit [FloatText] in
theorem itemsOf_distinct {schema : Option Schema}
    (typed : ∀ known, schema = some known → DistinctSchema known) :
    ∀ known, itemsOf schema = some known → DistinctSchema known := by
  match schema, typed with
  | none, _ => exact nofun
  | some (.anyOf _), _ => exact nofun
  | some (.keywords object), typed =>
    cases typed _ rfl with
    | keywords _ _ _ items => exact items

theorem normalizes (levels : Nat) : Normalizes levels := by
  induction levels with
  | zero => exact fun _ _ _ _ _ _ => trivial
  | succ levels below =>
    intro schema value typed distinct
    have scalar : ∀ value, Normal (levels + 1) schema value → effort schema value = 1 →
        Spending (do serialized value.text; return value) fun result bytes work =>
          Normal (levels + 1) schema result ∧ Extends value result ∧
          0 + bytes = result.serializedBytes ∧ 1 + work = effort schema result := by
      intro value normal single
      refine (charge_spending _).bind ?_
      rintro _ _ _ ⟨rfl, rfl⟩
      exact spending_pure ⟨normal, .same value, by simp [Json.serializedBytes], by simp [single]⟩
    refine visit_spending.bind ?_
    rintro _ _ _ ⟨rfl, rfl⟩
    cases distinct with
    | null => exact scalar .null trivial rfl
    | bool value => exact scalar _ trivial rfl
    | number value => exact scalar _ trivial rfl
    | string value => exact scalar _ trivial rfl
    | array each =>
      refine (charge_spending 2).bind ?_
      rintro _ _ _ ⟨rfl, rfl⟩
      have none : ∀ item ∈ [], Normal levels (itemsOf schema) item := forall_mem_nil _
      refine (normalizeItems_spending below (itemsOf_distinct typed) each none).bind ?_
      rintro _ bytes work ⟨⟨added, rfl, length, kept⟩, normal, sizes, visits⟩
      refine spending_pure ⟨normal, .array length kept, ?_, ?_⟩
      · rw [Json.serializedBytes_array]
        simp only [itemsBytes, map_nil, sum_nil, length_nil] at sizes
        omega
      · simp only [effort, visits, effortItems]
        omega
    | object keys each =>
      obtain ⟨names, schemas⟩ := propertiesOf_distinct typed
      refine (charge_spending 2).bind ?_
      rintro _ _ _ ⟨rfl, rfl⟩
      have empty : Members levels (propertiesOf schema) [] := ⟨.nil, forall_mem_nil _⟩
      refine (normalizeFields_spending below schemas keys each empty (by simp)).bind ?_
      rintro result bytes work ⟨grows, given, kept⟩
      refine (fillDefaults_spending below schemas names
        (fun entry member => lookup_of_mem names member) grows.members
        (fun entry _ => by simpa using given _)).bind ?_
      rintro final more further ⟨⟨visits, rfl, grew⟩, filled⟩
      have : Nonempty Json := ⟨.null⟩
      choose! image inside extended using kept
      refine spending_pure ⟨⟨grew.members.1, grew.members.2, filled⟩,
        .object image (fun field member => grew.kept _ (inside field member)) extended, ?_, ?_⟩
      · have first := grows.bytes
        have second := grew.bytes
        rw [Json.serializedBytes_object]
        simp only [membersBytes, map_nil, sum_nil, length_nil] at first second
        omega
      · have first := grows.work
        have second := grew.work
        simp only [effortFields] at first
        simp only [effort]
        omega

end Spending

section Affording

variable [FloatText] {levels : Nat} {properties : List (String × Schema)}

/-- Normalization gives back a normal value below. -/
def Settles (levels : Nat) : Prop :=
  ∀ schema value, Normal levels schema value →
    Affords (normalize levels schema value) value value.serializedBytes (effort schema value)

/-- The members are in order, so each is inserted last. -/
theorem normalizeFields_affords (below : Settles levels) (before : List (String × Json))
    {fields : List (String × Json)} (sorted : Assoc.Sorted (before ++ fields))
    (normal : ∀ field ∈ fields, Normal levels (properties.lookup field.1) field.2) :
    ∃ bytes, membersBytes (before ++ fields) = membersBytes before + bytes ∧
      Affords (normalizeFields (normalize levels) properties before fields) (before ++ fields)
        bytes (effortFields properties fields) := by
  induction fields generalizing before with
  | nil => exact ⟨0, by simp, by rw [append_nil]; exact affords_pure before⟩
  | cons field fields ih =>
    obtain ⟨name, value⟩ := field
    obtain ⟨here, later⟩ := forall_mem_cons.mp normal
    have above : ∀ entry ∈ before, entry.1 < name := fun entry member =>
      (pairwise_append.mp sorted).2.2 entry member _ mem_cons_self
    have fresh : name ∉ before.map fst := by
      intro member
      obtain ⟨entry, held, same⟩ := mem_map.mp member
      exact (above entry held).ne same
    have last := insert_last value above
    have grown := membersBytes_insert value fresh
    rw [last] at grown
    rw [append_cons] at sorted ⊢
    obtain ⟨bytes, sizes, rest⟩ := ih _ sorted later
    refine ⟨(!before.isEmpty).toNat + 1 + (quote name).utf8ByteSize +
      (value.serializedBytes + bytes), by omega, ?_⟩
    rw [← last] at rest ⊢
    refine ((property_affords name _).bind ((below _ value here).bind rest)).exact rfl ?_
    rw [effortFields, Nat.zero_add]

omit [FloatText] in
/-- Every member with a default is there, so nothing is added. -/
theorem fillDefaults_affords {fields : List (String × Json)}
    (filled : ∀ entry ∈ rest, (defaultOf entry.2).isSome = true → entry.1 ∈ fields.map fst) :
    Affords (fillDefaults recurse fields result rest) result 0 rest.length := by
  induction rest with
  | nil => exact affords_pure result
  | cons entry rest ih =>
    obtain ⟨name, schema⟩ := entry
    obtain ⟨here, later⟩ := forall_mem_cons.mp filled
    have skips : Affords (match fields.lookup name, defaultOf schema with
        | none, some default => do
          property name result.isEmpty
          let field ← recurse (some schema) default
          fillDefaults recurse fields (insert name field result) rest
        | _, _ => fillDefaults recurse fields result rest) result 0 rest.length := by
      split
      · rename_i default absent provided
        have found := lookup_isSome_iff.mpr (here (by rw [provided]; rfl))
        rw [absent] at found
        cases found
      · exact ih later
    rw [length_cons, Nat.add_comm]
    exact visit_affords.bind (f := fun _ => _) skips

theorem normalizeItems_affords (below : Settles levels) (before : List Json)
    (normal : ∀ item ∈ items, Normal levels schema item) :
    ∃ bytes, itemsBytes (before ++ items) = itemsBytes before + bytes ∧
      Affords (normalizeItems (normalize levels) schema before items) (before ++ items)
        bytes (effortItems schema items) := by
  induction items generalizing before with
  | nil => exact ⟨0, by simp, by rw [append_nil]; exact affords_pure before⟩
  | cons item items ih =>
    obtain ⟨here, later⟩ := forall_mem_cons.mp normal
    have grown := itemsBytes_snoc before item
    obtain ⟨bytes, sizes, rest⟩ := ih (before ++ [item]) later
    rw [append_cons]
    refine ⟨(!before.isEmpty).toNat + (item.serializedBytes + bytes), by omega, ?_⟩
    refine ((charge_affords (!before.isEmpty).toNat).bind
      ((below _ item here).bind rest)).exact rfl ?_
    rw [effortItems, Nat.zero_add]

theorem settles (levels : Nat) : Settles levels := by
  induction levels with
  | zero => exact fun _ _ normal => normal.elim
  | succ levels below =>
    intro schema value normal
    have scalar : ∀ value, effort schema value = 1 →
        Affords (do visit; serialized value.text; return value) value value.serializedBytes
          (effort schema value) := by
      intro value single
      refine (visit_affords.bind ((charge_affords _).bind
        (affords_pure value))).exact ?_ single.symm
      rw [Nat.zero_add, Nat.add_zero, Json.serializedBytes]
    cases value with
    | null => exact scalar .null rfl
    | bool value => exact scalar _ rfl
    | number value => exact scalar _ rfl
    | string value => exact scalar _ rfl
    | array items =>
      obtain ⟨bytes, sizes, loop⟩ := normalizeItems_affords below [] normal
      refine (visit_affords.bind ((charge_affords 2).bind
        (loop.bind (f := fun result => pure _) (affords_pure _)))).exact ?_ ?_
      · rw [Json.serializedBytes_array]
        simp only [itemsBytes, nil_append, map_nil, sum_nil, length_nil] at sizes
        omega
      · simp only [effort]
        omega
    | object fields =>
      obtain ⟨sorted, each, filled⟩ := normal
      obtain ⟨bytes, sizes, loop⟩ := normalizeFields_affords below [] sorted each
      refine (visit_affords.bind ((charge_affords 2).bind
        (loop.bind ((fillDefaults_affords filled).bind
          (f := fun result => pure _) (affords_pure _))))).exact ?_ ?_
      · rw [Json.serializedBytes_object]
        simp only [membersBytes, nil_append, map_nil, sum_nil, length_nil] at sizes
        omega
      · simp only [effort]
        omega

end Affording

theorem fieldsWithDefaultsRequired_eq_map (properties : List (String × Schema)) :
    fieldsWithDefaultsRequired properties =
      properties.map fun entry => (entry.1, withDefaultsRequired entry.2) := by
  induction properties with
  | nil => rfl
  | cons entry properties ih => rw [fieldsWithDefaultsRequired, ih, map_cons]

theorem getD_propertiesWithDefaultsRequired (properties : Option (List (String × Schema))) :
    (propertiesWithDefaultsRequired properties).getD [] =
      (properties.getD []).map fun entry => (entry.1, withDefaultsRequired entry.2) := by
  cases properties with
  | none => rfl
  | some properties => exact fieldsWithDefaultsRequired_eq_map properties

theorem hasDefault_iff (schema : Schema) : schema.hasDefault = (defaultOf schema).isSome := by
  cases schema <;> rfl

/-- A name is required by the author, or because it has a default. -/
theorem requiredWithDefaults_cases
    (needed : key ∈ (objectWithDefaultsRequired object).required.getD []) :
    key ∈ object.required.getD [] ∨ ∃ schema, (key, schema) ∈ object.properties.getD [] ∧
      (defaultOf schema).isSome = true := by
  obtain ⟨type, properties, required, additional, items, enum, const, maxLength, default,
    description⟩ := object
  simp only [objectWithDefaultsRequired] at needed
  split at needed
  · exact .inl needed
  · simp only [Option.getD_some, mem_append, mem_insertionSort, mem_dedup,
      mem_filter, mem_map] at needed
    obtain own | ⟨⟨entry, ⟨listed, provided⟩, rfl⟩, _⟩ := needed
    · exact .inl own
    · exact .inr ⟨entry.2, listed, hasDefault_iff _ ▸ provided⟩

/-- A normal instance has the members whose defaults the contract requires. -/
theorem withDefaultsRequired_valid (distinct : DistinctSchema schema)
    (normal : Normal levels (some schema) value) (valid : schema.isValid value = true) :
    (withDefaultsRequired schema).isValid value = true := by
  induction levels generalizing schema value with
  | zero => exact normal.elim
  | succ levels ih =>
    cases distinct with
    | anyOf alternatives => exact valid
    | keywords keys decoded properties items =>
      rename_i object
      obtain ⟨type, fieldSchemas, required, additional, itemSchema, enum, const, maxLength,
        default, description⟩ := object
      have admits := (isValid_keywords_iff _ value).mp valid
      refine (isValid_keywords_iff _ value).mpr ⟨admits.type, admits.enum, admits.const,
        admits.maxLength, ?_, ?_, ?_, ?_⟩
      · rintro fields rfl key needed
        have listed := requiredWithDefaults_cases needed
        obtain own | ⟨schema, member, filled⟩ := listed
        · exact admits.required fields rfl key own
        · exact Option.isSome_iff_exists.mp (lookup_isSome_iff.mpr (normal.2.2 _ member filled))
      · rintro fields rfl key schema member field found
        rw [objectWithDefaultsRequired, getD_propertiesWithDefaultsRequired] at member
        obtain ⟨⟨name, known⟩, listed, same⟩ := mem_map.mp member
        cases same
        have below := normal.2.1 _ (mem_of_lookup found)
        rw [propertiesOf, lookup_of_mem keys listed] at below
        exact ih (properties _ listed) below (admits.properties fields rfl _ _ listed field found)
      · rintro fields rfl closed field member
        obtain ⟨schema, declared⟩ := admits.closed fields rfl closed field member
        refine ⟨withDefaultsRequired schema, ?_⟩
        rw [objectWithDefaultsRequired, getD_propertiesWithDefaultsRequired]
        exact mem_map.mpr ⟨_, declared, rfl⟩
      · rintro elements schema rfl held element member
        cases itemSchema with
        | none => cases held
        | some known =>
          cases held
          exact ih (items known rfl) (normal element member)
            (admits.items elements known rfl rfl element member)

section Contract

variable [FloatText]

/-- Filling in the defaults keeps what was given, charges the size of its result, settles at
once, and leaves what the contract with required defaults asks for; a failure changes nothing. -/
theorem applySchemaDefaults_contract {schema : Schema} {value : Json}
    (decodedSchema : DistinctSchema schema) (decoded : Distinct value) :
    (∀ failure after, applySchemaDefaults schema value = (.error failure, after) → after = value) ∧
    ∀ result, applySchemaDefaults schema value = (.ok (), result) → Extends value result ∧
      applySchemaDefaults schema result = (.ok (), result) ∧
      (∃ budget, normalize (maxValueDepth + 1) (some schema) value {} = .ok (result, budget) ∧
        budget.bytes = result.serializedBytes) ∧
      (schema.isValid result = true → (withDefaultsRequired schema).isValid result = true) := by
  unfold applySchemaDefaults
  have spends := normalizes (maxValueDepth + 1) (some schema) value
    (by rintro _ ⟨⟩; exact decodedSchema) decoded {} ⟨Nat.zero_le _, Nat.zero_le _⟩
  cases ran : normalize (maxValueDepth + 1) (some schema) value {} with
  | error failure =>
    refine ⟨fun _ _ same => (mk.inj same).2.symm, fun _ same => ?_⟩
    cases (mk.inj same).1
  | ok outcome =>
    obtain ⟨result, budget⟩ := outcome
    rw [ran] at spends
    obtain ⟨within, bytes, work, rfl, normal, extended, rfl, rfl⟩ := spends
    refine ⟨fun _ _ same => absurd (mk.inj same).1 nofun, fun other same => ?_⟩
    obtain rfl := (mk.inj same).2
    have again := settles _ _ _ normal {} within.1 within.2
    refine ⟨extended, ?_, ⟨_, rfl, Nat.zero_add _⟩, ?_⟩
    · rw [again]
    · exact withDefaultsRequired_valid decodedSchema normal

end Contract

def rowsSchema : Schema :=
  closed [("rows", .keywords
    { type := .array, default := some (.array [.object []])
      items := some (closed [("count", .keywords
        { type := .integer, default := some (.number (.int 1)) })] []) })] []

/-- An empty input gets its rows, and the row its count. -/
theorem applySchemaDefaults_contract_rows : letI := FloatText.exact
    let filled := Json.object [("rows", .array [.object [("count", .number (.int 1))]])]
    validateWorkflowSchema rowsSchema "input" = .ok () ∧
      applySchemaDefaults rowsSchema (.object []) = (.ok (), filled) ∧
      applySchemaDefaults rowsSchema filled = (.ok (), filled) ∧
      (withDefaultsRequired rowsSchema).isValid filled = true := by
  let := FloatText.exact
  intro filled
  have accepted : validateWorkflowSchema rowsSchema "input" = .ok () :=
    toOption_eq_some_iff.mp (by decide +kernel)
  have applied : applySchemaDefaults rowsSchema (.object []) = (.ok (), filled) := by
    rfl
  have decoded : DistinctSchema rowsSchema := by
    refine .keywords (by decide) (by simp) ?_ (by simp)
    simp only [Option.getD_some, mem_singleton, forall_eq]
    refine .keywords (by decide) ?_ (by simp) ?_
    · rintro _ ⟨⟩
      exact .array (by simpa using .object (by simp) (by simp))
    · rintro _ ⟨⟩
      refine .keywords (by decide) (by simp) ?_ (by simp)
      simp only [Option.getD_some, mem_singleton, forall_eq]
      exact .keywords (by decide) (by rintro _ ⟨⟩; exact .number _) (by simp) (by simp)
  have empty : Distinct (.object []) := .object nodup_nil (by simp)
  obtain ⟨_, contract⟩ := applySchemaDefaults_contract decoded empty
  obtain ⟨_, settled, _, required⟩ := contract filled applied
  exact ⟨accepted, applied, settled, required (by decide +kernel)⟩

end RustX.Defaults
