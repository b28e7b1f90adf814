import RustX.Library.Assoc
import RustX.Workflow.Json

/-!
Places inside a JSON value that a stateful visitor rewrites in order. A place that is indexed
mutably comes into being with the value `null`, as `IndexMut` of `serde_json` has it.
-/
namespace RustX

open List Json Assoc Option

namespace Json

/-- `Index`: an absent member reads as `null`. -/
def index (value : Json) (key : String) : Json :=
  (value.get key).getD .null

/-- Change the member under a key, where there is one. -/
def modifyField (key : String) (change : Json → Json) : List (String × Json) → List (String × Json)
  | [] => []
  | (name, old) :: fields =>
    if name = key then (name, change old) :: fields
    else (name, old) :: modifyField key change fields

def modify (key : String) (change : Json → Json) : Json → Json
  | .object fields => .object (modifyField key change fields)
  | value => value

/-- `IndexMut`: `null` becomes an object, an absent member `null`; nothing else has members. -/
def touch (key : String) : Json → Option Json
  | .null => some (.object [(key, .null)])
  | .object fields =>
    some (.object (if (fields.lookup key).isSome then fields else insert key .null fields))
  | _ => none

theorem lookup_modifyField_self (key : String) (change : Json → Json)
    (fields : List (String × Json)) :
    (modifyField key change fields).lookup key = (fields.lookup key).map change := by
  induction fields with
  | nil => rfl
  | cons field fields ih =>
    rw [modifyField, lookup_cons_ite]
    split
    · rename_i same
      rw [lookup_cons_ite, if_pos same.symm, if_pos same.symm, map_some]
    · rename_i differs
      rw [lookup_cons_ite, if_neg (Ne.symm differs), if_neg (Ne.symm differs), ih]

theorem lookup_modifyField_of_ne (ne : other ≠ key) (change : Json → Json)
    (fields : List (String × Json)) :
    (modifyField key change fields).lookup other = fields.lookup other := by
  induction fields with
  | nil => rfl
  | cons field fields ih =>
    rw [modifyField, lookup_cons_ite]
    split
    · rename_i same
      rw [lookup_cons_ite, if_neg (same ▸ ne), if_neg (same ▸ ne)]
    · rw [lookup_cons_ite, ih]

theorem modifyField_modifyField (key : String) (first second : Json → Json)
    (fields : List (String × Json)) :
    modifyField key second (modifyField key first fields) =
      modifyField key (second ∘ first) fields := by
  induction fields with
  | nil => rfl
  | cons field fields ih =>
    obtain ⟨name, old⟩ := field
    by_cases same : name = key
    · simp [modifyField, same]
    · simp [modifyField, same, ih]

/-- What happens under two keys happens in any order. -/
theorem modifyField_comm (ne : other ≠ key) (change instead : Json → Json)
    (fields : List (String × Json)) :
    modifyField other instead (modifyField key change fields) =
      modifyField key change (modifyField other instead fields) := by
  induction fields with
  | nil => rfl
  | cons field fields ih =>
    obtain ⟨name, old⟩ := field
    by_cases same : name = key
    · simp [modifyField, same, Ne.symm ne]
    · by_cases also : name = other
      · simp [modifyField, also, ne]
      · simp [modifyField, same, also, ih]

/-- Fields whose members under a key become the same are the same but for that member. -/
theorem modifyField_inj {fields others : List (String × Json)}
    (same : modifyField key change fields = modifyField key change others)
    (member : fields.lookup key = others.lookup key) : fields = others := by
  induction fields generalizing others with
  | nil =>
    cases others with
    | nil => rfl
    | cons other others =>
      rw [modifyField, modifyField] at same
      split at same <;> cases same
  | cons field fields ih =>
    obtain ⟨name, old⟩ := field
    cases others with
    | nil =>
      rw [modifyField, modifyField] at same
      split at same <;> cases same
    | cons other others =>
      obtain ⟨name', old'⟩ := other
      rw [lookup_cons_ite, lookup_cons_ite] at member
      simp only [modifyField] at same
      split at same <;> split at same <;>
        simp only [List.cons.injEq, Prod.mk.injEq] at same
      · rename_i first second
        rw [if_pos first.symm, if_pos second.symm, some.injEq] at member
        change old = old' at member
        rw [same.1.1, same.2, member]
      · exact absurd (same.1.1 ▸ ‹name = key›) ‹¬ name' = key›
      · exact absurd (same.1.1 ▸ ‹name' = key›) ‹¬ name = key›
      · rename_i first second
        rw [if_neg (Ne.symm first), if_neg (Ne.symm second)] at member
        rw [same.1.1, same.1.2, ih same.2 member]

@[simp] theorem get_modify_self (key : String) (change : Json → Json) (value : Json) :
    (value.modify key change).get key = (value.get key).map change := by
  cases value with
  | object fields => exact lookup_modifyField_self key change fields
  | _ => rfl

theorem get_modify_of_ne {other : String} (ne : other ≠ key) (change : Json → Json) (value : Json) :
    (value.modify key change).get other = value.get other := by
  cases value with
  | object fields => exact lookup_modifyField_of_ne ne change fields
  | _ => rfl

theorem modify_modify (key : String) (first second : Json → Json) (value : Json) :
    (value.modify key first).modify key second = value.modify key (second ∘ first) := by
  cases value with
  | object fields => exact congrArg object (modifyField_modifyField key first second fields)
  | _ => rfl

theorem modify_comm {other : String} (ne : other ≠ key) (change instead : Json → Json)
    (value : Json) :
    (value.modify key change).modify other instead =
      (value.modify other instead).modify key change := by
  cases value with
  | object fields => exact congrArg object (modifyField_comm ne change instead fields)
  | _ => rfl

theorem modify_inj {value other : Json} (same : value.modify key change = other.modify key change)
    (member : value.get key = other.get key) : value = other := by
  cases value with
  | object fields =>
    cases other with
    | object others =>
      rw [modifyField_inj (object.inj same) member]
    | _ => cases same
  | _ =>
    cases other with
    | object others => cases same
    | _ => exact same

/-- A change matters only for the member it meets. -/
theorem modify_congr {value : Json}
    (agree : ∀ old, value.get key = some old → first old = second old) :
    value.modify key first = value.modify key second := by
  cases value with
  | object fields =>
    refine congrArg object ?_
    change ∀ old, fields.lookup key = some old → first old = second old at agree
    induction fields with
    | nil => rfl
    | cons field fields ih =>
      obtain ⟨name, old⟩ := field
      by_cases same : name = key
      · rw [modifyField, modifyField, if_pos same, if_pos same,
          agree old (by rw [lookup_cons_ite, if_pos same.symm])]
      · rw [modifyField, modifyField, if_neg same, if_neg same, ih]
        intro other found
        exact agree other (by rwa [lookup_cons_ite, if_neg (Ne.symm same)])
  | _ => rfl

section Touch

variable {value : Json}

theorem get_touch_self (done : value.touch key = some touched) :
    touched.get key = some (value.index key) := by
  cases value with
  | null =>
    cases done
    simp [get, index]
  | object fields =>
    cases done
    cases found : fields.lookup key with
    | none => simp [get, index, found, lookup_insert_self]
    | some old => simp [get, index, found]
  | _ => cases done

theorem get_touch_of_ne (ne : other ≠ key) (done : value.touch key = some touched) :
    touched.get other = value.get other := by
  cases value with
  | null =>
    cases done
    simp [get, lookup_cons_ite, ne]
  | object fields =>
    cases done
    split
    · rfl
    · exact lookup_insert_of_ne ne _ _
  | _ => cases done

theorem touch_of_get (found : value.get key = some old) : value.touch key = some value := by
  cases value with
  | object fields =>
    have present : fields.lookup key = some old := found
    simp [touch, present]
  | _ => cases found

end Touch

end Json

namespace Places

/-- Rewrite the value at a place, with state; no result is a crash. -/
abbrev Visitor (σ : Type) := Json → σ → Option (Json × σ)

section Visitors

variable {σ : Type}

/-- Visit `value[key]`. -/
def atKey (key : String) (inner : Visitor σ) : Visitor σ := fun value state => do
  let value ← value.touch key
  let (member, state) ← inner (value.index key) state
  some (value.modify key fun _ => member, state)

def visitItems (inner : Visitor σ) : List Json → σ → Option (List Json × σ)
  | [], state => some ([], state)
  | item :: items, state => do
    let (item, state) ← inner item state
    let (items, state) ← visitItems inner items state
    some (item :: items, state)

def eachItem (inner : Visitor σ) : Visitor σ
  | .array items, state => do
    let (items, state) ← visitItems inner items state
    some (.array items, state)
  | value, state => some (value, state)

def andThen (first second : Visitor σ) : Visitor σ := fun value state => do
  let (value, state) ← first value state
  second value state

def pass : Visitor σ := fun value state => some (value, state)

/-- Rewrite what a list of places holds, in order. -/
def runAll {τ : Type} (field : τ → Visitor σ) : List (τ × Json) → σ → Option (List (τ × Json) × σ)
  | [], state => some ([], state)
  | (tag, held) :: slots, state => do
    let (held, state) ← field tag held state
    let (slots, state) ← runAll field slots state
    some ((tag, held) :: slots, state)

end Visitors

/-- Which places a traversal reaches: what they hold in order, whether all of them exist, and
the value without what they hold. -/
structure Reached (τ : Type) where
  slots : Json → List (τ × Json)
  complete : Json → Prop
  blank : Json → Json

/-- A traversal makes its places exist, visits them in order and changes nothing else. -/
structure Visits {τ : Type} (places : Reached τ)
    (visit : {σ : Type} → (τ → Visitor σ) → Visitor σ) : Prop where
  sound : ∀ {σ : Type} {field : τ → Visitor σ} {value after : Json} {state final : σ},
    visit field value state = some (after, final) →
      runAll field (places.slots value) state = some (places.slots after, final) ∧
        places.complete after ∧ (places.complete value → places.blank after = places.blank value)
  runs : ∀ {σ : Type} {field : τ → Visitor σ} {value : Json} {state final : σ}
    {slots : List (τ × Json)}, places.complete value →
    runAll field (places.slots value) state = some (slots, final) →
      ∃ after, visit field value state = some (after, final)
  ext : ∀ {value other : Json}, places.complete value → places.complete other →
    places.blank value = places.blank other → places.slots value = places.slots other →
      value = other
  shape : ∀ {value other : Json}, places.blank value = places.blank other →
    (places.slots value).length = (places.slots other).length
  complete_blank : ∀ {value : Json}, places.complete (places.blank value) ↔ places.complete value

theorem runAll_append {σ τ : Type} {field : τ → Visitor σ} {first second slots : List (τ × Json)}
    {state final : σ} :
    runAll field (first ++ second) state = some (slots, final) ↔
      ∃ front back middle, slots = front ++ back ∧ runAll field first state = some (front, middle) ∧
        runAll field second middle = some (back, final) := by
  induction first generalizing state slots final with
  | nil => simp [runAll]
  | cons slot first ih =>
    obtain ⟨tag, held⟩ := slot
    simp only [cons_append, runAll, bind_eq_bind, bind_eq_some_iff,
      Prod.exists, some.injEq, Prod.mk.injEq, ih]
    constructor
    · rintro ⟨rewritten, next, here, _, _, ⟨front, back, middle, rfl, left, right⟩, rfl, rfl⟩
      exact ⟨(tag, rewritten) :: front, back, middle, rfl,
        ⟨rewritten, next, here, front, middle, left, rfl, rfl⟩, right⟩
    · rintro ⟨_, back, _, rfl, ⟨rewritten, next, here, front, middle, left, rfl, rfl⟩, right⟩
      exact ⟨rewritten, next, here, front ++ back, final,
        ⟨front, back, middle, rfl, left, right⟩, rfl, rfl⟩

namespace Reached

variable {τ ι : Type}

def leaf (tag : τ) : Reached τ where
  slots := fun value => [(tag, value)]
  complete := fun _ => True
  blank := fun _ => .null

def none : Reached τ where
  slots := fun _ => []
  complete := fun _ => True
  blank := id

def atKey (key : String) (inner : Reached τ) : Reached τ where
  slots := fun value => inner.slots (value.index key)
  complete := fun value => ∃ member, value.get key = some member ∧ inner.complete member
  blank := modify key inner.blank

def eachItem (inner : Reached τ) : Reached τ where
  slots := fun value => (value.asArray.getD []).flatMap inner.slots
  complete := fun value => ∀ item ∈ value.asArray.getD [], inner.complete item
  blank := fun
    | .array items => .array (items.map inner.blank)
    | value => value

def pick (select : Json → ι) (cases : ι → Reached τ) : Reached τ where
  slots := fun value => (cases (select value)).slots value
  complete := fun value => (cases (select value)).complete value
  blank := fun value => (cases (select value)).blank value

/-- Two traversals of the same value. -/
def andThen (first second : Reached τ) : Reached τ where
  slots := fun value => first.slots value ++ second.slots value
  complete := fun value => first.complete value ∧ second.complete value
  blank := fun value => second.blank (first.blank value)

end Reached

variable {τ ι : Type}

theorem visits_leaf (tag : τ) : Visits (Reached.leaf tag) fun field => field tag where
  sound := fun {σ field value after state final} ran => by
    refine ⟨?_, trivial, fun _ => rfl⟩
    simp [Reached.leaf, runAll, ran]
  runs := fun {σ field value state final slots} _ ran => by
    simp only [Reached.leaf, runAll, bind_eq_bind, bind_eq_some_iff, Prod.exists,
      some.injEq, Prod.mk.injEq] at ran
    obtain ⟨after, next, here, _, _, ⟨-, rfl⟩, -, rfl⟩ := ran
    exact ⟨after, here⟩
  ext := fun _ _ _ same => by simpa [Reached.leaf] using same
  shape := fun _ => rfl
  complete_blank := Iff.rfl

theorem visits_none : Visits (Reached.none : Reached τ) fun _ => pass where
  sound := fun {σ field value after state final} ran => by
    cases ran
    exact ⟨rfl, trivial, fun _ => rfl⟩
  runs := fun {σ field value state final slots} _ ran => by
    cases ran
    exact ⟨value, rfl⟩
  ext := fun _ _ same _ => same
  shape := fun _ => rfl
  complete_blank := Iff.rfl

section Combined

variable {places : Reached τ} {visit : {σ : Type} → (τ → Visitor σ) → Visitor σ}

theorem Visits.atKey (key : String) (inner : Visits places visit) :
    Visits (places.atKey key) fun field => atKey key (visit field) where
  sound := fun {σ field value after state final} ran => by
    simp only [Places.atKey, bind_eq_bind, bind_eq_some_iff, Prod.exists,
      some.injEq, Prod.mk.injEq] at ran
    obtain ⟨touched, done, member, _, visited, rfl, rfl⟩ := ran
    have found := get_touch_self done
    have read : touched.index key = value.index key := by rw [index, found]; rfl
    rw [read] at visited
    obtain ⟨slots, complete, frame⟩ := inner.sound visited
    have written : (touched.modify key fun _ => member).get key = some member := by
      rw [get_modify_self, found]
      rfl
    refine ⟨?_, ⟨member, written, complete⟩, ?_⟩
    · rw [Reached.atKey, slots]
      simp [index, found]
    rintro ⟨old, held, whole⟩
    rw [touch_of_get held] at done
    cases done
    have same : value.index key = old := by rw [index, held]; rfl
    rw [same] at frame
    change (value.modify key fun _ => member).modify key places.blank = _
    rw [modify_modify]
    refine modify_congr fun other also => ?_
    rw [held, some.injEq] at also
    rw [Function.comp_apply, frame whole, also]
  runs := fun {σ field value state final slots} whole ran => by
    obtain ⟨member, held, complete⟩ := whole
    have read : value.index key = member := by rw [index, held]; rfl
    obtain ⟨after, visited⟩ := inner.runs (read ▸ complete) ran
    exact ⟨value.modify key fun _ => after, by simp [Places.atKey, touch_of_get held, visited]⟩
  ext := fun {value other} whole also blank slots => by
    obtain ⟨member, held, complete⟩ := whole
    obtain ⟨member', held', complete'⟩ := also
    have members : places.blank member = places.blank member' := by
      have same := congrArg (get · key) blank
      simpa [Reached.atKey, held, held'] using same
    have same : member = member' := by
      refine inner.ext complete complete' members ?_
      simpa [Reached.atKey, index, held, held'] using slots
    exact modify_inj blank (by rw [held, held', same])
  shape := fun {value other} blank => by
    have same := congrArg (get · key) blank
    simp only [Reached.atKey, get_modify_self] at same
    refine inner.shape ?_
    cases held : value.get key <;> cases held' : other.get key <;>
      simp_all [index]
  complete_blank := fun {value} => by
    simp only [Reached.atKey, get_modify_self, map_eq_some_iff]
    constructor
    · rintro ⟨_, ⟨member, held, rfl⟩, complete⟩
      exact ⟨member, held, inner.complete_blank.mp complete⟩
    · rintro ⟨member, held, complete⟩
      exact ⟨_, ⟨member, held, rfl⟩, inner.complete_blank.mpr complete⟩

section

variable (inner : Visits places visit)
include inner

/-- A field that rewrites nothing leaves a complete value as it is. -/
theorem Visits.same {σ : Type} {field : τ → Visitor σ} {value : Json} {state final : σ}
    (whole : places.complete value)
    (ran : runAll field (places.slots value) state = some (places.slots value, final)) :
    visit field value state = some (value, final) := by
  obtain ⟨after, visited⟩ := inner.runs whole ran
  obtain ⟨slots, complete, frame⟩ := inner.sound visited
  rw [ran, some.injEq, Prod.mk.injEq] at slots
  rw [visited, inner.ext complete whole (frame whole) slots.1.symm]

theorem visitItems_sound {σ : Type} {field : τ → Visitor σ} {items after : List Json}
    {state final : σ} (ran : visitItems (visit field) items state = some (after, final)) :
    runAll field (items.flatMap places.slots) state = some (after.flatMap places.slots, final) ∧
      (∀ item ∈ after, places.complete item) ∧
      ((∀ item ∈ items, places.complete item) → after.map places.blank = items.map places.blank) := by
  induction items generalizing state after with
  | nil =>
    cases ran
    exact ⟨rfl, by simp, fun _ => rfl⟩
  | cons item items ih =>
    simp only [visitItems, bind_eq_bind, bind_eq_some_iff, Prod.exists,
      some.injEq, Prod.mk.injEq] at ran
    obtain ⟨first, middle, here, rest, _, later, rfl, rfl⟩ := ran
    obtain ⟨slots, complete, frame⟩ := inner.sound here
    obtain ⟨restSlots, restComplete, restFrame⟩ := ih later
    refine ⟨runAll_append.mpr ⟨_, _, middle, rfl, slots, restSlots⟩,
      forall_mem_cons.mpr ⟨complete, restComplete⟩, fun whole => ?_⟩
    obtain ⟨wholeHere, wholeRest⟩ := forall_mem_cons.mp whole
    rw [map_cons, map_cons, frame wholeHere, restFrame wholeRest]

theorem visitItems_runs {σ : Type} {field : τ → Visitor σ} {items : List Json} {state final : σ}
    {slots : List (τ × Json)} (whole : ∀ item ∈ items, places.complete item)
    (ran : runAll field (items.flatMap places.slots) state = some (slots, final)) :
    ∃ after, visitItems (visit field) items state = some (after, final) := by
  induction items generalizing state slots with
  | nil =>
    cases ran
    exact ⟨[], rfl⟩
  | cons item items ih =>
    obtain ⟨front, back, middle, -, left, right⟩ := runAll_append.mp ran
    obtain ⟨wholeHere, wholeRest⟩ := forall_mem_cons.mp whole
    obtain ⟨first, here⟩ := inner.runs wholeHere left
    obtain ⟨rest, later⟩ := ih wholeRest right
    exact ⟨first :: rest, by simp [visitItems, here, later]⟩

theorem items_shape {items others : List Json}
    (blank : items.map places.blank = others.map places.blank) :
    (items.flatMap places.slots).length = (others.flatMap places.slots).length := by
  induction items generalizing others with
  | nil =>
    cases others with
    | nil => rfl
    | cons other others => cases blank
  | cons item items ih =>
    cases others with
    | nil => cases blank
    | cons other others =>
      rw [map_cons, map_cons, List.cons.injEq] at blank
      simp [inner.shape blank.1, ih blank.2]

theorem items_ext {items others : List Json} (whole : ∀ item ∈ items, places.complete item)
    (also : ∀ item ∈ others, places.complete item)
    (blank : items.map places.blank = others.map places.blank)
    (slots : items.flatMap places.slots = others.flatMap places.slots) : items = others := by
  induction items generalizing others with
  | nil =>
    cases others with
    | nil => rfl
    | cons other others => cases blank
  | cons item items ih =>
    cases others with
    | nil => cases blank
    | cons other others =>
      rw [map_cons, map_cons, List.cons.injEq] at blank
      obtain ⟨here, later⟩ := append_inj slots (inner.shape blank.1)
      obtain ⟨wholeHere, wholeRest⟩ := forall_mem_cons.mp whole
      obtain ⟨alsoHere, alsoRest⟩ := forall_mem_cons.mp also
      rw [inner.ext wholeHere alsoHere blank.1 here, ih wholeRest alsoRest blank.2 later]

theorem Visits.eachItem : Visits places.eachItem fun field => eachItem (visit field) where
  sound := fun {σ field value after state final} ran => by
    cases value with
    | array items =>
      simp only [Places.eachItem, bind_eq_bind, bind_eq_some_iff, Prod.exists,
        some.injEq, Prod.mk.injEq] at ran
      obtain ⟨rest, _, visited, rfl, rfl⟩ := ran
      obtain ⟨slots, complete, frame⟩ := visitItems_sound inner visited
      exact ⟨slots, complete, fun whole => congrArg array (frame whole)⟩
    | _ =>
      cases ran
      exact ⟨rfl, by simp [Reached.eachItem, asArray], fun _ => rfl⟩
  runs := fun {σ field value state final slots} whole ran => by
    cases value with
    | array items =>
      obtain ⟨after, visited⟩ : ∃ after,
          visitItems (visit field) items state = some (after, final) :=
        visitItems_runs inner whole ran
      exact ⟨.array after, by simp [Places.eachItem, visited]⟩
    | _ =>
      cases ran
      exact ⟨_, rfl⟩
  ext := fun {value other} whole also blank slots => by
    cases value with
    | array items =>
      cases other with
      | array others =>
        exact congrArg array (items_ext inner whole also (array.inj blank) slots)
      | _ => cases blank
    | _ =>
      cases other with
      | array others => cases blank
      | _ => exact blank
  shape := fun {value other} blank => by
    cases value with
    | array items =>
      cases other with
      | array others => exact items_shape inner (array.inj blank)
      | _ => cases blank
    | _ =>
      cases other with
      | array others => cases blank
      | _ => rfl
  complete_blank := fun {value} => by
    cases value with
    | array items =>
      change (∀ item ∈ items.map places.blank, places.complete item) ↔ ∀ item ∈ items, _
      simp [inner.complete_blank]
    | _ => exact Iff.rfl

end

/-- What a choice is made by is not changed by the traversal chosen. -/
theorem visits_pick {select : Json → ι} {cases : ι → Reached τ}
    {visits : ι → {σ : Type} → (τ → Visitor σ) → Visitor σ}
    (each : ∀ choice, Visits (cases choice) (visits choice))
    (stable : ∀ {choice : ι} {σ : Type} {field : τ → Visitor σ} {value after : Json}
      {state final : σ}, visits choice field value state = some (after, final) →
        select after = select value)
    (blank : ∀ (choice : ι) (value : Json), select ((cases choice).blank value) = select value) :
    Visits (Reached.pick select cases) fun field value => visits (select value) field value where
  sound := fun {σ field value after state final} ran => by
    simpa only [Reached.pick, stable ran] using (each _).sound ran
  runs := fun whole ran => (each _).runs whole ran
  ext := fun {value other} whole also same slots => by
    have chosen : select value = select other := by
      rw [← blank, ← blank _ other]
      exact congrArg select same
    simp only [Reached.pick, ← chosen] at also same slots
    exact (each _).ext whole also same slots
  shape := fun {value other} same => by
    have chosen : select value = select other := by
      rw [← blank, ← blank _ other]
      exact congrArg select same
    simp only [Reached.pick, ← chosen] at same ⊢
    exact (each _).shape same
  complete_blank := fun {value} => by
    simp only [Reached.pick, blank]
    exact (each _).complete_blank

/-- A traversal that neither reads nor writes the member under a key. -/
structure Ignores (key : String) (places : Reached τ)
    (visit : {σ : Type} → (τ → Visitor σ) → Visitor σ) : Prop where
  agree : ∀ {value other : Json}, (∀ name, name ≠ key → value.get name = other.get name) →
    places.slots value = places.slots other ∧ (places.complete value ↔ places.complete other)
  blank_modify : ∀ (change : Json → Json) (value : Json),
    places.blank (value.modify key change) = (places.blank value).modify key change
  get_blank : ∀ value : Json, (places.blank value).get key = value.get key
  get_visit : ∀ {σ : Type} {field : τ → Visitor σ} {value after : Json} {state final : σ},
    visit field value state = some (after, final) → after.get key = value.get key

theorem atKey_get_of_ne {key other : String} (ne : other ≠ key) {σ : Type} {inner : Visitor σ}
    {value after : Json} {state final : σ}
    (ran : Places.atKey key inner value state = some (after, final)) :
    after.get other = value.get other := by
  simp only [Places.atKey, bind_eq_bind, bind_eq_some_iff, Prod.exists,
    some.injEq, Prod.mk.injEq] at ran
  obtain ⟨touched, done, member, _, -, rfl, -⟩ := ran
  rw [get_modify_of_ne ne, get_touch_of_ne ne done]

theorem ignores_atKey {key other : String} (ne : key ≠ other) (places : Reached τ)
    (visit : {σ : Type} → (τ → Visitor σ) → Visitor σ) :
    Ignores key (places.atKey other) fun field => Places.atKey other (visit field) where
  agree := fun {value others} same => by
    have member := same other (Ne.symm ne)
    simp only [Reached.atKey, index, member, and_self]
  blank_modify := fun change value => modify_comm (Ne.symm ne) change places.blank value
  get_blank := fun value => get_modify_of_ne ne _ value
  get_visit := fun ran => atKey_get_of_ne ne ran

theorem ignores_none (key : String) : Ignores key (Reached.none : Reached τ) fun _ => pass where
  agree := fun _ => ⟨rfl, Iff.rfl⟩
  blank_modify := fun _ _ => rfl
  get_blank := fun _ => rfl
  get_visit := fun ran => by
    cases ran
    rfl

theorem ignores_pick {key : String} {select : Json → ι} {cases : ι → Reached τ}
    {visits : ι → {σ : Type} → (τ → Visitor σ) → Visitor σ}
    (each : ∀ choice, Ignores key (cases choice) (visits choice))
    (agree : ∀ {value other : Json}, (∀ name, name ≠ key → value.get name = other.get name) →
      select value = select other) :
    Ignores key (Reached.pick select cases) fun field value => visits (select value) field value where
  agree := fun {value other} same => by
    simpa only [Reached.pick, agree same] using (each _).agree same
  blank_modify := fun change value => by
    have chosen : select (value.modify key change) = select value :=
      agree fun name ne => get_modify_of_ne ne change value
    simpa only [Reached.pick, chosen] using (each _).blank_modify change value
  get_blank := fun value => (each _).get_blank value
  get_visit := fun ran => (each _).get_visit ran

/-- One member first, and then what is not below it. -/
theorem Visits.atKey_andThen {key : String} {others : Reached τ}
    {visitOthers : {σ : Type} → (τ → Visitor σ) → Visitor σ} (inner : Visits places visit)
    (rest : Visits others visitOthers) (ignores : Ignores key others visitOthers) :
    Visits ((places.atKey key).andThen others)
      fun field => andThen (Places.atKey key (visit field)) (visitOthers field) where
  sound := fun {σ field value after state final} ran => by
    simp only [Places.andThen, bind_eq_bind, bind_eq_some_iff, Prod.exists] at ran
    obtain ⟨middle, between, first, second⟩ := ran
    obtain ⟨slots, complete, frame⟩ := (inner.atKey key).sound first
    obtain ⟨slots', complete', frame'⟩ := rest.sound second
    have kept := ignores.agree fun name ne => atKey_get_of_ne ne first
    have held := ignores.get_visit second
    have read : after.index key = middle.index key := by rw [index, index, held]
    refine ⟨?_, ⟨?_, complete'⟩, fun whole => ?_⟩
    · refine runAll_append.mpr ⟨_, _, between, ?_, slots, kept.1 ▸ slots'⟩
      simp only [Reached.andThen, Reached.atKey, read]
    · simpa only [Reached.atKey, held] using complete
    · simp only [Reached.andThen, Reached.atKey]
      have blank := frame whole.1
      simp only [Reached.atKey] at blank
      rw [ignores.blank_modify, frame' (kept.2.mpr whole.2), ← ignores.blank_modify, blank]
  runs := fun {σ field value state final slots} whole ran => by
    obtain ⟨front, back, between, -, left, right⟩ := runAll_append.mp ran
    obtain ⟨middle, first⟩ := (inner.atKey key).runs whole.1 left
    have kept := ignores.agree fun name ne => atKey_get_of_ne ne first
    obtain ⟨after, second⟩ := rest.runs (kept.2.mpr whole.2) (kept.1.symm ▸ right)
    exact ⟨after, by simp [Places.andThen, first, second]⟩
  ext := fun {value other} whole also blank slots => by
    simp only [Reached.andThen] at whole also blank slots
    have unread : ∀ value : Json, others.slots ((places.atKey key).blank value) = others.slots value ∧
        (others.complete ((places.atKey key).blank value) ↔ others.complete value) :=
      fun value => ignores.agree fun name ne => get_modify_of_ne ne _ value
    have atKeyBlank : (places.atKey key).blank (others.blank value) =
        (places.atKey key).blank (others.blank other) := by
      simp only [Reached.atKey, ← ignores.blank_modify]
      exact blank
    have length := (inner.atKey key).shape atKeyBlank
    simp only [Reached.atKey, index, ignores.get_blank] at length
    obtain ⟨first, second⟩ := append_inj slots length
    have same := rest.ext ((unread value).2.mpr whole.2) ((unread other).2.mpr also.2) blank
      (by rw [(unread value).1, (unread other).1, second])
    exact (inner.atKey key).ext whole.1 also.1 same first
  shape := fun {value other} blank => by
    have unread : ∀ value : Json, others.slots ((places.atKey key).blank value) = others.slots value :=
      fun value => (ignores.agree fun name ne => get_modify_of_ne ne _ value).1
    have atKeyBlank : (places.atKey key).blank (others.blank value) =
        (places.atKey key).blank (others.blank other) := by
      simp only [Reached.atKey, ← ignores.blank_modify]
      exact blank
    have length := (inner.atKey key).shape atKeyBlank
    simp only [Reached.atKey, index, ignores.get_blank] at length
    have second := rest.shape blank
    rw [unread, unread] at second
    simp only [Reached.andThen, length_append, second]
    exact congrArg (· + _) length
  complete_blank := fun {value} => by
    have unread := (ignores.agree fun name ne =>
      get_modify_of_ne ne places.blank value).2
    simp only [Reached.andThen, rest.complete_blank]
    refine and_congr ?_ unread
    refine Iff.trans ?_ (inner.atKey key).complete_blank
    simp only [Reached.atKey, ignores.get_blank]

end Combined

end Places

end RustX
