import RustX.Workflow.Defaults
import RustX.Workflow.Documents
import RustX.Workflow.Reservation

/-!
The bytes that a reservation takes for a value of a schema, before the value is known.
-/
namespace RustX

open List

namespace Json

mutual

/-- A number at any depth: equal numbers may be written in several lengths. -/
def hasNumber : Json → Bool
  | .number _ => true
  | .array items => hasNumberItems items
  | .object fields => hasNumberFields fields
  | _ => false

def hasNumberItems : List Json → Bool
  | [] => false
  | item :: items => hasNumber item || hasNumberItems items

def hasNumberFields : List (String × Json) → Bool
  | [] => false
  | (_, value) :: fields => hasNumber value || hasNumberFields fields

end

mutual

theorem hasNumber_normalize (value : Json) : value.normalize.hasNumber = value.hasNumber ∧
    (value.hasNumber = false → value.normalize = value) := by
  cases value with
  | array items =>
    obtain ⟨same, fixed⟩ := hasNumberItems_normalize items
    exact ⟨same, fun none => congrArg array (fixed none)⟩
  | object fields =>
    obtain ⟨same, fixed⟩ := hasNumberFields_normalize fields
    exact ⟨same, fun none => congrArg object (fixed none)⟩
  | _ => simp [normalize, hasNumber]

theorem hasNumberItems_normalize (items : List Json) :
    hasNumberItems (normalizeItems items) = hasNumberItems items ∧
      (hasNumberItems items = false → normalizeItems items = items) := by
  cases items with
  | nil => simp [normalizeItems]
  | cons item items =>
    obtain ⟨same, fixed⟩ := hasNumber_normalize item
    obtain ⟨rest, fixedRest⟩ := hasNumberItems_normalize items
    simp +contextual [normalizeItems, hasNumberItems, same, fixed, rest, fixedRest]

theorem hasNumberFields_normalize (fields : List (String × Json)) :
    hasNumberFields (normalizeFields fields) = hasNumberFields fields ∧
      (hasNumberFields fields = false → normalizeFields fields = fields) := by
  cases fields with
  | nil => simp [normalizeFields]
  | cons field fields =>
    obtain ⟨same, fixed⟩ := hasNumber_normalize field.2
    obtain ⟨rest, fixedRest⟩ := hasNumberFields_normalize fields
    simp +contextual [normalizeFields, hasNumberFields, same, fixed, rest, fixedRest]

end

/-- A value without numbers is equal to itself alone. -/
theorem eq_of_numberless {member : Json} (same : value.normalize = member.normalize)
    (plain : member.hasNumber = false) : value = member := by
  obtain ⟨-, fixed⟩ := member.hasNumber_normalize
  obtain ⟨kept, own⟩ := value.hasNumber_normalize
  rw [fixed plain] at same
  rwa [own (by rw [← kept, same, plain])] at same

end Json

namespace Schema

section Bound

variable [FloatText]

mutual

def schemaValueBound : Schema → Nat
  | .anyOf _ => maxValueBytes
  | .keywords object => objectBound (finiteSchemaValues (.keywords object)) object

def objectBound (finite : Option (List Json)) : Keywords Schema → Nat
  | ⟨type, properties, _, additional, _, _, _, _, _, _⟩ =>
    match finite with
    | some values =>
      if values.any Json.hasNumber then maxValueBytes
      else min ((values.map Json.serializedBytes).max?.getD maxValueBytes) maxValueBytes
    | none =>
      match type with
      | .null => 4
      | .boolean => 5
      | .object => if additional = some false then propertiesBound properties else maxValueBytes
      | _ => maxValueBytes

def propertiesBound : Option (List (String × Schema)) → Nat
  | none => 2
  | some properties =>
    min (propertiesBytes 2 properties - (!properties.isEmpty).toNat) maxValueBytes

def propertiesBytes (bytes : Nat) : List (String × Schema) → Nat
  | [] => bytes
  | (key, value) :: rest =>
    let piece := (quote key).utf8ByteSize + 2 + schemaValueBound value
    propertiesBytes (Document.saturating (bytes + piece)) rest

end

/-- A member with its key, its colon and the comma before it. -/
def propertyBytes (property : String × Schema) : Nat :=
  (quote property.1).utf8ByteSize + 2 + schemaValueBound property.2

theorem le_propertiesBytes (small : n ≤ maxValueBytes + 1)
    (within : n ≤ bytes + (properties.map propertyBytes).sum) :
    n ≤ propertiesBytes bytes properties := by
  induction properties generalizing bytes with
  | nil => simpa [propertiesBytes] using within
  | cons property rest ih =>
    rw [propertiesBytes]
    apply ih
    rw [map_cons, sum_cons, propertyBytes] at within
    simp only [Document.saturating, maxValueBytes] at small ⊢
    omega

variable {fields : List (String × Json)}

/-- The members of a closed object take the room of distinct properties. -/
theorem sum_memberBytes_le {properties : List (String × Schema)}
    (distinct : (fields.map Prod.fst).Nodup)
    (each : ∀ field ∈ fields, ∃ schema, (field.1, schema) ∈ properties ∧
      field.2.serializedBytes ≤ schemaValueBound schema) :
    (fields.map Json.memberBytes).sum + fields.length ≤ (properties.map propertyBytes).sum := by
  have : Nonempty Schema := ⟨.anyOf []⟩
  choose! schema declared bounded using each
  have chosen : (fields.map fun field => (field.1, schema field)) <+~ properties := by
    refine subperm_of_subset (Nodup.of_map Prod.fst ?_) ?_
    · rwa [map_map]
    · rintro _ member
      obtain ⟨field, among, rfl⟩ := mem_map.mp member
      exact declared field among
  obtain ⟨taken, perm, sub⟩ := chosen
  calc (fields.map Json.memberBytes).sum + fields.length
    _ = (fields.map fun field => Json.memberBytes field + 1).sum := by simp [sum_map_add]
    _ ≤ (fields.map fun field => propertyBytes (field.1, schema field)).sum := by
      refine sum_le_sum fun field member => ?_
      have := bounded field member
      simp only [Json.memberBytes, propertyBytes]
      omega
    _ = (taken.map propertyBytes).sum := by
      rw [(perm.map _).sum_eq, map_map]
      rfl
    _ ≤ (properties.map propertyBytes).sum := (sub.map _).sum_le_sum (by simp)

theorem object_le_propertiesBound {properties : Option (List (String × Schema))}
    (distinct : (fields.map Prod.fst).Nodup)
    (each : ∀ field ∈ fields, ∃ schema, (field.1, schema) ∈ properties.getD [] ∧
      field.2.serializedBytes ≤ schemaValueBound schema)
    (fits : (Json.object fields).serializedBytes ≤ maxValueBytes) :
    (Json.object fields).serializedBytes ≤ propertiesBound properties := by
  have sum := sum_memberBytes_le distinct each
  rw [Json.serializedBytes_object] at fits ⊢
  rcases properties with _ | _ | ⟨property, rest⟩
  · simp [propertiesBound] at sum ⊢
    simp [sum]
  · simp [propertiesBound, propertiesBytes, maxValueBytes] at sum ⊢
    simp [sum]
  · refine le_min (Nat.le_sub_of_add_le (le_propertiesBytes (Nat.succ_le_succ fits) ?_)) fits
    have positive : 2 ≤ propertyBytes property := by
      rw [propertyBytes]
      omega
    cases fields <;> simp at sum ⊢ <;> omega

/-- No value of a schema, within the limit of every value, is longer than its bound. -/
theorem schemaValueBound_dominates (schema : Schema) (value : Json)
    (distinct : Defaults.Distinct value) (valid : schema.isValid value = true)
    (fits : value.serializedBytes ≤ maxValueBytes) :
    value.serializedBytes ≤ schema.schemaValueBound := by
  induction schema generalizing value with
  | anyOf alternatives => exact fits
  | keywords object properties items =>
    have admits := (isValid_keywords_iff object value).mp valid
    have type := admits.type
    obtain ⟨kind, members, _, additional⟩ := object
    simp only [schemaValueBound, objectBound]
    split
    · next values finite =>
      obtain ⟨member, listed, same⟩ := finiteSchemaValues_sound finite valid
      split
      · exact fits
      · next numberless =>
        simp only [any_eq_true, not_exists, not_and, Bool.not_eq_true] at numberless
        have equal := Json.eq_of_numberless same (numberless member listed)
        exact le_min (le_max?_getD_of_mem (mem_map_of_mem (equal ▸ listed))) fits
    · split
      · cases value <;> simp [SchemaType.admits] at type
        exact le_rfl
      · cases value <;> simp [SchemaType.admits] at type
        next value =>
          cases value
          · exact le_refl 5
          · exact Nat.le_succ 4
      · split
        · next closed =>
          cases distinct with
          | object keys each =>
            refine object_le_propertiesBound keys (fun field member => ?_) fits
            obtain ⟨schema, declared⟩ := admits.closed _ rfl closed field member
            have found := Assoc.lookup_of_mem keys member
            refine ⟨schema, declared, properties _ _ declared _ (each field member)
              (admits.properties _ rfl _ _ declared _ found) ?_⟩
            have part := Guarded.memberBytes_le found
            rw [Json.serializedBytes_object] at fits
            omega
          | _ => simp [SchemaType.admits] at type
        · exact fits
      · exact fits

end Bound

/-- The bound of one flag is the length of the longer of its two values. -/
theorem schemaValueBound_dominates_flag : letI := FloatText.exact
    let flag := closed [("ok", .keywords { type := .boolean })] ["ok"]
    let value := Json.object [("ok", .bool false)]
    value.serializedBytes = 12 ∧ value.serializedBytes ≤ flag.schemaValueBound := by
  let := FloatText.exact
  refine ⟨rfl, schemaValueBound_dominates _ _ ?_ rfl (by decide)⟩
  exact .object (by simp) (by simpa using .bool false)

end Schema

end RustX
