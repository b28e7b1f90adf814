import Mathlib

/-!
JSON values as `serde_json` holds them, with the compact text it writes.
Objects keep their fields in key order, as the sorted map behind `Value::Object`
does. A float is a dyadic rational: negative zero is not told apart from zero,
and the shortest decimal text of a float is a parameter.
-/
namespace RustX

/-- The integers of the 64-bit signed and unsigned ranges share one constructor:
`serde_json` never holds one integer in two ways. -/
inductive Number
  | int (value : Int)
  | float (value : Dyadic)
  deriving DecidableEq

namespace Number

def toDyadic : Number → Dyadic
  | .int value => Dyadic.ofInt value
  | .float value => value

/-- No fractional part: what the `integer` type of JSON Schema asks for. -/
def isIntegral (n : Number) : Bool :=
  n.toDyadic.precision.all fun exponent => decide (exponent ≤ 0)

theorem isIntegral_int (value : Int) : (int value).isIntegral = true := by
  by_cases zero : value = 0
  · subst zero
    rfl
  · have bound := Dyadic.precision_ofIntWithPrec_le zero 0
    cases found : (Dyadic.ofIntWithPrec value 0).precision with
    | none => simp [isIntegral, toDyadic, Dyadic.ofInt, found]
    | some exponent => simpa [isIntegral, toDyadic, Dyadic.ofInt, found] using bound

/-- One representative for each numerical value. -/
def normalize (n : Number) : Number :=
  .float n.toDyadic

end Number

inductive Json
  | null
  | bool (value : Bool)
  | number (value : Number)
  | string (value : String)
  | array (items : List Json)
  | object (fields : List (String × Json))

namespace Json

mutual

def beq : Json → Json → Bool
  | .null, .null => true
  | .bool a, .bool b => a == b
  | .number a, .number b => decide (a = b)
  | .string a, .string b => decide (a = b)
  | .array a, .array b => beqItems a b
  | .object a, .object b => beqFields a b
  | _, _ => false

def beqItems : List Json → List Json → Bool
  | [], [] => true
  | a :: as, b :: bs => beq a b && beqItems as bs
  | _, _ => false

def beqFields : List (String × Json) → List (String × Json) → Bool
  | [], [] => true
  | (key, a) :: as, (key', b) :: bs => decide (key = key') && beq a b && beqFields as bs
  | _, _ => false

end

mutual

theorem beq_iff (a b : Json) : beq a b = true ↔ a = b := by
  cases a with
  | array items => cases b <;> simp [beq, beqItems_iff items]
  | object fields => cases b <;> simp [beq, beqFields_iff fields]
  | _ => cases b <;> simp [beq]

theorem beqItems_iff (as bs : List Json) : beqItems as bs = true ↔ as = bs := by
  cases as with
  | nil => cases bs <;> simp [beqItems]
  | cons a as => cases bs <;> simp [beqItems, beq_iff a, beqItems_iff as]

theorem beqFields_iff (as bs : List (String × Json)) : beqFields as bs = true ↔ as = bs := by
  cases as with
  | nil => cases bs <;> simp [beqFields]
  | cons field as =>
    obtain ⟨key, a⟩ := field
    cases bs with
    | nil => simp [beqFields]
    | cons other bs =>
      obtain ⟨key', b⟩ := other
      simp [beqFields, beq_iff a, beqFields_iff as]

end

instance : DecidableEq Json := fun a b => decidable_of_iff (beq a b = true) (beq_iff a b)

/-- `Value::get` with a string index. -/
def get (value : Json) (key : String) : Option Json :=
  match value with
  | .object fields => fields.lookup key
  | _ => none

def asBool : Json → Option Bool
  | .bool value => some value
  | _ => none

def asStr : Json → Option String
  | .string value => some value
  | _ => none

/-- An unsigned 64-bit number, when the value is one. -/
def asU64 : Json → Option Nat
  | .number (.int n) => if 0 ≤ n ∧ n < 2 ^ 64 then some n.toNat else none
  | _ => none

def asArray : Json → Option (List Json)
  | .array items => some items
  | _ => none

def isNumber : Json → Bool
  | .number _ => true
  | _ => false

mutual

def normalize : Json → Json
  | .number n => .number n.normalize
  | .array items => .array (normalizeItems items)
  | .object fields => .object (normalizeFields fields)
  | .null => .null
  | .bool value => .bool value
  | .string value => .string value

def normalizeItems : List Json → List Json
  | [] => []
  | item :: items => normalize item :: normalizeItems items

def normalizeFields : List (String × Json) → List (String × Json)
  | [] => []
  | (key, value) :: fields => (key, normalize value) :: normalizeFields fields

end

/-- Equality of instances as JSON Schema defines it: `1` and `1.0` are equal.
The derived equality of `serde_json`, which tells them apart, is `=`. -/
def same (a b : Json) : Bool :=
  decide (a.normalize = b.normalize)

theorem normalizeItems_eq_map (items : List Json) : normalizeItems items = items.map normalize := by
  induction items with
  | nil => rfl
  | cons item items ih => simp [normalizeItems, ih]

theorem lookup_normalizeFields (fields : List (String × Json)) (key : String) :
    (normalizeFields fields).lookup key = (fields.lookup key).map normalize := by
  induction fields with
  | nil => rfl
  | cons field fields ih =>
    obtain ⟨name, value⟩ := field
    rw [normalizeFields, List.lookup_cons, List.lookup_cons]
    cases key == name <;> simp [ih]

theorem keys_normalizeFields (fields : List (String × Json)) :
    (normalizeFields fields).map Prod.fst = fields.map Prod.fst := by
  induction fields with
  | nil => rfl
  | cons field fields ih => simp [normalizeFields, ih]

theorem same_iff (a b : Json) : a.same b = true ↔ a.normalize = b.normalize := by
  simp [same]

/-- Equal values agree on every member. -/
theorem normalize_eq_object {a : Json} (same : a.normalize = (object fields).normalize) :
    ∃ fields', a = .object fields' ∧ fields'.map Prod.fst = fields.map Prod.fst ∧
      ∀ key, (fields'.lookup key).map normalize = (fields.lookup key).map normalize := by
  cases a <;> simp only [normalize, reduceCtorEq, object.injEq] at same
  refine ⟨_, rfl, ?_, fun key => ?_⟩
  · rw [← keys_normalizeFields, same, keys_normalizeFields]
  · rw [← lookup_normalizeFields, same, lookup_normalizeFields]

/-- Equal values agree on every element. -/
theorem normalize_eq_array {a : Json} (same : a.normalize = (array items).normalize) :
    ∃ items', a = .array items' ∧ items'.map normalize = items.map normalize := by
  cases a <;> simp only [normalize, reduceCtorEq, array.injEq] at same
  exact ⟨_, rfl, by rw [← normalizeItems_eq_map, same, normalizeItems_eq_map]⟩

end Json

/-- The decimal text of a float, as the serializer's float printer writes it. -/
class FloatText where
  text : Dyadic → String

/-- The full decimal expansion, one possible printer. -/
@[reducible] def FloatText.exact : FloatText where text
    | .zero => "0.0"
    | .ofOdd n exponent _ =>
      if exponent ≤ 0 then toString (n * 2 ^ (-exponent).toNat) ++ ".0"
      else
        let places := exponent.toNat
        let digits := (toString (n.natAbs * 5 ^ places)).toList.leftpad (places + 1) (Char.ofNat 48)
        (if n < 0 then "-" else "") ++ String.ofList (digits.take (digits.length - places)) ++ "." ++
          String.ofList (digits.drop (digits.length - places))

def hexDigit (n : Nat) : Char :=
  if n < 10 then Char.ofNat (48 + n) else Char.ofNat (87 + n)

/-- The short escapes of the serializer; other control characters take the
six-byte form. -/
def escapeChar (c : Char) : String :=
  match c.toNat with
  | 0x22 => "\\\""
  | 0x5c => "\\\\"
  | 0x08 => "\\b"
  | 0x09 => "\\t"
  | 0x0a => "\\n"
  | 0x0c => "\\f"
  | 0x0d => "\\r"
  | n =>
    if n < 0x20 then
      "\\u00" ++ String.ofList [hexDigit (n / 16), hexDigit (n % 16)]
    else String.singleton c

def quoteChars : List Char → String
  | [] => "\""
  | c :: cs => escapeChar c ++ quoteChars cs

def quote (s : String) : String :=
  "\"" ++ quoteChars s.toList

section Text

variable [FloatText]

def Number.text : Number → String
  | .int value => toString value
  | .float value => FloatText.text value

namespace Json

mutual

/-- `serde_json::to_string`. -/
def text : Json → String
  | .null => "null"
  | .bool true => "true"
  | .bool false => "false"
  | .number n => n.text
  | .string s => quote s
  | .array items => "[" ++ textItems true items ++ "]"
  | .object fields => "\x7b" ++ textFields true fields ++ "\x7d"

def textItems (first : Bool) : List Json → String
  | [] => ""
  | item :: items => (if first then "" else ",") ++ text item ++ textItems false items

def textFields (first : Bool) : List (String × Json) → String
  | [] => ""
  | (key, value) :: fields =>
    (if first then "" else ",") ++ quote key ++ ":" ++ text value ++ textFields false fields

end

/-- Length in bytes of the compact serialization. -/
def serializedBytes (value : Json) : Nat :=
  value.text.utf8ByteSize

/-- A member of an object, without the comma that separates it. -/
def memberBytes (member : String × Json) : Nat :=
  (quote member.1).utf8ByteSize + 1 + member.2.serializedBytes

theorem textItems_bytes (first : Bool) (items : List Json) : (textItems first items).utf8ByteSize =
      (items.map serializedBytes).sum + (items.length - first.toNat) := by
  induction items generalizing first with
  | nil => cases first <;> rfl
  | cons item items ih =>
    cases first with
    | false =>
      have comma : ",".utf8ByteSize = 1 := rfl
      simp [textItems, ih, serializedBytes, String.utf8ByteSize_append, comma]
      omega
    | true =>
      simp [textItems, ih, serializedBytes, String.utf8ByteSize_append]
      omega

theorem textFields_bytes (first : Bool) (fields : List (String × Json)) :
    (textFields first fields).utf8ByteSize =
      (fields.map memberBytes).sum + (fields.length - first.toNat) := by
  have colon : ":".utf8ByteSize = 1 := rfl
  induction fields generalizing first with
  | nil => cases first <;> rfl
  | cons field fields ih =>
    cases first with
    | false =>
      have comma : ",".utf8ByteSize = 1 := rfl
      simp [textFields, ih, memberBytes, serializedBytes, String.utf8ByteSize_append, comma, colon]
      omega
    | true =>
      simp [textFields, ih, memberBytes, serializedBytes, String.utf8ByteSize_append, colon]
      omega

/-- Brackets, the items, and a comma between every two. -/
theorem serializedBytes_array (items : List Json) :
    (array items).serializedBytes = 2 + (items.map serializedBytes).sum + (items.length - 1) := by
  have brackets : "[".utf8ByteSize = 1 ∧ "]".utf8ByteSize = 1 := ⟨rfl, rfl⟩
  simp only [serializedBytes, text, String.utf8ByteSize_append, textItems_bytes, brackets,
    Bool.toNat_true]
  omega

/-- Braces, the members, and a comma between every two. -/
theorem serializedBytes_object (fields : List (String × Json)) :
    (object fields).serializedBytes = 2 + (fields.map memberBytes).sum + (fields.length - 1) := by
  have braces : "\x7b".utf8ByteSize = 1 ∧ "\x7d".utf8ByteSize = 1 := ⟨rfl, rfl⟩
  simp only [serializedBytes, text, String.utf8ByteSize_append, textFields_bytes, braces,
    Bool.toNat_true]
  omega

end Json

end Text

namespace Json

mutual

/-- Nesting below a value: zero for a scalar or an empty container. -/
def height : Json → Nat
  | .array items => heightItems items
  | .object fields => heightFields fields
  | _ => 0

def heightItems : List Json → Nat
  | [] => 0
  | item :: items => max (height item + 1) (heightItems items)

def heightFields : List (String × Json) → Nat
  | [] => 0
  | (_, value) :: fields => max (height value + 1) (heightFields fields)

end

end Json

end RustX
