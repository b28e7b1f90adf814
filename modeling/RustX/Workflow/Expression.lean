import RustX.Library.Assoc
import RustX.Workflow.Base

/-!
Typed value expressions and predicates of a workflow, and their evaluation in
the block input and the values committed so far.
-/
namespace RustX

open Checked

inductive WorkflowValue
  | reference (path : List String)
  | literal (value : Json)
  | object (fields : List (String × WorkflowValue))
  | array (items : List WorkflowValue)
  | template (parts : List WorkflowValue)

inductive BinaryOperator
  | equal | notEqual | greater | greaterEqual | less | lessEqual
  | contains | notContains | startsWith | endsWith
  deriving DecidableEq, Repr

/-- The two-operand predicates share one constructor. -/
inductive WorkflowPredicate
  | boolean (value : WorkflowValue)
  | binary (operator : BinaryOperator) (left right : WorkflowValue)
  | empty (value : WorkflowValue)
  | notEmpty (value : WorkflowValue)
  | not (predicate : WorkflowPredicate)
  | and (predicates : List WorkflowPredicate)
  | or (predicates : List WorkflowPredicate)

namespace WorkflowValue

mutual

def toJson : WorkflowValue → Json
  | .reference path =>
    .object [("type", .string "reference"), ("path", .array (path.map .string))]
  | .literal value => .object [("type", .string "literal"), ("value", value)]
  | .object fields => .object [("type", .string "object"), ("fields", .object (toJsonFields fields))]
  | .array items => .object [("type", .string "array"), ("items", .array (toJsonItems items))]
  | .template parts => .object [("type", .string "template"), ("parts", .array (toJsonItems parts))]

def toJsonFields : List (String × WorkflowValue) → List (String × Json)
  | [] => []
  | (key, value) :: fields => (key, toJson value) :: toJsonFields fields

def toJsonItems : List WorkflowValue → List Json
  | [] => []
  | item :: items => toJson item :: toJsonItems items

end

end WorkflowValue

def BinaryOperator.name : BinaryOperator → String
  | .equal => "equal"
  | .notEqual => "not_equal"
  | .greater => "greater"
  | .greaterEqual => "greater_equal"
  | .less => "less"
  | .lessEqual => "less_equal"
  | .contains => "contains"
  | .notContains => "not_contains"
  | .startsWith => "starts_with"
  | .endsWith => "ends_with"

namespace WorkflowPredicate

mutual

def toJson : WorkflowPredicate → Json
  | .boolean value => .object [("type", .string "boolean"), ("value", value.toJson)]
  | .binary operator left right =>
    .object [("type", .string operator.name), ("left", left.toJson), ("right", right.toJson)]
  | .empty value => .object [("type", .string "empty"), ("value", value.toJson)]
  | .notEmpty value => .object [("type", .string "not_empty"), ("value", value.toJson)]
  | .not predicate => .object [("type", .string "not"), ("predicate", toJson predicate)]
  | .and predicates => .object [("type", .string "and"), ("predicates", .array (toJsonAll predicates))]
  | .or predicates => .object [("type", .string "or"), ("predicates", .array (toJsonAll predicates))]

def toJsonAll : List WorkflowPredicate → List Json
  | [] => []
  | predicate :: predicates => toJson predicate :: toJsonAll predicates

end

end WorkflowPredicate

/-- Truncation toward zero, which `f64 as i128` performs before it saturates. -/
def truncate : Dyadic → Int
  | .zero => 0
  | .ofOdd n exponent _ =>
    if exponent ≤ 0 then n * 2 ^ (-exponent).toNat else n.tdiv (2 ^ exponent.toNat)

def saturateI128 (n : Int) : Int :=
  max (-(2 ^ 127)) (min n (2 ^ 127 - 1))

def fract (float : Dyadic) : Dyadic :=
  float - Dyadic.ofInt (truncate float)

/-- `compare_integer_float`: no integer is rounded to a float. -/
def compareIntegerFloat (integer : Int) (float : Dyadic) : Ordering :=
  match Ord.compare integer (saturateI128 (truncate float)) with
  | .eq => if 0 < fract float then .lt else if fract float < 0 then .gt else .eq
  | order => order

def compareNumbers : Number → Number → Ordering
  | .int a, .int b => Ord.compare a b
  | .int a, .float b => compareIntegerFloat a b
  | .float a, .int b => (compareIntegerFloat b a).swap
  | .float a, .float b => if a < b then .lt else if a = b then .eq else .gt

def compare : Json → Json → Option Ordering
  | .string a, .string b => some (Ord.compare a b)
  | .bool a, .bool b => some (Ord.compare a b)
  | .number a, .number b => some (compareNumbers a b)
  | _, _ => none

/-- Equality of operands: numbers by value, everything else structurally. -/
def scalarEqual (left right : Json) : Bool :=
  if left.isNumber && right.isNumber then compare left right == some .eq else left == right

def isEmpty : Json → Bool
  | .null => true
  | .bool value => !value
  | .number n => decide (n.toDyadic = 0)
  | .string text => text.isEmpty
  | .array items => items.isEmpty
  | .object fields => fields.isEmpty

section Evaluation

variable [FloatText]

/-- `rendered_value`: a string as it is, anything else as its JSON text. -/
def renderedValue : Json → String
  | .string text => text
  | value => value.text

def debugPath (path : List String) : String :=
  "[" ++ String.intercalate ", " (path.map debug) ++ "]"

/-- Follow field names from a value. -/
def descend (value : Json) : List String → Option Json
  | [] => some value
  | key :: path => (value.get key).bind fun member => descend member path

/-- Where a reference starts: the block input or a committed producer. -/
def resolveHead (path : List String) (input : Json) (values : String → Option Json) :
    Except RunError Json :=
  match path with
  | [] => .error (.invalidValue "empty reference")
  | first :: _ =>
    if first = "args" then .ok input
    else
      match values first with
      | some value => .ok value
      | none => .error (.uncommittedReference path)

def resolveReference (path : List String) (input : Json) (values : String → Option Json) :
    Except RunError Json := do
  let head ← resolveHead path input values
  match descend head path.tail with
  | some value => .ok value
  | none => .error (.invalidValue s!"uncommitted reference {debugPath path}")

/-- The last step of every evaluation. -/
def bounded (value : Json) : Except RunError Json := do
  let _ ← boundedValueBytes value
  .ok value

/-- One member of an object: key, colon, value, and a comma unless it is the first. -/
def memberBytes (key : String) (size : Nat) (first : Bool) : Nat :=
  (quote key).utf8ByteSize + size + 1 + if first then 0 else 1

mutual

def evaluateValue (input : Json) (values : String → Option Json) :
    WorkflowValue → Except RunError Json
  | .reference path => do
    let value ← resolveReference path input values
    bounded value
  | .literal value => bounded value
  | .object fields => do
    let value ← evaluateObject input values 2 [] fields
    bounded value
  | .array items => do
    let elements ← evaluateItems input values 2 items
    bounded (.array elements)
  | .template parts => do
    let text ← renderParts input values maxValueBytes parts
    bounded (.string text)

/-- `evaluate_object`, from the bytes and fields constructed so far. It stops
before it retains an overflowing field. -/
def evaluateObject (input : Json) (values : String → Option Json) (bytes : Nat)
    (result : List (String × Json)) : List (String × WorkflowValue) → Except RunError Json
  | [] => .ok (.object result)
  | (key, expression) :: fields => do
    let value ← evaluateValue input values expression
    let size ← boundedValueBytes value
    let bytes := bytes + memberBytes key size result.isEmpty
    if bytes > maxValueBytes then
      .error (.invalidValue "constructed object byte bound exceeded")
    else evaluateObject input values bytes (Assoc.insert key value result) fields

def evaluateItems (input : Json) (values : String → Option Json) (bytes : Nat) :
    List WorkflowValue → Except RunError (List Json)
  | [] => .ok []
  | item :: items => do
    let value ← evaluateValue input values item
    let bytes := bytes + value.serializedBytes + 1
    if bytes - 1 > maxValueBytes then
      .error (.invalidValue "constructed array byte bound exceeded")
    else do
      let rest ← evaluateItems input values bytes items
      .ok (value :: rest)

/-- `render_parts`, from the byte budget that remains. -/
def renderParts (input : Json) (values : String → Option Json) (remaining : Nat) :
    List WorkflowValue → Except RunError String
  | [] => .ok ""
  | part :: parts => do
    let value ← evaluateValue input values part
    let text := renderedValue value
    if text.utf8ByteSize > remaining then
      .error (.invalidValue "rendered text byte budget exceeded")
    else do
      let rest ← renderParts input values (remaining - text.utf8ByteSize) parts
      .ok (text ++ rest)

end

/-- The two-operand predicates on evaluated operands. -/
def evaluateBinary (operator : BinaryOperator) (left right : Json) : Except RunError Bool :=
  match operator with
  | .equal => .ok (scalarEqual left right)
  | .notEqual => .ok (!scalarEqual left right)
  | .greater => compareOperands left right fun order => order == .gt
  | .greaterEqual => compareOperands left right fun order => order != .lt
  | .less => compareOperands left right fun order => order == .lt
  | .lessEqual => compareOperands left right fun order => order != .gt
  | .contains => containment left right
  | .notContains => do
    let contains ← containment left right
    .ok (!contains)
  | .startsWith => compareStrings left right fun left right => right.toList.isPrefixOf left.toList
  | .endsWith => compareStrings left right fun left right => right.toList.isSuffixOf left.toList
where
  compareOperands (left right : Json) (test : Ordering → Bool) : Except RunError Bool :=
    if !left.isNumber || !right.isNumber then
      .error (.invalidValue "non-numeric comparison operand")
    else
      match compare left right with
      | some order => .ok (test order)
      | none => .error (.invalidValue "numeric operands are not comparable")
  containment (left right : Json) : Except RunError Bool :=
    match left with
    | .array items => .ok (items.any fun item => scalarEqual item right)
    | .string text =>
      match right.asStr with
      | some part => .ok (decide (part.toList <:+: text.toList))
      | none => .error (.invalidValue "non-string containment operand")
    | _ => .error (.invalidValue "containment requires a string or array")
  compareStrings (left right : Json) (test : String → String → Bool) : Except RunError Bool :=
    match left.asStr, right.asStr with
    | some left, some right => .ok (test left right)
    | none, _ => .error (.invalidValue "nonstring left operand")
    | some _, none => .error (.invalidValue "nonstring right operand")

mutual

def evaluatePredicate (input : Json) (values : String → Option Json) :
    WorkflowPredicate → Except RunError Bool
  | .boolean value => do
    let value ← evaluateValue input values value
    match value.asBool with
    | some result => .ok result
    | none => .error (.invalidValue "nonboolean predicate")
  | .binary operator left right => do
    let left ← evaluateValue input values left
    let right ← evaluateValue input values right
    evaluateBinary operator left right
  | .empty value => do
    let value ← evaluateValue input values value
    .ok (isEmpty value)
  | .notEmpty value => do
    let value ← evaluateValue input values value
    .ok (!isEmpty value)
  | .not predicate => do
    let result ← evaluatePredicate input values predicate
    .ok (!result)
  | .and predicates => evaluateAll input values predicates
  | .or predicates => evaluateAny input values predicates

/-- A conjunction stops at its first false member. -/
def evaluateAll (input : Json) (values : String → Option Json) :
    List WorkflowPredicate → Except RunError Bool
  | [] => .ok true
  | predicate :: predicates => do
    let result ← evaluatePredicate input values predicate
    if result then evaluateAll input values predicates else .ok false

def evaluateAny (input : Json) (values : String → Option Json) :
    List WorkflowPredicate → Except RunError Bool
  | [] => .ok false
  | predicate :: predicates => do
    let result ← evaluatePredicate input values predicate
    if result then .ok true else evaluateAny input values predicates

end

end Evaluation

end RustX
