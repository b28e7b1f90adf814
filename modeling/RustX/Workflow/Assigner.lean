import RustX.Workflow.Graph
import RustX.Workflow.Reservation

/-!
The writes of a Variable Assigner: growing arrays are charged before they are built, and
what a written value holds in the end is its size.
-/
namespace RustX

open Checked Schema Guarded List Except

/-- The machine's binary floating point: the nearest float of an integer, and the results of
its arithmetic that are finite. -/
class Binary64 where
  ofInt : Int → Dyadic
  add : Dyadic → Dyadic → Option Dyadic
  sub : Dyadic → Dyadic → Option Dyadic
  mul : Dyadic → Dyadic → Option Dyadic
  div : Dyadic → Dyadic → Option Dyadic

/-- Arithmetic without rounding, but for quotients. -/
@[reducible] def Binary64.exact : Binary64 where
  ofInt := Dyadic.ofInt
  add a b := some (a + b)
  sub a b := some (a - b)
  mul a b := some (a * b)
  div a b := some (a.divAtPrec b 53)

namespace Assigner

section Arithmetic

variable [Binary64]

def number : Json → Except RunError Dyadic
  | .number (.int value) => .ok (Binary64.ofInt value)
  | .number (.float value) => .ok value
  | _ => .error (.invalidValue "arithmetic needs numbers")

def integral (result : Dyadic) : Json :=
  if (Number.float result).isIntegral ∧ result.toRat.floor.natAbs < 9000000000000000 then
    .number (.int result.toRat.floor)
  else .number (.float result)

def requireOperand (operand : Option Json) : Except RunError Json :=
  match operand with
  | some operand => .ok operand
  | none => .error (.invalidProgram "operand")

def arithmetic (apply : Dyadic → Dyadic → Option Dyadic) (current : Json) (operand : Option Json) :
    Except RunError Json := do
  let operand ← requireOperand operand
  let left ← number current
  let right ← number operand
  match apply left right with
  | some result => .ok (integral result)
  | none => .error (.invalidValue "the arithmetic has no finite result")

def divide (left right : Dyadic) : Option Dyadic :=
  if right = 0 then none else Binary64.div left right

end Arithmetic

def arrayItems : Json → Except RunError (List Json)
  | .array items => .ok items
  | _ => .error (.invalidValue "the variable is not an array")

def moreItems : Option Json → Except RunError (List Json)
  | some (.array more) => .ok more
  | _ => .error (.invalidValue "extend needs an array")

def assigned [Binary64] (operation : WriteMode) (varType : VarType) (current : Json)
    (operand : Option Json) : Except RunError Json :=
  match operation with
  | .overwrite | .set => requireOperand operand
  | .clear => .ok varType.empty
  | .append => do
    let items ← arrayItems current
    let item ← requireOperand operand
    .ok (.array (items ++ [item]))
  | .extend => do
    let items ← arrayItems current
    let more ← moreItems operand
    .ok (.array (items ++ more))
  | .removeFirst => do
    let items ← arrayItems current
    .ok (.array items.tail)
  | .removeLast => do
    let items ← arrayItems current
    .ok (.array items.dropLast)
  | .increment => arithmetic Binary64.add current operand
  | .decrement => arithmetic Binary64.sub current operand
  | .multiply => arithmetic Binary64.mul current operand
  | .divide => arithmetic divide current operand

def isNonemptyArray : Json → Bool
  | .array (_ :: _) => true
  | _ => false

section Accounting

variable [FloatText]

def operandBytes (operand : Option Json) (absent : Nat) : Except RunError Nat :=
  match operand with
  | some operand => boundedValueBytes operand
  | none => .ok absent

def arrayBytes (operation : WriteMode) (current : Json) (operand : Option Json) :
    Except RunError (Option Nat) :=
  match operation with
  | .append => do
    let bytes ← boundedValueBytes current
    let added ← operandBytes operand 0
    .ok (some (bytes + added + (isNonemptyArray current).toNat))
  | .extend => do
    let bytes ← boundedValueBytes current
    let added ← operandBytes operand 2
    .ok (some (bytes + (added - 2) +
      (isNonemptyArray current && operand.any isNonemptyArray).toNat))
  | .removeFirst | .removeLast => do
    let bytes ← boundedValueBytes current
    .ok (some bytes)
  | _ => .ok none

/-- `reserve_array_write`: whether it charged anything, and the reservation. -/
def reserveArrayWrite (operation : WriteMode) (current : Json) (operand : Option Json)
    (reservation : Nat) : Guarded (Bool × Nat) := do
  match ← lift (arrayBytes operation current operand) with
  | some bytes =>
    let reservation ← retainBytes reservation bytes
    return (true, reservation)
  | none => return (false, reservation)

/-- `assign`: the value, and the reservation that holds it. -/
def assign [Binary64] (operation : WriteMode) (varType : VarType) (current : Json)
    (operand : Option Json) (reservation : Nat) : Guarded (Json × Nat) := do
  let (precharged, reservation) ← reserveArrayWrite operation current operand reservation
  let value ← lift (assigned operation varType current operand)
  let bytes ← lift (boundedValueBytes value)
  if precharged then
    let reservation ← shrinkTo reservation bytes
    return (value, reservation)
  else
    let reservation ← retainBytes reservation bytes
    return (value, reservation)

/-- A written variable; targets are ordered as pairs. -/
structure Target where
  owner : String
  label : String
  deriving DecidableEq

instance : LT Target where
  lt a b := a.owner < b.owner ∨ a.owner = b.owner ∧ a.label < b.label

instance : DecidableLT Target := fun a b =>
  inferInstanceAs (Decidable (a.owner < b.owner ∨ a.owner = b.owner ∧ a.label < b.label))

/-- The private state of the node: its view of the graph, the reservations of its copies of
owners, and the last write to each variable with the reservation that holds it. -/
structure Writing where
  values : Values
  working : List (String × Nat) := []
  retainedWrites : List (Target × Json × Nat) := []

def loopVariables (values : Values) (owner : String) : Except RunError Json :=
  match values owner with
  | some vars => .ok vars
  | none => .error (.invalidValue "Loop variables are missing")

def loopVariable (vars : Json) (label : String) : Except RunError Json :=
  match vars.get label with
  | some current => .ok current
  | none => .error (.invalidValue s!"Loop variable {debug label} is missing")

def evaluateOperand (input : Json) (values : Values) :
    Option WorkflowValue → Except RunError (Option Json)
  | none => .ok none
  | some value => (evaluateValue input values value).map some

def writeVariable (label : String) (value : Json) : Json → Json
  | .object vars => .object (Assoc.insert label value vars)
  | other => other

/-- One write. Earlier writes of the node are already visible to it; the reservations it
replaces end. -/
def write [Binary64] (input : Json) (writing : Writing) (owner label : String)
    (operation : WriteMode) (varType : VarType) (operand : Option WorkflowValue) :
    Guarded Writing := do
  let vars ← lift (loopVariables writing.values owner)
  let current ← lift (loopVariable vars label)
  let operand ← lift (evaluateOperand input writing.values operand)
  let (value, retained) ← assign operation varType current operand 0
  let _ ← lift (validateCommit varType.schema value)
  let previousBytes ← lift (boundedValueBytes vars)
  let currentBytes ← lift (boundedValueBytes current)
  let without ← subtract previousBytes currentBytes
  let valueBytes ← lift (boundedValueBytes value)
  let bytes := without + valueBytes
  let snapshot ← retainBytes 0 (max previousBytes bytes)
  let snapshot ← shrinkTo snapshot bytes
  drop ((writing.working.lookup owner).getD 0)
  drop (((writing.retainedWrites.lookup ⟨owner, label⟩).map Prod.snd).getD 0)
  return {
    values := Function.update writing.values owner (some (writeVariable label value vars))
    working := Assoc.insert owner snapshot writing.working
    retainedWrites := Assoc.insert ⟨owner, label⟩ (value, retained) writing.retainedWrites }

def writeItem [Binary64] (input : Json) (writing : Writing) (item : Assignment × VarType) :
    Guarded Writing :=
  match item.1.var with
  | [owner, label] => write input writing owner label item.1.operation item.2 item.1.value
  | _ => fail (.value (.invalidProgram "assigned variable"))

def writeItems [Binary64] (input : Json) : Writing → List (Assignment × VarType) → Guarded Writing
  | writing, [] => pure writing
  | writing, item :: items => do
    let writing ← writeItem input writing item
    writeItems input writing items

def dropAll : List (String × Nat) → Guarded Unit
  | [] => pure ()
  | entry :: entries => do
    drop entry.2
    dropAll entries

/-- The private copies retire; the final write of each variable is handed on. -/
def execute [Binary64] (input : Json) (values : Values) (items : List Assignment)
    (types : List VarType) (reservation : Nat) :
    Guarded (List (String × String × Json) × Nat) := do
  let writing ← writeItems input { values } (items.zip types)
  dropAll writing.working
  return (writing.retainedWrites.map fun entry => (entry.1.owner, entry.1.label, entry.2.1),
    reservation + (writing.retainedWrites.map fun entry => entry.2.2).sum)

section

omit [FloatText]

theorem arrayItems_ok (ok : arrayItems value = .ok items) : value = .array items := by
  cases value <;> cases ok
  rfl

theorem moreItems_ok (ok : moreItems operand = .ok items) : operand = some (.array items) := by
  unfold moreItems at ok
  split at ok
  · cases ok
    rfl
  · cases ok

theorem requireOperand_ok (ok : requireOperand operand = .ok value) : operand = some value := by
  cases operand <;> cases ok
  rfl

end

theorem sum_tail_le (items : List Json) :
    (Json.array items.tail).serializedBytes ≤ (Json.array items).serializedBytes := by
  cases items with
  | nil => exact le_rfl
  | cons item items =>
    simp only [Json.serializedBytes_array, tail_cons, map_cons, sum_cons, length_cons]
    omega

theorem sum_dropLast_le (items : List Json) :
    (Json.array items.dropLast).serializedBytes ≤ (Json.array items).serializedBytes := by
  obtain rfl | ⟨before, last, rfl⟩ := items.eq_nil_or_concat
  · exact le_rfl
  · rw [concat_eq_append, dropLast_concat]
    simp only [Json.serializedBytes_array, map_append, sum_append, length_append]
    omega

theorem append_bytes (items : List Json) (item : Json) :
    (Json.array (items ++ [item])).serializedBytes = (Json.array items).serializedBytes +
      item.serializedBytes + (isNonemptyArray (.array items)).toNat := by
  cases items with
  | nil => simp [Json.serializedBytes_array, isNonemptyArray]
  | cons first rest =>
    simp [Json.serializedBytes_array, isNonemptyArray]
    omega

theorem extend_bytes (items more : List Json) :
    (Json.array (items ++ more)).serializedBytes = (Json.array items).serializedBytes +
      ((Json.array more).serializedBytes - 2) +
      (isNonemptyArray (.array items) && isNonemptyArray (.array more)).toNat := by
  cases items with
  | nil =>
    simp [Json.serializedBytes_array, isNonemptyArray]
    omega
  | cons first rest =>
    cases more with
    | nil => simp [Json.serializedBytes_array, isNonemptyArray]
    | cons item more =>
      simp [Json.serializedBytes_array, isNonemptyArray]
      omega

/-- An array write is charged enough: growth exactly, and a removal the array it shortens. -/
theorem arrayBytes_covers [Binary64]
    (charged : arrayBytes operation current operand = .ok (some bytes))
    (written : assigned operation varType current operand = .ok value) :
    value.serializedBytes ≤ bytes := by
  cases operation
  all_goals
    simp only [arrayBytes, bind_eq_ok_iff, ok.injEq, Option.some.injEq, reduceCtorEq] at charged
  all_goals simp only [assigned, bind_eq_ok_iff, ok.injEq] at written
  case append =>
    obtain ⟨currentBytes, known, added, addedKnown, rfl⟩ := charged
    obtain ⟨items, array, item, given, rfl⟩ := written
    obtain rfl := arrayItems_ok array
    obtain rfl := requireOperand_ok given
    obtain rfl := boundedValueBytes_ok known
    obtain rfl := boundedValueBytes_ok addedKnown
    rw [append_bytes]
  case extend =>
    obtain ⟨currentBytes, known, added, addedKnown, rfl⟩ := charged
    obtain ⟨items, array, more, given, rfl⟩ := written
    obtain rfl := arrayItems_ok array
    obtain rfl := moreItems_ok given
    obtain rfl := boundedValueBytes_ok known
    obtain rfl := boundedValueBytes_ok addedKnown
    rw [extend_bytes, Option.any_some]
  case removeFirst =>
    obtain ⟨currentBytes, known, rfl⟩ := charged
    obtain ⟨items, array, rfl⟩ := written
    obtain rfl := arrayItems_ok array
    exact boundedValueBytes_ok known ▸ sum_tail_le items
  case removeLast =>
    obtain ⟨currentBytes, known, rfl⟩ := charged
    obtain ⟨items, array, rfl⟩ := written
    obtain rfl := arrayItems_ok array
    exact boundedValueBytes_ok known ▸ sum_dropLast_le items

variable {held : Nat}

theorem balanced_reserveArrayWrite (operation : WriteMode) (current : Json) (operand : Option Json) :
    Balanced held (reserveArrayWrite operation current operand 0) fun (precharged, reservation) now =>
      ∃ charged, arrayBytes operation current operand = .ok charged ∧
        precharged = charged.isSome ∧ reservation = charged.getD 0 ∧ now = held + charged.getD 0 := by
  refine (balanced_lift _).bind ?_
  rintro charged _ ⟨ok, rfl⟩
  cases charged with
  | none => exact balanced_pure ⟨none, ok, rfl, rfl, rfl⟩
  | some bytes =>
    refine (balanced_retainBytes 0 bytes).bind ?_
    rintro _ _ ⟨rfl, rfl⟩
    exact balanced_pure ⟨some bytes, ok, rfl, Nat.zero_add _, rfl⟩

theorem balanced_assign [Binary64] (operation : WriteMode) (varType : VarType) (current : Json)
    (operand : Option Json) :
    Balanced held (assign operation varType current operand 0) fun (value, reservation) now =>
      assigned operation varType current operand = .ok value ∧
        reservation = value.serializedBytes ∧ now = held + value.serializedBytes := by
  refine (balanced_reserveArrayWrite operation current operand).bind ?_
  rintro ⟨_, _⟩ _ ⟨charged, known, rfl, rfl, rfl⟩
  refine (balanced_lift _).bind ?_
  rintro value _ ⟨written, rfl⟩
  refine (balanced_lift _).bind ?_
  rintro bytes _ ⟨ok, rfl⟩
  obtain rfl := boundedValueBytes_ok ok
  cases charged with
  | none =>
    refine (balanced_retainBytes 0 _).bind ?_
    rintro _ _ ⟨rfl, rfl⟩
    exact balanced_pure ⟨written, Nat.zero_add _, rfl⟩
  | some charged =>
    have covers := arrayBytes_covers known written
    refine (balanced_shrinkTo covers (Nat.le_add_left _ _)).bind ?_
    rintro _ _ ⟨rfl, rfl⟩
    exact balanced_pure ⟨written, rfl, by omega⟩

def Writing.workingBytes (writing : Writing) : Nat :=
  (writing.working.map fun entry => entry.2).sum

def Writing.retainedBytes (writing : Writing) : Nat :=
  (writing.retainedWrites.map fun entry => entry.2.2).sum

/-- The node holds its private copies and, exactly, the values it has written. -/
structure Writing.Holds (writing : Writing) (base held : Nat) : Prop where
  owners : (writing.working.map Prod.fst).Nodup
  targets : (writing.retainedWrites.map Prod.fst).Nodup
  sizes : ∀ entry ∈ writing.retainedWrites, entry.2.2 = entry.2.1.serializedBytes
  total : held = base + writing.workingBytes + writing.retainedBytes

theorem loopVariable_ok (ok : loopVariable vars label = .ok current) :
    current.serializedBytes ≤ vars.serializedBytes := by
  unfold loopVariable at ok
  split at ok
  · rename_i found
    cases ok
    cases vars with
    | object fields =>
      have least := memberBytes_le (show fields.lookup label = some current from found)
      rw [Json.serializedBytes_object]
      omega
    | _ => cases found
  · cases ok

theorem balanced_write [Binary64] (input : Json) {writing : Writing} (owner label : String)
    (operation : WriteMode) (varType : VarType) (operand : Option WorkflowValue)
    (holds : writing.Holds base held) :
    Balanced held (write input writing owner label operation varType operand)
      fun writing' now => writing'.Holds base now := by
  have total := holds.total
  simp only [Writing.workingBytes, Writing.retainedBytes] at total
  refine (balanced_lift _).bind ?_
  rintro vars _ ⟨_, rfl⟩
  refine (balanced_lift _).bind ?_
  rintro current _ ⟨found, rfl⟩
  refine (balanced_lift _).bind ?_
  rintro operand _ ⟨_, rfl⟩
  refine (balanced_assign operation varType current operand).bind ?_
  rintro ⟨value, _⟩ _ ⟨_, rfl, rfl⟩
  refine (balanced_lift _).bind ?_
  rintro _ _ ⟨_, rfl⟩
  refine (balanced_lift _).bind ?_
  rintro previousBytes _ ⟨ok, rfl⟩
  obtain rfl := boundedValueBytes_ok ok
  refine (balanced_lift _).bind ?_
  rintro currentBytes _ ⟨ok, rfl⟩
  obtain rfl := boundedValueBytes_ok ok
  refine (balanced_subtract (loopVariable_ok found)).bind ?_
  rintro without _ ⟨_, rfl⟩
  refine (balanced_lift _).bind ?_
  rintro valueBytes _ ⟨_, rfl⟩
  refine (balanced_retainBytes 0 _).bind ?_
  rintro _ _ ⟨rfl, rfl⟩
  have shrinks : without + valueBytes ≤ 0 + max vars.serializedBytes (without + valueBytes) := by
    omega
  refine (balanced_shrinkTo shrinks (by omega)).bind ?_
  rintro snapshot _ ⟨rfl, rfl⟩
  have copies := Assoc.sum_insert id holds.owners owner (without + valueBytes)
  have values := Assoc.sum_insert Prod.snd holds.targets ⟨owner, label⟩
    (value, value.serializedBytes)
  simp only [id_eq, Option.map_id] at copies
  refine (balanced_drop (by omega)).bind ?_
  rintro _ _ rfl
  refine (balanced_drop (by omega)).bind ?_
  rintro _ _ rfl
  refine balanced_pure ⟨Assoc.nodup_keys_insert holds.owners _ _,
    Assoc.nodup_keys_insert holds.targets _ _, fun entry member => ?_, ?_⟩
  · obtain rfl | ⟨old, _⟩ := Assoc.mem_insert.mp member
    · rfl
    · exact holds.sizes entry old
  · simp only [Writing.workingBytes, Writing.retainedBytes]
    omega

theorem balanced_writeItems [Binary64] (input : Json) {writing : Writing}
    (items : List (Assignment × VarType)) (holds : writing.Holds base held) :
    Balanced held (writeItems input writing items) fun writing' now => writing'.Holds base now := by
  induction items generalizing writing held with
  | nil => exact balanced_pure holds
  | cons item items ih =>
    refine Balanced.bind ?_ fun writing' now holds' => ih holds'
    unfold writeItem
    split
    · exact balanced_write input _ _ _ _ _ holds
    · exact balanced_fail _

omit [FloatText] in
theorem balanced_dropAll (entries : List (String × Nat))
    (owned : (entries.map fun entry => entry.2).sum ≤ held) :
    Balanced held (dropAll entries) fun _ now =>
      now = held - (entries.map fun entry => entry.2).sum := by
  induction entries generalizing held with
  | nil => exact balanced_pure rfl
  | cons entry entries ih =>
    rw [map_cons, sum_cons] at owned ⊢
    refine (balanced_drop (by omega)).bind ?_
    rintro _ _ rfl
    refine (ih (by omega)).mono ?_
    rintro _ _ rfl
    omega

/-- The node hands on what it holds: the size of its final writes. -/
theorem balanced_execute [Binary64] (input : Json) (values : Values) (items : List Assignment)
    (types : List VarType) (reservation : Nat) :
    Balanced held (execute input values items types reservation) fun (writes, reservation') now =>
      reservation' = reservation + (writes.map fun write => write.2.2.serializedBytes).sum ∧
      now = held + (writes.map fun write => write.2.2.serializedBytes).sum := by
  have begins : ({ values } : Writing).Holds held held := ⟨nodup_nil, nodup_nil, nofun, rfl⟩
  refine (balanced_writeItems input _ begins).bind ?_
  rintro writing _ holds
  have total := holds.total
  simp only [Writing.workingBytes, Writing.retainedBytes] at total
  refine (balanced_dropAll _ (by omega)).bind ?_
  rintro _ _ rfl
  have sizes : ((writing.retainedWrites.map fun entry =>
      (entry.1.owner, entry.1.label, entry.2.1)).map fun write =>
        write.2.2.serializedBytes).sum = (writing.retainedWrites.map fun entry => entry.2.2).sum := by
    rw [map_map]
    exact congrArg _ (map_congr_left fun entry member => (holds.sizes entry member).symm)
  exact balanced_pure ⟨by rw [sizes], by rw [sizes]; omega⟩

end Accounting

def OperandTyped (operation : WriteMode) (varType : VarType) (operand : Option Json) : Prop :=
  match operation.operand varType with
  | none => operand = none
  | some schema => ∃ value, operand = some value ∧ schema.isValid value = true

theorem isArray_schema {varType : VarType} (array : varType.isArray = true) :
    ∃ item, varType.schema = arrayOf item ∧ varType.items = some item := by
  cases varType with
  | string | number | boolean | object => cases array
  | arrayString | arrayNumber | arrayBoolean | arrayObject => exact ⟨_, rfl, rfl⟩

theorem empty_typed (varType : VarType) : varType.schema.isValid varType.empty = true := by
  cases varType <;> rfl

theorem integral_typed (result : Dyadic) : (scalar .number).isValid (integral result) = true := by
  unfold integral
  split <;> rfl

section Types

variable [Binary64]

theorem arithmetic_typed (ok : arithmetic apply current operand = .ok value) :
    (scalar .number).isValid value = true := by
  simp only [arithmetic, bind_eq_ok_iff] at ok
  obtain ⟨_, _, left, _, right, _, ok⟩ := ok
  split at ok
  · cases ok
    exact integral_typed _
  · cases ok

theorem assigned_typed {operation : WriteMode} (applies : operation.appliesTo varType = true)
    (typed : varType.schema.isValid current = true) (given : OperandTyped operation varType operand)
    (ok : assigned operation varType current operand = .ok value) :
    varType.schema.isValid value = true := by
  have replaced : requireOperand operand = .ok value →
      (∃ other, operand = some other ∧ varType.schema.isValid other = true) →
      varType.schema.isValid value = true := by
    rintro ok ⟨other, rfl, valid⟩
    cases ok
    exact valid
  have numeric : (varType == .number) = true → (scalar .number).isValid value = true →
      varType.schema.isValid value = true := by
    intro same valid
    obtain rfl := beq_iff_eq.mp same
    exact valid
  cases operation with
  | overwrite => exact replaced ok given
  | set => exact replaced ok given
  | clear =>
    cases ok
    exact empty_typed varType
  | append =>
    obtain ⟨item, schema, items⟩ := isArray_schema applies
    simp only [OperandTyped, WriteMode.operand, items] at given
    obtain ⟨added, rfl, valid⟩ := given
    simp only [assigned, bind_eq_ok_iff, Except.ok.injEq] at ok
    obtain ⟨elements, array, _, ⟨⟩, rfl⟩ := ok
    obtain rfl := arrayItems_ok array
    rw [schema, isValid_arrayOf_iff] at typed ⊢
    exact Assoc.forall_mem_snoc.mpr ⟨typed, valid⟩
  | extend =>
    obtain ⟨item, schema, items⟩ := isArray_schema applies
    obtain ⟨added, rfl, valid⟩ := given
    simp only [assigned, bind_eq_ok_iff, Except.ok.injEq] at ok
    obtain ⟨elements, array, more, others, rfl⟩ := ok
    obtain rfl := arrayItems_ok array
    obtain rfl := Option.some.inj (moreItems_ok others)
    rw [schema, isValid_arrayOf_iff] at typed valid ⊢
    intro element member
    exact (mem_append.mp member).elim (typed element) (valid element)
  | removeFirst =>
    obtain ⟨item, schema, items⟩ := isArray_schema applies
    simp only [assigned, bind_eq_ok_iff, Except.ok.injEq] at ok
    obtain ⟨elements, array, rfl⟩ := ok
    obtain rfl := arrayItems_ok array
    rw [schema, isValid_arrayOf_iff] at typed ⊢
    exact fun element member => typed element (mem_of_mem_tail member)
  | removeLast =>
    obtain ⟨item, schema, items⟩ := isArray_schema applies
    simp only [assigned, bind_eq_ok_iff, Except.ok.injEq] at ok
    obtain ⟨elements, array, rfl⟩ := ok
    obtain rfl := arrayItems_ok array
    rw [schema, isValid_arrayOf_iff] at typed ⊢
    exact fun element member => typed element (mem_of_mem_dropLast member)
  | increment | decrement | multiply | divide => exact numeric applies (arithmetic_typed ok)

/-- Neither a write, nor the node, nor the merge of its writes panics. Each restores the run's
bytes when it fails, and holds exactly the size of what it leaves when it succeeds: a write an
instance of its variable's type, the node its final writes, the merge the owners in which it
replaced the named variables and nothing else. -/
theorem assigner_exact [FloatText] :
    (∀ operation varType current operand, operation.appliesTo varType = true →
      varType.schema.isValid current = true → OperandTyped operation varType operand →
      ∀ budgets, ∃ result after held,
        assign operation varType current operand 0 ⟨budgets, 0⟩ = some (result, ⟨after, held⟩) ∧
        held ≤ after.retainedBytes ∧ (after.drop held).retainedBytes = budgets.retainedBytes ∧
        ∀ value reservation, result = .ok (value, reservation) →
          varType.schema.isValid value = true ∧ reservation = value.serializedBytes ∧
          held = reservation) ∧
    (∀ input values items types budgets, ∃ result after held,
      execute input values items types 0 ⟨budgets, 0⟩ = some (result, ⟨after, held⟩) ∧
      held ≤ after.retainedBytes ∧ (after.drop held).retainedBytes = budgets.retainedBytes ∧
      ∀ writes reservation, result = .ok (writes, reservation) →
        reservation = (writes.map fun write => write.2.2.serializedBytes).sum ∧
        held = reservation) ∧
    ∀ values, DistinctOwners values → ∀ writes budgets, ∃ outcome published after held,
      publishWrites values writes ⟨budgets, 0⟩ = some (outcome, published, ⟨after, held⟩) ∧
      held ≤ after.retainedBytes ∧ (after.drop held).retainedBytes = budgets.retainedBytes ∧
      (∀ failure, outcome = .error failure → published = values) ∧
      ∀ retained, outcome = .ok retained →
        published = mergedValues values writes ∧ held = retained ∧
        retained = namedBytes published ((groupWrites writes []).map Prod.fst) ∧
        ∀ write ∈ writes, ∃ vars, values write.1 = some (.object vars) ∧
          (vars.lookup write.2.1).isSome = true := by
  refine ⟨?_, ?_, ?_⟩
  · intro operation varType current operand applies typed given budgets
    obtain ⟨result, after, held, ran, within, restored, exact'⟩ :=
      (balanced_assign operation varType current operand).restores budgets
    refine ⟨result, after, held, ran, within, restored, fun value reservation same => ?_⟩
    obtain ⟨written, rfl, holds⟩ := exact' _ same
    exact ⟨assigned_typed applies typed given written, rfl, holds.trans (Nat.zero_add _)⟩
  · intro input values items types budgets
    obtain ⟨result, after, held, ran, within, restored, exact'⟩ :=
      (balanced_execute input values items types 0).restores budgets
    refine ⟨result, after, held, ran, within, restored, fun writes reservation same => ?_⟩
    obtain ⟨sizes, holds⟩ := exact' _ same
    exact ⟨sizes.trans (Nat.zero_add _), holds.trans sizes.symm⟩
  · intro values owners writes budgets
    obtain ⟨outcome, published, ⟨after, held⟩, ran, within, balance, failed, succeeded⟩ :=
      publishWrites_exact owners writes ⟨budgets, 0⟩ (Nat.zero_le _)
    refine ⟨outcome, published, after, held, ran, within, ?_, failed, fun retained same => ?_⟩
    · simp only [RunBudgets.drop] at balance ⊢
      omega
    · obtain ⟨merged, holds, sizes, present⟩ := succeeded retained same
      exact ⟨merged, holds.trans (Nat.zero_add _), sizes, present⟩

end Types

/-- A text appended to one text: the comma, the text and its quotes are four more bytes. -/
theorem assigner_exact_append : letI := FloatText.exact
    letI := Binary64.exact
    ∃ after held, assign .append .arrayString (.array [.string "a"]) (some (.string "b")) 0
        ⟨.reserved 100, 0⟩ =
        some (.ok (.array [.string "a", .string "b"], 9), ⟨after, held⟩) ∧
      held = 9 ∧ (after.drop held).retainedBytes = 0 := by
  let := FloatText.exact
  let := Binary64.exact
  have given : OperandTyped .append .arrayString (some (.string "b")) := ⟨_, rfl, rfl⟩
  obtain ⟨result, after, held, ran, _, restored, exact'⟩ :=
    assigner_exact.1 .append .arrayString (.array [.string "a"]) (some (.string "b")) rfl rfl given
      (.reserved 100)
  have computed : (assign .append .arrayString (.array [.string "a"]) (some (.string "b")) 0
      ⟨.reserved 100, 0⟩).map Prod.fst =
      some (.ok (.array [.string "a", .string "b"], 9)) := by
    rfl
  rw [ran, Option.map_some, Option.some.injEq] at computed
  subst computed
  exact ⟨after, held, ran, (exact' _ _ rfl).2.2, restored⟩

end Assigner

end RustX
