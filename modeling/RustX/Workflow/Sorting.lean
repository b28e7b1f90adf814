import RustX.Workflow.Definition

/-!
The order of JSON scalars, and the stable sort that a list node takes by it.
-/
namespace RustX

open List
open Std (OrientedCmp OrientedOrd TransCmp)

/-- The integers of the 64-bit signed and unsigned ranges, and every float. -/
def Number.InRange : Number → Prop
  | .int n => -2 ^ 63 ≤ n ∧ n < 2 ^ 64
  | .float _ => True

theorem abs_toRat_sub_truncate_lt (float : Dyadic) : |float.toRat - truncate float| < 1 := by
  cases float with
  | zero => simp [truncate, Dyadic.toRat]
  | ofOdd n exponent odd =>
    rw [Dyadic.toRat_ofOdd_eq_mul_two_pow, truncate]
    split
    · next whole =>
      obtain ⟨places, rfl⟩ := Int.exists_eq_neg_ofNat whole
      simp
    · next fractional =>
      obtain ⟨places, rfl⟩ := Int.eq_ofNat_of_zero_le (not_le.mp fractional).le
      have unit : (0 : Int) < 2 ^ places := by positivity
      have rest : (n : ℚ) / 2 ^ places - n.tdiv (2 ^ places) = n.tmod (2 ^ places) / 2 ^ places := by
        rw [div_sub' (by positivity), Int.tmod_def]
        push_cast
        rfl
      rw [zpow_neg, zpow_natCast, ← div_eq_mul_inv, Int.toNat_natCast, rest, abs_lt,
        lt_div_iff₀ (by positivity), div_lt_one (by positivity), neg_one_mul]
      exact_mod_cast And.intro (Int.lt_tmod_of_pos n unit) (Int.tmod_lt_of_pos n unit)

/-- What the saturating cast loses is beyond every integer in range. -/
theorem compareIntegerFloat_eq (range : (Number.int n).InRange) (float : Dyadic) :
    compareIntegerFloat n float = Ord.compare (n : ℚ) float.toRat := by
  obtain ⟨above, below⟩ := abs_lt.mp (abs_toRat_sub_truncate_lt float)
  have fraction : (fract float).toRat = float.toRat - truncate float := by
    rw [fract, Dyadic.toRat_sub]
    exact congrArg _ (Dyadic.toRat_intCast _)
  have saturated : (n < saturateI128 (truncate float) ↔ n < truncate float) ∧
      (saturateI128 (truncate float) < n ↔ truncate float < n) := by
    obtain ⟨low, high⟩ := range
    rw [saturateI128]
    omega
  simp only [compareIntegerFloat, Int.compare_eq_ite_lt, saturated]
  rcases lt_trichotomy n (truncate float) with less | rfl | more
  · have step : (n : ℚ) + 1 ≤ truncate float := by exact_mod_cast less
    rw [compare_lt_iff_lt.mpr (by linarith), if_pos less]
  · simp only [lt_irrefl, if_false, ← Dyadic.toRat_lt_toRat_iff, fraction, Dyadic.toRat_zero,
      sub_pos, sub_neg]
    split_ifs with up down
    · exact (compare_lt_iff_lt.mpr up).symm
    · exact (compare_gt_iff_gt.mpr down).symm
    · exact (compare_eq_iff_eq.mpr (le_antisymm (not_lt.mp down) (not_lt.mp up))).symm
  · have step : (truncate float : ℚ) + 1 ≤ n := by exact_mod_cast more
    rw [compare_gt_iff_gt.mpr (by linarith), if_neg (by omega), if_pos more]

theorem compareNumbers_eq (left : a.InRange) (right : b.InRange) :
    compareNumbers a b = Ord.compare a.toDyadic.toRat b.toDyadic.toRat := by
  have whole (n : Int) : (Dyadic.ofInt n).toRat = n := Dyadic.toRat_intCast n
  cases a with
  | int a =>
    cases b with
    | int b =>
      simp only [compareNumbers, Number.toDyadic, whole, LinearOrder.compare_eq_compareOfLessAndEq,
        compareOfLessAndEq, Int.cast_lt, Int.cast_inj]
    | float b =>
      rw [compareNumbers, compareIntegerFloat_eq left]
      exact congrArg (Ord.compare · _) (whole a).symm
  | float a =>
    cases b with
    | int b =>
      rw [compareNumbers, compareIntegerFloat_eq right, ← OrientedOrd.eq_swap]
      exact congrArg (Ord.compare _) (whole b).symm
    | float b =>
      simp only [compareNumbers, Number.toDyadic, LinearOrder.compare_eq_compareOfLessAndEq,
        compareOfLessAndEq, Dyadic.toRat_lt_toRat_iff, Dyadic.toRat_inj]

def Json.field (value : Json) (path : List String) : Option Json :=
  path.foldlM Json.get value

namespace ListSort

variable (sort : ListSort)

/-- The comparator that `list` gives to the stable sort. -/
def compare (a b : Json) : Ordering :=
  let order := Option.getD (do RustX.compare (← a.field sort.path) (← b.field sort.path)) .eq
  if sort.order = .desc then order.swap else order

/-- The item has a value of the type at the sort field. -/
def Orders (type : SchemaType) (item : Json) : Prop :=
  ∃ value, item.field sort.path = some value ∧ type.admits value = true ∧
    ∀ n, value = .number n → n.InRange

end ListSort

def Json.rational : Json → ℚ
  | .number n => n.toDyadic.toRat
  | _ => 0

/-- Values of one type are compared by a rank; those of a type without an order all tie. -/
theorem exists_rank (type : SchemaType) :
    ∃ (κ : Type) (_ : LinearOrder κ) (rank : Json → κ), ∀ a b, type.admits a = true →
      type.admits b = true → (∀ n, a = .number n → n.InRange) → (∀ n, b = .number n → n.InRange) →
      (compare a b).getD .eq = Ord.compare (rank a) (rank b) := by
  cases type with
  | boolean =>
    refine ⟨Bool, inferInstance, fun v => v.asBool.getD false, fun a b => ?_⟩
    cases a <;> cases b <;> simp [SchemaType.admits, compare, Json.asBool]
  | string =>
    refine ⟨String, inferInstance, fun v => v.asStr.getD "", fun a b => ?_⟩
    cases a <;> cases b <;> simp [SchemaType.admits, compare, Json.asStr]
  | number | integer =>
    refine ⟨ℚ, inferInstance, Json.rational, fun a b => ?_⟩
    cases a <;> cases b <;>
      simp +contextual [SchemaType.admits, compare, Json.rational, compareNumbers_eq]
  | null | array | object =>
    refine ⟨Unit, inferInstance, fun _ => (), fun a b => ?_⟩
    cases a <;> cases b <;> simp [SchemaType.admits, compare]

theorem ListSort.compare_trans (sort : ListSort) (type : SchemaType) :
    TransCmp fun a b : {item // sort.Orders type item} => sort.compare a b := by
  obtain ⟨κ, _, rank, ranked⟩ := exists_rank type
  let key (item : {item // sort.Orders type item}) : κ := rank ((item.1.field sort.path).getD .null)
  have compared : (fun a b : {item // sort.Orders type item} => sort.compare a b) = fun a b =>
      if sort.order = .desc then Ord.compare (key b) (key a) else Ord.compare (key a) (key b) := by
    funext ⟨a, x, atA, typedA, rangeA⟩ ⟨b, y, atB, typedB, rangeB⟩
    rw [OrientedOrd.eq_swap (a := key _)]
    simp [ListSort.compare, key, atA, atB, ← ranked x y typedA typedB rangeA rangeB]
  rw [compared]
  split
  · exact { eq_swap := OrientedCmp.eq_swap, isLE_trans := fun le le' => TransCmp.isLE_trans le' le }
  · exact { eq_swap := OrientedCmp.eq_swap, isLE_trans := TransCmp.isLE_trans }

/-- Ascending, with ties in the order they come in. -/
def StablySorted (order : α → α → Ordering) (items sorted : List α) : Prop :=
  ∃ placed : List (α × Nat), placed.Perm items.zipIdx ∧ placed.map Prod.fst = sorted ∧
    placed.Pairwise fun x y => ((order x.1 y.1).then (Ord.compare x.2 y.2)).isLE

theorem existsUnique_stablySorted {order : α → α → Ordering} (trans : TransCmp order)
    (items : List α) : ∃! sorted, StablySorted order items sorted := by
  let lex := compareLex (fun x y : α × Nat => order x.1 y.1) (compareOn Prod.snd)
  have first : TransCmp fun x y : α × Nat => order x.1 y.1 :=
    { eq_swap := trans.eq_swap, isLE_trans := trans.isLE_trans }
  have total : TransCmp lex := inferInstance
  have sorted := pairwise_mergeSort (fun x y z => total.isLE_trans (a := x) (b := y) (c := z))
    (fun x y => by rw [total.eq_swap]; cases lex y x <;> rfl) items.zipIdx
  refine ⟨_, ⟨_, mergeSort_perm .., rfl, sorted⟩, ?_⟩
  rintro _ ⟨placed, perm, rfl, ordered⟩
  refine congrArg _ (Perm.eq_of_pairwise (fun x y atX atY le ge => ?_) ordered sorted
    (perm.trans (mergeSort_perm ..).symm))
  have tie := Ordering.then_eq_eq.mp (total.isLE_antisymm le ge)
  have place : x.2 = y.2 := compare_eq_iff_eq.mp tie.2
  have atX := mem_zipIdx_iff_getElem?.mp (perm.subset atX)
  have atY := mem_zipIdx_iff_getElem?.mp ((mergeSort_perm ..).subset atY)
  rw [place, atY, Option.some.injEq] at atX
  exact Prod.ext atX.symm place

/-- Numbers are compared as the rationals they stand for, and a list whose sort field has one
type is ordered by a total preorder, so that exactly one list is its stable sort. -/
theorem compare_exact :
    (∀ a b : Number, a.InRange → b.InRange → compare (.number a) (.number b) =
      some (Ord.compare a.toDyadic.toRat b.toDyadic.toRat)) ∧
    ∀ (sort : ListSort) (type : SchemaType),
      let order (a b : {item // sort.Orders type item}) := sort.compare a b
      TransCmp order ∧ ∀ items, ∃! sorted, StablySorted order items sorted :=
  ⟨fun _ _ left right => congrArg some (compareNumbers_eq left right), fun sort type =>
    ⟨sort.compare_trans type, existsUnique_stablySorted (sort.compare_trans type)⟩⟩

end RustX
