import Mathlib

/-!
Binary decision diagrams through their interface: operations that build one and
may give up on a size limit, and the Boolean function each one denotes.
-/
namespace RustX

/-- Decision diagrams `B`, whose operations are the exact Boolean ones. -/
class Bdd (B : Type) where
  mkTrue : B
  mkFalse : B
  mkVar : Nat → B
  not : B → B
  and : B → B → B
  andWithLimit : Nat → B → B → Option B
  orWithLimit : Nat → B → B → Option B
  impWithLimit : Nat → B → B → Option B
  isTrue : B → Bool
  isFalse : B → Bool
  eval : B → (Nat → Bool) → Bool
  eval_mkTrue : ∀ valuation, eval mkTrue valuation = true
  eval_mkFalse : ∀ valuation, eval mkFalse valuation = false
  eval_mkVar : ∀ index valuation, eval (mkVar index) valuation = valuation index
  eval_not : ∀ b valuation, eval (not b) valuation = !eval b valuation
  eval_and : ∀ a b valuation, eval (and a b) valuation = (eval a valuation && eval b valuation)
  eval_andWithLimit : ∀ {limit a b result}, andWithLimit limit a b = some result →
    ∀ valuation, eval result valuation = (eval a valuation && eval b valuation)
  eval_orWithLimit : ∀ {limit a b result}, orWithLimit limit a b = some result →
    ∀ valuation, eval result valuation = (eval a valuation || eval b valuation)
  eval_impWithLimit : ∀ {limit a b result}, impWithLimit limit a b = some result →
    ∀ valuation, eval result valuation = (!eval a valuation || eval b valuation)
  isTrue_iff : ∀ b, isTrue b = true ↔ ∀ valuation, eval b valuation = true
  isFalse_iff : ∀ b, isFalse b = true ↔ ∀ valuation, eval b valuation = false

attribute [simp] Bdd.eval_mkTrue Bdd.eval_mkFalse Bdd.eval_mkVar Bdd.eval_not Bdd.eval_and

/-- Boolean formulas, the plainest diagrams. -/
inductive Formula
  | const (value : Bool)
  | var (index : Nat)
  | not (formula : Formula)
  | and (left right : Formula)
  | or (left right : Formula)

namespace Formula

def eval (valuation : Nat → Bool) : Formula → Bool
  | .const value => value
  | .var index => valuation index
  | .not formula => !eval valuation formula
  | .and left right => eval valuation left && eval valuation right
  | .or left right => eval valuation left || eval valuation right

def bound : Formula → Nat
  | .const _ => 0
  | .var index => index + 1
  | .not formula => bound formula
  | .and left right | .or left right => max (bound left) (bound right)

theorem eval_congr (formula : Formula) (agree : ∀ index < formula.bound, left index = right index) :
    formula.eval left = formula.eval right := by
  induction formula with
  | const value => rfl
  | var index => exact agree index (Nat.lt_succ_self index)
  | not formula ih => simp only [eval, ih agree]
  | and a b first second | or a b first second =>
    simp only [bound] at agree
    simp only [eval, first fun index less => agree index (by omega),
      second fun index less => agree index (by omega)]

/-- Whether `test` holds of every valuation that is `valuation` from `count` on. -/
def forallBelow (test : (Nat → Bool) → Bool) : Nat → (Nat → Bool) → Bool
  | 0, valuation => test valuation
  | count + 1, valuation =>
    forallBelow test count (fun index => if index = count then true else valuation index) &&
      forallBelow test count (fun index => if index = count then false else valuation index)

theorem forallBelow_iff (test : (Nat → Bool) → Bool) (count : Nat) (valuation : Nat → Bool) :
    forallBelow test count valuation = true ↔
      ∀ other : Nat → Bool, (∀ index, count ≤ index → other index = valuation index) →
        test other = true := by
  induction count generalizing valuation with
  | zero =>
    constructor
    · intro holds other agree
      rwa [funext fun index => agree index (Nat.zero_le index)]
    · exact fun all => all valuation fun _ _ => rfl
  | succ count ih =>
    simp only [forallBelow, Bool.and_eq_true, ih]
    constructor
    · rintro ⟨high, low⟩ other agree
      cases value : other count with
      | true =>
        refine high other fun index above => ?_
        rcases Nat.eq_or_lt_of_le above with rfl | above
        · simpa using value
        · rw [if_neg (by omega)]
          exact agree index above
      | false =>
        refine low other fun index above => ?_
        rcases Nat.eq_or_lt_of_le above with rfl | above
        · simpa using value
        · rw [if_neg (by omega)]
          exact agree index above
    · intro all
      constructor <;> intro other agree <;> refine all other fun index above => ?_ <;>
        rw [agree index (by omega), if_neg (by omega)]

def isTrue (formula : Formula) : Bool :=
  forallBelow (fun valuation => formula.eval valuation) formula.bound fun _ => false

theorem isTrue_iff (formula : Formula) :
    formula.isTrue = true ↔ ∀ valuation, formula.eval valuation = true := by
  rw [isTrue, forallBelow_iff]
  constructor
  · intro all valuation
    have below := all (fun index => if index < formula.bound then valuation index else false)
      fun index above => if_neg (by omega)
    rw [← below]
    exact formula.eval_congr fun index less => (if_pos less).symm
  · exact fun all other _ => all other

end Formula

instance : Bdd Formula where
  mkTrue := .const true
  mkFalse := .const false
  mkVar := .var
  not := .not
  and := .and
  andWithLimit _ a b := some (.and a b)
  orWithLimit _ a b := some (.or a b)
  impWithLimit _ a b := some (.or (.not a) b)
  isTrue := Formula.isTrue
  isFalse formula := Formula.isTrue (.not formula)
  eval formula valuation := formula.eval valuation
  eval_mkTrue _ := rfl
  eval_mkFalse _ := rfl
  eval_mkVar _ _ := rfl
  eval_not _ _ := rfl
  eval_and _ _ _ := rfl
  eval_andWithLimit built valuation := by
    obtain rfl := Option.some.inj built
    rfl
  eval_orWithLimit built valuation := by
    obtain rfl := Option.some.inj built
    rfl
  eval_impWithLimit built valuation := by
    obtain rfl := Option.some.inj built
    rfl
  isTrue_iff := Formula.isTrue_iff
  isFalse_iff formula := by simp [Formula.isTrue_iff, Formula.eval]

end RustX
