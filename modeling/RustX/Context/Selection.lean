import RustX.Context.PlanSafety

/-!
Bisection and the exhaustive scan select the same boundary. With monotone prices the boundaries
within each limit are an interval, and both searches are compared with its ends.
-/
namespace RustX.Context

open Checked

/-- The preference among the boundaries: the largest that fits and keeps enough, else the
smallest that fits. -/
def Chosen (eligible : Nat) (fits keeps : Nat → Prop) : Option Nat → Prop
  | some index =>
    IsGreatest {i | i < eligible ∧ fits i ∧ keeps i} index ∨
      (∀ i < eligible, fits i → ¬ keeps i) ∧ IsLeast {i | i < eligible ∧ fits i} index
  | none => ∀ i < eligible, ¬ fits i

theorem Chosen.fits {fits keeps : Nat → Prop} (chosen : Chosen eligible fits keeps (some index)) :
    index < eligible ∧ fits index := by
  obtain greatest | ⟨_, least⟩ := chosen
  · exact ⟨greatest.1.1, greatest.1.2.1⟩
  · exact least.1

theorem Chosen.unique {fits keeps : Nat → Prop} (one : Chosen eligible fits keeps first)
    (other : Chosen eligible fits keeps second) : first = second := by
  cases first with
  | none =>
    cases second with
    | none => rfl
    | some index => exact absurd other.fits.2 (one index other.fits.1)
  | some index =>
    cases second with
    | none => exact absurd one.fits.2 (other index one.fits.1)
    | some index' =>
      congr 1
      obtain greatest | ⟨never, least⟩ := one
      · obtain greatest' | ⟨never', _⟩ := other
        · exact greatest.unique greatest'
        · exact absurd greatest.1.2.2 (never' index greatest.1.1 greatest.1.2.1)
      · obtain greatest' | ⟨_, least'⟩ := other
        · exact absurd greatest'.1.2.2 (never index' greatest'.1.1 greatest'.1.2.1)
        · exact least.unique least'

/-- The ends of the intervals decide the preference. -/
theorem chosen_of_intervals {fits keeps : Nat → Prop} (bounded : upper ≤ eligible)
    (fit : ∀ i < eligible, fits i ↔ lower ≤ i ∧ i < upper)
    (kept : ∀ i < eligible, keeps i ↔ i < recent) :
    Chosen eligible fits keeps (if upper ≤ lower then none
      else some (if lower < recent then min upper recent - 1 else lower)) := by
  split
  · intro i below
    rw [fit i below]
    omega
  split
  · refine .inl ⟨⟨by omega, (fit _ (by omega)).mpr (by omega), (kept _ (by omega)).mpr (by omega)⟩, ?_⟩
    rintro i ⟨below, fitting, keeping⟩
    rw [fit i below] at fitting
    rw [kept i below] at keeping
    omega
  · refine .inr ⟨fun i below fitting keeping => ?_, ⟨by omega, (fit _ (by omega)).mpr (by omega)⟩, ?_⟩
    · rw [fit i below] at fitting
      rw [kept i below] at keeping
      omega
    · rintro i ⟨below, fitting⟩
      exact ((fit i below).mp fitting).1

/-- A predicate that never becomes true again has one end. -/
theorem exists_end (eligible : Nat) (holds : Nat → Bool)
    (initial : ∀ i j, i ≤ j → j < eligible → holds j = true → holds i = true) :
    ∃ ending ≤ eligible, ∀ i < eligible, holds i = true ↔ i < ending := by
  induction eligible with
  | zero => exact ⟨0, le_rfl, fun i below => absurd below (Nat.not_lt_zero i)⟩
  | succ eligible ih =>
    obtain ⟨ending, bounded, ends⟩ := ih fun i j order below => initial i j order (by omega)
    by_cases last : holds eligible = true
    · refine ⟨eligible + 1, le_rfl, fun i below => iff_of_true ?_ below⟩
      exact initial i eligible (by omega) (by omega) last
    · refine ⟨ending, by omega, fun i below => ?_⟩
      obtain inside | rfl : i < eligible ∨ i = eligible := by omega
      · exact ends i inside
      · exact iff_of_false last (by omega)

namespace Planner

variable {Tool : Type} (planner : Planner Tool)

def Costs (scan : Scan) (costs : Nat → Cost) : Prop :=
  ∀ index < scan.boundaries.length, ∃ planned,
    planner.assemble (planner.input.drop (scan.boundaries.getD index (0, 0)).1) = .ok planned ∧
    costs index =
      { summary := planner.engine.estimateModelInput
          (summaryModelInput (scan.transcript.take (scan.boundaries.getD index (0, 0)).2)) "" []
        primary := planner.engine.estimateModelInput planned planner.prompt planner.tools
        recent := planner.engine.estimateModelInput
          (planner.input.drop (scan.boundaries.getD index (0, 0)).1) "" [] }

/-- A summary of more never costs less, and what remains never costs more. -/
structure Monotone (eligible : Nat) (costs : Nat → Cost) : Prop where
  summary : ∀ i j, i ≤ j → j < eligible → (costs i).summary ≤ (costs j).summary
  primary : ∀ i j, i ≤ j → j < eligible → (costs j).primary ≤ (costs i).primary
  recent : ∀ i j, i ≤ j → j < eligible → (costs j).recent ≤ (costs i).recent

def Cancelled (error : ContextError) : Prop :=
  error = ⟨.cancelled, "compaction cancelled during historical planning"⟩ ∧
    ∃ look, planner.signal look = true

def Fits (limit : Nat) (cost : Cost) : Prop :=
  planner.summaryFits cost = true ∧ planner.primaryFits limit cost = true

def Keeps (cost : Cost) : Prop :=
  planner.engine.config.keepRecentTokens ≤ cost.recent

def Remembers (costs : Nat → Cost) (state : SearchState) : Prop :=
  ∀ entry ∈ state.cache, entry.2 = costs entry.1

variable {planner} {scan : Scan} {costs : Nat → Cost}

theorem saturatingAdd_mono (c : Nat) (order : a ≤ b) : saturatingAdd a c ≤ saturatingAdd b c := by
  unfold saturatingAdd
  omega

theorem cancellationPoint_serves :
    Serves planner.Cancelled (Remembers costs) planner.cancellationPoint fun _ => True := by
  intro state held
  unfold cancellationPoint
  split
  · rename_i set
    exact ⟨rfl, state.looks, set⟩
  · exact ⟨held, trivial⟩

/-- The ends of the three intervals of boundaries. -/
structure Ends (planner : Planner Tool) (limit eligible : Nat) (costs : Nat → Cost)
    (upper lower recent : Nat) : Prop where
  bounded : upper ≤ eligible ∧ lower ≤ eligible ∧ recent ≤ eligible
  summary : ∀ i < eligible, planner.summaryFits (costs i) = true ↔ i < upper
  primary : ∀ i < eligible, (!planner.primaryFits limit (costs i)) = true ↔ i < lower
  recent : ∀ i < eligible,
    decide (planner.engine.config.keepRecentTokens ≤ (costs i).recent) = true ↔ i < recent

theorem Monotone.exists_ends (monotone : Monotone eligible costs) (limit : Nat) :
    ∃ upper lower recent, Ends planner limit eligible costs upper lower recent := by
  obtain ⟨upper, upperBound, summaries⟩ := exists_end eligible
    (fun i => planner.summaryFits (costs i)) fun i j order below fits => by
      have cheaper := monotone.summary i j order below
      simp only [summaryFits, decide_eq_true_eq] at fits ⊢
      omega
  obtain ⟨lower, lowerBound, primaries⟩ := exists_end eligible
    (fun i => !planner.primaryFits limit (costs i)) fun i j order below exceeds => by
      have dearer := saturatingAdd_mono planner.budgets.summaryOutputBudget
        (monotone.primary i j order below)
      simp only [primaryFits, Bool.not_eq_true', decide_eq_false_iff_not] at exceeds ⊢
      omega
  obtain ⟨recent, recentBound, recents⟩ := exists_end eligible
    (fun i => decide (planner.engine.config.keepRecentTokens ≤ (costs i).recent))
    fun i j order below keeps => by
      have dearer := monotone.recent i j order below
      simp only [decide_eq_true_eq] at keeps ⊢
      omega
  exact ⟨upper, lower, recent, ⟨upperBound, lowerBound, recentBound⟩, summaries, primaries, recents⟩

/-- The preference by the prices of the boundaries. -/
def Preferred (planner : Planner Tool) (limit eligible : Nat) (costs : Nat → Cost) :
    Option Nat → Prop :=
  Chosen eligible (fun i => planner.Fits limit (costs i)) fun i => planner.Keeps (costs i)

theorem Ends.preferred {limit eligible upper lower recent : Nat}
    (ends : Ends planner limit eligible costs upper lower recent) :
    Preferred planner limit eligible costs (if upper ≤ lower then none
      else some (if lower < recent then min upper recent - 1 else lower)) := by
  refine chosen_of_intervals ends.bounded.1 (fun i below => ?_) fun i below => ?_
  · have exceeds := ends.primary i below
    rw [Bool.not_eq_true'] at exceeds
    rw [Fits, ends.summary i below, and_comm, ← not_lt, ← exceeds, Bool.not_eq_false]
  · rw [Keeps, ← ends.recent i below, decide_eq_true_iff]

section Search

variable (counted : planner.Costs scan costs)
include counted

theorem price_serves (below : index < scan.boundaries.length) :
    Serves planner.Cancelled (Remembers costs)
      (planner.price scan (scan.boundaries.getD index (0, 0))) fun cost => cost = costs index := by
  obtain ⟨planned, assembled, same⟩ := counted index below
  refine cancellationPoint_serves.bind fun _ _ => ?_
  have lifted : Serves planner.Cancelled (Remembers costs)
      (monadLift (planner.assemble (planner.input.drop (scan.boundaries.getD index (0, 0)).1)))
      fun found => found = planned := by
    rw [assembled]
    exact serves_lift rfl
  refine lifted.bind fun found found_eq => ?_
  subst found_eq
  refine cancellationPoint_serves.bind fun _ _ => ?_
  exact cancellationPoint_serves.bind fun _ _ => serves_pure same.symm

theorem cost_serves (below : index < scan.boundaries.length) :
    Serves planner.Cancelled (Remembers costs) (planner.cost scan index)
      fun cost => cost = costs index := by
  refine cancellationPoint_serves.bind fun _ _ => ?_
  have looked : Serves planner.Cancelled (Remembers costs) (cached index)
      fun found => ∀ cost, found = some cost → cost = costs index :=
    fun _ held => ⟨held, fun _ found => held _ (Assoc.mem_of_lookup found)⟩
  refine looked.bind fun found known => ?_
  cases found with
  | some cost => exact serves_pure (known cost rfl)
  | none =>
    refine (price_serves counted below).bind fun cost same => ?_
    exact fun _ held => ⟨List.forall_mem_cons.mpr ⟨same, held⟩, same⟩

/-- The bisection ends at the end of the interval, which it keeps between its two marks. -/
theorem bisect_serves (ends : ∀ i < scan.boundaries.length, predicate (costs i) = true ↔ i < ending)
    (fuel low high : Nat) (after : low ≤ ending) (before : ending ≤ high)
    (within : high ≤ scan.boundaries.length) (enough : high ≤ low + fuel) :
    Serves planner.Cancelled (Remembers costs) (planner.bisect scan predicate fuel low high)
      fun found => found = ending := by
  induction fuel generalizing low high with
  | zero => exact serves_pure (by omega)
  | succ fuel ih =>
    unfold bisect
    split
    · have inside : low + (high - low) / 2 < scan.boundaries.length := by omega
      refine (cost_serves counted inside).bind fun cost same => ?_
      subst same
      split
      · rename_i holds
        have reached := (ends _ inside).mp holds
        exact ih _ _ (by omega) before within (by omega)
      · rename_i fails
        have passed := mt (ends _ inside).mpr fails
        exact ih _ _ after (by omega) (by omega) (by omega)
    · exact serves_pure (by omega)

theorem partition_serves (bounded : ending ≤ scan.boundaries.length)
    (ends : ∀ i < scan.boundaries.length, predicate (costs i) = true ↔ i < ending) :
    Serves planner.Cancelled (Remembers costs) (planner.partition scan predicate)
      fun found => found = ending :=
  bisect_serves counted ends _ 0 _ (Nat.zero_le _) bounded le_rfl (by omega)

theorem selectMonotone_serves {limit upper lower recent : Nat}
    (ends : Ends planner limit scan.boundaries.length costs upper lower recent) :
    Serves planner.Cancelled (Remembers costs) (planner.selectMonotone scan limit)
      (Preferred planner limit scan.boundaries.length costs) := by
  have preferred := ends.preferred
  refine (partition_serves counted ends.bounded.1 ends.summary).bind fun _ same => ?_
  subst same
  refine (partition_serves counted ends.bounded.2.1 ends.primary).bind fun _ same => ?_
  subst same
  split
  · rename_i empty
    rw [if_pos empty] at preferred
    exact serves_pure preferred
  · rename_i nonempty
    rw [if_neg nonempty] at preferred
    refine (partition_serves counted ends.bounded.2.2 ends.recent).bind fun _ same => ?_
    subst same
    exact serves_pure preferred

/-- What the scan knows once it has passed every boundary from `index` on. -/
def Descended (planner : Planner Tool) (limit eligible : Nat) (costs : Nat → Cost) (index : Nat)
    (fallback : Option Nat) : Prop :=
  (∀ i < eligible, index ≤ i → planner.Fits limit (costs i) → ¬ planner.Keeps (costs i)) ∧
  match fallback with
  | none => ∀ i < eligible, index ≤ i → ¬ planner.Fits limit (costs i)
  | some least => IsLeast {i | index ≤ i ∧ i < eligible ∧ planner.Fits limit (costs i)} least

omit counted in
theorem Descended.fallback {limit eligible index : Nat} {fallback : Option Nat}
    (descended : Descended planner limit eligible costs (index + 1) fallback)
    (below : index < eligible) (fits : planner.Fits limit (costs index))
    (drops : ¬ planner.Keeps (costs index)) :
    Descended planner limit eligible costs index (some index) := by
  refine ⟨fun i inside from' fitting => ?_, ⟨le_rfl, below, fits⟩, fun i member => member.1⟩
  obtain rfl | later : i = index ∨ index + 1 ≤ i := by omega
  · exact drops
  · exact descended.1 i inside later fitting

omit counted in
theorem Descended.skip {limit eligible index : Nat} {fallback : Option Nat}
    (descended : Descended planner limit eligible costs (index + 1) fallback)
    (exceeds : ¬ planner.Fits limit (costs index)) :
    Descended planner limit eligible costs index fallback := by
  have later : ∀ i, index ≤ i → planner.Fits limit (costs i) → index + 1 ≤ i := by
    intro i from' fitting
    obtain rfl | later : i = index ∨ index + 1 ≤ i := by omega
    · exact absurd fitting exceeds
    · exact later
  refine ⟨fun i inside from' fitting => descended.1 i inside (later i from' fitting) fitting, ?_⟩
  cases fallback with
  | none => exact fun i inside from' fitting =>
    descended.2 i inside (later i from' fitting) fitting
  | some least =>
    obtain ⟨member, least⟩ := descended.2
    refine ⟨⟨Nat.le_of_succ_le member.1, member.2⟩, fun i other => ?_⟩
    exact least ⟨later i other.1 other.2.2, other.2⟩

theorem descend_serves {limit index : Nat} (within : index ≤ scan.boundaries.length)
    {fallback : Option Nat}
    (descended : Descended planner limit scan.boundaries.length costs index fallback) :
    Serves planner.Cancelled (Remembers costs)
      (planner.descend scan limit (List.range index).reverse fallback)
      fun found => Preferred planner limit scan.boundaries.length costs (found.1.or found.2) := by
  induction index generalizing fallback with
  | zero =>
    refine serves_pure ?_
    obtain ⟨never, least⟩ := descended
    cases fallback with
    | none => exact fun i inside => least i inside (Nat.zero_le i)
    | some index =>
      refine .inr ⟨fun i inside => never i inside (Nat.zero_le i), least.1.2, ?_⟩
      exact fun i member => least.2 ⟨Nat.zero_le i, member⟩
  | succ index ih =>
    rw [List.range_succ, List.reverse_append, List.reverse_singleton, List.singleton_append]
    refine (cost_serves counted (by omega)).bind fun cost same => ?_
    subst same
    split
    · rename_i both
      have fits : planner.Fits limit (costs index) := Bool.and_eq_true_iff.mp both
      split
      · rename_i keeps
        refine serves_pure (.inl ⟨⟨by omega, fits, keeps⟩, fun i member => ?_⟩)
        by_contra larger
        exact descended.1 i member.1 (by omega) member.2.1 member.2.2
      · rename_i drops
        exact ih (by omega) (descended.fallback (by omega) fits drops)
    · rename_i neither
      exact ih (by omega) (descended.skip fun fits => neither (Bool.and_eq_true_iff.mpr fits))

theorem selectGeneric_serves (few : scan.boundaries.length ≤ maxGenericCandidates) (limit : Nat) :
    Serves planner.Cancelled (Remembers costs) (planner.selectGeneric scan limit)
      (Preferred planner limit scan.boundaries.length costs) := by
  have start : Descended planner limit scan.boundaries.length costs scan.boundaries.length none :=
    ⟨fun i inside from' => by omega, fun i inside from' => by omega⟩
  unfold selectGeneric
  simp only [Nat.min_eq_left few, lt_irrefl, decide_false, Bool.and_false, Bool.false_eq_true,
    if_false]
  rw [List.take_of_length_le (by simp)]
  exact (descend_serves counted le_rfl start).bind fun found preferred => serves_pure preferred

/-- The refusal of a history no boundary of which fits. -/
def noneFits (max : Nat) : ContextError :=
  ⟨if max = 0 then .noProgress else .cannotFit,
    "no complete historical prefix satisfies summary, primary and core-retention budgets"⟩

/-- The check of a preferred boundary does not find a violation. -/
theorem confirm_serves {limit : Nat} (max : Nat) {selected : Option Nat}
    (preferred : Preferred planner limit scan.boundaries.length costs selected) :
    Serves (fun error => planner.Cancelled error ∨ selected = none ∧ error = noneFits max)
      (Remembers costs) (planner.confirm scan limit max selected)
      fun n => ∃ index, selected = some index ∧ n = (scan.boundaries.getD index (0, 0)).1 := by
  cases selected with
  | none =>
    refine (cancellationPoint_serves.allow fun _ => .inl).bind fun _ _ => ?_
    exact fun _ _ => .inr ⟨rfl, rfl⟩
  | some index =>
    obtain ⟨below, summary, primary⟩ := preferred.fits
    refine Serves.allow ?_ fun _ => .inl
    refine cancellationPoint_serves.bind fun _ _ => ?_
    refine (cost_serves counted below).bind fun cost same => ?_
    subst same
    rw [summary, primary]
    exact cancellationPoint_serves.bind fun _ _ => serves_pure ⟨index, rfl, rfl⟩

end Search

/-- Where the prices are monotone, bisection selects the boundary the exhaustive scan selects,
and the check that follows finds it within its limits. -/
theorem selectMonotone_agrees (few : scan.boundaries.length ≤ 64)
    (counted : planner.Costs scan costs) (monotone : Monotone scan.boundaries.length costs)
    (limit max looks : Nat) :
    ∃ chosen, Preferred planner limit scan.boundaries.length costs chosen ∧
      Yields planner.Cancelled (fun (selected, after) => selected = chosen ∧
          Yields (fun error => planner.Cancelled error ∨ chosen = none ∧ error = noneFits max)
            (fun (n, _) => ∃ index, chosen = some index ∧ n = (scan.boundaries.getD index (0, 0)).1)
            (planner.confirm scan limit max selected after))
        (planner.selectMonotone scan limit { looks }) ∧
      Yields planner.Cancelled (fun (selected, _) => selected = chosen)
        (planner.selectGeneric scan limit { looks }) := by
  obtain ⟨upper, lower, recent, ends⟩ :
      ∃ upper lower recent, Ends planner limit _ costs upper lower recent :=
    monotone.exists_ends limit
  refine ⟨_, ends.preferred, ?_, ?_⟩
  · refine (selectMonotone_serves counted ends { looks } nofun).mono ?_
    rintro ⟨selected, after⟩ ⟨remembers, preferred⟩
    obtain rfl := preferred.unique ends.preferred
    exact ⟨rfl, (confirm_serves counted max preferred after remembers).mono fun _ result => result.2⟩
  · refine (selectGeneric_serves counted few limit { looks } nofun).mono ?_
    rintro ⟨selected, after⟩ ⟨_, preferred⟩
    exact preferred.unique ends.preferred

/-- The boundaries of the counting planner's history, before the call and after its result. -/
def countingScan : Scan where
  boundaries := [(1, 4), (3, 12)]
  transcript := renderTranscript (fun _ => ["part"]) (countingPlanner.input.take 3)

def countingCosts (index : Nat) : Cost :=
  { summary := 1, primary := 3 - 2 * index, recent := 3 - 2 * index }

/-- Both searches take the boundary after the result, which leaves one message. -/
theorem selectMonotone_agrees_counting :
    (∃ chosen, Preferred countingPlanner 80 2 countingCosts chosen ∧
      Yields countingPlanner.Cancelled (fun (selected, _) => selected = chosen)
        (countingPlanner.selectGeneric countingScan 80 { looks := 0 })) ∧
    ((countingPlanner.selectMonotone countingScan 80).run { looks := 0 }).toOption.map Prod.fst =
      some (some 1) := by
  have counted : countingPlanner.Costs countingScan countingCosts := by
    intro index below
    match index, below with
    | 0, _ => exact ⟨_, rfl, rfl⟩
    | 1, _ => exact ⟨_, rfl, rfl⟩
  have monotone : Monotone countingScan.boundaries.length countingCosts :=
    ⟨fun _ _ _ _ => le_rfl, fun i j order _ => by simp only [countingCosts]; omega,
      fun i j order _ => by simp only [countingCosts]; omega⟩
  obtain ⟨chosen, preferred, _, generic⟩ :=
    selectMonotone_agrees (by decide) counted monotone 80 3 0
  exact ⟨⟨chosen, preferred, generic⟩, by decide +kernel⟩

end Planner

end RustX.Context
