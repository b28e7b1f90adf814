import Mathlib

/-!
The Read tool pages through a text by complete lines. Following the offsets it advertises
shows every line once.
-/
namespace RustX.Tools.Read

open List

abbrev Text := List Char

def bytes (text : Text) : Nat :=
  (text.map Char.utf8Size).sum

def maxReadLines : Nat := 2000

def nativeFileToolMaxBytes : Nat := 50 * 1024

def joinLines (lines : List Text) : Text :=
  ['\n'].intercalate lines

structure ReadProjection where
  lines : List Text
  stoppedByLine : Bool
  stoppedByBytes : Bool
  firstLineTooLarge : Option Nat

/-- A final newline is a separator, not a line of its own. -/
def counted (lines : List Text) : List Text :=
  if lines.getLast? = some [] then lines.dropLast else lines

def contentBytes (lines : List Text) : Nat :=
  (lines.map bytes).sum + (lines.length - 1)

def separator (shown : Nat) : Nat :=
  if shown = 0 then 0 else 1

/-- The loop of `truncate_head`, after `shown` lines of `used` bytes. -/
def takeLines (shown used : Nat) : List Text → ReadProjection
  | [] => ⟨[], false, false, none⟩
  | line :: lines =>
    if maxReadLines ≤ shown then ⟨[], true, false, none⟩
    else
      let used := used + (bytes line + separator shown)
      if nativeFileToolMaxBytes < used then ⟨[], false, true, none⟩
      else
        let rest := takeLines (shown + 1) used lines
        { rest with lines := line :: rest.lines }

def truncateHead (lines : List Text) : ReadProjection :=
  if (counted lines).length ≤ maxReadLines ∧ contentBytes lines ≤ nativeFileToolMaxBytes then
    ⟨lines, false, false, none⟩
  else
    match (counted lines).head?.filter (nativeFileToolMaxBytes < bytes ·) with
    | some first => ⟨[], false, true, some (bytes first)⟩
    | none =>
      let taken := takeLines 0 0 (counted lines)
      { taken with
        stoppedByBytes := taken.stoppedByBytes ||
          (!taken.stoppedByLine && decide (nativeFileToolMaxBytes < contentBytes lines)) }

structure ReadInput where
  path : String
  offset : Option Nat
  limit : Option Nat

def ReadInput.firstLine (input : ReadInput) : Nat :=
  max (input.offset.getD 1) 1

inductive Notice
  | byLine (first last total next : Nat)
  | byBytes (first last total next : Nat)
  | more (left next : Nat)

def Notice.next : Notice → Nat
  | .byLine _ _ _ next | .byBytes _ _ _ next | .more _ next => next

def Notice.text : Notice → String
  | .byLine first last total next =>
    s!"\n\n[Showing lines {first}-{last} of {total}. Use offset={next} to continue.]"
  | .byBytes first last total next =>
    s!"\n\n[Showing lines {first}-{last} of {total} (50KB limit). Use offset={next} to continue.]"
  | .more left next => s!"\n\n[{left} more lines in file. Use offset={next} to continue.]"

/-- `truncation` is the size of the source, when the result is marked truncated. -/
inductive ReadResult
  | failed (message : String)
  | tooLarge (message : String) (truncation : Option Nat)
  | page (lines : List Text) (notice : Option Notice) (truncation : Option Nat)

def ReadResult.output : ReadResult → String
  | .failed message | .tooLarge message _ => message
  | .page lines notice _ => String.ofList (joinLines lines) ++ (notice.map Notice.text).getD ""

def formatSize (bytes : Nat) : String :=
  s!"{bytes / 1024}.{bytes % 1024 * 10 / 1024}KB"

def projectReadText (text : Text) (originalBytes : Nat) (input : ReadInput) : ReadResult :=
  let lines := text.splitOn '\n'
  let total := lines.length
  let offset := input.firstLine
  let start := offset - 1
  if total ≤ start then
    .failed s!"Offset {offset} is beyond end of file ({total} lines total)"
  else
    let requestedEnd := (input.limit.map fun limit => min (start + limit) total).getD total
    let projection := truncateHead ((lines.drop start).take (requestedEnd - start))
    match projection.firstLineTooLarge with
    | some size =>
      .tooLarge (s!"[Line {offset} is {formatSize size}, exceeds 50.0KB limit. Use bash: sed -n " ++
        s!"'{offset}p' {input.path} | head -c {nativeFileToolMaxBytes}]") (some originalBytes)
    | none =>
      let next := offset + projection.lines.length
      .page projection.lines
        (if projection.stoppedByLine then some (.byLine offset (next - 1) total next)
          else if projection.stoppedByBytes then some (.byBytes offset (next - 1) total next)
          else if requestedEnd < total then some (.more (total - requestedEnd) next)
          else none)
        (if projection.stoppedByLine ∨ projection.stoppedByBytes ∨ requestedEnd < total then
          some originalBytes
        else none)

/-- Calls with the given limits, each at the offset the one before advertised. -/
def follow (text : Text) (originalBytes : Nat) (path : String) :
    List (Option Nat) → Nat → List (Nat × ReadResult)
  | [], _ => []
  | limit :: limits, offset =>
    let result := projectReadText text originalBytes ⟨path, some offset, limit⟩
    (offset, result) :: match result with
      | .page _ (some notice) _ => follow text originalBytes path limits notice.next
      | _ => []

/-- The bytes of lines that come after `shown` others, with their separators. -/
def cost : Nat → List Text → Nat
  | _, [] => 0
  | shown, line :: lines => bytes line + separator shown + cost (shown + 1) lines

theorem cost_after (shown : Nat) (lines : List Text) :
    cost (shown + 1) lines = (lines.map bytes).sum + lines.length := by
  induction lines generalizing shown with
  | nil => rfl
  | cons line lines ih =>
    simp [cost, separator, ih]
    omega

theorem cost_zero (lines : List Text) : cost 0 lines = contentBytes lines := by
  cases lines with
  | nil => rfl
  | cons line lines =>
    simp [cost, separator, cost_after, contentBytes]
    omega

theorem bytes_joinLines (lines : List Text) : bytes (joinLines lines) = contentBytes lines := by
  induction lines with
  | nil => rfl
  | cons line lines ih =>
    cases lines with
    | nil => simp [joinLines, contentBytes, bytes]
    | cons next lines =>
      simp only [joinLines, contentBytes, bytes, intercalate_cons_cons, map_append,
        sum_append, map_cons, sum_cons, length_cons] at ih ⊢
      rw [ih, show '\n'.utf8Size = 1 by decide, map_nil, sum_nil]
      omega

/-- Lines within the bounds, after `shown` lines of `used` bytes; what stops them leaves some. -/
structure Bounded (lines : List Text) (shown used : Nat) (projection : ReadProjection) : Prop where
  fits : projection.firstLineTooLarge = none
  part : projection.lines <+: lines
  few : shown + projection.lines.length ≤ maxReadLines
  light : used + cost shown projection.lines ≤ nativeFileToolMaxBytes
  stops : (projection.stoppedByLine ∨ projection.stoppedByBytes) ↔
    projection.lines.length < lines.length

theorem takeLines_bounded (lines : List Text) (few : shown ≤ maxReadLines)
    (light : used ≤ nativeFileToolMaxBytes) :
    Bounded lines shown used (takeLines shown used lines) := by
  induction lines generalizing shown used with
  | nil => exact ⟨rfl, prefix_rfl, few, light, by simp [takeLines]⟩
  | cons line lines ih =>
    rw [takeLines]
    split
    · exact ⟨rfl, nil_prefix, few, light, by simp⟩
    dsimp only
    split
    · exact ⟨rfl, nil_prefix, few, light, by simp⟩
    rename_i more room
    obtain ⟨fits, part, few, light, stops⟩ :=
      ih (show shown + 1 ≤ maxReadLines by omega) (Nat.le_of_not_lt room)
    refine ⟨fits, (prefix_cons_inj line).mpr part, ?_, ?_, by simpa using stops⟩
    · simp only [length_cons]
      omega
    · rw [cost]
      omega

theorem counted_cases (lines : List Text) :
    counted lines = lines ∨ lines = counted lines ++ [[]] := by
  rw [counted]
  split
  · rename_i last
    obtain ⟨front, rfl⟩ := getLast?_eq_some_iff.mp last
    exact .inr (by simp)
  · exact .inl rfl

/-- Some of the lines, within the bounds of one result. -/
structure Page (lines shown : List Text) : Prop where
  part : shown <+: lines
  some : shown ≠ []
  few : (counted shown).length ≤ maxReadLines
  light : contentBytes shown ≤ nativeFileToolMaxBytes

theorem truncateHead_page (some : lines ≠ [])
    (fit : ∀ line ∈ lines, bytes line ≤ nativeFileToolMaxBytes) :
    Page lines (truncateHead lines).lines ∧ (truncateHead lines).firstLineTooLarge = none ∧
      ((truncateHead lines).stoppedByLine ∨ (truncateHead lines).stoppedByBytes ↔
        (truncateHead lines).lines.length < lines.length) := by
  rw [truncateHead]
  split
  · rename_i small
    exact ⟨⟨prefix_rfl, some, small.1, small.2⟩, rfl, by simp⟩
  rename_i large
  have ends := counted_cases lines
  cases held : counted lines with
  | nil =>
    rw [held] at ends large
    rcases ends with same | single
    · exact absurd same.symm some
    · subst single
      exact absurd ⟨by decide, by decide⟩ large
  | cons first rest =>
    rw [held] at ends large
    have light : bytes first ≤ nativeFileToolMaxBytes := by
      refine fit first ?_
      rcases ends with same | last
      · exact same ▸ mem_cons_self
      · exact last ▸ mem_cons_self
    have taken := takeLines_bounded (first :: rest) (Nat.zero_le maxReadLines)
      (Nat.zero_le nativeFileToolMaxBytes)
    have begun : (takeLines 0 0 (first :: rest)).lines ≠ [] := by
      rw [takeLines, if_neg (by decide)]
      simp only [separator, if_true, Nat.add_zero, Nat.zero_add, if_neg (Nat.not_lt.mpr light)]
      exact cons_ne_nil _ _
    simp only [head?_cons, Option.filter_some, decide_eq_true_eq, Nat.not_lt.mpr light, if_false]
    generalize takeLines 0 0 (first :: rest) = projection at taken begun
    obtain ⟨fits, part, few, weight, stops⟩ := taken
    rw [Nat.zero_add, cost_zero] at weight
    have counts : (counted projection.lines).length ≤ projection.lines.length := by
      rw [counted]
      split <;> simp
    refine ⟨⟨?_, begun, Nat.le_trans counts (by omega), weight⟩, fits, ?_⟩
    · rcases ends with same | last
      · exact same ▸ part
      · exact last ▸ part.trans (prefix_append _ _)
    by_cases stopped : projection.stoppedByLine ∨ projection.stoppedByBytes
    · have left := stops.mp stopped
      refine iff_of_true (by rcases stopped with byLine | byBytes <;> simp [*]) ?_
      rcases ends with same | last
      · exact same ▸ left
      · rw [last, length_append]
        omega
    · have whole : projection.lines = first :: rest :=
        part.eq_of_length_le (Nat.le_of_not_lt (stopped ∘ stops.mpr))
      simp only [not_or, Bool.not_eq_true] at stopped
      simp only [stopped, whole, Bool.false_or, Bool.not_false, Bool.true_and,
        decide_eq_true_eq, Bool.false_eq_true, false_or]
      rw [whole] at weight few
      rcases ends with same | last
      · rw [← same]
        exact iff_of_false (Nat.not_lt.mpr weight) (Nat.lt_irrefl _)
      · rw [last, length_append]
        refine iff_of_true (Nat.lt_of_not_le fun light => large ⟨by omega, last ▸ light⟩) ?_
        simp

/-- What a call at `offset` answers: a page from there, and where to go on when there is more. -/
structure Answers (lines : List Text) (originalBytes offset : Nat) (shown : List Text)
    (notice : Option Notice) (truncation : Option Nat) : Prop
    extends Page (lines.drop (offset - 1)) shown where
  next : notice.map Notice.next =
    if offset - 1 + shown.length < lines.length then .some (offset + shown.length) else none
  truncated : truncation =
    if offset - 1 + shown.length < lines.length then .some originalBytes else none

theorem projectReadText_answers (text : Text) (originalBytes : Nat) (path : String)
    (fit : ∀ line ∈ text.splitOn '\n', bytes line ≤ nativeFileToolMaxBytes)
    (first : 1 ≤ offset) (within : offset ≤ (text.splitOn '\n').length)
    (positive : ∀ count, limit = .some count → 0 < count) :
    ∃ shown notice truncation,
      projectReadText text originalBytes ⟨path, .some offset, limit⟩ =
          .page shown notice truncation ∧
        Answers (text.splitOn '\n') originalBytes offset shown notice truncation := by
  generalize lines_eq : text.splitOn '\n' = lines at fit within
  obtain ⟨stop, stop_eq⟩ : ∃ stop, stop =
      (limit.map fun limit => min (offset - 1 + limit) lines.length).getD lines.length := ⟨_, rfl⟩
  have ordered : offset ≤ stop ∧ stop ≤ lines.length := by
    cases limit with
    | none => exact ⟨stop_eq ▸ within, Nat.le_of_eq stop_eq⟩
    | some count =>
      have := positive count rfl
      simp only [Option.map_some, Option.getD_some] at stop_eq
      omega
  have part : (lines.drop (offset - 1)).take (stop - (offset - 1)) <+: lines.drop (offset - 1) :=
    take_prefix _ _
  have length : ((lines.drop (offset - 1)).take (stop - (offset - 1))).length =
      stop - (offset - 1) := by
    rw [length_take, length_drop]
    omega
  obtain ⟨page, fits, stops⟩ := truncateHead_page (ne_nil_of_length_pos (by omega))
    fun line member => fit line (mem_of_mem_drop (part.subset member))
  have shorter := page.part.length_le
  simp only [projectReadText, ReadInput.firstLine, Option.getD_some, Nat.max_eq_left first,
    lines_eq, ← stop_eq, if_neg (show ¬ lines.length ≤ offset - 1 by omega), fits]
  generalize truncateHead ((lines.drop (offset - 1)).take (stop - (offset - 1))) = projection at *
  have more : (projection.stoppedByLine ∨ projection.stoppedByBytes ∨ stop < lines.length) ↔
      offset - 1 + projection.lines.length < lines.length := by
    rw [← or_assoc, stops]
    omega
  refine ⟨_, _, _, rfl,
    ⟨⟨page.part.trans part, page.some, page.few, page.light⟩, ?_, if_congr more rfl rfl⟩⟩
  rw [← if_congr more rfl rfl]
  cases projection.stoppedByLine <;> cases projection.stoppedByBytes <;>
    by_cases cut : stop < lines.length <;> simp [cut, Notice.next]

theorem joinLines_append (some : first ≠ []) (more : second ≠ []) :
    joinLines (first ++ second) = joinLines first ++ '\n' :: joinLines second := by
  induction first with
  | nil => exact absurd rfl some
  | cons line first ih =>
    cases first with
    | nil => simp [joinLines, intercalate_cons_of_ne_nil more]
    | cons next first =>
      have later := ih (cons_ne_nil _ _)
      simp only [joinLines, cons_append, intercalate_cons_cons, append_assoc] at later ⊢
      rw [later]

def ReadResult.payload : ReadResult → Text
  | .page lines _ _ => joinLines lines
  | _ => []

section Follow

variable (text : Text) (originalBytes : Nat) (path : String)
  (fit : ∀ line ∈ text.splitOn '\n', bytes line ≤ nativeFileToolMaxBytes)
include fit

theorem follow_cons (first : 1 ≤ offset) (within : offset ≤ (text.splitOn '\n').length)
    (positive : ∀ count, limit = some count → 0 < count) (limits : List (Option Nat)) :
    ∃ shown notice truncation,
      Answers (text.splitOn '\n') originalBytes offset shown notice truncation ∧
        follow text originalBytes path (limit :: limits) offset =
          (offset, .page shown notice truncation) ::
            if offset - 1 + shown.length < (text.splitOn '\n').length then
              follow text originalBytes path limits (offset + shown.length)
            else [] := by
  obtain ⟨shown, notice, truncation, result, answers⟩ :=
    projectReadText_answers text originalBytes path fit first within positive
  refine ⟨shown, notice, truncation, answers, ?_⟩
  have next := answers.next
  rw [follow, result]
  cases notice with
  | none =>
    split at next
    · cases next
    · rename_i last
      rw [if_neg last]
  | some notice =>
    split at next
    · rename_i more
      rw [if_pos more, ← Option.some.inj next]
    · cases next

theorem follow_answers (first : 1 ≤ offset) (within : offset ≤ (text.splitOn '\n').length)
    (positive : ∀ limit ∈ limits, ∀ count, limit = some count → 0 < count) :
    ∀ call ∈ follow text originalBytes path limits offset, ∃ shown notice truncation,
      call.2 = .page shown notice truncation ∧
        Answers (text.splitOn '\n') originalBytes call.1 shown notice truncation := by
  induction limits generalizing offset with
  | nil => exact fun call member => nomatch member
  | cons limit limits ih =>
    obtain ⟨here, later⟩ := forall_mem_cons.mp positive
    obtain ⟨shown, notice, truncation, answers, calls⟩ :=
      follow_cons text originalBytes path fit first within here limits
    rw [calls]
    refine forall_mem_cons.mpr ⟨⟨shown, notice, truncation, rfl, answers⟩, ?_⟩
    split
    · exact ih (by omega) (by omega) later
    · exact fun call member => nomatch member

theorem follow_complete (first : 1 ≤ offset) (within : offset ≤ (text.splitOn '\n').length)
    (positive : ∀ limit ∈ limits, ∀ count, limit = some count → 0 < count)
    (enough : (text.splitOn '\n').length < limits.length + offset) :
    joinLines ((follow text originalBytes path limits offset).map (·.2.payload)) =
        joinLines ((text.splitOn '\n').drop (offset - 1)) ∧
      ∃ last shown, (follow text originalBytes path limits offset).getLast? =
        some (last, .page shown none none) := by
  induction limits generalizing offset with
  | nil => exact absurd enough (by simp; omega)
  | cons limit limits ih =>
    obtain ⟨here, later⟩ := forall_mem_cons.mp positive
    obtain ⟨shown, notice, truncation, answers, calls⟩ :=
      follow_cons text originalBytes path fit first within here limits
    have some := length_pos_iff.mpr answers.some
    rw [calls]
    split
    · obtain ⟨joined, last, ending, ends⟩ := ih (show 1 ≤ offset + shown.length by omega)
        (by omega) later (by rw [length_cons] at enough; omega)
      obtain ⟨rest, parts⟩ := answers.part
      have left : (text.splitOn '\n').drop (offset + shown.length - 1) = rest := by
        rw [Nat.sub_add_comm first, ← drop_drop, ← parts, drop_left]
      have unread : rest ≠ [] := by
        rw [← left]
        exact ne_nil_of_length_pos (by rw [length_drop]; omega)
      have going : follow text originalBytes path limits (offset + shown.length) ≠ [] := by
        intro none
        simp [none] at ends
      refine ⟨?_, last, ending, by rw [getLast?_cons_of_ne_nil going, ends]⟩
      rw [← parts, joinLines_append answers.some unread, ← left, ← joined, map_cons, joinLines,
        intercalate_cons_of_ne_nil (by simpa using going)]
      simp [joinLines, ReadResult.payload]
    · rename_i done
      have next := answers.next
      have truncated := answers.truncated
      rw [if_neg done] at next truncated
      have whole := answers.part.eq_of_length_le (by rw [length_drop]; omega)
      rw [Option.map_eq_none_iff.mp next, truncated, ← whole]
      exact ⟨by simp [joinLines, ReadResult.payload], offset, shown, rfl⟩

end Follow

/-- Reading on at the advertised offsets loses nothing, whatever limits are asked for. -/
theorem follow_loses_nothing (text : Text) (originalBytes : Nat) (path : String)
    (limits : List (Option Nat))
    (fit : ∀ line ∈ text.splitOn '\n', bytes line ≤ nativeFileToolMaxBytes)
    (positive : ∀ limit ∈ limits, ∀ count, limit = some count → 0 < count) :
    (∀ call ∈ follow text originalBytes path limits 1, ∃ shown notice truncation,
        call.2 = .page shown notice truncation ∧ shown ≠ [] ∧
          bytes (joinLines shown) ≤ nativeFileToolMaxBytes ∧
          (counted shown).length ≤ maxReadLines ∧
          (call.1 - 1 + shown.length < (text.splitOn '\n').length →
            notice.isSome ∧ truncation.isSome)) ∧
      ((text.splitOn '\n').length ≤ limits.length →
        joinLines ((follow text originalBytes path limits 1).map (·.2.payload)) = text ∧
          ∃ last shown, (follow text originalBytes path limits 1).getLast? =
            some (last, .page shown none none)) := by
  have within : 1 ≤ (text.splitOn '\n').length := length_pos_iff.mpr (splitOn_ne_nil _ _)
  refine ⟨fun call member => ?_, fun enough => ?_⟩
  · obtain ⟨shown, notice, truncation, result, answers⟩ :=
      follow_answers text originalBytes path fit (Nat.le_refl 1) within positive call member
    refine ⟨shown, notice, truncation, result, answers.some, ?_, answers.few, fun more => ?_⟩
    · rw [bytes_joinLines]
      exact answers.light
    · have next := answers.next
      exact ⟨by cases notice <;> simp_all, by simp [answers.truncated, more]⟩
  · have complete := follow_complete text originalBytes path fit (Nat.le_refl 1) within positive
      (by omega)
    rwa [Nat.sub_self, drop_zero, joinLines, joinLines, intercalate_splitOn] at complete

/-- A line at a time, with a final newline. -/
theorem follow_loses_nothing_lines :
    joinLines ((follow "a\nb\n".toList 4 "notes" [some 1, none, none] 1).map
      (·.2.payload)) = "a\nb\n".toList :=
  ((follow_loses_nothing "a\nb\n".toList 4 "notes" [some 1, none, none] (by decide)
    (by decide)).2 (by decide)).1

end RustX.Tools.Read
