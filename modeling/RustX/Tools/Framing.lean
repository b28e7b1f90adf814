import Mathlib

/-!
The reader between an MCP peer and the protocol machine. It passes bytes on unchanged, looks at
every completed line, and ends the stream behind the first line that is a violation.
-/
namespace RustX.Mcp

open List

abbrev Bytes := List UInt8

def newline : UInt8 := 10

inductive Category
  | invalid
  | eof
  | data
  | io

/-- What the codec makes of one frame. -/
inductive Decoded
  | message
  | serde (category : Category) (error : String)
  | other

/-- The codec of the transport, and what a recorder does to its evidence. -/
structure Host where
  decode : Bytes → Decoded
  fromUtf8Lossy : Bytes → String
  redact : String → String
  preview : String → Nat → String

inductive LineVerdict
  | healthy
  | noise
  | violation (reason : String)

/-- What the inner reader answers when it is polled. A chunk is not empty; at the end of the
script the peer has closed the stream. -/
inductive Poll
  | pending
  | failed (error : String)
  | chunk (first : UInt8) (rest : Bytes)

inductive Polled
  | pending
  | failed (error : String)
  | ready (bytes : Bytes)

structure Reader where
  pending : Bytes := []
  delivered : Nat := 0
  line : Bytes := []
  violated : Bool := false
  /-- The recorder's first violation. -/
  first : Option String := none

section Model

variable (host : Host)

def classifyLine (line : Bytes) : LineVerdict :=
  match host.decode (line ++ [newline]) with
  | .message => .healthy
  | .serde .invalid _ | .serde .eof _ | .other => .noise
  | .serde .data error | .serde .io error => .violation error

def diagnostic (reason : String) (line : Bytes) : String :=
  let reason := host.preview (host.redact reason) 256
  let preview := host.preview (host.redact (host.fromUtf8Lossy line)) 160
  s!"well-formed JSON could not be decoded as an MCP message ({reason}; offending line: '{preview}')"

def Reader.record (reader : Reader) (reason : String) (line : Bytes) : Reader :=
  if reader.first.isSome then reader
  else { reader with first := some (diagnostic host reason line) }

/-- Bytes that were just read, up to the end of the first line that is a violation. -/
def observe : Bytes → Reader → Reader
  | [], reader => reader
  | byte :: rest, reader =>
    let reader := { reader with pending := reader.pending ++ [byte] }
    if byte ≠ newline then observe rest { reader with line := reader.line ++ [byte] }
    else
      match classifyLine host reader.line with
      | .violation reason =>
        { reader.record host reason reader.line with line := [], violated := true }
      | _ => observe rest { reader with line := [] }

def Reader.deliver (size : Nat) (reader : Reader) : Reader :=
  let delivered := reader.delivered + min size (reader.pending.length - reader.delivered)
  if delivered = reader.pending.length then { reader with pending := [], delivered := 0 }
  else { reader with delivered }

def pollRead (size : Nat) : List Poll → Reader → Polled × List Poll × Reader
  | inner, reader =>
    if reader.delivered < reader.pending.length then
      (.ready ((reader.pending.drop reader.delivered).take size), inner, reader.deliver size)
    else if reader.violated then (.ready [], inner, reader)
    else
      match inner with
      | [] => (.ready [], [], reader)
      | .pending :: inner => (.pending, inner, reader)
      | .failed error :: inner => (.failed error, inner, reader)
      | .chunk first rest :: inner => pollRead size inner (observe host (first :: rest) reader)

/-- Polls with buffers of the given sizes: the bytes handed on, and the state after them. -/
def run : List Nat → List Poll → Reader → List Polled × List Poll × Reader
  | [], inner, reader => ([], inner, reader)
  | size :: sizes, inner, reader =>
    let (polled, inner, reader) := pollRead host size inner reader
    let (later, inner, reader) := run sizes inner reader
    (polled :: later, inner, reader)

end Model

def Polled.bytes : Polled → Bytes
  | .ready bytes => bytes
  | _ => []

/-- The stream the inner reader will yield. -/
def input : List Poll → Bytes
  | [] => []
  | .chunk first rest :: inner => first :: rest ++ input inner
  | _ :: inner => input inner

section Cut

variable (host : Host)

def terminated (lines : List Bytes) : Bytes :=
  lines.flatMap (· ++ [newline])

def Clean (lines : List Bytes) : Prop :=
  ∀ line ∈ lines, newline ∉ line ∧ ∀ reason, classifyLine host line ≠ .violation reason

/-- The part of a stream up to and including its first complete line that is a violation, and
that line with the reason. -/
inductive Cuts : Bytes → Bytes → Option (String × Bytes) → Prop
  | whole (lines : List Bytes) (tail : Bytes) : Clean host lines → newline ∉ tail →
      Cuts (terminated lines ++ tail) (terminated lines ++ tail) none
  | behind (lines : List Bytes) (line after : Bytes) (reason : String) : Clean host lines →
      newline ∉ line → classifyLine host line = .violation reason →
      Cuts (terminated (lines ++ [line]) ++ after) (terminated (lines ++ [line]))
        (some (reason, line))

/-- The same while the bytes `line` of a line are already through. -/
def cut (line : Bytes) : Bytes → Bytes × Option (String × Bytes)
  | [] => ([], none)
  | byte :: rest =>
    if byte ≠ newline then (cut (line ++ [byte]) rest).map (byte :: ·) id
    else
      match classifyLine host line with
      | .violation reason => ([byte], some (reason, line))
      | _ => (cut [] rest).map (byte :: ·) id

theorem cut_cuts (clean : Clean host lines) (open_line : newline ∉ line) (bytes : Bytes) :
    Cuts host (terminated lines ++ line ++ bytes)
      (terminated lines ++ line ++ (cut host line bytes).1) (cut host line bytes).2 := by
  induction bytes generalizing lines line with
  | nil => simpa [cut] using Cuts.whole lines line clean open_line
  | cons byte rest ih =>
    rw [cut]
    split
    · rename_i inside
      have later := ih clean (show newline ∉ line ++ [byte] by simp [open_line, Ne.symm inside])
      simpa using later
    rename_i ends
    obtain rfl : byte = newline := not_not.mp ends
    split
    · rename_i reason rejected
      simpa [terminated] using Cuts.behind lines line rest reason clean open_line rejected
    · rename_i accepted
      have more : Clean host (lines ++ [line]) := by
        intro other member
        rcases mem_append.mp member with member | member
        · exact clean other member
        · exact mem_singleton.mp member ▸ ⟨open_line, accepted⟩
      simpa [terminated] using ih more (not_mem_nil)

theorem cut_eq_nil (nothing : (cut host line bytes).1 = []) : bytes = [] := by
  cases bytes with
  | nil => rfl
  | cons byte rest =>
    rw [cut] at nothing
    split at nothing
    · cases nothing
    · split at nothing <;> cases nothing

end Cut

section Ahead

variable (host : Host)

/-- The bytes to come and the diagnostic there will be, when `more` is still to be read. -/
def Reader.ahead (reader : Reader) (more : Bytes) : Bytes × Option String :=
  if reader.violated then (reader.pending.drop reader.delivered, reader.first)
  else
    (reader.pending.drop reader.delivered ++ (cut host reader.line more).1,
      (cut host reader.line more).2.map fun found => diagnostic host found.1 found.2)

structure Reader.Sane (reader : Reader) : Prop where
  within : reader.delivered ≤ reader.pending.length
  recorded : reader.first.isSome = reader.violated

/-- Nothing is buffered, and nothing will be. -/
def Reader.Ended (inner : List Poll) (reader : Reader) : Prop :=
  reader.pending.length ≤ reader.delivered ∧ (reader.violated = true ∨ inner = [])

theorem observe_ahead (bytes more : Bytes) (reader : Reader) (sane : reader.Sane)
    (passing : reader.violated = false) :
    (observe host bytes reader).Sane ∧
      (observe host bytes reader).ahead host more = reader.ahead host (bytes ++ more) := by
  induction bytes generalizing reader with
  | nil => exact ⟨sane, rfl⟩
  | cons byte rest ih =>
    have fresh : reader.first = none := by simpa [passing] using sane.recorded
    have grown : (reader.pending ++ [byte]).drop reader.delivered =
        reader.pending.drop reader.delivered ++ [byte] :=
      drop_append_of_le_length sane.within
    have longer : reader.delivered ≤ (reader.pending ++ [byte]).length := by
      have := sane.within
      simp
      omega
    -- Both ways on, the rest is observed by a reader that has taken the byte.
    have goes line := ih { reader with pending := reader.pending ++ [byte], line := line }
      ⟨longer, sane.recorded⟩ passing
    rw [observe]
    split
    · rename_i inside
      refine ⟨(goes _).1, (goes _).2.trans ?_⟩
      simp [Reader.ahead, passing, cut, inside, grown]
    rename_i ends
    cases verdict : classifyLine host reader.line with
    | violation reason =>
      refine ⟨⟨by simpa [Reader.record, fresh] using longer, by simp [Reader.record, fresh]⟩, ?_⟩
      simp [Reader.ahead, Reader.record, fresh, passing, cut, ends, verdict, grown]
    | healthy | noise =>
      refine ⟨(goes []).1, (goes []).2.trans ?_⟩
      simp [Reader.ahead, passing, cut, ends, verdict, grown]

theorem deliver_ahead (size : Nat) (reader : Reader) (sane : reader.Sane) (more : Bytes) :
    (reader.deliver size).Sane ∧ reader.ahead host more =
      ((reader.deliver size).ahead host more).map
        ((reader.pending.drop reader.delivered).take size ++ ·) id := by
  have parts := take_append_drop size (reader.pending.drop reader.delivered)
  rw [drop_drop] at parts
  have within := sane.within
  rw [Reader.deliver]
  split
  · have empty : reader.pending.drop (reader.delivered + size) = [] := drop_eq_nil_of_le (by omega)
    rw [empty, append_nil] at parts
    refine ⟨⟨by simp, sane.recorded⟩, ?_⟩
    rw [parts, Reader.ahead, Reader.ahead]
    split <;> simp
  · refine ⟨⟨by dsimp only; omega, sane.recorded⟩, ?_⟩
    rw [show reader.delivered + min size (reader.pending.length - reader.delivered) =
      reader.delivered + size by omega, Reader.ahead, Reader.ahead]
    split <;> simp [← append_assoc, parts]

theorem pollRead_ahead (size : Nat) (inner : List Poll) (reader : Reader) (sane : reader.Sane) :
    (pollRead host size inner reader).2.2.Sane ∧
      (pollRead host size inner reader).2.1.length ≤ inner.length ∧
      reader.ahead host (input inner) =
        ((pollRead host size inner reader).2.2.ahead host
          (input (pollRead host size inner reader).2.1)).map
            ((pollRead host size inner reader).1.bytes ++ ·) id := by
  fun_induction pollRead host size inner reader with
  | case1 inner reader =>
    obtain ⟨later, ahead⟩ := deliver_ahead host size reader sane _
    exact ⟨later, Nat.le_refl _, ahead⟩
  | case2 | case3 => exact ⟨sane, Nat.le_refl _, by simp [Polled.bytes, Prod.map]⟩
  | case4 | case5 => exact ⟨sane, Nat.le_succ _, by simp [Polled.bytes, Prod.map, input]⟩
  | case6 reader _ passing first rest inner ih =>
    obtain ⟨later, ahead⟩ := observe_ahead host _ _ reader sane (by simpa using passing)
    obtain ⟨sane, shorter, polled⟩ := ih later
    exact ⟨sane, Nat.le_succ_of_le shorter, ahead.symm.trans polled⟩

variable {inner : List Poll}

theorem pollRead_ended (size : Nat) (ended : reader.Ended inner) :
    pollRead host size inner reader = (.ready [], inner, reader) := by
  obtain ⟨drained, stops⟩ := ended
  rw [pollRead.eq_def]
  dsimp only
  rw [if_neg (Nat.not_lt.mpr drained)]
  rcases stops with violated | rfl
  · rw [if_pos violated]
  · split <;> rfl

theorem ahead_ended {reader : Reader} (ended : reader.Ended inner) :
    (reader.ahead host (input inner)).1 = [] := by
  have drained := drop_eq_nil_of_le ended.1
  rw [Reader.ahead]
  split
  · exact drained
  · rename_i passing
    obtain rfl := ended.2.resolve_left passing
    simp [drained, input, cut]

/-- A poll with room for a byte answers something, unless the stream has ended. -/
theorem pollRead_progress (positive : 0 < size) (inner : List Poll) (reader : Reader)
    (sane : reader.Sane) :
    reader.Ended inner ∨ (pollRead host size inner reader).1 ≠ .ready [] ∧
      (pollRead host size inner reader).2.1.length <
        inner.length + (pollRead host size inner reader).1.bytes.length := by
  fun_induction pollRead host size inner reader with
  | case1 inner reader buffered =>
    have some : 0 < ((reader.pending.drop reader.delivered).take size).length := by
      rw [length_take, length_drop]
      omega
    refine .inr ⟨fun none => ?_, Nat.lt_add_of_pos_right some⟩
    rw [Polled.ready.inj none] at some
    exact absurd some (Nat.lt_irrefl 0)
  | case2 inner reader drained violated => exact .inl ⟨Nat.not_lt.mp drained, .inl violated⟩
  | case3 reader drained => exact .inl ⟨Nat.not_lt.mp drained, .inr rfl⟩
  | case4 | case5 => exact .inr (by simp [Polled.bytes])
  | case6 reader _ passing first rest inner ih =>
    obtain ⟨later, ahead⟩ := observe_ahead host _ _ reader sane (by simpa using passing)
    rcases ih later with ended | ⟨some, progress⟩
    · have nothing := ahead_ended host ended
      rw [ahead, Reader.ahead, if_neg passing, append_eq_nil_iff] at nothing
      cases cut_eq_nil host nothing.2
    · exact .inr ⟨some, by rw [length_cons]; omega⟩

def delivered (polled : List Polled) : Bytes :=
  polled.flatMap Polled.bytes

theorem run_ahead (sizes : List Nat) (inner : List Poll) (reader : Reader) (sane : reader.Sane) :
    (run host sizes inner reader).2.2.Sane ∧ reader.ahead host (input inner) =
      ((run host sizes inner reader).2.2.ahead host (input (run host sizes inner reader).2.1)).map
        (delivered (run host sizes inner reader).1 ++ ·) id := by
  induction sizes generalizing inner reader with
  | nil => exact ⟨sane, by simp [run, delivered, Prod.map]⟩
  | cons size sizes ih =>
    obtain ⟨later, -, polled⟩ := pollRead_ahead host size inner reader sane
    obtain ⟨final, ahead⟩ := ih _ _ later
    refine ⟨final, ?_⟩
    rw [polled, ahead]
    simp [run, delivered, Prod.map]

theorem run_ended (sizes : List Nat) (ended : reader.Ended inner) :
    run host sizes inner reader = (sizes.map fun _ => .ready [], inner, reader) := by
  induction sizes with
  | nil => rfl
  | cons size sizes ih => simp [run, pollRead_ended host size ended, ih]

/-- As many polls with room as there are answers and bytes to come lead to the end. -/
theorem run_ends (sizes : List Nat) (inner : List Poll) (reader : Reader) (sane : reader.Sane)
    (enough : inner.length + (reader.ahead host (input inner)).1.length ≤
      (sizes.filter (0 < ·)).length) :
    (run host sizes inner reader).2.2.Ended (run host sizes inner reader).2.1 := by
  induction sizes generalizing inner reader with
  | nil =>
    simp only [filter_nil, length_nil, Nat.le_zero, Nat.add_eq_zero_iff,
      length_eq_zero_iff] at enough
    refine ⟨drop_eq_nil_iff.mp ?_, .inr enough.1⟩
    have empty := enough.2
    rw [Reader.ahead] at empty
    split at empty
    · exact empty
    · exact (append_eq_nil_iff.mp empty).1
  | cons size sizes ih =>
    obtain ⟨later, shorter, ahead⟩ := pollRead_ahead host size inner reader sane
    have goes :=
      ih (pollRead host size inner reader).2.1 (pollRead host size inner reader).2.2 later
    rw [ahead] at enough
    simp only [Prod.map_fst, length_append] at enough
    by_cases positive : 0 < size
    · rcases pollRead_progress host positive inner reader sane with ended | ⟨-, progress⟩
      · rw [run_ended host _ ended]
        exact ended
      · rw [filter_cons_of_pos (by simpa using positive), length_cons] at enough
        exact goes (by omega)
    · rw [filter_cons_of_neg (by simpa using positive)] at enough
      exact goes (by omega)

/-- What is recorded is what will have been, and by the last byte it is recorded. -/
theorem first_eq_ahead {reader : Reader} (sane : reader.Sane) (more : Bytes)
    (known : reader.first ≠ none ∨ (reader.ahead host more).1 = []) :
    reader.first = (reader.ahead host more).2 := by
  rw [Reader.ahead] at known ⊢
  split at known
  · rename_i violated
    rw [if_pos violated]
  · rename_i passing
    have fresh : reader.first = none := by simpa [passing] using sane.recorded
    have nothing := (append_eq_nil_iff.mp (known.resolve_left (not_not.mpr fresh))).2
    rw [if_neg passing, fresh, cut_eq_nil host nothing]
    rfl

end Ahead

end RustX.Mcp
