import RustX.Model.ChatCompletions

/-!
When the Chat Completions adapter keeps the canonical stream contract.
-/
namespace RustX.Chat

namespace ChatStreamNormalizer

open Function ModelEventAssembler Checked Assoc List BlockAllocator

def Shown (normalizer : ChatStreamNormalizer) : BlockKey → Prop
  | .content kind => normalizer.blocks.find (.content kind) ≠ none
  | .tool index => ∃ assembly, normalizer.toolCalls.lookup index = some assembly ∧
      assembly.started = true

/-- No call waits for its identity below a block that is already shown, and the
started calls have different ids. -/
structure Orderly (normalizer : ChatStreamNormalizer) : Prop where
  gapless : ∀ {key index shown waiting}, normalizer.Shown key →
    normalizer.blocks.find key = some shown → normalizer.toolCalls.lookup index = some waiting →
    waiting.started = false → shown < waiting.blockIndex
  distinct : ∀ {first second one other}, normalizer.toolCalls.lookup first = some one →
    normalizer.toolCalls.lookup second = some other → one.started = true → other.started = true →
    one.callId = other.callId → first = second

/-- The normalizer's blocks and calls as an open assembler holds them. -/
structure Tracks (normalizer : ChatStreamNormalizer) (kinds : List ContentKind)
    (calls : ToolCallId → Option PendingCall) : Prop where
  bounded : kinds.length ≤ normalizer.blocks.next
  content : ∀ {kind index}, normalizer.blocks.find (.content kind) = some index →
    kinds[index]? = some (.block kind)
  assembled : ∀ {index block}, normalizer.blocks.find (.tool index) = some block ↔
    ∃ assembly, normalizer.toolCalls.lookup index = some assembly ∧ assembly.blockIndex = block
  shown : ∀ {index assembly}, normalizer.toolCalls.lookup index = some assembly →
    assembly.started = true → kinds[assembly.blockIndex]? = some .toolCall ∧
      ∃ id, assembly.callId = some id ∧ calls id = some ⟨assembly.blockIndex, false⟩
  waiting : ∀ {index assembly}, normalizer.toolCalls.lookup index = some assembly →
    assembly.started = false → kinds.length ≤ assembly.blockIndex
  known : ∀ {id call}, calls id = some call → ∃ index assembly,
    normalizer.toolCalls.lookup index = some assembly ∧ assembly.started = true ∧
      assembly.callId = some id
  keys : (normalizer.toolCalls.map Prod.fst).Nodup

variable {normalizer : ChatStreamNormalizer} {kinds : List ContentKind}
  {calls : ToolCallId → Option PendingCall}

theorem tracks_new (tools : ValidatedTools) (protocol : ChatToolProtocol) :
    (new tools protocol).Tracks [] fun _ => none := by
  constructor <;> simp [new, BlockAllocator.new, BlockAllocator.find]

variable {assembly : ToolAssembly}

section

variable (tracks : normalizer.Tracks kinds calls)
include tracks

theorem Tracks.find_tool (held : normalizer.toolCalls.lookup index = some assembly) :
    normalizer.blocks.find (.tool index) = some assembly.blockIndex :=
  tracks.assembled.mpr ⟨assembly, held, rfl⟩

theorem Tracks.shown_lt (shown : normalizer.Shown key)
    (found : normalizer.blocks.find key = some index) : index < kinds.length := by
  cases key with
  | content kind => exact (List.getElem?_eq_some_iff.mp (tracks.content found)).1
  | tool at_index =>
    obtain ⟨assembly, held, started⟩ := shown
    have block := tracks.find_tool held
    rw [found, Option.some.injEq] at block
    subst block
    exact (List.getElem?_eq_some_iff.mp (tracks.shown held started).1).1

theorem Tracks.orderly : normalizer.Orderly := by
  constructor
  · intro key index shown waiting visible found held unstarted
    exact Nat.lt_of_lt_of_le (tracks.shown_lt visible found) (tracks.waiting held unstarted)
  intro first second one other heldOne heldOther startedOne startedOther same
  obtain ⟨_, id, idOne, callOne⟩ := tracks.shown heldOne startedOne
  obtain ⟨_, id', idOther, callOther⟩ := tracks.shown heldOther startedOther
  rw [idOne, idOther, Option.some.injEq] at same
  subst same
  rw [callOne, Option.some.injEq, PendingCall.mk.injEq] at callOther
  have blockOne := tracks.find_tool heldOne
  rw [callOther.1] at blockOne
  exact BlockKey.tool.inj (find_injective blockOne (tracks.find_tool heldOther))

/-- The first index that is allocated and not shown belongs to a waiting call. -/
theorem Tracks.first_waiting (more : kinds.length < normalizer.blocks.next) :
    ∃ index assembly, normalizer.toolCalls.lookup index = some assembly ∧
      assembly.started = false ∧ assembly.blockIndex = kinds.length := by
  obtain ⟨key, found⟩ := exists_find more
  cases key with
  | content kind => simpa using tracks.content found
  | tool index =>
    obtain ⟨assembly, held, block⟩ := tracks.assembled.mp found
    refine ⟨index, assembly, held, ?_, block⟩
    cases started : assembly.started with
    | false => rfl
    | true => simpa [block] using (tracks.shown held started).1

/-- Only the blocks and the calls of a normalizer matter. -/
theorem Tracks.congr {other : ChatStreamNormalizer} (blocks : other.blocks = normalizer.blocks)
    (toolCalls : other.toolCalls = normalizer.toolCalls) : other.Tracks kinds calls := by
  cases other
  cases blocks
  cases toolCalls
  exact ⟨tracks.bounded, tracks.content, tracks.assembled, tracks.shown, tracks.waiting,
    tracks.known, tracks.keys⟩

end

/-- Between two pieces every call whose identity is complete has started. -/
def Identified (normalizer : ChatStreamNormalizer) : Prop :=
  ∀ index assembly, normalizer.toolCalls.lookup index = some assembly →
    assembly.started = false → assembly.callId = none ∨ assembly.name = none

def Follows (assembler : ModelEventAssembler) (normalizer : ChatStreamNormalizer) : Prop :=
  ∃ kinds calls, assembler.Open kinds calls ∧ normalizer.Tracks kinds calls ∧ normalizer.Identified

variable {assembler : ModelEventAssembler}

theorem Tracks.emit_old (tracks : normalizer.Tracks kinds calls)
    (opened : assembler.Open kinds calls)
    (found : normalizer.blocks.find (.content kind) = some index) (text : String) :
    ∃ after, assembler.push (contentDelta kind index text) = .ok after ∧ after.Open kinds calls := by
  have target : shows (contentDelta kind index text) = some (index, kind) := by
    cases kind <;> rfl
  have present := tracks.content found
  obtain ⟨after, pushed, held⟩ := (opened.push_shows target).succeeds (.inl present)
  rw [place_of_getElem? present] at held
  exact ⟨after, pushed, held⟩

/-- The state after a content block appeared for the first time. -/
theorem Tracks.grow (tracks : normalizer.Tracks kinds calls)
    (fresh : normalizer.blocks.find (.content kind) = none)
    (last : normalizer.blocks.next = kinds.length) :
    ({ normalizer with blocks := (normalizer.blocks.allocate (.content kind)).2 }).Tracks
      (kinds ++ [ContentKind.block kind]) calls := by
  obtain ⟨-, count, lookup⟩ := allocate_fresh fresh
  have kept {index : ContentBlockIndex} {held : ContentKind} (present : kinds[index]? = some held) :
      (kinds ++ [ContentKind.block kind])[index]? = some held := by
    rw [getElem?_append_left (List.getElem?_eq_some_iff.mp present).1, present]
  constructor
  · rw [count, length_append, length_singleton, last]
  · intro other index found
    rw [lookup] at found
    split at found
    · rename_i same
      cases same
      cases found
      rw [last, getElem?_concat_length]
    · exact kept (tracks.content found)
  · intro index block
    rw [lookup, if_neg (by simp)]
    exact tracks.assembled
  · intro index assembly held started
    obtain ⟨block, call⟩ := tracks.shown held started
    exact ⟨kept block, call⟩
  · intro index assembly held unstarted
    have below := find_lt (tracks.find_tool held)
    rw [last] at below
    exact absurd below (Nat.not_lt.mpr (tracks.waiting held unstarted))
  · exact tracks.known
  · exact tracks.keys

theorem follows_emit (follows : Follows assembler normalizer) (kind : BlockKind) (text : String) :
    Checked.Exactly (normalizer.emit kind text).1.Orderly
      (fun after => Follows after (normalizer.emit kind text).1)
      (assembler.pushAll (normalizer.emit kind text).2) := by
  obtain ⟨kinds, calls, opened, tracks, identified⟩ := follows
  rw [emit, pushAll_singleton]
  cases found : normalizer.blocks.find (.content kind) with
  | some index =>
    rw [allocate_of_find found]
    obtain ⟨after, pushed, held⟩ := tracks.emit_old opened found text
    rw [pushed]
    exact exactly_ok tracks.orderly ⟨kinds, calls, held, tracks, identified⟩
  | none =>
    obtain ⟨index, -, lookup⟩ := allocate_fresh found
    have target : shows (contentDelta kind normalizer.blocks.next text) =
        some (normalizer.blocks.next, kind) := by
      cases kind <;> rfl
    have absent : kinds[normalizer.blocks.next]? = none := getElem?_eq_none tracks.bounded
    rw [index]
    refine (opened.push_shows target).mono ?_ ?_
    · constructor
      · intro orderly
        by_contra gap
        have more : kinds.length < normalizer.blocks.next :=
          Nat.lt_of_le_of_ne tracks.bounded fun same => gap (.inr same.symm)
        obtain ⟨at_index, assembly, held, unstarted, block⟩ := tracks.first_waiting more
        have appears := find_allocate normalizer.blocks (.content kind)
        rw [index] at appears
        have below := @Orderly.gapless _ orderly _ _ _ _
          (by simp [Shown, appears]) appears held unstarted
        rw [block] at below
        exact Nat.lt_asymm more below
      · rintro (present | last)
        · rw [absent] at present
          cases present
        · exact (tracks.grow found last).orderly
    · rintro room after held
      rcases room with present | last
      · rw [absent] at present
        cases present
      · rw [last, place_length] at held
        exact ⟨_, _, held, tracks.grow found last, identified⟩

section

variable (tracks : normalizer.Tracks kinds calls)
include tracks

/-- Rewriting an assembly in place keeps the agreement if the call stays as
visible as it was. -/
theorem Tracks.set (held : normalizer.toolCalls.lookup index = some old)
    (block : assembly.blockIndex = old.blockIndex) (started : assembly.started = old.started)
    (id : old.started = true → assembly.callId = old.callId) :
    (normalizer.setAssembly index assembly).Tracks kinds calls := by
  -- Every assembly of the new state stands for one of the old state.
  have before {other : Nat} {found : ToolAssembly}
      (found_at : (normalizer.setAssembly index assembly).toolCalls.lookup other = some found) :
      ∃ was, normalizer.toolCalls.lookup other = some was ∧ found.blockIndex = was.blockIndex ∧
        found.started = was.started ∧ (was.started = true → found.callId = was.callId) := by
    rcases lookup_insert_cases found_at with ⟨rfl, rfl⟩ | ⟨-, found_at⟩
    · exact ⟨old, held, block, started, id⟩
    · exact ⟨found, found_at, rfl, rfl, fun _ => rfl⟩
  have after {other : Nat} {was : ToolAssembly}
      (was_at : normalizer.toolCalls.lookup other = some was) :
      ∃ found, (normalizer.setAssembly index assembly).toolCalls.lookup other = some found ∧
        found.blockIndex = was.blockIndex ∧ found.started = was.started ∧
          (was.started = true → found.callId = was.callId) := by
    by_cases same : other = index
    · subst same
      rw [held, Option.some.injEq] at was_at
      subst was_at
      exact ⟨assembly, lookup_insert_self .., block, started, id⟩
    · exact ⟨was, (lookup_insert_of_ne same ..).trans was_at, rfl, rfl, fun _ => rfl⟩
  constructor
  · exact tracks.bounded
  · exact tracks.content
  · intro other at_block
    refine tracks.assembled.trans ?_
    constructor
    · rintro ⟨was, was_at, rfl⟩
      obtain ⟨found, found_at, same, -⟩ := after was_at
      exact ⟨found, found_at, same⟩
    · rintro ⟨found, found_at, rfl⟩
      obtain ⟨was, was_at, same, -⟩ := before found_at
      exact ⟨was, was_at, same.symm⟩
  · intro other found found_at running
    obtain ⟨was, was_at, same, status, ids⟩ := before found_at
    rw [status] at running
    rw [same, ids running]
    exact tracks.shown was_at running
  · intro other found found_at unstarted
    obtain ⟨was, was_at, same, status, -⟩ := before found_at
    rw [same]
    exact tracks.waiting was_at (status.symm.trans unstarted)
  · intro call pending known
    obtain ⟨other, was, was_at, running, ids⟩ := tracks.known known
    obtain ⟨found, found_at, -, status, same⟩ := after was_at
    exact ⟨other, found, found_at, status.trans running, (same running).trans ids⟩
  · exact nodup_keys_insert tracks.keys _ _

/-- Opening an assembly shows nothing: the call waits. -/
theorem Tracks.openAssembly (index : Nat) : (normalizer.openAssembly index).1.Tracks kinds calls ∧
      (normalizer.openAssembly index).1.toolCalls.lookup index =
        some (normalizer.openAssembly index).2 ∧
      ∀ other, other ≠ index → (normalizer.openAssembly index).1.toolCalls.lookup other =
        normalizer.toolCalls.lookup other := by
  unfold ChatStreamNormalizer.openAssembly
  split
  · rename_i assembly held
    exact ⟨tracks, held, fun _ _ => rfl⟩
  rename_i absent
  have fresh : normalizer.blocks.find (.tool index) = none := by
    by_contra found
    obtain ⟨block, found⟩ := Option.ne_none_iff_exists'.mp found
    obtain ⟨assembly, held, -⟩ := tracks.assembled.mp found
    rw [absent] at held
    cases held
  obtain ⟨first, count, find⟩ := allocate_fresh fresh
  refine ⟨?_, lookup_insert_self .., fun other ne => lookup_insert_of_ne ne ..⟩
  have lookup {other : Nat} {found : ToolAssembly}
      (found_at : (insert index ⟨(normalizer.blocks.allocate (.tool index)).1, none, none, "",
        false⟩ normalizer.toolCalls).lookup other = some found) :
      found.started = true ∧ normalizer.toolCalls.lookup other = some found ∨
        found.started = false ∧ kinds.length ≤ found.blockIndex := by
    rcases lookup_insert_cases found_at with ⟨-, rfl⟩ | ⟨-, found_at⟩
    · exact .inr ⟨rfl, first ▸ tracks.bounded⟩
    · cases started : found.started with
      | true => exact .inl ⟨rfl, found_at⟩
      | false => exact .inr ⟨rfl, tracks.waiting found_at started⟩
  constructor
  · rw [count]
    exact Nat.le_succ_of_le tracks.bounded
  · intro kind at_index found
    rw [find, if_neg (by simp)] at found
    exact tracks.content found
  · intro other block
    rw [find]
    by_cases same : other = index
    · subst same
      simp [lookup_insert_self, first]
    · rw [if_neg (by simpa using same)]
      simp only [lookup_insert_of_ne same]
      exact tracks.assembled
  · intro other found found_at running
    rcases lookup found_at with ⟨-, held⟩ | ⟨idle, -⟩
    · exact tracks.shown held running
    · rw [idle] at running
      cases running
  · intro other found found_at unstarted
    rcases lookup found_at with ⟨running, -⟩ | ⟨-, above⟩
    · rw [unstarted] at running
      cases running
    · exact above
  · intro id call known
    obtain ⟨other, assembly, held, running, named⟩ := tracks.known known
    have differs : other ≠ index := by
      rintro rfl
      rw [absent] at held
      cases held
    exact ⟨other, assembly, (lookup_insert_of_ne differs ..).trans held, running, named⟩
  · exact nodup_keys_insert tracks.keys _ _

/-- A waiting call at the next index starts under a new id. -/
theorem Tracks.start {id : ToolCallId} (held : normalizer.toolCalls.lookup index = some assembly)
    (unstarted : assembly.started = false) (named : assembly.callId = some id)
    (last : assembly.blockIndex = kinds.length) (fresh : calls id = none) :
    (normalizer.setAssembly index { assembly with started := true }).Tracks (kinds ++ [.toolCall])
      (update calls id (some ⟨assembly.blockIndex, false⟩)) := by
  have kept {at_index : ContentBlockIndex} {kind : ContentKind}
      (present : kinds[at_index]? = some kind) : (kinds ++ [.toolCall])[at_index]? = some kind := by
    rw [getElem?_append_left (List.getElem?_eq_some_iff.mp present).1, present]
  constructor
  · have below := find_lt (tracks.find_tool held)
    rw [last] at below
    rw [length_append, length_singleton]
    exact below
  · intro kind at_index found
    exact kept (tracks.content found)
  · intro other block
    refine tracks.assembled.trans ?_
    rw [setAssembly]
    by_cases same : other = index
    · subst same
      simp [held, lookup_insert_self]
    · rw [lookup_insert_of_ne same]
  · intro other found found_at running
    rcases lookup_insert_cases found_at with ⟨-, rfl⟩ | ⟨-, found_at⟩
    · exact ⟨by rw [last, getElem?_concat_length], id, named, update_self ..⟩
    · obtain ⟨block, other_id, other_named, call⟩ := tracks.shown found_at running
      refine ⟨kept block, other_id, other_named, ?_⟩
      rw [update_of_ne, call]
      rintro rfl
      rw [fresh] at call
      cases call
  · intro other found found_at idle
    rcases lookup_insert_cases found_at with ⟨-, rfl⟩ | ⟨same, found_at⟩
    · cases idle
    have above := tracks.waiting found_at idle
    have differs : found.blockIndex ≠ kinds.length := by
      intro equal
      have first := tracks.find_tool found_at
      rw [equal, ← last] at first
      exact same (BlockKey.tool.inj (find_injective first (tracks.find_tool held)))
    rw [length_append, length_singleton]
    exact Nat.lt_of_le_of_ne above differs.symm
  · intro other call known
    by_cases same : other = id
    · subst same
      exact ⟨index, { assembly with started := true }, lookup_insert_self .., rfl, named⟩
    rw [update_of_ne same] at known
    obtain ⟨at_index, found, found_at, running, other_named⟩ := tracks.known known
    refine ⟨at_index, found, (lookup_insert_of_ne ?_ ..).trans found_at, running, other_named⟩
    rintro rfl
    rw [held, Option.some.injEq] at found_at
    subst found_at
    rw [unstarted] at running
    cases running
  · exact nodup_keys_insert tracks.keys _ _

/-- Starting a waiting call leaves the state orderly exactly if it is the next
block and its id is new. -/
theorem Tracks.start_iff {id : ToolCallId}
    (held : normalizer.toolCalls.lookup index = some assembly)
    (unstarted : assembly.started = false) (named : assembly.callId = some id) :
    (normalizer.setAssembly index { assembly with started := true }).Orderly ↔
      assembly.blockIndex = kinds.length ∧ calls id = none := by
  constructor
  · intro orderly
    have self : (normalizer.setAssembly index { assembly with started := true }).toolCalls.lookup
        index = some { assembly with started := true } :=
      lookup_insert_self ..
    have others {other : Nat} (ne : other ≠ index) : (normalizer.setAssembly index
        { assembly with started := true }).toolCalls.lookup other =
          normalizer.toolCalls.lookup other :=
      lookup_insert_of_ne ne ..
    constructor
    · by_contra later
      have more : kinds.length < assembly.blockIndex :=
        Nat.lt_of_le_of_ne (tracks.waiting held unstarted) (Ne.symm later)
      obtain ⟨other, waiting, found, idle, first⟩ := tracks.first_waiting
        (Nat.lt_trans more (find_lt (tracks.find_tool held)))
      have ne : other ≠ index := by
        rintro rfl
        rw [held, Option.some.injEq] at found
        subst found
        exact later first
      have below := @Orderly.gapless _ orderly (.tool index) _ _ _ ⟨_, self, rfl⟩
        (tracks.find_tool held) ((others ne).trans found) idle
      rw [first] at below
      exact Nat.lt_asymm more below
    · by_contra used
      obtain ⟨call, used⟩ := Option.ne_none_iff_exists'.mp used
      obtain ⟨other, found, found_at, running, other_named⟩ := tracks.known used
      have ne : other ≠ index := by
        rintro rfl
        rw [held, Option.some.injEq] at found_at
        subst found_at
        rw [unstarted] at running
        cases running
      exact ne (orderly.distinct ((others ne).trans found_at) self running rfl
        (other_named.trans named.symm))
  · rintro ⟨last, fresh⟩
    exact (tracks.start held unstarted named last fresh).orderly

end

def IdentifiedBut (normalizer : ChatStreamNormalizer) (index : Nat) : Prop :=
  ∀ other assembly, other ≠ index → normalizer.toolCalls.lookup other = some assembly →
    assembly.started = false → assembly.callId = none ∨ assembly.name = none

theorem IdentifiedBut.set (others : normalizer.IdentifiedBut index) (assembly : ToolAssembly) :
    (normalizer.setAssembly index assembly).IdentifiedBut index := by
  intro other found ne found_at
  exact others other found ne ((lookup_insert_of_ne ne ..).symm.trans found_at)

theorem IdentifiedBut.whole (others : normalizer.IdentifiedBut index)
    (held : normalizer.toolCalls.lookup index = some assembly)
    (self : assembly.started = false → assembly.callId = none ∨ assembly.name = none) :
    normalizer.Identified := by
  intro other found found_at
  by_cases same : other = index
  · subst same
    rw [held, Option.some.injEq] at found_at
    subst found_at
    exact self
  · exact others other found same found_at

variable {next : ChatStreamNormalizer} {events : List ModelEvent}

theorem follows_startBufferedToolCall (opened : assembler.Open kinds calls)
    (tracks : normalizer.Tracks kinds calls) (others : normalizer.IdentifiedBut index)
    (held : normalizer.toolCalls.lookup index = some assembly)
    (unstarted : assembly.started = false)
    (emitted : normalizer.startBufferedToolCall index assembly = .ok (next, events)) :
    Checked.Exactly next.Orderly (fun after => Follows after next) (assembler.pushAll events) := by
  unfold startBufferedToolCall at emitted
  split at emitted
  · rename_i id name named called
    obtain ⟨start, resolved, emitted⟩ := bind_eq_ok_iff.mp emitted
    cases emitted
    have same : id = start.id := Option.some.inj (resolveToolIdentity_id resolved).1
    subst same
    refine Checked.Exactly.mono ?_ (tracks.start_iff held unstarted named) fun _ _ keeps => keeps
    apply (opened.push_toolCallStarted _ start).andThen
    rintro ⟨last, fresh⟩ after taken
    have whole := (others.set { assembly with started := true }).whole
      (lookup_insert_self ..) (by simp)
    have follows : Follows after (normalizer.setAssembly index { assembly with started := true }) :=
      ⟨_, _, taken, tracks.start held unstarted named last fresh, whole⟩
    split
    · exact ⟨after, rfl, follows⟩
    · obtain ⟨final, pushed, rfl⟩ := (taken.push_toolCallArgumentsDelta _ _
        _).succeeds (update_self ..)
      exact ⟨_, (pushAll_singleton ..).trans pushed, follows⟩
  · rename_i incomplete
    cases emitted
    refine exactly_ok tracks.orderly ⟨kinds, calls, opened, tracks, others.whole held ?_⟩
    intro _
    by_contra complete
    rw [not_or, ← ne_eq, ← ne_eq, Option.ne_none_iff_exists', Option.ne_none_iff_exists'] at complete
    obtain ⟨⟨id, named⟩, name, called⟩ := complete
    exact incomplete id name named called

/-- A recorded chunk leaves the block of a call and whether it started, and an id
that is known stays. -/
theorem record_known {new : Option String} (recorded : record known new error = .ok result)
    (value : known ≠ none) : result = known := by
  unfold record at recorded
  split at recorded
  · cases recorded
    rfl
  · split at recorded
    · rename_i same
      cases recorded
      obtain ⟨old, rfl⟩ := Option.ne_none_iff_exists'.mp value
      simpa [eq_comm] using same
    · cases recorded

theorem recordChunk_keeps {next : ToolAssembly} {chunk : ToolCallChunk}
    (recorded : recordChunk assembly chunk = .ok next) :
    next.blockIndex = assembly.blockIndex ∧ next.started = assembly.started ∧
      (assembly.callId ≠ none → next.callId = assembly.callId) := by
  simp only [recordChunk, bind_eq_ok_iff] at recorded
  obtain ⟨callId, known, name, -, result⟩ := recorded
  cases result
  exact ⟨rfl, rfl, record_known known⟩

theorem mergeToolCallSnapshot_keeps {next : ToolAssembly}
    (merged : mergeToolCallSnapshot index assembly snapshot = .ok next) :
    next.blockIndex = assembly.blockIndex ∧ next.started = assembly.started := by
  simp only [mergeToolCallSnapshot, bind_eq_ok_iff] at merged
  obtain ⟨callId, -, name, -, merged⟩ := merged
  split at merged
  · cases merged
    exact ⟨rfl, rfl⟩
  · split at merged
    · cases merged
      exact ⟨rfl, rfl⟩
    · split at merged
      · cases merged
        exact ⟨rfl, rfl⟩
      · cases merged

theorem Tracks.started_named (tracks : normalizer.Tracks kinds calls)
    (held : normalizer.toolCalls.lookup index = some assembly) (started : assembly.started = true) :
    assembly.callId ≠ none := by
  obtain ⟨-, id, named, -⟩ := tracks.shown held started
  simp [named]

section

variable (follows : Follows assembler normalizer)
include follows

theorem follows_pushToolCallChunk
    (emitted : normalizer.pushToolCallChunk chunk = .ok (next, events)) :
    Checked.Exactly next.Orderly (fun after => Follows after next) (assembler.pushAll events) := by
  obtain ⟨kinds, calls, opened, tracks, identified⟩ := follows
  simp only [pushToolCallChunk, bind_eq_ok_iff] at emitted
  obtain ⟨-, -, assembly, recorded, emitted⟩ := emitted
  have marked : (normalizer.markBufferedGeneration chunk).Tracks kinds calls := tracks.congr rfl rfl
  obtain ⟨tracked, held, unchanged⟩ := marked.openAssembly chunk.index
  have others : ((normalizer.markBufferedGeneration chunk).openAssembly
      chunk.index).1.IdentifiedBut chunk.index := by
    intro other found ne found_at
    rw [unchanged other ne] at found_at
    exact identified other found found_at
  obtain ⟨block, status, named⟩ := recordChunk_keeps recorded
  have tracked := tracked.set held block status fun running =>
    named (tracked.started_named held running)
  have others := others.set assembly
  have held : (((normalizer.markBufferedGeneration chunk).openAssembly chunk.index).1.setAssembly
      chunk.index assembly).toolCalls.lookup chunk.index = some assembly :=
    lookup_insert_self ..
  split at emitted
  · rename_i running
    cases emitted
    have follows : Follows assembler (((normalizer.markBufferedGeneration chunk).openAssembly
        chunk.index).1.setAssembly chunk.index assembly) :=
      ⟨kinds, calls, opened, tracked, others.whole held (by simp [running])⟩
    split
    · exact exactly_ok tracked.orderly follows
    · obtain ⟨-, id, id_known, call⟩ := tracked.shown held running
      obtain ⟨after, pushed, rfl⟩ := (opened.push_toolCallArgumentsDelta assembly.blockIndex id
        ((chunk.function.bind FunctionChunk.arguments).getD "")).succeeds call
      rw [pushAll_singleton, id_known, Option.getD_some, pushed]
      exact exactly_ok tracked.orderly follows
  · rename_i idle
    exact follows_startBufferedToolCall opened tracked others held (by simpa using idle) emitted

theorem follows_pushToolCallSnapshot
    (emitted : normalizer.pushToolCallSnapshot index snapshot = .ok (next, events)) :
    Checked.Exactly next.Orderly (fun after => Follows after next) (assembler.pushAll events) := by
  simp only [pushToolCallSnapshot, bind_eq_ok_iff] at emitted
  obtain ⟨-, -, emitted⟩ := emitted
  split at emitted
  · rename_i existing held
    obtain ⟨kinds, calls, opened, tracks, identified⟩ := follows
    split at emitted
    · simp only [bind_eq_ok_iff] at emitted
      obtain ⟨-, -, result⟩ := emitted
      cases result
      exact exactly_ok tracks.orderly ⟨kinds, calls, opened, tracks, identified⟩
    · rename_i idle
      have idle : existing.started = false := by simpa using idle
      simp only [bind_eq_ok_iff] at emitted
      obtain ⟨assembly, merged, emitted⟩ := emitted
      obtain ⟨block, status⟩ := mergeToolCallSnapshot_keeps merged
      have noted : (normalizer.noteGeneration (FunctionChunk.hasArguments snapshot.function &&
          (assembly.callId.isNone || assembly.name.isNone))).Tracks kinds calls :=
        tracks.congr rfl rfl
      have others : (normalizer.noteGeneration (FunctionChunk.hasArguments snapshot.function &&
          (assembly.callId.isNone || assembly.name.isNone))).IdentifiedBut index :=
        fun other found _ => identified other found
      exact follows_startBufferedToolCall opened (noted.set held block status (by simp [idle]))
        (others.set assembly) (lookup_insert_self ..) (status.trans idle) emitted
  · exact follows_pushToolCallChunk follows emitted

theorem Follows.congr {other : ChatStreamNormalizer} (blocks : other.blocks = normalizer.blocks)
    (toolCalls : other.toolCalls = normalizer.toolCalls) : Follows assembler other := by
  obtain ⟨kinds, calls, opened, tracks, identified⟩ := follows
  refine ⟨kinds, calls, opened, tracks.congr blocks toolCalls, ?_⟩
  intro index assembly held
  rw [toolCalls] at held
  exact identified index assembly held

theorem Follows.orderly : normalizer.Orderly := by
  obtain ⟨kinds, calls, -, tracks, -⟩ := follows
  exact tracks.orderly

/-- One piece: the assembler takes its events exactly if the state after it is orderly. -/
theorem follows_pushPiece (emitted : normalizer.pushPiece piece = .ok (next, events)) :
    Checked.Exactly next.Orderly (fun after => Follows after next) (assembler.pushAll events) := by
  cases piece with
  | delta kind text =>
    obtain ⟨rfl, rfl⟩ := Prod.ext_iff.mp (Except.ok.inj emitted)
    have buffered : Follows assembler
        (normalizer.setBuffer kind ((normalizer.buffer kind).getD "" ++ text)) :=
      follows.congr rfl rfl
    exact follows_emit buffered kind text
  | toolChunk chunk => exact follows_pushToolCallChunk follows emitted
  | snapshot kind text =>
    simp only [pushPiece, Except.ok.injEq, pushContentSnapshot] at emitted
    have buffered : Follows assembler (normalizer.setBuffer kind text) := follows.congr rfl rfl
    split at emitted
    · cases emitted
      exact exactly_ok follows.orderly follows
    · split at emitted
      · cases emitted
        exact exactly_ok buffered.orderly buffered
      · obtain ⟨rfl, rfl⟩ := Prod.ext_iff.mp emitted
        exact follows_emit buffered kind text
  | toolSnapshot index snapshot =>
    obtain ⟨-, -, emitted⟩ := bind_eq_ok_iff.mp emitted
    exact follows_pushToolCallSnapshot follows emitted

end

/-- Every state the pieces lead through is orderly. -/
def PiecesOrderly (normalizer : ChatStreamNormalizer) : List Piece → Prop
  | [] => True
  | piece :: rest => ∀ next events, normalizer.pushPiece piece = .ok (next, events) →
      next.Orderly ∧ next.PiecesOrderly rest

theorem follows_pushPieces (follows : Follows assembler normalizer)
    (emitted : normalizer.pushPieces pieces = .ok (next, events)) :
    Checked.Exactly (normalizer.PiecesOrderly pieces) (fun after => Follows after next)
      (assembler.pushAll events) := by
  induction pieces generalizing assembler normalizer events with
  | nil =>
    cases emitted
    exact exactly_ok trivial follows
  | cons piece rest ih =>
    simp only [pushPieces, bind_eq_ok_iff] at emitted
    obtain ⟨⟨middle, first⟩, step, ⟨last, more⟩, steps, result⟩ := emitted
    cases result
    rw [pushAll_append]
    refine ((follows_pushPiece follows step).bind (fun after taken => ih taken steps)).mono ?_
      fun _ _ keeps => keeps
    simp [PiecesOrderly, step]

structure ChoiceOrderly (normalizer : ChatStreamNormalizer) (choice : Choice) : Prop where
  streamed : ∀ delta reasoning, choice.delta = some delta → delta.reasoningDelta = .ok reasoning →
    normalizer.PiecesOrderly (deltaPieces delta reasoning)
  cumulative : ∀ message reasoning next events, choice.message = some message →
    message.reasoningValue = .ok reasoning →
    normalizer.pushChoiceDelta choice = .ok (next, events) →
    next.PiecesOrderly (snapshotPieces message reasoning)

theorem follows_pushChoiceDelta (follows : Follows assembler normalizer)
    (emitted : normalizer.pushChoiceDelta choice = .ok (next, events)) :
    Checked.Exactly
      (∀ delta reasoning, choice.delta = some delta → delta.reasoningDelta = .ok reasoning →
        normalizer.PiecesOrderly (deltaPieces delta reasoning))
      (fun after => Follows after next) (assembler.pushAll events) := by
  unfold pushChoiceDelta at emitted
  split at emitted
  · rename_i delta present
    simp only [pushDelta, bind_eq_ok_iff] at emitted
    obtain ⟨-, -, -, -, -, -, reasoning, read, emitted⟩ := emitted
    refine (follows_pushPieces follows emitted).mono ?_ fun _ _ keeps => keeps
    constructor
    · intro each
      exact each _ _ present read
    · intro orderly _ _ again reread
      cases present.symm.trans again
      cases read.symm.trans reread
      exact orderly
  · rename_i absent
    cases emitted
    exact exactly_ok (by simp [absent]) follows

theorem follows_pushChoiceMessage (follows : Follows assembler normalizer)
    (emitted : normalizer.pushChoiceMessage choice = .ok (next, events)) :
    Checked.Exactly
      (∀ message reasoning, choice.message = some message → message.reasoningValue = .ok reasoning →
        normalizer.PiecesOrderly (snapshotPieces message reasoning))
      (fun after => Follows after next) (assembler.pushAll events) := by
  unfold pushChoiceMessage at emitted
  split at emitted
  · rename_i message present
    simp only [pushMessageSnapshot, bind_eq_ok_iff] at emitted
    obtain ⟨-, -, -, -, reasoning, read, -, -, -, -, -, -, emitted⟩ := emitted
    refine (follows_pushPieces follows emitted).mono ?_ fun _ _ keeps => keeps
    constructor
    · intro each
      exact each _ _ present read
    · intro orderly _ _ again reread
      cases present.symm.trans again
      cases read.symm.trans reread
      exact orderly
  · rename_i absent
    cases emitted
    exact exactly_ok (by simp [absent]) follows

theorem setFinishReason_keeps (finished : normalizer.setFinishReason choice = .ok next) :
    next.blocks = normalizer.blocks ∧ next.toolCalls = normalizer.toolCalls := by
  unfold setFinishReason at finished
  split at finished
  · obtain ⟨reason, -, result⟩ := bind_eq_ok_iff.mp finished
    cases result
    exact ⟨rfl, rfl⟩
  · cases finished
    exact ⟨rfl, rfl⟩

theorem follows_pushChoice (follows : Follows assembler normalizer)
    (emitted : normalizer.pushChoice choice = .ok (next, events)) :
    Checked.Exactly (normalizer.ChoiceOrderly choice) (fun after => Follows after next)
      (assembler.pushAll events) := by
  simp only [pushChoice, bind_eq_ok_iff] at emitted
  obtain ⟨-, -, ⟨streamed, deltas⟩, first, ⟨merged, snapshots⟩, second, finished, third, result⟩ :=
    emitted
  cases result
  obtain ⟨blocks, toolCalls⟩ := setFinishReason_keeps third
  rw [pushAll_append]
  refine ((follows_pushChoiceDelta follows first).bind
    fun after taken => follows_pushChoiceMessage taken second).mono ?_
      fun _ _ taken => taken.congr blocks toolCalls
  constructor
  · intro orderly
    exact ⟨orderly.streamed, fun message reasoning present read =>
      orderly.cumulative message reasoning _ _ present read first⟩
  · rintro ⟨before, after⟩
    refine ⟨before, ?_⟩
    intro message reasoning next events present read emitted
    rw [first] at emitted
    cases emitted
    exact after message reasoning present read

def ChunkOrderly (normalizer : ChatStreamNormalizer) : Chunk → Prop
  | .wire chunk => ∀ choice ∈ chunk.choices.head?,
      (normalizer.resetGeneration.noteUsage chunk).ChoiceOrderly choice
  | _ => True

theorem follows_pushWire (follows : Follows assembler normalizer)
    (emitted : normalizer.pushWire chunk = .ok (next, events)) :
    Checked.Exactly
      (∀ choice ∈ chunk.choices.head?, (normalizer.noteUsage chunk).ChoiceOrderly choice)
      (fun after => Follows after next) (assembler.pushAll events) := by
  simp only [pushWire, bind_eq_ok_iff] at emitted
  obtain ⟨-, -, -, -, -, -, emitted⟩ := emitted
  have noted : Follows assembler (normalizer.noteUsage chunk) := follows.congr rfl rfl
  -- A usage report is always taken.
  have reported : ∃ after, assembler.pushAll
      (chunk.reportedUsage.map ModelEvent.usageUpdate).toList = .ok after ∧
        Follows after (normalizer.noteUsage chunk) := by
    cases chunk.reportedUsage with
    | none => exact ⟨assembler, rfl, noted⟩
    | some usage =>
      obtain ⟨kinds, calls, opened, tracks, identified⟩ := noted
      obtain ⟨after, pushed, taken⟩ := opened.push_usageUpdate usage
      exact ⟨after, (pushAll_singleton ..).trans pushed, kinds, calls, taken, tracks, identified⟩
  obtain ⟨after, pushed, taken⟩ := reported
  split at emitted
  · rename_i none
    cases emitted
    rw [pushed]
    exact exactly_ok (by simp [none]) taken
  · rename_i choice rest choices
    obtain ⟨⟨last, more⟩, step, result⟩ := bind_eq_ok_iff.mp emitted
    cases result
    rw [pushAll_append, pushed, ok_bind]
    refine (follows_pushChoice taken step).mono ?_ fun _ _ keeps => keeps
    simp [choices]

theorem follows_push (follows : Follows assembler normalizer)
    (emitted : normalizer.push chunk = .ok (next, items)) :
    Checked.Exactly (normalizer.ChunkOrderly chunk) (fun after => Follows after next)
      (assembler.pushAll (items.filterMap ModelStreamItem.event?)) := by
  obtain ⟨⟨last, events⟩, step, result⟩ := bind_eq_ok_iff.mp emitted
  cases result
  have visible : (events.map ModelStreamItem.event ++ if next.bufferedGeneration then
      [ModelStreamItem.progress .generation] else []).filterMap ModelStreamItem.event? = events := by
    split <;> simp [comp_def, ModelStreamItem.event?]
  rw [visible]
  cases chunk with
  | streamError error => cases step
  | malformed reason => cases step
  | wire chunk => exact follows_pushWire (follows.congr rfl rfl) step

section Finish

/-- What is left to complete: started calls with their own ids, still open in the
assembler; every other call is complete. -/
structure Completing (tools : List (Nat × ToolAssembly)) (kinds : List ContentKind)
    (calls : ToolCallId → Option PendingCall) : Prop where
  pending : ∀ entry ∈ tools, kinds[entry.2.blockIndex]? = some .toolCall ∧
    ∃ id, entry.2.callId = some id ∧ calls id = some ⟨entry.2.blockIndex, false⟩
  distinct : (tools.map fun entry => entry.2.callId).Nodup
  complete : ∀ id call, calls id = some call →
    call.completed = true ∨ some id ∈ tools.map fun entry => entry.2.callId

/-- Completing a call leaves the rest as it was. -/
theorem Completing.step {id : ToolCallId} (completing : Completing (entry :: rest) kinds calls)
    (named : entry.2.callId = some id) :
    Completing rest kinds (update calls id (some ⟨entry.2.blockIndex, true⟩)) := by
  have distinct := completing.distinct
  rw [map_cons, nodup_cons, named] at distinct
  constructor
  · intro other member
    obtain ⟨block, other_id, other_named, open_call⟩ :=
      completing.pending other (mem_cons_of_mem _ member)
    refine ⟨block, other_id, other_named, ?_⟩
    rw [update_of_ne, open_call]
    rintro rfl
    exact distinct.1 (mem_map.mpr ⟨other, member, other_named⟩)
  · exact distinct.2
  · intro other call known
    by_cases same : other = id
    · subst same
      rw [update_self, Option.some.injEq] at known
      subst known
      exact .inl rfl
    · rw [update_of_ne same] at known
      rcases completing.complete other call known with done | listed
      · exact .inl done
      · rw [map_cons, mem_cons, named, Option.some.injEq] at listed
        exact .inr (listed.resolve_left same)

/-- At the end of a stream that completes, every assembled call is open. -/
theorem Tracks.completing (tracks : normalizer.Tracks kinds calls)
    (started : ∀ entry ∈ normalizer.toolCalls, entry.2.started = true) :
    Completing normalizer.toolCalls kinds calls := by
  have held {entry : Nat × ToolAssembly} (member : entry ∈ normalizer.toolCalls) :
      normalizer.toolCalls.lookup entry.1 = some entry.2 :=
    lookup_of_mem tracks.keys member
  constructor
  · intro entry member
    exact tracks.shown (held member) (started entry member)
  · apply List.Nodup.map_on ?_ (List.Nodup.of_map _ tracks.keys)
    intro one first other second same
    have key := tracks.orderly.distinct (held first) (held second) (started one first)
      (started other second) same
    have value := held first
    rw [key, held second, Option.some.injEq] at value
    exact Prod.ext key value.symm
  · intro id call known
    obtain ⟨index, assembly, found, -, named⟩ := tracks.known known
    exact .inr (mem_map.mpr ⟨(index, assembly), mem_of_lookup found, named⟩)

theorem Tracks.called_iff (tracks : normalizer.Tracks kinds calls)
    (started : ∀ entry ∈ normalizer.toolCalls, entry.2.started = true) :
    (∃ id, calls id ≠ none) ↔ normalizer.toolCalls ≠ [] := by
  constructor
  · rintro ⟨id, known⟩
    obtain ⟨call, known⟩ := Option.ne_none_iff_exists'.mp known
    obtain ⟨index, assembly, found, -, -⟩ := tracks.known known
    exact ne_nil_of_mem (mem_of_lookup found)
  · intro some_call
    obtain ⟨entry, member⟩ := exists_mem_of_ne_nil _ some_call
    obtain ⟨-, id, -, call⟩ := tracks.shown (lookup_of_mem tracks.keys member)
      (started entry member)
    exact ⟨id, by simp [call]⟩

variable [JsonParser]

variable {assembler : ModelEventAssembler}

theorem completeCalls_accepted {tools : ValidatedTools} (opened : assembler.Open kinds calls)
    (completing : Completing entries kinds calls)
    (emitted : completeCalls tools entries = .ok events) :
    ∃ after final, assembler.pushAll events = .ok after ∧ after.Open kinds final ∧
      (∀ id call, final id = some call → call.completed = true) ∧
      ∀ id, final id ≠ none ↔ calls id ≠ none := by
  induction entries generalizing assembler calls events with
  | nil =>
    cases emitted
    refine ⟨assembler, calls, rfl, opened, ?_, fun _ => Iff.rfl⟩
    intro id call known
    simpa using completing.complete id call known
  | cons entry rest ih =>
    simp only [completeCalls, bind_eq_ok_iff] at emitted
    obtain ⟨start, resolved, call, accepted, more, others, result⟩ := emitted
    cases result
    obtain ⟨block, id, named, open_call⟩ := completing.pending entry (mem_cons_self ..)
    have same : id = call.id := by
      rw [acceptToolCallArguments_id accepted]
      exact Option.some.inj (named.symm.trans (resolveToolIdentity_id resolved).1)
    subst same
    obtain ⟨after, pushed, taken⟩ := (opened.push_toolCallCompleted call block).succeeds open_call
    obtain ⟨last, final, finished, held, complete, called⟩ :=
      ih taken (completing.step named) others
    refine ⟨last, final, ?_, held, complete, ?_⟩
    · rw [pushAll_cons, pushed]
      exact finished
    · intro other
      rw [called]
      by_cases same : other = call.id
      · subst same
        simp [open_call]
      · rw [update_of_ne same]

theorem completeCalls_named {tools : ValidatedTools}
    (emitted : completeCalls tools entries = .ok events) (member : entry ∈ entries) :
    entry.2.callId ≠ none ∧ entry.2.name ≠ none := by
  induction entries generalizing events with
  | nil => cases member
  | cons first rest ih =>
    simp only [completeCalls, bind_eq_ok_iff] at emitted
    obtain ⟨start, resolved, call, -, more, others, -⟩ := emitted
    rcases mem_cons.mp member with rfl | later
    · obtain ⟨id, name⟩ := resolveToolIdentity_id resolved
      simp [id, name]
    · exact ih others later

variable [ReservedProtocol]

/-- The finish reason of a stream that completes names tool calls exactly if some
were assembled. -/
def FinishAgrees (normalizer : ChatStreamNormalizer) : Prop :=
  ∀ events, normalizer.finish = .ok events →
    (normalizer.finishReason = some .toolCalls ↔ normalizer.toolCalls ≠ [])

/-- Every state the stream leads through is orderly, and its end agrees with it. -/
def StaysOrderly (normalizer : ChatStreamNormalizer) : List Chunk → Prop
  | [] => normalizer.FinishAgrees
  | chunk :: rest => ∀ next items, normalizer.push chunk = .ok (next, items) →
      normalizer.ChunkOrderly chunk ∧ next.StaysOrderly rest

theorem stream_ne_nil (normalizer : ChatStreamNormalizer) (chunks : List Chunk) :
    normalizer.stream chunks ≠ [] := by
  induction chunks generalizing normalizer with
  | nil =>
    unfold stream
    split
    · rename_i events finished
      simp only [finish, bind_eq_ok_iff] at finished
      obtain ⟨completions, -, finished⟩ := finished
      split at finished
      · cases finished
      · split at finished
        · cases finished
        · cases finished
          simp
    · simp
  | cons chunk rest ih =>
    unfold stream
    split
    · simp [ih]
    · simp

theorem follows_finish (follows : Follows assembler normalizer) :
    assembler.Concludes (normalizer.stream []) ↔ normalizer.FinishAgrees := by
  obtain ⟨kinds, calls, opened, tracks, identified⟩ := follows
  unfold stream
  split
  · rename_i events finished
    have agrees : normalizer.FinishAgrees ↔
        (normalizer.finishReason = some .toolCalls ↔ normalizer.toolCalls ≠ []) :=
      ⟨fun each => each events finished, fun agree _ _ => agree⟩
    rw [agrees]
    simp only [finish, bind_eq_ok_iff] at finished
    obtain ⟨completions, emitted, finished⟩ := finished
    -- The stream completes, so every call had its identity and has started.
    have started entry (member : entry ∈ normalizer.toolCalls) : entry.2.started = true := by
      obtain ⟨id, name⟩ := completeCalls_named emitted member
      by_contra idle
      rcases identified _ _ (lookup_of_mem tracks.keys member) (by simpa using idle) with
        missing | missing
      · exact id missing
      · exact name missing
    obtain ⟨after, final, pushed, taken, complete, called⟩ :=
      completeCalls_accepted opened (tracks.completing started) emitted
    split at finished
    · cases finished
    rename_i reason ends
    split at finished
    · cases finished
    cases finished
    have only : assembler.Concludes (completions ++ [.completed reason normalizer.usage]) ↔
        after.Concludes [.completed reason normalizer.usage] := by
      rw [concludes_append (by simp), pushed]
      simp
    rw [only, taken.concludes_completed, ends, Option.some.injEq, ← tracks.called_iff started]
    simp only [← called]
    exact ⟨fun settled => settled.agrees, fun agree => ⟨complete, agree⟩⟩
  · rename_i error finished
    simp [FinishAgrees, finished, opened.concludes_failed]

theorem follows_stream (follows : Follows assembler normalizer) (chunks : List Chunk) :
    assembler.Concludes (normalizer.stream chunks) ↔ normalizer.StaysOrderly chunks := by
  induction chunks generalizing assembler normalizer with
  | nil => exact follows_finish follows
  | cons chunk rest ih =>
    unfold stream StaysOrderly
    split
    · rename_i next items emitted
      rw [concludes_exactly (follows_push follows emitted)
        fun after taken => ⟨next.stream_ne_nil rest, ih taken⟩]
      constructor
      · rintro orderly _ _ again
        cases emitted.symm.trans again
        exact orderly
      · intro orderly
        exact orderly next items emitted
    · rename_i error failed
      obtain ⟨kinds, calls, opened, -, -⟩ := follows
      simp [failed, opened.concludes_failed]

end Finish

end ChatStreamNormalizer

/-- The events of a Chat Completions stream are canonical exactly if no block is
ever shown above a call that waits for its identity, no two started calls share
an id, and a completed stream ends in `tool_calls` exactly if it assembled calls. -/
theorem chatStream_canonical_iff [JsonParser] [ReservedProtocol] (tools : ValidatedTools)
    (protocol : ChatToolProtocol) (chunks : List Chunk) :
    Canonical ((ChatStreamNormalizer.new tools protocol).stream chunks) ↔
      (ChatStreamNormalizer.new tools protocol).StaysOrderly chunks := by
  apply canonical_iff
  intro assembler opened
  refine ⟨ChatStreamNormalizer.stream_ne_nil _ chunks, ChatStreamNormalizer.follows_stream ?_ chunks⟩
  refine ⟨[], fun _ => none, opened, ChatStreamNormalizer.tracks_new tools protocol, ?_⟩
  intro index assembly held
  simp [ChatStreamNormalizer.new] at held

def deltaChunk (delta : Delta) : Chunk :=
  .wire { choices := [{ index := some 0, delta := some delta }] }

/-- A call fragment that names neither an id nor a tool, and then text. -/
def lateIdentity : List Chunk :=
  [deltaChunk { toolCalls := some [{ index := 0, function := some { arguments := some "[" } }] },
    deltaChunk { content := some "hi" }]

/-- The waiting call holds index 0, so the text arrives at index 1 and the assembler
refuses it as a skipped block. -/
theorem chatStream_lateIdentity_not_canonical :
    ¬ Canonical (@ChatStreamNormalizer.stream ⟨fun _ => .ok .null⟩ ⟨fun _ => none⟩
      (.new ⟨[]⟩ .native) lateIdentity) := by
  rintro ⟨final, accepted, -⟩
  have refused : ModelEventAssembler.new.pushAll (.started ::
      @ChatStreamNormalizer.stream ⟨fun _ => .ok .null⟩ ⟨fun _ => none⟩ (.new ⟨[]⟩ .native)
        lateIdentity) = .error (violation "content delta skipped block index 1") := by
    decide +kernel
  cases accepted

end RustX.Chat
