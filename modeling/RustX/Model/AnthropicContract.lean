import RustX.Model.AnthropicMessages

/-!
When the Anthropic adapter keeps the canonical stream contract. A block holds its
canonical index from the moment it opens, whether or not it has shown something.
-/
namespace RustX.Anthropic

attribute [local simp] ModelEvent.isTerminal

def BlockState.canonicalIndex : BlockState → ContentBlockIndex
  | .text index | .thinking index _ _ _ | .redactedThinking index _ _
  | .toolUse index _ _ _ _ _ => index

def BlockState.call : BlockState → Option ToolCallId
  | .toolUse _ start _ _ _ _ => some start.id
  | _ => none

def WireEvent.stops : WireEvent → Bool
  | .messageStop => true
  | _ => false

/-- An open block still owes what it emits when it stops. -/
def BlockState.owes : BlockState → Bool
  | .text _ => true
  | .thinking _ _ _ emitted | .redactedThinking _ _ emitted => !emitted
  | .toolUse _ _ _ _ _ completed => !completed

namespace AnthropicStreamNormalizer

open Function ModelEventAssembler

def refusalIndex (normalizer : AnthropicStreamNormalizer) : ContentBlockIndex :=
  normalizer.refusalBlock.getD (normalizer.blocks.allocate .refusal).1

/-- What an event makes visible, read off the wire. -/
def reveals (normalizer : AnthropicStreamNormalizer) : WireEvent → Option Reveal
  | .contentBlockStart index block =>
    match block.blockType with
    | some "text" =>
      if block.text.getD "" = "" then none else some (.content (normalizer.indexOf index) .text)
    | some "thinking" =>
      if block.thinking.getD "" = "" then none
      else some (.content (normalizer.indexOf index) .reasoning)
    | some "tool_use" => block.id.map (.call (normalizer.indexOf index))
    | _ => none
  | .contentBlockDelta index delta =>
    match normalizer.blockStates.lookup index with
    | some (.text canonicalIndex) =>
      if delta.text.getD "" = "" then none else some (.content canonicalIndex .text)
    | some (.thinking canonicalIndex _ _ _) =>
      if delta.deltaType ≠ some "thinking_delta" ∨ delta.thinking.getD "" = "" then none
      else some (.content canonicalIndex .reasoning)
    | _ => none
  | .contentBlockStop index =>
    match normalizer.blockStates.lookup index with
    | some (.thinking canonicalIndex _ _ _) | some (.redactedThinking canonicalIndex _ _) =>
      some (.content canonicalIndex .reasoning)
    | _ => none
  | .messageStop =>
    normalizer.refusalExplanation.map fun _ => .content normalizer.refusalIndex .refusal
  | _ => none

structure Tracks (normalizer : AnthropicStreamNormalizer) (kinds : List ContentKind)
    (calls : ToolCallId → Option PendingCall) : Prop where
  live : normalizer.terminalEmitted = false
  opened : ∀ {index state}, normalizer.blockStates.lookup index = some state →
    normalizer.blocks.find (.provider index) = some state.canonicalIndex
  owes : ∀ {index state}, normalizer.blockStates.lookup index = some state → state.owes = true
  called : ∀ {index state id}, normalizer.blockStates.lookup index = some state →
    state.call = some id → kinds[state.canonicalIndex]? = some .toolCall ∧
      calls id = some ⟨state.canonicalIndex, false⟩
  closed : ∀ {id call}, calls id = some call → call.completed = true ∨
    ∃ index state, normalizer.blockStates.lookup index = some state ∧ state.call = some id

def Follows (assembler : ModelEventAssembler) (normalizer : AnthropicStreamNormalizer)
    (ledger : Ledger) : Prop :=
  ∃ calls, assembler.Open ledger.kinds calls ∧ (∀ id, id ∈ ledger.ids ↔ calls id ≠ none) ∧
    normalizer.Tracks ledger.kinds calls

variable {normalizer : AnthropicStreamNormalizer}

theorem tracks_new (tools : ValidatedTools) : (new tools).Tracks [] fun _ => none := by
  constructor <;> simp [new]

theorem Tracks.place (tracks : normalizer.Tracks kinds calls) (index : ContentBlockIndex)
    (kind : ContentKind) : normalizer.Tracks (place kinds index kind) calls where
  live := tracks.live
  opened := tracks.opened
  owes := tracks.owes
  called held call := by
    obtain ⟨block, pending⟩ := tracks.called held call
    exact ⟨getElem?_place_of_some block, pending⟩
  closed := tracks.closed

/-- Two open blocks of one call are one block. -/
theorem Tracks.call_unique (tracks : normalizer.Tracks kinds calls) {id : ToolCallId}
    (heldOne : normalizer.blockStates.lookup first = some one) (callOne : one.call = some id)
    (heldOther : normalizer.blockStates.lookup second = some other)
    (callOther : other.call = some id) : first = second := by
  obtain ⟨-, pendingOne⟩ := tracks.called heldOne callOne
  obtain ⟨-, pendingOther⟩ := tracks.called heldOther callOther
  rw [pendingOne, Option.some.injEq, PendingCall.mk.injEq] at pendingOther
  have found := tracks.opened heldOne
  rw [pendingOther.1] at found
  exact BlockKey.provider.inj (BlockAllocator.find_injective found (tracks.opened heldOther))

variable {state : BlockState}

section

variable (tracks : normalizer.Tracks kinds calls)
include tracks

/-- A block opens: the calls are those that were open and its own. -/
theorem Tracks.openBlock {others : List ContentKind}
    (absent : normalizer.blockStates.lookup index = none)
    (canonical : state.canonicalIndex = normalizer.indexOf index) (owes : state.owes = true)
    (kept : ∀ {at_index : ContentBlockIndex} {kind : ContentKind},
      kinds[at_index]? = some kind → others[at_index]? = some kind)
    (own : ∀ id, state.call = some id → others[state.canonicalIndex]? = some .toolCall ∧
      pending id = some ⟨state.canonicalIndex, false⟩)
    (older : ∀ id, state.call ≠ some id → pending id = calls id)
    (fresh : ∀ id, state.call = some id → calls id = none) :
    (normalizer.openBlock index state).Tracks others pending := by
  constructor
  · exact tracks.live
  · intro other found held
    rcases Assoc.lookup_insert_cases held with ⟨rfl, rfl⟩ | ⟨-, held⟩
    · rw [canonical]
      exact BlockAllocator.find_allocate ..
    · exact BlockAllocator.find_allocate_of_find (tracks.opened held) _
  · intro other found held
    rcases Assoc.lookup_insert_cases held with ⟨-, rfl⟩ | ⟨-, held⟩
    · exact owes
    · exact tracks.owes held
  · intro other found id held call
    rcases Assoc.lookup_insert_cases held with ⟨-, rfl⟩ | ⟨-, held⟩
    · exact own id call
    · obtain ⟨block, known⟩ := tracks.called held call
      refine ⟨kept block, ?_⟩
      rw [older, known]
      intro again
      rw [fresh id again] at known
      cases known
  · intro id call known
    by_cases mine : state.call = some id
    · exact .inr ⟨index, state, Assoc.lookup_insert_self .., mine⟩
    · rw [older id mine] at known
      rcases tracks.closed known with done | ⟨other, found, held, named⟩
      · exact .inl done
      · refine .inr ⟨other, found, (Assoc.lookup_insert_of_ne ?_ ..).trans held, named⟩
        rintro rfl
        rw [absent] at held
        cases held

/-- A block that opens and is no call leaves the calls. -/
theorem Tracks.openQuiet (absent : normalizer.blockStates.lookup index = none)
    (canonical : state.canonicalIndex = normalizer.indexOf index) (owes : state.owes = true)
    (quiet : state.call = none) : (normalizer.openBlock index state).Tracks kinds calls :=
  tracks.openBlock absent canonical owes id (by simp [quiet]) (fun _ _ => rfl) (by simp [quiet])

/-- An open block changes what it holds, not its place nor its call. -/
theorem Tracks.setBlock (held : normalizer.blockStates.lookup index = some old)
    (canonical : state.canonicalIndex = old.canonicalIndex) (owes : state.owes = old.owes)
    (call : state.call = old.call) : (normalizer.setBlock index state).Tracks kinds calls := by
  have before {other : Nat} {found : BlockState}
      (found_at : (normalizer.setBlock index state).blockStates.lookup other = some found) :
      ∃ was, normalizer.blockStates.lookup other = some was ∧
        found.canonicalIndex = was.canonicalIndex ∧ found.owes = was.owes ∧
        found.call = was.call := by
    rcases Assoc.lookup_insert_cases found_at with ⟨rfl, rfl⟩ | ⟨-, found_at⟩
    · exact ⟨old, held, canonical, owes, call⟩
    · exact ⟨found, found_at, rfl, rfl, rfl⟩
  constructor
  · exact tracks.live
  · intro other found found_at
    obtain ⟨was, was_at, place, -, -⟩ := before found_at
    rw [place]
    exact tracks.opened was_at
  · intro other found found_at
    obtain ⟨was, was_at, -, same, -⟩ := before found_at
    rw [same]
    exact tracks.owes was_at
  · intro other found id found_at named
    obtain ⟨was, was_at, place, -, same⟩ := before found_at
    rw [place]
    exact tracks.called was_at (same ▸ named)
  · intro id pending known
    rcases tracks.closed known with done | ⟨other, was, was_at, named⟩
    · exact .inl done
    · by_cases same : other = index
      · subst same
        rw [held, Option.some.injEq] at was_at
        subst was_at
        exact .inr ⟨other, state, Assoc.lookup_insert_self .., call.trans named⟩
      · exact .inr ⟨other, was, (Assoc.lookup_insert_of_ne same ..).trans was_at, named⟩

/-- A block stops: its own call, if it has one, is complete. -/
theorem Tracks.closeBlock (held : normalizer.blockStates.lookup index = some state)
    (own : ∀ id, state.call = some id → pending id = some ⟨state.canonicalIndex, true⟩)
    (older : ∀ id, state.call ≠ some id → pending id = calls id) :
    (normalizer.closeBlock index).Tracks kinds pending := by
  have before {other : Nat} {found : BlockState}
      (found_at : (normalizer.closeBlock index).blockStates.lookup other = some found) :
      other ≠ index ∧ normalizer.blockStates.lookup other = some found := by
    by_cases same : other = index
    · subst same
      have member := Assoc.mem_of_lookup found_at
      simp [AnthropicStreamNormalizer.closeBlock] at member
    · exact ⟨same, (Assoc.lookup_filter_ne _ same).symm.trans found_at⟩
  constructor
  · exact tracks.live
  · intro other found found_at
    exact tracks.opened (before found_at).2
  · intro other found found_at
    exact tracks.owes (before found_at).2
  · intro other found id found_at named
    obtain ⟨ne, was_at⟩ := before found_at
    obtain ⟨block, known⟩ := tracks.called was_at named
    refine ⟨block, ?_⟩
    rw [older, known]
    intro mine
    exact ne (tracks.call_unique was_at named held mine)
  · intro id call known
    by_cases mine : state.call = some id
    · rw [own id mine, Option.some.injEq] at known
      exact .inl (known ▸ rfl)
    rw [older id mine] at known
    rcases tracks.closed known with done | ⟨other, found, found_at, named⟩
    · exact .inl done
    · refine .inr ⟨other, found, ?_, named⟩
      refine (Assoc.lookup_filter_ne _ ?_).trans found_at
      rintro rfl
      rw [held, Option.some.injEq] at found_at
      subst found_at
      exact mine named

end

/-- The events of a step are no end of the stream, and the assembler takes them
exactly if what they show fits. -/
structure Steps (assembler : ModelEventAssembler) (ledger : Ledger) (reveal : Option Reveal)
    (next : AnthropicStreamNormalizer) (events : List ModelEvent) : Prop where
  ongoing : ∀ event ∈ events, event.isTerminal = false
  taken : Checked.Exactly (ledger.Admits reveal) (fun after => Follows after next (ledger.note reveal))
    (assembler.pushAll events)

variable {assembler : ModelEventAssembler} {ledger : Ledger} {next : AnthropicStreamNormalizer}

theorem steps_quiet (follows : Follows assembler next ledger) :
    Steps assembler ledger none next [] :=
  ⟨by simp, Checked.exactly_ok trivial follows⟩

theorem steps_usage {α : Type} (follows : Follows assembler next ledger) (report : Option α)
    (read : α → ModelUsage) :
    Steps assembler ledger none next
      (report.map fun usage => ModelEvent.usageUpdate (read usage)).toList := by
  cases report with
  | none => exact steps_quiet follows
  | some usage =>
    obtain ⟨calls, opened, ids, tracks⟩ := follows
    obtain ⟨after, pushed, held⟩ := opened.push_usageUpdate _
    refine ⟨by simp, ?_⟩
    rw [Option.map_some, Option.toList_some, pushAll_singleton, pushed]
    exact Checked.exactly_ok trivial ⟨calls, held, ids, tracks⟩

theorem steps_content (opened : assembler.Open ledger.kinds calls)
    (ids : ∀ id, id ∈ ledger.ids ↔ calls id ≠ none) (tracks : next.Tracks ledger.kinds calls)
    (target : shows event = some (index, kind)) (ongoing : event.isTerminal = false) :
    Steps assembler ledger (some (.content index kind)) next [event] := by
  refine ⟨by simpa using ongoing, ?_⟩
  rw [pushAll_singleton]
  refine (opened.push_shows target).mono Iff.rfl ?_
  intro _ after held
  exact ⟨calls, held, ids, tracks.place _ _⟩

theorem filter_nonempty (text : Option String) :
    text.filter (· ≠ "") = if text.getD "" = "" then none else some (text.getD "") := by
  cases text with
  | none => simp
  | some text => by_cases empty : text = "" <;> simp [empty]

theorem steps_text (opened : assembler.Open ledger.kinds calls)
    (ids : ∀ id, id ∈ ledger.ids ↔ calls id ≠ none) (tracks : next.Tracks ledger.kinds calls)
    (text : Option String) (index : ContentBlockIndex) :
    Steps assembler ledger (if text.getD "" = "" then none else some (.content index .text)) next
      ((text.filter (· ≠ "")).map (ModelEvent.textDelta index)).toList := by
  rw [filter_nonempty]
  split
  · exact steps_quiet ⟨calls, opened, ids, tracks⟩
  · exact steps_content opened ids tracks rfl rfl

theorem steps_thinking (opened : assembler.Open ledger.kinds calls)
    (ids : ∀ id, id ∈ ledger.ids ↔ calls id ≠ none) (tracks : next.Tracks ledger.kinds calls)
    (text : String) (index : ContentBlockIndex) :
    Steps assembler ledger (if text = "" then none else some (.content index .reasoning)) next
      (if text = "" then [] else [.reasoningDelta index text]) := by
  split
  · exact steps_quiet ⟨calls, opened, ids, tracks⟩
  · exact steps_content opened ids tracks rfl rfl

section

variable (follows : Follows assembler normalizer ledger)
include follows

theorem steps_startToolUseBlock [FloatText] (absent : normalizer.blockStates.lookup index = none)
    (emitted : normalizer.startToolUseBlock index block = .ok (next, events)) :
    Steps assembler ledger (block.id.map (.call (normalizer.indexOf index))) next events := by
  obtain ⟨calls, opened, ids, tracks⟩ := follows
  obtain ⟨start, resolved, result⟩ := Checked.bind_eq_ok_iff.mp emitted
  cases result
  rw [(resolveToolIdentity_id resolved).1, Option.map_some]
  constructor
  · intro event member
    rw [List.mem_cons] at member
    rcases member with rfl | member
    · rfl
    · split at member
      · rw [List.mem_singleton] at member
        subst member
        rfl
      · cases member
  · have fits : ledger.Fits (.call (normalizer.indexOf index) start.id) ↔
        normalizer.indexOf index = ledger.kinds.length ∧ calls start.id = none := by
      simp [Ledger.Fits, ids]
    refine Checked.Exactly.mono ?_ fits fun _ _ keeps => keeps
    apply (opened.push_toolCallStarted _ start).andThen
    rintro ⟨last, fresh⟩ after taken
    have follows : Follows after (normalizer.openBlock index (.toolUse (normalizer.indexOf index)
        start (initialInput block).text (initialInputComplete block) false false))
        (ledger.note (some (.call (normalizer.indexOf index) start.id))) := by
      refine ⟨_, taken, ?_, ?_⟩
      · intro id
        by_cases same : id = start.id
        · subst same
          simp [Ledger.note]
        · simp [Ledger.note, same, ids]
      · apply tracks.openBlock absent rfl rfl
        · intro at_index kind present
          exact (List.getElem?_append_left (List.getElem?_eq_some_iff.mp present).1).trans present
        · rintro id ⟨rfl⟩
          refine ⟨?_, update_self ..⟩
          rw [BlockState.canonicalIndex, last]
          exact List.getElem?_concat_length
        · intro id other
          rw [update_of_ne]
          rintro rfl
          exact other rfl
        · rintro id ⟨rfl⟩
          exact fresh
    split
    · obtain ⟨final, pushed, rfl⟩ := (taken.push_toolCallArgumentsDelta _
        _ (initialInput block).text).succeeds (update_self ..)
      exact ⟨_, (pushAll_singleton ..).trans pushed, follows⟩
    · exact ⟨after, rfl, follows⟩

theorem steps_pushContentBlockStart [FloatText]
    (emitted : normalizer.pushContentBlockStart index block = .ok (next, events)) :
    Steps assembler ledger (normalizer.reveals (.contentBlockStart index block)) next events := by
  unfold pushContentBlockStart at emitted
  split at emitted
  · cases emitted
  rename_i vacant
  have absent := Option.not_isSome_iff_eq_none.mp vacant
  dsimp only [reveals]
  split at emitted
  · rename_i kind
    rw [kind]
    obtain ⟨calls, opened, ids, tracks⟩ := follows
    obtain ⟨-, -, result⟩ := Checked.bind_eq_ok_iff.mp emitted
    cases result
    exact steps_text opened ids (tracks.openQuiet absent rfl rfl rfl) _ _
  · rename_i kind
    rw [kind]
    obtain ⟨calls, opened, ids, tracks⟩ := follows
    cases emitted
    exact steps_thinking opened ids (tracks.openQuiet absent rfl rfl rfl) _ _
  · rename_i kind
    rw [kind]
    obtain ⟨calls, opened, ids, tracks⟩ := follows
    unfold startRedactedThinkingBlock at emitted
    split at emitted
    · cases emitted
    · cases emitted
      exact steps_quiet ⟨calls, opened, ids, tracks.openQuiet absent rfl rfl rfl⟩
  · rename_i kind
    rw [kind]
    exact steps_startToolUseBlock follows absent emitted
  · cases emitted
  · split at emitted <;> cases emitted
  · cases emitted

theorem steps_pushContentBlockDelta
    (emitted : normalizer.pushContentBlockDelta index delta = .ok (next, events)) :
    Steps assembler ledger (normalizer.reveals (.contentBlockDelta index delta)) next events := by
  obtain ⟨calls, opened, ids, tracks⟩ := follows
  unfold pushContentBlockDelta at emitted
  dsimp only [reveals]
  split at emitted
  · unfold pushTextDelta at emitted
    split at emitted
    · cases emitted
    · rename_i canonicalIndex held
      cases emitted
      rw [held]
      exact steps_text opened ids tracks _ _
    · cases emitted
  · rename_i kind
    unfold pushThinkingDelta at emitted
    split at emitted
    · cases emitted
    · rename_i canonicalIndex buffer signature state held
      cases emitted
      rw [held]
      simp only [kind, ne_eq, not_true_eq_false, false_or]
      have tracked : (normalizer.setBlock index (.thinking canonicalIndex
          (buffer ++ delta.thinking.getD "") signature state)).Tracks ledger.kinds calls :=
        tracks.setBlock held rfl rfl rfl
      exact steps_thinking opened ids tracked _ _
    · cases emitted
  · rename_i kind
    unfold pushSignatureDelta at emitted
    split at emitted
    · cases emitted
    · rename_i canonicalIndex buffer signature state held
      cases emitted
      rw [held]
      simp only [kind, ne_eq, Option.some.injEq, String.reduceEq, not_false_eq_true, true_or,
        if_true]
      exact steps_quiet ⟨calls, opened, ids, tracks.setBlock held rfl rfl rfl⟩
    · cases emitted
  · unfold pushInputJsonDelta at emitted
    split at emitted
    · cases emitted
    · rename_i canonicalIndex start buffer complete saw completed held
      rw [held]
      dsimp only at emitted
      split at emitted
      · cases emitted
        exact steps_quiet ⟨calls, opened, ids, tracks⟩
      split at emitted
      · cases emitted
      cases emitted
      obtain ⟨-, pending⟩ := tracks.called held rfl
      obtain ⟨after, pushed, rfl⟩ := (opened.push_toolCallArgumentsDelta canonicalIndex _
        _).succeeds pending
      refine ⟨by simp, ?_⟩
      rw [pushAll_singleton, pushed]
      exact Checked.exactly_ok trivial ⟨calls, opened, ids, tracks.setBlock held rfl rfl rfl⟩
    · cases emitted
  · cases emitted
  · cases emitted

theorem steps_pushContentBlockStop [JsonParser]
    (emitted : normalizer.pushContentBlockStop index = .ok (next, events)) :
    Steps assembler ledger (normalizer.reveals (.contentBlockStop index)) next events := by
  obtain ⟨calls, opened, ids, tracks⟩ := follows
  unfold pushContentBlockStop at emitted
  dsimp only [reveals]
  split at emitted
  · cases emitted
  rename_i state held
  obtain ⟨owed, stopped, result⟩ := Checked.bind_eq_ok_iff.mp emitted
  cases result
  rw [held]
  have owes := tracks.owes held
  cases state with
  | text canonicalIndex =>
    cases stopped
    exact steps_quiet ⟨calls, opened, ids, tracks.closeBlock held (by simp [BlockState.call])
      fun _ _ => rfl⟩
  | thinking canonicalIndex buffer signature done =>
    cases done with
    | true => cases owes
    | false =>
      simp only [stopEvents, Bool.false_eq_true, if_false] at stopped
      split at stopped
      · cases stopped
      · cases stopped
        exact steps_content opened ids (tracks.closeBlock held (by simp [BlockState.call])
          fun _ _ => rfl) rfl rfl
  | redactedThinking canonicalIndex data done =>
    cases done with
    | true => cases owes
    | false =>
      cases stopped
      exact steps_content opened ids (tracks.closeBlock held (by simp [BlockState.call])
        fun _ _ => rfl) rfl rfl
  | toolUse canonicalIndex start buffer complete saw completed =>
    cases completed with
    | true => cases owes
    | false =>
      obtain ⟨call, accepted, result⟩ := Checked.bind_eq_ok_iff.mp stopped
      cases result
      obtain ⟨block, pending⟩ := tracks.called held rfl
      rw [← acceptToolCallArguments_id accepted] at pending
      obtain ⟨after, pushed, taken⟩ := (opened.push_toolCallCompleted call block).succeeds pending
      refine ⟨by simp, ?_⟩
      rw [pushAll_singleton, BlockState.canonicalIndex] at *
      rw [pushed]
      refine Checked.exactly_ok trivial ⟨_, taken, ?_, ?_⟩
      · intro id
        by_cases same : id = call.id
        · subst same
          simp [Ledger.note, ids, pending]
        · simp [Ledger.note, same, ids]
      · apply tracks.closeBlock held
        · rintro id ⟨rfl⟩
          rw [← acceptToolCallArguments_id accepted]
          exact update_self ..
        · intro id other
          rw [update_of_ne]
          rintro rfl
          exact other (congrArg some (acceptToolCallArguments_id accepted).symm)

theorem Follows.congr {other : AnthropicStreamNormalizer}
    (blocks : other.blocks = normalizer.blocks)
    (states : other.blockStates = normalizer.blockStates)
    (live : other.terminalEmitted = normalizer.terminalEmitted) :
    Follows assembler other ledger := by
  cases other
  cases blocks
  cases states
  cases live
  obtain ⟨calls, opened, ids, tracks⟩ := follows
  exact ⟨calls, opened, ids, tracks.live, tracks.opened, tracks.owes, tracks.called, tracks.closed⟩

/-- A failure is always taken, with the usage evidence before it. -/
theorem Follows.failure (error : ModelError) :
    assembler.Concludes (normalizer.failureEvents error) := by
  obtain ⟨-, taken⟩ := steps_usage follows _ fun usage => normalizeUsage _ _
  obtain ⟨after, pushed, calls, opened, -, -⟩ := taken.succeeds trivial
  exact (concludes_append (by simp)).mpr ⟨after, pushed, opened.concludes_failed error⟩

end

/-- The stop reason of a message that completes says `tool_use` exactly if calls
were shown. -/
def FinishAgrees (normalizer : AnthropicStreamNormalizer) (ledger : Ledger) : Prop :=
  ∀ reason, normalizer.stopReason = some reason → isContextWindowError "" (some reason) = false →
    (mapFinishReason reason = .toolCalls ↔ ledger.ids ≠ [])

theorem settled_iff (ids : ∀ id, id ∈ ledger.ids ↔ calls id ≠ none)
    (tracks : normalizer.Tracks ledger.kinds calls) (closed : normalizer.blockStates = [])
    (reason : ModelFinishReason) :
    Settled calls reason ↔ (reason = .toolCalls ↔ ledger.ids ≠ []) := by
  have some_call : (∃ id, calls id ≠ none) ↔ ledger.ids ≠ [] := by
    simp only [← ids]
    exact ⟨fun ⟨_, member⟩ => List.ne_nil_of_mem member, List.exists_mem_of_ne_nil _⟩
  rw [← some_call]
  refine ⟨fun settled => settled.agrees, fun agrees => ⟨?_, agrees⟩⟩
  intro id call known
  rcases tracks.closed known with done | ⟨index, state, held, -⟩
  · exact done
  · rw [closed] at held
    cases held

theorem follows_terminal (follows : Follows assembler normalizer ledger)
    (emitted : normalizer.terminal = .ok (next, events)) :
    events.any ModelEvent.isTerminal = true ∧ (assembler.Concludes events ↔
      ledger.Admits (normalizer.reveals .messageStop) ∧ normalizer.FinishAgrees ledger) := by
  have failure := follows.failure
  obtain ⟨calls, opened, ids, tracks⟩ := follows
  unfold terminal at emitted
  rw [tracks.live, if_neg (by simp)] at emitted
  split at emitted
  · cases emitted
  rename_i every
  have closed : normalizer.blockStates = [] := by simpa using every
  dsimp only [reveals]
  split at emitted
  · cases emitted
  rename_i reason stops
  have agrees (completes : isContextWindowError "" (some reason) = false) :
      normalizer.FinishAgrees ledger ↔ Settled calls (mapFinishReason reason) := by
    rw [settled_iff ids tracks closed]
    constructor
    · intro each
      exact each reason stops completes
    · intro agree other again _
      cases stops.symm.trans again
      exact agree
  split at emitted
  · rename_i exceeded
    cases emitted
    have quiet : normalizer.refusalExplanation = none := by
      rw [refusalExplanation, stops, if_neg]
      rintro ⟨rfl⟩
      exact absurd exceeded (by decide +kernel)
    have agrees : normalizer.FinishAgrees ledger := by
      intro other again completes
      cases stops.symm.trans again
      rw [exceeded] at completes
      cases completes
    rw [quiet]
    refine ⟨by simp [failureEvents], ?_⟩
    exact ⟨fun _ => ⟨trivial, agrees⟩, fun _ => failure _⟩
  · rename_i completes
    rw [agrees (by simpa using completes)]
    have shown index text :
        assembler.Concludes [.refusalDelta index text,
            .completed (mapFinishReason reason) normalizer.finalUsage] ↔
          Room ledger.kinds index (.block .refusal) ∧ Settled calls (mapFinishReason reason) := by
      rw [← List.singleton_append]
      apply concludes_exactly ((pushAll_singleton assembler _).symm ▸
        opened.push_shows (show shows (.refusalDelta index text) = _ from rfl))
      intro after taken
      exact ⟨by simp, taken.concludes_completed ..⟩
    split at emitted
    · rename_i quiet
      cases emitted
      rw [quiet, opened.concludes_completed]
      exact ⟨by simp, fun settled => ⟨trivial, settled⟩, fun both => both.2⟩
    · rename_i explanation explained
      rw [explained]
      split at emitted
      · rename_i index block
        cases emitted
        refine ⟨by simp, (shown _ _).trans ?_⟩
        rw [refusalIndex, block]
        rfl
      · rename_i unused
        cases emitted
        refine ⟨by simp, (shown _ _).trans ?_⟩
        rw [refusalIndex, unused]
        rfl

section Stream

variable [FloatText] [JsonParser]

/-- One wire event before the end of the message. -/
theorem steps_pushWire (follows : Follows assembler normalizer ledger)
    (ongoing : event ≠ .messageStop) (emitted : normalizer.pushWire event = .ok (next, events)) :
    Steps assembler ledger (normalizer.reveals event) next events := by
  cases event with
  | messageStart usage content =>
    obtain ⟨-, -, result⟩ := Checked.bind_eq_ok_iff.mp emitted
    cases result
    exact steps_quiet (follows.congr rfl rfl rfl)
  | contentBlockStart index block => exact steps_pushContentBlockStart follows emitted
  | contentBlockDelta index delta => exact steps_pushContentBlockDelta follows emitted
  | contentBlockStop index => exact steps_pushContentBlockStop follows emitted
  | messageDelta reason usage stopDetails =>
    cases emitted
    have noted : Follows assembler (normalizer.noteMessageDelta reason usage stopDetails) ledger :=
      follows.congr rfl rfl rfl
    unfold messageDeltaEvents
    split
    · exact steps_quiet noted
    · exact steps_usage noted _ _
  | messageStop => exact absurd rfl ongoing
  | ping =>
    cases emitted
    exact steps_quiet (follows.congr rfl rfl rfl)
  | unknown =>
    cases emitted
    exact steps_quiet follows
  | error error => cases emitted

/-- Whatever the stream shows fits what it has shown, and its end agrees with it. -/
def StaysOrderly (normalizer : AnthropicStreamNormalizer) (ledger : Ledger) : List Payload → Prop
  | [] => True
  | .malformed _ :: _ => True
  | .event event :: rest => ∀ next items, normalizer.pushEvent (.event event) = .ok (next, items) →
      ledger.Admits (normalizer.reveals event) ∧ if event.stops then normalizer.FinishAgrees ledger
        else next.StaysOrderly (ledger.note (normalizer.reveals event)) rest

theorem pushEvent_ok (pushed : normalizer.pushEvent payload = .ok (next, items)) :
    ∃ last, normalizer.resetProgress.pushEvents payload =
      .ok (last, items.filterMap ModelStreamItem.event?) ∧ next = last.resetProgress := by
  obtain ⟨⟨last, events⟩, emitted, result⟩ := Checked.bind_eq_ok_iff.mp pushed
  cases result
  refine ⟨last, emitted.trans ?_, rfl⟩
  cases last.pendingProgress <;> simp [comp_def, ModelStreamItem.event?]

/-- From agreeing states, the rest of the stream concludes exactly if it stays orderly. -/
theorem follows_stream (follows : Follows assembler normalizer ledger) (payloads : List Payload) :
    normalizer.stream payloads ≠ [] ∧ (assembler.Concludes (normalizer.stream payloads) ↔
        normalizer.StaysOrderly ledger payloads) := by
  induction payloads generalizing assembler normalizer ledger with
  | nil =>
    obtain ⟨calls, -, -, tracks⟩ := id follows
    rw [stream, finish, tracks.live, if_neg (by simp)]
    exact ⟨by simp [failureEvents], by simp [StaysOrderly, follows.failure]⟩
  | cons payload rest ih =>
    unfold stream
    split
    · rename_i error refused
      refine ⟨by simp [failureEvents], ?_⟩
      cases payload with
      | malformed reason => simp [StaysOrderly, follows.failure]
      | event event => simp [StaysOrderly, refused, follows.failure]
    · rename_i next items pushed
      obtain ⟨last, emitted, rfl⟩ := pushEvent_ok pushed
      have reset : Follows assembler normalizer.resetProgress ledger := follows.congr rfl rfl rfl
      cases payload with
      | malformed reason => cases emitted
      | event event =>
        have orderly : normalizer.StaysOrderly ledger (.event event :: rest) ↔
            ledger.Admits (normalizer.reveals event) ∧
              if event.stops then normalizer.FinishAgrees ledger
              else last.resetProgress.StaysOrderly (ledger.note (normalizer.reveals event))
                rest := by
          simp only [StaysOrderly, pushed, Except.ok.injEq, Prod.mk.injEq, and_imp]
          exact ⟨fun each => each _ _ rfl rfl, fun holds _ _ same _ => same ▸ holds⟩
        rw [orderly]
        dsimp only
        by_cases stop : event = .messageStop
        · subst stop
          obtain ⟨ends, concludes⟩ := follows_terminal reset emitted
          rw [if_pos ends]
          exact ⟨by rintro none; simp [none] at ends, concludes⟩
        · have step := steps_pushWire reset stop emitted
          obtain ⟨goes, concludes⟩ := concludes_ongoing step.ongoing step.taken fun after taken =>
            ih (show Follows after last.resetProgress _ from taken.congr rfl rfl rfl)
          have continues : event.stops = false := by
            cases event <;> first | rfl | exact absurd rfl stop
          rw [goes, continues, if_neg (by simp), if_neg (by simp)]
          exact concludes

end Stream

end AnthropicStreamNormalizer

def emptyBlock : List Payload :=
  [.event (.contentBlockStart 0 { blockType := some "text" }), .event (.contentBlockStop 0),
    .event (.contentBlockStart 1 { blockType := some "text", text := some "hi" })]

end RustX.Anthropic
