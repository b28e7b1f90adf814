import RustX.Model.Responses

/-!
When the Responses adapter keeps the canonical stream contract. Its done events and
its early argument fragments take a canonical index and may show nothing at it, so
the contract depends on what the provider sends next; so does what the terminal
response says about the calls.
-/
namespace RustX.Responses

namespace ResponsesNormalizer

open Function ModelEventAssembler Checked ModelEvent Option

section

variable (normalizer : ResponsesNormalizer)

/-- Where the call of an output item is shown. -/
def callIndex (outputIndex : Nat) : ContentBlockIndex :=
  (normalizer.toolAssembly outputIndex).2.blockIndex

def callId (normalizer : ResponsesNormalizer) (outputIndex : Nat) : Option ToolCallId :=
  (normalizer.toolCalls outputIndex).bind ToolAssembly.callId

def pieceReveals : Piece → Option Reveal
  | .delta outputIndex contentIndex part (.ok text) =>
    if text = "" then none
    else some (.content (normalizer.partIndex outputIndex contentIndex) part.kind)
  | .value outputIndex contentIndex part text _ =>
    if (normalizer.contentBuffers (outputIndex, contentIndex)).isSome || text = "" then none
    else some (.content (normalizer.partIndex outputIndex contentIndex) part.kind)
  | .reasoningDelta outputIndex _ text =>
    if text = "" then none else some (.content (normalizer.itemIndex outputIndex) .reasoning)
  | .reasoningValue outputIndex part text =>
    if (normalizer.reasoningBuffers part).isSome || text = "" then none
    else some (.content (normalizer.itemIndex outputIndex) .reasoning)
  | .callAdded outputIndex call _ =>
    if normalizer.unstarted outputIndex then
      some (.call (normalizer.callIndex outputIndex) call.id)
    else none
  | .argumentsDelta outputIndex delta =>
    if delta.getD "" = "" then none else (normalizer.callId outputIndex).map .fragment
  | _ => none

def piecesReveal (normalizer : ResponsesNormalizer) : List Piece → List Reveal
  | [] => []
  | piece :: rest =>
    (normalizer.pieceReveals piece).toList ++ match normalizer.pushPiece piece with
      | .ok (next, _) => next.piecesReveal rest
      | .error _ => []

def itemReveals (outputIndex : Nat) (item : Json) : List Reveal :=
  if strField item "type" = some "message" then
    normalizer.piecesReveal (messagePieces outputIndex item)
  else if strField item "type" = some "reasoning" then
    normalizer.piecesReveal (reasoningPieces outputIndex item)
  else if strField item "type" = some "function_call" ∧
      normalizer.outputItemsDone outputIndex = false then
    ((normalizer.callId outputIndex).map Reveal.completion).toList
  else []

end

/-- The blocks and calls of the normalizer as an open assembler holds them: a call
that is complete belongs to a finished item. -/
structure Tracks (normalizer : ResponsesNormalizer) (kinds : List ContentKind)
    (calls : ToolCallId → Option PendingCall) : Prop where
  live : normalizer.terminalEmitted = false
  opened : ∀ {outputIndex assembly}, normalizer.toolCalls outputIndex = some assembly →
    normalizer.blocks.find (.item outputIndex) = some assembly.blockIndex
  named : ∀ {outputIndex assembly}, normalizer.toolCalls outputIndex = some assembly →
    assembly.started = assembly.callId.isSome
  called : ∀ {outputIndex assembly id}, normalizer.toolCalls outputIndex = some assembly →
    assembly.callId = some id → kinds[assembly.blockIndex]? = some .toolCall ∧
      ∃ completed, calls id = some ⟨assembly.blockIndex, completed⟩ ∧
        (completed = true → normalizer.outputItemsDone outputIndex = true)

structure Agrees (ledger : Ledger) (calls : ToolCallId → Option PendingCall) : Prop where
  ids : ∀ id, id ∈ ledger.ids ↔ calls id ≠ none
  completed : ∀ id, id ∈ ledger.completed ↔ ∃ index, calls id = some ⟨index, true⟩

def Follows (assembler : ModelEventAssembler) (normalizer : ResponsesNormalizer)
    (ledger : Ledger) : Prop :=
  ∃ calls, assembler.Open ledger.kinds calls ∧ Agrees ledger calls ∧
    normalizer.Tracks ledger.kinds calls

variable {normalizer next : ResponsesNormalizer} {calls : ToolCallId → Option PendingCall}
  {assembler : ModelEventAssembler} {ledger : Ledger}

theorem tracks_new (tools : ValidatedTools) (storageMode : StorageMode) :
    (new tools storageMode).Tracks [] fun _ => none := by
  constructor <;> simp [new]

theorem Tracks.place (tracks : normalizer.Tracks kinds calls) (index : ContentBlockIndex)
    (kind : ContentKind) : normalizer.Tracks (place kinds index kind) calls where
  live := tracks.live
  opened := tracks.opened
  named := tracks.named
  called held id := by
    obtain ⟨block, known⟩ := tracks.called held id
    exact ⟨getElem?_place_of_some block, known⟩

/-- A step that leaves the calls and moves no block. -/
structure Keeps (normalizer next : ResponsesNormalizer) : Prop where
  live : next.terminalEmitted = normalizer.terminalEmitted
  calls : next.toolCalls = normalizer.toolCalls
  done : next.outputItemsDone = normalizer.outputItemsDone
  blocks : ∀ key index, normalizer.blocks.find key = some index → next.blocks.find key = some index

theorem Tracks.keep (tracks : normalizer.Tracks kinds calls) (keeps : Keeps normalizer next) :
    next.Tracks kinds calls where
  live := keeps.live.trans tracks.live
  opened held := keeps.blocks _ _ (tracks.opened (keeps.calls ▸ held))
  named held := tracks.named (keeps.calls ▸ held)
  called held id := by
    rw [keeps.done]
    exact tracks.called (keeps.calls ▸ held) id

theorem Follows.keep (follows : Follows assembler normalizer ledger)
    (keeps : Keeps normalizer next) : Follows assembler next ledger := by
  obtain ⟨calls, opened, agrees, tracks⟩ := follows
  exact ⟨calls, opened, agrees, tracks.keep keeps⟩

theorem keeps_takeItem (normalizer : ResponsesNormalizer) (outputIndex : Nat) :
    Keeps normalizer (normalizer.takeItem outputIndex) :=
  ⟨rfl, rfl, rfl, fun _ _ found => BlockAllocator.find_allocate_of_find found _⟩

section

variable (registered : normalizer.registerContentPart outputIndex contentIndex part = .ok next)
include registered

/-- A registered part changes what is known of the part only. -/
theorem registerContentPart_ok : next = { normalizer with contentParts := next.contentParts } := by
  unfold registerContentPart at registered
  split at registered
  · cases registered
    rfl
  · cases registered

theorem keeps_register : Keeps normalizer next := by
  rw [registerContentPart_ok registered]
  exact ⟨rfl, rfl, rfl, fun _ _ found => found⟩

theorem keeps_part : Keeps normalizer (next.takePart outputIndex contentIndex) := by
  rw [registerContentPart_ok registered]
  exact ⟨rfl, rfl, rfl, fun _ _ found => BlockAllocator.find_allocate_of_find found _⟩

end

theorem Keeps.setContentBuffer (keeps : Keeps normalizer next) (outputIndex contentIndex : Nat)
    (text : String) :
    Keeps normalizer (next.setContentBuffer outputIndex contentIndex text) :=
  ⟨keeps.live, keeps.calls, keeps.done, keeps.blocks⟩

theorem Keeps.setReasoningBuffer (keeps : Keeps normalizer next) (part : ReasoningPart)
    (text : String) : Keeps normalizer (next.setReasoningBuffer part text) :=
  ⟨keeps.live, keeps.calls, keeps.done, keeps.blocks⟩

def Takes (assembler : ModelEventAssembler) (ledger : Ledger) (reveals : List Reveal)
    (next : ResponsesNormalizer) (events : List ModelEvent) : Prop :=
  Checked.Exactly (ledger.AdmitsAll reveals)
    (fun after => Follows after next (ledger.noteAll reveals)) (assembler.pushAll events)

theorem takes_quiet (follows : Follows assembler next ledger) : Takes assembler ledger [] next [] :=
  exactly_ok trivial follows

theorem Takes.append (taken : Takes assembler ledger first middle events)
    (rest : ∀ after, Follows after middle (ledger.noteAll first) →
      Takes after (ledger.noteAll first) second next more) :
    Takes assembler ledger (first ++ second) next (events ++ more) := by
  unfold Takes
  rw [pushAll_append, Ledger.admitsAll_append, Ledger.noteAll_append]
  exact taken.bind rest

theorem takes_content (follows : Follows assembler normalizer ledger)
    (keeps : Keeps normalizer next) (target : shows event = some (index, kind)) :
    Takes assembler ledger [.content index kind] next [event] := by
  obtain ⟨calls, opened, agrees, tracks⟩ := follows
  unfold Takes
  rw [pushAll_singleton]
  refine (opened.push_shows target).mono (and_iff_left trivial) ?_
  intro _ after held
  exact ⟨calls, held, ⟨agrees.ids, agrees.completed⟩, (tracks.keep keeps).place _ _⟩

theorem shows_contentDelta (part : ContentPart) (index : ContentBlockIndex) (text : String) :
    shows (contentDelta part index text) = some (index, part.kind) := by
  cases part <;> rfl

section

variable (tracks : normalizer.Tracks kinds calls)
include tracks

/-- The pending assembly of an output index is where its block is. -/
theorem Tracks.toolAssembly (outputIndex : Nat) :
    Keeps normalizer (normalizer.toolAssembly outputIndex).1 ∧
      (normalizer.toolAssembly outputIndex).1.blocks.find (.item outputIndex) =
        some (normalizer.callIndex outputIndex) ∧
      (normalizer.toolAssembly outputIndex).2.callId = normalizer.callId outputIndex ∧
      (normalizer.toolAssembly outputIndex).2.started = (normalizer.callId outputIndex).isSome := by
  unfold callIndex callId ResponsesNormalizer.toolAssembly
  cases held : normalizer.toolCalls outputIndex with
  | some assembly =>
    exact ⟨⟨rfl, rfl, rfl, fun _ _ found => found⟩, tracks.opened held, rfl, tracks.named held⟩
  | none => exact ⟨keeps_takeItem .., BlockAllocator.find_allocate .., rfl, rfl⟩

theorem Tracks.unstarted_iff (outputIndex : Nat) :
    normalizer.unstarted outputIndex = (normalizer.callId outputIndex).isNone := by
  unfold unstarted callId
  cases held : normalizer.toolCalls outputIndex with
  | none => rfl
  | some assembly =>
    rw [all_some, tracks.named held, bind_some]
    cases assembly.callId <;> rfl

theorem Tracks.callId_called {id : ToolCallId} (known : normalizer.callId outputIndex = some id) :
    kinds[normalizer.callIndex outputIndex]? = some .toolCall ∧
      ∃ completed, calls id = some ⟨normalizer.callIndex outputIndex, completed⟩ ∧
        (completed = true → normalizer.outputItemsDone outputIndex = true) := by
  obtain ⟨assembly, held, named⟩ := bind_eq_some_iff.mp known
  have same : normalizer.callIndex outputIndex = assembly.blockIndex := by
    simp only [callIndex, ResponsesNormalizer.toolAssembly, held]
  rw [same]
  exact tracks.called held named

/-- An assembly is written back: the calls known before stay, and its own is known. -/
theorem Tracks.setAssembly {others : List ContentKind} {assembly : ToolAssembly}
    (placed : normalizer.blocks.find (.item outputIndex) = some assembly.blockIndex)
    (named : assembly.started = assembly.callId.isSome)
    (own : ∀ id, assembly.callId = some id → others[assembly.blockIndex]? = some .toolCall ∧
      ∃ completed, pending id = some ⟨assembly.blockIndex, completed⟩ ∧
        (completed = true → normalizer.outputItemsDone outputIndex = true))
    (kept : ∀ {index : ContentBlockIndex} {kind : ContentKind},
      kinds[index]? = some kind → others[index]? = some kind)
    (older : ∀ id call, calls id = some call → pending id = some call) :
    (normalizer.setAssembly outputIndex assembly).Tracks others pending := by
  have before {other : Nat} {found : ToolAssembly}
      (held : (normalizer.setAssembly outputIndex assembly).toolCalls other = some found) :
      (other = outputIndex ∧ found = assembly) ∨ normalizer.toolCalls other = some found := by
    simp only [ResponsesNormalizer.setAssembly] at held
    by_cases same : other = outputIndex
    · subst same
      rw [update_self, some.injEq] at held
      exact .inl ⟨rfl, held.symm⟩
    · rw [update_of_ne same] at held
      exact .inr held
  constructor
  · exact tracks.live
  · intro other found held
    rcases before held with ⟨rfl, rfl⟩ | was
    · exact placed
    · exact tracks.opened was
  · intro other found held
    rcases before held with ⟨rfl, rfl⟩ | was
    · exact named
    · exact tracks.named was
  · intro other found id held name
    rcases before held with ⟨rfl, rfl⟩ | was
    · exact own id name
    · obtain ⟨block, completed, known, done⟩ := tracks.called was name
      exact ⟨kept block, completed, older _ _ known, done⟩

/-- Arguments are buffered or appended: the assembly keeps its place and its call. -/
theorem Tracks.setArguments {outputIndex : Nat} (arguments : String) :
    ((normalizer.toolAssembly outputIndex).1.setAssembly outputIndex
      ((normalizer.toolAssembly outputIndex).2.setArguments arguments)).Tracks kinds calls := by
  obtain ⟨keeps, placed, sameId, started⟩ := tracks.toolAssembly outputIndex
  apply (tracks.keep keeps).setAssembly
  · exact placed
  · exact started.trans (congrArg isSome sameId).symm
  · intro id name
    rw [keeps.done]
    exact tracks.callId_called (sameId.symm.trans name)
  · exact id
  · exact fun _ _ known => known

end

theorem keeps_noteProgress (normalizer : ResponsesNormalizer) (noted : Bool) :
    Keeps normalizer (normalizer.noteProgress noted) := by
  unfold noteProgress
  split <;> exact ⟨rfl, rfl, rfl, fun _ _ found => found⟩

theorem callId_noteProgress (normalizer : ResponsesNormalizer) (noted : Bool) (outputIndex : Nat) :
    (normalizer.noteProgress noted).callId outputIndex = normalizer.callId outputIndex := by
  unfold callId
  rw [(keeps_noteProgress normalizer noted).calls]

section

variable (follows : Follows assembler normalizer ledger)
include follows

theorem takes_pushContentDelta
    (emitted : normalizer.pushContentDelta outputIndex contentIndex part text = .ok (next, events)) :
    Takes assembler ledger
      (normalizer.pieceReveals (.delta outputIndex contentIndex part text)).toList next events := by
  obtain ⟨registered, known, reading⟩ := bind_eq_ok_iff.mp emitted
  obtain ⟨shown, readable, result⟩ := bind_eq_ok_iff.mp reading
  have keeps := keeps_part known
  subst readable
  dsimp only [pieceReveals]
  split at result
  · rename_i empty
    cases result
    rw [if_pos empty]
    exact takes_quiet (follows.keep keeps)
  · rename_i visible
    cases result
    rw [if_neg visible]
    exact takes_content follows (keeps.setContentBuffer ..) (shows_contentDelta ..)

theorem takes_pushContentValue
    (emitted : normalizer.pushContentValue outputIndex contentIndex part text source =
      .ok (next, events)) :
    Takes assembler ledger
      (normalizer.pieceReveals (.value outputIndex contentIndex part text source)).toList
      next events := by
  obtain ⟨-, -, emitted⟩ := bind_eq_ok_iff.mp emitted
  obtain ⟨registered, known, emitted⟩ := bind_eq_ok_iff.mp emitted
  have keeps := keeps_part known
  dsimp only [pieceReveals]
  split at emitted
  · rename_i streamed buffered
    obtain ⟨-, -, emitted⟩ := bind_eq_ok_iff.mp emitted
    cases emitted
    rw [buffered]
    exact takes_quiet (follows.keep keeps)
  · rename_i unseen
    cases emitted
    rw [unseen]
    by_cases empty : text = ""
    · simp only [empty, decide_true, Bool.or_true, if_true]
      exact takes_quiet (follows.keep (keeps.setContentBuffer ..))
    · simp only [empty, isSome_none, decide_false, Bool.or_self, Bool.false_eq_true, if_false]
      exact takes_content follows (keeps.setContentBuffer ..) (shows_contentDelta ..)

theorem takes_pushReasoningDelta (outputIndex : Nat) (part : ReasoningPart) (text : String) :
    Takes assembler ledger (normalizer.pieceReveals (.reasoningDelta outputIndex part text)).toList
      (normalizer.pushReasoningDelta outputIndex part text).1
      (normalizer.pushReasoningDelta outputIndex part text).2 := by
  have keeps := keeps_takeItem normalizer outputIndex
  dsimp only [pieceReveals, pushReasoningDelta]
  split
  · exact takes_quiet follows
  · exact takes_content follows (keeps.setReasoningBuffer ..) rfl

theorem takes_pushReasoningValue
    (emitted : normalizer.pushReasoningValue outputIndex part text = .ok (next, events)) :
    Takes assembler ledger (normalizer.pieceReveals (.reasoningValue outputIndex part text)).toList
      next events := by
  have keeps := keeps_takeItem normalizer outputIndex
  unfold pushReasoningValue at emitted
  dsimp only [pieceReveals]
  split at emitted
  · rename_i streamed buffered
    obtain ⟨-, -, emitted⟩ := bind_eq_ok_iff.mp emitted
    cases emitted
    rw [buffered]
    exact takes_quiet follows
  · rename_i unseen
    cases emitted
    rw [unseen]
    by_cases empty : text = ""
    · simp only [empty, decide_true, Bool.or_true, if_true]
      exact takes_quiet (follows.keep (keeps.setReasoningBuffer ..))
    · simp only [empty, isSome_none, decide_false, Bool.or_self, Bool.false_eq_true, if_false]
      exact takes_content follows (keeps.setReasoningBuffer ..) rfl

/-- A call gets its identity: it starts at its block, with what was buffered. -/
theorem takes_pushCallAdded
    (emitted : normalizer.pushCallAdded outputIndex call arguments = .ok (next, events)) :
    Takes assembler ledger
      (normalizer.pieceReveals (.callAdded outputIndex call arguments)).toList next events := by
  obtain ⟨calls, opened, agrees, tracks⟩ := follows
  obtain ⟨keeps, placed, sameId, started⟩ := tracks.toolAssembly outputIndex
  dsimp only [pieceReveals]
  rw [tracks.unstarted_iff]
  unfold pushCallAdded at emitted
  dsimp only at emitted
  obtain ⟨-, -, emitted⟩ := bind_eq_ok_iff.mp emitted
  rw [started] at emitted
  cases known : normalizer.callId outputIndex with
  | some id =>
    rw [known, isSome_some, if_pos rfl] at emitted
    cases emitted
    exact takes_quiet ⟨calls, opened, agrees, tracks.setArguments _⟩
  | none =>
    rw [known, if_neg (by simp)] at emitted
    obtain ⟨buffered, -, emitted⟩ := bind_eq_ok_iff.mp emitted
    cases emitted
    unfold Takes
    have fits : ledger.AdmitsAll [.call (normalizer.callIndex outputIndex) call.id] ↔
        normalizer.callIndex outputIndex = ledger.kinds.length ∧ calls call.id = none := by
      simp [Ledger.AdmitsAll, Ledger.Fits, agrees.ids]
    refine Checked.Exactly.mono ?_ fits fun _ _ keeps => keeps
    apply (opened.push_toolCallStarted _ call).andThen
    rintro ⟨last, fresh⟩ after taken
    have follows : Follows after ((normalizer.toolAssembly outputIndex).1.setAssembly outputIndex
        ((normalizer.toolAssembly outputIndex).2.start call buffered))
        (ledger.noteAll [.call (normalizer.callIndex outputIndex) call.id]) := by
      refine ⟨_, taken, ⟨?_, ?_⟩, ?_⟩
      · intro id
        by_cases same : id = call.id
        · subst same
          simp [Ledger.noteAll, Ledger.note]
        · simp [Ledger.noteAll, Ledger.note, same, agrees.ids]
      · intro id
        refine (agrees.completed id).trans ?_
        by_cases same : id = call.id
        · subst same
          simp [fresh]
        · simp [same]
      · apply (tracks.keep keeps).setAssembly
        · exact placed
        · rfl
        · rintro id ⟨rfl⟩
          refine ⟨?_, false, update_self .., by simp⟩
          have place : ((normalizer.toolAssembly outputIndex).2.start call buffered).blockIndex =
            ledger.kinds.length := last
          rw [place]
          exact List.getElem?_concat_length
        · intro index kind present
          exact (List.getElem?_append_left (List.getElem?_eq_some_iff.mp present).1).trans present
        · intro id older held
          rw [update_of_ne, held]
          rintro rfl
          rw [fresh] at held
          cases held
    split
    · exact ⟨after, rfl, follows⟩
    · obtain ⟨final, pushed, rfl⟩ := (taken.push_toolCallArgumentsDelta
        _ _ buffered).succeeds (update_self ..)
      exact ⟨_, (pushAll_singleton ..).trans pushed, follows⟩

/-- Fragments of a started call pass on, unless the call is complete. -/
theorem takes_pushArgumentsDelta (outputIndex : Nat) (delta : Option String) :
    Takes assembler ledger (normalizer.pieceReveals (.argumentsDelta outputIndex delta)).toList
      (normalizer.pushArgumentsDelta outputIndex delta).1
      (normalizer.pushArgumentsDelta outputIndex delta).2 := by
  dsimp only [pieceReveals, pushArgumentsDelta]
  generalize noting : normalizer.noteProgress _ = noted
  have keeps : Keeps normalizer noted := noting ▸ keeps_noteProgress ..
  have sameId : normalizer.callId outputIndex = noted.callId outputIndex := by
    rw [← noting, callId_noteProgress]
  rw [sameId]
  obtain ⟨calls, opened, agrees, tracks⟩ := follows.keep keeps
  obtain ⟨-, -, callId, started⟩ := tracks.toolAssembly outputIndex
  have tracked := @Tracks.setArguments _ _ _ tracks outputIndex
    ((noted.toolAssembly outputIndex).2.arguments ++ delta.getD "")
  have quiet := takes_quiet ⟨calls, opened, agrees, tracked⟩
  rw [started, callId]
  by_cases empty : delta.getD "" = ""
  · simpa [empty] using quiet
  cases known : noted.callId outputIndex with
  | none => simpa [empty] using quiet
  | some id =>
    obtain ⟨-, completed, pending, -⟩ := tracks.callId_called known
    have fits : ledger.AdmitsAll [.fragment id] ↔
        calls id = some ⟨noted.callIndex outputIndex, false⟩ := by
      simp only [Ledger.AdmitsAll, Ledger.Fits, and_true, agrees.completed, pending,
        some.injEq, PendingCall.mk.injEq, exists_eq_left', true_and]
      cases completed <;> simp
    simp only [empty, if_false, isSome_some, ne_eq, not_false_eq_true, decide_true,
      Bool.and_self, if_true, map_some, toList_some, getD_some]
    unfold Takes
    rw [pushAll_singleton]
    refine (opened.push_toolCallArgumentsDelta _ id _).mono fits ?_
    rintro - _ rfl
    exact ⟨calls, opened, agrees, tracked⟩

theorem takes_pushArgumentsDone
    (emitted : normalizer.pushArgumentsDone outputIndex arguments = .ok (next, events)) :
    Takes assembler ledger [] next events := by
  unfold pushArgumentsDone at emitted
  dsimp only at emitted
  generalize noting : normalizer.noteProgress _ = noted at emitted
  have keeps : Keeps normalizer noted := noting ▸ keeps_noteProgress ..
  obtain ⟨calls, opened, agrees, tracks⟩ := follows.keep keeps
  split at emitted
  · obtain ⟨merged, -, emitted⟩ := bind_eq_ok_iff.mp emitted
    cases emitted
    exact takes_quiet ⟨calls, opened, agrees, tracks.setArguments _⟩
  · cases emitted
    exact takes_quiet ⟨calls, opened, agrees, tracks.setArguments _⟩

theorem takes_pushPiece (emitted : normalizer.pushPiece piece = .ok (next, events)) :
    Takes assembler ledger (normalizer.pieceReveals piece).toList next events := by
  cases piece with
  | register outputIndex contentIndex part =>
    obtain ⟨registered, known, emitted⟩ := bind_eq_ok_iff.mp emitted
    cases emitted
    exact takes_quiet (follows.keep (keeps_register known))
  | delta => exact takes_pushContentDelta follows emitted
  | value => exact takes_pushContentValue follows emitted
  | reasoningDelta outputIndex part text =>
    obtain ⟨rfl, rfl⟩ := Prod.ext_iff.mp (Except.ok.inj emitted)
    exact takes_pushReasoningDelta follows outputIndex part text
  | reasoningValue => exact takes_pushReasoningValue follows emitted
  | callAdded => exact takes_pushCallAdded follows emitted
  | argumentsDelta outputIndex delta =>
    obtain ⟨rfl, rfl⟩ := Prod.ext_iff.mp (Except.ok.inj emitted)
    exact takes_pushArgumentsDelta follows outputIndex delta
  | argumentsDone => exact takes_pushArgumentsDone follows emitted
  | refused => cases emitted

theorem takes_pushPieces (emitted : normalizer.pushPieces pieces = .ok (next, events)) :
    Takes assembler ledger (normalizer.piecesReveal pieces) next events := by
  induction pieces generalizing assembler normalizer ledger events with
  | nil =>
    cases emitted
    exact takes_quiet follows
  | cons piece rest ih =>
    obtain ⟨⟨middle, first⟩, pushed, emitted⟩ := bind_eq_ok_iff.mp emitted
    obtain ⟨⟨last, more⟩, later, emitted⟩ := bind_eq_ok_iff.mp emitted
    cases emitted
    rw [piecesReveal, pushed]
    exact (takes_pushPiece follows pushed).append fun after taken => ih taken later

end

theorem ongoing_contentDelta (part : ContentPart) (index : ContentBlockIndex) (text : String) :
    (contentDelta part index text).isTerminal = false := by
  cases part <;> rfl

theorem pushPiece_ongoing (emitted : normalizer.pushPiece piece = .ok (next, events)) :
    ∀ event ∈ events, event.isTerminal = false := by
  cases piece with
  | register =>
    obtain ⟨_, -, emitted⟩ := bind_eq_ok_iff.mp emitted
    cases emitted
    simp
  | delta =>
    obtain ⟨_, -, emitted⟩ := bind_eq_ok_iff.mp emitted
    obtain ⟨_, -, emitted⟩ := bind_eq_ok_iff.mp emitted
    split at emitted <;> cases emitted <;> simp [ongoing_contentDelta]
  | value =>
    obtain ⟨-, -, emitted⟩ := bind_eq_ok_iff.mp emitted
    obtain ⟨_, -, emitted⟩ := bind_eq_ok_iff.mp emitted
    split at emitted
    · obtain ⟨-, -, emitted⟩ := bind_eq_ok_iff.mp emitted
      cases emitted
      simp
    · cases emitted
      split <;> simp [ongoing_contentDelta]
  | reasoningDelta outputIndex part text =>
    obtain ⟨-, rfl⟩ := Prod.ext_iff.mp (Except.ok.inj emitted)
    unfold pushReasoningDelta
    split <;> simp [isTerminal]
  | reasoningValue outputIndex part text =>
    simp only [pushPiece, pushReasoningValue] at emitted
    split at emitted
    · obtain ⟨-, -, emitted⟩ := bind_eq_ok_iff.mp emitted
      cases emitted
      simp
    · cases emitted
      split <;> simp [isTerminal]
  | callAdded =>
    unfold pushPiece pushCallAdded at emitted
    dsimp only at emitted
    obtain ⟨-, -, emitted⟩ := bind_eq_ok_iff.mp emitted
    split at emitted
    · cases emitted
      simp
    · obtain ⟨_, -, emitted⟩ := bind_eq_ok_iff.mp emitted
      cases emitted
      split <;> simp [isTerminal]
  | argumentsDelta outputIndex delta =>
    obtain ⟨-, rfl⟩ := Prod.ext_iff.mp (Except.ok.inj emitted)
    unfold pushArgumentsDelta
    dsimp only
    split <;> simp [isTerminal]
  | argumentsDone =>
    simp only [pushPiece, pushArgumentsDone] at emitted
    split at emitted
    · obtain ⟨_, -, emitted⟩ := bind_eq_ok_iff.mp emitted
      cases emitted
      simp
    · cases emitted
      simp
  | refused => cases emitted

theorem pushPieces_ongoing (emitted : normalizer.pushPieces pieces = .ok (next, events)) :
    ∀ event ∈ events, event.isTerminal = false := by
  induction pieces generalizing normalizer events with
  | nil =>
    cases emitted
    simp
  | cons piece rest ih =>
    obtain ⟨⟨middle, first⟩, pushed, emitted⟩ := bind_eq_ok_iff.mp emitted
    obtain ⟨⟨last, more⟩, later, emitted⟩ := bind_eq_ok_iff.mp emitted
    cases emitted
    intro event member
    rcases List.mem_append.mp member with first | second
    · exact pushPiece_ongoing pushed event first
    · exact ih later event second

theorem Tracks.markDone (tracks : normalizer.Tracks kinds calls) (outputIndex : Nat) :
    (normalizer.markDone outputIndex).Tracks kinds calls where
  live := tracks.live
  opened := tracks.opened
  named := tracks.named
  called {other _ _} held id := by
    obtain ⟨block, completed, known, done⟩ := tracks.called held id
    refine ⟨block, completed, known, fun complete => ?_⟩
    by_cases same : other = outputIndex
    · subst same
      exact update_self ..
    · exact (update_of_ne same ..).trans (done complete)

theorem Follows.markDone (follows : Follows assembler normalizer ledger) (outputIndex : Nat) :
    Follows assembler (normalizer.markDone outputIndex) ledger := by
  obtain ⟨calls, opened, agrees, tracks⟩ := follows
  exact ⟨calls, opened, agrees, tracks.markDone outputIndex⟩

/-- The call of an item that finishes for the first time completes. -/
theorem Tracks.complete (tracks : normalizer.Tracks kinds calls) {id : ToolCallId}
    (known : normalizer.callId outputIndex = some id) :
    (normalizer.markDone outputIndex).Tracks kinds
      (update calls id (some ⟨normalizer.callIndex outputIndex, true⟩)) where
  live := tracks.live
  opened := tracks.opened
  named := tracks.named
  called {other assembly name} held named := by
    obtain ⟨block, completed, pending, done⟩ := (tracks.markDone outputIndex).called held named
    by_cases same : name = id
    · subst same
      obtain ⟨-, _, own, -⟩ := tracks.callId_called known
      rw [own, some.injEq, PendingCall.mk.injEq] at pending
      have placed := tracks.opened held
      rw [← pending.1] at placed
      obtain ⟨first, first_held, -⟩ := bind_eq_some_iff.mp known
      have own_place := tracks.opened first_held
      have same : normalizer.callIndex outputIndex = first.blockIndex := by
        simp only [callIndex, ResponsesNormalizer.toolAssembly, first_held]
      rw [← same] at own_place
      obtain ⟨rfl⟩ := BlockAllocator.find_injective placed own_place
      refine ⟨block, true, ?_, fun _ => update_self ..⟩
      rw [update_self, pending.1]
    · exact ⟨block, completed, (update_of_ne same ..).trans pending, done⟩

theorem takes_finishPieces (follows : Follows assembler normalizer ledger) (emitted : (do
      let (last, events) ← normalizer.pushPieces pieces
      .ok (last.markDone outputIndex, events)) = (.ok (next, events) : Emitted)) :
    Takes assembler ledger (normalizer.piecesReveal pieces) next events ∧
      ∀ event ∈ events, event.isTerminal = false := by
  obtain ⟨⟨last, more⟩, pushed, result⟩ := bind_eq_ok_iff.mp emitted
  cases result
  refine ⟨(takes_pushPieces follows pushed).mono Iff.rfl ?_, pushPieces_ongoing pushed⟩
  intro _ after taken
  exact taken.markDone outputIndex

section Items

variable [JsonParser]

theorem completeFunctionCall_ok
    (emitted : normalizer.completeFunctionCall outputIndex item = .ok events) :
    ∃ call, normalizer.callId outputIndex = some call.id ∧
      events = [.toolCallCompleted (normalizer.callIndex outputIndex) call] := by
  unfold completeFunctionCall at emitted
  unfold callId callIndex ResponsesNormalizer.toolAssembly
  split at emitted
  · cases emitted
  · rename_i assembly held
    obtain ⟨call, accepted, result⟩ := bind_eq_ok_iff.mp emitted
    cases result
    rw [held]
    exact ⟨call, acceptToolCall_id accepted, rfl⟩

theorem takes_completeFunctionCall (follows : Follows assembler normalizer ledger)
    (first : normalizer.outputItemsDone outputIndex = false)
    (emitted : normalizer.completeFunctionCall outputIndex item = .ok events) :
    Takes assembler ledger ((normalizer.callId outputIndex).map Reveal.completion).toList
      (normalizer.markDone outputIndex) events := by
  obtain ⟨calls, opened, agrees, tracks⟩ := follows
  obtain ⟨call, known, rfl⟩ := completeFunctionCall_ok emitted
  obtain ⟨block, completed, pending, done⟩ := tracks.callId_called known
  have running : calls call.id = some ⟨normalizer.callIndex outputIndex, false⟩ := by
    cases completed with
    | false => exact pending
    | true =>
      rw [first] at done
      cases done rfl
  rw [known]
  unfold Takes
  rw [pushAll_singleton]
  refine (opened.push_toolCallCompleted call block).mono ?_ ?_
  · simp [running, Ledger.AdmitsAll, Ledger.Fits]
  intro _ after held
  refine ⟨_, held, ⟨?_, ?_⟩, tracks.complete known⟩
  · intro id
    refine (agrees.ids id).trans ?_
    by_cases same : id = call.id
    · subst same
      simp [running]
    · simp [same]
  · intro id
    by_cases same : id = call.id
    · subst same
      simp [Ledger.noteAll, Ledger.note]
    · simp [Ledger.noteAll, Ledger.note, same, agrees.completed]

theorem takes_pushOutputItemDone (follows : Follows assembler normalizer ledger)
    (emitted : normalizer.pushOutputItemDone outputIndex item = .ok (next, events)) :
    Takes assembler ledger (normalizer.itemReveals outputIndex item) next events ∧
      ∀ event ∈ events, event.isTerminal = false := by
  obtain ⟨itemType, typed, emitted⟩ := bind_eq_ok_iff.mp emitted
  have known : strField item "type" = some itemType := by
    unfold requiredStrField at typed
    split at typed
    · rename_i found
      cases typed
      exact found
    · cases typed
  unfold itemReveals
  rw [known]
  simp only [some.injEq]
  by_cases message : itemType = "message"
  · rw [if_pos message] at emitted ⊢
    exact takes_finishPieces follows emitted
  rw [if_neg message] at emitted ⊢
  by_cases reasoning : itemType = "reasoning"
  · rw [if_pos reasoning] at emitted ⊢
    exact takes_finishPieces follows emitted
  rw [if_neg reasoning] at emitted ⊢
  by_cases called : itemType = "function_call"
  · rw [if_pos called] at emitted
    split at emitted
    · rename_i done
      cases emitted
      rw [if_neg (by simp [done])]
      exact ⟨takes_quiet follows, by simp⟩
    · rename_i unfinished
      have first : normalizer.outputItemsDone outputIndex = false := by simpa using unfinished
      obtain ⟨more, completed, result⟩ := bind_eq_ok_iff.mp emitted
      cases result
      rw [if_pos ⟨called, first⟩]
      refine ⟨takes_completeFunctionCall follows first completed, ?_⟩
      obtain ⟨call, -, rfl⟩ := completeFunctionCall_ok completed
      simp [isTerminal]
  rw [if_neg called] at emitted
  rw [if_neg fun both => called both.1]
  split at emitted
  · cases emitted
    exact ⟨takes_quiet (follows.markDone outputIndex), by simp⟩
  · split at emitted <;> cases emitted

/-- What the repeated output of the terminal response makes visible. -/
def outputReveals (normalizer : ResponsesNormalizer) : List (Json × Nat) → List Reveal
  | [] => []
  | (item, outputIndex) :: rest =>
    normalizer.itemReveals outputIndex item ++
      match normalizer.pushOutputItemDone outputIndex item with
      | .ok (next, _) => next.outputReveals rest
      | .error _ => []

theorem takes_pushOutput (follows : Follows assembler normalizer ledger)
    (emitted : normalizer.pushOutput output = .ok (next, events)) :
    Takes assembler ledger (normalizer.outputReveals output) next events := by
  induction output generalizing assembler normalizer ledger events with
  | nil =>
    cases emitted
    exact takes_quiet follows
  | cons entry rest ih =>
    obtain ⟨-, -, emitted⟩ := bind_eq_ok_iff.mp emitted
    obtain ⟨⟨middle, first⟩, pushed, emitted⟩ := bind_eq_ok_iff.mp emitted
    obtain ⟨⟨last, more⟩, later, emitted⟩ := bind_eq_ok_iff.mp emitted
    cases emitted
    rw [outputReveals, pushed]
    exact (takes_pushOutputItemDone follows pushed).1.append fun after taken => ih taken later

/-- What the terminal response makes visible: content that was not streamed, and
the continuation state at the next index. -/
def responseReveals (normalizer : ResponsesNormalizer) (response : Json) : List Reveal :=
  match normalizer.pushOutput (arrayField response "output").zipIdx with
  | .ok (last, _) =>
    normalizer.outputReveals (arrayField response "output").zipIdx ++
      [.content last.blocks.next .reasoning]
  | .error _ => []

/-- What an event makes visible, read off the wire. -/
def reveals (normalizer : ResponsesNormalizer) (event : Json) : List Reveal :=
  match eventKind ((strField event "type").getD "") with
  | .outputItemDone =>
    match u32Field event "output_index", event.get "item" with
    | .ok outputIndex, some item => normalizer.itemReveals outputIndex item
    | _, _ => []
  | .terminal _ =>
    match event.get "response" with
    | some response =>
      (normalizer.noteResponse response ((strField response "id").getD "")).responseReveals response
    | none => []
  | kind =>
    match readPieces normalizer.tools event kind with
    | .ok pieces => normalizer.piecesReveal pieces
    | .error _ => []

end Items

/-- At the end of a response every call is complete, and the finish reason says
that there are calls exactly if there are. -/
def FinishAgrees (ledger : Ledger) (event : Json) (incomplete : Bool) : Prop :=
  ∀ response reason, event.get "response" = some response →
    terminalFinishReason response incomplete = .ok reason →
    (∀ id ∈ ledger.ids, id ∈ ledger.completed) ∧ (reason = .toolCalls ↔ ledger.ids ≠ [])

theorem Agrees.settled_iff (agrees : Agrees ledger calls) (reason : ModelFinishReason) :
    Settled calls reason ↔
      (∀ id ∈ ledger.ids, id ∈ ledger.completed) ∧ (reason = .toolCalls ↔ ledger.ids ≠ []) := by
  have some_call : (∃ id, calls id ≠ none) ↔ ledger.ids ≠ [] := by
    simp only [← agrees.ids]
    exact ⟨fun ⟨_, member⟩ => List.ne_nil_of_mem member, List.exists_mem_of_ne_nil _⟩
  rw [← some_call]
  constructor
  · rintro ⟨complete, settled⟩
    refine ⟨?_, settled⟩
    intro id member
    obtain ⟨⟨index, done⟩, known⟩ := ne_none_iff_exists'.mp ((agrees.ids id).mp member)
    cases complete id _ known
    exact (agrees.completed id).mpr ⟨index, known⟩
  · rintro ⟨complete, settled⟩
    refine ⟨?_, settled⟩
    intro id call known
    obtain ⟨index, done⟩ :=
      (agrees.completed id).mp (complete id ((agrees.ids id).mpr (by simp [known])))
    rw [known, some.injEq] at done
    rw [done]

section Stream

variable [JsonParser]

/-- The end of a response: what it repeats is taken, the continuation state finds
its place, and the calls are settled. -/
theorem follows_finishTerminal (follows : Follows assembler normalizer ledger)
    (kind : eventKind ((strField event "type").getD "") = .terminal incomplete)
    (emitted : normalizer.finishTerminal event incomplete = .ok (next, events)) :
    events.any isTerminal = true ∧ (assembler.Concludes events ↔
      ledger.AdmitsAll (normalizer.reveals event) ∧
        FinishAgrees (ledger.noteAll (normalizer.reveals event)) event incomplete) := by
  unfold finishTerminal at emitted
  split at emitted
  · cases emitted
  rename_i response held
  split at emitted
  · cases emitted
  rename_i responseId identified
  obtain ⟨⟨last, repeated⟩, pushed, emitted⟩ := bind_eq_ok_iff.mp emitted
  obtain ⟨reason, finished, emitted⟩ := bind_eq_ok_iff.mp emitted
  cases emitted
  have noted : Follows assembler (normalizer.noteResponse response responseId) ledger :=
    follows.keep ⟨rfl, rfl, rfl, fun _ _ found => found⟩
  have reveals : normalizer.reveals event =
      (normalizer.noteResponse response responseId).outputReveals
        (arrayField response "output").zipIdx ++ [.content last.blocks.next .reasoning] := by
    simp only [ResponsesNormalizer.reveals, kind, held, identified, getD_some,
      responseReveals, pushed]
  have agrees noted : FinishAgrees noted event incomplete ↔
      (∀ id ∈ noted.ids, id ∈ noted.completed) ∧ (reason = .toolCalls ↔ noted.ids ≠ []) := by
    constructor
    · intro each
      exact each response reason held finished
    · rintro settled other again present ends
      rw [held, some.injEq] at present
      subst present
      rw [finished, Except.ok.injEq] at ends
      exact ends ▸ settled
  refine ⟨by simp [isTerminal], ?_⟩
  have placed : Takes assembler ledger (normalizer.reveals event) last
      (repeated ++ [.continuationState last.blocks.next
        (last.continuation response responseId)]) := by
    rw [reveals]
    refine (takes_pushOutput noted pushed).append fun after taken => ?_
    exact takes_content taken ⟨rfl, rfl, rfl, fun _ _ found => found⟩ rfl
  rw [show ∀ first state done, first ++ [state, done] = (first ++ [state]) ++ [done] by simp]
  apply concludes_exactly placed
  rintro after ⟨calls, opened, settles, -⟩
  rw [agrees, ← settles.settled_iff]
  exact ⟨by simp, opened.concludes_completed ..⟩

def ends (event : Json) : Bool :=
  match eventKind ((strField event "type").getD "") with
  | .terminal _ | .failed => true
  | _ => false

/-- One event before the end of the response. -/
theorem takes_pushEvents (follows : Follows assembler normalizer ledger)
    (ongoing : ends event = false) (emitted : normalizer.pushEvents event = .ok (next, events)) :
    Takes assembler ledger (normalizer.reveals event) next events ∧
      ∀ event ∈ events, event.isTerminal = false := by
  unfold ends at ongoing
  unfold pushEvents at emitted
  unfold reveals
  cases kind : eventKind ((strField event "type").getD "") with
  | terminal => simp [kind] at ongoing
  | failed => simp [kind] at ongoing
  | lifecycle =>
    simp only [kind] at emitted ⊢
    cases emitted
    exact ⟨takes_quiet (follows.keep ⟨rfl, rfl, rfl, fun _ _ found => found⟩), by simp⟩
  | outputItemDone =>
    simp only [kind] at emitted ⊢
    obtain ⟨outputIndex, indexed, emitted⟩ := bind_eq_ok_iff.mp emitted
    rw [indexed]
    split at emitted
    · cases emitted
    · rename_i item held
      rw [held]
      exact takes_pushOutputItemDone follows emitted
  | error => simp [kind] at emitted
  | _ =>
    simp only [kind] at emitted ⊢
    obtain ⟨pieces, read, emitted⟩ := bind_eq_ok_iff.mp emitted
    rw [read]
    exact ⟨takes_pushPieces follows emitted, pushPieces_ongoing emitted⟩

/-- Whatever the stream shows fits what it has shown, and its end agrees with it. -/
def StaysOrderly (normalizer : ResponsesNormalizer) (ledger : Ledger) : List Json → Prop
  | [] => True
  | event :: rest => ∀ next items, normalizer.push event = .ok (next, items) →
      match eventKind ((strField event "type").getD "") with
      | .failed => True
      | .terminal incomplete =>
        ledger.AdmitsAll (normalizer.resetProgress.reveals event) ∧
          FinishAgrees (ledger.noteAll (normalizer.resetProgress.reveals event)) event incomplete
      | _ =>
        ledger.AdmitsAll (normalizer.resetProgress.reveals event) ∧
          next.StaysOrderly (ledger.noteAll (normalizer.resetProgress.reveals event)) rest

theorem push_ok (pushed : normalizer.push event = .ok (next, items)) :
    ∃ last, normalizer.resetProgress.pushEvents event =
      .ok (last, items.filterMap ModelStreamItem.event?) ∧ next = last.resetProgress := by
  obtain ⟨⟨last, events⟩, emitted, result⟩ := bind_eq_ok_iff.mp pushed
  cases result
  refine ⟨last, emitted.trans ?_, rfl⟩
  cases last.pendingProgress <;> simp [comp_def, ModelStreamItem.event?]

theorem staysOrderly_ongoing (pushed : normalizer.push event = .ok (next, items))
    (ongoing : ends event = false) :
    normalizer.StaysOrderly ledger (event :: rest) ↔
      ledger.AdmitsAll (normalizer.resetProgress.reveals event) ∧
        next.StaysOrderly (ledger.noteAll (normalizer.resetProgress.reveals event)) rest := by
  simp only [StaysOrderly, pushed, Except.ok.injEq, Prod.mk.injEq, and_imp]
  unfold ends at ongoing
  cases kind : eventKind ((strField event "type").getD "") with
  | terminal => simp [kind] at ongoing
  | failed => simp [kind] at ongoing
  | _ => exact ⟨fun each => each _ _ rfl rfl, fun holds _ _ same _ => same ▸ holds⟩

theorem staysOrderly_ends (follows : Follows assembler normalizer ledger)
    (pushed : normalizer.push event = .ok (next, items)) (ending : ends event = true) :
    (items.filterMap ModelStreamItem.event?).any isTerminal = true ∧
      (assembler.Concludes (items.filterMap ModelStreamItem.event?) ↔
        normalizer.StaysOrderly ledger (event :: rest)) := by
  simp only [StaysOrderly, pushed, Except.ok.injEq, Prod.mk.injEq, and_imp]
  obtain ⟨last, emitted, rfl⟩ := push_ok pushed
  have reset : Follows assembler normalizer.resetProgress ledger :=
    follows.keep ⟨rfl, rfl, rfl, fun _ _ found => found⟩
  unfold ends at ending
  unfold pushEvents at emitted
  cases kind : eventKind ((strField event "type").getD "") with
  | terminal incomplete =>
    simp only [kind] at emitted
    obtain ⟨terminal, concludes⟩ := follows_finishTerminal reset kind emitted
    refine ⟨terminal, concludes.trans ?_⟩
    exact ⟨fun holds _ _ _ _ => holds, fun each => each _ _ rfl rfl⟩
  | failed =>
    simp only [kind] at emitted
    have same : [.failed (responsesStreamError event)] =
        items.filterMap ModelStreamItem.event? := (Prod.ext_iff.mp (Except.ok.inj emitted)).2
    obtain ⟨calls, opened, -, -⟩ := follows
    rw [← same]
    exact ⟨rfl, fun _ _ _ _ _ => trivial, fun _ => opened.concludes_failed _⟩
  | _ => simp [kind] at ending

/-- From agreeing states, the rest of the stream concludes exactly if it stays orderly. -/
theorem follows_stream (follows : Follows assembler normalizer ledger) (events : List Json) :
    normalizer.stream events ≠ [] ∧
      (assembler.Concludes (normalizer.stream events) ↔ normalizer.StaysOrderly ledger events) := by
  induction events generalizing assembler normalizer ledger with
  | nil =>
    obtain ⟨calls, opened, -, tracks⟩ := follows
    rw [stream, finish, tracks.live, if_neg (by simp)]
    exact ⟨by simp, by simp [StaysOrderly, opened.concludes_failed]⟩
  | cons event rest ih =>
    unfold stream
    split
    · rename_i error refused
      obtain ⟨calls, opened, -, -⟩ := follows
      exact ⟨by simp, by simp [StaysOrderly, refused, opened.concludes_failed]⟩
    rename_i next items pushed
    dsimp only
    cases ending : ends event with
    | true =>
      obtain ⟨terminal, concludes⟩ := staysOrderly_ends follows pushed ending
      rw [if_pos terminal]
      exact ⟨by rintro none; simp [none] at terminal, concludes⟩
    | false =>
      rw [staysOrderly_ongoing pushed ending]
      obtain ⟨last, emitted, rfl⟩ := push_ok pushed
      have reset : Follows assembler normalizer.resetProgress ledger :=
        follows.keep ⟨rfl, rfl, rfl, fun _ _ found => found⟩
      obtain ⟨taken, ongoing⟩ := takes_pushEvents reset ending emitted
      obtain ⟨goes, concludes⟩ := concludes_ongoing ongoing taken fun after follows =>
        ih (show Follows after last.resetProgress _ from
          follows.keep ⟨rfl, rfl, rfl, fun _ _ found => found⟩)
      rw [goes, if_neg (by simp)]
      exact concludes

end Stream

end ResponsesNormalizer

def emptyPart : List Json :=
  [.object [("content_index", .number (.int 0)), ("output_index", .number (.int 0)),
      ("text", .string ""), ("type", .string "response.output_text.done")],
    .object [("content_index", .number (.int 0)), ("delta", .string "hi"),
      ("output_index", .number (.int 1)), ("type", .string "response.output_text.delta")]]

end RustX.Responses
