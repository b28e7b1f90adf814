import RustX.Library.Assoc
import RustX.Model.Event

/-!
The assembler that validates the canonical stream and builds one ordered output.
-/
namespace RustX

open Checked List

inductive RuntimeError
  | contractViolation (message : String)
  deriving DecidableEq

def violation (message : String) : RuntimeError :=
  .contractViolation message

structure ReasoningBlock where
  text : Option String
  providerState : Option ProviderContinuationState
  deriving DecidableEq

/-- The blocks a stream can assemble; images come only from elsewhere. -/
inductive AssistantContentBlock
  | text (text : String)
  | reasoning (block : ReasoningBlock)
  | toolCall (call : ToolCall)
  | refusal (text : String)
  deriving DecidableEq

inductive BlockKind
  | text | reasoning | refusal
  deriving DecidableEq

namespace BlockKind

def placeholder : BlockKind → AssistantContentBlock
  | text => .text ""
  | reasoning => .reasoning { text := none, providerState := none }
  | refusal => .refusal ""

def «matches» : BlockKind → AssistantContentBlock → Bool
  | text, .text _ => true
  | reasoning, .reasoning _ => true
  | refusal, .refusal _ => true
  | _, _ => false

def describe : BlockKind → String
  | text => "text"
  | reasoning => "reasoning"
  | refusal => "refusal"

end BlockKind

structure PendingCall where
  blockIndex : ContentBlockIndex
  completed : Bool
  deriving DecidableEq

inductive AssemblyTerminal
  | completed (finishReason : ModelFinishReason) (usage : Option ModelUsage)
  | failed
  deriving DecidableEq

structure AssembledTurn where
  finishReason : ModelFinishReason
  content : List AssistantContentBlock
  toolCalls : List ToolCall
  continuation : Option ProviderContinuationState
  usage : Option ModelUsage
  deriving DecidableEq

structure ModelEventAssembler where
  blocks : List (Option AssistantContentBlock) := []
  toolCalls : List (ToolCallId × PendingCall) := []
  completedCalls : List (ContentBlockIndex × ToolCall) := []
  continuation : Option (ContentBlockIndex × ProviderContinuationState) := none
  latestUsage : Option ModelUsage := none
  started : Bool := false
  terminal : Option AssemblyTerminal := none
  deriving DecidableEq

namespace ModelEventAssembler

def new : ModelEventAssembler := {}

section

variable (assembler : ModelEventAssembler)

section

variable (blockIndex : ContentBlockIndex)

def blockAt (kind : BlockKind) :
    Except RuntimeError (List (Option AssistantContentBlock) × AssistantContentBlock) :=
  if assembler.blocks.length < blockIndex then
    .error (violation s!"content delta skipped block index {blockIndex}")
  else
    let blocks :=
      if blockIndex = assembler.blocks.length then assembler.blocks ++ [some kind.placeholder]
      else assembler.blocks
    match blocks[blockIndex]? with
    | some (some existing) =>
      if kind.matches existing then .ok (blocks, existing)
      else .error (violation s!"{kind.describe} delta targets a foreign block {blockIndex}")
    | _ => .error (violation "block exists after creation")

def pushText (text : String) : Except RuntimeError ModelEventAssembler := do
  let (blocks, block) ← assembler.blockAt blockIndex .text
  match block with
  | .text sofar =>
    .ok { assembler with blocks := blocks.set blockIndex (some (.text (sofar ++ text))) }
  | _ => .error (violation "block_at validated the text kind")

def pushReasoning (text : String) : Except RuntimeError ModelEventAssembler := do
  let (blocks, block) ← assembler.blockAt blockIndex .reasoning
  match block with
  | .reasoning reasoning =>
    let extended := { reasoning with text := some (reasoning.text.getD "" ++ text) }
    .ok { assembler with blocks := blocks.set blockIndex (some (.reasoning extended)) }
  | _ => .error (violation "block_at validated the reasoning kind")

def pushRefusal (text : String) : Except RuntimeError ModelEventAssembler := do
  let (blocks, block) ← assembler.blockAt blockIndex .refusal
  match block with
  | .refusal sofar =>
    .ok { assembler with blocks := blocks.set blockIndex (some (.refusal (sofar ++ text))) }
  | _ => .error (violation "block_at validated the refusal kind")

def validateArgumentsDelta (callId : ToolCallId) : Except RuntimeError ModelEventAssembler :=
  match assembler.toolCalls.lookup callId with
  | none => .error (violation s!"tool-call arguments delta for unknown call {callId}")
  | some pending =>
    if pending.completed then
      .error (violation s!"tool-call arguments delta after completion of {callId}")
    else if pending.blockIndex ≠ blockIndex then
      .error (violation s!"tool-call arguments delta block mismatch for {callId}")
    else .ok assembler

def registerToolCall (call : ToolCallStart) : Except RuntimeError ModelEventAssembler :=
  if (assembler.toolCalls.lookup call.id).isSome then
    .error (violation s!"duplicate start of tool call {call.id}")
  else if blockIndex ≠ assembler.blocks.length then
    .error (violation s!"tool-call start targets a foreign or skipped block {blockIndex}")
  else
    .ok { assembler with
      blocks := assembler.blocks ++ [some (.toolCall
        { id := call.id, toolId := call.toolId, name := call.name, arguments := .object [] })]
      toolCalls := Assoc.insert call.id { blockIndex := blockIndex, completed := false }
        assembler.toolCalls }

def completeToolCall (call : ToolCall) : Except RuntimeError ModelEventAssembler :=
  match assembler.toolCalls.lookup call.id with
  | none => .error (violation s!"tool-call completion for unknown call {call.id}")
  | some pending =>
    if pending.completed then .error (violation s!"duplicate completion of tool call {call.id}")
    else if pending.blockIndex ≠ blockIndex then
      .error (violation s!"tool-call completion block mismatch for {call.id}")
    else
      .ok { assembler with
        blocks := assembler.blocks.set blockIndex (some (.toolCall call))
        toolCalls := Assoc.insert call.id { pending with completed := true } assembler.toolCalls
        completedCalls := assembler.completedCalls ++ [(blockIndex, call)] }

def attachContinuation
    (state : ProviderContinuationState) : Except RuntimeError ModelEventAssembler :=
  if assembler.blocks.length < blockIndex then
    .error (violation s!"continuation state skipped block index {blockIndex}")
  else
    let blocks :=
      if blockIndex = assembler.blocks.length then
        assembler.blocks ++ [some BlockKind.reasoning.placeholder]
      else assembler.blocks
    match blocks[blockIndex]? with
    | some (some (.reasoning reasoning)) =>
      let attached := { reasoning with providerState := some state }
      .ok { assembler with
        blocks := blocks.set blockIndex (some (.reasoning attached))
        continuation :=
          if assembler.continuation.all fun current => decide (current.1 ≤ blockIndex) then
            some (blockIndex, state)
          else assembler.continuation }
    | some (some _) =>
      .error (violation s!"continuation state targets a non-reasoning block {blockIndex}")
    | _ => .error (violation "block exists after creation")

end

/-- The events between `Started` and the terminal event. -/
def pushContent : ModelEvent → Except RuntimeError ModelEventAssembler
  | .textDelta blockIndex text => assembler.pushText blockIndex text
  | .reasoningDelta blockIndex text => assembler.pushReasoning blockIndex text
  | .refusalDelta blockIndex text => assembler.pushRefusal blockIndex text
  | .toolCallStarted blockIndex call => assembler.registerToolCall blockIndex call
  | .toolCallArgumentsDelta blockIndex callId _ =>
    assembler.validateArgumentsDelta blockIndex callId
  | .toolCallCompleted blockIndex call => assembler.completeToolCall blockIndex call
  | .usageUpdate usage => .ok { assembler with latestUsage := some usage }
  | .continuationState blockIndex state => assembler.attachContinuation blockIndex state
  | .started | .failed _ | .completed _ _ =>
    .error (violation "internal error: entered unreachable code")

/-- One event, validated against the canonical stream contract. -/
def push (event : ModelEvent) : Except RuntimeError ModelEventAssembler :=
  if assembler.terminal.isSome then .error (violation "model event after the terminal event")
  else
    match event with
    | .started =>
      if assembler.started then .error (violation "duplicate Started event")
      else .ok { assembler with started := true }
    | .failed _ => .ok { assembler with terminal := some .failed }
    | .completed finishReason usage =>
      if !assembler.started then .error (violation "terminal Completed before Started")
      else .ok { assembler with terminal := some (.completed finishReason usage) }
    | event =>
      if !assembler.started then .error (violation "model content before Started")
      else assembler.pushContent event

def pushAll (events : List ModelEvent) : Except RuntimeError ModelEventAssembler :=
  events.foldlM push assembler

/-- The content a finished turn keeps: a refusal rolls everything else back. -/
def finishContent (refusal : Bool) :
    List (Option AssistantContentBlock) → Except RuntimeError (List AssistantContentBlock)
  | [] => .ok []
  | none :: _ => .error (violation "assembly contains a missing block")
  | some block :: rest => do
    let content ← finishContent refusal rest
    .ok (if !refusal || BlockKind.refusal.matches block then block :: content else content)

def reasonText : ModelFinishReason → String
  | .stop => "Stop"
  | .toolCalls => "ToolCalls"
  | .length => "Length"
  | .contentFilter => "ContentFilter"
  | .refusal => "Refusal"
  | .other reason => s!"Other \x7b reason: {debug reason} \x7d"

def finish : Except RuntimeError AssembledTurn :=
  match assembler.terminal with
  | none => .error (violation "model stream ended without a terminal event")
  | some .failed =>
    .error (violation "a failed model stream cannot produce a successful assembled turn")
  | some (.completed finishReason usage) => do
    forM assembler.toolCalls fun call =>
      require call.2.completed
        (violation s!"tool call {call.1} never completed before the terminal event")
    let content ← finishContent (finishReason = .refusal) assembler.blocks
    let calls := (assembler.completedCalls.mergeSort fun a b => decide (a.1 ≤ b.1)).map Prod.snd
    require (finishReason ≠ .toolCalls || !calls.isEmpty)
      (violation ("model stream terminated with ToolCalls but produced no complete " ++
        "canonical tool call"))
    require (finishReason = .toolCalls || calls.isEmpty)
      (violation ("model stream produced complete canonical tool calls but terminated with " ++
        reasonText finishReason))
    .ok { finishReason := finishReason, content := content, toolCalls := calls
          continuation := assembler.continuation.map Prod.snd
          usage := usage.or assembler.latestUsage }

end

end ModelEventAssembler

inductive ContentKind
  | block (kind : BlockKind)
  | toolCall
  deriving DecidableEq

def AssistantContentBlock.kind : AssistantContentBlock → ContentKind
  | text _ => .block .text
  | reasoning _ => .block .reasoning
  | toolCall _ => .toolCall
  | refusal _ => .block .refusal

theorem BlockKind.matches_iff (kind : BlockKind) (block : AssistantContentBlock) :
    kind.matches block = true ↔ block.kind = .block kind := by
  cases kind <;> cases block <;> simp [BlockKind.matches, AssistantContentBlock.kind]

theorem BlockKind.placeholder_kind (kind : BlockKind) : kind.placeholder.kind = .block kind := by
  cases kind <;> rfl

/-- A delta of this kind fits at the index: it continues a block of its kind or
opens the next one. -/
def Room (kinds : List ContentKind) (index : ContentBlockIndex) (kind : ContentKind) : Prop :=
  kinds[index]? = some kind ∨ index = kinds.length

instance (kinds : List ContentKind) (index : ContentBlockIndex) (kind : ContentKind) :
    Decidable (Room kinds index kind) :=
  inferInstanceAs (Decidable (_ ∨ _))

/-- The kinds after a delta that fits. -/
def place (kinds : List ContentKind) (index : ContentBlockIndex) (kind : ContentKind) :
    List ContentKind :=
  if index = kinds.length then kinds ++ [kind] else kinds

variable {kinds : List ContentKind} {index : ContentBlockIndex} {kind : ContentKind}

theorem place_of_getElem? (present : kinds[index]? = some held) :
    place kinds index kind = kinds := by
  obtain ⟨below, -⟩ := List.getElem?_eq_some_iff.mp present
  exact if_neg (Nat.ne_of_lt below)

theorem place_length (kinds : List ContentKind) (kind : ContentKind) :
    place kinds kinds.length kind = kinds ++ [kind] :=
  if_pos rfl

theorem getElem?_place (room : Room kinds index kind) :
    (place kinds index kind)[index]? = some kind := by
  rcases room with present | rfl
  · rw [place_of_getElem? present, present]
  · simp [place]

theorem Room.le (room : Room kinds index kind) : index ≤ kinds.length := by
  rcases room with present | rfl
  · exact Nat.le_of_lt (List.getElem?_eq_some_iff.mp present).1
  · exact Nat.le_refl _

theorem room_of_place (held : (place kinds index kind)[index]? = some kind) :
    Room kinds index kind := by
  by_cases last : index = kinds.length
  · exact .inr last
  · rw [place, if_neg last] at held
    exact .inl held

namespace ModelEventAssembler

section

variable (assembler : ModelEventAssembler)

theorem pushAll_cons (event : ModelEvent) (events : List ModelEvent) :
    assembler.pushAll (event :: events) =
      assembler.push event >>= fun next => next.pushAll events :=
  foldlM_cons

theorem pushAll_append (first second : List ModelEvent) :
    assembler.pushAll (first ++ second) =
      assembler.pushAll first >>= fun next => next.pushAll second :=
  foldlM_append

theorem pushAll_singleton (event : ModelEvent) :
    assembler.pushAll [event] = assembler.push event := by
  rw [pushAll_cons]
  cases assembler.push event <;> rfl

end

structure Open (assembler : ModelEventAssembler) (kinds : List ContentKind)
    (calls : ToolCallId → Option PendingCall) : Prop where
  started : assembler.started = true
  running : assembler.terminal = none
  blocks : assembler.blocks.map (Option.map AssistantContentBlock.kind) = kinds.map some
  pending : ∀ id, assembler.toolCalls.lookup id = calls id
  distinct : (assembler.toolCalls.map Prod.fst).Nodup
  completed : assembler.completedCalls ≠ [] ↔ ∃ id index, calls id = some ⟨index, true⟩

theorem open_started : ∃ assembler, new.push .started = .ok assembler ∧
    assembler.Open [] fun _ => none :=
  ⟨{ new with started := true }, rfl, by constructor <;> simp [new]⟩

variable {assembler : ModelEventAssembler} {kinds : List ContentKind}
  {calls : ToolCallId → Option PendingCall}

theorem Open.length (opened : assembler.Open kinds calls) :
    assembler.blocks.length = kinds.length := by
  simpa using congrArg List.length opened.blocks

variable {blocks : List (Option AssistantContentBlock)} {index : ContentBlockIndex}

theorem kinds_set {block : AssistantContentBlock}
    (same : blocks.map (Option.map AssistantContentBlock.kind) = kinds.map some)
    (held : kinds[index]? = some block.kind) :
    (blocks.set index (some block)).map (Option.map AssistantContentBlock.kind) =
      kinds.map some := by
  obtain ⟨below, value⟩ := List.getElem?_eq_some_iff.mp held
  rw [map_set, same, Option.map_some, ← map_set, ← value, set_getElem_self]

/-- Blocks of an open assembler after room was made at an index. -/
theorem Open.grown (opened : assembler.Open kinds calls) (index : ContentBlockIndex)
    (kind : BlockKind) :
    (if index = assembler.blocks.length then assembler.blocks ++ [some kind.placeholder]
      else assembler.blocks).map (Option.map AssistantContentBlock.kind) =
      (place kinds index (.block kind)).map some := by
  rw [opened.length, place]
  split
  · simp [opened.blocks, kind.placeholder_kind]
  · exact opened.blocks

theorem kind_of_map (same : blocks.map (Option.map AssistantContentBlock.kind) = kinds.map some)
    (below : index < kinds.length) :
    ∃ block, blocks[index]? = some (some block) ∧ kinds[index]? = some block.kind := by
  have at_index := congrArg (·[index]?) same
  simp only [getElem?_map, getElem?_eq_getElem below, Option.map_some] at at_index
  cases slot : blocks[index]? with
  | none => simp [slot] at at_index
  | some entry =>
    cases entry with
    | none => simp [slot] at at_index
    | some block =>
      refine ⟨block, rfl, ?_⟩
      rw [getElem?_eq_getElem]
      simpa [slot] using at_index.symm

theorem length_place_of_le (fits : index ≤ kinds.length) :
    index < (place kinds index kind).length := by
  unfold place
  split
  · rename_i last
    rw [length_append, length_singleton, last]
    exact Nat.lt_succ_self _
  · rename_i earlier
    exact Nat.lt_of_le_of_ne fits earlier

theorem Open.blockAt_exactly (opened : assembler.Open kinds calls) (index : ContentBlockIndex)
    (kind : BlockKind) :
    Checked.Exactly (Room kinds index (.block kind))
      (fun found => found.1.map (Option.map AssistantContentBlock.kind) =
        (place kinds index (.block kind)).map some ∧ found.2.kind = .block kind)
      (assembler.blockAt index kind) := by
  unfold blockAt
  rw [opened.length]
  split
  · rename_i skipped
    exact exactly_error fun room => Nat.not_lt.mpr room.le skipped
  rename_i reached
  have fits : index ≤ kinds.length := Nat.le_of_not_lt reached
  have grown := opened.grown index kind
  rw [opened.length] at grown
  obtain ⟨block, slot, held⟩ := kind_of_map grown (length_place_of_le fits)
  simp only [slot]
  split
  · rename_i same
    have same := (kind.matches_iff block).mp same
    exact exactly_ok (room_of_place (same ▸ held)) ⟨grown, same⟩
  · rename_i foreign
    apply exactly_error
    intro room
    rw [getElem?_place room, Option.some.injEq] at held
    exact foreign ((kind.matches_iff block).mpr held.symm)

def shows : ModelEvent → Option (ContentBlockIndex × BlockKind)
  | .textDelta index _ => some (index, .text)
  | .reasoningDelta index _ => some (index, .reasoning)
  | .refusalDelta index _ => some (index, .refusal)
  | .continuationState index _ => some (index, .reasoning)
  | _ => none

section

variable (opened : assembler.Open kinds calls)
include opened

/-- Replacing a block by one of its kind keeps the assembler in mid-stream. -/
theorem Open.reblock {others : List ContentKind}
    {continuation : Option (ContentBlockIndex × ProviderContinuationState)}
    (same : blocks.map (Option.map AssistantContentBlock.kind) = others.map some) :
    ({ assembler with blocks := blocks, continuation := continuation }).Open others calls :=
  { opened with blocks := same }

section

variable (index : ContentBlockIndex)

theorem Open.pushText_exactly (text : String) : Checked.Exactly (Room kinds index (.block .text))
      (fun next => next.Open (place kinds index (.block .text)) calls)
      (assembler.pushText index text) := by
  apply (opened.blockAt_exactly index .text).andThen
  rintro room ⟨blocks, block⟩ ⟨same, kind⟩
  cases block with
  | text sofar => exact ⟨_, rfl, opened.reblock (kinds_set same (getElem?_place room))⟩
  | _ => cases kind

theorem Open.pushReasoning_exactly (text : String) :
    Checked.Exactly (Room kinds index (.block .reasoning))
      (fun next => next.Open (place kinds index (.block .reasoning)) calls)
      (assembler.pushReasoning index text) := by
  apply (opened.blockAt_exactly index .reasoning).andThen
  rintro room ⟨blocks, block⟩ ⟨same, kind⟩
  cases block with
  | reasoning sofar => exact ⟨_, rfl, opened.reblock (kinds_set same (getElem?_place room))⟩
  | _ => cases kind

theorem Open.pushRefusal_exactly (text : String) :
    Checked.Exactly (Room kinds index (.block .refusal))
      (fun next => next.Open (place kinds index (.block .refusal)) calls)
      (assembler.pushRefusal index text) := by
  apply (opened.blockAt_exactly index .refusal).andThen
  rintro room ⟨blocks, block⟩ ⟨same, kind⟩
  cases block with
  | refusal sofar => exact ⟨_, rfl, opened.reblock (kinds_set same (getElem?_place room))⟩
  | _ => cases kind

theorem Open.attachContinuation_exactly (state : ProviderContinuationState) :
    Checked.Exactly (Room kinds index (.block .reasoning))
      (fun next => next.Open (place kinds index (.block .reasoning)) calls)
      (assembler.attachContinuation index state) := by
  unfold attachContinuation
  rw [opened.length]
  split
  · rename_i skipped
    exact exactly_error fun room => Nat.not_lt.mpr room.le skipped
  rename_i reached
  have fits : index ≤ kinds.length := Nat.le_of_not_lt reached
  have grown := opened.grown index .reasoning
  rw [opened.length] at grown
  obtain ⟨block, slot, held⟩ := kind_of_map grown (length_place_of_le fits)
  simp only [slot]
  have foreign (room : Room kinds index (.block .reasoning)) : block.kind = .block .reasoning := by
    rw [getElem?_place room, Option.some.injEq] at held
    exact held.symm
  cases block with
  | reasoning reasoning =>
    exact exactly_ok (room_of_place held) (opened.reblock (kinds_set grown held))
  | _ => exact exactly_error fun room => nomatch foreign room

end

theorem Open.push_eq (content : event ≠ .started) (running : event.isTerminal = false) :
    assembler.push event = assembler.pushContent event := by
  unfold push
  rw [opened.running, opened.started]
  cases event <;> first | rfl | contradiction

/-- A content event is accepted exactly where its block has room for its kind. -/
theorem Open.push_shows {kind : BlockKind} (target : shows event = some (index, kind)) :
    Checked.Exactly (Room kinds index (.block kind))
      (fun next => next.Open (place kinds index (.block kind)) calls) (assembler.push event) := by
  have content : event ≠ .started ∧ event.isTerminal = false := by
    constructor
    · rintro rfl
      cases target
    · cases event <;> first | rfl | cases target
  rw [opened.push_eq content.1 content.2]
  cases event with
  | textDelta => cases target; exact opened.pushText_exactly _ _
  | reasoningDelta => cases target; exact opened.pushReasoning_exactly _ _
  | refusalDelta => cases target; exact opened.pushRefusal_exactly _ _
  | continuationState => cases target; exact opened.attachContinuation_exactly _ _
  | _ => cases target

/-- A call starts exactly at the next block, under an id that no call has. -/
theorem Open.push_toolCallStarted (index : ContentBlockIndex) (call : ToolCallStart) :
    Checked.Exactly (index = kinds.length ∧ calls call.id = none)
      (fun next => next.Open (kinds ++ [.toolCall])
        (Function.update calls call.id (some ⟨index, false⟩)))
      (assembler.push (.toolCallStarted index call)) := by
  rw [opened.push_eq (by simp) rfl]
  simp only [pushContent, registerToolCall, opened.pending, opened.length]
  split
  · rename_i known
    apply exactly_error
    rintro ⟨-, fresh⟩
    rw [fresh] at known
    cases known
  · rename_i fresh
    split
    · rename_i elsewhere
      exact exactly_error fun both => elsewhere both.1
    rename_i last
    rw [Option.not_isSome_iff_eq_none] at fresh
    refine exactly_ok ⟨not_not.mp last, fresh⟩ ⟨opened.started, opened.running, ?_, ?_, ?_, ?_⟩
    · simp [opened.blocks, AssistantContentBlock.kind]
    · intro id
      simp only [Assoc.lookup_insert, opened.pending]
    · exact Assoc.nodup_keys_insert opened.distinct _ _
    · rw [opened.completed]
      refine exists_congr fun id => exists_congr fun other => ?_
      by_cases same : id = call.id
      · subst same
        simp [fresh]
      · rw [Function.update_of_ne same]

/-- An argument fragment is accepted exactly for an open call of its block. -/
theorem Open.push_toolCallArgumentsDelta (index : ContentBlockIndex) (id : ToolCallId)
    (delta : String) :
    Checked.Exactly (calls id = some ⟨index, false⟩) (fun next => next = assembler)
      (assembler.push (.toolCallArgumentsDelta index id delta)) := by
  rw [opened.push_eq (by simp) rfl]
  simp only [pushContent, validateArgumentsDelta, opened.pending]
  split
  · rename_i unknown
    exact exactly_error fun known => by rw [unknown] at known; cases known
  rename_i pending known
  rw [known]
  obtain ⟨at_index, done⟩ := pending
  cases done with
  | true => exact exactly_error (by simp)
  | false =>
    by_cases same : at_index = index
    · subst same
      simp only [Bool.false_eq_true, if_false, ne_eq, not_true_eq_false]
      exact exactly_ok trivial rfl
    · simp only [Bool.false_eq_true, if_false, ne_eq, same, not_false_eq_true, if_true]
      exact exactly_error (by simp [same])

/-- A call completes exactly once, at its block. -/
theorem Open.push_toolCallCompleted (call : ToolCall) (block : kinds[index]? = some .toolCall) :
    Checked.Exactly (calls call.id = some ⟨index, false⟩)
      (fun next => next.Open kinds (Function.update calls call.id (some ⟨index, true⟩)))
      (assembler.push (.toolCallCompleted index call)) := by
  rw [opened.push_eq (by simp) rfl]
  simp only [pushContent, completeToolCall, opened.pending]
  split
  · rename_i unknown
    exact exactly_error fun known => by rw [unknown] at known; cases known
  rename_i pending known
  rw [known]
  obtain ⟨at_index, done⟩ := pending
  cases done with
  | true => exact exactly_error (by simp)
  | false =>
    by_cases same : at_index = index
    · subst same
      simp only [Bool.false_eq_true, if_false, ne_eq, not_true_eq_false]
      refine exactly_ok trivial ⟨opened.started, opened.running, ?_, ?_, ?_, ?_⟩
      · exact kinds_set opened.blocks block
      · intro id
        simp only [Assoc.lookup_insert, opened.pending]
      · exact Assoc.nodup_keys_insert opened.distinct _ _
      · simp only [ne_eq, append_eq_nil_iff, cons_ne_self, and_false, not_false_eq_true, true_iff]
        exact ⟨call.id, at_index, Function.update_self ..⟩
    · simp only [Bool.false_eq_true, if_false, ne_eq, same, not_false_eq_true, if_true]
      exact exactly_error (by simp [same])

theorem Open.push_usageUpdate (usage : ModelUsage) :
    ∃ next, assembler.push (.usageUpdate usage) = .ok next ∧ next.Open kinds calls :=
  ⟨_, opened.push_eq (by simp) rfl, { opened with }⟩

end

theorem finishContent_ok (refusal : Bool)
    (same : blocks.map (Option.map AssistantContentBlock.kind) = kinds.map some) :
    ∃ content, finishContent refusal blocks = .ok content := by
  induction blocks generalizing kinds with
  | nil => exact ⟨[], rfl⟩
  | cons slot rest ih =>
    cases kinds with
    | nil => cases same
    | cons kind kinds =>
      rw [map_cons, map_cons, List.cons.injEq] at same
      obtain ⟨content, found⟩ := ih same.2
      cases slot with
      | none => cases same.1
      | some block =>
        rw [finishContent, found]
        exact ⟨_, rfl⟩

/-- The calls at the end of a stream that assembles: all of them are complete, and
there are some exactly when the finish reason says so. -/
structure Settled (calls : ToolCallId → Option PendingCall) (reason : ModelFinishReason) : Prop where
  complete : ∀ id call, calls id = some call → call.completed = true
  agrees : reason = .toolCalls ↔ ∃ id, calls id ≠ none

theorem Open.complete_iff (opened : assembler.Open kinds calls) :
    (∀ entry ∈ assembler.toolCalls, entry.2.completed = true) ↔
      ∀ id call, calls id = some call → call.completed = true := by
  constructor
  · intro each id call known
    rw [← opened.pending] at known
    exact each _ (Assoc.mem_of_lookup known)
  · rintro each ⟨id, call⟩ member
    exact each id call ((opened.pending id).symm.trans (Assoc.lookup_of_mem opened.distinct member))

/-- Once every call is complete, calls were collected exactly if there are any. -/
theorem Open.collected_iff (opened : assembler.Open kinds calls)
    (complete : ∀ id call, calls id = some call → call.completed = true) :
    assembler.completedCalls ≠ [] ↔ ∃ id, calls id ≠ none := by
  rw [opened.completed]
  constructor
  · rintro ⟨id, index, known⟩
    exact ⟨id, by simp [known]⟩
  · rintro ⟨id, known⟩
    obtain ⟨⟨index, done⟩, known⟩ := Option.ne_none_iff_exists'.mp known
    cases complete id _ known
    exact ⟨id, index, known⟩

theorem mergeSort_eq_nil_iff {α : Type} {le : α → α → Bool} {items : List α} :
    items.mergeSort le = [] ↔ items = [] := by
  rw [← length_eq_zero_iff, length_mergeSort, length_eq_zero_iff]

theorem Open.finish_iff (opened : assembler.Open kinds calls) (reason : ModelFinishReason)
    (usage : Option ModelUsage) :
    (∃ turn, ({ assembler with terminal := some (.completed reason usage) }).finish = .ok turn) ↔
      Settled calls reason := by
  obtain ⟨content, held⟩ := finishContent_ok (decide (reason = .refusal)) opened.blocks
  simp only [finish, held, bind_eq_ok_iff, forM_eq_ok_iff, require_eq_ok_iff, opened.complete_iff]
  constructor
  · rintro ⟨turn, _, complete, _, _, _, called, _, uncalled, _⟩
    refine ⟨complete, ?_⟩
    rw [← opened.collected_iff complete]
    by_cases calling : reason = .toolCalls
    · simpa [calling, mergeSort_eq_nil_iff] using called
    · simpa [calling, mergeSort_eq_nil_iff] using uncalled
  · rintro ⟨complete, agrees⟩
    rw [← opened.collected_iff complete] at agrees
    refine ⟨_, (), complete, content, rfl, (), ?_, (), ?_, rfl⟩
    · by_cases calling : reason = .toolCalls
      · simpa [calling, mergeSort_eq_nil_iff] using agrees.mp calling
      · simp [calling]
    · by_cases calling : reason = .toolCalls
      · simp [calling]
      · simpa [calling, mergeSort_eq_nil_iff] using mt agrees.mpr calling

/-- The rest of a stream is accepted, and assembles if it ends in success. -/
def Concludes (assembler : ModelEventAssembler) (events : List ModelEvent) : Prop :=
  ∃ final, assembler.pushAll events = .ok final ∧
    ∀ reason usage, events.getLast? = some (.completed reason usage) →
      ∃ turn, final.finish = .ok turn

theorem concludes_append (more : second ≠ []) : assembler.Concludes (first ++ second) ↔
      ∃ next, assembler.pushAll first = .ok next ∧ next.Concludes second := by
  have last : (first ++ second).getLast? = second.getLast? := by
    rw [getLast?_append, Option.or_of_isSome (by simpa using more)]
  simp only [Concludes, pushAll_append, bind_eq_ok_iff, last]
  constructor
  · rintro ⟨final, ⟨next, before, after⟩, ends⟩
    exact ⟨next, before, final, after, ends⟩
  · rintro ⟨next, before, final, after, ends⟩
    exact ⟨final, ⟨next, before, after⟩, ends⟩

/-- A stream concludes if its first part is taken and, from any state that may
follow, the rest concludes. -/
theorem concludes_exactly {allowed rest : Prop} {post : ModelEventAssembler → Prop}
    (step : Checked.Exactly allowed post (assembler.pushAll first))
    (later : ∀ after, post after → second ≠ [] ∧ (after.Concludes second ↔ rest)) :
    assembler.Concludes (first ++ second) ↔ allowed ∧ rest := by
  by_cases holds : allowed
  · obtain ⟨after, pushed, keeps⟩ := step.succeeds holds
    obtain ⟨more, concludes⟩ := later after keeps
    rw [concludes_append more, ← concludes]
    simp [pushed, holds]
  · obtain ⟨error, refused⟩ := step.refuses holds
    have never : ¬ assembler.Concludes (first ++ second) := by
      rintro ⟨final, pushed, -⟩
      rw [pushAll_append, refused] at pushed
      cases pushed
    simp [never, holds]

/-- The same for a first part that does not end the stream. -/
theorem concludes_ongoing {allowed rest : Prop} {post : ModelEventAssembler → Prop}
    (ongoing : ∀ event ∈ first, event.isTerminal = false)
    (step : Checked.Exactly allowed post (assembler.pushAll first))
    (later : ∀ after, post after → second ≠ [] ∧ (after.Concludes second ↔ rest)) :
    first.any ModelEvent.isTerminal = false ∧ first ++ second ≠ [] ∧
      (assembler.Concludes (first ++ second) ↔ allowed ∧ rest) := by
  refine ⟨any_eq_false.mpr fun event member => by simp [ongoing event member], ?_,
    concludes_exactly step later⟩
  intro none
  obtain ⟨silent, ended⟩ := append_eq_nil_iff.mp none
  have holds : allowed := step.isOk_iff.mp ⟨assembler, by rw [silent]; rfl⟩
  obtain ⟨after, -, keeps⟩ := step.succeeds holds
  exact (later after keeps).1 ended

theorem Open.concludes_failed (opened : assembler.Open kinds calls) (error : ModelError) :
    assembler.Concludes [.failed error] := by
  refine ⟨{ assembler with terminal := some .failed }, ?_, ?_⟩
  · rw [pushAll_singleton, push, opened.running]
    rfl
  · intro reason usage last
    cases last

theorem Open.concludes_completed (opened : assembler.Open kinds calls)
    (reason : ModelFinishReason) (usage : Option ModelUsage) :
    assembler.Concludes [.completed reason usage] ↔ Settled calls reason := by
  have accepted : assembler.pushAll [.completed reason usage] =
      .ok { assembler with terminal := some (.completed reason usage) } := by
    rw [pushAll_singleton, push, opened.running, opened.started]
    rfl
  rw [← opened.finish_iff]
  constructor
  · rintro ⟨final, pushed, ends⟩
    rw [accepted] at pushed
    cases pushed
    exact ends reason usage rfl
  · intro finished
    exact ⟨_, accepted, fun _ _ _ => finished⟩

end ModelEventAssembler

/-- A stream the agent kernel can consume: every event is accepted from `Started`
on, and a stream that completes assembles into a turn. -/
def Canonical (events : List ModelEvent) : Prop :=
  ModelEventAssembler.new.Concludes (.started :: events)

/-- What comes after `Started` decides. -/
theorem canonical_iff {condition : Prop}
    (rest : ∀ assembler : ModelEventAssembler, assembler.Open [] (fun _ => none) →
      events ≠ [] ∧ (assembler.Concludes events ↔ condition)) : Canonical events ↔ condition := by
  obtain ⟨assembler, started, opened⟩ := ModelEventAssembler.open_started
  have first : Checked.Exactly True (fun after => after.Open [] fun _ => none)
      (ModelEventAssembler.new.pushAll [.started]) := by
    rw [ModelEventAssembler.pushAll_singleton, started]
    exact exactly_ok trivial opened
  rw [Canonical, ← singleton_append, ModelEventAssembler.concludes_exactly first rest]
  exact ⟨fun both => both.2, fun holds => ⟨trivial, holds⟩⟩

/-- What a provider event makes visible: content of a block, or the start, a
fragment or the completion of a call. -/
inductive Reveal
  | content (index : ContentBlockIndex) (kind : BlockKind)
  | call (index : ContentBlockIndex) (id : ToolCallId)
  | fragment (id : ToolCallId)
  | completion (id : ToolCallId)

/-- The blocks a stream has shown so far, by kind, the ids of its calls, and which
of them are complete. -/
structure Ledger where
  kinds : List ContentKind := []
  ids : List ToolCallId := []
  completed : List ToolCallId := []

namespace Ledger

variable (ledger : Ledger)

/-- Content continues a block of its kind or shows the next one; a call is the next
block and has an id of its own; a call that is complete gets no more fragments. -/
def Fits : Reveal → Prop
  | .content index kind => Room ledger.kinds index (.block kind)
  | .call index id => index = ledger.kinds.length ∧ id ∉ ledger.ids
  | .fragment id => id ∉ ledger.completed
  | .completion _ => True

/-- Whether what is made visible, if anything, fits. -/
def Admits : Option Reveal → Prop
  | none => True
  | some reveal => ledger.Fits reveal

def note : Option Reveal → Ledger
  | none => ledger
  | some (.content index kind) => { ledger with kinds := place ledger.kinds index (.block kind) }
  | some (.call _ id) =>
    { ledger with kinds := ledger.kinds ++ [.toolCall], ids := id :: ledger.ids }
  | some (.fragment _) => ledger
  | some (.completion id) => { ledger with completed := id :: ledger.completed }

/-- Whether things made visible one after the other all fit. -/
def AdmitsAll (ledger : Ledger) : List Reveal → Prop
  | [] => True
  | reveal :: rest => ledger.Fits reveal ∧ (ledger.note (some reveal)).AdmitsAll rest

def noteAll (reveals : List Reveal) : Ledger :=
  reveals.foldl (fun ledger reveal => ledger.note (some reveal)) ledger

theorem admitsAll_append (first second : List Reveal) :
    ledger.AdmitsAll (first ++ second) ↔
      ledger.AdmitsAll first ∧ (ledger.noteAll first).AdmitsAll second := by
  induction first generalizing ledger with
  | nil => simp [AdmitsAll, noteAll]
  | cons reveal rest ih => simp [AdmitsAll, ih, noteAll, and_assoc]

theorem noteAll_append (first second : List Reveal) :
    ledger.noteAll (first ++ second) = (ledger.noteAll first).noteAll second :=
  foldl_append

end Ledger

theorem getElem?_place_of_some {other : ContentBlockIndex} (present : kinds[other]? = some held) :
    (place kinds index kind)[other]? = some held := by
  unfold place
  split
  · rw [getElem?_append_left (List.getElem?_eq_some_iff.mp present).1, present]
  · exact present

end RustX
