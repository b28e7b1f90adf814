import RustX.Model.Event

/-!
The typed publication vocabulary: what a stream commits for release, and the
audit content its frames fold into.
-/
namespace RustX.Publication

abbrev PublicationStreamId := String
abbrev MessageId := String

/-- Every suffix is the increment that was committed, not the accumulated block. -/
inductive PublicationPayload
  | textSuffix (blockIndex : ContentBlockIndex) (suffix : String)
  | reasoningSuffix (blockIndex : ContentBlockIndex) (suffix : String)
  | refusalSuffix (blockIndex : ContentBlockIndex) (suffix : String)
  | proposedToolCallStarted (blockIndex : ContentBlockIndex) (call : ToolCallStart)
  | proposedToolCallArgumentsSuffix (blockIndex : ContentBlockIndex) (callId : ToolCallId)
      (suffix : String)
  | proposedToolCallCompleted (blockIndex : ContentBlockIndex) (call : ToolCall)
  | terminalOnly
  deriving DecidableEq

namespace PublicationPayload

def byteWeight : PublicationPayload → Nat
  | textSuffix _ suffix | reasoningSuffix _ suffix | refusalSuffix _ suffix
  | proposedToolCallArgumentsSuffix _ _ suffix => suffix.utf8ByteSize
  | proposedToolCallStarted _ _ | proposedToolCallCompleted _ _ | terminalOnly => 0

def isStructuralBoundary : PublicationPayload → Bool
  | proposedToolCallStarted _ _ | proposedToolCallCompleted _ _ => true
  | _ => false

/-- The merged payload, or nothing where `other` stays a payload of its own. -/
def merge : PublicationPayload → PublicationPayload → Option PublicationPayload
  | textSuffix blockIndex suffix, textSuffix otherIndex otherSuffix =>
    if blockIndex = otherIndex then some (textSuffix blockIndex (suffix ++ otherSuffix)) else none
  | reasoningSuffix blockIndex suffix, reasoningSuffix otherIndex otherSuffix =>
    if blockIndex = otherIndex then some (reasoningSuffix blockIndex (suffix ++ otherSuffix))
    else none
  | refusalSuffix blockIndex suffix, refusalSuffix otherIndex otherSuffix =>
    if blockIndex = otherIndex then some (refusalSuffix blockIndex (suffix ++ otherSuffix))
    else none
  | proposedToolCallArgumentsSuffix blockIndex callId suffix,
      proposedToolCallArgumentsSuffix otherIndex otherCall otherSuffix =>
    if blockIndex = otherIndex ∧ callId = otherCall then
      some (proposedToolCallArgumentsSuffix blockIndex callId (suffix ++ otherSuffix))
    else none
  | _, _ => none

inductive Target
  | text (blockIndex : ContentBlockIndex)
  | reasoning (blockIndex : ContentBlockIndex)
  | refusal (blockIndex : ContentBlockIndex)
  | «arguments» (blockIndex : ContentBlockIndex) (callId : ToolCallId)
  deriving DecidableEq

def ofSuffix (suffix : String) : Target → PublicationPayload
  | .text blockIndex => textSuffix blockIndex suffix
  | .reasoning blockIndex => reasoningSuffix blockIndex suffix
  | .refusal blockIndex => refusalSuffix blockIndex suffix
  | .arguments blockIndex callId => proposedToolCallArgumentsSuffix blockIndex callId suffix

def suffix? : PublicationPayload → Option (Target × String)
  | textSuffix blockIndex suffix => some (.text blockIndex, suffix)
  | reasoningSuffix blockIndex suffix => some (.reasoning blockIndex, suffix)
  | refusalSuffix blockIndex suffix => some (.refusal blockIndex, suffix)
  | proposedToolCallArgumentsSuffix blockIndex callId suffix =>
    some (.arguments blockIndex callId, suffix)
  | _ => none

@[simp] theorem suffix?_ofSuffix (suffix : String) (target : Target) :
    (ofSuffix suffix target).suffix? = some (target, suffix) := by
  cases target <;> rfl

/-- Merging is concatenation of two suffixes of one target, and nothing else. -/
theorem merge_eq_some_iff {first : PublicationPayload} :
    first.merge second = some merged ↔ ∃ target before after, first = ofSuffix before target ∧
      second = ofSuffix after target ∧ merged = ofSuffix (before ++ after) target := by
  constructor
  · intro merges
    unfold merge at merges
    split at merges
    case h_5 => cases merges
    all_goals
      obtain ⟨same, merges⟩ := Option.ite_none_right_eq_some.mp merges
      cases merges
    · subst same
      exact ⟨.text _, _, _, rfl, rfl, rfl⟩
    · subst same
      exact ⟨.reasoning _, _, _, rfl, rfl, rfl⟩
    · subst same
      exact ⟨.refusal _, _, _, rfl, rfl, rfl⟩
    · obtain ⟨rfl, rfl⟩ := same
      exact ⟨.arguments _ _, _, _, rfl, rfl, rfl⟩
  · rintro ⟨target, before, after, rfl, rfl, rfl⟩
    cases target <;> simp [ofSuffix, merge]

end PublicationPayload

open PublicationPayload

structure PublicationFrame where
  streamId : PublicationStreamId
  messageId : MessageId
  sequence : Nat
  payload : PublicationPayload
  deriving DecidableEq

inductive PublicationAuditBlock
  | text (blockIndex : ContentBlockIndex) (text : String)
  | reasoning (blockIndex : ContentBlockIndex) (text : String)
  | refusal (blockIndex : ContentBlockIndex) (text : String)
  | proposedToolCall (blockIndex : ContentBlockIndex) (callId : ToolCallId) (toolId : ToolId)
      (name : String) («arguments» : String) (complete : Bool)
  deriving DecidableEq

inductive TextKind
  | text | reasoning | refusal
  deriving DecidableEq

namespace TextKind

def block (blockIndex : ContentBlockIndex) (text : String) : TextKind → PublicationAuditBlock
  | .text => .text blockIndex text
  | .reasoning => .reasoning blockIndex text
  | .refusal => .refusal blockIndex text

def extend (blockIndex : ContentBlockIndex) (suffix : String) :
    TextKind → PublicationAuditBlock → Option PublicationAuditBlock
  | .text, .text existing shown =>
    if existing = blockIndex then some (.text existing (shown ++ suffix)) else none
  | .reasoning, .reasoning existing shown =>
    if existing = blockIndex then some (.reasoning existing (shown ++ suffix)) else none
  | .refusal, .refusal existing shown =>
    if existing = blockIndex then some (.refusal existing (shown ++ suffix)) else none
  | _, _ => none

theorem extend_eq_some_iff {kind : TextKind} {block : PublicationAuditBlock} :
    kind.extend blockIndex suffix block = some extended ↔
      ∃ text, block = kind.block blockIndex text ∧
        extended = kind.block blockIndex (text ++ suffix) := by
  cases kind <;> cases block <;> simp [extend, TextKind.block] <;> grind

end TextKind

/-- `push_text`: extend the first block of the kind and index, or open one. -/
def pushText (blockIndex : ContentBlockIndex) (suffix : String) (kind : TextKind) :
    List PublicationAuditBlock → List PublicationAuditBlock
  | [] => [kind.block blockIndex suffix]
  | block :: blocks =>
    match kind.extend blockIndex suffix block with
    | some extended => extended :: blocks
    | none => block :: pushText blockIndex suffix kind blocks

/-- Change arguments and completeness of the first proposal of a call, as the
borrow of `proposal_mut` allows. -/
def modifyProposal (callId : ToolCallId) (change : String → Bool → String × Bool) :
    List PublicationAuditBlock → List PublicationAuditBlock
  | [] => []
  | .proposedToolCall blockIndex existing toolId name released complete :: blocks =>
    if existing = callId then
      let changed := change released complete
      .proposedToolCall blockIndex existing toolId name changed.1 changed.2 :: blocks
    else
      .proposedToolCall blockIndex existing toolId name released complete ::
        modifyProposal callId change blocks
  | block :: blocks => block :: modifyProposal callId change blocks

section Consolidation

variable [FloatText]

/-- One frame of the fold of `consolidate_audit_content`. -/
def consolidatePayload (blocks : List PublicationAuditBlock) :
    PublicationPayload → List PublicationAuditBlock
  | .textSuffix blockIndex suffix => pushText blockIndex suffix .text blocks
  | .reasoningSuffix blockIndex suffix => pushText blockIndex suffix .reasoning blocks
  | .refusalSuffix blockIndex suffix => pushText blockIndex suffix .refusal blocks
  | .proposedToolCallStarted blockIndex call =>
    blocks ++ [.proposedToolCall blockIndex call.id call.toolId call.name "" false]
  | .proposedToolCallArgumentsSuffix _ callId suffix =>
    modifyProposal callId (fun released complete => (released ++ suffix, complete)) blocks
  | .proposedToolCallCompleted _ call =>
    modifyProposal call.id
      (fun released _ => (if released.isEmpty then call.arguments.text else released, true)) blocks
  | .terminalOnly => blocks

def consolidateAuditContent (frames : List PublicationFrame) : List PublicationAuditBlock :=
  frames.foldl (fun blocks frame => consolidatePayload blocks frame.payload) []

end Consolidation

theorem pushText_pushText (blockIndex : ContentBlockIndex) (before after : String)
    (kind : TextKind) (blocks : List PublicationAuditBlock) :
    pushText blockIndex after kind (pushText blockIndex before kind blocks) =
      pushText blockIndex (before ++ after) kind blocks := by
  induction blocks with
  | nil =>
    have extended : kind.extend blockIndex after (kind.block blockIndex before) =
        some (kind.block blockIndex (before ++ after)) :=
      TextKind.extend_eq_some_iff.mpr ⟨before, rfl, rfl⟩
    simp [pushText, extended]
  | cons block blocks ih =>
    by_cases mine : ∃ text, block = kind.block blockIndex text
    · obtain ⟨text, rfl⟩ := mine
      have extended : ∀ text suffix, kind.extend blockIndex suffix (kind.block blockIndex text) =
          some (kind.block blockIndex (text ++ suffix)) :=
        fun text suffix => TextKind.extend_eq_some_iff.mpr ⟨text, rfl, rfl⟩
      simp [pushText, extended, String.append_assoc]
    · have other : ∀ suffix, kind.extend blockIndex suffix block = none := by
        intro suffix
        rw [Option.eq_none_iff_forall_ne_some]
        intro extended found
        obtain ⟨text, same, -⟩ := TextKind.extend_eq_some_iff.mp found
        exact mine ⟨text, same⟩
      simp [pushText, other, ih]

theorem modifyProposal_modifyProposal (callId : ToolCallId)
    (first second : String → Bool → String × Bool) (blocks : List PublicationAuditBlock) :
    modifyProposal callId second (modifyProposal callId first blocks) = modifyProposal callId
        (fun released complete => second (first released complete).1 (first released complete).2)
        blocks := by
  induction blocks with
  | nil => rfl
  | cons block blocks ih =>
    cases block with
    | proposedToolCall blockIndex existing toolId name released complete =>
      by_cases mine : existing = callId
      · simp [modifyProposal, mine]
      · simp [modifyProposal, mine, ih]
    | _ => simp [modifyProposal, ih]

/-- The audit of a merged suffix is the audit of its parts. -/
theorem consolidatePayload_merge [FloatText] {first : PublicationPayload}
    (merges : first.merge second = some merged) (blocks : List PublicationAuditBlock) :
    consolidatePayload (consolidatePayload blocks first) second =
      consolidatePayload blocks merged := by
  obtain ⟨target, before, after, rfl, rfl, rfl⟩ := merge_eq_some_iff.mp merges
  cases target with
  | «arguments» blockIndex callId =>
    simp only [ofSuffix, consolidatePayload, modifyProposal_modifyProposal, String.append_assoc]
  | _ => exact pushText_pushText ..

end RustX.Publication
