import RustX.Conversation.Projected

/-!
Which prefix of a history a compaction replaces by a summary: boundaries with no open tool
call, below everything that must stay, priced exactly before one is chosen.
-/
namespace RustX.Context

open Checked Conversation
open Recovery (MessageId)
open Inbox (UserSource)

inductive ContextErrorKind
  | invalidConfiguration | cannotFit | searchIncomplete | malformedHistory | noProgress
  | cancelled | internal
  deriving DecidableEq

structure ContextError where
  kind : ContextErrorKind
  message : String
  deriving DecidableEq

structure ContextConfig where
  contextWindowTokens : Nat
  reserveTokens : Nat
  keepRecentTokens : Nat

def ContextConfig.softInputLimit (config : ContextConfig) (maxOutputTokens : Nat) :
    Except ContextError Nat :=
  let window := config.contextWindowTokens
  let reserve := config.reserveTokens
  if window ≤ reserve then
    .error ⟨.invalidConfiguration,
      s!"context_window_tokens {window} must exceed reserve_tokens {reserve}"⟩
  else if window - reserve ≤ maxOutputTokens then
    .error ⟨.invalidConfiguration,
      s!"context_window_tokens {window} must exceed reserve_tokens {reserve} + max_output_tokens {maxOutputTokens}"⟩
  else .ok (window - reserve - maxOutputTokens)

/-- A provider counted more tokens than were estimated. -/
structure EstimateCorrection where
  estimatedTokens : Nat
  observedTokens : Nat
  exceeds : estimatedTokens < observedTokens

/-- A budget in the space of estimates; never zero. -/
def EstimateCorrection.apply (correction : EstimateCorrection) (budget : Nat) : Nat :=
  let scaled := budget * correction.estimatedTokens / correction.observedTokens
  if scaled = 0 then 1 else scaled

structure CompactionBudgets where
  primaryOutputBudget : Nat
  summaryOutputBudget : Nat
  summaryInputLimit : Nat

structure CompactionConstraints where
  mustCoverThrough : Option MessageId := none
  freshInbound : Option (List MessageId) := none
  protectedContextIds : List MessageId := []
  stagedRequestContext : List MessageBlock := []
  carryover : Option RenderedUnresolvedOutputCarryover := none
  carryoverAnchor : Option RequestOnlyInsertionAnchor := none
  estimateCorrection : Option EstimateCorrection := none

/-- The estimator may be any function. -/
structure ContextEngine (Tool : Type) where
  config : ContextConfig
  estimateModelInput : List ModelInputMessage → String → List Tool → Nat
  supportsMonotoneCompaction : List ModelInputMessage → Bool

def assembleContextInput (historical : List ModelInputMessage) (staged : List MessageBlock)
    (carryover : Option RenderedUnresolvedOutputCarryover)
    (anchor : Option RequestOnlyInsertionAnchor) : Except String (List ModelInputMessage) :=
  let messages := historical ++ staged.map .canonical
  match carryover with
  | none => .ok messages
  | some carryover => do
    let position ← match anchor with
      | none => .error "request-only carryover has no frozen insertion anchor"
      | some .afterCanonical => .ok historical.length
      | some (.beforeMessage id) =>
        match messages.findIdx? fun message => message.canonicalId = some id with
        | some position => .ok position
        | none =>
          .error s!"request-only carryover anchor message {id} is absent from the request"
    return messages.insertIdx position (.requestOnly (.unresolvedOutputCarryover carryover))

def summaryInstruction : String := "Summarize the following retired conversation history so a later primary model turn can continue the work without re-reading the retired span. When the retired history contains an earlier summary, update and merge it into one coherent new summary; do not repeat it verbatim as a separate section.

Output the summary in EXACTLY this Markdown structure, with these exact headings and nothing before the first heading or after the last section:

## Goal

[What is the user trying to accomplish?]

## Constraints & Preferences

- [Constraints, preferences, requirements]
- [Or \"(none)\"]

## Progress

### Done

- [x] [Completed work]

### In Progress

- [ ] [Current work]

### Blocked

- [Current blockers]

## Key Decisions

- **[Decision]**: [Brief rationale]

## Next Steps

1. [Ordered next action]

## Critical Context

- [Important data, examples, references]
- [Or \"(none)\"]

Preserve relevant exact details: file paths, type and function names, important error strings, critical values, user constraints, and the rationale behind key decisions. Treat Agent Status and other runtime observations as historical evidence, not live authority: for example, observations that a task was running at one time and completed later may be summarized as having run earlier and completed, never as a claim about what is currently running or completed. If an Agent Status section is absent from a later observation, do not infer lifecycle completion or disappearance unless that section's explicit contract says absence has that meaning. Output only the summary Markdown; do not wrap it in code fences."

/-- The rendering of one message into parts is a parameter; parts are joined by a blank
line. -/
def appendSummaryMessage (parts : ModelInputMessage → List String) (message : ModelInputMessage)
    (transcript : List Char) : List Char :=
  (parts message).foldl (fun transcript part =>
    (if transcript.isEmpty then transcript else transcript ++ ['\n', '\n']) ++ part.toList)
    transcript

def renderTranscript (parts : ModelInputMessage → List String)
    (retired : List ModelInputMessage) : List Char :=
  retired.foldl (fun transcript message => appendSummaryMessage parts message transcript) []

def summaryModelInput (transcript : List Char) : List ModelInputMessage :=
  let text := summaryInstruction ++ "\n\n<retired-conversation>\n" ++ String.ofList transcript ++
    "\n</retired-conversation>"
  [.derived { message := .user [.text text] .runtime .message none, sources := []
              checkpointSources := [], transformations := [.summary] }]

structure Cost where
  summary : Nat
  primary : Nat
  recent : Nat

/-- What one plan is about. `signal` says whether the n-th look at the cancellation signal
finds it set. -/
structure Planner (Tool : Type) where
  engine : ContextEngine Tool
  parts : ModelInputMessage → List String
  input : List ModelInputMessage
  prompt : String
  tools : List Tool
  budgets : CompactionBudgets
  constraints : CompactionConstraints
  signal : Nat → Bool

structure SearchState where
  looks : Nat := 0
  cache : List (Nat × Cost) := []

abbrev Planning := StateT SearchState (Except ContextError)

/-- What the scan of the history has found: open calls by id with their number, and for
each boundary the length of the transcript there. -/
structure Scan where
  pending : List (ToolCallId × Nat) := []
  pendingCount : Nat := 0
  boundaries : List (Nat × Nat) := []
  transcript : List Char := []

def Scan.openCall (scan : Scan) (call : ToolCall) : Scan :=
  { scan with
    pending := Assoc.insert call.id ((scan.pending.lookup call.id).getD 0 + 1) scan.pending
    pendingCount := scan.pendingCount + 1 }

def Scan.closeCall (scan : Scan) (id : ToolCallId) : Except ContextError Scan :=
  match scan.pending.lookup id with
  | none => .error ⟨.malformedHistory, "orphan projected ToolResult"⟩
  | some count =>
    .ok { scan with
      pending := if count - 1 = 0 then scan.pending.filter fun entry => entry.1 ≠ id
        else Assoc.insert id (count - 1) scan.pending
      pendingCount := scan.pendingCount - 1 }

def Scan.calls (scan : Scan) : ModelInputMessage → Except ContextError Scan := fun message =>
  match message.view with
  | .assistant content => .ok ((content.filterMap Conversation.AssistantContentBlock.call?).foldl openCall scan)
  | .tool id _ => scan.closeCall id
  | _ => .ok scan

namespace Planner

variable {Tool : Type} (planner : Planner Tool)

def cancellationPoint : Planning Unit := fun state =>
  if planner.signal state.looks then
    .error ⟨.cancelled, "compaction cancelled during historical planning"⟩
  else .ok ((), { state with looks := state.looks + 1 })

def everySixtyFour (index : Nat) : Planning Unit :=
  if index % 64 = 0 then planner.cancellationPoint else pure ()

def positions : List (MessageId × Nat) :=
  planner.input.zipIdx.filterMap fun (message, index) =>
    message.canonicalId.map (·, index)

def indexPositions : Planning (List (MessageId × Nat)) := do
  forM (List.range planner.input.length) planner.everySixtyFour
  return planner.positions

def minimum (positions : List (MessageId × Nat)) : Except ContextError Nat :=
  match planner.constraints.mustCoverThrough with
  | none => .ok 1
  | some id =>
    match positions.lookup id with
    | some index => .ok (index + 1)
    | none => .error ⟨.noProgress,
        "required continuation anchor is absent from historical projection"⟩

/-- The messages no summary may replace. -/
def protectedIds : List MessageId :=
  planner.constraints.protectedContextIds ++ planner.constraints.freshInbound.getD [] ++
    match planner.constraints.carryoverAnchor with
    | some (.beforeMessage id) => [id]
    | _ => []

def maximum (positions : List (MessageId × Nat)) : Except ContextError Nat := do
  forM (planner.constraints.freshInbound.getD []) fun id =>
    require (positions.lookup id).isSome ⟨.malformedHistory,
      "Fresh Inbound requires its Original fact; a Derived source mention cannot supply it"⟩
  return (planner.protectedIds.filterMap fun id => positions.lookup id).min?.getD planner.input.length

def scanMessage (min index : Nat) (scan : Scan) (message : ModelInputMessage) :
    Except ContextError Scan := do
  let scan ← scan.calls message
  let transcript := appendSummaryMessage planner.parts message scan.transcript
  let boundaries := if min ≤ index + 1 ∧ scan.pendingCount = 0 then
      scan.boundaries ++ [(index + 1, transcript.length)]
    else scan.boundaries
  return { scan with boundaries, transcript }

def scan (min : Nat) : Nat → Scan → List ModelInputMessage → Planning Scan
  | _, scan, [] => pure scan
  | index, found, message :: rest => do
    planner.everySixtyFour index
    let found ← planner.scanMessage min index found message
    scan min (index + 1) found rest

def assemble (historical : List ModelInputMessage) : Except ContextError (List ModelInputMessage) :=
  (assembleContextInput historical planner.constraints.stagedRequestContext
    planner.constraints.carryover planner.constraints.carryoverAnchor).mapError
    fun error => ⟨.malformedHistory, error⟩

/-- What replacing the messages before a boundary costs. -/
def price (scan : Scan) (boundary : Nat × Nat) : Planning Cost := do
  let summary := planner.engine.estimateModelInput
    (summaryModelInput (scan.transcript.take boundary.2)) "" []
  planner.cancellationPoint
  let planned ← planner.assemble (planner.input.drop boundary.1)
  let primary := planner.engine.estimateModelInput planned planner.prompt planner.tools
  planner.cancellationPoint
  let recent := planner.engine.estimateModelInput (planner.input.drop boundary.1) "" []
  planner.cancellationPoint
  return { summary, primary, recent }

def cached (index : Nat) : Planning (Option Cost) :=
  return (← get).cache.lookup index

def remember (index : Nat) (cost : Cost) : Planning Cost := do
  modify fun state => { state with cache := (index, cost) :: state.cache }
  return cost

def cost (scan : Scan) (index : Nat) : Planning Cost := do
  planner.cancellationPoint
  match ← cached index with
  | some cost => return cost
  | none => remember index (← planner.price scan (scan.boundaries.getD index (0, 0)))

/-- The first index the predicate fails at, when it holds on an initial interval. The
interval shrinks in every turn, so its length is enough fuel. -/
def bisect (scan : Scan) (predicate : Cost → Bool) : Nat → Nat → Nat → Planning Nat
  | 0, low, _ => pure low
  | fuel + 1, low, high =>
    if low < high then do
      let mid := low + (high - low) / 2
      if predicate (← planner.cost scan mid) then bisect scan predicate fuel (mid + 1) high
      else bisect scan predicate fuel low mid
    else pure low

def partition (scan : Scan) (predicate : Cost → Bool) : Planning Nat :=
  planner.bisect scan predicate scan.boundaries.length 0 scan.boundaries.length

def saturatingAdd (a b : Nat) : Nat :=
  min (a + b) (2 ^ 64 - 1)

def summaryFits (cost : Cost) : Bool :=
  cost.summary ≤ planner.budgets.summaryInputLimit

def primaryFits (limit : Nat) (cost : Cost) : Bool :=
  saturatingAdd cost.primary planner.budgets.summaryOutputBudget ≤ limit

/-- Summary fits form an initial interval; primary fits a final one. -/
def selectMonotone (scan : Scan) (limit : Nat) : Planning (Option Nat) := do
  let upper ← planner.partition scan planner.summaryFits
  let lower ← planner.partition scan fun cost => !planner.primaryFits limit cost
  if upper ≤ lower then return none
  let recent ← planner.partition scan fun cost =>
    decide (planner.engine.config.keepRecentTokens ≤ cost.recent)
  return some (if lower < recent then min upper recent - 1 else lower)

/-- The preferred boundary, if one is met, and the last one that fits. -/
def descend (scan : Scan) (limit : Nat) : List Nat → Option Nat → Planning (Option Nat × Option Nat)
  | [], fallback => pure (none, fallback)
  | index :: rest, fallback => do
    let cost ← planner.cost scan index
    if planner.summaryFits cost && planner.primaryFits limit cost then
      if planner.engine.config.keepRecentTokens ≤ cost.recent then
        return (some index, some index)
      descend scan limit rest (some index)
    else descend scan limit rest fallback

def maxGenericCandidates : Nat := 64

def selectGeneric (scan : Scan) (limit : Nat) : Planning (Option Nat) := do
  let eligible := scan.boundaries.length
  let examined := min eligible maxGenericCandidates
  let found ← planner.descend scan limit ((List.range eligible).reverse.take examined) none
  if found.1.isNone && decide (examined < eligible) then do
    planner.cancellationPoint
    throw ⟨.searchIncomplete, s!"compaction candidate search incomplete: inspected {examined} of {eligible} eligible boundaries; estimator has no monotone accounting guarantee"⟩
  else return found.1.or found.2

def limit : Except ContextError Nat := do
  let limit ← planner.engine.config.softInputLimit planner.budgets.primaryOutputBudget
  return (planner.constraints.estimateCorrection.map (·.apply limit)).getD limit

/-- The authoritative check of the selected boundary. -/
def confirm (scan : Scan) (limit max : Nat) (selected : Option Nat) : Planning Nat := do
  planner.cancellationPoint
  match selected with
  | none => throw ⟨if max = 0 then .noProgress else .cannotFit,
      "no complete historical prefix satisfies summary, primary and core-retention budgets"⟩
  | some index =>
    let cost ← planner.cost scan index
    if !planner.summaryFits cost || !planner.primaryFits limit cost then
      throw ⟨.internal, "estimator violated its monotone compaction contract"⟩
    planner.cancellationPoint
    return (scan.boundaries.getD index (0, 0)).1

structure Survey where
  limit : Nat
  max : Nat
  scan : Scan

def survey : Planning Survey := do
  planner.cancellationPoint
  let limit ← planner.limit
  let positions ← planner.indexPositions
  let min ← planner.minimum positions
  let max ← planner.maximum positions
  let scan ← planner.scan min 0 {} (planner.input.take max)
  return { limit, max, scan }

/-- The complete search where the estimator supports it, else a bounded one. -/
def selectIndex (complete : List ModelInputMessage) (scan : Scan) (limit : Nat) :
    Planning (Option Nat) :=
  if planner.engine.supportsMonotoneCompaction complete && !scan.boundaries.isEmpty then
    planner.selectMonotone scan limit
  else planner.selectGeneric scan limit

def select (survey : Survey) : Planning Nat := do
  let complete ← planner.assemble planner.input
  let selected ← planner.selectIndex complete survey.scan survey.limit
  planner.confirm survey.scan survey.limit survey.max selected

def summaryPrefix : Planning Nat := do
  planner.select (← planner.survey)

def plan : Except ContextError Nat :=
  (planner.summaryPrefix.run {}).map Prod.fst

end Planner

end RustX.Context
