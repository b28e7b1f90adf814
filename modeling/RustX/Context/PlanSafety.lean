import RustX.Context.Planning

/-!
Every compaction plan is safe.
-/
namespace RustX.Context

open Checked Conversation List
open Recovery (MessageId)

def callIds (message : ModelInputMessage) : List ToolCallId :=
  match message.view with
  | .assistant content => (content.filterMap Conversation.AssistantContentBlock.call?).map ToolCall.id
  | _ => []

def resultIds (message : ModelInputMessage) : List ToolCallId :=
  match message.view with
  | .tool id _ => [id]
  | _ => []

def callCount (id : ToolCallId) (messages : List ModelInputMessage) : Nat :=
  (messages.flatMap callIds).count id

def resultCount (id : ToolCallId) (messages : List ModelInputMessage) : Nat :=
  (messages.flatMap resultIds).count id

section Counts

variable (id : ToolCallId) (before after : List ModelInputMessage)

theorem callCount_append :
    callCount id (before ++ after) = callCount id before + callCount id after := by
  simp [callCount]

theorem resultCount_append :
    resultCount id (before ++ after) = resultCount id before + resultCount id after := by
  simp [resultCount]

end Counts

def Answered (messages : List ModelInputMessage) : Prop :=
  ∀ id, callCount id messages = resultCount id messages

def Unorphaned (messages : List ModelInputMessage) : Prop :=
  ∀ index id result, messages[index]?.map ModelInputMessage.view = some (.tool id result) →
    resultCount id (messages.take index) < callCount id (messages.take index)

/-- What the scan knows of the messages it has seen. The open calls are a list of ids, of
which `pending` keeps the counts. -/
structure Scan.Counts (scan : Scan) (seen : List ModelInputMessage) (unresolved : List ToolCallId) :
    Prop where
  pending : ∀ id, scan.pending.lookup id =
    if unresolved.count id = 0 then none else some (unresolved.count id)
  total : scan.pendingCount = unresolved.length
  balance : ∀ id, unresolved.count id + resultCount id seen = callCount id seen

variable {unresolved : List ToolCallId}

theorem Scan.openCall_pending {scan : Scan} (pending : ∀ id, scan.pending.lookup id =
      if unresolved.count id = 0 then none else some (unresolved.count id)) (call : ToolCall) :
    ∀ id, (scan.openCall call).pending.lookup id = if (call.id :: unresolved).count id = 0 then none
      else some ((call.id :: unresolved).count id) := by
  intro id
  by_cases same : id = call.id
  · subst same
    rw [Scan.openCall, Assoc.lookup_insert_self, pending]
    by_cases none : unresolved.count call.id = 0 <;> simp [none]
  · rw [Scan.openCall, Assoc.lookup_insert_of_ne same, pending id, count_cons_of_ne (Ne.symm same)]

theorem Scan.openCalls_counts (calls : List ToolCall) {scan : Scan}
    (pending : ∀ id, scan.pending.lookup id =
      if unresolved.count id = 0 then none else some (unresolved.count id))
    (total : scan.pendingCount = unresolved.length) :
    ∃ now : List ToolCallId,
      (∀ id, (calls.foldl openCall scan).pending.lookup id =
        if now.count id = 0 then none else some (now.count id)) ∧
      (calls.foldl openCall scan).pendingCount = now.length ∧
      ∀ id, now.count id = unresolved.count id + (calls.map ToolCall.id).count id := by
  induction calls generalizing scan unresolved with
  | nil => exact ⟨unresolved, pending, total, by simp⟩
  | cons call calls ih =>
    obtain ⟨now, lookups, length, counts⟩ :=
      ih (openCall_pending pending call) (by simp [openCall, total])
    refine ⟨now, lookups, length, fun id => ?_⟩
    rw [counts id, map_cons, count_cons, count_cons]
    omega

theorem Scan.openCalls_kept (calls : List ToolCall) (scan : Scan) :
    (calls.foldl openCall scan).boundaries = scan.boundaries ∧
      (calls.foldl openCall scan).transcript = scan.transcript := by
  induction calls generalizing scan with
  | nil => exact ⟨rfl, rfl⟩
  | cons call calls ih => exact ih _

variable {seen : List ModelInputMessage}

theorem Scan.closeCall_counts {scan after : Scan} (counts : scan.Counts seen unresolved)
    {id : ToolCallId} (closed : scan.closeCall id = .ok after) :
    id ∈ unresolved ∧ (∀ other, after.pending.lookup other =
        if (unresolved.erase id).count other = 0 then none
        else some ((unresolved.erase id).count other)) ∧
      after.pendingCount = (unresolved.erase id).length ∧
      after.boundaries = scan.boundaries ∧ after.transcript = scan.transcript := by
  unfold closeCall at closed
  have known := counts.pending id
  split at closed
  · cases closed
  rename_i count found
  have positive : unresolved.count id ≠ 0 := by
    intro zero
    rw [found, if_pos zero] at known
    cases known
  rw [found, if_neg positive, Option.some.injEq] at known
  have member : id ∈ unresolved := count_pos_iff.mp (by omega)
  cases closed
  refine ⟨member, fun other => ?_, by simp [counts.total, length_erase_of_mem member], rfl, rfl⟩
  by_cases same : other = id
  · subst same
    rw [count_erase_self, known]
    split
    · exact Assoc.lookup_filter_self _ _
    · exact Assoc.lookup_insert_self _ _ _
  · rw [count_erase_of_ne same, ← counts.pending]
    split
    · exact Assoc.lookup_filter_ne _ same
    · exact Assoc.lookup_insert_of_ne same _ _

theorem callCount_singleton (id : ToolCallId) (message : ModelInputMessage) :
    callCount id [message] = (callIds message).count id := by
  simp [callCount]

theorem resultCount_singleton (id : ToolCallId) (message : ModelInputMessage) :
    resultCount id [message] = (resultIds message).count id := by
  simp [resultCount]

theorem Scan.calls_counts {after} {scan : Scan} (counts : scan.Counts seen unresolved)
    (done : scan.calls message = .ok after) :
    (∃ now, after.Counts (seen ++ [message]) now) ∧ after.boundaries = scan.boundaries ∧
      after.transcript = scan.transcript := by
  unfold Scan.calls at done
  split at done
  · rename_i content seenAs
    cases done
    obtain ⟨now, pending, total, added⟩ := openCalls_counts
      _ counts.pending counts.total
    refine ⟨⟨now, pending, total, fun id => ?_⟩, openCalls_kept _ _⟩
    have balance := counts.balance id
    rw [added id, resultCount_append, callCount_append, callCount_singleton, resultCount_singleton]
    simp only [callIds, resultIds, seenAs, count_nil]
    omega
  · rename_i call result seenAs
    obtain ⟨member, pending, total, kept⟩ := closeCall_counts counts done
    refine ⟨⟨unresolved.erase call, pending, total, fun id => ?_⟩, kept⟩
    have balance := counts.balance id
    rw [resultCount_append, callCount_append, callCount_singleton, resultCount_singleton]
    simp only [callIds, resultIds, seenAs, count_nil]
    by_cases same : id = call
    · subst same
      have positive := count_pos_iff.mpr member
      rw [count_erase_self, count_singleton_self]
      omega
    · rw [count_erase_of_ne same, count_singleton, if_neg (by simpa using Ne.symm same)]
      omega
  · rename_i notCall notResult
    cases done
    refine ⟨⟨unresolved, counts.pending, counts.total, fun id => ?_⟩, rfl, rfl⟩
    have balance := counts.balance id
    have none : callIds message = [] ∧ resultIds message = [] := by
      unfold callIds resultIds
      cases seenAs : message.view with
      | assistant content => exact absurd seenAs (notCall content)
      | tool call result => exact absurd seenAs (notResult call result)
      | _ => exact ⟨rfl, rfl⟩
    rw [resultCount_append, callCount_append, callCount_singleton, resultCount_singleton,
      none.1, none.2]
    simpa using balance

/-- A place where a history may be cut: the transcript is that of the messages before it,
and all their calls are answered. -/
structure Boundary (parts : ModelInputMessage → List String) (min : Nat)
    (seen : List ModelInputMessage) (transcript : List Char) (n length : Nat) : Prop where
  least : min ≤ n
  positive : 1 ≤ n
  within : n ≤ seen.length
  transcript : ∃ rest, transcript = renderTranscript parts (seen.take n) ++ rest ∧
    length = (renderTranscript parts (seen.take n)).length
  answered : Answered (seen.take n)

structure Scan.Reads (scan : Scan) (parts : ModelInputMessage → List String) (min : Nat)
    (seen : List ModelInputMessage) : Prop where
  counts : ∃ unresolved, scan.Counts seen unresolved
  transcript : scan.transcript = renderTranscript parts seen
  boundaries : ∀ entry ∈ scan.boundaries,
    Boundary parts min seen scan.transcript entry.1 entry.2

theorem appendSummaryMessage_extends (parts : ModelInputMessage → List String)
    (message : ModelInputMessage) (transcript : List Char) :
    ∃ rest, appendSummaryMessage parts message transcript = transcript ++ rest := by
  unfold appendSummaryMessage
  generalize parts message = texts
  induction texts generalizing transcript with
  | nil => exact ⟨[], (append_nil _).symm⟩
  | cons part texts ih =>
    obtain ⟨rest, extends'⟩ := ih _
    rw [foldl_cons, extends']
    split
    · exact ⟨part.toList ++ rest, append_assoc ..⟩
    · exact ⟨['\n', '\n'] ++ part.toList ++ rest, by simp⟩

theorem renderTranscript_snoc (parts : ModelInputMessage → List String)
    (seen : List ModelInputMessage) (message : ModelInputMessage) :
    renderTranscript parts (seen ++ [message]) =
      appendSummaryMessage parts message (renderTranscript parts seen) := by
  simp [renderTranscript]

/-- A boundary stays one when the scan goes on. -/
theorem Boundary.snoc {length} {parts : ModelInputMessage → List String} {min : Nat}
    {transcript : List Char}
    (boundary : Boundary parts min seen transcript n length) (message : ModelInputMessage) :
    Boundary parts min (seen ++ [message]) (appendSummaryMessage parts message transcript)
      n length := by
  have same : (seen ++ [message]).take n = seen.take n := by
    rw [take_append_of_le_length boundary.within]
  obtain ⟨rest, read, size⟩ := boundary.transcript
  obtain ⟨more, extended⟩ := appendSummaryMessage_extends parts message transcript
  refine ⟨boundary.least, boundary.positive, ?_, ⟨rest ++ more, ?_, ?_⟩, ?_⟩
  · have := boundary.within
    simp only [length_append, length_singleton]
    omega
  · rw [extended, same, read, append_assoc]
  · rw [same, size]
  · rw [same]
    exact boundary.answered

namespace Planner

variable {Tool : Type} {planner : Planner Tool}

theorem scanMessage_reads {after} {min : Nat} {scan : Scan}
    (reads : scan.Reads planner.parts min seen)
    (done : planner.scanMessage min seen.length scan message = .ok after) :
    after.Reads planner.parts min (seen ++ [message]) := by
  simp only [scanMessage, bind_eq_ok_iff, pure_eq_ok_iff] at done
  obtain ⟨counted, calls, rfl⟩ := done
  obtain ⟨unresolved, counts⟩ := reads.counts
  obtain ⟨⟨now, counted'⟩, boundaries, transcript⟩ := Scan.calls_counts counts calls
  have rendered : appendSummaryMessage planner.parts message counted.transcript =
      renderTranscript planner.parts (seen ++ [message]) := by
    rw [renderTranscript_snoc, transcript, reads.transcript]
  have old : ∀ entry ∈ counted.boundaries, Boundary planner.parts min (seen ++ [message])
      (appendSummaryMessage planner.parts message counted.transcript) entry.1 entry.2 := by
    intro entry member
    rw [boundaries] at member
    rw [transcript]
    exact (reads.boundaries entry member).snoc message
  refine ⟨⟨now, counted'.pending, counted'.total, counted'.balance⟩, rendered, ?_⟩
  intro entry member
  split at member
  · rename_i cut
    rcases mem_append.mp member with earlier | new
    · exact old entry earlier
    obtain rfl := mem_singleton.mp new
    have whole : (seen ++ [message]).take (seen.length + 1) = seen ++ [message] := by
      rw [take_of_length_le (by simp)]
    refine ⟨cut.1, by omega, by simp, ⟨[], ?_, ?_⟩, ?_⟩
    · simp only [whole, append_nil]
      exact rendered
    · rw [whole, rendered]
    · rw [whole]
      intro id
      have balance := counted'.balance id
      have none : now = [] := eq_nil_of_length_eq_zero (counted'.total ▸ cut.2)
      rw [none, count_nil] at balance
      omega
  · exact old entry member

structure Prices (planner : Planner Tool) (scan : Scan) (boundary : Nat × Nat) (cost : Cost) :
    Prop where
  summary : cost.summary = planner.engine.estimateModelInput
    (summaryModelInput (scan.transcript.take boundary.2)) "" []
  primary : ∃ planned, planner.assemble (planner.input.drop boundary.1) = .ok planned ∧
    cost.primary = planner.engine.estimateModelInput planned planner.prompt planner.tools

def Memoizes (planner : Planner Tool) (scan : Scan) (state : SearchState) : Prop :=
  ∀ entry ∈ state.cache, planner.Prices scan (scan.boundaries.getD entry.1 (0, 0)) entry.2

section Search

variable {keeps : SearchState → Prop} {scan : Scan}

theorem cancellationPoint_ensures
    (anyLook : ∀ state, keeps state → keeps { state with looks := state.looks + 1 }) :
    Ensures keeps planner.cancellationPoint fun _ => True := by
  intro state held
  unfold cancellationPoint
  split
  · trivial
  · exact ⟨anyLook state held, trivial⟩

theorem cancellationPoint_memoizes :
    Ensures (planner.Memoizes scan) planner.cancellationPoint fun _ => True :=
  cancellationPoint_ensures fun _ held => held

theorem price_ensures (boundary : Nat × Nat) :
    Ensures (planner.Memoizes scan) (planner.price scan boundary)
      (planner.Prices scan boundary) := by
  refine cancellationPoint_memoizes.bind fun _ _ => ?_
  refine (ensures_lift fun planned assembled => assembled).bind fun planned assembled => ?_
  refine cancellationPoint_memoizes.bind fun _ _ => ?_
  refine cancellationPoint_memoizes.bind fun _ _ => ensures_pure ?_
  exact ⟨rfl, planned, assembled, rfl⟩

theorem cached_ensures (index : Nat) :
    Ensures (planner.Memoizes scan) (cached index) fun found => ∀ cost, found = some cost →
      planner.Prices scan (scan.boundaries.getD index (0, 0)) cost :=
  fun _ held => ⟨held, fun _ found => held _ (Assoc.mem_of_lookup found)⟩

theorem remember_ensures {index : Nat} {cost : Cost}
    (prices : planner.Prices scan (scan.boundaries.getD index (0, 0)) cost) :
    Ensures (planner.Memoizes scan) (remember index cost)
      (planner.Prices scan (scan.boundaries.getD index (0, 0))) :=
  fun _ held => ⟨forall_mem_cons.mpr ⟨prices, held⟩, prices⟩

theorem cost_ensures (index : Nat) : Ensures (planner.Memoizes scan) (planner.cost scan index)
      (planner.Prices scan (scan.boundaries.getD index (0, 0))) := by
  refine cancellationPoint_memoizes.bind fun _ _ => ?_
  refine (cached_ensures index).bind fun found known => ?_
  cases found with
  | some cost => exact ensures_pure (known cost rfl)
  | none => exact (price_ensures _).bind fun cost prices => remember_ensures prices

theorem bisect_ensures (predicate : Cost → Bool) (fuel low high : Nat) (ordered : low ≤ high) :
    Ensures (planner.Memoizes scan) (planner.bisect scan predicate fuel low high)
      fun found => found ≤ high := by
  induction fuel generalizing low high with
  | zero => exact ensures_pure ordered
  | succ fuel ih =>
    unfold bisect
    split
    · refine (cost_ensures _).bind fun cost _ => ?_
      split
      · exact ih _ _ (by omega)
      · exact (ih low _ (by omega)).mono fun found bound => by omega
    · exact ensures_pure ordered

theorem partition_ensures (predicate : Cost → Bool) :
    Ensures (planner.Memoizes scan) (planner.partition scan predicate)
      fun found => found ≤ scan.boundaries.length :=
  bisect_ensures predicate _ 0 _ (Nat.zero_le _)

def Selects (scan : Scan) (selected : Option Nat) : Prop :=
  ∀ index, selected = some index → index < scan.boundaries.length

theorem selectMonotone_ensures (limit : Nat) :
    Ensures (planner.Memoizes scan) (planner.selectMonotone scan limit) (Selects scan) := by
  refine (partition_ensures _).bind fun upper upperBound => ?_
  refine (partition_ensures _).bind fun lower _ => ?_
  split
  · exact ensures_pure nofun
  · refine (partition_ensures _).bind fun recent recentBound => ensures_pure ?_
    rintro index same
    cases same
    split <;> omega

theorem descend_ensures (limit : Nat) (indices : List Nat) (fallback : Option Nat)
    (listed : ∀ index ∈ indices, index < scan.boundaries.length) (fits : Selects scan fallback) :
    Ensures (planner.Memoizes scan) (planner.descend scan limit indices fallback)
      fun found => Selects scan found.1 ∧ Selects scan found.2 := by
  induction indices generalizing fallback with
  | nil => exact ensures_pure ⟨nofun, fits⟩
  | cons index rest ih =>
    have here : Selects scan (some index) := by
      intro other same
      cases same
      exact listed index mem_cons_self
    have later := fun other member => listed other (.tail index member)
    refine (cost_ensures index).bind fun cost _ => ?_
    split
    · split
      · exact ensures_pure ⟨here, here⟩
      · exact ih _ later here
    · exact ih _ later fits

theorem selectGeneric_ensures (limit : Nat) :
    Ensures (planner.Memoizes scan) (planner.selectGeneric scan limit) (Selects scan) := by
  have listed : ∀ index ∈ (List.range scan.boundaries.length).reverse.take
      (min scan.boundaries.length maxGenericCandidates), index < scan.boundaries.length := by
    intro index member
    simpa using mem_of_mem_take member
  refine (descend_ensures limit _ none listed nofun).bind fun found selects => ?_
  split
  · exact cancellationPoint_memoizes.bind fun _ _ => ensures_throw
  refine ensures_pure fun index chosen => ?_
  cases preferred : found.1 with
  | none =>
    rw [preferred, Option.none_or] at chosen
    exact selects.2 index chosen
  | some other =>
    rw [preferred, Option.some_or] at chosen
    exact selects.1 index (chosen ▸ preferred)

/-- What a returned plan has been checked for. -/
def Confirmed (planner : Planner Tool) (scan : Scan) (limit n : Nat) : Prop :=
  ∃ length, (n, length) ∈ scan.boundaries ∧ ∃ cost, planner.Prices scan (n, length) cost ∧
    planner.summaryFits cost = true ∧ planner.primaryFits limit cost = true

theorem confirm_ensures {limit max : Nat} (selects : Selects scan selected) :
    Ensures (planner.Memoizes scan) (planner.confirm scan limit max selected)
      (planner.Confirmed scan limit) := by
  refine cancellationPoint_memoizes.bind fun _ _ => ?_
  cases selected with
  | none => exact ensures_throw
  | some index =>
    have within := selects index rfl
    refine (cost_ensures index).bind fun cost prices => ?_
    split
    · exact ensures_throw
    rename_i fits
    refine cancellationPoint_memoizes.bind fun _ _ => ensures_pure ?_
    have fits : planner.summaryFits cost = true ∧ planner.primaryFits limit cost = true := by
      simpa using fits
    have found : scan.boundaries.getD index (0, 0) = scan.boundaries[index] := by
      rw [getD_eq_getElem?_getD, getElem?_eq_getElem, Option.getD_some]
    refine ⟨(scan.boundaries.getD index _).2, ?_, cost, prices, fits⟩
    rw [found]
    exact getElem_mem within

end Search

structure Surveyed (planner : Planner Tool) (survey : Survey) : Prop where
  limit : planner.limit = .ok survey.limit
  max : planner.maximum planner.positions = .ok survey.max
  scan : ∃ min, planner.minimum planner.positions = .ok min ∧
    survey.scan.Reads planner.parts min (planner.input.take survey.max)

section Survey

/-- Before the search nothing is memoized. -/
def Fresh (state : SearchState) : Prop :=
  state.cache = []

theorem cancellationPoint_fresh : Ensures Fresh planner.cancellationPoint fun _ => True :=
  cancellationPoint_ensures fun _ held => held

theorem everySixtyFour_fresh (index : Nat) :
    Ensures Fresh (planner.everySixtyFour index) fun _ => True := by
  unfold everySixtyFour
  split
  · exact cancellationPoint_fresh
  · exact ensures_pure trivial

theorem scan_ensures (min : Nat) (rest : List ModelInputMessage) {scan : Scan}
    (reads : scan.Reads planner.parts min seen) :
    Ensures Fresh (planner.scan min seen.length scan rest)
      fun after => after.Reads planner.parts min (seen ++ rest) := by
  induction rest generalizing seen scan with
  | nil => exact ensures_pure (by simpa using reads)
  | cons message rest ih =>
    refine (everySixtyFour_fresh _).bind fun _ _ => ?_
    refine (ensures_lift fun after done => scanMessage_reads reads done).bind fun after reads => ?_
    have later := ih reads
    rw [length_append, length_singleton, append_assoc, singleton_append] at later
    exact later

theorem survey_ensures : Ensures Fresh planner.survey planner.Surveyed := by
  refine cancellationPoint_fresh.bind fun _ _ => ?_
  refine (ensures_lift fun limit known => known).bind fun limit limited => ?_
  have indexed : Ensures Fresh planner.indexPositions fun found => found = planner.positions :=
    (ensures_forM everySixtyFour_fresh).bind fun _ _ => ensures_pure rfl
  refine indexed.bind fun found same => ?_
  subst same
  refine (ensures_lift fun min known => known).bind fun min least => ?_
  refine (ensures_lift fun max known => known).bind fun max most => ?_
  have empty : Scan.Reads {} planner.parts min [] :=
    ⟨⟨[], by simp, rfl, by simp [callCount, resultCount]⟩, rfl, by simp⟩
  refine (scan_ensures min _ empty).bind fun scan reads => ?_
  exact ensures_pure ⟨limited, most, min, least, reads⟩

theorem select_ensures (survey : Survey) :
    Ensures (planner.Memoizes survey.scan) (planner.select survey)
      (planner.Confirmed survey.scan survey.limit) := by
  have assembled : Ensures (planner.Memoizes survey.scan)
      (monadLift (planner.assemble planner.input)) fun _ => True :=
    ensures_lift fun _ _ => trivial
  refine assembled.bind fun complete _ => ?_
  have selected : Ensures (planner.Memoizes survey.scan)
      (planner.selectIndex complete survey.scan survey.limit) (Selects survey.scan) := by
    unfold selectIndex
    split
    · exact selectMonotone_ensures _
    · exact selectGeneric_ensures _
  exact selected.bind fun _ selects => confirm_ensures selects

theorem plan_confirmed (planned : planner.plan = .ok n) :
    ∃ survey, planner.Surveyed survey ∧ planner.Confirmed survey.scan survey.limit n := by
  have yields : Yields (fun _ => True) (fun result => ∃ survey, planner.Surveyed survey ∧
      planner.Confirmed survey.scan survey.limit result.1) (planner.summaryPrefix {}) := by
    refine (survey_ensures {} rfl).bind fun (survey, state) surveyed => ?_
    have memoizes : planner.Memoizes survey.scan state := by
      intro entry member
      rw [show state.cache = [] from surveyed.1] at member
      cases member
    exact (select_ensures survey state memoizes).mono fun _ confirmed =>
      ⟨survey, surveyed.2, confirmed.2⟩
  unfold plan at planned
  cases ran : planner.summaryPrefix.run {} with
  | error error =>
    rw [ran] at planned
    cases planned
  | ok result =>
    rw [ran] at planned
    cases planned
    rw [show planner.summaryPrefix {} = .ok result from ran] at yields
    exact yields

end Survey

theorem lookup_positions_of_getElem? {messages : List ModelInputMessage} {id : MessageId} :
    ∀ {first index : Nat} {message : ModelInputMessage}, messages[index]? = some message →
      message.canonicalId = some id →
      ∃ position, position ≤ first + index ∧
        ((messages.zipIdx first).filterMap fun (message, index) =>
          message.canonicalId.map (·, index)).lookup id = some position := by
  induction messages with
  | nil => simp
  | cons head rest ih =>
    intro first index message found named
    by_cases here : head.canonicalId = some id
    · exact ⟨first, by omega, by simp [here]⟩
    cases index with
    | zero =>
      cases found
      exact absurd named here
    | succ index =>
      obtain ⟨position, bound, looked⟩ : ∃ position, position ≤ first + 1 + index ∧ _ :=
        ih found named
      refine ⟨position, by omega, ?_⟩
      cases other : head.canonicalId with
      | none => simpa [other] using looked
      | some name =>
        have differs : id ≠ name := fun same => here (same ▸ other)
        simpa [other, Assoc.lookup_cons_ite, differs] using looked

theorem canonicalId_of_lookup_positions {id : MessageId}
    (found : planner.positions.lookup id = some index) :
    ∃ message, planner.input[index]? = some message ∧ message.canonicalId = some id := by
  have member := Assoc.mem_of_lookup found
  simp only [positions, mem_filterMap] at member
  obtain ⟨⟨message, position⟩, listed, named⟩ := member
  simp only [Option.map_eq_some_iff, Prod.mk.injEq] at named
  obtain ⟨name, canonical, rfl, rfl⟩ := named
  exact ⟨message, mem_zipIdx_iff_getElem?.mp listed, canonical⟩

theorem not_protected_of_lt {max : Nat} (most : planner.maximum planner.positions = .ok max)
    (found : planner.input[index]? = some message) (before : index < max) {id : MessageId}
    (named : message.canonicalId = some id) : id ∉ planner.protectedIds := by
  intro listed
  obtain ⟨position, bound, looked⟩ : ∃ position, position ≤ 0 + index ∧
      planner.positions.lookup id = some position := lookup_positions_of_getElem? found named
  simp only [maximum, bind_eq_ok_iff, pure_eq_ok_iff] at most
  obtain ⟨_, -, rfl⟩ := most
  have member : position ∈ planner.protectedIds.filterMap fun id => planner.positions.lookup id :=
    mem_filterMap.mpr ⟨id, listed, looked⟩
  cases least : (planner.protectedIds.filterMap fun id => planner.positions.lookup id).min? with
  | none =>
    rw [min?_eq_none_iff] at least
    rw [least] at member
    cases member
  | some smallest =>
    have := (min?_eq_some_iff.mp least).2 position member
    rw [least, Option.getD_some] at before
    omega

end Planner

def ToolAt (messages : List ModelInputMessage) (index : Nat) (id : ToolCallId) : Prop :=
  ∃ result, messages[index]?.map ModelInputMessage.view = some (.tool id result)

def CallAt (messages : List ModelInputMessage) (place : Nat × Nat) (id : ToolCallId) : Prop :=
  ∃ content call, messages[place.1]?.map ModelInputMessage.view = some (.assistant content) ∧
    content[place.2]? = some (.toolCall call) ∧ call.id = id

/-- A way to read which call each result answers: an earlier one with its id, and no call
twice. -/
structure Pairing (messages : List ModelInputMessage) where
  call : Nat → Nat × Nat
  earlier : ∀ index id, ToolAt messages index id → (call index).1 < index
  answers : ∀ index id, ToolAt messages index id → CallAt messages (call index) id
  injective : ∀ first second id id', ToolAt messages first id → ToolAt messages second id' →
    call first = call second → first = second

section Pairing

variable {messages : List ModelInputMessage} {id : ToolCallId}

section

variable (messages : List ModelInputMessage)

theorem take_succ_cases (n : Nat) :
    messages[n]? = none ∧ messages.take (n + 1) = messages.take n ∨
      ∃ message, messages[n]? = some message ∧
        messages.take (n + 1) = messages.take n ++ [message] := by
  rw [take_add_one]
  cases messages[n]? <;> simp

/-- The results with an id in a prefix have distinct places there. -/
theorem exists_results (id : ToolCallId) (n : Nat) :
    ∃ places : List Nat, places.Nodup ∧ places.length = resultCount id (messages.take n) ∧
      ∀ place ∈ places, place < n ∧ ToolAt messages place id := by
  induction n with
  | zero => exact ⟨[], by simp, by simp [resultCount], by simp⟩
  | succ n ih =>
    obtain ⟨places, distinct, counted, each⟩ := ih
    have later : ∀ place ∈ places, place < n + 1 ∧ ToolAt messages place id := fun place member =>
      ⟨Nat.lt_succ_of_lt (each place member).1, (each place member).2⟩
    rcases take_succ_cases messages n with ⟨-, same⟩ | ⟨message, found, grown⟩
    · exact ⟨places, distinct, by rw [counted, same], later⟩
    rw [grown, resultCount_append, resultCount_singleton]
    by_cases here : ToolAt messages n id
    · refine ⟨n :: places, nodup_cons.mpr ⟨fun member => ?_, distinct⟩, ?_, ?_⟩
      · exact absurd (each n member).1 (Nat.lt_irrefl n)
      · obtain ⟨result, seen⟩ := here
        rw [found, Option.map_some, Option.some.injEq] at seen
        simp [resultIds, seen, counted]
      · exact forall_mem_cons.mpr ⟨⟨Nat.lt_succ_self n, here⟩, later⟩
    · refine ⟨places, distinct, ?_, later⟩
      have absent : (resultIds message).count id = 0 := by
        rw [count_eq_zero]
        intro member
        unfold resultIds at member
        split at member
        · rename_i other result seen
          obtain rfl := mem_singleton.mp member
          exact here ⟨result, by rw [found, Option.map_some, seen]⟩
        · cases member
      rw [counted, absent]
      rfl

theorem exists_blocks (content : List Conversation.AssistantContentBlock) (id : ToolCallId) :
    ∃ blocks : List Nat,
      blocks.length = ((content.filterMap Conversation.AssistantContentBlock.call?).map ToolCall.id).count id ∧
      ∀ block call, content[block]? = some (.toolCall call) → call.id = id → block ∈ blocks := by
  induction content with
  | nil => exact ⟨[], by simp, by simp⟩
  | cons head rest ih =>
    obtain ⟨blocks, counted, each⟩ := ih
    have shifted : ∀ block call, rest[block]? = some (.toolCall call) → call.id = id →
        block + 1 ∈ blocks.map Nat.succ := fun block call found named =>
      mem_map_of_mem (each block call found named)
    by_cases here : ∃ call, head = .toolCall call ∧ call.id = id
    · obtain ⟨call, rfl, rfl⟩ := here
      refine ⟨0 :: blocks.map Nat.succ, by simp [Conversation.AssistantContentBlock.call?, counted], ?_⟩
      intro block other found named
      cases block with
      | zero => exact mem_cons_self
      | succ block => exact .tail _ (shifted block other found named)
    · refine ⟨blocks.map Nat.succ, ?_, ?_⟩
      · rw [length_map, counted]
        cases head with
        | toolCall call =>
          have differs : call.id ≠ id := fun same => here ⟨call, rfl, same⟩
          simp [Conversation.AssistantContentBlock.call?, count_cons_of_ne differs]
        | _ => rfl
      · intro block other found named
        cases block with
        | zero =>
          cases found
          exact absurd ⟨other, rfl, named⟩ here
        | succ block => exact shifted block other found named

/-- The calls with an id in a prefix have no more places than their count. -/
theorem exists_calls (id : ToolCallId) (n : Nat) :
    ∃ places : List (Nat × Nat), places.length = callCount id (messages.take n) ∧
      ∀ place, place.1 < n → CallAt messages place id → place ∈ places := by
  induction n with
  | zero => exact ⟨[], by simp [callCount], by simp⟩
  | succ n ih =>
    obtain ⟨places, counted, each⟩ := ih
    rcases take_succ_cases messages n with ⟨absent, same⟩ | ⟨message, found, grown⟩
    · refine ⟨places, by rw [counted, same], fun place within call => ?_⟩
      refine each place (Nat.lt_of_le_of_ne (Nat.le_of_lt_succ within) fun here => ?_) call
      obtain ⟨content, _, seen, _⟩ := call
      simp [here, absent] at seen
    · rw [grown, callCount_append, callCount_singleton]
      cases seen : message.view with
      | assistant content =>
        obtain ⟨blocks, size, blockOf⟩ := exists_blocks content id
        refine ⟨places ++ blocks.map (n, ·), by simp [callIds, seen, counted, size], ?_⟩
        intro place within call
        rcases Nat.lt_or_ge place.1 n with earlier | here
        · exact mem_append_left _ (each place earlier call)
        · have at' : place.1 = n := by omega
          obtain ⟨other, issued, viewed, block, named⟩ := call
          rw [at', found, Option.map_some, seen, Option.some.injEq,
            ModelMessageView.assistant.injEq] at viewed
          subst viewed
          refine mem_append_right _ (mem_map.mpr ⟨place.2, blockOf _ _ block named, ?_⟩)
          rw [← at']
      | _ =>
        refine ⟨places, by simp [callIds, seen, counted], fun place within call => ?_⟩
        refine each place (Nat.lt_of_le_of_ne (Nat.le_of_lt_succ within) fun here => ?_) call
        obtain ⟨content, _, viewed, _⟩ := call
        simp [here, found, seen] at viewed

end

/-- Where all calls of a prefix are answered in it, no pairing leads across the cut. -/
theorem Pairing.closed (pairing : Pairing messages) (answered : Answered (messages.take n))
    (tool : ToolAt messages index id) : (pairing.call index).1 < n ↔ index < n := by
  constructor
  · intro within
    by_contra beyond
    obtain ⟨results, distinct, resultCount, eachResult⟩ := exists_results messages id n
    obtain ⟨calls, callCount, eachCall⟩ := exists_calls messages id n
    -- one more result than there are calls to answer
    have tools : ∀ place ∈ index :: results, ToolAt messages place id :=
      forall_mem_cons.mpr ⟨tool, fun place member => (eachResult place member).2⟩
    have separate : ((index :: results).map pairing.call).Nodup := by
      apply List.Nodup.map_on
      · intro first one second two same
        exact pairing.injective first second id id (tools first one) (tools second two) same
      · exact nodup_cons.mpr ⟨fun member => beyond (eachResult index member).1, distinct⟩
    have inside : (index :: results).map pairing.call ⊆ calls := by
      intro place member
      obtain ⟨source, listed, rfl⟩ := mem_map.mp member
      refine eachCall _ ?_ (pairing.answers source id (tools source listed))
      rcases mem_cons.mp listed with rfl | old
      · exact within
      · exact (pairing.earlier source id (eachResult source old).2).trans (eachResult source old).1
    have crowded := (subperm_of_subset separate inside).length_le
    have balance := answered id
    simp only [length_map, length_cons] at crowded
    omega
  · exact fun within => (pairing.earlier index id tool).trans within

end Pairing

section Cut

variable {messages : List ModelInputMessage} {n : Nat}

theorem Unorphaned.drop (unorphaned : Unorphaned messages) (answered : Answered (messages.take n)) :
    Unorphaned (messages.drop n) := by
  intro index id result found
  rw [getElem?_drop] at found
  have open' := unorphaned _ id result found
  have balance := answered id
  rw [take_add, resultCount_append, callCount_append] at open'
  omega

theorem answered_drop_iff (answered : Answered (messages.take n)) :
    Answered (messages.drop n) ↔ Answered messages := by
  refine forall_congr' fun id => ?_
  have balance := answered id
  have calls := callCount_append id (messages.take n) (messages.drop n)
  have results := resultCount_append id (messages.take n) (messages.drop n)
  rw [take_append_drop] at calls results
  omega

end Cut

namespace Planner

variable {Tool : Type} {planner : Planner Tool}

/-- A confirmed boundary prices the exact requests. -/
theorem Confirmed.priced {survey : Survey} (surveyed : planner.Surveyed survey)
    (confirmed : planner.Confirmed survey.scan survey.limit n) :
    ∃ min, planner.minimum planner.positions = .ok min ∧ min ≤ n ∧ 1 ≤ n ∧
      n ≤ survey.max ∧ n ≤ planner.input.length ∧ Answered (planner.input.take n) ∧
      planner.engine.estimateModelInput
        (summaryModelInput (renderTranscript planner.parts (planner.input.take n))) "" [] ≤
          planner.budgets.summaryInputLimit ∧
      ∃ remaining, planner.assemble (planner.input.drop n) = .ok remaining ∧
        saturatingAdd (planner.engine.estimateModelInput remaining planner.prompt planner.tools)
          planner.budgets.summaryOutputBudget ≤ survey.limit := by
  obtain ⟨min, least, reads⟩ := surveyed.scan
  obtain ⟨length, member, cost, prices, summaryFits, primaryFits⟩ := confirmed
  have boundary := reads.boundaries _ member
  obtain ⟨rest, read, size⟩ := boundary.transcript
  have within := boundary.within
  rw [length_take] at within
  have same : (planner.input.take survey.max).take n = planner.input.take n := by
    rw [take_take, Nat.min_eq_left (by omega)]
  have answered := boundary.answered
  simp only [same] at read size answered
  obtain ⟨remaining, assembled, priced⟩ := prices.primary
  refine ⟨min, least, boundary.least, boundary.positive, by omega, by omega, answered, ?_,
    remaining, assembled, ?_⟩
  · have fits := of_decide_eq_true summaryFits
    rw [prices.summary, read, size, take_left] at fits
    exact fits
  · have fits := of_decide_eq_true primaryFits
    rw [priced] at fits
    exact fits

/-- A plan covers what it must and nothing that must stay, cuts between no call and its
result, and both requests it leads to are priced within their limits. Prices are added as
`u64`, so at the largest limit of all the sum may be more. -/
theorem plan_safe (unorphaned : Unorphaned planner.input) {n : Nat}
    (planned : planner.plan = .ok n) :
    (1 ≤ n ∧ n ≤ planner.input.length) ∧ (∀ id, planner.constraints.mustCoverThrough = some id →
        ∃ index message, index < n ∧ planner.input[index]? = some message ∧
          message.canonicalId = some id) ∧
      (∀ index message id, index < n → planner.input[index]? = some message →
        message.canonicalId = some id →
        id ∉ planner.constraints.protectedContextIds ∧
          (∀ fresh, planner.constraints.freshInbound = some fresh → id ∉ fresh) ∧
          planner.constraints.carryoverAnchor ≠ some (.beforeMessage id)) ∧
      (∀ (pairing : Pairing planner.input) index id, ToolAt planner.input index id →
        ((pairing.call index).1 < n ↔ index < n)) ∧
      (Answered (planner.input.take n) ∧ Unorphaned (planner.input.drop n) ∧
        (Answered (planner.input.drop n) ↔ Answered planner.input)) ∧
      planner.engine.estimateModelInput
        (summaryModelInput (renderTranscript planner.parts (planner.input.take n))) "" [] ≤
          planner.budgets.summaryInputLimit ∧
      ∃ limit remaining, planner.limit = .ok limit ∧
        planner.assemble (planner.input.drop n) = .ok remaining ∧
        saturatingAdd (planner.engine.estimateModelInput remaining planner.prompt planner.tools)
          planner.budgets.summaryOutputBudget ≤ limit ∧
        (limit < 2 ^ 64 - 1 →
          planner.engine.estimateModelInput remaining planner.prompt planner.tools +
            planner.budgets.summaryOutputBudget ≤ limit) := by
  obtain ⟨survey, surveyed, confirmed⟩ := plan_confirmed planned
  obtain ⟨min, least, covered, positive, below, within, answered, summary, remaining, assembled,
    primary⟩ := confirmed.priced surveyed
  refine ⟨⟨positive, within⟩, ?_, ?_, fun pairing index id tool => pairing.closed answered tool,
    ⟨answered, unorphaned.drop answered, answered_drop_iff answered⟩, summary,
    survey.limit, remaining, surveyed.limit, assembled, primary, ?_⟩
  · intro id must
    simp only [minimum, must] at least
    split at least
    · rename_i index found
      cases least
      obtain ⟨message, placed, named⟩ := canonicalId_of_lookup_positions found
      exact ⟨index, message, covered, placed, named⟩
    · cases least
  · intro index message id before placed named
    have free := not_protected_of_lt surveyed.max placed (by omega) named
    simp only [protectedIds, mem_append, not_or] at free
    refine ⟨free.1.1, fun fresh given => ?_, fun anchored => ?_⟩
    · simpa [given] using free.1.2
    · simp [anchored] at free
  · intro small
    unfold saturatingAdd at primary
    omega

def userMessage (id : MessageId) : ModelInputMessage :=
  .canonical (.user { id, content := [.text "text"], source := .human, kind := .message
                      timestamp := none })

def callMessage (id : MessageId) (call : ToolCallId) : ModelInputMessage :=
  .canonical (.assistant
    { id, content := [.toolCall { id := call, toolId := "tool", name := "tool", arguments := .null }] })

def resultMessage (id assistant : MessageId) (call : ToolCallId) : ModelInputMessage :=
  .canonical (.tool
    { id, occurrence := { assistantMessageId := assistant, blockIndex := 0 }, toolCallId := call
      toolId := "tool", result := { status := .success, content := [], facts := .null } })

def countingPlanner : Planner Unit where
  engine :=
    { config := { contextWindowTokens := 100, reserveTokens := 10, keepRecentTokens := 1 }
      estimateModelInput := fun messages _ _ => messages.length
      supportsMonotoneCompaction := fun _ => true }
  parts := fun _ => ["part"]
  input := [userMessage "first", callMessage "calls" "call", resultMessage "result" "calls" "call",
    userMessage "fresh"]
  prompt := ""
  tools := []
  budgets := { primaryOutputBudget := 10, summaryOutputBudget := 10, summaryInputLimit := 10 }
  constraints := { freshInbound := some ["fresh"] }
  signal := fun _ => false

/-- The call, its result and all before them are summarized; the fresh message stays. -/
theorem plan_safe_counting : countingPlanner.plan = .ok 3 ∧
    Answered (countingPlanner.input.take 3) := by
  have planned : countingPlanner.plan = .ok 3 := by decide +kernel
  have unorphaned : Unorphaned countingPlanner.input := by
    intro index id result found
    match index with
    | 0 | 1 | 3 => cases found
    | 2 =>
      cases found
      decide
    | _ + 4 => cases found
  exact ⟨planned, (plan_safe unorphaned planned).2.2.2.2.1.1⟩

def saturatedPlanner : Planner Unit where
  engine :=
    { config := { contextWindowTokens := 2 ^ 64 - 1, reserveTokens := 0, keepRecentTokens := 0 }
      estimateModelInput := fun _ _ _ => 2 ^ 64 - 1
      supportsMonotoneCompaction := fun _ => false }
  parts := fun _ => ["part"]
  input := [userMessage "first", callMessage "calls" "call"]
  prompt := ""
  tools := []
  budgets := { primaryOutputBudget := 0, summaryOutputBudget := 1, summaryInputLimit := 2 ^ 64 - 1 }
  constraints := {}
  signal := fun _ => false

/-- At the largest limit the sum of the prices exceeds it unnoticed, and the suffix keeps
the call the history never answered. -/
theorem plan_saturates : Unorphaned saturatedPlanner.input ∧ saturatedPlanner.plan = .ok 1 ∧
    ∃ limit remaining, saturatedPlanner.limit = .ok limit ∧
      saturatedPlanner.assemble (saturatedPlanner.input.drop 1) = .ok remaining ∧
      limit < saturatedPlanner.engine.estimateModelInput remaining saturatedPlanner.prompt
        saturatedPlanner.tools + saturatedPlanner.budgets.summaryOutputBudget ∧
      ¬ Answered (saturatedPlanner.input.drop 1) := by
  refine ⟨?_, by decide +kernel, 2 ^ 64 - 1, _, rfl, rfl, by decide, fun answered => ?_⟩
  · intro index id result found
    match index with
    | 0 | 1 => cases found
    | _ + 2 => cases found
  · exact absurd (answered "call") (by decide)

end Planner

end RustX.Context
