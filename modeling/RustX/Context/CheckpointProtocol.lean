import RustX.Context.Checkpoint

/-!
A checkpoint compiles exactly when its messages are a protocol-valid history: groups of one
message and the results that answer its calls.
-/
namespace RustX.Context

open Checked Conversation List
open Recovery (ConversationId MessageId)

section

variable (message : ModelInputMessage)

def isTool : Bool :=
  match message.view with
  | .tool .. => true
  | _ => false

def resultWireId : Option ToolCallId :=
  match message.view with
  | .tool id _ => some id
  | _ => none

def assistantContent : List Conversation.AssistantContentBlock :=
  match message.view with
  | .assistant content => content
  | _ => []

def messageBlocks : List (Nat × ToolCall) :=
  callBlocks (assistantContent message)

end

structure Group where
  head : ModelInputMessage
  results : List ModelInputMessage

def Group.messages (group : Group) : List ModelInputMessage :=
  group.head :: group.results

structure Splits (groups : List Group) (messages : List ModelInputMessage) : Prop where
  heads : ∀ group ∈ groups, isTool group.head = false
  results : ∀ group ∈ groups, ∀ result ∈ group.results, isTool result = true
  whole : groups.flatMap Group.messages = messages

def canonicalSource (item : CheckpointItem) (message : ModelInputMessage) (block : Nat) :
    Option ToolCallOccurrenceRef :=
  match message with
  | .canonical (.assistant assistant) =>
    some { assistantMessageId := assistant.id, blockIndex := block }
  | .derived _ =>
    match item.callSources.filter fun source => source.block = block with
    | [source] => some { assistantMessageId := source.assistant.messageId
                         blockIndex := source.canonicalBlock }
    | _ => none
  | _ => none

section Protocol

variable (candidate : CheckpointCandidate)

def CheckpointCandidate.at (index : Nat) : CheckpointMessageOccurrence where
  checkpointId := candidate.checkpointId
  itemIndex := index

structure Answers (index : Nat) (item : CheckpointItem) (head : ModelInputMessage) (place : Nat)
    (result : ModelInputMessage) (association : CompiledToolAssociation) : Prop where
  resultAt : association.result = candidate.at place
  callAt : association.call.message = candidate.at index
  call : ∃ call, (association.call.block, call) ∈ messageBlocks head ∧
    association.wireId = call.id ∧ resultWireId result = some call.id ∧
    resultTool result = some call.toolId
  source : canonicalSource item head association.call.block = some association.canonicalSource
  recorded : ∀ recorded, recordedOccurrence result = some recorded →
    recorded = association.canonicalSource

/-- The results of a group answer the calls of its head, each once, and the calls have
distinct wire ids. -/
structure Paired (index : Nat) (group : Group) (associations : List CompiledToolAssociation) :
    Prop where
  length : associations.length = group.results.length
  answers : ∀ item, candidate.items[index]? = some item → ∀ position result association,
    group.results[position]? = some result → associations[position]? = some association →
    Answers candidate index item group.head (index + 1 + position) result association
  bijection : (associations.map fun association => association.call.block).Perm
    ((messageBlocks group.head).map Prod.fst)
  distinct : ((messageBlocks group.head).map fun entry => entry.2.id).Nodup

def Protocol : Nat → List Group → List CompiledToolAssociation → Prop
  | _, [], associations => associations = []
  | index, group :: groups, associations => ∃ front back, associations = front ++ back ∧
      Paired candidate index group front ∧
      Protocol (index + 1 + group.results.length) groups back

end Protocol

variable {messages : List ModelInputMessage}

/-- A split goes on with the tool messages up to the next head. -/
theorem Splits.tail (splits : Splits (group :: groups) messages) :
    Splits groups (groups.flatMap Group.messages) :=
  ⟨fun other member => splits.heads other (.tail _ member),
    fun other member => splits.results other (.tail _ member), rfl⟩

theorem Splits.dropWhile (splits : Splits groups messages) :
    messages.dropWhile isTool = messages := by
  cases groups with
  | nil => simp [← splits.whole]
  | cons group groups =>
    rw [← splits.whole, flatMap_cons, Group.messages, cons_append,
      dropWhile_cons_of_neg (by simp [splits.heads])]

/-- There is at most one way to split messages into groups. -/
theorem Splits.unique (one : Splits first messages) (two : Splits second messages) : first = second := by
  induction first generalizing second messages with
  | nil =>
    cases second with
    | nil => rfl
    | cons group groups =>
      have whole := one.whole.trans two.whole.symm
      simp [Group.messages] at whole
  | cons group groups ih =>
    cases second with
    | nil =>
      have whole := two.whole.trans one.whole.symm
      simp [Group.messages] at whole
    | cons other others =>
      have whole := one.whole.trans two.whole.symm
      simp only [flatMap_cons, Group.messages, cons_append, List.cons.injEq] at whole
      obtain ⟨head, rest⟩ := whole
      -- what the tool messages are, and what follows them, is a matter of the list alone
      have parts : ∀ {results : List ModelInputMessage} {later : List Group},
          (∀ result ∈ results, isTool result = true) →
          Splits later (later.flatMap Group.messages) →
          (results ++ later.flatMap Group.messages).takeWhile isTool = results ∧
            (results ++ later.flatMap Group.messages).dropWhile isTool =
              later.flatMap Group.messages := by
        intro results later tools splits
        have stops := splits.dropWhile
        have stopped : (later.flatMap Group.messages).takeWhile isTool = [] := by
          have both := takeWhile_append_dropWhile (p := isTool) (l := later.flatMap Group.messages)
          rw [stops] at both
          exact append_left_eq_self.mp both
        rw [takeWhile_append_of_pos tools, dropWhile_append_of_pos tools, stopped,
          stops, append_nil]
        exact ⟨rfl, rfl⟩
      have left := parts (one.results group mem_cons_self) one.tail
      have right := parts (two.results other mem_cons_self) two.tail
      rw [rest] at left
      have later := left.2.symm.trans right.2
      have groupsSame := ih one.tail (later ▸ two.tail)
      cases group
      cases other
      simp_all

section Collected

variable {candidate : CheckpointCandidate} {originals : List (MessageId × MessageBlock)}

def IsCall (candidate : CheckpointCandidate) (originals : List (MessageId × MessageBlock))
    (index : Nat) (item : CheckpointItem) (message : ModelInputMessage) (block : Nat × ToolCall)
    (entry : CheckpointCallCoordinate × Call) : Prop :=
  ∃ source, callSource originals item message block.1 block.2 = .ok source ∧
    entry = ({ message := candidate.at index, block := block.1 },
      { source, wireId := block.2.id, toolId := block.2.toolId })

theorem occurrence_of_lt (small : index < 2 ^ 32) :
    occurrence candidate index = .ok (candidate.at index) := by
  rw [occurrence, if_pos small]
  rfl

variable {item : CheckpointItem} {message : ModelInputMessage}
  {calls : List (CheckpointCallCoordinate × Call)}

theorem batchCalls_eq_ok_iff (small : index < 2 ^ 32) :
    batchCalls candidate originals index item message seen blocks = .ok calls ↔
      List.Forall₂ (IsCall candidate originals index item message) blocks calls ∧
        (∀ block ∈ blocks, block.2.id ∉ seen ∧ block.1 < 2 ^ 32) ∧
        (blocks.map fun block => block.2.id).Nodup := by
  induction blocks generalizing seen calls with
  | nil => simp [batchCalls, eq_comm]
  | cons block blocks ih =>
    simp only [batchCalls, bind_eq_ok_iff, require_eq_ok_iff, occurrence_of_lt small, ih,
      pure_eq_ok_iff, Except.ok.injEq, exists_eq_left', exists_const,
      forall_mem_cons, map_cons, nodup_cons]
    constructor
    · rintro ⟨fresh, bound, source, sourced, rest, ⟨matched, later, distinct⟩, rfl⟩
      refine ⟨.cons ⟨source, sourced, rfl⟩ matched,
        ⟨⟨by simpa using fresh, by simpa using bound⟩, fun other member => ?_⟩, ?_, distinct⟩
      · exact ⟨fun listed => (later other member).1 (.tail _ listed), (later other member).2⟩
      · intro repeated
        obtain ⟨other, member, same⟩ := mem_map.mp repeated
        exact (later other member).1 (same ▸ mem_cons_self)
    · rintro ⟨both, ⟨⟨fresh, bound⟩, later⟩, alone, distinct⟩
      obtain ⟨_, rest, ⟨source, sourced, rfl⟩, matched, rfl⟩ := forall₂_cons_left_iff.mp both
      refine ⟨by simpa using fresh, by simpa using bound, source, sourced, rest,
        ⟨matched, fun other member => ⟨?_, (later other member).2⟩, distinct⟩, rfl⟩
      intro listed
      rcases mem_cons.mp listed with same | listed
      · exact alone (mem_map.mpr ⟨other, member, same⟩)
      · exact (later other member).1 listed

def SourcesUsed (item : CheckpointItem) (message : ModelInputMessage) : Prop :=
  match message.view with
  | .assistant content => item.callSources = [] ∨
      usedSources message (callBlocks content).length = item.callSources.length
  | _ => item.callSources = []

theorem messageCalls_eq_ok_iff {index : Nat} (small : index < 2 ^ 32) :
    messageCalls candidate originals index item message = .ok calls ↔
      List.Forall₂ (IsCall candidate originals index item message) (messageBlocks message) calls ∧
        (∀ block ∈ messageBlocks message, block.1 < 2 ^ 32) ∧
        ((messageBlocks message).map fun block => block.2.id).Nodup ∧
        SourcesUsed item message := by
  unfold messageCalls messageBlocks assistantContent SourcesUsed
  cases message.view with
  | assistant content =>
    simp only [bind_eq_ok_iff, batchCalls_eq_ok_iff small, require_eq_ok_iff, pure_eq_ok_iff,
      not_mem_nil, not_false_eq_true, true_and, exists_const, Bool.or_eq_true,
      List.isEmpty_iff, beq_iff_eq]
    constructor
    · rintro ⟨found, ⟨matched, bounds, distinct⟩, used, rfl⟩
      exact ⟨matched, bounds, distinct, by rwa [matched.length_eq]⟩
    · rintro ⟨matched, bounds, distinct, used⟩
      exact ⟨calls, ⟨matched, bounds, distinct⟩, by rwa [← matched.length_eq], rfl⟩
  | _ =>
    simp only [bind_eq_ok_iff, require_eq_ok_iff, pure_eq_ok_iff, exists_const, List.isEmpty_iff]
    simp [callBlocks, eq_comm, and_comm]

def Collected (candidate : CheckpointCandidate) (originals : List (MessageId × MessageBlock)) :
    Nat → List CheckpointItem → List ModelInputMessage →
      List (CheckpointCallCoordinate × Call) → Prop
  | index, item :: items, message :: messages, calls => ∃ front back, calls = front ++ back ∧
      List.Forall₂ (IsCall candidate originals index item message) (messageBlocks message) front ∧
      ((messageBlocks message).map fun block => block.2.id).Nodup ∧
      Collected candidate originals (index + 1) items messages back
  | _, _, _, calls => calls = []

theorem collected_of_collectCalls {items : List CheckpointItem}
    (small : index + items.length ≤ 2 ^ 32)
    (collected : collectCalls candidate originals index items messages = .ok calls) :
    Collected candidate originals index items messages calls := by
  induction items generalizing index messages calls with
  | nil =>
    cases collected
    rfl
  | cons item items ih =>
    cases messages with
    | nil =>
      cases collected
      rfl
    | cons message messages =>
      rw [length_cons] at small
      simp only [collectCalls, bind_eq_ok_iff, pure_eq_ok_iff] at collected
      obtain ⟨front, here, back, later, rfl⟩ := collected
      obtain ⟨matched, -, distinct, -⟩ := (messageCalls_eq_ok_iff (by omega)).mp here
      exact ⟨front, back, rfl, matched, distinct, ih (by omega) later⟩

theorem mem_callBlocks :
    (block, call) ∈ callBlocks content ↔ content[block]? = some (.toolCall call) := by
  simp only [callBlocks, mem_filterMap, Option.map_eq_some_iff, Prod.mk.injEq]
  constructor
  · rintro ⟨⟨value, index⟩, member, issued, called, rfl, rfl⟩
    cases value with
    | toolCall made =>
      cases called
      exact mem_zipIdx_iff_getElem?.mp member
    | _ => cases called
  · intro found
    exact ⟨(.toolCall call, block), mem_zipIdx_iff_getElem?.mpr found, call, rfl, rfl, rfl⟩

theorem callBlocks_ascending (content : List Conversation.AssistantContentBlock) :
    ((callBlocks content).map Prod.fst).Pairwise (· < ·) := by
  have from_ : ∀ (content : List Conversation.AssistantContentBlock) first,
      (((content.zipIdx first).filterMap fun entry =>
        entry.1.call?.map (entry.2, ·)).map Prod.fst).Pairwise (· < ·) ∧
      ∀ index ∈ ((content.zipIdx first).filterMap fun entry =>
        entry.1.call?.map (entry.2, ·)).map Prod.fst, first ≤ index := by
    intro content
    induction content with
    | nil => simp
    | cons block content ih =>
      intro first
      obtain ⟨ascending, least⟩ := ih _
      have later : ∀ index ∈ ((content.zipIdx (first + 1)).filterMap fun entry =>
          entry.1.call?.map (entry.2, ·)).map Prod.fst, first < index := least
      rw [zipIdx_cons]
      cases called : block.call? with
      | none =>
        rw [filterMap_cons_none (by simp [called])]
        exact ⟨ascending, fun index member => (later index member).le⟩
      | some call =>
        rw [filterMap_cons_some (b := (first, call)) (by simp [called]), map_cons]
        refine ⟨pairwise_cons.mpr ⟨later, ascending⟩, ?_⟩
        exact forall_mem_cons.mpr ⟨le_rfl, fun index member => (later index member).le⟩
  exact (from_ content 0).1

def blockCoordinates (candidate : CheckpointCandidate) (index : Nat)
    (message : ModelInputMessage) : List CheckpointCallCoordinate :=
  (messageBlocks message).map fun block => { message := candidate.at index, block := block.1 }

theorem blockCoordinates_nodup (index : Nat) (message : ModelInputMessage) :
    (blockCoordinates candidate index message).Nodup := by
  have blocks : ((messageBlocks message).map Prod.fst).Nodup :=
    (callBlocks_ascending _).imp fun less => Nat.ne_of_lt less
  refine List.Nodup.of_map CheckpointCallCoordinate.block ?_
  rw [blockCoordinates, map_map]
  exact blocks

variable {items : List CheckpointItem} {messages : List ModelInputMessage}

theorem forall₂_exists {α β : Type} {related : α → β → Prop} {left : List α} {right : List β}
    (matched : List.Forall₂ related left right) {one : α} (member : one ∈ left) :
    ∃ other ∈ right, related one other := by
  induction matched with
  | nil => cases member
  | cons here _ ih =>
    rcases mem_cons.mp member with rfl | later
    · exact ⟨_, mem_cons_self, here⟩
    · obtain ⟨other, listed, holds⟩ := ih later
      exact ⟨other, .tail _ listed, holds⟩

theorem forall₂_keys
    (matched : List.Forall₂ (IsCall candidate originals index item message) blocks calls) :
    calls.map Prod.fst =
      blocks.map fun block => { message := candidate.at index, block := block.1 } := by
  induction matched with
  | nil => rfl
  | cons isCall _ ih =>
    obtain ⟨source, -, rfl⟩ := isCall
    rw [map_cons, map_cons, ih]

/-- The keys of the collected calls are the coordinates of all call blocks, in order. -/
theorem Collected.keys (sameLength : items.length = messages.length)
    (collected : Collected candidate originals index items messages calls) :
    calls.map Prod.fst =
      (messages.zipIdx index).flatMap fun entry => blockCoordinates candidate entry.2 entry.1 := by
  induction items generalizing index messages calls with
  | nil =>
    cases messages with
    | nil => simp [show calls = [] from collected]
    | cons message messages => cases sameLength
  | cons item items ih =>
    cases messages with
    | nil => cases sameLength
    | cons message messages =>
      obtain ⟨front, back, rfl, matched, -, later⟩ := collected
      rw [map_append, forall₂_keys matched, ih (by simpa using sameLength) later,
        zipIdx_cons, flatMap_cons]
      rfl

theorem candidate_at_inj : candidate.at first = candidate.at second ↔ first = second := by
  simp [CheckpointCandidate.at]

theorem filter_blockCoordinates (found : messages[position]? = some message) :
    ((messages.zipIdx first).flatMap fun entry =>
      blockCoordinates candidate entry.2 entry.1).filter
        (fun coordinate => coordinate.message = candidate.at (first + position)) =
      blockCoordinates candidate (first + position) message := by
  induction messages generalizing first position with
  | nil => cases found
  | cons head messages ih =>
    have own : ∀ index, ∀ coordinate ∈ blockCoordinates candidate index head,
        coordinate.message = candidate.at index := by
      intro index coordinate member
      obtain ⟨_, -, rfl⟩ := mem_map.mp member
      rfl
    rw [zipIdx_cons, flatMap_cons, filter_append]
    cases position with
    | zero =>
      cases found
      have rest : ((messages.zipIdx (first + 1)).flatMap fun entry =>
          blockCoordinates candidate entry.2 entry.1).filter
          (fun coordinate => coordinate.message = candidate.at (first + 0)) = [] := by
        rw [filter_eq_nil_iff]
        intro coordinate member
        obtain ⟨⟨other, index⟩, listed, member⟩ := mem_flatMap.mp member
        obtain ⟨_, -, rfl⟩ := mem_map.mp member
        have bound := (mem_zipIdx listed).1
        simp only [decide_eq_true_eq, candidate_at_inj]
        omega
      rw [rest, append_nil]
      exact filter_eq_self.mpr fun coordinate member => by
        simpa using own first coordinate member
    | succ position =>
      have none : (blockCoordinates candidate first head).filter
          (fun coordinate => coordinate.message = candidate.at (first + (position + 1))) = [] := by
        rw [filter_eq_nil_iff]
        intro coordinate member
        rw [own first coordinate member]
        simp only [decide_eq_true_eq, candidate_at_inj]
        omega
      rw [none, nil_append, show first + (position + 1) = first + 1 + position by omega]
      exact ih found

theorem Collected.keys_nodup (sameLength : items.length = messages.length)
    (collected : Collected candidate originals index items messages calls) :
    (calls.map Prod.fst).Nodup := by
  rw [collected.keys sameLength]
  clear collected sameLength
  induction messages generalizing index with
  | nil => simp
  | cons message messages ih =>
    rw [zipIdx_cons, flatMap_cons, nodup_append]
    refine ⟨blockCoordinates_nodup _ _, ih, ?_⟩
    rintro coordinate here _ later rfl
    obtain ⟨_, -, rfl⟩ := mem_map.mp here
    obtain ⟨⟨other, place⟩, listed, member⟩ := mem_flatMap.mp later
    obtain ⟨_, -, same⟩ := mem_map.mp member
    have bound := (mem_zipIdx listed).1
    have same := congrArg (fun coordinate => coordinate.message.itemIndex) same
    simp only [CheckpointCandidate.at] at same
    omega

/-- What is known of the collected calls of the message at one position. -/
theorem Collected.getElem? {position : Nat}
    (collected : Collected candidate originals index items messages calls)
    (itemAt : items[position]? = some item) (messageAt : messages[position]? = some message) :
    ((messageBlocks message).map fun block => block.2.id).Nodup ∧
      ∀ block ∈ messageBlocks message, ∃ entry ∈ calls,
        IsCall candidate originals (index + position) item message block entry := by
  induction items generalizing index messages calls position with
  | nil => cases itemAt
  | cons first items ih =>
    cases messages with
    | nil => cases messageAt
    | cons head messages =>
      obtain ⟨front, back, rfl, matched, distinct, later⟩ := collected
      cases position with
      | zero =>
        cases itemAt
        cases messageAt
        refine ⟨distinct, fun block member => ?_⟩
        obtain ⟨entry, listed, isCall⟩ := forall₂_exists matched member
        exact ⟨entry, mem_append_left _ listed, isCall⟩
      | succ position =>
        obtain ⟨distinct, each⟩ := ih later itemAt messageAt
        refine ⟨distinct, fun block member => ?_⟩
        obtain ⟨entry, listed, isCall⟩ := each block member
        refine ⟨entry, mem_append_right _ listed, ?_⟩
        rwa [show index + (position + 1) = index + 1 + position by omega]

end Collected

section Pairing

variable {candidate : CheckpointCandidate} {calls : List (CheckpointCallCoordinate × Call)}

structure Resolved (candidate : CheckpointCandidate)
    (calls : List (CheckpointCallCoordinate × Call)) (place : Nat) (result : ModelInputMessage)
    (association : CompiledToolAssociation) : Prop where
  resultAt : association.result = candidate.at place
  call : ∃ call, calls.lookup association.call = some call ∧
    association.canonicalSource = call.source ∧ association.wireId = call.wireId ∧
    resultWireId result = some call.wireId ∧ resultTool result = some call.toolId
  recorded : ∀ recorded, recordedOccurrence result = some recorded →
    recorded = association.canonicalSource

def ResolvedAll (candidate : CheckpointCandidate) (calls : List (CheckpointCallCoordinate × Call)) :
    Nat → List ModelInputMessage → List CompiledToolAssociation → Prop
  | _, [], associations => associations = []
  | place, result :: results, associations => ∃ association rest,
      associations = association :: rest ∧ isTool result = true ∧
      Resolved candidate calls place result association ∧
      ResolvedAll candidate calls (place + 1) results rest

def ResolvedGroups (candidate : CheckpointCandidate)
    (calls : List (CheckpointCallCoordinate × Call)) :
    Nat → List Group → List CompiledToolAssociation → Prop
  | _, [], associations => associations = []
  | index, group :: groups, associations => ∃ front back, associations = front ++ back ∧
      isTool group.head = false ∧ ResolvedAll candidate calls (index + 1) group.results front ∧
      (front.map CompiledToolAssociation.call).Perm ((calls.map Prod.fst).filter
        fun coordinate => coordinate.message = candidate.at index) ∧
      ResolvedGroups candidate calls (index + 1 + group.results.length) groups back

theorem pairMessage_cases {after} (small : index < 2 ^ 32)
    (paired : pairMessage candidate calls index item message state = .ok after) :
    (isTool message = true ∧ ∃ association, Resolved candidate calls index message association ∧
        association.call ∈ state.pending ∧ after =
          { paired := association.call :: state.paired
            pending := state.pending.erase association.call
            tools := state.tools ++ [association] }) ∨
      (isTool message = false ∧ state.pending = [] ∧ after = { state with
        pending := (calls.map Prod.fst).filter
          fun coordinate => coordinate.message = candidate.at index }) := by
  simp only [pairMessage, occurrence_of_lt small, ok_bind] at paired
  cases seen : message.view with
  | tool wireId result =>
    left
    simp only [seen, bind_eq_ok_iff] at paired
    obtain ⟨target, -, paired⟩ := paired
    simp only [pairResult] at paired
    split at paired
    · cases paired
    rename_i call found
    simp only [bind_eq_ok_iff, require_eq_ok_iff, pure_eq_ok_iff, exists_const,
      Bool.and_eq_true, decide_eq_true_eq, contains_eq_mem, beq_iff_eq] at paired
    obtain ⟨⟨⟨-, pending⟩, -⟩, recorded, ⟨owner, wire⟩, rfl⟩ := paired
    refine ⟨by simp [isTool, seen], { call := target, result := candidate.at index
                                      canonicalSource := call.source, wireId := call.wireId },
      ⟨rfl, ⟨call, found, rfl, rfl, ?_, owner⟩, ?_⟩, pending, rfl⟩
    · simp [resultWireId, seen, wire]
    · intro occurrence known
      simpa [known] using recorded
  | _ =>
    right
    simp only [seen, bind_eq_ok_iff, require_eq_ok_iff, pure_eq_ok_iff, exists_const,
      List.isEmpty_iff] at paired
    obtain ⟨-, none, rfl⟩ := paired
    exact ⟨by simp [isTool, seen], none, rfl⟩

/-- A run of the pairing that leaves nothing pending has answered what was pending first,
and then group after group. -/
theorem pairMessages_sound {after} {items : List CheckpointItem} {messages : List ModelInputMessage}
    (small : index + messages.length ≤ 2 ^ 32) (sameLength : items.length = messages.length)
    (paired : pairMessages candidate calls index items messages state = .ok after)
    (settled : after.pending = []) :
    ∃ results front groups back, messages = results ++ groups.flatMap Group.messages ∧
      after.tools = state.tools ++ (front ++ back) ∧
      (front.map CompiledToolAssociation.call).Perm state.pending ∧
      ResolvedAll candidate calls index results front ∧
      ResolvedGroups candidate calls (index + results.length) groups back := by
  induction messages generalizing items index state with
  | nil =>
    cases items with
    | cons item items => cases sameLength
    | nil =>
      cases paired
      exact ⟨[], [], [], [], rfl, by simp, by simp [settled], rfl, rfl⟩
  | cons message messages ih =>
    cases items with
    | nil => cases sameLength
    | cons item items =>
      rw [length_cons] at small
      simp only [pairMessages, bind_eq_ok_iff] at paired
      obtain ⟨next, here, later⟩ := paired
      obtain ⟨results, front, groups, back, rfl, tools, answered, resolved, grouped⟩ :=
        ih (by omega) (by simpa using sameLength) later
      rcases pairMessage_cases (by omega) here with
        ⟨tool, association, resolves, pending, rfl⟩ | ⟨head, none, rfl⟩
      · refine ⟨message :: results, association :: front, groups, back, rfl, ?_, ?_,
          ⟨association, front, rfl, tool, resolves, resolved⟩, ?_⟩
        · rw [tools]
          simp
        · exact (answered.cons _).trans (perm_cons_erase pending).symm
        · rwa [length_cons, show index + (results.length + 1) = index + 1 + results.length by omega]
      · refine ⟨[], [], { head := message, results } :: groups, front ++ back, ?_, ?_, ?_, rfl,
          front, back, rfl, head, resolved, answered, grouped⟩
        · simp [Group.messages]
        · simpa using tools
        · simp [none]

theorem resolvedAll_length {place : Nat}
    (resolved : ResolvedAll candidate calls place results associations) :
    associations.length = results.length := by
  induction results generalizing place associations with
  | nil => simp [show associations = [] from resolved]
  | cons result results ih =>
    obtain ⟨association, rest, rfl, -, -, later⟩ := resolved
    simp [ih later]

theorem ResolvedAll.getElem? {place : Nat}
    (resolved : ResolvedAll candidate calls place results associations)
    (resultAt : results[position]? = some result)
    (associationAt : associations[position]? = some association) :
    isTool result = true ∧ Resolved candidate calls (place + position) result association := by
  induction results generalizing place position associations with
  | nil => cases resultAt
  | cons first results ih =>
    obtain ⟨head, rest, rfl, tool, resolves, later⟩ := resolved
    cases position with
    | zero =>
      cases resultAt
      cases associationAt
      exact ⟨tool, resolves⟩
    | succ position =>
      have := ih later resultAt associationAt
      rwa [show place + 1 + position = place + (position + 1) by omega] at this

end Pairing

section Loaded

variable {σ : Type} {encoding : Encoding} {resolve : Resolver σ} {candidate : CheckpointCandidate}

/-- Every body is kept under its own id, and no more than the budget is left. -/
structure Indexed (loading : Loading σ) : Prop where
  ids : ∀ entry ∈ loading.originals, entry.2.id = entry.1
  budget : loading.outputBudget ≤ maxMaterializedBytes

theorem matchesBody_id (same : CanonicalMessageRef.matchesBody source encoding message = true) :
    message.id = source.messageId := by
  have same := of_decide_eq_true same
  rw [← same]
  rfl

theorem keepOriginal_ensures {id : MessageId} {message : MessageBlock} (named : message.id = id) :
    Ensures Indexed (keepOriginal encoding id message : Loader σ MessageBlock) fun _ => True := by
  intro loading indexed
  unfold keepOriginal
  split
  · refine ⟨⟨fun entry member => ?_, indexed.budget⟩, trivial⟩
    rcases Assoc.mem_insert.mp member with rfl | ⟨old, -⟩
    · exact named
    · exact indexed.ids entry old
  · trivial

theorem resolveSource_ensures (source : CanonicalMessageRef) (body : Bool) :
    Ensures Indexed (resolveSource resolve source body) fun _ => True := by
  intro loading indexed
  unfold resolveSource
  cases resolve source body loading.resolver with
  | error error => trivial
  | ok answer => exact ⟨⟨indexed.ids, indexed.budget⟩, trivial⟩

theorem lift_ensures {α : Type} (x : Except String α) :
    Ensures Indexed (monadLift x : Loader σ α) fun _ => True :=
  ensures_lift fun _ _ => trivial

theorem original_ensures (source : CanonicalMessageRef) :
    Ensures Indexed (original encoding resolve candidate source) fun _ => True := by
  refine (lift_ensures _).bind fun _ _ => ?_
  have cached : Ensures Indexed (cachedOriginal source.messageId : Loader σ _) fun _ => True :=
    fun _ indexed => ⟨indexed, trivial⟩
  refine cached.bind fun found _ => ?_
  cases found with
  | some message => exact lift_ensures _
  | none =>
    refine (resolveSource_ensures source true).bind fun dependency _ => ?_
    refine (lift_ensures _).bind fun _ _ => ?_
    have materialized : Ensures Indexed
        (monadLift (materialize encoding source dependency.body) : Loader σ MessageBlock)
        fun message => message.id = source.messageId := by
      refine ensures_lift fun message done => ?_
      unfold materialize at done
      split at done
      · cases done
      · split at done
        · rename_i same
          cases done
          exact matchesBody_id same
        · cases done
    exact materialized.bind fun message named => keepOriginal_ensures named

theorem loadSource_ensures (body : Bool) (source : CanonicalMessageRef) :
    Ensures Indexed (loadSource encoding resolve candidate body source)
      fun _ => True := by
  unfold loadSource
  split
  · exact (original_ensures source).bind fun _ _ => ensures_pure trivial
  · exact (resolveSource_ensures source false).bind fun _ _ => lift_ensures _

theorem loadMessage_ensures (message : CheckpointMessage) :
    Ensures Indexed (loadMessage encoding resolve candidate message)
      fun _ => True := by
  cases message with
  | original reference => exact (original_ensures reference).bind fun _ _ => ensures_pure trivial
  | derived derived =>
    refine (lift_ensures _).bind fun _ _ => ?_
    refine (ensures_forM (loadSource_ensures _)).bind fun _ _ => ensures_pure trivial

theorem admitMessage_ensures (message : ModelInputMessage) :
    Ensures Indexed (admitMessage encoding message : Loader σ ModelInputMessage)
      fun admitted => encoding.inputBytes admitted ≤ maxMaterializedBytes := by
  intro loading indexed
  unfold admitMessage
  cases validateNativeReasoning message loading.originals with
  | error error => trivial
  | ok _ =>
    by_cases fits : encoding.inputBytes message ≤ loading.outputBudget
    · simp only [fits, decide_true, require, if_true, ok_bind]
      exact ⟨⟨indexed.ids, (Nat.sub_le _ _).trans indexed.budget⟩, fits.trans indexed.budget⟩
    · simp only [fits, decide_false, require, Bool.false_eq_true, if_false]
      trivial

theorem loadItem_ensures (item : CheckpointItem) :
    Ensures Indexed (loadItem encoding resolve candidate item)
      fun message => encoding.inputBytes message ≤ maxMaterializedBytes := by
  refine (loadMessage_ensures _).bind fun message _ => ?_
  refine (ensures_forM fun source => loadSource_ensures true _).bind fun _ _ => ?_
  exact admitMessage_ensures message

theorem loadItems_ensures (items : List CheckpointItem) :
    Ensures Indexed (loadItems encoding resolve candidate items)
      fun messages => messages.length = items.length ∧
        ∀ message ∈ messages, encoding.inputBytes message ≤ maxMaterializedBytes := by
  induction items with
  | nil => exact ensures_pure ⟨rfl, by simp⟩
  | cons item items ih =>
    refine (loadItem_ensures item).bind fun message fits => ?_
    refine ih.bind fun messages loaded => ensures_pure ⟨by simp [loaded.1], ?_⟩
    exact forall_mem_cons.mpr ⟨fits, loaded.2⟩

structure Loads (encoding : Encoding) (candidate : CheckpointCandidate)
    (messages : List ModelInputMessage) (loading : Loading σ) : Prop where
  length : messages.length = candidate.items.length
  fits : ∀ message ∈ messages, encoding.inputBytes message ≤ maxMaterializedBytes
  ids : ∀ entry ∈ loading.originals, entry.2.id = entry.1

theorem load_loads (loaded : load encoding resolve candidate start = .ok (messages, loading)) :
    Loads encoding candidate messages loading := by
  have ensures : Ensures Indexed (loadItems encoding resolve candidate candidate.items) _ :=
    loadItems_ensures candidate.items
  have yields := ensures
    { resolver := start, originals := [], sourceBudget := maxMaterializedBytes
      outputBudget := maxMaterializedBytes } ⟨by simp, le_rfl⟩
  rw [show loadItems encoding resolve candidate candidate.items _ = _ from loaded] at yields
  exact ⟨yields.2.1, yields.2.2, yields.1.ids⟩

end Loaded

section Sound

variable {candidate : CheckpointCandidate} {originals : List (MessageId × MessageBlock)}
  {calls : List (CheckpointCallCoordinate × Call)} {messages : List ModelInputMessage}

/-- The source a call was collected with is the one its item names. -/
theorem callSource_canonical (ids : ∀ entry ∈ originals, entry.2.id = entry.1)
    (sourced : callSource originals item message block call = .ok source) :
    canonicalSource item message block = some source := by
  unfold callSource at sourced
  unfold canonicalSource
  split at sourced
  · simp only [bind_eq_ok_iff, require_eq_ok_iff, pure_eq_ok_iff, exists_const] at sourced
    obtain ⟨-, rfl⟩ := sourced
    rfl
  · generalize item.callSources.filter (fun source => source.block = block) = sources at sourced ⊢
    rcases sources with _ | ⟨named, _ | _⟩
    · cases sourced
    · simp only [derivedSource, bind_eq_ok_iff, require_eq_ok_iff, exists_const] at sourced
      obtain ⟨-, sourced⟩ := sourced
      split at sourced
      · rename_i assistant found
        split at sourced
        · simp only [bind_eq_ok_iff, require_eq_ok_iff, pure_eq_ok_iff, exists_const] at sourced
          obtain ⟨-, rfl⟩ := sourced
          have same : assistant.id = named.assistant.messageId := ids _ (Assoc.mem_of_lookup found)
          rw [same]
        · cases sourced
      · cases sourced
    · cases sourced
  · cases sourced

theorem messageBlocks_of_isTool (tool : isTool message = true) : messageBlocks message = [] := by
  unfold isTool at tool
  unfold messageBlocks assistantContent
  split at tool
  · rename_i seen
    rw [seen]
    rfl
  · cases tool

/-- Where the first group stands, and where the others begin. -/
theorem suffix_cons (suffix : (group :: groups).flatMap Group.messages = messages.drop index) :
    messages[index]? = some group.head ∧
      groups.flatMap Group.messages = messages.drop (index + 1 + group.results.length) := by
  constructor
  · have first := congrArg (fun list => list[0]?) suffix
    simpa [Group.messages] using first.symm
  · have dropped := congrArg (List.drop (1 + group.results.length)) suffix
    rw [drop_drop, ← Nat.add_assoc] at dropped
    rw [← dropped, flatMap_cons, drop_append_of_le_length (by simp [Group.messages, Nat.add_comm])]
    simp [Group.messages, Nat.add_comm]

structure CallsOf (candidate : CheckpointCandidate) (originals : List (MessageId × MessageBlock))
    (calls : List (CheckpointCallCoordinate × Call)) (messages : List ModelInputMessage) : Prop where
  sameLength : candidate.items.length = messages.length
  collected : Collected candidate originals 0 candidate.items messages calls
  ids : ∀ entry ∈ originals, entry.2.id = entry.1

namespace CallsOf

section

variable (known : CallsOf candidate originals calls messages)
include known

theorem keys_at (found : messages[index]? = some message) :
    (calls.map Prod.fst).filter (fun coordinate => coordinate.message = candidate.at index) =
      blockCoordinates candidate index message := by
  have filtered : _ = blockCoordinates candidate (0 + index) message :=
    filter_blockCoordinates found
  rw [Nat.zero_add] at filtered
  rw [known.collected.keys known.sameLength, filtered]

theorem lookup_block (itemAt : candidate.items[index]? = some item)
    (messageAt : messages[index]? = some message) (member : block ∈ messageBlocks message) :
    ∃ source, canonicalSource item message block.1 = some source ∧
      calls.lookup { message := candidate.at index, block := block.1 } =
        some { source, wireId := block.2.id, toolId := block.2.toolId } := by
  obtain ⟨entry, listed, source, sourced, rfl⟩ :=
    (known.collected.getElem? itemAt messageAt).2 block member
  rw [Nat.zero_add] at listed
  exact ⟨source, callSource_canonical known.ids sourced,
    Assoc.lookup_of_mem (known.collected.keys_nodup known.sameLength) listed⟩

theorem distinct_at {index : Nat} (found : messages[index]? = some message) :
    ((messageBlocks message).map fun block => block.2.id).Nodup := by
  have within := (List.getElem?_eq_some_iff.mp found).1
  exact (known.collected.getElem? (getElem?_eq_getElem (known.sameLength ▸ within)) found).1

theorem protocol {index : Nat} {groups : List Group}
    (suffix : groups.flatMap Group.messages = messages.drop index)
    (resolved : ResolvedGroups candidate calls index groups associations) :
    Protocol candidate index groups associations := by
  induction groups generalizing index associations with
  | nil => exact resolved
  | cons group groups ih =>
    obtain ⟨front, back, rfl, head, answers, answered, later⟩ := resolved
    obtain ⟨headAt, rest⟩ := suffix_cons suffix
    refine ⟨front, back, rfl, ⟨resolvedAll_length answers, ?_, ?_, known.distinct_at headAt⟩,
      ih rest later⟩
    · intro item itemAt position result association resultAt associationAt
      have resolves := (answers.getElem? resultAt associationAt).2
      have member : association.call ∈ blockCoordinates candidate index group.head := by
        rw [← known.keys_at headAt]
        exact answered.mem_iff.mp (mem_map_of_mem (mem_of_getElem? associationAt))
      obtain ⟨block, blockMember, place⟩ := mem_map.mp member
      obtain ⟨source, canonical, looked⟩ := known.lookup_block itemAt headAt blockMember
      obtain ⟨call, found, sourced, wire, resultWire, tool⟩ := resolves.call
      rw [← place, looked, Option.some.injEq] at found
      subst found
      refine ⟨resolves.resultAt, by rw [← place], ⟨block.2, ?_, wire, resultWire, tool⟩, ?_,
        resolves.recorded⟩
      · rw [← place]
        exact blockMember
      · rw [← place, canonical, sourced]
    · have blocks := answered.map CheckpointCallCoordinate.block
      rw [known.keys_at headAt, blockCoordinates, map_map, map_map] at blocks
      exact blocks

end

end CallsOf

theorem splits_of_resolved (resolved : ResolvedGroups candidate calls index groups associations) :
    Splits groups (groups.flatMap Group.messages) := by
  refine ⟨?_, ?_, rfl⟩
  · induction groups generalizing index associations with
    | nil => simp
    | cons group groups ih =>
      obtain ⟨front, back, rfl, head, -, -, later⟩ := resolved
      exact forall_mem_cons.mpr ⟨head, ih later⟩
  · induction groups generalizing index associations with
    | nil => simp
    | cons group groups ih =>
      obtain ⟨front, back, rfl, -, answers, -, later⟩ := resolved
      refine forall_mem_cons.mpr ⟨fun result member => ?_, ih later⟩
      obtain ⟨position, found⟩ := mem_iff_getElem?.mp member
      have within := (List.getElem?_eq_some_iff.mp found).1
      rw [← resolvedAll_length answers] at within
      exact (answers.getElem? found (getElem?_eq_getElem within)).1

/-- What was paired and what is pending are the calls met so far. -/
theorem CallsOf.pairMessages_length {after} (known : CallsOf candidate originals calls messages)
    {items : List CheckpointItem} {rest : List ModelInputMessage}
    (small : index + rest.length ≤ 2 ^ 32) (suffix : rest = messages.drop index)
    (sameLength : items.length = rest.length)
    (paired : pairMessages candidate calls index items rest state = .ok after) :
    after.paired.length + after.pending.length = state.paired.length + state.pending.length +
      ((rest.zipIdx index).flatMap fun entry =>
        blockCoordinates candidate entry.2 entry.1).length := by
  induction rest generalizing items index state with
  | nil =>
    cases items with
    | cons item items => cases sameLength
    | nil =>
      cases paired
      simp
  | cons message rest ih =>
    cases items with
    | nil => cases sameLength
    | cons item items =>
      rw [length_cons] at small
      have messageAt : messages[index]? = some message := by
        have first := congrArg (fun list => list[0]?) suffix
        simpa using first.symm
      have later : rest = messages.drop (index + 1) := by
        have dropped := congrArg (List.drop 1) suffix
        simpa using dropped
      simp only [pairMessages, bind_eq_ok_iff] at paired
      obtain ⟨next, here, after'⟩ := paired
      rw [ih (by omega) later (by simpa using sameLength) after', zipIdx_cons,
        flatMap_cons, length_append]
      rcases pairMessage_cases (by omega) here with
        ⟨tool, association, -, pending, rfl⟩ | ⟨head, none, rfl⟩
      · have positive := length_pos_of_mem pending
        simp only [length_cons, length_erase_of_mem pending, blockCoordinates,
          messageBlocks_of_isTool tool, map_nil, length_nil]
        omega
      · simp only [known.keys_at messageAt, none, length_nil]
        omega

end Sound

section Complete

/-- Every result names the call it is associated with, and nothing else names a call. -/
structure Explicit (candidate : CheckpointCandidate) (messages : List ModelInputMessage)
    (tools : List CompiledToolAssociation) : Prop where
  results : ∀ association ∈ tools, ∀ item,
    candidate.items[association.result.itemIndex]? = some item →
      item.resultCall = some association.call
  heads : ∀ (index : Nat) item message, candidate.items[index]? = some item →
    messages[index]? = some message → isTool message = false → item.resultCall = none

def CallSourcesPass (candidate : CheckpointCandidate)
    (originals : List (MessageId × MessageBlock)) (messages : List ModelInputMessage) : Prop :=
  ∀ (index : Nat) item message, candidate.items[index]? = some item →
    messages[index]? = some message → SourcesUsed item message ∧ ∀ block ∈ messageBlocks message,
        ∃ source, callSource originals item message block.1 block.2 = .ok source

variable {candidate : CheckpointCandidate} {messages : List ModelInputMessage}

theorem exists_forall₂ {α β : Type} {related : α → β → Prop} {left : List α}
    (each : ∀ one ∈ left, ∃ other, related one other) : ∃ right, List.Forall₂ related left right := by
  induction left with
  | nil => exact ⟨[], .nil⟩
  | cons one left ih =>
    obtain ⟨other, here⟩ := each one mem_cons_self
    obtain ⟨right, later⟩ := ih fun one member => each one (.tail _ member)
    exact ⟨other :: right, .cons here later⟩

/-- Calls whose sources pass and whose ids are distinct are collected. -/
theorem collectCalls_complete {items : List CheckpointItem} (small : index + items.length ≤ 2 ^ 32)
    (pass : ∀ (position : Nat) item message, items[position]? = some item →
      messages[position]? = some message → SourcesUsed item message ∧
        (∀ block ∈ messageBlocks message,
          ∃ source, callSource originals item message block.1 block.2 = .ok source) ∧
        (∀ block ∈ messageBlocks message, block.1 < 2 ^ 32) ∧
        ((messageBlocks message).map fun block => block.2.id).Nodup) :
    ∃ calls, collectCalls candidate originals index items messages = .ok calls := by
  induction items generalizing index messages with
  | nil => exact ⟨[], rfl⟩
  | cons item items ih =>
    cases messages with
    | nil => exact ⟨[], rfl⟩
    | cons message messages =>
      rw [length_cons] at small
      obtain ⟨used, sourced, bounds, distinct⟩ := pass 0 item message rfl rfl
      have each : ∀ block ∈ messageBlocks message,
          ∃ entry, IsCall candidate originals index item message block entry := by
        intro block member
        obtain ⟨source, found⟩ := sourced block member
        exact ⟨_, source, found, rfl⟩
      obtain ⟨front, matched⟩ := exists_forall₂ each
      have here : messageCalls candidate originals index item message = .ok front :=
        (messageCalls_eq_ok_iff (by omega)).mpr ⟨matched, bounds, distinct, used⟩
      obtain ⟨back, later⟩ : ∃ back, collectCalls candidate originals (index + 1) items
          messages = .ok back :=
        ih (by omega) fun position item message => pass (position + 1) item message
      exact ⟨front ++ back, by simp [collectCalls, here, later, pure, Except.pure]⟩

variable {associations : List CompiledToolAssociation}

theorem protocol_distinct
    (results : ∀ group ∈ groups, ∀ result ∈ group.results, isTool result = true)
    (protocol : Protocol candidate index groups associations)
    (member : message ∈ groups.flatMap Group.messages) :
    ((messageBlocks message).map fun block => block.2.id).Nodup := by
  induction groups generalizing index associations with
  | nil => cases member
  | cons group groups ih =>
    obtain ⟨front, back, rfl, paired, later⟩ := protocol
    rcases mem_append.mp member with here | member
    · rcases mem_cons.mp here with rfl | result
      · exact paired.distinct
      · simp [messageBlocks_of_isTool (results group mem_cons_self message result)]
    · exact ih (fun other listed => results other (.tail _ listed)) later member

theorem resolvedAll_of_getElem? {place : Nat} {results : List ModelInputMessage}
    (length : associations.length = results.length)
    (each : ∀ (position : Nat) result association, results[position]? = some result →
      associations[position]? = some association → isTool result = true ∧
        Resolved candidate calls (place + position) result association) :
    ResolvedAll candidate calls place results associations := by
  induction results generalizing place associations with
  | nil => exact length_eq_zero_iff.mp length
  | cons result results ih =>
    cases associations with
    | nil => cases length
    | cons association rest =>
      obtain ⟨tool, resolves⟩ := each 0 result association rfl rfl
      refine ⟨association, rest, rfl, tool, resolves, ih (by simpa using length) ?_⟩
      intro position result association resultAt associationAt
      have later := each (position + 1) result association resultAt associationAt
      rwa [show place + (position + 1) = place + 1 + position by omega] at later

theorem CallsOf.resolved (known : CallsOf candidate originals calls messages) {groups : List Group}
    (suffix : groups.flatMap Group.messages = messages.drop index)
    (heads : ∀ group ∈ groups, isTool group.head = false)
    (results : ∀ group ∈ groups, ∀ result ∈ group.results, isTool result = true)
    (protocol : Protocol candidate index groups associations) :
    ResolvedGroups candidate calls index groups associations := by
  induction groups generalizing index associations with
  | nil => exact protocol
  | cons group groups ih =>
    obtain ⟨front, back, rfl, paired, later⟩ := protocol
    obtain ⟨headAt, rest⟩ := suffix_cons suffix
    have within := (List.getElem?_eq_some_iff.mp headAt).1
    rw [← known.sameLength] at within
    have itemAt := getElem?_eq_getElem within
    have answers := paired.answers _ itemAt
    refine ⟨front, back, rfl, heads group mem_cons_self, ?_, ?_,
      ih rest (fun other listed => heads other (.tail _ listed))
        (fun other listed => results other (.tail _ listed)) later⟩
    · refine resolvedAll_of_getElem? paired.length fun position result association resultAt
        associationAt => ⟨results group mem_cons_self result (mem_of_getElem? resultAt), ?_⟩
      have answer := answers position result association resultAt associationAt
      obtain ⟨call, member, wire, resultWire, tool⟩ := answer.call
      obtain ⟨source, canonical, looked⟩ := known.lookup_block itemAt headAt member
      rw [answer.source, Option.some.injEq] at canonical
      rw [← answer.callAt] at looked
      exact ⟨answer.resultAt, ⟨_, looked, canonical, wire, resultWire, tool⟩, answer.recorded⟩
    · rw [known.keys_at headAt]
      have coordinates : front.map CompiledToolAssociation.call =
          (front.map fun association => association.call.block).map
            fun block => { message := candidate.at index, block } := by
        rw [map_map]
        refine map_congr_left fun association member => ?_
        obtain ⟨position, associationAt⟩ := mem_iff_getElem?.mp member
        have bound := (List.getElem?_eq_some_iff.mp associationAt).1
        rw [paired.length] at bound
        have answer := answers position _ association (getElem?_eq_getElem bound) associationAt
        rw [Function.comp_apply, ← answer.callAt]
      rw [coordinates, blockCoordinates]
      simpa [map_map, Function.comp_def] using paired.bijection.map
        (fun block => ({ message := candidate.at index, block } : CheckpointCallCoordinate))

variable {state : Pairings}

/-- A result that names a pending call is paired with it. -/
theorem pairMessage_result (small : index < 2 ^ 32) {item : CheckpointItem}
    (tool : isTool message = true) (resolves : Resolved candidate calls index message association)
    (named : item.resultCall = some association.call)
    (earlier : association.call.message.itemIndex < index)
    (pending : association.call ∈ state.pending) (fresh : association.call ∉ state.paired) :
    pairMessage candidate calls index item message state = .ok
      { paired := association.call :: state.paired
        pending := state.pending.erase association.call
        tools := state.tools ++ [association] } := by
  obtain ⟨target, result, canonical, wireId⟩ := association
  obtain ⟨rfl, ⟨call, found, rfl, rfl, wire, owner⟩, recorded⟩ := resolves
  cases seen : message.view with
  | tool id output =>
    have same : id = call.wireId := by simpa [resultWireId, seen] using wire
    have agrees : (recordedOccurrence message).all (· == call.source) = true := by
      cases known : recordedOccurrence message with
      | none => rfl
      | some occurrence => simpa using recorded occurrence known
    have before : target.message.itemIndex < (candidate.at index).itemIndex := earlier
    simp only [pairMessage, occurrence_of_lt small, ok_bind, seen, resultTarget, named,
      pairResult, found, before, agrees, owner, same, require, contains_eq_mem, pending,
      fresh, decide_true, decide_false, Bool.not_false, Bool.and_self, beq_self_eq_true, if_true]
    rfl
  | _ => simp [isTool, seen] at tool

/-- Results that name what is pending leave nothing pending. -/
theorem pairMessages_results {results : List ModelInputMessage} (rest : List ModelInputMessage)
    {items : List CheckpointItem} {place : Nat}
    (small : place + results.length ≤ 2 ^ 32) (long : results.length ≤ items.length)
    (resolved : ResolvedAll candidate calls place results front)
    (named : ∀ (position : Nat) association item, front[position]? = some association →
      items[position]? = some item → item.resultCall = some association.call)
    (earlier : ∀ association ∈ front, association.call.message.itemIndex < place)
    (pending : (front.map CompiledToolAssociation.call).Perm state.pending)
    (distinct : (front.map CompiledToolAssociation.call).Nodup)
    (fresh : ∀ coordinate ∈ front.map CompiledToolAssociation.call, coordinate ∉ state.paired) :
    pairMessages candidate calls place items (results ++ rest) state =
      pairMessages candidate calls (place + results.length) (items.drop results.length) rest
        { paired := (front.map CompiledToolAssociation.call).reverse ++ state.paired
          tools := state.tools ++ front
          pending := [] } := by
  induction results generalizing place items front state with
  | nil =>
    cases show front = [] from resolved
    obtain ⟨paired, tools, stillPending⟩ := state
    have none : stillPending = [] := by simpa using pending.symm
    simp [none]
  | cons result results ih =>
    obtain ⟨association, front, rfl, tool, resolves, later⟩ := resolved
    cases items with
    | nil => cases long
    | cons item items =>
      rw [length_cons] at small
      obtain ⟨alone, distinct⟩ := nodup_cons.mp distinct
      obtain ⟨unpaired, fresh⟩ := forall_mem_cons.mp fresh
      have here := pairMessage_result (by omega) tool resolves
        (named 0 association item rfl rfl) (earlier _ mem_cons_self)
        (pending.mem_iff.mp mem_cons_self) unpaired
      have stillFresh : ∀ coordinate ∈ front.map CompiledToolAssociation.call,
          coordinate ∉ association.call :: state.paired := fun coordinate member listed =>
        (mem_cons.mp listed).elim (fun same => alone (same ▸ member)) (fresh coordinate member)
      rw [cons_append, pairMessages, here, ok_bind, ih (by omega)
        (by simpa using long) later (fun position => named (position + 1))
        (fun other member => Nat.lt_succ_of_lt (earlier other (.tail _ member)))
        (by simpa using pending.erase association.call) distinct stillFresh]
      simp [Nat.add_assoc, Nat.add_comm 1]

/-- A head that names no call opens its own batch. -/
theorem pairMessage_head (small : index < 2 ^ 32) {item : CheckpointItem}
    (head : isTool message = false) (unnamed : item.resultCall = none) (none : state.pending = []) :
    pairMessage candidate calls index item message state = .ok { state with
      pending := (calls.map Prod.fst).filter
        fun coordinate => coordinate.message = candidate.at index } := by
  cases seen : message.view with
  | tool id output => simp [isTool, seen] at head
  | _ =>
    simp only [pairMessage, occurrence_of_lt small, ok_bind, seen, unnamed, none, require,
      Option.isNone_none, isEmpty_nil, if_true]
    rfl

/-- Resolved groups whose results name their calls are paired. -/
theorem CallsOf.pairMessages_complete (known : CallsOf candidate originals calls messages)
    (small : messages.length ≤ 2 ^ 32) {groups : List Group}
    (suffix : groups.flatMap Group.messages = messages.drop index)
    (resolved : ResolvedGroups candidate calls index groups associations)
    (explicit : Explicit candidate messages associations) (none : state.pending = [])
    (earlier : ∀ coordinate ∈ state.paired, coordinate.message.itemIndex < index) :
    ∃ after, pairMessages candidate calls index (candidate.items.drop index)
        (groups.flatMap Group.messages) state = .ok after ∧
      after.tools = state.tools ++ associations ∧ after.pending = [] := by
  induction groups generalizing index associations state with
  | nil =>
    cases show associations = [] from resolved
    exact ⟨state, by simp [pairMessages], by simp, none⟩
  | cons group groups ih =>
    obtain ⟨front, back, rfl, head, answers, answered, later⟩ := resolved
    obtain ⟨headAt, rest⟩ := suffix_cons suffix
    have room : index + 1 + group.results.length ≤ messages.length := by
      have counted := congrArg List.length suffix
      simp only [flatMap_cons, Group.messages, length_append, length_cons, length_drop] at counted
      omega
    have itemsLong := known.sameLength
    have itemAt : candidate.items[index]? = some candidate.items[index] :=
      getElem?_eq_getElem (by omega)
    have own : ∀ coordinate ∈ front.map CompiledToolAssociation.call,
        coordinate.message = candidate.at index := fun coordinate member => by
      simpa using (mem_filter.mp (answered.mem_iff.mp member)).2
    have fresh : ∀ coordinate ∈ front.map CompiledToolAssociation.call,
        coordinate ∉ state.paired := by
      intro coordinate member listed
      have less := earlier coordinate listed
      rw [own coordinate member] at less
      exact lt_irrefl _ less
    have named : ∀ (position : Nat) association item, front[position]? = some association →
        (candidate.items.drop (index + 1))[position]? = some item →
          item.resultCall = some association.call := by
      intro position association item associationAt found
      have bound := (List.getElem?_eq_some_iff.mp associationAt).1
      rw [resolvedAll_length answers] at bound
      have resolves := (answers.getElem? (getElem?_eq_getElem bound) associationAt).2
      refine explicit.results association
        (mem_append_left _ (mem_of_getElem? associationAt)) item ?_
      rw [getElem?_drop] at found
      rwa [resolves.resultAt]
    have earlierThen : ∀ coordinate ∈
        (front.map CompiledToolAssociation.call).reverse ++ state.paired,
        coordinate.message.itemIndex < index + 1 + group.results.length := by
      intro coordinate member
      rcases mem_append.mp member with here | before
      · rw [own coordinate (mem_reverse.mp here)]
        exact Nat.lt_of_lt_of_le (Nat.lt_succ_self _) (Nat.le_add_right _ _)
      · have less := earlier coordinate before
        omega
    have explicitThen : Explicit candidate messages back :=
      ⟨fun association member => explicit.results association (mem_append_right _ member),
        explicit.heads⟩
    let opened : Pairings := { state with
      pending := (calls.map Prod.fst).filter
        fun coordinate => coordinate.message = candidate.at index }
    let closed : Pairings :=
      { paired := (front.map CompiledToolAssociation.call).reverse ++ state.paired
        tools := state.tools ++ front
        pending := [] }
    obtain ⟨after, paired, tools, settled⟩ := ih rest later explicitThen
      (show closed.pending = [] from rfl) earlierThen
    have batch : pairMessages candidate calls (index + 1) (candidate.items.drop (index + 1))
        (group.results ++ groups.flatMap Group.messages) opened = .ok after := by
      have long : group.results.length ≤ (candidate.items.drop (index + 1)).length := by
        rw [length_drop]
        omega
      have before : ∀ association ∈ front, association.call.message.itemIndex < index + 1 := by
        intro association member
        rw [own _ (mem_map_of_mem member)]
        exact Nat.lt_succ_self _
      have distinct := answered.nodup_iff.mpr
        ((known.collected.keys_nodup known.sameLength).filter _)
      have closes := pairMessages_results (groups.flatMap Group.messages) (by omega) long answers
        named before (show List.Perm _ opened.pending from answered) distinct
        (show ∀ coordinate ∈ _, coordinate ∉ opened.paired from fresh)
      rw [closes, drop_drop]
      exact paired
    refine ⟨after, ?_, by rw [tools, append_assoc], settled⟩
    rw [drop_eq_getElem_cons (by omega), flatMap_cons, Group.messages, cons_append, pairMessages,
      pairMessage_head (by omega) head (explicit.heads _ _ _ itemAt headAt head) none, ok_bind]
    exact batch

end Complete

section Accepted

variable {σ : Type} {encoding : Encoding} {resolve : Resolver σ} {candidate : CheckpointCandidate}

theorem validateBudget_items (valid : candidate.validateBudget = .ok ()) :
    candidate.items.length ≤ 8192 := by
  simp only [CheckpointCandidate.validateBudget, bind_eq_ok_iff, require_eq_ok_iff,
    exists_const, Bool.not_eq_true', Bool.or_eq_false_iff, decide_eq_false_iff_not, not_lt] at valid
  exact valid.1.2

theorem compileCheckpoint_eq_ok_iff :
    compileCheckpoint encoding resolve start candidate = .ok compiled ↔
      candidate.validateBudget = .ok () ∧ ∃ messages loading calls tools,
        load encoding resolve candidate start = .ok (messages, loading) ∧
        collectCalls candidate loading.originals 0 candidate.items messages = .ok calls ∧
        pairResults candidate calls messages = .ok tools ∧
        compiled = { messages, tools } := by
  simp only [compileCheckpoint, bind_eq_ok_iff, pure_eq_ok_iff, Prod.exists]
  constructor
  · rintro ⟨_, valid, messages, loading, loaded, calls, collected, tools, paired, rfl⟩
    exact ⟨valid, messages, loading, calls, tools, loaded, collected, paired, rfl⟩
  · rintro ⟨valid, messages, loading, calls, tools, loaded, collected, paired, rfl⟩
    exact ⟨(), valid, messages, loading, loaded, calls, collected, tools, paired, rfl⟩

theorem callsOf (valid : candidate.validateBudget = .ok ())
    (loaded : load encoding resolve candidate start = .ok (messages, loading))
    (collected : collectCalls candidate loading.originals 0 candidate.items messages = .ok calls) :
    CallsOf candidate loading.originals calls messages := by
  have items := validateBudget_items valid
  have loads := load_loads loaded
  exact ⟨loads.length.symm, collected_of_collectCalls (by omega) collected, loads.ids⟩

theorem compileCheckpoint_sound
    (compiled : compileCheckpoint encoding resolve start candidate = .ok { messages, tools }) :
    ∃ groups, Splits groups messages ∧ Protocol candidate 0 groups tools := by
  obtain ⟨valid, messages, loading, calls, tools, loaded, collected, paired, same⟩ :=
    compileCheckpoint_eq_ok_iff.mp compiled
  cases same
  have known := callsOf valid loaded collected
  have items := validateBudget_items valid
  have sameLength := known.sameLength
  simp only [pairResults, bind_eq_ok_iff, require_eq_ok_iff, pure_eq_ok_iff, beq_iff_eq,
    exists_const] at paired
  obtain ⟨after, paired, all, rfl⟩ := paired
  have settled : after.pending = [] := by
    have counted := known.pairMessages_length (by omega) (by simp) sameLength paired
    rw [← known.collected.keys sameLength, length_map, all] at counted
    simpa using counted
  obtain ⟨results, front, groups, back, rfl, made, answered, resolved, grouped⟩ :=
    pairMessages_sound (by omega) sameLength paired settled
  cases show front = [] by simpa using answered
  cases show results = [] by simpa using (resolvedAll_length resolved).symm
  rw [show after.tools = back by simpa using made]
  exact ⟨groups, splits_of_resolved grouped, known.protocol rfl grouped⟩

/-- What follows the protocol and names its calls compiles. -/
theorem compileCheckpoint_complete (valid : candidate.validateBudget = .ok ())
    (loaded : load encoding resolve candidate start = .ok (messages, loading))
    (sourced : CallSourcesPass candidate loading.originals messages)
    (splits : Splits groups messages) (protocol : Protocol candidate 0 groups tools)
    (explicit : Explicit candidate messages tools) :
    compileCheckpoint encoding resolve start candidate = .ok { messages, tools } := by
  have items := validateBudget_items valid
  have loads := load_loads loaded
  have bounds : ∀ message ∈ messages, ∀ block ∈ messageBlocks message, block.1 < 2 ^ 32 := by
    intro message member block listed
    have within : block.1 < (assistantContent message).length :=
      (List.getElem?_eq_some_iff.mp (mem_callBlocks.mp listed)).1
    have content : (assistantContent message).length ≤ encoding.inputBytes message := by
      unfold assistantContent
      split
      · exact encoding.content_le _ _ ‹_›
      · exact Nat.zero_le _
    have fits := loads.fits message member
    rw [maxMaterializedBytes] at fits
    omega
  obtain ⟨calls, collected⟩ : ∃ calls,
      collectCalls candidate loading.originals 0 candidate.items messages = .ok calls := by
    refine collectCalls_complete (by omega) fun position item message itemAt messageAt => ?_
    have member := mem_of_getElem? messageAt
    have pass := sourced position item message itemAt messageAt
    exact ⟨pass.1, pass.2, bounds message member,
      protocol_distinct splits.results protocol (splits.whole ▸ member)⟩
  have known := callsOf valid loaded collected
  have whole : groups.flatMap Group.messages = messages.drop 0 := splits.whole
  have small : messages.length ≤ 2 ^ 32 := by
    rw [loads.length]
    omega
  obtain ⟨after, paired, made, settled⟩ := known.pairMessages_complete small whole
    (known.resolved whole splits.heads splits.results protocol) explicit
    (show ({} : Pairings).pending = [] from rfl) (by simp)
  rw [splits.whole, drop_zero] at paired
  have all : after.paired.length = calls.length := by
    have counted := known.pairMessages_length (by omega) (by simp) known.sameLength paired
    rw [← known.collected.keys known.sameLength, length_map, settled] at counted
    simpa using counted
  have results : pairResults candidate calls messages = .ok tools := by
    simp only [pairResults, bind_eq_ok_iff, require_eq_ok_iff, pure_eq_ok_iff, beq_iff_eq,
      exists_const]
    exact ⟨after, paired, all, by simpa using made⟩
  exact compileCheckpoint_eq_ok_iff.mpr
    ⟨valid, messages, loading, calls, tools, loaded, collected, results, rfl⟩

end Accepted

/-- Exactly the protocol-valid histories compile. An accepted candidate splits uniquely into
groups whose results answer the calls of their head one to one, and the associations are these
pairs in message order; a candidate with such groups, whose sources pass their checks and whose
results name their calls, is accepted with these associations. -/
theorem compileCheckpoint_accepts_protocol {σ : Type} (encoding : Encoding)
    (resolve : Resolver σ) (start : σ) (candidate : CheckpointCandidate)
    (messages : List ModelInputMessage) (tools : List CompiledToolAssociation) :
    (compileCheckpoint encoding resolve start candidate = .ok { messages, tools } →
      ∃ groups, Splits groups messages ∧ Protocol candidate 0 groups tools ∧
        ∀ others, Splits others messages → others = groups) ∧
    (∀ loading groups, candidate.validateBudget = .ok () →
      load encoding resolve candidate start = .ok (messages, loading) →
      CallSourcesPass candidate loading.originals messages →
      Splits groups messages → Protocol candidate 0 groups tools →
      Explicit candidate messages tools →
      compileCheckpoint encoding resolve start candidate = .ok { messages, tools }) := by
  refine ⟨fun compiled => ?_, fun loading groups valid loaded sourced splits protocol explicit =>
    compileCheckpoint_complete valid loaded sourced splits protocol explicit⟩
  obtain ⟨groups, splits, protocol⟩ := compileCheckpoint_sound compiled
  exact ⟨groups, splits, protocol, fun others other => other.unique splits⟩

def issued : MessageBlock := .assistant
  { id := "calls"
    content := [.toolCall { id := "call", toolId := "tool", name := "tool", arguments := .null }] }

def returned : MessageBlock := .tool
  { id := "result", occurrence := { assistantMessageId := "calls", blockIndex := 0 }
    toolCallId := "call", toolId := "tool"
    result := { status := .success, content := [], facts := .null } }

def contentEncoding : Encoding where
  digest := MessageBlock.id
  blockBytes := fun _ => 1
  inputBytes := fun message => (assistantContent message).length
  content_le := fun message content seen => by simp [assistantContent, seen]

def twoMessages : Resolver Unit := fun reference _ => pure
  { frontier := 1, reference
    body := if reference.messageId = "calls" then some issued else some returned }

def answeredCandidate : CheckpointCandidate where
  checkpointId := "checkpoint"
  readCut := { conversationId := "conversation", ledger := 2 }
  baseFrontier := 2
  items :=
    [{ message := .original (CanonicalMessageRef.of contentEncoding "conversation" issued)
       callSources := [], resultCall := none },
     { message := .original (CanonicalMessageRef.of contentEncoding "conversation" returned)
       callSources := []
       resultCall := some { message := { checkpointId := "checkpoint", itemIndex := 0 }, block := 0 } }]
  encodedBytes := 100

/-- A call and the result that names it are accepted as one group, in both directions. -/
theorem compileCheckpoint_accepts_protocol_answered : ∃ groups tools,
    tools.map CompiledToolAssociation.wireId = ["call"] ∧
    Splits groups [.canonical issued, .canonical returned] ∧
    Protocol answeredCandidate 0 groups tools ∧
    compileCheckpoint contentEncoding twoMessages () answeredCandidate =
      .ok { messages := [.canonical issued, .canonical returned], tools } := by
  let association : CompiledToolAssociation :=
    { call := { message := answeredCandidate.at 0, block := 0 }, result := answeredCandidate.at 1
      canonicalSource := { assistantMessageId := "calls", blockIndex := 0 }, wireId := "call" }
  have both := compileCheckpoint_accepts_protocol contentEncoding twoMessages () answeredCandidate
    [.canonical issued, .canonical returned] [association]
  obtain ⟨groups, splits, protocol, -⟩ := both.1 rfl
  have sourced : CallSourcesPass answeredCandidate [("calls", issued), ("result", returned)]
      [.canonical issued, .canonical returned] := by
    intro index item message itemAt messageAt
    match index with
    | 0 =>
      cases itemAt
      cases messageAt
      exact ⟨.inl rfl, fun block _ => ⟨_, rfl⟩⟩
    | 1 =>
      cases itemAt
      cases messageAt
      exact ⟨rfl, fun block member => nomatch member⟩
    | _ + 2 => cases itemAt
  have explicit : Explicit answeredCandidate [.canonical issued, .canonical returned]
      [association] := by
    refine ⟨fun one member item found => ?_, fun index item message itemAt messageAt head => ?_⟩
    · cases mem_singleton.mp member
      cases found
      rfl
    match index with
    | 0 =>
      cases itemAt
      rfl
    | 1 =>
      cases messageAt
      cases head
    | _ + 2 => cases itemAt
  exact ⟨groups, [association], rfl, splits, protocol,
    both.2 _ groups rfl rfl sourced splits protocol explicit⟩

end RustX.Context
