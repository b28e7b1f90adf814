import RustX.Model.Correlation

/-!
An encoding is faithful where every place it indexes exists: calls get distinct labels,
results follow their calls, and nothing else changes.
-/
namespace RustX.Model.Correlation

open Function Places List Assoc

section Labels

theorem freeLabel_length (occupied : List String) (fuel : Nat) (label : String) :
    label.length ≤ (freeLabel occupied fuel label).length := by
  induction fuel generalizing label with
  | zero => exact Nat.le_refl _
  | succ fuel ih =>
    rw [freeLabel]
    split
    · have longer := ih (label.push '_')
      rw [String.length_push] at longer
      omega
    · exact Nat.le_refl _

/-- Each candidate is longer than the last, so the occupied labels run out. -/
theorem freeLabel_not_mem {occupied : List String} {fuel : Nat} {label : String}
    (enough : (occupied.filter fun other => label.length ≤ other.length).length ≤ fuel) :
    freeLabel occupied fuel label ∉ occupied := by
  induction fuel generalizing label with
  | zero =>
    intro member
    have kept : label ∈ occupied.filter fun other => label.length ≤ other.length :=
      mem_filter.mpr ⟨member, by simp⟩
    exact absurd (length_pos_of_mem kept) (by omega)
  | succ fuel ih =>
    rw [freeLabel]
    split
    · rename_i member
      refine ih ?_
      have within : (occupied.filter fun other => label.length ≤ other.length).filter
          (fun other => (label.push '_').length ≤ other.length) =
          occupied.filter fun other => (label.push '_').length ≤ other.length := by
        rw [filter_filter]
        refine filter_congr fun other _ => ?_
        rw [String.length_push, ← Bool.decide_and, decide_eq_decide]
        omega
      have fewer : (occupied.filter fun other => (label.push '_').length ≤ other.length).length <
          (occupied.filter fun other => label.length ≤ other.length).length := by
        rw [← within, length_filter_lt_length_iff_exists]
        exact ⟨label, mem_filter.mpr ⟨member, by simp⟩, by simp [String.length_push]⟩
      omega
    · assumption

theorem countIds_eq (raw : List String) (id : String) : countIds raw id = raw.count id := by
  have counted : ∀ (raw : List String) (remaining : String → Nat),
      raw.foldl (fun remaining id => update remaining id (remaining id + 1)) remaining id =
        remaining id + raw.count id := by
    intro raw
    induction raw with
    | nil => simp
    | cons head raw ih =>
      intro remaining
      rw [foldl_cons, ih, count_cons]
      by_cases same : head = id
      · subst same
        rw [update_self, if_pos (beq_self_eq_true _)]
        omega
      · rw [update_of_ne (Ne.symm same), if_neg (by simpa using same)]
        omega
  simpa [countIds] using counted raw fun _ => 0

variable {raw : List String}

/-- After one call the counts are those of the calls that are left. -/
theorem counts_tail {id : String} (counts : ∀ other, remaining other = (id :: raw).count other) :
    remaining id - 1 = raw.count id ∧
      ∀ other, update remaining id (remaining id - 1) other = raw.count other := by
  have here : remaining id - 1 = raw.count id := by
    rw [counts id, count_cons_self, Nat.add_sub_cancel]
  refine ⟨here, fun other => ?_⟩
  by_cases same : other = id
  · subst same
    rw [update_self, here]
  · rw [update_of_ne same, counts, count_cons_of_ne (Ne.symm same)]

theorem labelCalls_length (index : Nat) (raw : List String) (remaining : String → Nat)
    (occupied : List String) : (labelCalls index raw remaining occupied).length = raw.length := by
  induction raw generalizing index remaining occupied with
  | nil => rfl
  | cons id raw ih =>
    simp only [labelCalls]
    split <;> simp [ih]

/-- Labels are distinct, and an occupied one is an id that is still to come. -/
theorem labelCalls_distinct (index : Nat) (occupied : List String)
    (counts : ∀ id, remaining id = raw.count id) (held : ∀ id ∈ raw, id ∈ occupied) :
    (labelCalls index raw remaining occupied).Nodup ∧
      ∀ label ∈ labelCalls index raw remaining occupied, label ∈ occupied → label ∈ raw := by
  induction raw generalizing index remaining occupied with
  | nil => simp [labelCalls]
  | cons id raw ih =>
    obtain ⟨here, later⟩ := counts_tail counts
    simp only [labelCalls]
    split
    · rename_i last
      obtain ⟨distinct, known⟩ := ih _ occupied later
        fun other member => held other (.tail _ member)
      have gone : id ∉ raw := count_eq_zero.mp (here ▸ last)
      refine ⟨nodup_cons.mpr ⟨fun again => gone (known id again (held id (.head _))), distinct⟩,
        fun label member occupiedLabel => ?_⟩
      rcases mem_cons.mp member with rfl | member
      · exact mem_cons_self
      · exact .tail _ (known label member occupiedLabel)
    · have free : freeLabel occupied occupied.length s!"rustx_occurrence_{index}" ∉ occupied :=
        freeLabel_not_mem (length_filter_le _ _)
      generalize freeLabel occupied occupied.length s!"rustx_occurrence_{index}" = label at free ⊢
      obtain ⟨distinct, known⟩ := ih _ _ later
        fun other member => .tail _ (held other (.tail _ member))
      refine ⟨nodup_cons.mpr ⟨fun again => free ?_, distinct⟩, fun other member occupiedLabel => ?_⟩
      · exact held label (.tail _ (known label again mem_cons_self))
      · rcases mem_cons.mp member with rfl | member
        · exact absurd occupiedLabel free
        · exact .tail _ (known other member (.tail _ occupiedLabel))

theorem labelCalls_last {after} (index : Nat) (occupied : List String) {id : String}
    (counts : ∀ other, remaining other = (before ++ id :: after).count other) (last : id ∉ after) :
    ∃ front back, labelCalls index (before ++ id :: after) remaining occupied =
      front ++ id :: back ∧ front.length = before.length := by
  induction before generalizing index remaining occupied with
  | nil =>
    obtain ⟨here, -⟩ := counts_tail counts
    rw [count_eq_zero.mpr last] at here
    refine ⟨[], labelCalls (index + 1) after
      (update remaining id (remaining id - 1)) occupied, ?_, rfl⟩
    simp only [nil_append, labelCalls, if_pos here]
  | cons first before ih =>
    obtain ⟨-, later⟩ := counts_tail counts
    simp only [cons_append, labelCalls]
    split
    · obtain ⟨front, back, labels, length⟩ := ih _ occupied later
      exact ⟨first :: front, back, by rw [labels]; rfl, by simp [length]⟩
    · obtain ⟨front, back, labels, length⟩ := ih _ _ later
      exact ⟨_ :: front, back, by rw [labels]; rfl, by simp [length]⟩

theorem labelCalls_of_nodup (index : Nat) (occupied : List String)
    (counts : ∀ id, remaining id = raw.count id) (distinct : raw.Nodup) :
    labelCalls index raw remaining occupied = raw := by
  induction raw generalizing index remaining with
  | nil => rfl
  | cons id raw ih =>
    obtain ⟨here, later⟩ := counts_tail counts
    obtain ⟨gone, rest⟩ := nodup_cons.mp distinct
    rw [count_eq_zero.mpr gone] at here
    simp only [labelCalls, if_pos here, ih _ later rest]

theorem labelCalls_nonempty (index : Nat) (occupied : List String) (named : ∀ id ∈ raw, id ≠ "") :
    ∀ label ∈ labelCalls index raw remaining occupied, label ≠ "" := by
  induction raw generalizing index remaining occupied with
  | nil => simp [labelCalls]
  | cons id raw ih =>
    obtain ⟨here, later⟩ := forall_mem_cons.mp named
    simp only [labelCalls]
    split
    · exact forall_mem_cons.mpr ⟨here, ih _ _ later⟩
    · refine forall_mem_cons.mpr ⟨fun empty => ?_, ih _ _ later⟩
      have longer := freeLabel_length occupied occupied.length s!"rustx_occurrence_{index}"
      rw [empty] at longer
      simp at longer

end Labels

section Reached

def reachedToolRole : Bool → Reached Bool
  | true => Reached.atKey "tool_call_id" (Reached.leaf false)
  | false => Reached.none

def reachedKind (callKey resultKey : String) : WireKind → Reached Bool
  | .call => Reached.atKey callKey (Reached.leaf true)
  | .result => Reached.atKey resultKey (Reached.leaf false)
  | .other => Reached.none

def reachedChatMessage : Reached Bool :=
  (Reached.atKey "tool_calls" (Reached.eachItem (Reached.atKey "id" (Reached.leaf true)))).andThen
    (Reached.pick hasToolRole reachedToolRole)

def reachedAnthropicBlock : Reached Bool :=
  Reached.pick (wireKind "tool_use" "tool_result") (reachedKind "id" "tool_use_id")

def reachedResponsesItem : Reached Bool :=
  Reached.pick (wireKind "function_call" "function_call_output") (reachedKind "call_id" "call_id")

/-- The correlation fields of a request; `true` marks those of calls. -/
def reached : ModelProtocol → Reached Bool
  | .openAiChatCompletions =>
    Reached.atKey "messages" (Reached.eachItem reachedChatMessage)
  | .anthropicMessages =>
    Reached.atKey "messages" (Reached.eachItem
      (Reached.atKey "content" (Reached.eachItem reachedAnthropicBlock)))
  | .openAiResponses => Reached.atKey "input" (Reached.eachItem reachedResponsesItem)

theorem hasToolRole_agree {value other : Json} {key : String} (ne : "role" ≠ key)
    (agree : ∀ name, name ≠ key → value.get name = other.get name) :
    hasToolRole value = hasToolRole other := by
  rw [hasToolRole, hasToolRole, Json.index, Json.index, agree "role" ne]

theorem visits_toolRole (tool : Bool) :
    Visits (reachedToolRole tool) fun field => visitToolRole tool field := by
  cases tool with
  | true => exact (visits_leaf false).atKey "tool_call_id"
  | false => exact visits_none

theorem ignores_toolRole (tool : Bool) :
    Ignores "tool_calls" (reachedToolRole tool) fun field => visitToolRole tool field := by
  cases tool with
  | true =>
    exact ignores_atKey (by decide) _ fun field => field false
  | false => exact ignores_none "tool_calls"

theorem visitToolRole_stable {after} {σ : Type} {field : Bool → Visitor σ} {state final : σ}
    (ran : visitToolRole tool field value state = some (after, final)) :
    hasToolRole after = hasToolRole value := by
  cases tool with
  | true =>
    have kept : after.get "role" = value.get "role" := atKey_get_of_ne (by decide) ran
    rw [hasToolRole, hasToolRole, Json.index, Json.index, kept]
  | false =>
    cases ran
    rfl

theorem reachedToolRole_stable (tool : Bool) (value : Json) :
    hasToolRole ((reachedToolRole tool).blank value) = hasToolRole value := by
  cases tool with
  | true =>
    have kept := Json.get_modify_of_ne (show "role" ≠ "tool_call_id" by decide)
      (Reached.leaf false).blank value
    exact congrArg (fun role => role.getD .null == .string "tool") kept
  | false => rfl

theorem visits_chatMessage : Visits reachedChatMessage fun field => visitChatMessage field :=
  ((visits_leaf true).atKey "id").eachItem.atKey_andThen
    (visits_pick visits_toolRole visitToolRole_stable reachedToolRole_stable)
    (ignores_pick ignores_toolRole fun agree => hasToolRole_agree (by decide) agree)

section Kind

variable (callType resultType : String) (callNamed : callKey ≠ "type")
  (resultNamed : resultKey ≠ "type")
include callNamed resultNamed

theorem visitKind_stable {after} {σ : Type} {field : Bool → Visitor σ} {state final : σ}
    (ran : visitKind callKey resultKey kind field value state = some (after, final)) :
    wireKind callType resultType after = wireKind callType resultType value := by
  have kept : after.get "type" = value.get "type" := by
    cases kind with
    | call => exact atKey_get_of_ne (Ne.symm callNamed) ran
    | result => exact atKey_get_of_ne (Ne.symm resultNamed) ran
    | other =>
      cases ran
      rfl
  rw [wireKind, wireKind, Json.index, Json.index, kept]

theorem reachedKind_stable (kind : WireKind) (value : Json) :
    wireKind callType resultType ((reachedKind callKey resultKey kind).blank value) =
      wireKind callType resultType value := by
  have kept : ((reachedKind callKey resultKey kind).blank value).get "type" = value.get "type" := by
    cases kind with
    | call => exact Json.get_modify_of_ne (Ne.symm callNamed) _ value
    | result => exact Json.get_modify_of_ne (Ne.symm resultNamed) _ value
    | other => rfl
  rw [wireKind, wireKind, Json.index, Json.index, kept]

omit callNamed resultNamed in
theorem visits_kind (kind : WireKind) :
    Visits (reachedKind callKey resultKey kind) fun field => visitKind callKey resultKey kind field := by
  cases kind with
  | call => exact (visits_leaf true).atKey callKey
  | result => exact (visits_leaf false).atKey resultKey
  | other => exact visits_none

theorem visits_wireKind :
    Visits (Reached.pick (wireKind callType resultType) (reachedKind callKey resultKey))
      fun field value => visitKind callKey resultKey (wireKind callType resultType value) field value :=
  visits_pick visits_kind (visitKind_stable callType resultType callNamed resultNamed)
    (reachedKind_stable callType resultType callNamed resultNamed)

end Kind

theorem visits (protocol : ModelProtocol) :
    Visits (reached protocol) fun field => visit protocol field := by
  cases protocol with
  | openAiChatCompletions => exact visits_chatMessage.eachItem.atKey "messages"
  | anthropicMessages =>
    exact (((visits_wireKind "tool_use" "tool_result" (by decide) (by decide)).eachItem.atKey
      "content").eachItem).atKey "messages"
  | openAiResponses =>
    exact (visits_wireKind "function_call" "function_call_output" (by decide)
      (by decide)).eachItem.atKey "input"

end Reached

section Events

/-- Calls and results with the ids they carry. -/
abbrev Wire := List (Bool × String)

def callIds (events : Wire) : List String :=
  (events.filter Prod.fst).map Prod.snd

def Unresolved (events : Wire) (position : Nat) (id : String) : Prop :=
  events[position]? = some (true, id) ∧
    ∀ later, position < later → events[later]? ≠ some (false, id)

def Answers (events : Wire) (call result : Nat) : Prop :=
  ∃ id, events[result]? = some (false, id) ∧ Unresolved (events.take result) call id

/-- Every id is named, and none is issued while a call with it is unresolved. -/
structure Unambiguous (events : Wire) : Prop where
  named : ∀ event ∈ events, event.2 ≠ ""
  alone : ∀ position id, events[position]? = some (true, id) →
    ∀ call, ¬ Unresolved (events.take position) call id

variable {events : Wire} {id other : String} {position : Nat}

theorem Unresolved.lt (unresolved : Unresolved events position id) : position < events.length :=
  (List.getElem?_eq_some_iff.mp unresolved.1).1

theorem getElem?_snoc {α : Type} {list : List α} {last value : α} :
    (list ++ [last])[position]? = some value ↔
      list[position]? = some value ∨ (position = list.length ∧ value = last) := by
  rcases Nat.lt_trichotomy position list.length with within | rfl | beyond
  · simp [getElem?_append_left within, Nat.ne_of_lt within]
  · simp [eq_comm]
  · rw [getElem?_eq_none (by rw [length_append, length_singleton]; exact beyond),
      getElem?_eq_none (Nat.le_of_lt beyond)]
    simp [Nat.ne_of_gt beyond]

theorem unresolved_snoc_call : Unresolved (events ++ [(true, id)]) position other ↔
      Unresolved events position other ∨ (position = events.length ∧ other = id) := by
  simp only [Unresolved, ne_eq, getElem?_snoc, Prod.mk.injEq, Bool.false_eq_true, false_and,
    and_false, or_false, true_and]
  constructor
  · rintro ⟨found | ends, unanswered⟩
    · exact .inl ⟨found, unanswered⟩
    · exact .inr ends
  · rintro (⟨found, unanswered⟩ | ⟨rfl, rfl⟩)
    · exact ⟨.inl found, unanswered⟩
    · refine ⟨.inr ⟨rfl, rfl⟩, fun later after answered => ?_⟩
      have within := (List.getElem?_eq_some_iff.mp answered).1
      omega

theorem unresolved_snoc_result : Unresolved (events ++ [(false, id)]) position other ↔
      Unresolved events position other ∧ other ≠ id := by
  simp only [Unresolved, ne_eq, getElem?_snoc, Prod.mk.injEq, reduceCtorEq, false_and, and_false,
    or_false, true_and]
  constructor
  · rintro ⟨found, unanswered⟩
    have within := (List.getElem?_eq_some_iff.mp found).1
    refine ⟨⟨found, fun later after answered => unanswered later after (.inl answered)⟩, ?_⟩
    exact fun same => unanswered _ within (.inr ⟨rfl, same⟩)
  · rintro ⟨⟨found, unanswered⟩, ne⟩
    refine ⟨found, fun later after answered => ?_⟩
    rcases answered with answered | ⟨-, same⟩
    · exact unanswered later after answered
    · exact ne same

theorem callIds_append (first second : Wire) :
    callIds (first ++ second) = callIds first ++ callIds second := by
  simp [callIds]

theorem unambiguous_snoc {call : Bool} :
    Unambiguous (events ++ [(call, id)]) ↔ Unambiguous events ∧ id ≠ "" ∧
      (call = true → ∀ position, ¬ Unresolved events position id) := by
  have before : ∀ {place : Nat} {event : Bool × String}, events[place]? = some event →
      (events ++ [(call, id)]).take place = events.take place := fun found =>
    take_append_of_le_length (Nat.le_of_lt (List.getElem?_eq_some_iff.mp found).1)
  constructor
  · rintro ⟨named, alone⟩
    refine ⟨⟨fun event member => named event (mem_append_left _ member), ?_⟩,
      named _ (mem_append_right _ mem_cons_self), ?_⟩
    · intro place other found position
      have fresh := alone place other (getElem?_snoc.mpr (.inl found)) position
      rwa [before found] at fresh
    · rintro rfl position
      have fresh := alone _ id getElem?_concat_length position
      rwa [take_left' rfl] at fresh
  · rintro ⟨⟨named, alone⟩, here, fresh⟩
    refine ⟨fun event member => ?_, fun place other found position => ?_⟩
    · rcases mem_append.mp member with member | member
      · exact named event member
      · rw [mem_singleton.mp member]
        exact here
    · rcases getElem?_snoc.mp found with found | ⟨rfl, same⟩
      · rw [before found]
        exact alone place other found position
      · cases same
        rw [take_left' rfl]
        exact fresh rfl position

theorem Unresolved.take (unresolved : Unresolved events position id) (before : position < place) :
    Unresolved (events.take place) position id := by
  refine ⟨by rw [getElem?_take_of_lt before, unresolved.1], fun later after answered => ?_⟩
  have within := (List.getElem?_eq_some_iff.mp answered).1
  rw [length_take] at within
  rw [getElem?_take_of_lt (by omega)] at answered
  exact unresolved.2 later after answered

/-- What is clear at the end was clear before. -/
theorem unambiguous_left (clear : Unambiguous (first ++ second)) : Unambiguous first := by
  refine ⟨fun event member => clear.named event (mem_append_left _ member), ?_⟩
  intro place other found call
  have within := (List.getElem?_eq_some_iff.mp found).1
  have fresh := clear.alone place other (by rwa [getElem?_append_left within]) call
  rwa [take_append_of_le_length (Nat.le_of_lt within)] at fresh

theorem Unambiguous.unresolved_unique (clear : Unambiguous events)
    (one : Unresolved events first id) (two : Unresolved events second id) : first = second := by
  rcases Nat.lt_trichotomy first second with before | same | after
  · exact absurd (one.take before) (clear.alone second id two.1 first)
  · exact same
  · exact absurd (two.take after) (clear.alone first id one.1 second)

theorem answers_snoc {isCall : Bool} {call result : Nat} :
    Answers (events ++ [(isCall, id)]) call result ↔ Answers events call result ∨
      (isCall = false ∧ result = events.length ∧ Unresolved events call id) := by
  have before : ∀ {other : String}, events[result]? = some (false, other) →
      (events ++ [(isCall, id)]).take result = events.take result := fun found =>
    take_append_of_le_length (Nat.le_of_lt (List.getElem?_eq_some_iff.mp found).1)
  constructor
  · rintro ⟨other, found, unresolved⟩
    rcases getElem?_snoc.mp found with found | ⟨rfl, same⟩
    · exact .inl ⟨other, found, before found ▸ unresolved⟩
    · cases same
      rw [take_left' rfl] at unresolved
      exact .inr ⟨rfl, rfl, unresolved⟩
  · rintro (⟨other, found, unresolved⟩ | ⟨rfl, rfl, unresolved⟩)
    · exact ⟨other, getElem?_snoc.mpr (.inl found), (before found).symm ▸ unresolved⟩
    · exact ⟨id, getElem?_concat_length, by rwa [take_left' rfl]⟩

end Events

section Scan

def read (slots : List (Bool × Json)) : Wire :=
  slots.map fun slot => (slot.1, sourceId slot.2)

structure Scanned (events : Wire) (scan : Scan) : Prop where
  raw : scan.raw = callIds events
  pending : ∀ id, id ∈ scan.pendingIds ↔ ∃ position, Unresolved events position id
  valid : scan.invalid = none ↔ Unambiguous events

theorem scanned_nil : Scanned [] {} where
  raw := rfl
  pending := fun id => by simp [Unresolved]
  valid := by simp only [true_iff]; exact ⟨by simp, by simp⟩

theorem Scanned.snoc (scanned : Scanned events scan) (call : Bool) (id : Json) :
    ∃ after, scanField call id scan = some (id, after) ∧
      Scanned (events ++ [(call, sourceId id)]) after := by
  refine ⟨_, rfl, ?_⟩
  generalize sourceId id = source
  have empty : (scan.checkEmpty source).raw = scan.raw ∧
      (scan.checkEmpty source).pendingIds = scan.pendingIds ∧
      ((scan.checkEmpty source).invalid = none ↔ scan.invalid = none ∧ source ≠ "") := by
    unfold Scan.checkEmpty
    split <;> simp_all
  obtain ⟨raw, pending, invalid⟩ := empty
  generalize scan.checkEmpty source = next at raw pending invalid ⊢
  cases call with
  | true =>
    rw [if_pos rfl]
    have known : source ∈ next.pendingIds ↔ ∃ position, Unresolved events position source := by
      rw [pending, scanned.pending]
    unfold Scan.issue
    split
    · rename_i ambiguous
      obtain ⟨position, unresolved⟩ := known.mp ambiguous
      refine ⟨by simp [raw, scanned.raw, callIds], fun other => ?_, ?_⟩
      · simp only [pending, scanned.pending, unresolved_snoc_call]
        constructor
        · rintro ⟨place, held⟩
          exact ⟨place, .inl held⟩
        · rintro ⟨place, held | ⟨-, rfl⟩⟩
          · exact ⟨place, held⟩
          · exact ⟨position, unresolved⟩
      · simp only [reduceCtorEq, false_iff, unambiguous_snoc]
        exact fun clear => clear.2.2 trivial position unresolved
    · rename_i fresh
      refine ⟨by simp [raw, scanned.raw, callIds], fun other => ?_, ?_⟩
      · simp only [mem_cons, pending, scanned.pending, unresolved_snoc_call]
        constructor
        · rintro (rfl | ⟨place, held⟩)
          · exact ⟨events.length, .inr ⟨rfl, rfl⟩⟩
          · exact ⟨place, .inl held⟩
        · rintro ⟨place, held | ⟨-, rfl⟩⟩
          · exact .inr ⟨place, held⟩
          · exact .inl rfl
      · simp only [invalid, scanned.valid, unambiguous_snoc, forall_const]
        rw [known, not_exists] at fresh
        exact ⟨fun ⟨clear, named⟩ => ⟨clear, named, fresh⟩, fun ⟨clear, named, _⟩ => ⟨clear, named⟩⟩
  | false =>
    rw [if_neg (by decide)]
    refine ⟨by simp [Scan.resolve, raw, scanned.raw, callIds], fun other => ?_, ?_⟩
    · simp only [Scan.resolve, mem_filter, pending, scanned.pending, decide_eq_true_eq,
        unresolved_snoc_result, exists_and_right, ne_eq]
    · simp [Scan.resolve, invalid, scanned.valid, unambiguous_snoc]

theorem runAll_scanField (scanned : Scanned events scan) :
    ∃ after, runAll scanField slots scan = some (slots, after) ∧
      Scanned (events ++ read slots) after := by
  induction slots generalizing events scan with
  | nil => exact ⟨scan, rfl, by simpa [read] using scanned⟩
  | cons slot slots ih =>
    obtain ⟨call, id⟩ := slot
    obtain ⟨next, here, known⟩ := scanned.snoc call id
    obtain ⟨after, later, all⟩ := ih known
    refine ⟨after, by simp [runAll, here, later], ?_⟩
    simpa [read] using all

end Scan

section Relabel

structure Relabelled (labels : List String) (events out : Wire) (state : Relabelling) : Prop where
  kinds : out.map Prod.fst = events.map Prod.fst
  ordinal : state.ordinal = (callIds events).length
  used : callIds out = labels.take state.ordinal
  pending : ∀ id label, state.pending.lookup id = some label ↔
    ∃ position, Unresolved events position id ∧ out[position]? = some (true, label)
  answered : ∀ call result, Answers events call result →
    ∃ label, out[call]? = some (true, label) ∧ out[result]? = some (false, label)
  unanswered : ∀ result id, events[result]? = some (false, id) →
    (∀ call, ¬ Answers events call result) → out[result]? = some (false, id)

theorem relabelled_nil (labels : List String) : Relabelled labels [] [] {} where
  kinds := rfl
  ordinal := rfl
  used := rfl
  pending := by simp [Unresolved]
  answered := by simp [Answers]
  unanswered := by simp

namespace Relabelled

variable {labels : List String} {events out : Wire} {state : Relabelling}

theorem length (held : Relabelled labels events out state) : out.length = events.length := by
  simpa using congrArg List.length held.kinds

theorem kind_at (held : Relabelled labels events out state) {position : Nat} {isCall : Bool}
    {id : String} (found : events[position]? = some (isCall, id)) :
    ∃ label, out[position]? = some (isCall, label) := by
  have kinds := congrArg (·[position]?) held.kinds
  simp only [getElem?_map, found, Option.map_some, Option.map_eq_some_iff] at kinds
  obtain ⟨⟨other, label⟩, outAt, rfl⟩ := kinds
  exact ⟨label, outAt⟩

variable {label : String}

section

variable (held : Relabelled labels events out state)
include held

theorem result_at {position : Nat} (found : out[position]? = some (false, label)) :
    ∃ id, events[position]? = some (false, id) := by
  have kinds := congrArg (·[position]?) held.kinds.symm
  simp only [getElem?_map, found, Option.map_some, Option.map_eq_some_iff] at kinds
  obtain ⟨⟨kind, id⟩, idAt, rfl⟩ := kinds
  exact ⟨id, idAt⟩

theorem answered_snoc {isCall : Bool} {id : String}
    (last : isCall = false → ∀ call, Unresolved events call id → out[call]? = some (true, label)) :
    ∀ call result, Answers (events ++ [(isCall, id)]) call result →
      ∃ label', (out ++ [(isCall, label)])[call]? = some (true, label') ∧
        (out ++ [(isCall, label)])[result]? = some (false, label') := by
  intro call result answers
  rcases answers_snoc.mp answers with answers | ⟨rfl, rfl, unresolved⟩
  · obtain ⟨label', atCall, atResult⟩ := held.answered call result answers
    exact ⟨label', getElem?_snoc.mpr (.inl atCall), getElem?_snoc.mpr (.inl atResult)⟩
  · exact ⟨label, getElem?_snoc.mpr (.inl (last rfl call unresolved)),
      getElem?_snoc.mpr (.inr ⟨held.length.symm, rfl⟩)⟩

theorem unanswered_snoc {isCall : Bool} {id : String}
    (last : isCall = false → (∀ call, ¬ Unresolved events call id) → label = id) :
    ∀ result other, (events ++ [(isCall, id)])[result]? = some (false, other) →
      (∀ call, ¬ Answers (events ++ [(isCall, id)]) call result) →
        (out ++ [(isCall, label)])[result]? = some (false, other) := by
  intro result other found none
  rcases getElem?_snoc.mp found with found | ⟨rfl, same⟩
  · refine getElem?_snoc.mpr (.inl (held.unanswered result other found fun call answers => ?_))
    exact none call (answers_snoc.mpr (.inl answers))
  · cases same
    have orphan : ∀ call, ¬ Unresolved events call id := fun call unresolved =>
      none call (answers_snoc.mpr (.inr ⟨rfl, rfl, unresolved⟩))
    exact getElem?_snoc.mpr (.inr ⟨held.length.symm, by rw [last rfl orphan]⟩)

theorem getElem?_out {position : Nat} {id : String} (unresolved : Unresolved events position id)
    (event : Bool × String) : (out ++ [event])[position]? = out[position]? :=
  getElem?_append_left (held.length.symm ▸ unresolved.lt)

variable {source : String}

theorem issue (clear : Unambiguous (events ++ [(true, source)]))
    (found : labels[state.ordinal]? = some label) :
    Relabelled labels (events ++ [(true, source)]) (out ++ [(true, label)])
      { ordinal := state.ordinal + 1, pending := insert source label state.pending } where
  kinds := by simp [held.kinds]
  ordinal := by simp [callIds, held.ordinal]
  used := by
    rw [callIds_append, held.used, take_add_one, found]
    rfl
  pending := fun id label' => by
    have fresh := (unambiguous_snoc.mp clear).2.2 rfl
    simp only [unresolved_snoc_call]
    by_cases same : id = source
    · subst same
      rw [lookup_insert_self, Option.some.injEq]
      constructor
      · rintro rfl
        exact ⟨events.length, .inr ⟨rfl, rfl⟩, getElem?_snoc.mpr (.inr ⟨held.length.symm, rfl⟩)⟩
      · rintro ⟨position, unresolved | ⟨rfl, -⟩, atCall⟩
        · exact absurd unresolved (fresh position)
        · rw [← held.length, getElem?_concat_length] at atCall
          cases atCall
          rfl
    · rw [lookup_insert_of_ne same, held.pending]
      constructor
      · rintro ⟨position, unresolved, atCall⟩
        exact ⟨position, .inl unresolved, getElem?_snoc.mpr (.inl atCall)⟩
      · rintro ⟨position, unresolved | ⟨-, also⟩, atCall⟩
        · exact ⟨position, unresolved, by rwa [held.getElem?_out unresolved] at atCall⟩
        · exact absurd also same
  answered := held.answered_snoc nofun
  unanswered := held.unanswered_snoc nofun

theorem resolve (clear : Unambiguous events)
    (found : state.pending.lookup source = some label) :
    Relabelled labels (events ++ [(false, source)]) (out ++ [(false, label)])
      { state with pending := state.pending.filter (·.1 ≠ source) } where
  kinds := by simp [held.kinds]
  ordinal := by simpa [callIds] using held.ordinal
  used := by
    rw [callIds_append, held.used]
    simp [callIds]
  pending := fun id label' => by
    simp only [unresolved_snoc_result]
    by_cases same : id = source
    · subst same
      rw [lookup_filter_self]
      simp
    · rw [lookup_filter_ne _ same, held.pending]
      refine exists_congr fun position => ?_
      constructor
      · rintro ⟨unresolved, atCall⟩
        exact ⟨⟨unresolved, same⟩, getElem?_snoc.mpr (.inl atCall)⟩
      · rintro ⟨⟨unresolved, -⟩, atCall⟩
        exact ⟨unresolved, by rwa [held.getElem?_out unresolved] at atCall⟩
  answered := held.answered_snoc fun _ call unresolved => by
    obtain ⟨position, also, atCall⟩ := (held.pending source label).mp found
    rwa [clear.unresolved_unique unresolved also]
  unanswered := held.unanswered_snoc fun _ none => by
    obtain ⟨position, unresolved, -⟩ := (held.pending source label).mp found
    exact absurd unresolved (none position)

/-- A result that answers no call is passed. -/
theorem skip (missing : state.pending.lookup source = none) :
    Relabelled labels (events ++ [(false, source)]) (out ++ [(false, source)]) state := by
  have orphan : ∀ position, ¬ Unresolved events position source := by
    intro position unresolved
    obtain ⟨label, atCall⟩ := held.kind_at unresolved.1
    have found := (held.pending source label).mpr ⟨position, unresolved, atCall⟩
    rw [missing] at found
    cases found
  exact {
    kinds := by simp [held.kinds]
    ordinal := by simpa [callIds] using held.ordinal
    used := by
      rw [callIds_append, held.used]
      simp [callIds]
    pending := fun id label => by
      rw [held.pending]
      refine exists_congr fun position => ?_
      rw [unresolved_snoc_result]
      constructor
      · rintro ⟨unresolved, atCall⟩
        refine ⟨⟨unresolved, ?_⟩, getElem?_snoc.mpr (.inl atCall)⟩
        rintro rfl
        exact orphan position unresolved
      · rintro ⟨⟨unresolved, -⟩, atCall⟩
        exact ⟨unresolved, by rwa [held.getElem?_out unresolved] at atCall⟩
    answered := held.answered_snoc fun _ call unresolved => absurd unresolved (orphan call)
    unanswered := held.unanswered_snoc fun _ _ => rfl }

/-- One field of the second visit. -/
theorem snoc {after} {id : Json} (clear : Unambiguous (events ++ [(isCall, sourceId id)]))
    (ran : relabelField labels isCall id state = some (id', after)) :
    Relabelled labels (events ++ [(isCall, sourceId id)]) (out ++ [(isCall, sourceId id')]) after := by
  cases isCall with
  | true =>
    simp only [relabelField, if_true, Option.bind_eq_bind, Option.bind_eq_some_iff,
      Option.some.injEq, Prod.mk.injEq] at ran
    obtain ⟨label, found, rfl, rfl⟩ := ran
    exact held.issue clear found
  | false =>
    simp only [relabelField, Bool.false_eq_true, if_false] at ran
    split at ran
    · rename_i label found
      cases ran
      exact held.resolve (unambiguous_snoc.mp clear).1 found
    · rename_i missing
      cases ran
      exact held.skip missing

end

end Relabelled

/-- The second visit, field after field. -/
theorem runAll_relabelField {after} (held : Relabelled labels events out state)
    (clear : Unambiguous (events ++ read slots))
    (ran : runAll (relabelField labels) slots state = some (after, final)) :
    Relabelled labels (events ++ read slots) (out ++ read after) final := by
  induction slots generalizing events out state after with
  | nil =>
    cases ran
    simpa [read] using held
  | cons slot slots ih =>
    obtain ⟨isCall, id⟩ := slot
    simp only [runAll, Option.bind_eq_bind, Option.bind_eq_some_iff, Prod.exists,
      Option.some.injEq, Prod.mk.injEq] at ran
    obtain ⟨id', next, here, rest, _, later, rfl, rfl⟩ := ran
    rw [show read ((isCall, id) :: slots) = [(isCall, sourceId id)] ++ read slots from rfl,
      ← append_assoc] at clear ⊢
    rw [show read ((isCall, id') :: rest) = [(isCall, sourceId id')] ++ read rest from rfl,
      ← append_assoc]
    exact ih (held.snoc (unambiguous_left clear) here) clear later

end Relabel

section Pairing

variable {events out : Wire}

variable {id : String}

theorem callIds_split (found : events[position]? = some (true, id)) :
    callIds events = callIds (events.take position) ++ id :: callIds (events.drop (position + 1)) := by
  obtain ⟨within, here⟩ := List.getElem?_eq_some_iff.mp found
  conv => lhs; rw [← take_append_drop position events, drop_eq_getElem_cons within, here]
  simp [callIds]

theorem mem_callIds {position : Nat} (found : events[position]? = some (true, id)) :
    id ∈ callIds events := by
  rw [callIds_split found]
  exact mem_append_right _ mem_cons_self

theorem call_unique (distinct : (callIds out).Nodup) {first second : Nat}
    (one : out[first]? = some (true, label)) (two : out[second]? = some (true, label)) :
    first = second := by
  have after : ∀ {first second : Nat}, out[first]? = some (true, label) →
      out[second]? = some (true, label) → ¬ first < second := by
    intro first second one two before
    rw [callIds_split one, nodup_append, nodup_cons] at distinct
    have again : (out.drop (first + 1))[second - (first + 1)]? = some (true, label) := by
      rw [getElem?_drop, Nat.add_sub_cancel' before, two]
    exact distinct.2.1.1 (mem_callIds again)
  have forward := after one two
  have backward := after two one
  omega

/-- The first result with the id of a call answers it. -/
theorem first_result {call : Nat} (issued : events[call]? = some (true, id))
    (after : call < later) (result : events[later]? = some (false, id)) :
    ∃ first, call < first ∧ first ≤ later ∧ Answers events call first := by
  have some_ : ∃ place, call < place ∧ events[place]? = some (false, id) := ⟨later, after, result⟩
  obtain ⟨first, ⟨beyond, found⟩, least⟩ : ∃ first, (call < first ∧
      events[first]? = some (false, id)) ∧ ∀ place, place < first →
        ¬ (call < place ∧ events[place]? = some (false, id)) := by
    classical
    exact ⟨Nat.find some_, Nat.find_spec some_, fun place before => Nat.find_min some_ before⟩
  have bound : first ≤ later := Nat.le_of_not_lt fun before => least later before ⟨after, result⟩
  refine ⟨first, beyond, bound, id, found, ?_, fun place between answered => ?_⟩
  · rw [getElem?_take_of_lt beyond, issued]
  · have within := (List.getElem?_eq_some_iff.mp answered).1
    rw [length_take] at within
    rw [getElem?_take_of_lt (by omega)] at answered
    exact least place (by omega) ⟨between, answered⟩

/-- An unresolved call of a prefix, in the whole. -/
theorem unresolved_take_iff {call : Nat} :
    Unresolved (events.take result) call id ↔ call < result ∧ events[call]? = some (true, id) ∧
      ∀ later, call < later → later < result → events[later]? ≠ some (false, id) := by
  constructor
  · rintro ⟨issued, unanswered⟩
    have within := (List.getElem?_eq_some_iff.mp issued).1
    rw [length_take] at within
    have before : call < result := by omega
    rw [getElem?_take_of_lt before] at issued
    refine ⟨before, issued, fun later after inside => ?_⟩
    have here := unanswered later after
    rwa [getElem?_take_of_lt inside] at here
  · rintro ⟨before, issued, unanswered⟩
    refine ⟨by rwa [getElem?_take_of_lt before], fun later after answered => ?_⟩
    have within := (List.getElem?_eq_some_iff.mp answered).1
    rw [length_take] at within
    rw [getElem?_take_of_lt (by omega)] at answered
    exact unanswered later after (by omega) answered

def labelAt (events : Wire) (position : Nat) : Option String :=
  (wireLabels (callIds events))[(callIds (events.take position)).length]?

/-- No result without a call carries the label that a call unresolved before it gets. -/
def Unclashed (events : Wire) : Prop :=
  ∀ call result source id, events[result]? = some (false, id) →
    (∀ other, ¬ Answers events other result) →
    Unresolved (events.take result) call source → labelAt events call ≠ some id

theorem Relabelled.labelAt_eq (held : Relabelled (wireLabels (callIds events)) events out final)
    (all : callIds out = wireLabels (callIds events)) {call : Nat} {label : String}
    (found : out[call]? = some (true, label)) : labelAt events call = some label := by
  have sameLength : (callIds (events.take call)).length = (callIds (out.take call)).length := by
    have counted : ∀ wire, (callIds wire).length = (wire.map Prod.fst).count true := by
      intro wire
      rw [callIds, length_map, ← countP_eq_length_filter, List.count, countP_map]
      exact countP_congr fun event _ => by simp
    rw [counted, counted, map_take, map_take, held.kinds]
  rw [labelAt, sameLength, ← all, callIds_split found, getElem?_append_right (Nat.le_refl _)]
  simp

/-- Pairing by label is pairing by occurrence exactly when no stray result clashes. -/
theorem Relabelled.answers_iff (held : Relabelled (wireLabels (callIds events)) events out final)
    (all : callIds out = wireLabels (callIds events)) (distinct : (callIds out).Nodup) :
    (∀ call result, Answers out call result ↔ Answers events call result) ↔ Unclashed events := by
  constructor
  · intro exactly call result source id orphanAt orphan unresolved clash
    obtain ⟨before, issued, unanswered⟩ := unresolved_take_iff.mp unresolved
    obtain ⟨label, callAt⟩ := held.kind_at issued
    rw [held.labelAt_eq all callAt, Option.some.injEq] at clash
    subst clash
    have strayAt := held.unanswered result label orphanAt orphan
    obtain ⟨first, beyond, bound, answers⟩ := first_result callAt before strayAt
    obtain ⟨other, firstAt, pending⟩ := (exactly call first).mp answers
    obtain ⟨-, also, -⟩ := unresolved_take_iff.mp pending
    rw [issued] at also
    cases also
    rcases Nat.lt_or_eq_of_le bound with inside | rfl
    · exact unanswered first beyond inside firstAt
    · exact orphan call ((exactly call first).mp answers)
  · intro unclashed call result
    constructor
    · rintro ⟨label, answerAt, pending⟩
      obtain ⟨before, callAt, unanswered⟩ := unresolved_take_iff.mp pending
      obtain ⟨id, found⟩ := held.result_at answerAt
      by_cases paired : ∃ other, Answers events other result
      · obtain ⟨other, answers⟩ := paired
        obtain ⟨label', otherAt, sameAt⟩ := held.answered other result answers
        rw [answerAt] at sameAt
        cases sameAt
        rwa [call_unique distinct callAt otherAt]
      · have orphan : ∀ other, ¬ Answers events other result := fun other answers =>
          paired ⟨other, answers⟩
        have strayAt := held.unanswered result id found orphan
        rw [answerAt] at strayAt
        cases strayAt
        obtain ⟨⟨kind, source⟩, issued⟩ : ∃ event, events[call]? = some event :=
          ⟨_, getElem?_eq_getElem (held.length ▸ (List.getElem?_eq_some_iff.mp callAt).1)⟩
        obtain ⟨same, sameAt⟩ := held.kind_at issued
        rw [callAt] at sameAt
        cases sameAt
        refine absurd (held.labelAt_eq all callAt) (unclashed call result source label found orphan ?_)
        refine unresolved_take_iff.mpr ⟨before, issued, fun later after inside answered => ?_⟩
        obtain ⟨first, beyond, bound, answers⟩ := first_result issued after answered
        obtain ⟨label', otherAt, firstAt⟩ := held.answered call first answers
        rw [callAt] at otherAt
        cases otherAt
        exact unanswered first beyond (by omega) firstAt
    · rintro answers
      obtain ⟨label, callAt, answerAt⟩ := held.answered call result answers
      obtain ⟨id, found, unresolved⟩ := answers
      obtain ⟨before, issued, unanswered⟩ := unresolved_take_iff.mp unresolved
      refine ⟨label, answerAt, unresolved_take_iff.mpr ⟨before, callAt, ?_⟩⟩
      intro later after inside laterAt
      obtain ⟨other, otherAt⟩ := held.result_at laterAt
      by_cases paired : ∃ owner, Answers events owner later
      · obtain ⟨owner, owned⟩ := paired
        obtain ⟨label', ownerAt, sameAt⟩ := held.answered owner later owned
        rw [laterAt] at sameAt
        cases sameAt
        cases call_unique distinct callAt ownerAt
        obtain ⟨id', idAt, pending⟩ := owned
        obtain ⟨-, also, -⟩ := unresolved_take_iff.mp pending
        rw [issued] at also
        cases also
        exact unanswered later after inside idAt
      · have orphan : ∀ owner, ¬ Answers events owner later := fun owner owned =>
          paired ⟨owner, owned⟩
        have strayAt := held.unanswered later other otherAt orphan
        rw [laterAt] at strayAt
        cases strayAt
        refine unclashed call later id label otherAt orphan ?_ (held.labelAt_eq all callAt)
        exact unresolved_take_iff.mpr ⟨after, issued, fun place beyond within =>
          unanswered place beyond (by omega)⟩

end Pairing

section Encode

/-- The correlation ids of a request in wire order. -/
def correlations (protocol : ModelProtocol) (value : Json) : Wire :=
  read ((reached protocol).slots value)

theorem sourceId_named {id : Json} (named : sourceId id ≠ "") : id = .string (sourceId id) := by
  cases id with
  | string text => rfl
  | _ => exact absurd rfl named

/-- Calls that already have labels of their own keep them, and so do their results. -/
theorem runAll_relabelField_same (used : List String) (named : ∀ slot ∈ slots, sourceId slot.2 ≠ "")
    {state : Relabelling} (ordinal : state.ordinal = used.length)
    (same : ∀ id label, state.pending.lookup id = some label → label = id) :
    ∃ final, runAll (relabelField (used ++ callIds (read slots))) slots state =
      some (slots, final) := by
  induction slots generalizing used state with
  | nil => exact ⟨state, rfl⟩
  | cons slot slots ih =>
    obtain ⟨isCall, id⟩ := slot
    obtain ⟨here, later⟩ := forall_mem_cons.mp named
    have string : Json.string (sourceId id) = id := (sourceId_named here).symm
    cases isCall with
    | true =>
      have labels : used ++ callIds (read ((true, id) :: slots)) =
          (used ++ [sourceId id]) ++ callIds (read slots) := by
        simp [read, callIds]
      have found : (used ++ callIds (read ((true, id) :: slots)))[state.ordinal]? =
          some (sourceId id) := by
        rw [labels, ordinal, getElem?_append_left (by simp), getElem?_concat_length]
      have kept : ∀ other label, (insert (sourceId id) (sourceId id) state.pending).lookup
          other = some label → label = other := by
        intro other label held
        rcases lookup_insert_cases held with ⟨rfl, rfl⟩ | ⟨-, held⟩
        · rfl
        · exact same other label held
      obtain ⟨final, rest⟩ := ih (used ++ [sourceId id]) later
        (show ({ ordinal := state.ordinal + 1
                 pending := insert (sourceId id) (sourceId id) state.pending } :
          Relabelling).ordinal = _ by simp [ordinal]) kept
      refine ⟨final, ?_⟩
      rw [← labels] at rest
      simp only [runAll, relabelField, if_true, found, Option.bind_eq_bind, Option.bind_some,
        rest, string]
    | false =>
      have labels : callIds (read ((false, id) :: slots)) = callIds (read slots) := by
        simp [read, callIds]
      rw [labels]
      cases held : state.pending.lookup (sourceId id) with
      | none =>
        obtain ⟨final, rest⟩ := ih used later ordinal same
        refine ⟨final, ?_⟩
        simp only [runAll, relabelField, Bool.false_eq_true, if_false, held,
          Option.bind_eq_bind, Option.bind_some, rest]
      | some label =>
        have kept : ∀ other label, (state.pending.filter (·.1 ≠ sourceId id)).lookup other =
            some label → label = other := by
          intro other label found
          by_cases also : other = sourceId id
          · rw [also, lookup_filter_self] at found
            cases found
          · rw [lookup_filter_ne _ also] at found
            exact same other label found
        obtain ⟨final, rest⟩ := ih used later (show ({ state with
          pending := state.pending.filter (·.1 ≠ sourceId id) } : Relabelling).ordinal = _
          from ordinal) kept
        refine ⟨final, ?_⟩
        simp only [runAll, relabelField, Bool.false_eq_true, if_false, held,
          Option.bind_eq_bind, Option.bind_some, rest, same _ _ held, string]

variable {protocol : ModelProtocol} {value after : Json}

/-- Calls with distinct ids are never ambiguous. -/
theorem unambiguous_of_distinct (named : ∀ event ∈ events, event.2 ≠ "")
    (distinct : (callIds events).Nodup) : Unambiguous events := by
  refine ⟨named, fun position id found call unresolved => ?_⟩
  obtain ⟨before, issued, -⟩ := unresolved_take_iff.mp unresolved
  exact absurd (call_unique distinct issued found) (Nat.ne_of_lt before)

/-- A request whose calls have distinct ids is encoded as it is. -/
theorem encode_same (whole : (reached protocol).complete value)
    (named : ∀ event ∈ correlations protocol value, event.2 ≠ "")
    (distinct : (callIds (correlations protocol value)).Nodup) :
    encode protocol value = some (.ok (), value) := by
  obtain ⟨scan, scanned, known⟩ : ∃ scan, runAll scanField ((reached protocol).slots value) {} =
      some ((reached protocol).slots value, scan) ∧ Scanned (correlations protocol value) scan := by
    simpa [correlations] using runAll_scanField scanned_nil
  have clear : scan.invalid = none := known.valid.mpr (unambiguous_of_distinct named distinct)
  have labels : wireLabels scan.raw = callIds (correlations protocol value) := by
    rw [wireLabels, known.raw]
    exact labelCalls_of_nodup 0 _ (countIds_eq _) distinct
  have namedSlots : ∀ slot ∈ (reached protocol).slots value, sourceId slot.2 ≠ "" :=
    fun slot member => named _ (mem_map_of_mem member)
  obtain ⟨final, relabelled⟩ := runAll_relabelField_same [] namedSlots
    (show ({} : Relabelling).ordinal = _ from rfl) (by simp)
  have first := (visits protocol).same whole scanned
  have second := (visits protocol).same whole relabelled
  simp only [encode, first, Option.bind_eq_bind, Option.bind_some, clear, labels]
  rw [show correlations protocol value = read ((reached protocol).slots value) from rfl,
    ← nil_append (callIds _), second]
  rfl

/-- What an encoding does: it makes its places exist and then either refuses or relabels. -/
theorem encode_cases (ran : encode protocol value = some (result, after)) :
    ∃ middle, (reached protocol).complete middle ∧
      (reached protocol).slots middle = (reached protocol).slots value ∧
      ((reached protocol).complete value → middle = value) ∧
      ((∃ error, result = .error error ∧ after = middle) ∨
        (result = .ok () ∧ Unambiguous (correlations protocol value) ∧
          ∃ final, visit protocol (relabelField (wireLabels (callIds (correlations protocol value))))
            middle {} = some (after, final))) := by
  simp only [encode, Option.bind_eq_bind, Option.bind_eq_some_iff, Prod.exists] at ran
  obtain ⟨middle, scan, scanned, ran⟩ := ran
  obtain ⟨slots, whole, frame⟩ := (visits protocol).sound scanned
  obtain ⟨known, read, all⟩ : ∃ known, runAll scanField ((reached protocol).slots value) {} =
      some ((reached protocol).slots value, known) ∧ Scanned ([] ++ correlations protocol value) known :=
    runAll_scanField scanned_nil
  rw [slots, Option.some.injEq, Prod.mk.injEq] at read
  obtain ⟨same, rfl⟩ := read
  refine ⟨middle, whole, same,
    fun complete => (visits protocol).ext whole complete (frame complete) same, ?_⟩
  split at ran
  · cases ran
    exact .inl ⟨_, rfl, rfl⟩
  · rename_i clear
    simp only [Option.bind_eq_some_iff, Prod.exists, Option.some.injEq, Prod.mk.injEq] at ran
    obtain ⟨_, final, relabelled, rfl, rfl⟩ := ran
    rw [all.raw] at relabelled
    exact .inr ⟨rfl, all.valid.mp clear, final, relabelled⟩

/-- What is asked of an encoding that succeeds. -/
structure Faithful (protocol : ModelProtocol) (value after : Json) : Prop where
  distinct : (callIds (correlations protocol after)).Nodup
  carried : ∀ call result, Answers (correlations protocol value) call result →
    ∃ label, (correlations protocol after)[call]? = some (true, label) ∧
      (correlations protocol after)[result]? = some (false, label)
  paired : ∀ call result, Answers (correlations protocol after) call result ↔
    Answers (correlations protocol value) call result
  last : ∀ (call : Nat) id, (correlations protocol value)[call]? = some (true, id) →
    (∀ later, call < later → (correlations protocol value)[later]? ≠ some (true, id)) →
      (correlations protocol after)[call]? = some (true, id)
  frame : (reached protocol).blank after = (reached protocol).blank value
  again : encode protocol after = some (.ok (), after)

/-- What is asked of any encoding: one that fails leaves the value as it was. -/
def FaithfulOutcome (protocol : ModelProtocol) (value : Json) : Except String Unit × Json → Prop
  | (.ok _, after) => Faithful protocol value after
  | (.error _, after) => after = value

theorem wireLabels_last {id : String} (gone : id ∉ rest) :
    (wireLabels (before ++ id :: rest))[before.length]? = some id := by
  obtain ⟨front, back, labels, length⟩ := labelCalls_last 0 _ (countIds_eq _) gone
  rw [wireLabels, labels, ← length, getElem?_append_right (Nat.le_refl _)]
  simp

theorem not_mem_callIds_drop {events : Wire} {id : String}
    (last : ∀ later, call < later → events[later]? ≠ some (true, id)) :
    id ∉ callIds (events.drop (call + 1)) := by
  intro member
  obtain ⟨⟨isCall, same⟩, kept, rfl⟩ := mem_map.mp member
  obtain ⟨member, issued⟩ := mem_filter.mp kept
  obtain ⟨offset, found⟩ := mem_iff_getElem?.mp member
  rw [getElem?_drop] at found
  cases show isCall = true from issued
  exact last _ (by omega) found

/-- A relabelled request is faithful but for stray results and places that were missing. -/
theorem relabel_faithful {after} {middle : Json} {final : Relabelling}
    (whole : (reached protocol).complete middle)
    (slots : (reached protocol).slots middle = (reached protocol).slots value)
    (clear : Unambiguous (correlations protocol value))
    (ran : visit protocol (relabelField (wireLabels (callIds (correlations protocol value))))
      middle {} = some (after, final)) :
    Faithful protocol value after ↔
      (reached protocol).blank middle = (reached protocol).blank value ∧
        Unclashed (correlations protocol value) := by
  obtain ⟨relabelled, complete, frame⟩ := (visits protocol).sound ran
  rw [slots] at relabelled
  have held : Relabelled (wireLabels (callIds (correlations protocol value)))
      (correlations protocol value) (correlations protocol after) final :=
    runAll_relabelField (relabelled_nil _) clear relabelled
  have all : callIds (correlations protocol after) =
      wireLabels (callIds (correlations protocol value)) := by
    rw [held.used, held.ordinal, take_of_length_le]
    rw [wireLabels, labelCalls_length]
  have distinct : (callIds (correlations protocol after)).Nodup := by
    rw [all]
    exact (labelCalls_distinct 0 _ (countIds_eq _) fun _ member => member).1
  have labelsNamed : ∀ label ∈ callIds (correlations protocol after), label ≠ "" := by
    rw [all]
    refine labelCalls_nonempty 0 _ fun id member => ?_
    obtain ⟨event, kept, rfl⟩ := mem_map.mp member
    exact clear.named event (mem_filter.mp kept).1
  have named : ∀ event ∈ correlations protocol after, event.2 ≠ "" := by
    rintro ⟨isCall, label⟩ member
    obtain ⟨place, found⟩ := mem_iff_getElem?.mp member
    cases isCall with
    | true => exact labelsNamed label (mem_callIds found)
    | false =>
      obtain ⟨id, idAt⟩ := held.result_at found
      by_cases paired : ∃ call, Answers (correlations protocol value) call place
      · obtain ⟨call, answers⟩ := paired
        obtain ⟨label', callAt, sameAt⟩ := held.answered call place answers
        rw [found] at sameAt
        cases sameAt
        exact labelsNamed label (mem_callIds callAt)
      · have strayAt := held.unanswered place id idAt fun call answers => paired ⟨call, answers⟩
        rw [found] at strayAt
        cases strayAt
        exact clear.named _ (mem_of_getElem? idAt)
  have last : ∀ (call : Nat) id, (correlations protocol value)[call]? = some (true, id) →
      (∀ later, call < later → (correlations protocol value)[later]? ≠ some (true, id)) →
        (correlations protocol after)[call]? = some (true, id) := by
    intro call id issued final
    obtain ⟨label, callAt⟩ := held.kind_at issued
    have labelled := held.labelAt_eq all callAt
    rw [labelAt, callIds_split issued, wireLabels_last (not_mem_callIds_drop final)] at labelled
    rw [callAt, Option.some.inj labelled]
  constructor
  · intro faithful
    exact ⟨(frame whole).symm.trans faithful.frame,
      (held.answers_iff all distinct).mp faithful.paired⟩
  · rintro ⟨same, unclashed⟩
    exact ⟨distinct, held.answered, (held.answers_iff all distinct).mpr unclashed, last,
      (frame whole).trans same, encode_same complete named distinct⟩

end Encode

/-- An encoding is faithful exactly when every place it indexes is there, and, if it succeeds,
no result without a call carries the label a call unresolved before it gets. -/
theorem encode_faithful_iff {protocol : ModelProtocol} {value : Json}
    {outcome : Except String Unit × Json} (ran : encode protocol value = some outcome) :
    FaithfulOutcome protocol value outcome ↔ (reached protocol).complete value ∧
      (outcome.1 = .ok () → Unclashed (correlations protocol value)) := by
  obtain ⟨result, after⟩ := outcome
  obtain ⟨middle, whole, slots, same, ⟨error, rfl, rfl⟩ | ⟨rfl, clear, final, relabelled⟩⟩ :=
    encode_cases ran
  · simp only [FaithfulOutcome, reduceCtorEq, false_implies, and_true]
    exact ⟨fun unchanged => unchanged ▸ whole, same⟩
  · simp only [FaithfulOutcome, forall_const, relabel_faithful whole slots clear relabelled]
    refine and_congr_left fun _ => ⟨fun blank => ?_, fun complete => by rw [same complete]⟩
    rw [← (visits protocol).complete_blank, ← blank, (visits protocol).complete_blank]
    exact whole

def responsesItem (type id : String) : Json :=
  .object [("call_id", .string id), ("type", .string type)]

/-- Two calls with one id, each followed by its result. -/
def repeatedCalls : Json :=
  .object [("input", .array [responsesItem "function_call" "repeat",
    responsesItem "function_call_output" "repeat", responsesItem "function_call" "repeat",
    responsesItem "function_call_output" "repeat"])]

def repeatedLabels : Json :=
  .object [("input", .array [responsesItem "function_call" "rustx_occurrence_0",
    responsesItem "function_call_output" "rustx_occurrence_0",
    responsesItem "function_call" "repeat", responsesItem "function_call_output" "repeat"])]

/-- Repeated ids are told apart, the newest call keeps its own. -/
theorem encode_faithful_iff_repeated :
    encode .openAiResponses repeatedCalls = some (.ok (), repeatedLabels) ∧
      Faithful .openAiResponses repeatedCalls repeatedLabels := by
  have ran : encode .openAiResponses repeatedCalls = some (.ok (), repeatedLabels) := by
    decide +kernel
  have complete : (reached .openAiResponses).complete repeatedCalls := by
    refine ⟨_, rfl, fun item member => ?_⟩
    simp only [Json.asArray, Option.getD_some, mem_cons, not_mem_nil, or_false] at member
    rcases member with rfl | rfl | rfl | rfl <;> exact ⟨_, rfl, trivial⟩
  have unclashed : Unclashed (correlations .openAiResponses repeatedCalls) := by
    intro call result source id found orphan
    have first : Answers (correlations .openAiResponses repeatedCalls) 0 1 :=
      ⟨"repeat", rfl, unresolved_take_iff.mpr ⟨by decide, rfl, by omega⟩⟩
    have second : Answers (correlations .openAiResponses repeatedCalls) 2 3 :=
      ⟨"repeat", rfl, unresolved_take_iff.mpr ⟨by decide, rfl, by omega⟩⟩
    rcases result with _ | _ | _ | _ | _
    · cases found
    · exact absurd first (orphan 0)
    · cases found
    · exact absurd second (orphan 2)
    · cases found
  exact ⟨ran, (encode_faithful_iff ran).mpr ⟨complete, fun _ => unclashed⟩⟩

def plainChat : Json :=
  .object [("messages", .array [.object [("content", .string "hi"), ("role", .string "user")]])]

def unnamedCall : Json :=
  .object [("messages", .array [.object [("tool_calls", .array [.object []])]])]

/-- A result that belongs to no call but carries the label one gets. -/
def strayResult : Json :=
  .object [("input", .array [responsesItem "function_call" "a",
    responsesItem "function_call_output" "rustx_occurrence_0",
    responsesItem "function_call_output" "a", responsesItem "function_call" "a"])]

/-- A message gets a member it did not have, a refused request is changed, and a stray result
takes the place of another. -/
theorem encode_unfaithful :
    (∃ after, encode .openAiChatCompletions plainChat = some (.ok (), after) ∧
      ¬ Faithful .openAiChatCompletions plainChat after) ∧
    (∃ error after, encode .openAiChatCompletions unnamedCall = some (.error error, after) ∧
      after ≠ unnamedCall) ∧
    (∃ after, encode .openAiResponses strayResult = some (.ok (), after) ∧
      Answers (correlations .openAiResponses after) 0 1 ∧
      ¬ Answers (correlations .openAiResponses strayResult) 0 1) := by
  refine ⟨⟨_, rfl, fun faithful => ?_⟩, ⟨_, _, rfl, by decide⟩, ⟨_, rfl, ?_, ?_⟩⟩
  · exact absurd faithful.frame (by decide)
  · exact ⟨"rustx_occurrence_0", by decide +kernel,
      unresolved_take_iff.mpr ⟨by decide, by decide +kernel, by omega⟩⟩
  · rintro ⟨id, found, unresolved⟩
    cases found
    exact absurd unresolved.1 (by decide)

end RustX.Model.Correlation
