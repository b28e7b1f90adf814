import Mathlib

/-!
Association lists that hold each key once and keep the order of their keys.
-/
namespace RustX.Assoc

open List

variable {κ α β : Type} [DecidableEq κ]

variable {entries : List (κ × α)} {key : κ}

theorem mem_of_lookup (found : entries.lookup key = some value) : (key, value) ∈ entries := by
  obtain ⟨before, after, rfl, -⟩ := lookup_eq_some_iff.mp found
  simp

theorem mem_keys_of_lookup (found : entries.lookup key = some value) : key ∈ entries.map Prod.fst :=
  mem_map.mpr ⟨_, mem_of_lookup found, rfl⟩

theorem lookup_cons_ite (entry : κ × α) (entries : List (κ × α)) (key : κ) :
    (entry :: entries).lookup key = if key = entry.1 then some entry.2 else entries.lookup key := by
  rw [lookup_cons]
  by_cases same : key = entry.1
  · rw [if_pos same, beq_iff_eq.mpr same]
  · rw [if_neg same, beq_eq_false_iff_ne.mpr same]

theorem lookup_of_mem (distinct : (entries.map Prod.fst).Nodup) (member : (key, value) ∈ entries) :
    entries.lookup key = some value := by
  induction entries with
  | nil => cases member
  | cons entry rest ih =>
    obtain ⟨name, other⟩ := entry
    rw [map_cons, nodup_cons] at distinct
    rcases mem_cons.mp member with same | later
    · obtain ⟨rfl, rfl⟩ := Prod.mk.injEq .. ▸ same
      simp
    · have differs : (key == name) = false := by
        rw [beq_eq_false_iff_ne]
        rintro rfl
        exact distinct.1 (mem_map.mpr ⟨_, later, rfl⟩)
      rw [lookup_cons, differs]
      exact ih distinct.2 later

/-- In a table whose rows have distinct keys, a row is found by its key. -/
theorem find?_of_mem {rows : List α} {key : α → κ} (distinct : (rows.map key).Nodup)
    (member : row ∈ rows) (same : key row = wanted) :
    rows.find? (fun other => key other = wanted) = some row := by
  obtain ⟨first, found⟩ := Option.isSome_iff_exists.mp
    (find?_isSome.mpr ⟨row, member, decide_eq_true same⟩ :
      (rows.find? fun other => decide (key other = wanted)).isSome = true)
  have named := find?_some found
  rw [decide_eq_true_eq] at named
  rw [found, inj_on_of_nodup_map distinct (mem_of_find?_eq_some found) member
    (named.trans same.symm)]

theorem lookup_isSome_iff : (entries.lookup key).isSome = true ↔ key ∈ entries.map Prod.fst := by
  simp

/-- Skip a prefix that does not mention the key. -/
theorem lookup_append_of_not_mem {after : List (κ × α)} (absent : ∀ entry ∈ before, entry.1 ≠ key) :
    (before ++ after).lookup key = after.lookup key := by
  have none : before.lookup key = none := by
    rw [lookup_eq_none_iff]
    intro entry member
    simpa using (absent entry member).symm
  rw [lookup_append, none, Option.none_or]

theorem lookup_filter_ne (entries : List (κ × α)) (ne : other ≠ key) :
    (entries.filter fun entry => entry.1 ≠ key).lookup other = entries.lookup other := by
  induction entries with
  | nil => rfl
  | cons entry rest ih =>
    obtain ⟨name, value⟩ := entry
    by_cases same : name = key
    · subst same
      have differs : (other == name) = false := by simpa using ne
      rw [filter_cons_of_neg (by simp), ih, lookup_cons, differs]
    · rw [filter_cons_of_pos (by simpa using same), lookup_cons, lookup_cons, ih]

theorem lookup_filter_self (entries : List (κ × α)) (key : κ) :
    (entries.filter fun entry => entry.1 ≠ key).lookup key = none := by
  rw [lookup_eq_none_iff]
  intro entry member
  simpa using (Ne.symm (by simpa using (mem_filter.mp member).2))

theorem lookup_map_value (entries : List (κ × α)) (update : κ → α → β) (key : κ) :
    (entries.map fun entry => (entry.1, update entry.1 entry.2)).lookup key =
      (entries.lookup key).map (update key) := by
  induction entries with
  | nil => rfl
  | cons entry rest ih =>
    rw [map_cons, lookup_cons_ite, lookup_cons_ite, ih]
    split
    · rename_i same
      rw [same, Option.map_some]
    · rfl

variable [LT κ] [DecidableLT κ]

/-- Bind `key` to `value`, replacing an earlier binding. -/
def insert (key : κ) (value : α) (entries : List (κ × α)) : List (κ × α) :=
  let others := entries.filter fun entry => entry.1 ≠ key
  others.takeWhile (fun entry => entry.1 < key) ++
    (key, value) :: others.dropWhile fun entry => entry.1 < key

@[simp] theorem mem_insert :
    entry ∈ insert key value entries ↔ entry = (key, value) ∨ (entry ∈ entries ∧ entry.1 ≠ key) := by
  have parts : ∀ others : List (κ × α),
      entry ∈ others.takeWhile (fun entry => entry.1 < key) ∨
        entry ∈ others.dropWhile (fun entry => entry.1 < key) ↔ entry ∈ others := by
    intro others
    rw [← mem_append, takeWhile_append_dropWhile]
  simp only [insert, mem_append, mem_cons]
  rw [or_left_comm, parts]
  simp

theorem mem_keys_insert : other ∈ (insert key value entries).map Prod.fst ↔
      other = key ∨ other ∈ entries.map Prod.fst := by
  simp only [mem_map, mem_insert]
  constructor
  · rintro ⟨entry, rfl | ⟨member, -⟩, rfl⟩
    · exact .inl rfl
    · exact .inr ⟨entry, member, rfl⟩
  · rintro (rfl | ⟨entry, member, rfl⟩)
    · exact ⟨_, .inl rfl, rfl⟩
    · by_cases same : entry.1 = key
      · exact ⟨(key, value), .inl rfl, same.symm⟩
      · exact ⟨entry, .inr ⟨member, same⟩, rfl⟩

theorem insert_perm (key : κ) (value : α) (entries : List (κ × α)) : (insert key value entries).Perm
      ((key, value) :: entries.filter fun entry => entry.1 ≠ key) := by
  refine perm_middle.trans ?_
  rw [takeWhile_append_dropWhile]

theorem insert_perm_of_fresh (value : α) (fresh : key ∉ entries.map Prod.fst) :
    (insert key value entries).Perm ((key, value) :: entries) := by
  have kept : entries.filter (fun entry => entry.1 ≠ key) = entries :=
    filter_eq_self.mpr fun entry member =>
      decide_eq_true fun same => fresh (same ▸ mem_map_of_mem member)
  simpa only [kept] using insert_perm key value entries

/-- A weight of all entries, after one of them is replaced. -/
theorem sum_insert (weight : α → Nat) (distinct : (entries.map Prod.fst).Nodup) (key : κ)
    (value : α) :
    ((insert key value entries).map fun entry => weight entry.2).sum +
        ((entries.lookup key).map weight).getD 0 =
      (entries.map fun entry => weight entry.2).sum + weight value := by
  have others : ((entries.filter fun entry => entry.1 ≠ key).map fun entry => weight entry.2).sum +
      ((entries.lookup key).map weight).getD 0 = (entries.map fun entry => weight entry.2).sum := by
    induction entries with
    | nil => rfl
    | cons entry entries ih =>
      obtain ⟨fresh, distinct⟩ := nodup_cons.mp distinct
      have rest := ih distinct
      rw [lookup_cons_ite]
      by_cases same : key = entry.1
      · have absent : entries.lookup key = none := by
          rw [← Option.not_isSome_iff_eq_none, lookup_isSome_iff, same]
          exact fresh
        simp only [absent, Option.map_none, Option.getD_none, Nat.add_zero] at rest
        simp [same] at rest ⊢
        omega
      · simp [same, Ne.symm] at rest ⊢
        omega
  have moved := ((insert_perm key value entries).map fun entry => weight entry.2).sum_nat
  simp only [map_cons, sum_cons] at moved
  omega

theorem keys_insert_perm (key : κ) (value : α) (entries : List (κ × α)) :
    ((insert key value entries).map Prod.fst).Perm
      (key :: (entries.filter fun entry => entry.1 ≠ key).map Prod.fst) :=
  (insert_perm key value entries).map _

theorem nodup_keys_insert (distinct : (entries.map Prod.fst).Nodup) (key : κ) (value : α) :
    ((insert key value entries).map Prod.fst).Nodup := by
  rw [(keys_insert_perm key value entries).nodup_iff, nodup_cons]
  refine ⟨?_, distinct.sublist (filter_sublist.map _)⟩
  intro member
  obtain ⟨entry, kept, same⟩ := mem_map.mp member
  simpa [same] using (mem_filter.mp kept).2

theorem lookup_insert_self (key : κ) (value : α) (entries : List (κ × α)) :
    (insert key value entries).lookup key = some value := by
  rw [insert, lookup_append_of_not_mem, lookup_cons_self]
  intro entry member
  have held := mem_filter.mp (takeWhile_subset _ member)
  simpa using held.2

theorem insert_ne_nil (key : κ) (value : α) (entries : List (κ × α)) :
    insert key value entries ≠ [] := by
  simp [insert]

theorem lookup_insert_of_ne (ne : other ≠ key) (value : α) (entries : List (κ × α)) :
    (insert key value entries).lookup other = entries.lookup other := by
  rw [insert, lookup_append, lookup_cons]
  have differs : (other == key) = false := by simpa using ne
  rw [differs, ← lookup_append, takeWhile_append_dropWhile, lookup_filter_ne entries ne]

theorem lookup_insert (key : κ) (value : α) (entries : List (κ × α)) (other : κ) :
    (insert key value entries).lookup other =
      Function.update (fun name => entries.lookup name) key (some value) other := by
  by_cases same : other = key
  · subst same
    rw [lookup_insert_self, Function.update_self]
  · rw [lookup_insert_of_ne same, Function.update_of_ne same]

theorem lookup_insert_cases (found : (insert key value entries).lookup other = some held) :
    other = key ∧ value = held ∨ other ≠ key ∧ entries.lookup other = some held := by
  by_cases same : other = key
  · subst same
    rw [lookup_insert_self, Option.some.injEq] at found
    exact .inl ⟨rfl, found⟩
  · exact .inr ⟨same, (lookup_insert_of_ne same ..).symm.trans found⟩

theorem forall_mem_snoc {all : List α} {last : α} {p : α → Prop} :
    (∀ one ∈ all ++ [last], p one) ↔ (∀ one ∈ all, p one) ∧ p last := by
  rw [forall_mem_append, forall_mem_singleton]

section Sorted

variable {κ : Type} [LinearOrder κ]

/-- Distinct keys in increasing order, as `insert` keeps them. -/
def Sorted (entries : List (κ × α)) : Prop :=
  entries.Pairwise fun first second => first.1 < second.1

variable {entries : List (κ × α)}

theorem Sorted.dropWhile_above (sorted : Sorted entries) {key : κ}
    (others : ∀ entry ∈ entries, entry.1 ≠ key) :
    ∀ entry ∈ entries.dropWhile (fun entry => entry.1 < key), key < entry.1 := by
  induction entries with
  | nil => simp
  | cons first rest ih =>
    obtain ⟨least, sorted⟩ := pairwise_cons.mp sorted
    obtain ⟨differs, others⟩ := forall_mem_cons.mp others
    rw [dropWhile_cons]
    split
    · exact ih sorted others
    · rename_i above
      have above : key < first.1 := (lt_or_gt_of_ne differs).resolve_left (by simpa using above)
      exact forall_mem_cons.mpr ⟨above, fun entry member => above.trans (least entry member)⟩

theorem Sorted.insert (sorted : Sorted entries) (key : κ) (value : α) :
    Sorted (insert key value entries) := by
  have kept : Sorted (entries.filter fun entry => entry.1 ≠ key) := sorted.filter _
  have above := kept.dropWhile_above fun entry member =>
    of_decide_eq_true (mem_filter.mp member).2
  unfold Assoc.insert
  refine pairwise_append.mpr ⟨kept.sublist (takeWhile_sublist _),
    pairwise_cons.mpr ⟨above, kept.sublist (dropWhile_sublist _)⟩, ?_⟩
  intro first early second late
  have below := mem_takeWhile_imp early
  rw [decide_eq_true_eq] at below
  obtain rfl | late := mem_cons.mp late
  · exact below
  · exact below.trans (above second late)

theorem insert_last {key : κ} (value : α)
    (above : ∀ entry ∈ entries, entry.1 < key) :
    insert key value entries = entries ++ [(key, value)] := by
  have kept : entries.filter (fun entry => entry.1 ≠ key) = entries :=
    filter_eq_self.mpr fun entry member => decide_eq_true (above entry member).ne
  have taken : entries.takeWhile (fun entry => entry.1 < key) = entries :=
    takeWhile_eq_self_iff.mpr fun entry member => decide_eq_true (above entry member)
  have dropped : entries.dropWhile (fun entry => entry.1 < key) = [] :=
    dropWhile_eq_nil_iff.mpr fun entry member => decide_eq_true (above entry member)
  simp only [Assoc.insert, kept, taken, dropped]

end Sorted

end RustX.Assoc
