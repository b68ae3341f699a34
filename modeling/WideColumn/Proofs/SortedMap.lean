import WideColumn.SortedMap

/-!
# Entries and look-ups of sorted maps

* `SortedMap.mem_entries` : the entries of a map are what its look-ups find;
* `SortedMap.forall_insert`, `SortedMap.forall_erase` : what all entries satisfy, after a change;
* `SortedMap.size_insert` : an insertion adds an entry unless the key has one;
* `SortedMap.ofList_entries` : the entries of a map make it up again;
* `SortedMap.get?_ofList` : a map made up of a list holds the last entry that the list has for a key;
* `drop_eq_filter` : what is left of an ordered list from one of its items on are the items that
  do not come before it.
-/

namespace WideColumn

/-- In an ordered list, the items from one of them on are those that do not come before it. -/
theorem drop_eq_filter {α : Type} {before : α → α → Bool} (irrefl : ∀ a, before a a = false)
    (asymm : ∀ a b, before a b = true → before b a = false) {l : List α}
    (hl : l.Pairwise fun a b => before a b = true) {i : Nat} {e : α} (he : l[i]? = some e) :
    l.drop i = l.filter fun x => !before x e := by
  induction l generalizing i with
  | nil => simp at he
  | cons a l ih =>
    obtain ⟨ha, hl⟩ := List.pairwise_cons.1 hl
    cases i with
    | zero =>
      obtain rfl : a = e := by simpa using he
      refine (List.filter_eq_self.2 fun x hx => ?_).symm
      rcases List.mem_cons.1 hx with rfl | hx
      · simp [irrefl]
      · simp [asymm _ _ (ha x hx)]
    | succ i =>
      have he : l[i]? = some e := by simpa using he
      have hae : before a e = true := ha e (List.mem_of_getElem? he)
      rw [List.drop_succ_cons, ih hl he, List.filter_cons_of_neg (by simp [hae])]

namespace SortedMap

variable {κ α : Type} [Ord κ]

variable [Std.LawfulEqOrd κ]

theorem lookup_eq_some_iff {l : List (κ × α)} (hl : l.Pairwise fun a b => compare a.1 b.1 = .lt)
    {k : κ} {x : α} : lookup k l = some x ↔ (k, x) ∈ l := by
  induction l with
  | nil => simp [lookup]
  | cons a l ih =>
    obtain ⟨ha, hl⟩ := List.pairwise_cons.1 hl
    by_cases hk : k = a.1
    · subst hk
      rw [lookup, if_pos Std.ReflCmp.compare_self, List.mem_cons]
      constructor
      · intro h
        exact .inl (Prod.ext rfl (Option.some.inj h).symm)
      · rintro (h | h)
        · rw [← h]
        · have := ha _ h
          simp at this
    · rw [lookup, if_neg fun h => hk (Std.LawfulEqOrd.eq_of_compare h), ih hl, List.mem_cons]
      refine ⟨.inr, ?_⟩
      rintro (h | h)
      · exact absurd (congrArg Prod.fst h) hk
      · exact h

/-- The entries of a map are what its look-ups find. -/
theorem mem_entries {m : SortedMap κ α} {k : κ} {x : α} :
    (k, x) ∈ m.entries ↔ m.get? k = some x :=
  (lookup_eq_some_iff m.sorted).symm

/-! ### Look-ups after a change -/

variable [Std.TransOrd κ]

@[simp] theorem get?_insert_self (m : SortedMap κ α) (k : κ) (x : α) :
    (m.insert k x).get? k = some x := by
  rw [get?_insert, if_pos Std.ReflCmp.compare_self]

theorem get?_insert_of_ne (m : SortedMap κ α) {k k' : κ} (x : α) (h : k' ≠ k) :
    (m.insert k x).get? k' = m.get? k' := by
  rw [get?_insert, if_neg fun hc => h (Std.LawfulEqOrd.eq_of_compare hc)]

@[simp] theorem get?_erase_self (m : SortedMap κ α) (k : κ) : (m.erase k).get? k = none := by
  rw [get?_erase, if_pos Std.ReflCmp.compare_self]

theorem get?_erase_of_ne (m : SortedMap κ α) {k k' : κ} (h : k' ≠ k) :
    (m.erase k).get? k' = m.get? k' := by
  rw [get?_erase, if_neg fun hc => h (Std.LawfulEqOrd.eq_of_compare hc)]

theorem insert_eq_self {m : SortedMap κ α} {k : κ} {x : α} (h : m.get? k = some x) :
    m.insert k x = m := by
  refine ext_get? fun k' => ?_
  by_cases hk : k' = k
  · rw [hk, get?_insert_self, h]
  · rw [get?_insert_of_ne _ _ hk]

theorem erase_eq_self {m : SortedMap κ α} {k : κ} (h : m.get? k = none) : m.erase k = m := by
  refine ext_get? fun k' => ?_
  by_cases hk : k' = k
  · rw [hk, get?_erase_self, h]
  · rw [get?_erase_of_ne _ hk]

theorem contains_insert_iff {m : SortedMap κ α} {k k' : κ} {x : α} :
    (m.insert k x).contains k' = true ↔ k = k' ∨ m.contains k' = true := by
  unfold contains
  by_cases hk : k' = k
  · rw [hk, get?_insert_self]
    simp
  · rw [get?_insert_of_ne m x hk]
    simp [Ne.symm hk]

theorem contains_erase_iff {m : SortedMap κ α} {k k' : κ} :
    (m.erase k).contains k' = true ↔ m.contains k' = true ∧ k ≠ k' := by
  unfold contains
  by_cases hk : k' = k
  · rw [hk, get?_erase_self]
    simp
  · rw [get?_erase_of_ne m hk]
    simp [Ne.symm hk]

/-- What all entries of a map satisfy and a new one does, too, they satisfy after the insertion. -/
theorem forall_insert {m : SortedMap κ α} {P : κ → α → Prop}
    (h : ∀ k x, m.get? k = some x → P k x) {k₀ : κ} {x₀ : α} (h₀ : P k₀ x₀) :
    ∀ k x, (m.insert k₀ x₀).get? k = some x → P k x := by
  intro k x hget
  by_cases hk : k = k₀
  · subst hk
    rw [get?_insert_self] at hget
    exact Option.some.inj hget ▸ h₀
  · rw [get?_insert_of_ne _ _ hk] at hget
    exact h k x hget

/-- What all entries of a map satisfy they satisfy after one is dropped. -/
theorem forall_erase {m : SortedMap κ α} {P : κ → α → Prop}
    (h : ∀ k x, m.get? k = some x → P k x) (k₀ : κ) :
    ∀ k x, (m.erase k₀).get? k = some x → P k x := by
  intro k x hget
  by_cases hk : k = k₀
  · subst hk
    rw [get?_erase_self] at hget
    cases hget
  · rw [get?_erase_of_ne _ hk] at hget
    exact h k x hget

/-! ### Sizes -/

omit [Std.LawfulEqOrd κ] in
theorem length_insertEntry (k : κ) (x : α) {l : List (κ × α)}
    (hl : l.Pairwise fun a b => compare a.1 b.1 = .lt) :
    (insertEntry k x l).length = if (lookup k l).isSome then l.length else l.length + 1 := by
  induction l with
  | nil => rfl
  | cons a l ih =>
    obtain ⟨ha, hl⟩ := List.pairwise_cons.1 hl
    simp only [insertEntry]
    split
    · next hk =>
      have hnone : lookup k (a :: l) = none := lookup_eq_none_of_lt fun e he => by
        rcases List.mem_cons.1 he with rfl | he
        · exact hk
        · exact Std.TransCmp.lt_trans hk (ha e he)
      rw [hnone]
      rfl
    · next hk =>
      rw [lookup, if_pos hk]
      rfl
    · next hk =>
      have hne : compare k a.1 ≠ .eq := by simp [hk]
      rw [lookup, if_neg hne, List.length_cons, ih hl, List.length_cons]
      split <;> rfl

omit [Std.LawfulEqOrd κ] in
/-- An insertion adds an entry unless the key has one. -/
theorem size_insert (m : SortedMap κ α) (k : κ) (x : α) :
    (m.insert k x).size = if (m.get? k).isSome then m.size else m.size + 1 :=
  length_insertEntry k x m.sorted

/-! ### Building a map from its entries -/

omit [Std.LawfulEqOrd κ] in
theorem insertEntry_eq_append {k : κ} {x : α} {l : List (κ × α)}
    (h : ∀ e ∈ l, compare e.1 k = .lt) : insertEntry k x l = l ++ [(k, x)] := by
  induction l with
  | nil => rfl
  | cons a l ih =>
    obtain ⟨ha, hl⟩ := List.forall_mem_cons.1 h
    rw [insertEntry, Std.OrientedCmp.gt_of_lt ha, ih hl]
    rfl

omit [Std.LawfulEqOrd κ] in
/-- Entries whose keys go on increasing are added at the end. -/
theorem entries_foldl_insert {m : SortedMap κ α} {l : List (κ × α)}
    (h : (m.entries ++ l).Pairwise fun a b => compare a.1 b.1 = .lt) :
    (l.foldl (fun m e => m.insert e.1 e.2) m).entries = m.entries ++ l := by
  induction l generalizing m with
  | nil => simp
  | cons a l ih =>
    have hentries : (m.insert a.1 a.2).entries = m.entries ++ [a] :=
      insertEntry_eq_append fun e he => (List.pairwise_append.1 h).2.2 e he a List.mem_cons_self
    have happend : m.entries ++ a :: l = m.entries ++ [a] ++ l := by simp
    rw [happend] at h ⊢
    rw [List.foldl_cons, ih (by rw [hentries]; exact h), hentries]

omit [Std.LawfulEqOrd κ] in
/-- The entries of a map make it up again. -/
theorem ofList_entries (m : SortedMap κ α) : ofList m.entries = m := by
  have h := entries_foldl_insert (m := (empty : SortedMap κ α)) (l := m.entries) m.sorted
  exact (SortedMap.mk.injEq ..).mpr h

theorem get?_foldl_insert [BEq κ] [LawfulBEq κ] (l : List (κ × α)) (m : SortedMap κ α) (k : κ) :
    (l.foldl (fun m e => m.insert e.1 e.2) m).get? k = (l.reverse.lookup k).or (m.get? k) := by
  induction l generalizing m with
  | nil => rfl
  | cons a l ih =>
    rw [List.foldl_cons, ih, List.reverse_cons, List.lookup_append, Option.or_assoc]
    congr 1
    by_cases hk : k = a.1
    · rw [hk, get?_insert_self, List.lookup_cons_self]
      rfl
    · rw [get?_insert_of_ne _ _ hk, List.lookup_cons, beq_false_of_ne hk]
      rfl

/-- Of several entries with one key the last is found. -/
theorem get?_ofList [BEq κ] [LawfulBEq κ] (l : List (κ × α)) (k : κ) :
    (ofList l).get? k = l.reverse.lookup k := by
  rw [ofList, get?_foldl_insert, get?_empty, Option.or_none]

end SortedMap

end WideColumn
