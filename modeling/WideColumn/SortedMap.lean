/-!
# Finite maps in key order

`SortedMap κ α` is a list of entries whose keys strictly increase. Tables, rows, column options
and open transactions are kept in such maps, so every listing comes out in key order and a range
of keys is a contiguous stretch of the entries.

* `SortedMap.get?_insert` and `SortedMap.get?_erase` say what a look-up finds after a change;
* `SortedMap.ext_get?` says that a map is determined by its look-ups.
-/

namespace WideColumn

/-- Entries sorted by key, each key once. -/
structure SortedMap (κ : Type) (α : Type) [Ord κ] where
  /-- The entries in key order. -/
  entries : List (κ × α)
  /-- Keys strictly increase. -/
  sorted : entries.Pairwise fun a b => compare a.1 b.1 = .lt

namespace SortedMap

variable {κ α : Type} [Ord κ]

instance [BEq κ] [BEq α] : BEq (SortedMap κ α) := ⟨fun a b => a.entries == b.entries⟩

/-- The map without entries. -/
def empty : SortedMap κ α := ⟨[], .nil⟩

instance : Inhabited (SortedMap κ α) := ⟨empty⟩

instance : EmptyCollection (SortedMap κ α) := ⟨empty⟩

/-- Number of entries. -/
def size (m : SortedMap κ α) : Nat := m.entries.length

/-- Whether there is no entry. -/
def isEmpty (m : SortedMap κ α) : Bool := m.entries.isEmpty

/-- The keys in order. -/
def keys (m : SortedMap κ α) : List κ := m.entries.map (·.1)

/-- The values in key order. -/
def values (m : SortedMap κ α) : List α := m.entries.map (·.2)

/-- The value found in a list of entries under a key. -/
def lookup (k : κ) : List (κ × α) → Option α
  | [] => none
  | e :: rest => if compare k e.1 = .eq then some e.2 else lookup k rest

/-- The value stored under a key. -/
def get? (m : SortedMap κ α) (k : κ) : Option α := lookup k m.entries

/-- Whether a key has a value. -/
def contains (m : SortedMap κ α) (k : κ) : Bool := (m.get? k).isSome

/-- Put an entry at its place in a sorted list, replacing the entry of the same key. -/
def insertEntry (k : κ) (x : α) : List (κ × α) → List (κ × α)
  | [] => [(k, x)]
  | e :: rest =>
    match compare k e.1 with
    | .lt => (k, x) :: e :: rest
    | .eq => (k, x) :: rest
    | .gt => e :: insertEntry k x rest

theorem mem_insertEntry {k : κ} {x : α} {e : κ × α} {l : List (κ × α)}
    (h : e ∈ insertEntry k x l) : e = (k, x) ∨ e ∈ l := by
  induction l with
  | nil => exact .inl (List.mem_singleton.1 h)
  | cons a l ih =>
    simp only [insertEntry] at h
    split at h
    · simpa using h
    · rcases List.mem_cons.1 h with h | h
      · exact .inl h
      · exact .inr (List.mem_cons_of_mem _ h)
    · rcases List.mem_cons.1 h with h | h
      · exact .inr (h ▸ List.mem_cons_self)
      · exact (ih h).imp_right (List.mem_cons_of_mem _)

section Trans

variable [Std.TransOrd κ]

theorem sorted_insertEntry (k : κ) (x : α) {l : List (κ × α)}
    (h : l.Pairwise fun a b => compare a.1 b.1 = .lt) :
    (insertEntry k x l).Pairwise fun a b => compare a.1 b.1 = .lt := by
  induction l with
  | nil => exact List.pairwise_singleton ..
  | cons a l ih =>
    obtain ⟨ha, hl⟩ := List.pairwise_cons.1 h
    simp only [insertEntry]
    split
    · next hk =>
      refine List.pairwise_cons.2 ⟨fun b hb => ?_, h⟩
      rcases List.mem_cons.1 hb with rfl | hb
      · exact hk
      · exact Std.TransCmp.lt_trans hk (ha b hb)
    · next hk =>
      exact List.pairwise_cons.2 ⟨fun b hb => Std.TransCmp.lt_of_eq_of_lt hk (ha b hb), hl⟩
    · next hk =>
      refine List.pairwise_cons.2 ⟨fun b hb => ?_, ih hl⟩
      rcases mem_insertEntry hb with rfl | hb
      · exact Std.OrientedCmp.lt_of_gt hk
      · exact ha b hb

/-- Store a value under a key, replacing what was there. -/
def insert (m : SortedMap κ α) (k : κ) (x : α) : SortedMap κ α :=
  ⟨insertEntry k x m.entries, sorted_insertEntry k x m.sorted⟩

/-- The map of a list of entries; of two entries with one key the later stays. -/
def ofList (l : List (κ × α)) : SortedMap κ α := l.foldl (fun m e => m.insert e.1 e.2) empty

end Trans

/-- Drop the entry of a key. -/
def erase (m : SortedMap κ α) (k : κ) : SortedMap κ α :=
  ⟨m.entries.filter fun e => compare k e.1 != .eq, m.sorted.filter _⟩

/-- The entries whose keys satisfy a test, in key order. -/
def entriesWhere (m : SortedMap κ α) (test : κ → Bool) : List (κ × α) :=
  m.entries.filter fun e => test e.1

/-! ### Look-ups -/

@[simp] theorem get?_empty (k : κ) : (empty : SortedMap κ α).get? k = none := rfl

theorem lookup_insertEntry [Std.TransOrd κ] (k k' : κ) (x : α) (l : List (κ × α)) :
    lookup k' (insertEntry k x l) = if compare k' k = .eq then some x else lookup k' l := by
  induction l with
  | nil => simp [insertEntry, lookup]
  | cons a l ih =>
    simp only [insertEntry]
    split
    · simp [lookup]
    · next hk =>
      simp only [lookup]
      rw [Std.TransCmp.congr_right hk]
      split <;> rfl
    · next hk =>
      simp only [lookup, ih]
      by_cases hka : compare k' a.1 = .eq
      · have : compare k' k ≠ .eq := by
          intro hkk
          have := Std.TransCmp.eq_trans (Std.OrientedCmp.eq_symm hkk) hka
          simp [this] at hk
        simp [hka, this]
      · simp [hka]

theorem get?_insert [Std.TransOrd κ] (m : SortedMap κ α) (k k' : κ) (x : α) :
    (m.insert k x).get? k' = if compare k' k = .eq then some x else m.get? k' :=
  lookup_insertEntry k k' x m.entries

theorem lookup_filter_ne [Std.TransOrd κ] (k k' : κ) (l : List (κ × α)) :
    lookup k' (l.filter fun e => compare k e.1 != .eq) =
      if compare k' k = .eq then none else lookup k' l := by
  induction l with
  | nil => simp [lookup]
  | cons a l ih =>
    by_cases hk : compare k a.1 = .eq
    · rw [List.filter_cons_of_neg (by simp [hk]), ih, lookup]
      rw [Std.TransCmp.congr_right hk]
      split <;> simp_all
    · rw [List.filter_cons_of_pos (by simp [hk]), lookup, lookup, ih]
      by_cases hka : compare k' a.1 = .eq
      · have : compare k' k ≠ .eq := fun hkk =>
          hk (Std.TransCmp.eq_trans (Std.OrientedCmp.eq_symm hkk) hka)
        simp [hka, this]
      · simp [hka]

theorem get?_erase [Std.TransOrd κ] (m : SortedMap κ α) (k k' : κ) :
    (m.erase k).get? k' = if compare k' k = .eq then none else m.get? k' :=
  lookup_filter_ne k k' m.entries

theorem lookup_eq_none_of_lt [Std.TransOrd κ] {k : κ} {l : List (κ × α)}
    (h : ∀ e ∈ l, compare k e.1 = .lt) : lookup k l = none := by
  induction l with
  | nil => rfl
  | cons a l ih =>
    rw [lookup, h a List.mem_cons_self, if_neg (by simp)]
    exact ih fun e he => h e (List.mem_cons_of_mem _ he)

theorem eq_of_lookup_eq [Std.TransOrd κ] [Std.LawfulEqOrd κ] {l l' : List (κ × α)}
    (hl : l.Pairwise fun a b => compare a.1 b.1 = .lt)
    (hl' : l'.Pairwise fun a b => compare a.1 b.1 = .lt)
    (h : ∀ k, lookup k l = lookup k l') : l = l' := by
  induction l generalizing l' with
  | nil =>
    cases l' with
    | nil => rfl
    | cons b l' => simpa [lookup] using h b.1
  | cons a l ih =>
    obtain ⟨ha, hl⟩ := List.pairwise_cons.1 hl
    cases l' with
    | nil => simpa [lookup] using h a.1
    | cons b l' =>
      obtain ⟨hb, ht'⟩ := List.pairwise_cons.1 hl'
      have hab : a.1 = b.1 := by
        rcases hc : compare a.1 b.1 with _ | _ | _
        · have := h a.1
          rw [lookup_eq_none_of_lt (l := b :: l') fun e he => ?_] at this
          · simp [lookup] at this
          · rcases List.mem_cons.1 he with rfl | he
            · exact hc
            · exact Std.TransCmp.lt_trans hc (hb e he)
        · exact Std.LawfulEqOrd.eq_of_compare hc
        · have hc := Std.OrientedCmp.lt_of_gt hc
          have := h b.1
          rw [lookup_eq_none_of_lt (l := a :: l) fun e he => ?_] at this
          · simp [lookup] at this
          · rcases List.mem_cons.1 he with rfl | he
            · exact hc
            · exact Std.TransCmp.lt_trans hc (ha e he)
      have hab' : a = b := Prod.ext hab (by simpa [lookup, hab] using h a.1)
      subst hab'
      refine congrArg _ (ih hl ht' fun k => ?_)
      by_cases hk : compare k a.1 = .eq
      · rw [Std.LawfulEqOrd.eq_of_compare hk, lookup_eq_none_of_lt ha, lookup_eq_none_of_lt hb]
      · simpa [lookup, hk] using h k

/-- Maps with the same look-ups are equal. -/
theorem ext_get? [Std.TransOrd κ] [Std.LawfulEqOrd κ] {m m' : SortedMap κ α}
    (h : ∀ k, m.get? k = m'.get? k) : m = m' := by
  obtain ⟨l, hl⟩ := m
  obtain ⟨l', hl'⟩ := m'
  exact (SortedMap.mk.injEq ..).mpr (eq_of_lookup_eq hl hl' h)

end SortedMap

end WideColumn
