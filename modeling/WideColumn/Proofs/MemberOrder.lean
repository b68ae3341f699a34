import WideColumn.Json.Basic
import WideColumn.Proofs.SortedMap

/-!
# The order of members

The members of an object have no order that means anything. As text they stand in the order in
which they were written, as a value they are kept in name order. `Json.arranged` is either form, and
what is shown of JSON that was written is shown of both.

* `Json.filter_arrangedMembers` : a name that was written once is there once, in either form;
* `Json.sorted_sorted` : what is in name order stays as it is.
-/

namespace WideColumn

/-! ### Entries of one key -/

namespace SortedMap

variable {κ α : Type} [Ord κ]

theorem perm_insertEntry {k : κ} {x : α} {l : List (κ × α)} (h : lookup k l = none) :
    (insertEntry k x l).Perm ((k, x) :: l) := by
  induction l with
  | nil => exact .refl _
  | cons e l ih =>
    simp only [insertEntry]
    split
    · exact .refl _
    · next hc =>
      rw [lookup, if_pos hc] at h
      cases h
    · next hc =>
      rw [lookup, if_neg (by rw [hc]; decide)] at h
      exact ((ih h).cons e).trans (.swap ..)

variable [BEq κ] [LawfulBEq κ] [Std.LawfulEqOrd κ]

theorem lookup_eq_none_of_filter {k : κ} {l : List (κ × α)} (h : l.filter (·.1 == k) = []) :
    lookup k l = none := by
  induction l with
  | nil => rfl
  | cons e l ih =>
    have hfilter := List.filter_eq_nil_iff.1 h
    have hne : compare k e.1 ≠ .eq := fun hc =>
      hfilter e List.mem_cons_self (beq_iff_eq.2 (Std.LawfulEqOrd.eq_of_compare hc).symm)
    rw [lookup, if_neg hne]
    exact ih (List.filter_eq_nil_iff.2 fun e' he' => hfilter e' (List.mem_cons_of_mem _ he'))

theorem filter_insertEntry_self {k : κ} (x : α) {l : List (κ × α)}
    (h : l.filter (·.1 == k) = []) : (insertEntry k x l).filter (·.1 == k) = [(k, x)] := by
  induction l with
  | nil => simp [insertEntry]
  | cons e l ih =>
    obtain ⟨he, hl⟩ : e.1 ≠ k ∧ l.filter (·.1 == k) = [] := by
      simpa [List.filter_eq_nil_iff] using h
    simp only [insertEntry]
    split
    · rw [List.filter_cons_of_pos (by simp), h]
    · next hc => exact absurd (Std.LawfulEqOrd.eq_of_compare hc).symm he
    · simpa [he] using ih hl

theorem filter_insertEntry_of_ne {k k' : κ} (x : α) (l : List (κ × α)) (h : k ≠ k') :
    (insertEntry k x l).filter (·.1 == k') = l.filter (·.1 == k') := by
  induction l with
  | nil => simp [insertEntry, h]
  | cons e l ih =>
    simp only [insertEntry]
    split
    · simp [h]
    · next hc =>
      have he : e.1 = k := (Std.LawfulEqOrd.eq_of_compare hc).symm
      simp [h, he]
    · simp only [List.filter_cons, ih]

end SortedMap

namespace Json

/-! ### Members in name order -/

theorem sortedItems_eq_map (xs : List Json) : sortedItems xs = xs.map sorted := by
  induction xs with
  | nil => rfl
  | cons x xs ih => rw [sortedItems, ih, List.map_cons]

theorem filter_sortedMembers_eq_nil {ms : List (String × Json)} {name : String}
    (h : ms.filter (·.1 == name) = []) : (sortedMembers ms).filter (·.1 == name) = [] := by
  induction ms with
  | nil => rfl
  | cons m ms ih =>
    obtain ⟨hm, hms⟩ : m.1 ≠ name ∧ ms.filter (·.1 == name) = [] := by
      simpa [List.filter_eq_nil_iff] using h
    simp only [sortedMembers]
    split
    · exact ih hms
    · rw [SortedMap.filter_insertEntry_of_ne _ _ hm, ih hms]

theorem filter_sortedMembers_eq_singleton {ms : List (String × Json)} {name : String} {j : Json}
    (h : ms.filter (·.1 == name) = [(name, j)]) :
    (sortedMembers ms).filter (·.1 == name) = [(name, j.sorted)] := by
  induction ms with
  | nil => simp at h
  | cons m ms ih =>
    obtain ⟨k, x⟩ := m
    simp only [sortedMembers]
    by_cases hk : k = name
    · subst hk
      rw [List.filter_cons_of_pos (by simp)] at h
      obtain ⟨hx, hms⟩ := List.cons.inj h
      have hlater := filter_sortedMembers_eq_nil hms
      rw [SortedMap.lookup_eq_none_of_filter hlater, (Prod.mk.inj hx).2]
      exact SortedMap.filter_insertEntry_self _ hlater
    · rw [List.filter_cons_of_neg (by simpa using hk)] at h
      split
      · exact ih h
      · rw [SortedMap.filter_insertEntry_of_ne _ _ hk, ih h]

theorem pairwise_sortedMembers (ms : List (String × Json)) :
    (sortedMembers ms).Pairwise fun a b => compare a.1 b.1 = .lt := by
  induction ms with
  | nil => exact .nil
  | cons m ms ih =>
    simp only [sortedMembers]
    split
    · exact ih
    · exact SortedMap.sorted_insertEntry _ _ ih

theorem perm_sortedMembers {ms : List (String × Json)} (h : (ms.map (·.1)).Nodup) :
    (sortedMembers ms).Perm (ms.map fun m => (m.1, m.2.sorted)) := by
  induction ms with
  | nil => exact .nil
  | cons m ms ih =>
    obtain ⟨hm, hms⟩ := List.nodup_cons.1 h
    have hnone : SortedMap.lookup m.1 (sortedMembers ms) = none := by
      refine SortedMap.lookup_eq_none_of_filter (filter_sortedMembers_eq_nil ?_)
      refine List.filter_eq_nil_iff.2 fun m' hm' he => hm ?_
      exact List.mem_map.2 ⟨m', hm', beq_iff_eq.1 he⟩
    rw [sortedMembers, hnone]
    exact (SortedMap.perm_insertEntry hnone).trans ((ih hms).cons _)

/-- Members are put into the one order that is the order of their names. -/
theorem sortedMembers_of_perm {ms ms' : List (String × Json)} (hperm : ms.Perm ms')
    (h : ms'.Pairwise fun a b => compare a.1 b.1 = .lt) :
    sortedMembers ms = ms'.map fun m => (m.1, m.2.sorted) := by
  have hnames : (ms.map (·.1)).Nodup := by
    rw [(hperm.map _).nodup_iff]
    refine List.pairwise_map.2 (h.imp fun hlt heq => ?_)
    simp [heq] at hlt
  refine List.Perm.eq_of_pairwise (fun a b _ _ hab hba => ?_) (pairwise_sortedMembers ms)
    (List.pairwise_map.2 h) ((perm_sortedMembers hnames).trans (hperm.map _))
  rw [Std.OrientedCmp.gt_of_lt hab] at hba
  cases hba

/-- Members that are in name order stay where they are. -/
theorem sortedMembers_of_pairwise {ms : List (String × Json)}
    (h : ms.Pairwise fun a b => compare a.1 b.1 = .lt) :
    sortedMembers ms = ms.map fun m => (m.1, m.2.sorted) :=
  sortedMembers_of_perm (.refl ms) h

mutual
/-- What is in name order stays as it is. -/
theorem sorted_sorted : ∀ j : Json, j.sorted.sorted = j.sorted
  | .array items => by
    rw [sorted, sorted, sortedItems_sortedItems items]
  | .object ms => by
    rw [sorted, sorted, sortedMembers_of_pairwise (pairwise_sortedMembers ms)]
    refine congrArg _ ((List.map_congr_left fun m hm => ?_).trans (List.map_id _))
    exact Prod.ext rfl (sorted_of_mem_sortedMembers ms m hm)
  | .null | .bool _ | .integer _ | .real _ | .string _ => rfl

/-- Items with members in name order stay as they are. -/
theorem sortedItems_sortedItems : ∀ xs : List Json, sortedItems (sortedItems xs) = sortedItems xs
  | [] => rfl
  | x :: xs => by
    rw [sortedItems, sortedItems, sorted_sorted x, sortedItems_sortedItems xs]

/-- Members in name order hold values in name order. -/
theorem sorted_of_mem_sortedMembers :
    ∀ (ms : List (String × Json)), ∀ m ∈ sortedMembers ms, m.2.sorted = m.2
  | [], _, hm => nomatch hm
  | (k, x) :: ms, m, hm => by
    simp only [sortedMembers] at hm
    split at hm
    · exact sorted_of_mem_sortedMembers ms m hm
    · rcases SortedMap.mem_insertEntry hm with rfl | hm
      · exact sorted_sorted x
      · exact sorted_of_mem_sortedMembers ms m hm
end

/-! ### Either order -/

/-- JSON with its members in name order or as they are. -/
def arranged (byName : Bool) (j : Json) : Json := if byName then j.sorted else j

/-- Members in name order or as they are. -/
def arrangedMembers (byName : Bool) (ms : List (String × Json)) : List (String × Json) :=
  if byName then sortedMembers ms else ms

@[simp] theorem arranged_false (j : Json) : j.arranged false = j := rfl

@[simp] theorem arranged_true (j : Json) : j.arranged true = j.sorted := rfl

variable (byName : Bool)

@[simp] theorem arranged_null : Json.null.arranged byName = .null := by cases byName <;> rfl

@[simp] theorem arranged_bool (b : Bool) : (Json.bool b).arranged byName = .bool b := by
  cases byName <;> rfl

@[simp] theorem arranged_integer (n : Int) : (Json.integer n).arranged byName = .integer n := by
  cases byName <;> rfl

@[simp] theorem arranged_real (x : Float) : (Json.real x).arranged byName = .real x := by
  cases byName <;> rfl

@[simp] theorem arranged_string (s : String) : (Json.string s).arranged byName = .string s := by
  cases byName <;> rfl

theorem arranged_array (xs : List Json) :
    (Json.array xs).arranged byName = .array (xs.map (·.arranged byName)) := by
  cases byName with
  | false => simp
  | true => simp [sorted, sortedItems_eq_map]

theorem arranged_object (ms : List (String × Json)) :
    (Json.object ms).arranged byName = .object (arrangedMembers byName ms) := by
  cases byName <;> rfl

theorem arrangedMembers_of_pairwise {ms : List (String × Json)}
    (h : ms.Pairwise fun a b => compare a.1 b.1 = .lt) :
    arrangedMembers byName ms = ms.map fun m => (m.1, m.2.arranged byName) := by
  cases byName with
  | false => simp [arrangedMembers]
  | true => exact sortedMembers_of_pairwise h

@[simp] theorem arranged_object_singleton (name : String) (j : Json) :
    (Json.object [(name, j)]).arranged byName = .object [(name, j.arranged byName)] := by
  rw [arranged_object, arrangedMembers_of_pairwise _ (List.pairwise_singleton ..)]
  rfl

theorem arranged_eq_null_iff {j : Json} : j.arranged byName = .null ↔ j = .null := by
  cases byName with
  | false => rfl
  | true => cases j <;> simp [sorted]

variable {ms : List (String × Json)} {name : String}

theorem filter_arrangedMembers_eq_nil (h : ms.filter (·.1 == name) = []) :
    (arrangedMembers byName ms).filter (·.1 == name) = [] := by
  cases byName with
  | false => exact h
  | true => exact filter_sortedMembers_eq_nil h

/-- A name that was written once is there once, in either form. -/
theorem filter_arrangedMembers {j : Json} (h : ms.filter (·.1 == name) = [(name, j)]) :
    (arrangedMembers byName ms).filter (·.1 == name) = [(name, j.arranged byName)] := by
  cases byName with
  | false => exact h
  | true => exact filter_sortedMembers_eq_singleton h

end Json

end WideColumn
