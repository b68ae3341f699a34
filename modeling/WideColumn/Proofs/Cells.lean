import Mathlib.Data.List.Induction
import WideColumn.Proofs.Table

/-!
# Cells of a row

A read of a column finds its latest cell: of cells that are equally old the last one. A change of a
row concerns the cells of one column and leaves those of all other columns as they are, in order.

* `Cell.latest?_eq_some_iff` : the latest cell is as old as no cell before it and younger than every
  cell behind it;
* `Row.filter_changes` : what changes of some columns leave alone.
-/

namespace WideColumn

namespace Cell

/-! ### The latest cell -/

theorem latest?_concat (cs : List Cell) (d : Cell) :
    latest? (cs ++ [d]) = some ((latest? cs).elim d (later · d)) := by
  cases cs with
  | nil => rfl
  | cons c cs => simp [latest?]

theorem later_of_le {c d : Cell} (h : c.age ≤ d.age) : later c d = d := if_pos h

theorem later_of_lt {c d : Cell} (h : d.age < c.age) : later c d = c :=
  if_neg fun hle => Int64.not_le.2 h hle

/-- A cell of a list is at least as young as all before it and younger than all behind it. -/
def IsLatest (cs : List Cell) (d : Cell) : Prop :=
  ∃ l r, cs = l ++ d :: r ∧ (∀ c ∈ l, c.age ≤ d.age) ∧ ∀ c ∈ r, c.age < d.age

theorem isLatest_of_latest? {cs : List Cell} {d : Cell} (h : latest? cs = some d) :
    IsLatest cs d := by
  induction cs using List.reverseRecOn generalizing d with
  | nil => cases h
  | append_singleton cs x ih =>
    rw [latest?_concat] at h
    cases hcs : latest? cs with
    | none =>
      obtain rfl : cs = [] := by
        cases cs with
        | nil => rfl
        | cons c cs => cases hcs
      rw [hcs] at h
      obtain rfl : x = d := Option.some.inj h
      exact ⟨[], [], rfl, nofun, nofun⟩
    | some c =>
      rw [hcs] at h
      obtain rfl : later c x = d := Option.some.inj h
      obtain ⟨l, r, rfl, hl, hr⟩ := ih hcs
      by_cases hle : c.age ≤ x.age
      · rw [later_of_le hle]
        refine ⟨l ++ c :: r, [], rfl, fun y hy => ?_, nofun⟩
        rcases List.mem_append.1 hy with hy | hy
        · exact Int64.le_trans (hl y hy) hle
        rcases List.mem_cons.1 hy with rfl | hy
        · exact hle
        · exact Int64.le_trans (Int64.le_of_lt (hr y hy)) hle
      · have hlt := Int64.not_le.1 hle
        rw [later_of_lt hlt]
        refine ⟨l, r ++ [x], by simp, hl, fun y hy => ?_⟩
        rcases List.mem_append.1 hy with hy | hy
        · exact hr y hy
        · rwa [List.mem_singleton.1 hy]

/-- The latest cell is as old as no cell before it and younger than every cell behind it. -/
theorem latest?_eq_some_iff {cs : List Cell} {d : Cell} :
    latest? cs = some d ↔ IsLatest cs d := by
  refine ⟨isLatest_of_latest?, ?_⟩
  rintro ⟨l, r, rfl, hl, hr⟩
  induction r using List.reverseRecOn with
  | nil =>
    rw [latest?_concat]
    cases hlatest : latest? l with
    | none => rfl
    | some c =>
      obtain ⟨l₁, l₂, rfl, -⟩ := isLatest_of_latest? hlatest
      exact congrArg some (later_of_le (hl c (by simp)))
  | append_singleton r x ih =>
    have hlatest := ih fun c hc => hr c (List.mem_append_left _ hc)
    have happend : l ++ d :: (r ++ [x]) = l ++ d :: r ++ [x] := by simp
    rw [happend, latest?_concat, hlatest]
    exact congrArg some (later_of_lt (hr x (by simp)))

theorem mem_of_latest? {cs : List Cell} {d : Cell} (h : latest? cs = some d) : d ∈ cs := by
  obtain ⟨l, r, rfl, -⟩ := isLatest_of_latest? h
  simp

theorem le_of_latest? {cs : List Cell} {d : Cell} (h : latest? cs = some d) :
    ∀ c ∈ cs, c.age ≤ d.age := by
  obtain ⟨l, r, rfl, hl, hr⟩ := isLatest_of_latest? h
  intro c hc
  rcases List.mem_append.1 hc with hc | hc
  · exact hl c hc
  rcases List.mem_cons.1 hc with rfl | hc
  · exact Int64.le_refl _
  · exact Int64.le_of_lt (hr c hc)

theorem exists_latest? {cs : List Cell} (h : cs ≠ []) : ∃ d, latest? cs = some d := by
  obtain ⟨c, cs, rfl⟩ := List.exists_cons_of_ne_nil h
  exact ⟨_, rfl⟩

/-- Without cells that are not the latest the latest stays. -/
theorem latest?_filter {cs : List Cell} {d : Cell} (h : latest? cs = some d) {p : Cell → Bool}
    (hp : p d = true) : latest? (cs.filter p) = some d := by
  obtain ⟨l, r, rfl, hl, hr⟩ := latest?_eq_some_iff.1 h
  refine latest?_eq_some_iff.2 ⟨l.filter p, r.filter p, ?_, ?_, ?_⟩
  · rw [List.filter_append, List.filter_cons_of_pos hp]
  · exact fun c hc => hl c ((List.mem_filter.1 hc).1)
  · exact fun c hc => hr c ((List.mem_filter.1 hc).1)

end Cell

namespace Row

/-! ### The cells of a column -/

/-- The cells of a column in order. -/
def versions (row : Row) (column : String) : List Cell := row.cells.filter (·.column == column)

theorem value?_eq (row : Row) (column : String) :
    row.value? column = (Cell.latest? (row.versions column)).map (·.value) := rfl

theorem integerOf_eq_ok {row : Row} {column : String} {n : Int64} :
    row.integerOf column = .ok n ↔
      row.value? column = none ∧ n = 0 ∨ row.value? column = some (.integer n) := by
  unfold integerOf
  cases row.value? column with
  | none => simp [eq_comm]
  | some v => cases v <;> simp [Value.integer?]

/-! ### Cells that a change leaves alone -/

theorem filter_eraseP {α : Type} {test p : α → Bool} (h : ∀ x, test x = true → p x = false)
    (xs : List α) : (xs.eraseP test).filter p = xs.filter p := by
  rcases List.eraseP_eq_iff.1 (rfl : xs.eraseP test = _) with ⟨-, heq⟩ | ⟨a, l, r, -, ha, hxs, heq⟩
  · rw [← heq]
  · have hnot : ¬ p a = true := by simp [h a ha]
    rw [heq, hxs, List.filter_append, List.filter_append, List.filter_cons_of_neg hnot]

theorem filter_eraseLast {α : Type} {test p : α → Bool} (h : ∀ x, test x = true → p x = false)
    (xs : List α) : (eraseLast test xs).filter p = xs.filter p := by
  rw [eraseLast, List.filter_reverse, filter_eraseP h, ← List.filter_reverse, List.reverse_reverse]

theorem filter_filter_of_imp {α : Type} {p q : α → Bool} (h : ∀ x, p x = true → q x = true)
    (xs : List α) : (xs.filter q).filter p = xs.filter p := by
  rw [List.filter_filter]
  refine List.filter_congr fun x _ => ?_
  cases hp : p x with
  | false => rfl
  | true => rw [h x hp, Bool.true_and]

variable {row row' : Row} {p : Cell → Bool}

/-- A test selects no cell of a column. -/
def Skips (p : Cell → Bool) (column : String) : Prop := ∀ c : Cell, c.column = column → p c = false

theorem Skips.ne {column : String} (hp : Skips p column) {c : Cell} (hc : p c = true) :
    c.column ≠ column := by
  intro h
  rw [hp c h] at hc
  cases hc

theorem skips_of_ne {column other : String} (h : other ≠ column) :
    Skips (·.column == column) other := by
  rintro c rfl
  exact beq_false_of_ne h

theorem filter_dropColumn {column : String} (hp : Skips p column) :
    (row.dropColumn column).cells.filter p = row.cells.filter p :=
  filter_filter_of_imp (fun _ hc => bne_iff_ne.2 (hp.ne hc)) row.cells

theorem filter_concat {cells : List Cell} {c : Cell} (hp : Skips p c.column) :
    (cells ++ [c]).filter p = cells.filter p := by
  rw [List.filter_append, List.filter_cons_of_neg (by simp [hp c rfl]), List.filter_nil,
    List.append_nil]

theorem filter_putCell {c : Cell} (hp : Skips p c.column) :
    (row.putCell c).cells.filter p = row.cells.filter p := by
  refine (filter_concat hp).trans (filter_filter_of_imp (fun d hd => ?_) row.cells)
  rw [beq_false_of_ne (hp.ne hd)]
  rfl

theorem filter_dropCell {column : String} (hp : Skips p column) (version : Option Int64) :
    (row.dropCell column version).cells.filter p = row.cells.filter p := by
  unfold dropCell
  split
  · rfl
  · next latest _ =>
    refine filter_eraseLast (fun c hc => hp c ?_) row.cells
    simp only [isMeant, Bool.and_eq_true, beq_iff_eq] at hc
    exact hc.1.1

theorem filter_addOperand {o : ColumnOperand} (hp : Skips p o.column)
    (h : row.addOperand o = .ok row') : row'.cells.filter p = row.cells.filter p := by
  unfold addOperand at h
  split at h
  · cases h
  · obtain ⟨current, -, h⟩ := bind_eq_ok.1 h
    rw [← pure_eq_ok.1 h]
    exact (filter_concat hp).trans (filter_dropColumn hp)

/-- A change of a column leaves the cells of other columns alone. -/
theorem filter_change {x : UpdateKind × ColumnOperand} (hp : Skips p x.2.column)
    (h : row.change x = .ok row') : row'.cells.filter p = row.cells.filter p := by
  obtain ⟨kind, o⟩ := x
  cases kind with
  | put =>
    simp only [change, putOperand] at h
    split at h
    · cases h
    · rw [← Except.ok.inj h]
      exact filter_putCell hp
  | delete =>
    rw [← Except.ok.inj h]
    exact filter_dropCell hp o.version
  | deleteAll =>
    rw [← Except.ok.inj h]
    exact filter_dropColumn hp
  | increment => exact filter_addOperand hp h

theorem filter_changes {xs : List (UpdateKind × ColumnOperand)}
    (hp : ∀ x ∈ xs, Skips p x.2.column) (h : xs.foldlM change row = .ok row') :
    row'.cells.filter p = row.cells.filter p := by
  exact foldlM_invariant (P := fun row' => row'.cells.filter p = row.cells.filter p)
    (fun x hx _ _ h₁ h₂ => (filter_change (hp x hx) h₂).trans h₁) rfl h

theorem versions_changes {column : String} {xs : List (UpdateKind × ColumnOperand)}
    (h : xs.foldlM change row = .ok row') (hxs : ∀ x ∈ xs, x.2.column ≠ column) :
    row'.versions column = row.versions column :=
  filter_changes (fun x hx => skips_of_ne (hxs x hx)) h

end Row

end WideColumn
