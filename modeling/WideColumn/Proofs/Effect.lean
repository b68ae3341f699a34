import Mathlib.Algebra.Ring.Int.Defs
import WideColumn.Proofs.Absent
import WideColumn.Proofs.Cells

/-!
# What an update set does to a row

The puts, deletions and deletions of whole columns of an update set come before what is added, in
this order; they settle the row (`Row.settled`). What is added to a column then takes the place of
all of its cells: one cell without version with the sum (`Row.versions_addOperands`).

* `Row.update_exact` : when an update set can be applied, and what it leaves.
-/

namespace WideColumn

/-! ### Operands -/

/-- The cell that a put writes, if it has a value. -/
def ColumnOperand.cell? (o : ColumnOperand) : Option Cell :=
  o.value.map fun v => ⟨o.column, v, o.version⟩

/-- The integer that is added, if the operand has one. -/
def ColumnOperand.amount? (o : ColumnOperand) : Option Int64 := o.value.bind Value.integer?

/-- The sum of what operands add to a column. -/
def ColumnOperand.total (os : List ColumnOperand) (column : String) : Int :=
  ((os.filter (·.column == column)).map fun o => o.amount?.elim 0 Int64.toInt).sum

namespace ColumnOperand

variable {o : ColumnOperand} {os : List ColumnOperand} {column : String}

theorem total_cons_self (o : ColumnOperand) (os : List ColumnOperand) :
    total (o :: os) o.column = o.amount?.elim 0 Int64.toInt + total os o.column := by
  rw [total, List.filter_cons_of_pos (by simp), List.map_cons, List.sum_cons]
  rfl

theorem total_cons_of_ne (h : o.column ≠ column) : total (o :: os) column = total os column := by
  rw [total, List.filter_cons_of_neg (by simpa using h)]
  rfl

theorem total_eq_zero (h : ¬ ∃ o ∈ os, o.column = column) : total os column = 0 := by
  have hnone : os.filter (·.column == column) = [] :=
    List.filter_eq_nil_iff.2 fun o ho hcolumn => h ⟨o, ho, beq_iff_eq.1 hcolumn⟩
  rw [total, hnone]
  rfl

end ColumnOperand

namespace UpdateSet

/-- Operands as changes of a kind. -/
def tagged (kind : UpdateKind) (os : List ColumnOperand) : List (UpdateKind × ColumnOperand) :=
  os.map fun o => (kind, o)

/-- The operands of a kind, none if the kind is not mentioned. -/
def operands (u : UpdateSet) (kind : UpdateKind) : List ColumnOperand := (u.get? kind).getD []

/-- An operand is about the column. -/
def Names (u : UpdateSet) (column : String) : Prop := ∃ x ∈ u.changes, x.2.column = column

/-- Something is added to the column. -/
def Increments (u : UpdateSet) (column : String) : Prop :=
  ∃ o ∈ u.operands .increment, o.column = column

instance (u : UpdateSet) : DecidablePred u.Names := fun column =>
  inferInstanceAs (Decidable (∃ x ∈ u.changes, x.2.column = column))

instance (u : UpdateSet) : DecidablePred u.Increments := fun column =>
  inferInstanceAs (Decidable (∃ o ∈ u.operands .increment, o.column = column))

theorem changes_eq (u : UpdateSet) :
    u.changes = tagged .put (u.operands .put) ++ (tagged .delete (u.operands .delete) ++
      (tagged .deleteAll (u.operands .deleteAll) ++
        tagged .increment (u.operands .increment))) := by
  obtain ⟨put, delete, deleteAll, increment⟩ := u
  cases put <;> cases delete <;> cases deleteAll <;> cases increment <;>
    simp [changes, toList, tagged, operands, get?, Enumeration.members]

end UpdateSet

namespace Row

/-- The row after the puts of an update set, then its deletions, then its deletions of whole
columns. -/
def settled (row : Row) (u : UpdateSet) : Row :=
  let row := ((u.operands .put).filterMap ColumnOperand.cell?).foldl putCell row
  let row := (u.operands .delete).foldl (fun row o => row.dropCell o.column o.version) row
  (u.operands .deleteAll).foldl (fun row o => row.dropColumn o.column) row

/-- The latest value of a column is an integer, if there is one. -/
def Summable (row : Row) (column : String) : Prop :=
  ∀ v, row.value? column = some v → v.integer? ≠ none

/-- The latest integer of a column; zero if there is none. -/
def number (row : Row) (column : String) : Int :=
  ((row.value? column).bind Value.integer?).elim 0 Int64.toInt

/-- The cell that a sum is stored in. -/
def sumCell (column : String) (n : Int) : Cell := { column, value := .integer (.ofInt n) }

end Row

/-- What an update set leaves of a row. -/
structure UpdateSet.Effect (u : UpdateSet) (row row' : Row) : Prop where
  /-- The key stays. -/
  key : row'.key = row.key
  /-- The cells of columns that are not named stay, in order. -/
  unnamed : row'.cells.filter (¬ u.Names ·.column) = row.cells.filter (¬ u.Names ·.column)
  /-- The cells of columns that nothing is added to are those of the settled row, in order. -/
  settled : row'.cells.filter (¬ u.Increments ·.column) =
    (row.settled u).cells.filter (¬ u.Increments ·.column)
  /-- Of a column that is deleted and not added to nothing is left. -/
  cleared : ∀ o ∈ u.operands .deleteAll, ¬ u.Increments o.column → row'.versions o.column = []
  /-- Of a column that is added to one cell without version is left, with the sum. -/
  summed : ∀ o ∈ u.operands .increment, row'.versions o.column =
    [Row.sumCell o.column ((row.settled u).number o.column +
      ColumnOperand.total (u.operands .increment) o.column)]

namespace Row

variable {row row' : Row} {column : String}

/-! ### Puts and deletions -/

open UpdateSet (tagged)

/-- Changes that are always made are made one after the other. -/
theorem foldlM_change (kind : UpdateKind) (step : Row → ColumnOperand → Row)
    (h : ∀ row o, change row (kind, o) = .ok (step row o)) (os : List ColumnOperand) (row : Row) :
    (tagged kind os).foldlM change row = .ok (os.foldl step row) := by
  induction os generalizing row with
  | nil => rfl
  | cons o os ih =>
    rw [tagged, List.map_cons, List.foldlM_cons, h]
    exact ih (step row o)

/-- Puts are made if each has a value. -/
theorem foldlM_put_eq_ok {os : List ColumnOperand} :
    (tagged .put os).foldlM change row = .ok row' ↔
      (∀ o ∈ os, o.value ≠ none) ∧ (os.filterMap ColumnOperand.cell?).foldl putCell row = row' := by
  induction os generalizing row with
  | nil => simp [tagged, pure_eq_ok]
  | cons o os ih =>
    rw [tagged, List.map_cons, List.foldlM_cons, bind_eq_ok, List.forall_mem_cons, ← tagged]
    cases hvalue : o.value with
    | none => simp [change, putOperand, hvalue]
    | some v =>
      have hcell : o.cell? = some ⟨o.column, v, o.version⟩ := by
        rw [ColumnOperand.cell?, hvalue]
        rfl
      simp [change, putOperand, hvalue, ih, List.filterMap_cons_some hcell]

/-- An update first settles the row, if each put has a value, and then adds. -/
theorem update_eq_ok {u : UpdateSet} :
    row.update u = .ok row' ↔ (∀ o ∈ u.operands .put, o.value ≠ none) ∧
      (u.operands .increment).foldlM addOperand (row.settled u) = .ok row' := by
  have hdelete := foldlM_change .delete (fun row o => row.dropCell o.column o.version)
    fun _ _ => rfl
  have hdeleteAll := foldlM_change .deleteAll (fun row o => row.dropColumn o.column) fun _ _ => rfl
  have hincrement (row : Row) : (tagged .increment (u.operands .increment)).foldlM change row =
      (u.operands .increment).foldlM addOperand row := List.foldlM_map
  rw [update, UpdateSet.changes_eq, List.foldlM_append, bind_eq_ok]
  simp only [foldlM_put_eq_ok, List.foldlM_append, hdelete, hdeleteAll, hincrement]
  constructor
  · rintro ⟨-, ⟨hvalues, rfl⟩, h⟩
    exact ⟨hvalues, h⟩
  · rintro ⟨hvalues, h⟩
    exact ⟨_, ⟨hvalues, rfl⟩, h⟩

/-! ### Sums -/

/-- The sum of a column takes the place of its cells. -/
def putSum (row : Row) (column : String) (n : Int) : Row :=
  { row with cells := (row.dropColumn column).cells ++ [sumCell column n] }

theorem sumCell_add (column : String) (m n : Int) :
    sumCell column ((Int64.ofInt m).toInt + n) = sumCell column (m + n) := by
  unfold sumCell
  rw [Int64.ofInt_add, Int64.ofInt_toInt, Int64.ofInt_add]

theorem versions_putSum_self (n : Int) : (row.putSum column n).versions column =
    [sumCell column n] := by
  have hdropped : (row.dropColumn column).cells.filter (·.column == column) = [] :=
    List.filter_eq_nil_iff.2 fun c hc => by simpa [dropColumn] using (List.mem_filter.1 hc).2
  rw [versions, putSum, List.filter_append, hdropped]
  simp [sumCell]

theorem versions_putSum_of_ne {other : String} (h : other ≠ column) (n : Int) :
    (row.putSum column n).versions other = row.versions other :=
  (filter_concat (skips_of_ne h.symm)).trans (filter_dropColumn (skips_of_ne h.symm))

theorem integerOf_eq_ok_iff {n : Int64} :
    row.integerOf column = .ok n ↔ row.Summable column ∧ n = .ofInt (row.number column) := by
  rw [integerOf_eq_ok]
  unfold Summable number
  cases row.value? column with
  | none => simp
  | some v =>
    cases v with
    | integer m => simp [Value.integer?, @eq_comm _ m]
    | string | double | boolean | binary => simp [Value.integer?]

/-- An operand is added if it is an integer and the column has an integer or nothing. -/
theorem addOperand_eq_ok {o : ColumnOperand} :
    row.addOperand o = .ok row' ↔ ∃ n, o.amount? = some n ∧ row.Summable o.column ∧
      row' = row.putSum o.column (row.number o.column + n.toInt) := by
  have hsum (n : Int64) : Int64.ofInt (row.number o.column + n.toInt) =
      .ofInt (row.number o.column) + n := by
    rw [Int64.ofInt_add, Int64.ofInt_toInt]
  unfold addOperand
  rw [← ColumnOperand.amount?]
  cases o.amount? with
  | none => simp
  | some n =>
    simp only [bind_eq_ok, integerOf_eq_ok_iff, pure_eq_ok, Option.some.injEq, putSum, sumCell]
    constructor
    · rintro ⟨-, ⟨hsummable, rfl⟩, rfl⟩
      refine ⟨n, rfl, hsummable, ?_⟩
      rw [hsum]
      rfl
    · rintro ⟨-, rfl, hsummable, rfl⟩
      rw [hsum]
      exact ⟨_, ⟨hsummable, rfl⟩, rfl⟩

/-- A column of integers can be added to whatever was added to others. -/
theorem summable_putSum {other : String} (h : row.Summable column) (n : Int) :
    (row.putSum column n).Summable other ↔ row.Summable other := by
  by_cases hcolumn : other = column
  · obtain rfl := hcolumn
    refine iff_of_true ?_ h
    unfold Summable
    rw [value?_eq, versions_putSum_self]
    rintro v ⟨⟩
    nofun
  · unfold Summable
    rw [value?_eq, versions_putSum_of_ne hcolumn, ← value?_eq]

theorem number_putSum_self (n : Int) :
    (row.putSum column n).number column = (Int64.ofInt n).toInt := by
  rw [number, value?_eq, versions_putSum_self]
  rfl

theorem number_putSum_of_ne {other : String} (h : other ≠ column) (n : Int) :
    (row.putSum column n).number other = row.number other := by
  rw [number, value?_eq, versions_putSum_of_ne h, ← value?_eq, number]

/-- Operands are added if all are integers and their columns have integers or nothing. -/
theorem exists_addOperands {os : List ColumnOperand} :
    (∃ row', os.foldlM addOperand row = .ok row') ↔
      ∀ o ∈ os, o.amount? ≠ none ∧ row.Summable o.column := by
  induction os generalizing row with
  | nil => simp [pure_eq_ok]
  | cons o os ih =>
    rw [List.foldlM_cons, List.forall_mem_cons]
    simp only [bind_eq_ok, addOperand_eq_ok]
    constructor
    · rintro ⟨row', -, ⟨n, hn, hsummable, rfl⟩, h⟩
      refine ⟨⟨by rw [hn]; nofun, hsummable⟩, fun o' ho' => ?_⟩
      obtain ⟨hamount, hrest⟩ := ih.1 ⟨row', h⟩ o' ho'
      exact ⟨hamount, (summable_putSum hsummable _).1 hrest⟩
    · rintro ⟨⟨hamount, hsummable⟩, hrest⟩
      obtain ⟨n, hn⟩ := Option.ne_none_iff_exists'.1 hamount
      obtain ⟨row', h⟩ := ih.2 fun o' ho' => ⟨(hrest o' ho').1,
        (summable_putSum hsummable (row.number o.column + n.toInt)).2 (hrest o' ho').2⟩
      exact ⟨row', _, ⟨n, hn, hsummable, rfl⟩, h⟩

/-- What is left of a column after operands were added. -/
theorem versions_addOperands {os : List ColumnOperand} (h : os.foldlM addOperand row = .ok row') :
    row'.versions column = if ∃ o ∈ os, o.column = column then
      [sumCell column (row.number column + ColumnOperand.total os column)]
      else row.versions column := by
  induction os generalizing row with
  | nil =>
    obtain rfl := pure_eq_ok.1 h
    simp
  | cons o os ih =>
    rw [List.foldlM_cons] at h
    obtain ⟨row₁, h₁, h⟩ := bind_eq_ok.1 h
    obtain ⟨n, hn, -, rfl⟩ := addOperand_eq_ok.1 h₁
    rw [ih h]
    by_cases hcolumn : o.column = column
    · obtain rfl := hcolumn
      rw [number_putSum_self, versions_putSum_self, sumCell_add,
        if_pos (⟨o, List.mem_cons_self, rfl⟩ : ∃ o' ∈ o :: os, o'.column = o.column),
        ColumnOperand.total_cons_self, hn, ← Int.add_assoc]
      split
      · rfl
      · next hlast =>
        rw [ColumnOperand.total_eq_zero hlast, Int.add_zero]
        rfl
    · rw [number_putSum_of_ne (Ne.symm hcolumn), versions_putSum_of_ne (Ne.symm hcolumn),
        ColumnOperand.total_cons_of_ne hcolumn]
      simp [hcolumn]

theorem filter_addOperands {os : List ColumnOperand} {p : Cell → Bool}
    (hp : ∀ o ∈ os, Skips p o.column) (h : os.foldlM addOperand row = .ok row') :
    row'.cells.filter p = row.cells.filter p := by
  have hchanges : (tagged .increment os).foldlM change row = .ok row' := List.foldlM_map.trans h
  refine filter_changes (fun x hx => ?_) hchanges
  obtain ⟨o, ho, rfl⟩ := List.mem_map.1 hx
  exact hp o ho

/-! ### Update sets -/

theorem mem_dropColumns {os : List ColumnOperand} {c : Cell} :
    c ∈ (os.foldl (fun row o => row.dropColumn o.column) row).cells ↔
      c ∈ row.cells ∧ ∀ o ∈ os, c.column ≠ o.column := by
  induction os generalizing row with
  | nil => simp
  | cons o os ih =>
    rw [List.foldl_cons, ih]
    simp [dropColumn, and_assoc]

end Row

namespace UpdateSet

variable {u : UpdateSet} {row row' : Row}

/-- An update that is made has its effect. -/
theorem effect_of_update (h : row.update u = .ok row') : u.Effect row row' where
  key := Row.update_key h
  unnamed := by
    refine Row.filter_changes (fun x hx c hc => ?_) h
    simpa [hc] using ⟨x, hx, rfl⟩
  settled := by
    refine Row.filter_addOperands (fun o ho c hc => ?_) (Row.update_eq_ok.1 h).2
    simpa [hc] using ⟨o, ho, rfl⟩
  cleared o ho hincrements := by
    refine (Row.versions_addOperands (Row.update_eq_ok.1 h).2).trans ((if_neg hincrements).trans ?_)
    refine List.filter_eq_nil_iff.2 fun c hc hcolumn => ?_
    exact (Row.mem_dropColumns.1 hc).2 o ho (beq_iff_eq.1 hcolumn)
  summed o ho := by
    rw [Row.versions_addOperands (Row.update_eq_ok.1 h).2, if_pos ⟨o, ho, rfl⟩]

end UpdateSet

theorem Row.exists_update {row : Row} {u : UpdateSet} :
    (∃ row', row.update u = .ok row') ↔ (∀ o ∈ u.operands .put, o.value ≠ none) ∧
      ∀ o ∈ u.operands .increment, o.amount? ≠ none ∧ (row.settled u).Summable o.column := by
  simp only [update_eq_ok, exists_and_left, exists_addOperands]

/-! ### Options -/

namespace OptionList

/-- The options of a key in order. -/
def entriesOf (os : OptionList) (key : String) : List Entry := os.entries.filter (·.1 == key)

theorem get?_eq_getLast? (os : OptionList) (key : String) :
    os.get? key = (os.entriesOf key).getLast?.map (·.2) := by
  unfold get? entriesOf
  rw [← List.head?_filter, List.filter_reverse, List.head?_reverse]

/-- Which options of different kinds come first does not count. -/
theorem updates_congr {os os' : OptionList} (h : ∀ kind : UpdateKind,
    os.entriesOf (Enumeration.symbol kind) = os'.entriesOf (Enumeration.symbol kind)) :
    UpdateSet.ofOptions os = UpdateSet.ofOptions os' := by
  refine UpdateSet.ofOptions_congr fun kind => ?_
  rw [standing?, get?_eq_getLast?, h, ← get?_eq_getLast?, standing?]

end OptionList

/-- **Update sets have an exact effect.** An update fails just when a put has no value, something
that is added is no integer, or the latest value of a column that is added to is there and is no
integer, once the row is settled. What an update leaves is its effect: cells of columns that are
not named are as before, and so is their order; of a deleted column nothing is left, and of a column
that is added to one cell, with the sum of what is added and the latest integer of the settled row.
The update set that is collected from options only depends on the order of those of one kind. -/
theorem Row.update_exact (row : Row) (u : UpdateSet) :
    ((∃ err, row.update u = .error err) ↔
      (∃ o ∈ u.operands .put, o.value = none) ∨
      (∃ o ∈ u.operands .increment, o.amount? = none) ∨
      ∃ o ∈ u.operands .increment, ∃ v, (row.settled u).value? o.column = some v ∧
        v.integer? = none) ∧
    (∀ row', row.update u = .ok row' → u.Effect row row') ∧
    ∀ os os' : OptionList, (∀ kind : UpdateKind,
      os.entriesOf (Enumeration.symbol kind) = os'.entriesOf (Enumeration.symbol kind)) →
      UpdateSet.ofOptions os = UpdateSet.ofOptions os' := by
  refine ⟨?_, fun row' => UpdateSet.effect_of_update, fun os os' => OptionList.updates_congr⟩
  have hfails : (∃ err, row.update u = .error err) ↔ ¬ ∃ row', row.update u = .ok row' := by
    cases row.update u <;> simp
  rw [hfails, exists_update]
  simp only [Summable, not_and_or, not_forall, not_not, exists_prop, and_or_left, exists_or, ne_eq]

/-- Columns with several operands and versions: two amounts are added to what a deletion leaves of
`a`, and `c` can be deleted but not be added to. A deletion may be listed before a put. -/
theorem update_exact_mixed :
    let row : Row := ⟨[], [⟨"a", .integer 1, some 5⟩, ⟨"a", .integer 2, none⟩,
      ⟨"b", .integer 7, some 3⟩, ⟨"c", .string "x", none⟩, ⟨"d", .integer 4, some 9⟩]⟩
    let u : UpdateSet := {
      put := some [⟨"b", some (.integer 8), some 3⟩, ⟨"b", some (.integer 20), some 3⟩]
      delete := some [⟨"a", none, none⟩]
      deleteAll := some [⟨"c", none, none⟩]
      increment := some [⟨"a", some (.integer 3), none⟩, ⟨"b", some (.integer 1), none⟩,
        ⟨"a", some (.integer 4), some 6⟩] }
    (∃ row', row.update u = .ok row' ∧ row'.versions "c" = [] ∧
      row'.versions "a" = [⟨"a", .integer 9, none⟩] ∧
      row'.versions "b" = [⟨"b", .integer 21, none⟩]) ∧
    (∃ err, row.update { increment := some [⟨"c", some (.integer 1), none⟩] } = .error err) ∧
    UpdateSet.ofOptions ⟨[("delete", .columns ["a"]), ("put", .operands [])]⟩ =
      UpdateSet.ofOptions ⟨[("put", .operands []), ("delete", .columns ["a"])]⟩ := by
  intro row u
  refine ⟨⟨_, rfl, ?_⟩, (Row.update_exact row _).1.2 ?_, (Row.update_exact row u).2.2 _ _ ?_⟩
  · have heffect := (Row.update_exact row u).2.1 _ rfl
    refine ⟨heffect.cleared ⟨"c", none, none⟩ (.head _) (by decide), ?_, ?_⟩
    · exact heffect.summed ⟨"a", some (.integer 3), none⟩ (.head _)
    · exact heffect.summed ⟨"b", some (.integer 1), none⟩ (.tail _ (.head _))
  · exact .inr (.inr ⟨_, .head _, .string "x", rfl, rfl⟩)
  · intro kind
    cases kind <;> rfl

end WideColumn
