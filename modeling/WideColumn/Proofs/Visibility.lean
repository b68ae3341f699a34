import WideColumn.Proofs.Cells
import WideColumn.Proofs.Identity

/-!
# What a put of a value makes visible

A read of a column finds its latest cell (`Cell.latest?_eq_some_iff`), and a cell without version
counts as the oldest possible. An update that puts a value without version into a column writes such
a cell and keeps all cells of the column that have a version (`Row.versions_update`). So the value
is what a following read finds if no cell of the column had a later version; otherwise the read
finds what it found before (`Store.getRow_of_puts`).
-/

namespace WideColumn

namespace Row

variable {row : Row} {column : String}

/-- A cell without version takes the place of the one without version, behind all others. -/
theorem versions_putCell_self (v : Value) :
    (row.putCell ⟨column, v, none⟩).versions column =
      (row.versions column).filter (·.version.isSome) ++ [⟨column, v, none⟩] := by
  rw [versions, putCell, List.filter_append, versions, List.filter_filter, List.filter_filter]
  congr 1
  · refine List.filter_congr fun c _ => ?_
    cases c.version <;> cases c.column == column <;> simp
  · simp

end Row

/-- The only change of a column is that a value is put into it without a version. -/
def UpdateSet.Puts (u : UpdateSet) (column : String) (v : Value) : Prop :=
  u.changes.filter (·.2.column == column) = [(.put, { column, value := some v })]

namespace Row

variable {row row' : Row} {column : String}

/-- Of a column that is put into, the cells with a version stay, and the value is behind them. -/
theorem versions_update {u : UpdateSet} {v : Value} (hu : u.Puts column v)
    (h : row.update u = .ok row') :
    row'.versions column =
      (row.versions column).filter (·.version.isSome) ++ [⟨column, v, none⟩] := by
  obtain ⟨l, r, hchanges, hl, -, hr⟩ := List.filter_eq_cons_iff.1 hu
  have hr := List.filter_eq_nil_iff.1 hr
  rw [update, hchanges, List.foldlM_append] at h
  obtain ⟨row₁, h₁, h⟩ := bind_eq_ok.1 h
  rw [List.foldlM_cons] at h
  obtain ⟨row₂, h₂, h⟩ := bind_eq_ok.1 h
  obtain rfl : row₁.putCell ⟨column, v, none⟩ = row₂ := Except.ok.inj h₂
  rw [versions_changes h fun x hx => by simpa using hr x hx, versions_putCell_self,
    versions_changes h₁ fun x hx => by simpa using hl x hx]

/-- What is found in a column after a value has been put into it without a version. -/
theorem value?_update {u : UpdateSet} {v : Value} (hu : u.Puts column v)
    (h : row.update u = .ok row') :
    row'.value? column =
      if ∀ c ∈ row.versions column, c.age = Int64.minValue then some v
      else row.value? column := by
  have hage : (⟨column, v, none⟩ : Cell).age = Int64.minValue := rfl
  rw [value?_eq, versions_update hu h, Cell.latest?_concat]
  split
  · next hold =>
    cases hlatest : Cell.latest? ((row.versions column).filter (·.version.isSome)) with
    | none => rfl
    | some c =>
      have hc := hold c (List.mem_filter.1 (Cell.mem_of_latest? hlatest)).1
      have hle : c.age ≤ (⟨column, v, none⟩ : Cell).age := by rw [hc, hage]; exact Int64.le_refl _
      rw [Option.elim_some, Cell.later_of_le hle]
      rfl
  · next hyoung =>
    -- The latest cell of before has a version, so it stays and is still the latest.
    obtain ⟨c, hc, hne⟩ : ∃ c ∈ row.versions column, c.age ≠ Int64.minValue := by
      simpa using hyoung
    obtain ⟨d, hd⟩ := Cell.exists_latest? (List.ne_nil_of_mem hc)
    have hlt : Int64.minValue < d.age := by
      refine Int64.not_le.1 fun hle => hne ?_
      have hle' := Int64.le_trans (Cell.le_of_latest? hd c hc) hle
      exact Int64.le_antisymm hle' (Int64.minValue_le _)
    have hversion : d.version.isSome = true := by
      cases hd : d.version with
      | some n => rfl
      | none =>
        rw [Cell.age, hd] at hlt
        exact absurd hlt (by decide)
    rw [Cell.latest?_filter hd hversion, Option.elim_some, Cell.later_of_lt (hage ▸ hlt), value?_eq,
      hd]

end Row

/-! ### Reads after a put -/

/-- A read of a whole row, whatever is in it, outside of transactions. -/
structure GetRow.Whole (q : GetRow) : Prop where
  /-- All columns are read. -/
  columns : q.columns = []
  /-- The row is read whatever is in it. -/
  filter : q.filter = none
  /-- The read belongs to no transaction. -/
  transaction : q.transaction = none

namespace Store

/-- A read of a whole row finds what is stored at the place of its key. -/
theorem getRow_of_whole {s : Store} {q : GetRow} (hq : q.Whole) {t : Table} {k : SortKey}
    (ht : s.tables.get? q.table = some t) (hk : q.key.sortKey = .ok k) :
    s.getRow q = .ok { row := t.rows.get? k, consumed := { read := 1 } } := by
  rw [getRow_of_place hq.transaction hq.filter ht hk, hq.columns]
  cases t.rows.get? k <;> rfl

/-- **When a put is visible.**  After an update that puts a value without version into a column and
changes nothing else of the column, a read of the whole row finds the value exactly as the latest
one of the column if no cell of the column had a version above the least; otherwise it finds in the
column what a read before the update finds. -/
theorem getRow_of_puts (s : Store) {r : UpdateRow} {q : GetRow} {column : String} {v : Value}
    (hr : r.transaction = none) (hu : r.updates.Puts column v)
    (hok : (s.answer (.updateRow r)).1.isOk = true) (htable : q.table = r.table)
    (hkey : q.key = r.key) (hq : q.Whole) :
    ∃ before row, s.getRow q = .ok { row := before, consumed := { read := 1 } } ∧
      (s.answer (.updateRow r)).2.getRow q = .ok { row := some row, consumed := { read := 1 } } ∧
      row.value? column =
        if ∀ c ∈ before.elim [] (·.versions column), c.age = Int64.minValue then some v
        else before.bind (·.value? column) := by
  obtain ⟨e, hanswer⟩ | ⟨t, k, row, w, ht, hk, -, hrow, hanswer⟩ := s.answer_updateRow_cases hr
  · rw [hanswer] at hok
    cases hok
  rw [← htable] at ht
  rw [← hkey] at hk
  refine ⟨t.rows.get? k, row, getRow_of_whole hq ht hk, ?_, ?_⟩
  · rw [hanswer, htable.symm]
    have hget : SortedMap.get? (s.tables.insert q.table { t with rows := t.rows.insert k row })
        q.table = some { t with rows := t.rows.insert k row } := SortedMap.get?_insert_self ..
    rw [getRow_of_whole hq hget hk, SortedMap.get?_insert_self]
  · rw [Row.value?_update hu hrow, Table.existing]
    cases t.rows.get? k with
    | none => rfl
    | some stored => rfl

/-- A row with a column that has a version and one that has none. -/
def withVersion : Store :=
  after {} [.createTable { table := "t", keys := [⟨"id", .integer, false⟩] },
    .putRow { table := "t", key := [⟨"id", .integer 1⟩],
              cells := [⟨"a", .integer 1, some 5⟩, ⟨"b", .integer 1, none⟩] }]

/-- An update of the row that puts 2 into a column. -/
def putTwo (column : String) : UpdateRow where
  table := "t"
  key := [⟨"id", .integer 1⟩]
  updates := { put := some [{ column, value := some (.integer 2) }] }

/-- The read of the row. -/
def readOne : GetRow := readOf ⟨"id", .integer 1⟩

theorem whole_readOne : readOne.Whole := ⟨rfl, rfl, rfl⟩

theorem puts_putTwo (column : String) : (putTwo column).updates.Puts column (.integer 2) := by
  change [(UpdateKind.put, ({ column, value := some (.integer 2) } : ColumnOperand))].filter
    (·.2.column == column) = _
  rw [List.filter_cons_of_pos (by simp), List.filter_nil]

/-- The column without versions shows the value, the other one what it showed before. -/
theorem getRow_of_puts_withVersion :
    (∃ row, (withVersion.answer (.updateRow (putTwo "b"))).2.getRow readOne =
        .ok { row := some row, consumed := { read := 1 } } ∧
      row.value? "b" = some (.integer 2)) ∧
    ∃ row, (withVersion.answer (.updateRow (putTwo "a"))).2.getRow readOne =
        .ok { row := some row, consumed := { read := 1 } } ∧
      row.value? "a" = some (.integer 1) := by
  constructor
  · obtain ⟨before, row, hbefore, hread, hvalue⟩ :=
      withVersion.getRow_of_puts rfl (puts_putTwo "b") rfl rfl rfl whole_readOne
    cases hbefore
    exact ⟨row, hread, hvalue⟩
  · obtain ⟨before, row, hbefore, hread, hvalue⟩ :=
      withVersion.getRow_of_puts rfl (puts_putTwo "a") rfl rfl rfl whole_readOne
    cases hbefore
    exact ⟨row, hread, hvalue⟩

/-- A value that has been put into a column is not always found there. -/
theorem not_visible_of_puts :
    ¬ ∀ (s : Store) (r : UpdateRow) (q : GetRow) (column : String) (v : Value), s.Reachable →
      r.transaction = none → r.updates.Puts column v → (s.answer (.updateRow r)).1.isOk = true →
      q.table = r.table → q.key = r.key → q.Whole →
      ∃ read row, (s.answer (.updateRow r)).2.getRow q = .ok read ∧ read.row = some row ∧
        row.value? column = some v := by
  intro h
  have hs : withVersion.Reachable := .after (.new _) _
  obtain ⟨read, row, hread, hrow, hvalue⟩ :=
    h withVersion (putTwo "a") readOne "a" (.integer 2) hs rfl (puts_putTwo "a") rfl rfl rfl
      whole_readOne
  cases hread
  cases hrow
  cases hvalue

end Store

end WideColumn
