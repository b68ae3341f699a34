import WideColumn.Proofs.Commutation
import WideColumn.Proofs.Identity

/-!
# What a write returns of the row that it leaves

A write that is asked for the row after it returns part of a row, and a read of the same key and
columns right behind it returns part of what is stored. An update returns what is read. A delete
returns the row that was there, which is read no more, and a put returns the whole row, also where
only some of its columns are asked for (`RowWrite.returned_eq_iff`).

* `Store.returned_exact` : when a write returns what is read behind it.
-/

namespace WideColumn

/-! ### Writes of rows -/

namespace RowWrite

/-- The read of the columns that a write is asked for, under the key that it writes under. -/
def readBack (w : RowWrite) (table : String) (t : Table) : GetRow where
  table
  key := w.keyIn t
  columns := w.returnColumns

/-- A write in a table returns what it leaves: a put that is asked for all its columns, an update,
or the delete of a row that is not there. -/
def ReturnsLeft (w : RowWrite) (t : Table) : Prop :=
  match w.kind with
  | .put => w.returnColumns = [] ∨ ∀ c ∈ w.cells, c.column ∈ w.returnColumns
  | .update => True
  | .delete => ∀ k, w.key.sortKey = .ok k → t.rows.get? k = none

end RowWrite

theorem Row.project_eq_self {row : Row} {columns : List String} :
    row.project columns = row ↔ columns = [] ∨ ∀ c ∈ row.cells, c.column ∈ columns := by
  unfold project
  cases columns with
  | nil => simp
  | cons column columns =>
    obtain ⟨key, cells⟩ := row
    simp [List.filter_eq_self]

namespace RowWrite

/-- A write that is made returns what it leaves in the columns asked for exactly in these cases. -/
theorem returned_eq_iff {w : RowWrite} (hw : w.returnType = .afterModify) {t : Table} {k : SortKey}
    {row : Option Row} (hk : w.place t = .ok k) (hleaves : w.Leaves t k row) :
    w.returned (t.rows.get? k) row = row.map (·.project w.returnColumns) ↔ w.ReturnsLeft t := by
  obtain ⟨kind, key, cells, updates, condition, returnType, returnColumns⟩ := w
  obtain rfl : returnType = .afterModify := hw
  cases kind with
  | put =>
    obtain rfl : row = some _ := hleaves
    exact Option.some_inj.trans (eq_comm.trans Row.project_eq_self)
  | update =>
    obtain ⟨updated, -, rfl⟩ := hleaves
    exact iff_of_true rfl trivial
  | delete =>
    obtain rfl : row = none := hleaves
    have hreturned : ((t.rows.get? k).bind fun row => row.returned [] .afterModify) =
        t.rows.get? k := by
      cases t.rows.get? k <;> rfl
    show ((t.rows.get? k).bind fun row => row.returned [] .afterModify) = none ↔
      ∀ k, key.sortKey = .ok k → t.rows.get? k = none
    rw [hreturned]
    constructor
    · rintro hnone k' hk'
      obtain rfl := Except.ok.inj (hk.symm.trans hk')
      exact hnone
    · intro hnone
      exact hnone k hk

end RowWrite

/-! ### Rows that stay -/

/-- Of rows written one after the other, those at this place are refused. -/
def BatchWrite.Passes (table : String) (k : SortKey) : List (String × RowWrite) → Tables → Prop
  | [], _ => True
  | w :: ws, ts => ((w.2.run w.1 ts).1.isOk = true → w.2.Spares table k w.1 ts) ∧
      Passes table k ws (w.2.run w.1 ts).2

theorem BatchWrite.row?_after_of_passes {table : String} {k : SortKey}
    {ws : List (String × RowWrite)} {ts : Tables} (h : Passes table k ws ts) :
    (after ws ts).row? table k = ts.row? table k := by
  induction ws generalizing ts with
  | nil => rfl
  | cons w ws ih =>
    refine (ih h.2).trans ?_
    obtain ⟨e, -, hsame⟩ | ⟨_, _, _, _, _, _, hok, _⟩ := w.2.run_cases w.1 ts
    · exact hsame table k
    · exact RowWrite.row?_run (h.1 (by rw [hok]; rfl))

theorem BatchWrite.contains_after (ws : List (String × RowWrite)) (ts : Tables) (other : String) :
    SortedMap.contains (after ws ts) other = ts.contains other :=
  kept_after (f := (·.contains other)) (fun w name _ => w.contains_run name other) ws ts

/-- What is read right behind a write, or where its row is still the same. -/
theorem RowWrite.exists_read {w : RowWrite} (hw : w.returnType = .afterModify) {table : String}
    {ts : Tables} {out : RowWritten} (hok : (w.run table ts).1 = .ok out) :
    ∃ t k, ts.get? table = some t ∧ w.place t = .ok k ∧
      ∀ s : Store, s.tables.contains table = SortedMap.contains ts table →
        s.row? table k = (w.run table ts).2.row? table k →
        ∃ read, s.getRow (w.readBack table t) = .ok read ∧
          (out.row = read.row ↔ w.ReturnsLeft t) := by
  obtain ⟨e, herror, -⟩ | ⟨t, k, row, ht, hk, hleaves, hout, hrow⟩ := w.run_cases table ts
  · rw [hok] at herror
    cases herror
  · obtain rfl := Except.ok.inj (hok.symm.trans hout)
    refine ⟨t, k, ht, hk, fun s htable hsame => ?_⟩
    obtain ⟨t', ht'⟩ : ∃ t', s.tables.get? table = some t' := by
      rw [← Option.isSome_iff_exists]
      exact htable.trans (by rw [SortedMap.contains, ht, Option.isSome_some])
    refine ⟨_, Store.getRow_of_place rfl rfl ht' ((w.place_eq t).symm.trans hk), ?_⟩
    have hrow' : t'.rows.get? k = row := by
      rw [← Store.row?_of_get? ht']
      exact hsame.trans hrow
    rw [hrow']
    exact returned_eq_iff hw hk hleaves

namespace Store

/-- **When a write returns the row that it leaves.** A write of a row that is in no transaction and
succeeds returns, when it is asked for the row after it, what a read of the columns that it is asked
for finds right behind it under the key that it has written: exactly if it is an update, a put whose
columns are all asked for, or the delete of a row that was not there. The same holds of a row of a
batch that is neither atomic nor in a transaction, if no later row of the batch is written at the
same place. -/
theorem returned_exact (s : Store) :
    (∀ (w : Write) (table : String) (row : RowWrite), w.single? = some (table, row) →
      w.transaction? = none → row.returnType = .afterModify →
      ∀ answer, (s.answer w.request).1 = .ok answer →
        ∃ out t read, answer = .rowWritten out ∧ s.tables.get? table = some t ∧
          (s.answer w.request).2.getRow (row.readBack table t) = .ok read ∧
          (out.row = read.row ↔ row.ReturnsLeft t)) ∧
    ∀ b : BatchWrite, b.transaction = none → b.isAtomic ≠ some true →
      ∃ out, (s.answer (.batchWrite b)).1 = .ok (.batchWritten out) ∧
        ∀ l table row r, BatchWrite.rowsOf b.tables = l ++ (table, row) :: r →
          row.returnType = .afterModify →
          (∀ t k, (BatchWrite.after l s.tables).get? table = some t → row.place t = .ok k →
            BatchWrite.Passes table k r (row.run table (BatchWrite.after l s.tables)).2) →
          ∀ o, out.rows[l.length]? = some o → o.isOk = true →
            ∃ t read, (BatchWrite.after l s.tables).get? table = some t ∧
              (s.answer (.batchWrite b)).2.getRow (row.readBack table t) = .ok read ∧
              (o.row = read.row ↔ row.ReturnsLeft t) := by
  constructor
  · intro w table row hw hfree hreturn answer hanswer
    obtain rfl := Write.eq_alone hw hfree
    rw [answer_alone] at hanswer ⊢
    obtain ⟨out, hout, rfl⟩ := map_eq_ok.1 hanswer
    obtain ⟨t, k, ht, -, hread⟩ := RowWrite.exists_read hreturn hout
    obtain ⟨read, hget, hiff⟩ := hread { s with tables := (row.run table s.tables).2 }
      (row.contains_run table table) rfl
    exact ⟨out, t, read, rfl, ht, hget, hiff⟩
  · intro b hfree hatomic
    obtain ⟨out, hanswer, -, hrows⟩ := s.answer_batchWrite hfree hatomic
    rw [hanswer]
    refine ⟨out, rfl, fun l table row r hsplit hreturn hpasses o ho hok => ?_⟩
    rw [hsplit] at hrows ⊢
    obtain rfl : RowOutcome.report (row.run table (BatchWrite.after l s.tables)).1 = o := by
      rw [hrows, List.getElem?_map, BatchWrite.getElem?_answers] at ho
      exact Option.some.inj ho
    cases hrun : (row.run table (BatchWrite.after l s.tables)).1 with
    | error e =>
      rw [hrun] at hok
      cases hok
    | ok written =>
      obtain ⟨t, k, ht, hk, hread⟩ := RowWrite.exists_read hreturn hrun
      have htable : SortedMap.contains (BatchWrite.after (l ++ (table, row) :: r) s.tables) table =
          (BatchWrite.after l s.tables).contains table := by
        rw [BatchWrite.after_append, BatchWrite.contains_after]
      have hsame : Tables.row? (BatchWrite.after (l ++ (table, row) :: r) s.tables) table k =
          Tables.row? (row.run table (BatchWrite.after l s.tables)).2 table k := by
        rw [BatchWrite.after_append]
        exact BatchWrite.row?_after_of_passes (hpasses t k ht hk)
      obtain ⟨read, hget, hiff⟩ := hread { s with
        tables := BatchWrite.after (l ++ (table, row) :: r) s.tables } htable hsame
      exact ⟨t, read, ht, hget, hiff⟩

/-- An update of a row that is asked for one column of it. -/
def countUp : UpdateRow where
  table := "t"
  key := [⟨"id", .integer 1⟩]
  updates := { increment := some [{ column := "n", value := some (.integer 2) }] }
  returnType := .afterModify
  returnColumns := ["n"]

/-- A row of a batch that is put and asked for some columns. -/
def putOf (n : Int64) (columns : List String) : RowWrite where
  kind := .put
  key := [⟨"id", .integer n⟩]
  cells := [⟨"a", .integer 1, none⟩, ⟨"b", .integer 2, none⟩]
  returnType := .afterModify
  returnColumns := columns

/-- The update returns what is read behind it, and so does the first row of a batch whose second row
is another one. -/
theorem returned_countUp :
    (∃ out t read, ((withRows [.integer 1]).answer (.updateRow countUp)).1 =
        .ok (.rowWritten out) ∧ (withRows [.integer 1]).tables.get? "t" = some t ∧
      ((withRows [.integer 1]).answer (.updateRow countUp)).2.getRow
        { table := "t", key := [⟨"id", .integer 1⟩], columns := ["n"] } = .ok read ∧
      out.row = read.row) ∧
    ∃ out t read, ((withRows []).answer (.batchWrite
        { tables := [⟨"t", [putOf 1 ["b", "a"], putOf 2 []]⟩] })).1 = .ok (.batchWritten out) ∧
      (withRows []).tables.get? "t" = some t ∧
      ((withRows []).answer (.batchWrite
        { tables := [⟨"t", [putOf 1 ["b", "a"], putOf 2 []]⟩] })).2.getRow
        ((putOf 1 ["b", "a"]).readBack "t" t) = .ok read ∧
      (out.rows[0]?).bind (·.row) = read.row := by
  constructor
  · obtain ⟨out, t, read, hout, ht, hread, hiff⟩ := (returned_exact (withRows [.integer 1])).1
      (.update countUp) "t" _ rfl rfl rfl _ rfl
    exact ⟨out, t, read, congrArg Except.ok hout, ht, hread, hiff.2 trivial⟩
  · have hplace (t t' : Table) (k : SortKey) (hk : (putOf 1 ["b", "a"]).place t = .ok k) :
        (putOf 2 []).place t' ≠ .ok k := by
      obtain rfl : [.integer 1] = k := Except.ok.inj hk
      intro hk'
      have hnumber := KeyPart.integer.inj (List.cons.inj (Except.ok.inj hk')).1
      exact absurd hnumber (by decide)
    obtain ⟨out, hanswer, hrows⟩ := (returned_exact (withRows [])).2
      { tables := [⟨"t", [putOf 1 ["b", "a"], putOf 2 []]⟩] } rfl nofun
    obtain rfl := Response.batchWritten.inj (Except.ok.inj hanswer)
    obtain ⟨t, read, ht, hread, hiff⟩ := hrows [] "t" (putOf 1 ["b", "a"]) [("t", putOf 2 [])] rfl
      rfl (fun t k _ hk => ⟨fun _ _ t' _ => hplace t t' k hk, trivial⟩) _ rfl rfl
    exact ⟨_, t, read, hanswer, ht, hread, hiff.2 (.inr (by decide))⟩

/-- A delete returns a row that is gone, and a put in a batch cells of columns that it is not asked
for. -/
theorem not_returned_of_write :
    (¬ ∀ (s : Store) (w : Write) (table : String) (row : RowWrite) (t : Table) (out : RowWritten)
        (read : RowRead), s.Reachable → w.single? = some (table, row) → w.transaction? = none →
      row.returnType = .afterModify → s.tables.get? table = some t →
      (s.answer w.request).1 = .ok (.rowWritten out) →
      (s.answer w.request).2.getRow (row.readBack table t) = .ok read → out.row = read.row) ∧
    ¬ ∀ (s : Store) (b : BatchWrite) (table : String) (row : RowWrite) (t : Table)
        (out : BatchWritten) (read : RowRead), s.Reachable → b.transaction = none →
      b.isAtomic ≠ some true → BatchWrite.rowsOf b.tables = [(table, row)] →
      row.returnType = .afterModify → s.tables.get? table = some t →
      (s.answer (.batchWrite b)).1 = .ok (.batchWritten out) →
      (s.answer (.batchWrite b)).2.getRow (row.readBack table t) = .ok read →
      out.rows.map (·.row) = [read.row] := by
  constructor
  · intro h
    have hrow := h (withRows [.integer 1])
      (.delete { table := "t", key := [⟨"id", .integer 1⟩], returnType := .afterModify }) "t" _ _
      _ _ (.after (.new _) _) rfl rfl rfl rfl rfl rfl
    cases hrow
  · intro h
    have hrow := h (withRows []) { tables := [⟨"t", [putOf 1 ["a"]]⟩] } "t" _ _ _ _
      (.after (.new _) _) rfl nofun rfl rfl rfl rfl rfl
    have hlength := congrArg (List.map (Option.map (·.cells.length))) hrow
    exact absurd hlength (by decide)

end Store

end WideColumn
