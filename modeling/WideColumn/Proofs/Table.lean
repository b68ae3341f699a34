import WideColumn.Proofs.Result
import WideColumn.Proofs.SortedMap
import WideColumn.Store.Basic

/-!
# What requests do to tables

Everything that a write of one row can do, said once for each kind of write, and the same for
requests about whole tables. Proofs about tables take the cases from here.

* `Table.put_cases`, `Table.update_cases`, `Table.delete_cases` : the write fails, or it changes
  the one row at the sort key of the row's own key;
* `Store.answer_updateRow_cases` : the same for an update outside a transaction, up to its answer;
* `Store.createTable_cases`, `Store.updateTable_cases`, `Store.deleteTable_cases` : the request is
  refused, or it changes the one table that it names.
-/

namespace WideColumn

/-! ### Keys -/

theorem Key.sortKey_cons_eq_ok {c : KeyColumn} {key : Key} {k : SortKey} :
    Key.sortKey (c :: key) = .ok k ↔
      ∃ p ps, c.value.sortPart = .ok p ∧ key.sortKey = .ok ps ∧ k = p :: ps := by
  exact mapM_cons_eq_ok

/-! ### Changes of rows -/

namespace Row

theorem addOperand_key {row row' : Row} {o : ColumnOperand} (h : row.addOperand o = .ok row') :
    row'.key = row.key := by
  unfold addOperand at h
  split at h
  · cases h
  · obtain ⟨current, -, h⟩ := bind_eq_ok.1 h
    rw [← pure_eq_ok.1 h]
    rfl

theorem change_key {row row' : Row} {c : UpdateKind × ColumnOperand}
    (h : row.change c = .ok row') : row'.key = row.key := by
  obtain ⟨kind, o⟩ := c
  cases kind with
  | put =>
    simp only [change, putOperand] at h
    split at h
    · cases h
    · rw [← Except.ok.inj h]
      rfl
  | delete =>
    rw [← Except.ok.inj h, dropCell]
    split <;> rfl
  | deleteAll =>
    rw [← Except.ok.inj h]
    rfl
  | increment => exact addOperand_key h

/-- An update keeps the key of the row. -/
theorem update_key {row row' : Row} {u : UpdateSet} (h : row.update u = .ok row') :
    row'.key = row.key := by
  -- The changes are made one after the other, and each keeps the key.
  exact foldlM_invariant (P := fun row' => row'.key = row.key)
    (fun _ _ _ _ h₁ h₂ => (change_key h₂).trans h₁) rfl h

end Row

/-! ### Writes of rows -/

namespace Table

theorem target_eq_ok {t : Table} {key : Key} {c : Condition} {k : SortKey} :
    t.target key c = .ok k ↔ key.sortKey = .ok k ∧ c.check (t.rows.get? k) = .ok () := by
  rw [target, bind_eq_ok]
  constructor
  · rintro ⟨k', hk, h⟩
    obtain ⟨u, hc, h⟩ := bind_eq_ok.1 h
    obtain rfl := pure_eq_ok.1 h
    exact ⟨hk, hc⟩
  · rintro ⟨hk, hc⟩
    exact ⟨k, hk, bind_eq_ok.2 ⟨(), hc, rfl⟩⟩

/-- The key under which a put stores its row. -/
def putKey (t : Table) (r : PutRow) : Key := (r.key.allocate t.nextAuto).1

/-- The table after the numbers for a put have been allocated. -/
def allocated (t : Table) (r : PutRow) : Table :=
  { t with nextAuto := (r.key.allocate t.nextAuto).2 }

/-- A put allocates its numbers; then it fails, or stores its row at the place of the row's key. -/
theorem put_cases (t : Table) (r : PutRow) :
    (∃ e, t.put r = (.error e, t.allocated r)) ∨
    ∃ k, (t.putKey r).sortKey = .ok k ∧ r.condition.check (t.rows.get? k) = .ok () ∧
      t.put r = (.ok (written (Row.returned ⟨t.putKey r, r.cells⟩ [] r.returnType)),
        { t.allocated r with rows := t.rows.insert k ⟨t.putKey r, r.cells⟩ }) := by
  cases h : (t.allocated r).target (t.putKey r) r.condition with
  | error e =>
    refine .inl ⟨e, ?_⟩
    rw [allocated, putKey] at h
    rw [put]
    dsimp only
    rw [h]
    rfl
  | ok k =>
    obtain ⟨hk, hc⟩ := target_eq_ok.1 h
    refine .inr ⟨k, hk, hc, ?_⟩
    rw [allocated, putKey] at h
    rw [put]
    dsimp only
    rw [h]
    rfl

/-- What an update starts from at a place: the row there, or an empty one. -/
def existing (t : Table) (key : Key) (k : SortKey) : Row := (t.rows.get? k).getD { key }

theorem updatedRow_eq_ok {t : Table} {r : UpdateRow} {k : SortKey} {row : Row} :
    t.updatedRow r = .ok (k, row) ↔
      t.tableMeta.options.allowUpdate ≠ some false ∧ r.key.sortKey = .ok k ∧
      r.condition.check (t.rows.get? k) = .ok () ∧
      (t.existing r.key k).update r.updates = .ok row := by
  unfold updatedRow
  by_cases ha : t.tableMeta.options.allowUpdate = some false
  · simp [ha, throw, throwThe, MonadExceptOf.throw, bind, Except.bind]
  · simp only [ha, if_false, ne_eq, not_false_eq_true, true_and]
    constructor
    · intro h
      obtain ⟨k', hk, h⟩ := bind_eq_ok.1 h
      obtain ⟨row', hrow, h⟩ := bind_eq_ok.1 h
      obtain ⟨rfl, rfl⟩ := Prod.mk.inj (pure_eq_ok.1 h)
      exact ⟨(target_eq_ok.1 hk).1, (target_eq_ok.1 hk).2, hrow⟩
    · rintro ⟨hk, hc, hrow⟩
      exact bind_eq_ok.2 ⟨k, target_eq_ok.2 ⟨hk, hc⟩, bind_eq_ok.2 ⟨row, hrow, rfl⟩⟩

/-- An update fails and leaves the table alone, or stores the changed row where it was. -/
theorem update_cases (t : Table) (r : UpdateRow) :
    (∃ e, t.update r = (.error e, t)) ∨
    ∃ k row, r.key.sortKey = .ok k ∧ r.condition.check (t.rows.get? k) = .ok () ∧
      (t.existing r.key k).update r.updates = .ok row ∧
      t.update r = (.ok (written (row.returned r.returnColumns r.returnType)),
        { t with rows := t.rows.insert k row }) := by
  cases h : t.updatedRow r with
  | error e => exact .inl ⟨e, by rw [update, h]⟩
  | ok p =>
    obtain ⟨-, hk, hc, hrow⟩ := updatedRow_eq_ok.1 h
    exact .inr ⟨p.1, p.2, hk, hc, hrow, by rw [update, h]⟩

/-- A delete fails and leaves the table alone, or drops the row at the place of its key. -/
theorem delete_cases (t : Table) (r : DeleteRow) :
    (∃ e, t.delete r = (.error e, t)) ∨
    ∃ k, r.key.sortKey = .ok k ∧ r.condition.check (t.rows.get? k) = .ok () ∧
      t.delete r = (.ok (written ((t.rows.get? k).bind fun row => row.returned [] r.returnType)),
        { t with rows := t.rows.erase k }) := by
  cases h : t.target r.key r.condition with
  | error e => exact .inl ⟨e, by rw [delete, h]⟩
  | ok k =>
    obtain ⟨hk, hc⟩ := target_eq_ok.1 h
    exact .inr ⟨k, hk, hc, by rw [delete, h]⟩

/-- Of a table, a put changes the rows and the counter. -/
theorem exists_rows_put (t : Table) (r : PutRow) :
    ∃ rows, (t.put r).2 = { t.allocated r with rows } := by
  obtain ⟨e, hput⟩ | ⟨k, -, -, hput⟩ := t.put_cases r
  · exact ⟨t.rows, by rw [hput]; rfl⟩
  · exact ⟨_, by rw [hput]⟩

/-- Of a table, an update changes the rows. -/
theorem exists_rows_update (t : Table) (r : UpdateRow) :
    ∃ rows, (t.update r).2 = { t with rows } := by
  obtain ⟨e, hupdate⟩ | ⟨k, row, -, -, -, hupdate⟩ := t.update_cases r
  · exact ⟨t.rows, by rw [hupdate]⟩
  · exact ⟨_, by rw [hupdate]⟩

/-- Of a table, a delete changes the rows. -/
theorem exists_rows_delete (t : Table) (r : DeleteRow) :
    ∃ rows, (t.delete r).2 = { t with rows } := by
  obtain ⟨e, hdelete⟩ | ⟨k, -, -, hdelete⟩ := t.delete_cases r
  · exact ⟨t.rows, by rw [hdelete]⟩
  · exact ⟨_, by rw [hdelete]⟩

end Table

theorem Tables.find_eq_ok {ts : Tables} {name : String} {t : Table} :
    ts.find name = .ok t ↔ ts.get? name = some t := by
  unfold find
  cases ts.get? name <;> simp

theorem Tables.act_of_get? {α : Type} {ts : Tables} {name : String} {t : Table}
    (ht : ts.get? name = some t) (action : Table → Except ServiceError α × Table) :
    ts.act name action = ((action t).1, SortedMap.insert ts name (action t).2) := by
  rw [act, ht]

/-! ### Requests about tables and transactions -/

namespace Store

/-- A creation is refused, or makes a table where there was none. -/
theorem createTable_cases (s : Store) (r : CreateTable) :
    (∃ e, s.createTable r = (.error e, s)) ∨
    s.tables.get? r.table = none ∧ s.createTable r =
      (.ok {}, { s with tables := s.tables.insert r.table { tableMeta := r.tableMeta } }) := by
  unfold createTable
  split
  · exact .inl ⟨_, rfl⟩
  · next hnew => exact .inr ⟨by simpa [SortedMap.contains] using hnew, rfl⟩

/-- An update of a table is refused, or changes its settings. -/
theorem updateTable_cases (s : Store) (r : UpdateTable) :
    (∃ e, s.updateTable r = (.error e, s)) ∨
    ∃ t, s.tables.get? r.table = some t ∧ s.updateTable r =
      (.ok ⟨some (t.tableMeta.updated r)⟩, { s with
        tables := s.tables.insert r.table { t with tableMeta := t.tableMeta.updated r } }) := by
  unfold updateTable Tables.act
  cases ht : s.tables.get? r.table with
  | none => exact .inl ⟨_, rfl⟩
  | some t => exact .inr ⟨t, rfl, rfl⟩

/-- A deletion is refused, or drops a table. -/
theorem deleteTable_cases (s : Store) (r : DeleteTable) :
    (∃ e, s.deleteTable r = (.error e, s)) ∨
    (∃ t, s.tables.get? r.table = some t) ∧
      s.deleteTable r = (.ok {}, { s with tables := s.tables.erase r.table }) := by
  unfold deleteTable
  split
  · next h => exact .inr ⟨Option.isSome_iff_exists.1 h, rfl⟩
  · exact .inl ⟨_, rfl⟩

@[simp] theorem tables_startTransaction (s : Store) (r : StartTransaction) :
    (s.startTransaction r).2.tables = s.tables := by
  unfold startTransaction
  split <;> rfl

@[simp] theorem tables_abort (s : Store) (r : AbortTransaction) :
    (s.abort r).2.tables = s.tables := by
  unfold abort
  split <;> rfl

/-! ### Updates of rows -/

theorem answer_updateRow (s : Store) {r : UpdateRow} (h : r.transaction = none) :
    s.answer (.updateRow r) =
      ((s.tables.act r.table (·.update r)).1.map .rowWritten,
        { s with tables := (s.tables.act r.table (·.update r)).2 }) := by
  change s.write (.update r) = _
  rw [write, show (Write.update r).transaction? = none from h]
  rfl

/-- An update outside of a transaction is refused, or stores the changed row where it was. -/
theorem answer_updateRow_cases (s : Store) {r : UpdateRow} (h : r.transaction = none) :
    (∃ e, s.answer (.updateRow r) = (.error e, s)) ∨
    ∃ t k row w, s.tables.get? r.table = some t ∧ r.key.sortKey = .ok k ∧
      r.condition.check (t.rows.get? k) = .ok () ∧
      (t.existing r.key k).update r.updates = .ok row ∧
      s.answer (.updateRow r) = (.ok (.rowWritten w),
        { s with tables := s.tables.insert r.table { t with rows := t.rows.insert k row } }) := by
  rw [s.answer_updateRow h]
  cases ht : s.tables.get? r.table with
  | none =>
    rw [Tables.act, ht]
    exact .inl ⟨_, rfl⟩
  | some t =>
    have hact : s.tables.act r.table (·.update r) =
        ((t.update r).1, s.tables.insert r.table (t.update r).2) := by
      rw [Tables.act, ht]
    rw [hact]
    obtain ⟨e, hupdate⟩ | ⟨k, row, hk, hcheck, hrow, hupdate⟩ := t.update_cases r
    · rw [hupdate, SortedMap.insert_eq_self ht]
      exact .inl ⟨e, rfl⟩
    · rw [hupdate]
      exact .inr ⟨t, k, row, _, rfl, hk, hcheck, hrow, rfl⟩

end Store

end WideColumn
