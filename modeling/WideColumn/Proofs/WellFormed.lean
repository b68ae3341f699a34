import WideColumn.Proofs.Counter
import WideColumn.Proofs.Settings

/-!
# Well-formed stores

Requests take it for granted that a store is put together rightly: that the row at a place has the
key that leads there, that a table knows its own name, and that a commit finds nothing but writes
that are to be made at once. Nothing checks this when it is relied upon. It holds because every
request keeps it, those included that put back what they have changed (`Store.WellFormed.answer`).

* `Table.kept_wellFormed` : writes of single rows keep a table well-formed;
* `Store.answer_detached` : a write that names no transaction changes the tables only;
* `Store.WellFormed.commit_eq` : a commit answers the requests that it has held back one after the
  other, as if they came in anew;
* `Store.Reachable.wellFormed` : all of this of every reachable store.
-/

namespace WideColumn

/-! ### Tables -/

/-- A table as it may stand in a store under a name. -/
structure Table.WellFormed (name : String) (t : Table) : Prop where
  /-- The name is its own. -/
  named : t.tableMeta.name = name
  /-- Every row is stored under the sort key of its own key. -/
  placed : t.Placed
  /-- The next number to allocate is positive. -/
  counter : 1 ≤ t.nextAuto

namespace Table

theorem WellFormed.create (r : CreateTable) :
    WellFormed r.table { tableMeta := r.tableMeta } where
  named := rfl
  placed _ _ hget := nomatch hget
  counter := Nat.le_refl 1

/-- An update of the settings leaves the name alone. -/
theorem WellFormed.updated {name : String} {t : Table} (h : t.WellFormed name) (r : UpdateTable) :
    WellFormed name { t with tableMeta := t.tableMeta.updated r } :=
  ⟨h.named, h.placed, h.counter⟩

theorem kept_wellFormed : Kept fun name t => t.WellFormed name where
  put name t r h :=
    { named := by rw [t.tableMeta_put, h.named]
      placed := kept_placed.put name t r h.placed
      counter := by
        rw [t.nextAuto_put]
        exact Nat.le_add_right_of_le h.counter }
  update name t r h :=
    { named := by rw [t.tableMeta_update, h.named]
      placed := kept_placed.update name t r h.placed
      counter := by
        rw [t.nextAuto_update]
        exact h.counter }
  delete name t r h :=
    { named := by rw [t.tableMeta_delete, h.named]
      placed := kept_placed.delete name t r h.placed
      counter := by
        rw [t.nextAuto_delete]
        exact h.counter }

/-- No placeholder is left in the key of a row that has its place. -/
theorem Placed.ne_autoIncrement {t : Table} (h : t.Placed) {k : SortKey} {row : Row}
    (hget : t.rows.get? k = some row) : ∀ c ∈ row.key, c.value ≠ .autoIncrement :=
  Key.exists_sortKey_iff.1 ⟨k, h k row hget⟩

end Table

namespace Store

/-! ### Stores -/

/-- The tables are well-formed under their names, and what transactions hold back names no
transaction. -/
structure WellFormed (s : Store) : Prop where
  /-- The tables are well-formed. -/
  tables : s.tables.All fun name t => t.WellFormed name
  /-- A write that is held back names no transaction. -/
  detached : ∀ id t, s.transactions.get? id = some t → ∀ w ∈ t.staged, w.transaction? = none

namespace WellFormed

variable {s : Store}

theorem new (ids : Nat → String) : WellFormed { ids } where
  tables _ _ hget := nomatch hget
  detached _ _ hget := nomatch hget

/-- Every request leaves a well-formed store well-formed. -/
theorem answer (h : s.WellFormed) (r : Request) : (s.answer r).2.WellFormed where
  tables := by
    -- Whatever rows a request supplies, they are stored where they belong.
    have hs : s.Invariant (fun _ => True) fun name t => t.WellFormed name :=
      ⟨h.tables, fun _ _ _ _ _ _ _ => trivial⟩
    exact (hs.answer Table.kept_wellFormed.keptFor Table.WellFormed.create
      (fun _ _ r ht => ht.updated r) r fun _ _ => trivial).tables
  detached := by
    obtain heq | ⟨id, heq⟩ | ⟨id, table, heq⟩ | ⟨id, t, w, ht, -, heq⟩ := s.transactions_answer r
    · rw [heq]
      exact h.detached
    · rw [heq]
      exact SortedMap.forall_erase h.detached id
    · rw [heq]
      exact SortedMap.forall_insert h.detached (List.forall_mem_nil _)
    · rw [heq]
      refine SortedMap.forall_insert h.detached (List.forall_mem_append.2 ⟨h.detached id t ht, ?_⟩)
      exact List.forall_mem_singleton.2 w.transaction?_detached

end WellFormed

/-! ### Commits -/

/-- A write that names no transaction is made at once and changes the tables only. -/
theorem answer_detached (s : Store) {w : Write} (h : w.transaction? = none) :
    s.answer w.request = ((w.run s.tables).1, { s with tables := (w.run s.tables).2 }) := by
  rw [answer_request, write, h]
  rfl

/-- Answer requests one after the other until one is refused. -/
def answerAll (s : Store) : List Request → Except ServiceError Store
  | [] => .ok s
  | r :: rs =>
    match s.answer r with
    | (.ok _, s) => answerAll s rs
    | (.error e, _) => .error e

/-- Writes that name no transaction are made as requests of their own. -/
theorem answerAll_request (s : Store) {ws : List Write} (h : ∀ w ∈ ws, w.transaction? = none) :
    s.answerAll (ws.map (·.request)) =
      (Write.runAll ws s.tables).map fun tables => { s with tables } := by
  induction ws generalizing s with
  | nil => rfl
  | cons w ws ih =>
    obtain ⟨hw, hws⟩ := List.forall_mem_cons.1 h
    rw [List.map_cons, answerAll, s.answer_detached hw, Write.runAll]
    cases hrun : w.run s.tables with
    | mk answer ts =>
      cases answer with
      | error e => rfl
      | ok a => exact ih _ hws

/-- A commit closes the transaction and then answers the requests that were held back, as they
came in but for the transaction. If one is refused, so is the commit, and only the transaction is
closed. -/
theorem WellFormed.commit_eq {s : Store} (h : s.WellFormed) {id : String} {t : Transaction}
    (ht : s.transactions.get? id = some t) :
    s.answer (.commitTransaction ⟨id⟩) =
      match answerAll { s with transactions := s.transactions.erase id }
          (t.staged.map (·.request)) with
      | .ok s' => (.ok (.transactionCommitted {}), s')
      | .error e => (.error e, { s with transactions := s.transactions.erase id }) := by
  have hcommit : s.answer (.commitTransaction ⟨id⟩) =
      (s.commit ⟨id⟩).map (·.map .transactionCommitted) fun s => s := rfl
  rw [hcommit, commit, ht, answerAll_request _ (h.detached id t ht)]
  dsimp only
  cases Write.runAll t.staged s.tables <;> rfl

/-- **Reachable stores are well-formed.**  In every reachable store a table is stored under its own
name, its counter is positive, and a row is stored under the sort key of its own key, which holds
no placeholder. What an open transaction holds back names no transaction, so that each of these
writes, whenever it is made, changes the tables only and is never held back again; and the commit
answers them as requests, one after the other. -/
theorem Reachable.wellFormed {s : Store} (hs : s.Reachable) :
    s.WellFormed ∧
    (∀ name t k row, s.tables.get? name = some t → t.rows.get? k = some row →
      row.key.sortKey = .ok k ∧ ∀ c ∈ row.key, c.value ≠ .autoIncrement) ∧
    ∀ id t, s.transactions.get? id = some t →
      (∀ w ∈ t.staged, ∀ s' : Store, s'.answer w.request =
        ((w.run s'.tables).1, { s' with tables := (w.run s'.tables).2 })) ∧
      s.answer (.commitTransaction ⟨id⟩) =
        match answerAll { s with transactions := s.transactions.erase id }
            (t.staged.map (·.request)) with
        | .ok s' => (.ok (.transactionCommitted {}), s')
        | .error e => (.error e, { s with transactions := s.transactions.erase id }) := by
  have h : s.WellFormed := by
    induction hs with
    | new ids => exact .new ids
    | answer _ r ih => exact ih.answer r
  refine ⟨h, fun name t k row ht hget => ?_, fun id t ht => ⟨fun w hw s' => ?_, h.commit_eq ht⟩⟩
  · have hplaced := (h.tables name t ht).placed
    exact ⟨hplaced k row hget, hplaced.ne_autoIncrement hget⟩
  · exact s'.answer_detached (h.detached id t ht w hw)

/-- A request for each kind of write of row 1, in the transaction of an id or in none. -/
def rowOne (transaction : Option String) : List Request :=
  [.putRow { table := "t", key := [⟨"id", .integer 1⟩], transaction },
    .updateRow { table := "t", key := [⟨"id", .integer 1⟩], transaction },
    .deleteRow { table := "t", key := [⟨"id", .integer 1⟩], transaction },
    .batchWrite { tables := [⟨"t", [newRow 1]⟩], transaction }]

/-- A table with a row that was given its number, and a transaction that holds back a write of each
kind. -/
def holdingEach : Store :=
  after {} (.createTable { table := "t", keys := [] } ::
    .putRow { table := "t", key := [⟨"id", .autoIncrement⟩] } ::
    .startTransaction { table := "t", key := ⟨"id", .integer 1⟩ } :: rowOne (some ":0:"))

/-- The store is well-formed, and its commit makes the writes as requests without a transaction. -/
theorem wellFormed_holdingEach :
    holdingEach.WellFormed ∧ ∃ s', answerAll { holdingEach with transactions := .empty }
        (rowOne none) = .ok s' ∧
      holdingEach.answer (.commitTransaction ⟨":0:"⟩) = (.ok (.transactionCommitted {}), s') := by
  have ht : holdingEach.transactions.get? ":0:" = some _ := rfl
  obtain ⟨h, -, hcommit⟩ := Reachable.wellFormed (s := holdingEach) (.after (.new _) _)
  exact ⟨h, _, rfl, (hcommit ":0:" _ ht).2⟩

end Store

end WideColumn
