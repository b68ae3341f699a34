import WideColumn.Proofs.Binding
import WideColumn.Proofs.SharedScan

/-!
# Rows that requests leave alone

A write concerns the rows at the places of its keys, and a commit those of the writes that were
held back (`Request.Spares`). Where the placeholders of a key are to be replaced, or a batch has
several rows, a place is known only when its turn comes.

* `Store.kept_write`, `Store.kept_commit` : what is the same of the tables after each write of a row
  is the same after each write and each commit;
* `Store.row?_answer` : a request that spares a row leaves it as it is;
* `Cluster.row?_submit`, `Cluster.row?_scan` : so does one that is sent to a server, and any request
  for a page of a range.
-/

namespace WideColumn

/-! ### Places -/

/-- The place of a row that is to be written. Only a put replaces the placeholders of its key. -/
def RowWrite.place (w : RowWrite) (t : Table) : Except ServiceError SortKey :=
  match w.kind with
  | .put => (w.key.allocate t.nextAuto).1.sortKey
  | .update | .delete => w.key.sortKey

/-- The rows that a write is to write, each with its table. -/
def Write.rows : Write → List (String × RowWrite)
  | put r => [(r.table,
      { kind := .put, key := r.key, cells := r.cells, condition := r.condition
        returnType := r.returnType })]
  | update r => [(r.table,
      { kind := .update, key := r.key, updates := r.updates, condition := r.condition
        returnType := r.returnType, returnColumns := r.returnColumns })]
  | delete r => [(r.table,
      { kind := .delete, key := r.key, condition := r.condition, returnType := r.returnType })]
  | batch b => BatchWrite.rowsOf b.tables

/-- The row that is stored under a sort key in a table. -/
def Tables.row? (ts : Tables) (table : String) (k : SortKey) : Option Row :=
  (ts.get? table).bind (·.rows.get? k)

section Spares

variable (table : String) (k : SortKey)

/-- A row is written in a table of some name, but not at this place of this table. -/
def RowWrite.Spares (w : RowWrite) (name : String) (ts : Tables) : Prop :=
  name = table → ∀ t, ts.get? table = some t → w.place t ≠ .ok k

/-- Of rows written one after the other, none is written at this place. -/
def BatchWrite.Spares : List (String × RowWrite) → Tables → Prop
  | [], _ => True
  | w :: ws, ts => w.2.Spares table k w.1 ts ∧ Spares ws (w.2.run w.1 ts).2

/-- A write has no row at this place. -/
def Write.Spares (w : Write) (ts : Tables) : Prop := BatchWrite.Spares table k w.rows ts

/-- A request to a store does not write a row at this place, and does not delete the table. What
it asks to hold back is not written. -/
structure Request.Spares (r : Request) (s : Store) : Prop where
  /-- A write does not. -/
  write : ∀ w, r.write? = some w → w.transaction? = none → w.Spares table k s.tables
  /-- The writes held back for a transaction do not when they are made. -/
  commit : ∀ c t, r = .commitTransaction c → s.transactions.get? c.transaction = some t →
    Write.InTurn (Write.Spares table k) t.staged s.tables
  /-- The table is not the one that is deleted. -/
  delete : ∀ d, r = .deleteTable d → d.table ≠ table

end Spares

variable {table : String} {k : SortKey}

namespace Table

theorem get?_put {t : Table} {r : PutRow} (h : (t.putKey r).sortKey ≠ .ok k) :
    (t.put r).2.rows.get? k = t.rows.get? k := by
  obtain ⟨e, hput⟩ | ⟨k', hk', -, hput⟩ := t.put_cases r
  · rw [hput]
    rfl
  · rw [hput]
    exact SortedMap.get?_insert_of_ne _ _ fun heq => h (heq ▸ hk')

theorem get?_update {t : Table} {r : UpdateRow} (h : r.key.sortKey ≠ .ok k) :
    (t.update r).2.rows.get? k = t.rows.get? k := by
  obtain ⟨e, hupdate⟩ | ⟨k', row, hk', -, -, hupdate⟩ := t.update_cases r
  · rw [hupdate]
  · rw [hupdate]
    exact SortedMap.get?_insert_of_ne _ _ fun heq => h (heq ▸ hk')

theorem get?_delete {t : Table} {r : DeleteRow} (h : r.key.sortKey ≠ .ok k) :
    (t.delete r).2.rows.get? k = t.rows.get? k := by
  obtain ⟨e, hdelete⟩ | ⟨k', hk', -, hdelete⟩ := t.delete_cases r
  · rw [hdelete]
  · rw [hdelete]
    exact SortedMap.get?_erase_of_ne _ fun heq => h (heq ▸ hk')

end Table

namespace Tables

variable {ts : Tables}

/-- What leaves a row of its table alone leaves it alone in the tables. -/
theorem row?_act {α : Type} {name : String} (action : Table → Except ServiceError α × Table)
    (h : name = table → ∀ t, ts.get? table = some t →
      (action t).2.rows.get? k = t.rows.get? k) :
    row? (ts.act name action).2 table k = ts.row? table k := by
  have hmap := congrArg (·.bind id) (map_act (·.rows.get? k) action h)
  rwa [Option.bind_map, Option.bind_map] at hmap

/-- What is refused and leaves the rows of its table alone leaves all rows alone. -/
theorem act_failed {α : Type} {name : String} {t t' : Table} {e : ServiceError}
    (action : Table → Except ServiceError α × Table) (ht : ts.get? name = some t)
    (h : action t = (.error e, t')) (hrows : t'.rows = t.rows) :
    (ts.act name action).1 = .error e ∧
      ∀ table k, row? (ts.act name action).2 table k = ts.row? table k := by
  refine ⟨by rw [act_of_get? ht, h], fun table k => row?_act action fun hname u hu => ?_⟩
  subst hname
  obtain rfl := Option.some.inj (ht.symm.trans hu)
  rw [h, hrows]

/-- What is made leaves the rows that it leaves in its table. -/
theorem act_made {α : Type} {name : String} {t t' : Table} {a : α}
    (action : Table → Except ServiceError α × Table) (ht : ts.get? name = some t)
    (h : action t = (.ok a, t')) (k : SortKey) :
    (ts.act name action).1 = .ok a ∧ row? (ts.act name action).2 name k = t'.rows.get? k := by
  rw [act_of_get? ht, h, row?, SortedMap.get?_insert_self]
  exact ⟨rfl, rfl⟩

end Tables

section Writes

variable {ts : Tables}

theorem RowWrite.row?_run {w : RowWrite} {name : String} (h : w.Spares table k name ts) :
    (w.run name ts).2.row? table k = ts.row? table k := by
  obtain ⟨kind, key, cells, updates, condition, returnType, returnColumns⟩ := w
  cases kind with
  | put => exact Tables.row?_act _ fun hname t ht => Table.get?_put (h hname t ht)
  | update => exact Tables.row?_act _ fun hname t ht => Table.get?_update (h hname t ht)
  | delete => exact Tables.row?_act _ fun hname t ht => Table.get?_delete (h hname t ht)

theorem BatchWrite.row?_after {ws : List (String × RowWrite)} (h : Spares table k ws ts) :
    (after ws ts).row? table k = ts.row? table k := by
  induction ws generalizing ts with
  | nil => rfl
  | cons w ws ih => exact (ih h.2).trans (RowWrite.row?_run h.1)

/-- A write leaves the tables as its rows leave them, or as they were. -/
theorem Write.run_rows (w : Write) (ts : Tables) :
    (w.run ts).2 = BatchWrite.after w.rows ts ∨ (w.run ts).2 = ts := by
  cases w with
  | put r | update r | delete r => exact .inl rfl
  | batch b =>
    change (b.run ts).2 = _ ∨ (b.run ts).2 = ts
    rw [BatchWrite.run_eq]
    split
    · exact .inr rfl
    · exact .inl (BatchWrite.runTables_spec b.tables ts).2.2

theorem Write.row?_run {w : Write} (h : w.Spares table k ts) :
    (w.run ts).2.row? table k = ts.row? table k := by
  obtain hrows | hsame := w.run_rows ts
  · rw [hrows]
    exact BatchWrite.row?_after h
  · rw [hsame]

theorem Write.row?_after {ws : List Write} (h : InTurn (Spares table k) ws ts) :
    (after ws ts).row? table k = ts.row? table k := by
  induction ws generalizing ts with
  | nil => rfl
  | cons w ws ih => exact (ih h.2).trans (Write.row?_run h.1)

end Writes

/-! ### Writes that are made -/

namespace RowWrite

/-- What a write leaves at its place of a table, if nothing refuses it. -/
def Leaves (w : RowWrite) (t : Table) (k : SortKey) (row : Option Row) : Prop :=
  match w.kind with
  | .put => row = some { key := (w.key.allocate t.nextAuto).1, cells := w.cells }
  | .update => ∃ updated, (t.existing w.key k).update w.updates = .ok updated ∧ row = some updated
  | .delete => row = none

/-- What a write that is made returns of the row that was there and the row that it leaves. -/
def returned (w : RowWrite) (before after : Option Row) : Option Row :=
  match w.kind with
  | .put => after.bind (·.returned [] w.returnType)
  | .update => after.bind (·.returned w.returnColumns w.returnType)
  | .delete => before.bind (·.returned [] w.returnType)

/-- A write of a row is refused and leaves all rows alone, or it is made at its place. -/
theorem run_cases (w : RowWrite) (name : String) (ts : Tables) :
    (∃ e, (w.run name ts).1 = .error e ∧
      ∀ table k, (w.run name ts).2.row? table k = ts.row? table k) ∨
    ∃ t k row, ts.get? name = some t ∧ w.place t = .ok k ∧ w.Leaves t k row ∧
      (w.run name ts).1 = .ok (Table.written (w.returned (t.rows.get? k) row)) ∧
      (w.run name ts).2.row? name k = row := by
  obtain ⟨kind, key, cells, updates, condition, returnType, returnColumns⟩ := w
  cases hget : ts.get? name with
  | none =>
    refine .inl ⟨.noTable name, ?_⟩
    cases kind <;> simp [run, Tables.act, hget]
  | some t =>
    cases kind with
    | put =>
      obtain ⟨e, hput⟩ | ⟨k, hk, -, hput⟩ :=
        t.put_cases { table := name, key, cells, condition, returnType }
      · exact .inl ⟨e, Tables.act_failed (·.put _) hget hput rfl⟩
      · obtain ⟨hanswer, hrow⟩ := Tables.act_made (·.put _) hget hput k
        exact .inr ⟨t, k, _, rfl, hk, rfl, hanswer,
          hrow.trans (SortedMap.get?_insert_self ..)⟩
    | update =>
      obtain ⟨e, hupdate⟩ | ⟨k, row, hk, -, hrow, hupdate⟩ :=
        t.update_cases { table := name, key, updates, condition, returnType, returnColumns }
      · exact .inl ⟨e, Tables.act_failed (·.update _) hget hupdate rfl⟩
      · obtain ⟨hanswer, hafter⟩ := Tables.act_made (·.update _) hget hupdate k
        exact .inr ⟨t, k, _, rfl, hk, ⟨row, hrow, rfl⟩, hanswer,
          hafter.trans (SortedMap.get?_insert_self ..)⟩
    | delete =>
      obtain ⟨e, hdelete⟩ | ⟨k, hk, -, hdelete⟩ :=
        t.delete_cases { table := name, key, condition, returnType }
      · exact .inl ⟨e, Tables.act_failed (·.delete _) hget hdelete rfl⟩
      · obtain ⟨hanswer, hrow⟩ := Tables.act_made (·.delete _) hget hdelete k
        exact .inr ⟨t, k, none, rfl, hk, rfl, hanswer,
          hrow.trans (SortedMap.get?_erase_self ..)⟩

end RowWrite

/-! ### What no write of a row changes -/

section Kept

variable {β : Type} {f : Tables → β}
  (hf : ∀ (w : RowWrite) (name : String) (ts : Tables), f (w.run name ts).2 = f ts)

include hf

theorem BatchWrite.kept_after (ws : List (String × RowWrite)) (ts : Tables) :
    f (after ws ts) = f ts := by
  induction ws generalizing ts with
  | nil => rfl
  | cons w ws ih => exact (ih _).trans (hf w.2 w.1 ts)

theorem Write.kept_run (w : Write) (ts : Tables) : f (w.run ts).2 = f ts := by
  obtain hrows | hsame := w.run_rows ts
  · rw [hrows, BatchWrite.kept_after hf]
  · rw [hsame]

theorem Write.kept_after (ws : List Write) (ts : Tables) : f (after ws ts) = f ts := by
  induction ws generalizing ts with
  | nil => rfl
  | cons w ws ih => exact (ih _).trans (w.kept_run hf ts)

/-- What no write of a row changes, no write changes, whether it is made or held back. -/
theorem Store.kept_write (s : Store) (w : Write) : f (s.write w).2.tables = f s.tables := by
  unfold write
  cases w.transaction? with
  | none => exact w.kept_run hf s.tables
  | some id => exact congrArg f (s.tables_stage id w.detached)

/-- A commit does not change it, either. -/
theorem Store.kept_commit (s : Store) (r : CommitTransaction) :
    f (s.commit r).2.tables = f s.tables := by
  obtain ⟨-, hs⟩ | ⟨t, -, ⟨-, e, hs⟩ | ⟨-, hs⟩⟩ := s.commit_cases r
  · rw [hs]
  · rw [hs]
  · rw [hs]
    exact Write.kept_after hf t.staged s.tables

end Kept

/-! ### Requests -/

namespace Store

theorem row?_write {s : Store} {w : Write}
    (h : w.transaction? = none → w.Spares table k s.tables) :
    (s.write w).2.row? table k = s.row? table k := by
  unfold write
  split
  · next id _ =>
    obtain ⟨e, hs⟩ | ⟨t, -, hs⟩ := s.stage_cases id w.detached
    · rw [hs]
    · rw [hs]
      rfl
  · next hw => exact Write.row?_run (h hw)

end Store

/-! ### Servers -/

/-- A server refuses a request as it was told to, or answers it from its store. -/
theorem Server.submit_cases (v : Server) (instanceName : String) (r : Request) :
    (∃ err, (v.submit instanceName r).1 = .error err ∧
      (v.submit instanceName r).2.store = v.store) ∨
    ((v.submit instanceName r).1 = (v.store.answer r).1 ∧
      (v.submit instanceName r).2.store = (v.store.answer r).2) := by
  unfold submit receive
  cases v.failNext with
  | none => exact .inr ⟨rfl, rfl⟩
  | some code => exact .inl ⟨_, rfl, rfl⟩

namespace Cluster

theorem row?_of_getElem? {cl : Cluster} {i : Nat} {v : Server} (h : cl[i]? = some v) :
    cl.row? i table k = v.store.row? table k := by
  rw [row?, h, Option.bind_some]

/-- A server that is there gets what is submitted to it. -/
theorem submit_of_getElem? {cl : Cluster} {i : Nat} {v : Server} (h : cl[i]? = some v)
    (instanceName : String) (r : Request) :
    (Network.ofServers.submit i instanceName r cl).1 = (v.submit instanceName r).1 ∧
    (Network.ofServers.submit i instanceName r cl).2[i]? = some (v.submit instanceName r).2 := by
  constructor
  · simp only [Network.ofServers, ask, h]
  · rw [getElem?_submit, h, Option.map_some, if_pos rfl]

/-- A request to server `i` is refused there, or answered from its store. -/
theorem submit_cases (cl : Cluster) (i : Nat) (instanceName : String) (r : Request) :
    (∃ err, (Network.ofServers.submit i instanceName r cl).1 = .error err ∧ ∀ table k,
      (Network.ofServers.submit i instanceName r cl).2.row? i table k = cl.row? i table k) ∨
    ∃ v, cl[i]? = some v ∧
      (Network.ofServers.submit i instanceName r cl).1 = (v.store.answer r).1 ∧ ∀ table k,
        (Network.ofServers.submit i instanceName r cl).2.row? i table k =
          (v.store.answer r).2.row? table k := by
  cases hv : cl[i]? with
  | none =>
    refine .inl ⟨.ofCode .connectionError, ?_, fun table k => ?_⟩
    all_goals simp only [Network.ofServers, ask, hv]
  | some v =>
    obtain ⟨hanswer, hafter⟩ := submit_of_getElem? hv instanceName r
    obtain ⟨err, herr, hstore⟩ | ⟨hans, hstore⟩ := v.submit_cases instanceName r
    · refine .inl ⟨err, hanswer.trans herr, fun table k => ?_⟩
      rw [row?_of_getElem? hafter, hstore, row?_of_getElem? hv]
    · refine .inr ⟨v, rfl, hanswer.trans hans, fun table k => ?_⟩
      rw [row?_of_getElem? hafter, hstore]

end Cluster

end WideColumn
