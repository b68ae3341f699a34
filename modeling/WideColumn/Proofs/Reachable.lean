import WideColumn.Proofs.Table

/-!
# Reachable stores

`Store.Reachable` is every store that requests lead to from a new one. A property of tables that
writes of single rows keep (`Table.Kept`) is kept by batches, by commits and by all other
requests. It holds of every table of a reachable store once it holds of new tables and does not
depend on the settings (`Store.Reachable.all`). What only writes that supply rows of some kind keep
(`Table.KeptFor`) is kept by the requests that supply such rows (`Store.Invariant.after`).

* `Store.Reachable.placed` : every row of a reachable store is stored under the sort key of its
  own key.
-/

namespace WideColumn

/-! ### Properties of tables -/

/-- All tables have a property, which may depend on the name. -/
def Tables.All (P : String → Table → Prop) (ts : Tables) : Prop :=
  ∀ name t, ts.get? name = some t → P name t

/-- Writes of single rows keep a property of tables. -/
structure Table.Kept (P : String → Table → Prop) : Prop where
  /-- A put keeps it. -/
  put : ∀ name t r, P name t → P name (t.put r).2
  /-- An update keeps it. -/
  update : ∀ name t r, P name t → P name (t.update r).2
  /-- A delete keeps it. -/
  delete : ∀ name t r, P name t → P name (t.delete r).2

/-- Puts and updates that supply rows which satisfy a test, and deletes, keep a property of tables.
An update supplies a row without cells, if there is none to update. -/
structure Table.KeptFor (ok : Row → Prop) (P : String → Table → Prop) : Prop where
  /-- A put keeps it. -/
  put : ∀ name t r, ok { key := r.key, cells := r.cells } → P name t → P name (t.put r).2
  /-- An update keeps it. -/
  update : ∀ name t r, ok { key := r.key } → P name t → P name (t.update r).2
  /-- A delete keeps it. -/
  delete : ∀ name t r, P name t → P name (t.delete r).2

theorem Table.Kept.keptFor {P : String → Table → Prop} (hP : Table.Kept P) :
    Table.KeptFor (fun _ => True) P where
  put name t r _ := hP.put name t r
  update name t r _ := hP.update name t r
  delete := hP.delete

namespace Tables

variable {P : String → Table → Prop} {ts : Tables}

theorem All.insert (h : ts.All P) {name : String} {t : Table} (ht : P name t) :
    All P (SortedMap.insert ts name t) :=
  SortedMap.forall_insert h ht

theorem All.erase (h : ts.All P) (name : String) : All P (SortedMap.erase ts name) :=
  SortedMap.forall_erase h name

theorem All.act {α : Type} (h : ts.All P) {name : String}
    {action : Table → Except ServiceError α × Table}
    (ha : ∀ t, P name t → P name (action t).2) : All P (ts.act name action).2 := by
  unfold Tables.act
  cases hget : ts.get? name with
  | none => exact h
  | some t => exact h.insert (ha t (h name t hget))

end Tables

/-! ### Writes of all kinds -/

/-- The rows that a row of a batch supplies. -/
def RowWrite.supplied (w : RowWrite) : List Row :=
  match w.kind with
  | .put => [{ key := w.key, cells := w.cells }]
  | .update => [{ key := w.key }]
  | .delete => []

/-- The rows that a batch supplies. -/
def BatchWrite.supplied (ws : List TableWrites) : List Row :=
  ws.flatMap fun t => t.rows.flatMap (·.supplied)

/-- The rows that a write supplies. -/
def Write.supplied : Write → List Row
  | put r => [{ key := r.key, cells := r.cells }]
  | update r => [{ key := r.key }]
  | delete _ => []
  | batch b => BatchWrite.supplied b.tables

theorem Write.supplied_detached (w : Write) : w.detached.supplied = w.supplied := by
  cases w <;> rfl

theorem BatchWrite.run_eq (b : BatchWrite) (ts : Tables) :
    b.run ts =
      if b.isAtomic = some true && !succeeded (runTables b.tables ts).1 then
        (⟨(runTables b.tables ts).1.map fun t => { t with rows := t.rows.map (·.undo) }⟩, ts)
      else (⟨(runTables b.tables ts).1⟩, (runTables b.tables ts).2) := rfl

section KeptFor

variable {ok : Row → Prop} {P : String → Table → Prop} (hP : Table.KeptFor ok P)

include hP

theorem RowWrite.all_run (w : RowWrite) (table : String) (hw : ∀ row ∈ w.supplied, ok row)
    {ts : Tables} (h : ts.All P) : (w.run table ts).2.All P := by
  obtain ⟨kind, key, cells, updates, condition, returnType, returnColumns⟩ := w
  cases kind with
  | put => exact h.act fun t ht => hP.put table t _ (hw _ (.head _)) ht
  | update => exact h.act fun t ht => hP.update table t _ (hw _ (.head _)) ht
  | delete => exact h.act fun t ht => hP.delete table t _ ht

theorem BatchWrite.all_runRows (table : String) (ws : List RowWrite)
    (hws : ∀ w ∈ ws, ∀ row ∈ w.supplied, ok row) {ts : Tables} (h : ts.All P) :
    (runRows table ws ts).2.All P := by
  induction ws generalizing ts with
  | nil => exact h
  | cons w ws ih =>
    exact ih (fun v hv => hws v (.tail _ hv)) (w.all_run hP table (hws w (.head _)) h)

theorem BatchWrite.all_runTables (ws : List TableWrites) (hws : ∀ row ∈ supplied ws, ok row)
    {ts : Tables} (h : ts.All P) : (runTables ws ts).2.All P := by
  induction ws generalizing ts with
  | nil => exact h
  | cons w ws ih =>
    simp only [supplied, List.flatMap_cons, List.forall_mem_append] at hws
    refine ih hws.2 (all_runRows hP w.table w.rows (fun v hv row hrow => hws.1 row ?_) h)
    exact List.mem_flatMap.2 ⟨v, hv, hrow⟩

theorem BatchWrite.all_run (b : BatchWrite) (hb : ∀ row ∈ supplied b.tables, ok row) {ts : Tables}
    (h : ts.All P) : (b.run ts).2.All P := by
  rw [run_eq]
  split
  · -- All is undone.
    exact h
  · exact all_runTables hP b.tables hb h

theorem Write.all_run (w : Write) (hw : ∀ row ∈ w.supplied, ok row) {ts : Tables} (h : ts.All P) :
    (w.run ts).2.All P := by
  cases w with
  | put r => exact h.act fun t ht => hP.put r.table t r (hw _ (.head _)) ht
  | update r => exact h.act fun t ht => hP.update r.table t r (hw _ (.head _)) ht
  | delete r => exact h.act fun t ht => hP.delete r.table t r ht
  | batch r => exact r.all_run hP hw h

theorem Write.all_runAll (ws : List Write) (hws : ∀ w ∈ ws, ∀ row ∈ w.supplied, ok row)
    {ts ts' : Tables} (h : ts.All P) (hrun : runAll ws ts = .ok ts') : ts'.All P := by
  induction ws generalizing ts with
  | nil => exact Except.ok.inj hrun ▸ h
  | cons w ws ih =>
    rw [runAll] at hrun
    split at hrun
    · next ts₁ hw =>
      have := w.all_run hP (hws w (.head _)) h
      rw [hw] at this
      exact ih (fun v hv => hws v (.tail _ hv)) this hrun
    · cases hrun

end KeptFor

/-! ### Requests -/

/-- The rows that a request supplies, at once or when its transaction is committed. -/
def Request.supplied : Request → List Row
  | .putRow r => (Write.put r).supplied
  | .updateRow r => (Write.update r).supplied
  | .batchWrite r => (Write.batch r).supplied
  | _ => []

namespace Store

/-- Stores that requests lead to from a new one. -/
inductive Reachable : Store → Prop
  /-- A new store with a supply of ids. -/
  | new (ids : Nat → String) : Reachable { ids }
  /-- The store that a request leaves. -/
  | answer {s : Store} (h : Reachable s) (r : Request) : Reachable (s.answer r).2

/-- The store that some requests leave, one after the other. -/
def after (s : Store) (rs : List Request) : Store := rs.foldl (fun s r => (s.answer r).2) s

theorem Reachable.after {s : Store} (h : s.Reachable) (rs : List Request) :
    (s.after rs).Reachable := by
  induction rs generalizing s with
  | nil => exact h
  | cons r rs ih => exact ih (h.answer r)

/-- A write that is to be held back is refused and changes nothing, or joins those that its
transaction holds back. -/
theorem stage_cases (s : Store) (id : String) (w : Write) :
    (∃ e, s.stage id w = (.error e, s)) ∨
    ∃ t, s.transactions.get? id = some t ∧
      s.stage id w = (.ok w.promised, { s with
        transactions := s.transactions.insert id { t with staged := t.staged ++ [w] } }) := by
  unfold stage
  cases ht : s.transactions.get? id with
  | none => exact .inl ⟨_, rfl⟩
  | some t =>
    dsimp only
    split
    · exact .inl ⟨_, rfl⟩
    · exact .inr ⟨t, rfl, rfl⟩

theorem stage_refused (s : Store) {id : String} {w : Write}
    (h : (s.stage id w).1.isOk = false) : (s.stage id w).2 = s := by
  obtain ⟨e, hs⟩ | ⟨t, -, hs⟩ := s.stage_cases id w
  · rw [hs]
  · rw [hs] at h
    cases h

/-- All tables have a property, and the rows that writes held back supply satisfy a test. -/
structure Invariant (ok : Row → Prop) (P : String → Table → Prop) (s : Store) : Prop where
  /-- The tables have the property. -/
  tables : s.tables.All P
  /-- The rows of writes held back satisfy the test. -/
  staged : ∀ id t, s.transactions.get? id = some t → ∀ w ∈ t.staged, ∀ row ∈ w.supplied, ok row

namespace Invariant

variable {ok : Row → Prop} {P : String → Table → Prop} {s : Store}

theorem new (ids : Nat → String) : Invariant ok P { ids } where
  tables _ _ hget := nomatch hget
  staged _ _ hget := nomatch hget

/-- Transactions that hold back nothing but writes of the right rows may be added. -/
theorem insert (h : s.Invariant ok P) {id : String} {t : Transaction}
    (ht : ∀ w ∈ t.staged, ∀ row ∈ w.supplied, ok row) (opened : Nat) :
    Invariant ok P { s with transactions := s.transactions.insert id t, opened } where
  tables := h.tables
  staged := SortedMap.forall_insert h.staged ht

theorem erase (h : s.Invariant ok P) (id : String) {ts : Tables} (hts : ts.All P) :
    Invariant ok P { s with transactions := s.transactions.erase id, tables := ts } where
  tables := hts
  staged := SortedMap.forall_erase h.staged id

theorem write (hP : Table.KeptFor ok P) (h : s.Invariant ok P) (w : Write)
    (hw : ∀ row ∈ w.supplied, ok row) : (s.write w).2.Invariant ok P := by
  unfold Store.write
  split
  · next id _ =>
    obtain ⟨e, hs⟩ | ⟨t, ht, hs⟩ := s.stage_cases id w.detached
    · rw [hs]
      exact h
    · rw [hs]
      refine h.insert (fun v hv => ?_) s.opened
      rcases List.mem_append.1 hv with hv | hv
      · exact h.staged id t ht v hv
      · rw [List.mem_singleton.1 hv, w.supplied_detached]
        exact hw
  · exact ⟨w.all_run hP hw h.tables, h.staged⟩

theorem commit (hP : Table.KeptFor ok P) (h : s.Invariant ok P) (r : CommitTransaction) :
    (s.commit r).2.Invariant ok P := by
  unfold Store.commit
  split
  · exact h
  · next t ht =>
    dsimp only
    split
    · next ts hrun =>
      exact h.erase _ (Write.all_runAll hP t.staged (h.staged _ t ht) h.tables hrun)
    · exact h.erase _ h.tables

/-- What writes of single rows keep, new tables have and settings do not concern is kept by every
request whose rows satisfy the test. -/
theorem answer (hP : Table.KeptFor ok P)
    (hnew : ∀ r : CreateTable, P r.table { tableMeta := r.tableMeta })
    (hset : ∀ name t (r : UpdateTable),
      P name t → P name { t with tableMeta := t.tableMeta.updated r })
    (h : s.Invariant ok P) (r : Request) (hr : ∀ row ∈ r.supplied, ok row) :
    (s.answer r).2.Invariant ok P := by
  cases r with
  | createTable r =>
    change (s.createTable r).2.Invariant ok P
    obtain ⟨e, hs⟩ | ⟨-, hs⟩ := s.createTable_cases r
    · rwa [hs]
    · rw [hs]
      exact ⟨h.tables.insert (hnew r), h.staged⟩
  | deleteTable r =>
    change (s.deleteTable r).2.Invariant ok P
    obtain ⟨e, hs⟩ | ⟨-, hs⟩ := s.deleteTable_cases r
    · rwa [hs]
    · rw [hs]
      exact ⟨h.tables.erase r.table, h.staged⟩
  | updateTable r =>
    change (s.updateTable r).2.Invariant ok P
    obtain ⟨e, hs⟩ | ⟨t, ht, hs⟩ := s.updateTable_cases r
    · rwa [hs]
    · rw [hs]
      exact ⟨h.tables.insert (hset r.table t r (h.tables r.table t ht)), h.staged⟩
  | putRow r => exact h.write hP (.put r) hr
  | updateRow r => exact h.write hP (.update r) hr
  | deleteRow r => exact h.write hP (.delete r) fun _ hrow => absurd hrow List.not_mem_nil
  | batchWrite r => exact h.write hP (.batch r) hr
  | startTransaction r =>
    change (s.startTransaction r).2.Invariant ok P
    unfold startTransaction
    split
    · -- A new transaction holds nothing back.
      exact h.insert (fun w hw => absurd hw List.not_mem_nil) _
    · exact h
  | commitTransaction r => exact h.commit hP r
  | abortTransaction r =>
    change (s.abort r).2.Invariant ok P
    unfold abort
    split
    · exact h.erase _ h.tables
    · exact h
  | listTables r => exact h
  | describeTable r => exact h
  | getRow r => exact h
  | batchGet r => exact h
  | search r => exact h

/-- What every request with the right rows keeps is kept by a run of such requests. -/
theorem after (hP : Table.KeptFor ok P)
    (hnew : ∀ r : CreateTable, P r.table { tableMeta := r.tableMeta })
    (hset : ∀ name t (r : UpdateTable),
      P name t → P name { t with tableMeta := t.tableMeta.updated r })
    (h : s.Invariant ok P) (rs : List Request) (hrs : ∀ r ∈ rs, ∀ row ∈ r.supplied, ok row) :
    (s.after rs).Invariant ok P := by
  induction rs generalizing s with
  | nil => exact h
  | cons r rs ih =>
    exact ih (h.answer hP hnew hset r (hrs r (.head _))) fun r' hr' => hrs r' (.tail _ hr')

end Invariant

variable {P : String → Table → Prop}

/-- What writes of single rows keep, new tables have and settings do not concern holds of every
table of a reachable store. -/
theorem Reachable.all {s : Store} (hs : s.Reachable) (hP : Table.Kept P)
    (hnew : ∀ r : CreateTable, P r.table { tableMeta := r.tableMeta })
    (hset : ∀ name t (r : UpdateTable),
      P name t → P name { t with tableMeta := t.tableMeta.updated r }) :
    s.tables.All P := by
  suffices h : s.Invariant (fun _ => True) P from h.tables
  induction hs with
  | new ids => exact .new ids
  | answer _ r ih => exact ih.answer hP.keptFor hnew hset r fun _ _ => trivial

end Store

/-! ### Places of rows -/

/-- Every row is stored under the sort key of its own key. -/
def Table.Placed (t : Table) : Prop :=
  ∀ k row, t.rows.get? k = some row → row.key.sortKey = .ok k

namespace Table

theorem Placed.insert {t : Table} (h : t.Placed) {k : SortKey} {row : Row}
    (hrow : row.key.sortKey = .ok k) (nextAuto : Nat) :
    Placed { t with rows := t.rows.insert k row, nextAuto } :=
  SortedMap.forall_insert h hrow

theorem Placed.existing_key {t : Table} (h : t.Placed) {key : Key} {k : SortKey}
    (hk : key.sortKey = .ok k) : (t.existing key k).key.sortKey = .ok k := by
  unfold existing
  cases hget : t.rows.get? k with
  | none => exact hk
  | some row => exact h k row hget

theorem kept_placed : Kept fun _ t => t.Placed where
  put _ t r h := by
    obtain ⟨e, he⟩ | ⟨k, hk, -, hput⟩ := t.put_cases r
    · rw [he]
      exact h
    · rw [hput]
      exact h.insert hk _
  update _ t r h := by
    obtain ⟨e, he⟩ | ⟨k, row, hk, -, hrow, hupd⟩ := t.update_cases r
    · rw [he]
      exact h
    · rw [hupd]
      refine h.insert ?_ _
      rw [Row.update_key hrow]
      exact h.existing_key hk
  delete _ t r h := by
    obtain ⟨e, he⟩ | ⟨k, -, -, hdel⟩ := t.delete_cases r
    · rw [he]
      exact h
    · rw [hdel]
      exact SortedMap.forall_erase h k

end Table

/-- Every row of a reachable store is stored under the sort key of its own key. -/
theorem Store.Reachable.placed {s : Store} (hs : s.Reachable) {name : String} {t : Table}
    (ht : s.tables.get? name = some t) : t.Placed := by
  refine hs.all Table.kept_placed ?_ ?_ name t ht
  · intro r k row hget
    cases hget
  · intro _ t r h
    exact h

end WideColumn
