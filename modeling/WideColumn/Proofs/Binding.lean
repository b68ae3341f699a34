import WideColumn.Proofs.Run

/-!
# Transactions and their tables

A transaction is opened on one table, and a write that names another one is refused instead of
being held back. A batch names no table as a whole, so it is held back whatever tables its rows
belong to, and the commit writes them.

* `Store.transactions_answer` : all that a request can do to the open transactions;
* `Store.Reachable.transactions` : what holds of a new transaction, and is kept when a write joins
  those held back, holds of every open transaction of a reachable store;
* `Store.Reachable.bound_exact` : a transaction holds back rows of its own table only exactly if
  its batches do, and its commit changes no table but its own and those of rows in its batches.
-/

namespace WideColumn

/-! ### Tables of rows -/

/-- The tables of the rows that a batch writes. -/
def BatchWrite.rowTables (b : BatchWrite) : List String := (rowsOf b.tables).map (·.1)

/-- The tables of the rows that a write concerns. -/
def Write.rowTables : Write → List String
  | put r => [r.table]
  | update r => [r.table]
  | delete r => [r.table]
  | batch b => b.rowTables

/-- A transaction holds back rows of its own table only. -/
def Transaction.Bound (t : Transaction) : Prop :=
  ∀ w ∈ t.staged, ∀ name ∈ w.rowTables, name = t.table

/-- A write names no table but a given one. -/
def Write.Suits (w : Write) (table : String) : Prop := ∀ name, w.table? = some name → name = table

theorem Write.table?_detached (w : Write) : w.detached.table? = w.table? := by
  cases w <;> rfl

/-! ### Tables that are left alone -/

section Frame

variable {ts : Tables} {other : String}

theorem Tables.get?_act {α : Type} {name : String} (h : other ≠ name)
    (action : Table → Except ServiceError α × Table) :
    SortedMap.get? (ts.act name action).2 other = ts.get? other := by
  unfold Tables.act
  cases ts.get? name with
  | none => rfl
  | some t => exact SortedMap.get?_insert_of_ne _ _ h

/-- What an action leaves alone in its table, it leaves alone in the tables. -/
theorem Tables.map_act {α β : Type} {table name : String} (f : Table → β)
    (action : Table → Except ServiceError α × Table)
    (h : table = name → ∀ t, ts.get? name = some t → f (action t).2 = f t) :
    (SortedMap.get? (ts.act table action).2 name).map f = (ts.get? name).map f := by
  by_cases htable : name = table
  · subst htable
    unfold act
    cases ht : ts.get? name with
    | none =>
      dsimp only
      rw [ht]
    | some t =>
      dsimp only
      rw [SortedMap.get?_insert_self, Option.map_some, Option.map_some, h rfl t ht]
  · rw [get?_act htable]

theorem RowWrite.get?_run (w : RowWrite) {table : String} (h : other ≠ table) :
    SortedMap.get? (w.run table ts).2 other = ts.get? other := by
  obtain ⟨kind, key, cells, updates, condition, returnType, returnColumns⟩ := w
  cases kind with
  | put | update | delete => exact Tables.get?_act h _

theorem BatchWrite.get?_after {ws : List (String × RowWrite)} (h : other ∉ ws.map (·.1)) :
    SortedMap.get? (after ws ts) other = ts.get? other := by
  induction ws generalizing ts with
  | nil => rfl
  | cons w ws ih =>
    rw [List.map_cons, List.mem_cons, not_or] at h
    exact (ih h.2).trans (w.2.get?_run h.1)

/-- A write leaves a table alone if none of its rows belongs there. -/
theorem Write.get?_run {w : Write} (h : other ∉ w.rowTables) :
    SortedMap.get? (w.run ts).2 other = ts.get? other := by
  cases w with
  | put r | update r | delete r => exact Tables.get?_act (List.ne_of_not_mem_cons h) _
  | batch b =>
    change SortedMap.get? (b.run ts).2 other = _
    rw [BatchWrite.run_eq]
    split
    · -- All is undone.
      rfl
    · rw [(BatchWrite.runTables_spec b.tables ts).2.2]
      exact BatchWrite.get?_after h

theorem Write.get?_after {ws : List Write} (h : ∀ w ∈ ws, other ∉ w.rowTables) :
    SortedMap.get? (after ws ts) other = ts.get? other := by
  induction ws generalizing ts with
  | nil => rfl
  | cons w ws ih =>
    exact (ih fun v hv => h v (.tail _ hv)).trans (Write.get?_run (h w (.head _)))

end Frame

/-! ### Open transactions -/

namespace Store

/-- A write that is held back names no table but that of the transaction. -/
theorem stage_suits {s : Store} {id : String} {w : Write} {t : Transaction}
    (ht : s.transactions.get? id = some t) (h : (s.stage id w).1.isOk = true) :
    w.Suits t.table := by
  simp only [stage, ht] at h
  split at h
  · cases h
  · next hany =>
    intro name hname
    rw [hname] at hany
    simpa using hany

/-- A write leaves the transactions alone, or it joins those that its transaction holds back. -/
theorem transactions_write (s : Store) (w : Write) :
    (s.write w).2.transactions = s.transactions ∨
    ∃ id t, s.transactions.get? id = some t ∧ w.Suits t.table ∧
      (s.write w).2.transactions =
        s.transactions.insert id { t with staged := t.staged ++ [w.detached] } := by
  unfold write
  cases w.transaction? with
  | none => exact .inl rfl
  | some id =>
    obtain ⟨e, hs⟩ | ⟨t, ht, hs⟩ := s.stage_cases id w.detached
    · exact .inl (congrArg (·.2.transactions) hs)
    · have hsuits := stage_suits ht (by rw [hs]; rfl)
      rw [Write.Suits, w.table?_detached] at hsuits
      exact .inr ⟨id, t, ht, hsuits, congrArg (·.2.transactions) hs⟩

/-- A request leaves the open transactions alone, closes one, opens one, or adds to what one of
them holds back a write that names no other table and no transaction. -/
theorem transactions_answer (s : Store) (r : Request) :
    (s.answer r).2.transactions = s.transactions ∨
    (∃ id, (s.answer r).2.transactions = s.transactions.erase id) ∨
    (∃ id table, (s.answer r).2.transactions = s.transactions.insert id { table }) ∨
    ∃ id t, ∃ w : Write, s.transactions.get? id = some t ∧ w.Suits t.table ∧
      (s.answer r).2.transactions =
        s.transactions.insert id { t with staged := t.staged ++ [w.detached] } := by
  cases r with
  | putRow _ | updateRow _ | deleteRow _ | batchWrite _ =>
    exact (s.transactions_write _).imp_right fun ⟨id, t, h⟩ => .inr (.inr ⟨id, t, _, h⟩)
  | createTable r =>
    refine .inl ?_
    change (s.createTable r).2.transactions = _
    unfold createTable
    split <;> rfl
  | deleteTable r =>
    refine .inl ?_
    change (s.deleteTable r).2.transactions = _
    unfold deleteTable
    split <;> rfl
  | startTransaction r =>
    rw [show (s.answer (.startTransaction r)).2 = (s.startTransaction r).2 from rfl]
    unfold startTransaction
    split
    · exact .inr (.inr (.inl ⟨_, r.table, rfl⟩))
    · exact .inl rfl
  | commitTransaction r =>
    obtain ⟨-, hc⟩ | ⟨t, -, ⟨-, e, hc⟩ | ⟨-, hc⟩⟩ := s.commit_cases r
    · exact .inl (congrArg (·.2.transactions) hc)
    · exact .inr (.inl ⟨_, congrArg (·.2.transactions) hc⟩)
    · exact .inr (.inl ⟨_, congrArg (·.2.transactions) hc⟩)
  | abortTransaction r =>
    rw [show (s.answer (.abortTransaction r)).2 = (s.abort r).2 from rfl]
    unfold abort
    split
    · exact .inr (.inl ⟨_, rfl⟩)
    · exact .inl rfl
  | listTables _ | updateTable _ | describeTable _ | getRow _ | batchGet _ | search _ =>
    exact .inl rfl

/-- What holds of a transaction that holds nothing back, and is kept when a write joins, holds of
every open transaction of a reachable store. -/
theorem Reachable.transactions {P : Transaction → Prop} (hnew : ∀ table, P { table })
    (hstage : ∀ t (w : Write), P t → w.Suits t.table →
      P { t with staged := t.staged ++ [w.detached] })
    {s : Store} (hs : s.Reachable) : ∀ id t, s.transactions.get? id = some t → P t := by
  induction hs with
  | new ids => exact fun _ _ hget => nomatch hget
  | @answer s _ r ih =>
    obtain h | ⟨id, h⟩ | ⟨id, table, h⟩ | ⟨id, t, w, ht, hw, h⟩ := s.transactions_answer r
    · rw [h]
      exact ih
    · rw [h]
      exact SortedMap.forall_erase ih id
    · rw [h]
      exact SortedMap.forall_insert ih (hnew table)
    · rw [h]
      exact SortedMap.forall_insert ih (hstage t w (ih id t ht) hw)

/-- What a transaction holds back names no table but its own. -/
theorem Reachable.suits {s : Store} (hs : s.Reachable) {id : String} {t : Transaction}
    (ht : s.transactions.get? id = some t) : ∀ w ∈ t.staged, w.Suits t.table := by
  refine hs.transactions (P := fun t => ∀ w ∈ t.staged, w.Suits t.table) ?_ ?_ id t ht
  · intro table w hw
    cases hw
  · intro t w ih hsuits v hv
    rcases List.mem_append.1 hv with hv | hv
    · exact ih v hv
    · rw [List.mem_singleton.1 hv, Write.Suits, w.table?_detached]
      exact hsuits

theorem get?_commit {s : Store} {r : CommitTransaction} {t : Transaction} {other : String}
    (ht : s.transactions.get? r.transaction = some t)
    (h : ∀ w ∈ t.staged, other ∉ w.rowTables) :
    (s.commit r).2.tables.get? other = s.tables.get? other := by
  obtain ⟨-, hc⟩ | ⟨t', ht', ⟨-, e, hc⟩ | ⟨-, hc⟩⟩ := s.commit_cases r
  · rw [hc]
  · rw [hc]
  · obtain rfl := Option.some.inj (ht.symm.trans ht')
    rw [hc]
    exact Write.get?_after h

/-- **When a transaction is bound to its table.**  A transaction of a reachable store holds back
rows of its own table only exactly if all rows of its batches belong there: a put, update or delete
of another table is never among its writes. Its commit leaves every other table as it is unless
one of its batches has a row for it. -/
theorem Reachable.bound_exact {s : Store} (hs : s.Reachable) {id : String} {t : Transaction}
    (ht : s.transactions.get? id = some t) :
    (t.Bound ↔ ∀ b, .batch b ∈ t.staged → ∀ name ∈ b.rowTables, name = t.table) ∧
    ∀ other, other ≠ t.table → (∀ b, .batch b ∈ t.staged → other ∉ b.rowTables) →
      (s.answer (.commitTransaction ⟨id⟩)).2.tables.get? other = s.tables.get? other := by
  have hsuits := hs.suits ht
  -- All writes but batches name the table of their row.
  have hnamed : ∀ w ∈ t.staged, (∃ b, w = .batch b) ∨ w.rowTables = [t.table] := by
    intro w hw
    cases w with
    | put r | update r | delete r =>
      exact .inr (congrArg (fun name => [name]) (hsuits _ hw r.table rfl))
    | batch b => exact .inl ⟨b, rfl⟩
  refine ⟨⟨fun h b hb => h _ hb, fun h w hw name hname => ?_⟩, fun other hne h => ?_⟩
  · obtain ⟨b, rfl⟩ | hrow := hnamed w hw
    · exact h b hw name hname
    · rw [hrow] at hname
      exact List.mem_singleton.1 hname
  · refine get?_commit (r := ⟨id⟩) ht fun w hw hmem => ?_
    obtain ⟨b, rfl⟩ | hrow := hnamed w hw
    · exact h b hw hmem
    · rw [hrow] at hmem
      exact hne (List.mem_singleton.1 hmem)

/-- A batch with one row, in a transaction. -/
def batchTo (table : String) : BatchWrite where
  tables := [⟨table, [{ kind := .put, key := [⟨"id", .integer 2⟩] }]⟩]
  transaction := some ":0:"

/-- Two tables, and a transaction on the first with the put of a row there and a batch. -/
def withBatchTo (table : String) : Store :=
  after {} [.createTable { table := "t", keys := [] }, .createTable { table := "u", keys := [] },
    .startTransaction { table := "t", key := ⟨"id", .integer 1⟩ },
    .putRow { table := "t", key := [⟨"id", .integer 1⟩], transaction := some ":0:" },
    .batchWrite (batchTo table)]

/-- The transaction. -/
def withBatchTo.held (table : String) : Transaction where
  table := "t"
  staged := [.put { table := "t", key := [⟨"id", .integer 1⟩] },
    .batch { batchTo table with transaction := none }]

theorem reachable_withBatchTo (table : String) : (withBatchTo table).Reachable :=
  .after (.new _) _

/-- With a batch to its own table the transaction is bound, and its commit leaves the other table
as it is; with a batch to the other table it is not bound. -/
theorem bound_withBatchTo :
    ((withBatchTo "t").transactions.get? ":0:" = some (withBatchTo.held "t") ∧
      (withBatchTo.held "t").Bound ∧
      ((withBatchTo "t").answer (.commitTransaction ⟨":0:"⟩)).2.tables.get? "u" =
        (withBatchTo "t").tables.get? "u") ∧
    (withBatchTo "u").transactions.get? ":0:" = some (withBatchTo.held "u") ∧
      ¬ (withBatchTo.held "u").Bound := by
  have ht : (withBatchTo "t").transactions.get? ":0:" = some (withBatchTo.held "t") := rfl
  have hu : (withBatchTo "u").transactions.get? ":0:" = some (withBatchTo.held "u") := rfl
  refine ⟨⟨ht, ?_⟩, hu, fun h => ?_⟩
  · obtain ⟨hbound, hother⟩ := (reachable_withBatchTo "t").bound_exact ht
    have hrows : ∀ w ∈ (withBatchTo.held "t").staged, w.rowTables = ["t"] :=
      List.forall_mem_cons.2 ⟨rfl, List.forall_mem_cons.2 ⟨rfl, List.forall_mem_nil _⟩⟩
    refine ⟨hbound.2 fun b hb name hname => ?_, hother "u" (by decide) fun b hb hmem => ?_⟩
    · exact List.mem_singleton.1 (hrows (.batch b) hb ▸ hname)
    · exact absurd (hrows (.batch b) hb ▸ hmem : "u" ∈ ["t"]) (by decide)
  · obtain ⟨hbound, -⟩ := (reachable_withBatchTo "u").bound_exact hu
    exact absurd (hbound.1 h _ (.tail _ (.head _)) "u" (.head _)) (by decide)

/-- A transaction may hold back rows of another table than its own, which its commit writes. -/
theorem not_bound_of_open :
    ¬ ∀ (s : Store) (id : String) (t : Transaction), s.Reachable →
      s.transactions.get? id = some t →
      t.Bound ∨ ∀ other, other ≠ t.table →
        (s.answer (.commitTransaction ⟨id⟩)).2.tables.get? other = s.tables.get? other := by
  intro h
  obtain hbound | hother := h _ ":0:" (withBatchTo.held "u") (reachable_withBatchTo "u") rfl
  · exact absurd (hbound _ (.tail _ (.head _)) "u" (.head _)) (by decide)
  · have hrows := congrArg (Option.map (·.rows.size)) (hother "u" (by decide))
    exact absurd hrows (by decide)

end Store

end WideColumn
