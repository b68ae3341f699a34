import WideColumn.Proofs.Run

/-!
# Serializability

The store of a run and the store of its serial run simulate each other (`Sim`): they have the same
tables and the same open transactions, of which the serial run holds nothing back. Each exchange
keeps this, whichever transactions it interleaves with (`Sim.follows`).

* `Store.run_serializable` : a run ends with the same tables as its serial run, and the reads and
  the questions outside of transactions get the same replies in both.
-/

namespace WideColumn

open Exchange

/-- A store after some exchanges beside the store of the serial run: they have the same tables,
and the same open transactions, for which the one holds back what the exchanges say and the other
nothing. No id is supplied twice, and those of transactions yet to come are unused. -/
structure Sim (log : List Exchange) (s s' : Store) : Prop where
  /-- The tables are the same. -/
  tables : s'.tables = s.tables
  /-- The next transactions get the same ids. -/
  ids : s'.ids = s.ids
  /-- All transactions get different ids. -/
  distinct : Function.Injective s.ids
  /-- As many transactions have been opened. -/
  opened : s'.opened = s.opened
  /-- The same transactions are open, with nothing held back in the serial run. -/
  transactions : ∀ id, s'.transactions.get? id =
    (s.transactions.get? id).map fun t => { t with staged := [] }
  /-- An open transaction holds back what the exchanges say. -/
  staged : ∀ id t, s.transactions.get? id = some t → t.staged = held log id
  /-- Ids of transactions yet to come are unused. -/
  fresh : ∀ n, s.opened ≤ n → s.transactions.get? (s.ids n) = none ∧
    held log (s.ids n) = []

namespace Sim

variable {log : List Exchange} {s s' : Store}

theorem new {ids : Nat → String} (hids : Function.Injective ids) : Sim [] { ids } { ids } where
  tables := rfl
  ids := rfl
  distinct := hids
  opened := rfl
  transactions _ := rfl
  staged _ _ := nofun
  fresh _ _ := ⟨rfl, rfl⟩

theorem contains (h : Sim log s s') (id : String) :
    s'.transactions.contains id = s.transactions.contains id := by
  rw [SortedMap.contains, h.transactions, Option.isSome_map, SortedMap.contains]

/-- An exchange that holds nothing back does not matter later. -/
theorem append (h : Sim log s s') {e : Exchange} (he : e.staged? = none) :
    Sim (log ++ [e]) s s' := by
  obtain ⟨h₁, h₂, h₃, h₄, h₅, h₆, h₇⟩ := h
  rw [← held_append_of_none log he] at h₆ h₇
  exact ⟨h₁, h₂, h₃, h₄, h₅, h₆, h₇⟩

/-- Both stores get new tables. -/
theorem withTables (h : Sim log s s') (ts : Tables) :
    Sim log { s with tables := ts } { s' with tables := ts } :=
  ⟨rfl, h.ids, h.distinct, h.opened, h.transactions, h.staged, h.fresh⟩

/-- Both stores close a transaction. -/
theorem close (h : Sim log s s') (id : String) :
    Sim log { s with transactions := s.transactions.erase id }
      { s' with transactions := s'.transactions.erase id } where
  tables := h.tables
  ids := h.ids
  distinct := h.distinct
  opened := h.opened
  transactions id' := by
    by_cases hid : id' = id
    · subst hid
      simp
    · simp only [SortedMap.get?_erase_of_ne _ hid, h.transactions]
  staged id' t ht := by
    by_cases hid : id' = id
    · subst hid
      simp at ht
    · rw [SortedMap.get?_erase_of_ne _ hid] at ht
      exact h.staged id' t ht
  fresh n hn := by
    refine ⟨?_, (h.fresh n hn).2⟩
    by_cases hid : s.ids n = id
    · subst hid
      simp
    · rw [SortedMap.get?_erase_of_ne _ hid]
      exact (h.fresh n hn).1

/-- Both stores open a transaction. -/
theorem start (h : Sim log s s') (table : String) :
    Sim log
      { s with
        transactions :=
          s.transactions.insert (s.ids s.opened) { table }
        opened := s.opened + 1 }
      { s' with
        transactions :=
          s'.transactions.insert (s'.ids s'.opened) { table }
        opened := s'.opened + 1 } where
  tables := h.tables
  ids := h.ids
  distinct := h.distinct
  opened := congrArg (· + 1) h.opened
  transactions id := by
    rw [h.ids, h.opened]
    by_cases hid : id = s.ids s.opened
    · subst hid
      simp
    · simp only [SortedMap.get?_insert_of_ne _ _ hid, h.transactions]
  staged id t ht := by
    by_cases hid : id = s.ids s.opened
    · subst hid
      rw [SortedMap.get?_insert_self] at ht
      obtain rfl := Option.some.inj ht
      exact (h.fresh s.opened (Nat.le_refl _)).2.symm
    · rw [SortedMap.get?_insert_of_ne _ _ hid] at ht
      exact h.staged id t ht
  fresh n hn := by
    have hne : s.ids n ≠ s.ids s.opened := by
      intro heq
      have := h.distinct heq
      change s.opened + 1 ≤ n at hn
      omega
    obtain ⟨hopen, hheld⟩ := h.fresh n (Nat.le_of_succ_le hn)
    exact ⟨(SortedMap.get?_insert_of_ne _ _ hne).trans hopen, hheld⟩

/-- The one store holds a write back. -/
theorem stage (h : Sim log s s') {id : String} {t : Transaction} {w : Write} {e : Exchange}
    (ht : s.transactions.get? id = some t) (he : e.staged? = some (id, w)) :
    Sim (log ++ [e])
      { s with transactions := s.transactions.insert id { t with staged := t.staged ++ [w] } }
      s' where
  tables := h.tables
  ids := h.ids
  distinct := h.distinct
  opened := h.opened
  transactions id' := by
    by_cases hid : id' = id
    · subst hid
      rw [h.transactions, ht, SortedMap.get?_insert_self]
      rfl
    · rw [h.transactions, SortedMap.get?_insert_of_ne _ _ hid]
  staged id' t' ht' := by
    rw [held_append, held_of_staged? he]
    by_cases hid : id' = id
    · subst hid
      rw [SortedMap.get?_insert_self] at ht'
      obtain rfl := Option.some.inj ht'
      rw [if_pos rfl, ← h.staged _ t ht]
    · rw [SortedMap.get?_insert_of_ne _ _ hid] at ht'
      rw [if_neg (Ne.symm hid), List.append_nil]
      exact h.staged id' t' ht'
  fresh n hn := by
    obtain ⟨hopen, hheld⟩ := h.fresh n hn
    -- The transaction of the write is open, so its id is not one yet to come.
    have hid : s.ids n ≠ id := by
      rintro rfl
      rw [hopen] at ht
      cases ht
    refine ⟨(SortedMap.get?_insert_of_ne _ _ hid).trans hopen, ?_⟩
    rw [held_append, held_of_staged? he, hheld, if_neg (Ne.symm hid)]
    rfl

/-- The answers are the same, and the stores that are left simulate each other. -/
def Agree {α : Type} (log : List Exchange) (a a' : α × Store) : Prop :=
  a'.1 = a.1 ∧ Sim log a.2 a'.2

theorem Agree.map {α β : Type} {a a' : α × Store} (h : Agree log a a') (f : α → β) :
    Agree log (a.map f id) (a'.map f id) :=
  ⟨congrArg f h.1, h.2⟩

theorem agree_createTable (h : Sim log s s') (r : CreateTable) :
    Agree log (s.createTable r) (s'.createTable r) := by
  unfold Store.createTable
  rw [h.tables]
  split
  · exact ⟨rfl, h⟩
  · exact ⟨rfl, h.withTables _⟩

theorem agree_deleteTable (h : Sim log s s') (r : DeleteTable) :
    Agree log (s.deleteTable r) (s'.deleteTable r) := by
  unfold Store.deleteTable
  rw [h.tables]
  split
  · exact ⟨rfl, h.withTables _⟩
  · exact ⟨rfl, h⟩

theorem agree_updateTable (h : Sim log s s') (r : UpdateTable) :
    Agree log (s.updateTable r) (s'.updateTable r) := by
  unfold Store.updateTable
  rw [h.tables]
  exact ⟨rfl, h.withTables _⟩

theorem getRow_eq (h : Sim log s s') (r : GetRow) : s'.getRow r = s.getRow r := by
  unfold Store.getRow
  simp only [h.tables, h.contains]

theorem agree_startTransaction (h : Sim log s s') (r : StartTransaction) :
    Agree log (s.startTransaction r) (s'.startTransaction r) := by
  have htable : s'.tables.contains r.table = s.tables.contains r.table := by rw [h.tables]
  unfold Store.startTransaction
  rw [htable]
  split
  · refine ⟨?_, h.start r.table⟩
    simp only [h.ids, h.opened]
  · exact ⟨rfl, h⟩

theorem agree_abort (h : Sim log s s') (r : AbortTransaction) :
    Agree log (s.abort r) (s'.abort r) := by
  unfold Store.abort
  rw [h.contains]
  split
  · exact ⟨rfl, h.close r.transaction⟩
  · exact ⟨rfl, h⟩

theorem stage_answer (h : Sim log s s') (id : String) (w : Write) :
    (s'.stage id w).1 = (s.stage id w).1 := by
  unfold Store.stage
  rw [h.transactions]
  cases s.transactions.get? id with
  | none => rfl
  | some t =>
    dsimp only [Option.map_some]
    split <;> rfl

/-- The stores agree on a write that is made at once, and on one that is refused. -/
theorem agree_write (h : Sim log s s') (w : Write)
    (hw : w.transaction?.isSome = true → (s.write w).1.isOk = false) :
    Agree log (s.write w) (s'.write w) := by
  unfold Store.write at hw ⊢
  cases hid : w.transaction? with
  | none =>
    dsimp only
    rw [h.tables]
    exact ⟨rfl, h.withTables _⟩
  | some id =>
    rw [hid] at hw
    have hrefused := hw rfl
    have hrefused' := hrefused
    dsimp only at hrefused hrefused' ⊢
    rw [← h.stage_answer] at hrefused'
    refine ⟨h.stage_answer id w.detached, ?_⟩
    rw [s.stage_refused hrefused, s'.stage_refused hrefused']
    exact h

/-- The stores agree on all that is neither held back nor a commit. -/
theorem agree_answer (h : Sim log s s') (r : Request)
    (hstaged : ∀ w, r.write? = some w → w.transaction?.isSome = true →
      (s.write w).1.isOk = false)
    (hcommit : ∀ c, r ≠ .commitTransaction c) : Agree log (s.answer r) (s'.answer r) := by
  cases r with
  | createTable r => exact (h.agree_createTable r).map _
  | deleteTable r => exact (h.agree_deleteTable r).map _
  | listTables r =>
    refine ⟨?_, h⟩
    change Except.ok (Response.tableList ⟨s'.tables.keys⟩) = _
    rw [h.tables]
    rfl
  | updateTable r => exact (h.agree_updateTable r).map _
  | describeTable r =>
    refine ⟨?_, h⟩
    change ((s'.tables.find r.table).map _).map _ = _
    rw [h.tables]
    rfl
  | getRow r =>
    refine ⟨?_, h⟩
    change (s'.getRow r).map _ = _
    rw [h.getRow_eq]
    rfl
  | putRow r => exact h.agree_write (.put r) (hstaged _ rfl)
  | updateRow r => exact h.agree_write (.update r) (hstaged _ rfl)
  | deleteRow r => exact h.agree_write (.delete r) (hstaged _ rfl)
  | batchGet r =>
    refine ⟨?_, h⟩
    change Except.ok (Response.batchRead (s'.batchGet r)) = _
    unfold Store.batchGet Store.readAll
    rw [h.tables]
    rfl
  | batchWrite r => exact h.agree_write (.batch r) (hstaged _ rfl)
  | search r =>
    refine ⟨?_, h⟩
    change (Except.bind (s'.tables.find r.table) _).map _ = _
    rw [h.tables]
    rfl
  | startTransaction r => exact (h.agree_startTransaction r).map _
  | commitTransaction r => exact absurd rfl (hcommit r)
  | abortTransaction r => exact (h.agree_abort r).map _

/-- The steps of the next exchange lead on to stores that simulate each other, and to the same
public exchanges. -/
def Follows (log : List Exchange) (s s' : Store) (q : Question) : Prop :=
  Sim (log ++ [s.exchange q]) (s.ask q).2 (s'.runSteps ((s.exchange q).steps log)).2 ∧
    (s'.runSteps ((s.exchange q).steps log)).1.filter isPublic = [s.exchange q].filter isPublic

theorem follows_of_agree {q : Question} (h : Agree log (s.ask q) (s'.ask q))
    (hstaged : (s.exchange q).staged? = none) (hcommitted : (s.exchange q).committed? = none) :
    Follows log s s' q := by
  have hsteps : (s.exchange q).steps log = [.ask q] := by
    rw [steps, hstaged, hcommitted]
    rfl
  have hsame : s'.exchange q = s.exchange q := congrArg (Exchange.mk q) h.1
  rw [Follows, hsteps, Store.runSteps_ask, hsame]
  exact ⟨h.2.append hstaged, rfl⟩

theorem follows_staged (h : Sim log s s') {q : Question} {p : String × Write}
    (hstaged : (s.exchange q).staged? = some p) : Follows log s s' q := by
  obtain ⟨id, w⟩ := p
  obtain ⟨r, v, rfl, hr, hid, rfl, hok⟩ := staged?_eq_some hstaged
  have hsteps : (s.exchange (.request r)).steps log = [] := by
    rw [steps, hstaged]
    rfl
  have hpublic : (s.exchange (.request r)).isPublic = false := by
    cases r with
    | putRow r | updateRow r | deleteRow r | batchWrite r =>
      obtain rfl := Option.some.inj hr
      change r.transaction = some id at hid
      simp [isPublic, Request.isRead, Request.transaction?, Request.write?, Write.transaction?, hid]
    | _ => cases hr
  rw [Follows, hsteps, List.filter_cons_of_neg (by simp [hpublic])]
  refine ⟨?_, rfl⟩
  change Sim _ (s.answer r).2 s'
  have hwrite : s.answer r = s.stage id v.detached := by
    rw [s.answer_of_write? hr, Store.write, hid]
  rw [hwrite] at hok ⊢
  obtain ⟨e, hs⟩ | ⟨t, ht, hs⟩ := s.stage_cases id v.detached
  · rw [hs] at hok
    cases hok
  · rw [hs]
    exact h.stage ht hstaged

/-- With nothing held back, a commit closes its transaction. -/
theorem commit_eq (h : Sim log s s') {r : CommitTransaction} {t : Transaction}
    (ht : s.transactions.get? r.transaction = some t) :
    s'.commit r = (.ok {}, { s' with transactions := s'.transactions.erase r.transaction }) := by
  unfold Store.commit
  rw [h.transactions, ht]
  rfl

theorem follows_commit (h : Sim log s s') (r : CommitTransaction) :
    Follows log s s' (.request (.commitTransaction r)) := by
  have hask : ∀ s : Store, s.ask (.request (.commitTransaction r)) =
      (.response ((s.commit r).1.map .transactionCommitted), (s.commit r).2) := fun _ => rfl
  obtain ⟨hnone, hc⟩ | ⟨t, ht, ⟨-, e, hc⟩ | ⟨-, hc⟩⟩ := s.commit_cases r
  · have hc' : s'.commit r = (.error (.noTransaction r.transaction), s') := by
      unfold Store.commit
      rw [h.transactions, hnone]
      rfl
    refine follows_of_agree ?_ ?_ ?_
    · rw [hask, hask, hc, hc']
      exact ⟨rfl, h⟩
    · rw [Store.exchange, hask, hc]
      rfl
    · rw [Store.exchange, hask, hc]
      rfl
  · -- The serial run has nothing to refuse: its commit succeeds.
    have hsteps : (s.exchange (.request (.commitTransaction r))).steps log =
        [.ask (.request (.commitTransaction r))] := by
      rw [Store.exchange, hask, hc]
      rfl
    rw [Follows, hsteps, Store.runSteps_ask, hask s', h.commit_eq ht, Store.exchange, hask s, hc]
    exact ⟨(h.close r.transaction).append rfl, rfl⟩
  · have hsteps : (s.exchange (.request (.commitTransaction r))).steps log =
        (held log r.transaction).map .make ++ [.ask (.request (.commitTransaction r))] := by
      rw [Store.exchange, hask, hc]
      rfl
    -- The writes are made to the same tables, and then there is nothing left to commit.
    have hmade := h.withTables (Write.after t.staged s.tables)
    have hlast := hmade.commit_eq ht
    rw [Follows, hsteps, Store.runSteps_make s' fun w => transaction?_of_mem_held, h.tables,
      ← h.staged _ t ht, Store.runSteps_ask, hask { s' with tables := _ }, hlast, Store.exchange,
      hask s, hc]
    exact ⟨(hmade.close r.transaction).append rfl, rfl⟩

theorem follows (h : Sim log s s') (q : Question) : Follows log s s' q := by
  cases hstaged : (s.exchange q).staged? with
  | some p => exact h.follows_staged hstaged
  | none =>
    cases q with
    | scan pageSize r token =>
      refine follows_of_agree ⟨?_, h⟩ hstaged rfl
      change Reply.page (Except.bind (s'.tables.find r.table) _) = _
      rw [h.tables]
      rfl
    | request r =>
      by_cases hr : ∃ c, r = .commitTransaction c
      · obtain ⟨c, rfl⟩ := hr
        exact h.follows_commit c
      · refine follows_of_agree ((h.agree_answer r ?_ fun c hc => hr ⟨c, hc⟩).map _) hstaged ?_
        · intro w hw hid
          cases ha : (s.write w).1 with
          | error e => rfl
          | ok a =>
            -- A write that names a transaction and is not refused would be held back.
            obtain ⟨id, hid⟩ := Option.isSome_iff_exists.1 hid
            have hreply : s.exchange (.request r) = ⟨.request r, .response (.ok a)⟩ := by
              rw [Store.exchange, Store.ask, s.answer_of_write? hw, ← ha]
              rfl
            rw [hreply, staged?_of_ok hw hid] at hstaged
            cases hstaged
        · cases r with
          | commitTransaction c => exact absurd ⟨c, rfl⟩ hr
          | _ => rfl

/-- Stores that simulate each other do so to the end of a run. -/
theorem run (h : Sim log s s') (qs : List Question) :
    Sim (log ++ (s.run qs).1) (s.run qs).2 (s'.runSteps (serial log (s.run qs).1)).2 ∧
      (s'.runSteps (serial log (s.run qs).1)).1.filter isPublic =
        (s.run qs).1.filter isPublic := by
  induction qs generalizing log s s' with
  | nil =>
    refine ⟨?_, rfl⟩
    rw [show (s.run []).1 = [] from rfl, List.append_nil]
    exact h
  | cons q qs ih =>
    obtain ⟨hnext, hreply⟩ := h.follows q
    obtain ⟨hend, hreplies⟩ := ih hnext
    rw [Store.run_cons, serial, Store.runSteps_append]
    dsimp only
    rw [List.append_assoc] at hend
    refine ⟨hend, ?_⟩
    rw [List.filter_append, hreply, hreplies, ← List.filter_append]
    rfl

end Sim

/-- **Transactions are serializable at their commits.**  A run of a new store that never gives two
transactions the same id, whichever requests of whichever transactions it interleaves, ends with the
tables of its serial run, in which every write of a transaction that commits is made at the commit,
as a request of its own, and the writes of all other transactions are left out. All reads and all
questions that name no transaction get the same replies in both. -/
theorem Store.run_serializable {ids : Nat → String} (hids : Function.Injective ids)
    (qs : List Question) :
    (runSteps { ids } (serial [] (run { ids } qs).1)).2.tables = (run { ids } qs).2.tables ∧
      (runSteps { ids } (serial [] (run { ids } qs).1)).1.filter isPublic =
        (run { ids } qs).1.filter isPublic := by
  obtain ⟨hend, hreplies⟩ := (Sim.new hids).run qs
  exact ⟨hend.tables, hreplies⟩

/-- A row is put in a transaction, another outside of it, and the transaction is committed. -/
def interleaved : List Question :=
  [.request (.createTable { table := "t", keys := [] }),
   .request (.startTransaction { table := "t", key := ⟨"id", .integer 1⟩ }),
   .request (.putRow { table := "t", key := [⟨"id", .integer 1⟩], transaction := some ":0:" }),
   .request (.putRow { table := "t", key := [⟨"id", .integer 2⟩] }),
   .request (.commitTransaction ⟨":0:"⟩)]

/-- The serial run puts the row of the transaction last. -/
theorem run_serializable_interleaved :
    let steps := serial [] (Store.run {} interleaved).1
    steps =
      [.ask (.request (.createTable { table := "t", keys := [] })),
       .ask (.request (.startTransaction { table := "t", key := ⟨"id", .integer 1⟩ })),
       .ask (.request (.putRow { table := "t", key := [⟨"id", .integer 2⟩] })),
       .make (.put { table := "t", key := [⟨"id", .integer 1⟩] }),
       .ask (.request (.commitTransaction ⟨":0:"⟩))] ∧
    (Store.runSteps {} steps).2.tables = (Store.run {} interleaved).2.tables ∧
    (Store.runSteps {} steps).1.filter isPublic = (Store.run {} interleaved).1.filter isPublic := by
  obtain ⟨htables, hreplies⟩ :=
    Store.run_serializable (Transaction.numbered_injective "") interleaved
  exact ⟨rfl, htables, hreplies⟩

end WideColumn
