import WideColumn.Proofs.Run

/-!
# The lifetime of a transaction

A transaction lives from the reply that opens it to the first commit or abort that names it,
whatever comes of that. Which transactions live is a matter of what was said alone
(`Exchange.Live`), and it is what the store of a run goes by (`Store.run_contains_iff`).

A question in a transaction should be refused if the transaction does not live, with no trace left,
and should not be refused for want of the transaction otherwise (`Store.Heeds`). Every request does
this. A page of a range may name a transaction too, but nothing looks at it.

* `Store.answer_of_closed`, `Store.answer_of_open` : requests in a transaction that is not open,
  and in one that is;
* `Store.run_heeds_exact` : a question heeds its transaction exactly if it asks for no page of a
  range or the transaction lives.
-/

namespace WideColumn

/-! ### What was said -/

/-- The error that is replied. -/
def Reply.error? : Reply → Option ServiceError
  | response (.error e) => some e
  | page (.error e) => some e
  | _ => none

/-- The transaction that a question names. -/
def Question.transaction? : Question → Option String
  | request r => r.transaction?
  | scan _ r _ => r.transaction

namespace Exchange

/-- The transaction that is opened. -/
def opened? (e : Exchange) : Option String :=
  match e.reply with
  | .response (.ok (.transactionStarted started)) => some started.transaction
  | _ => none

/-- The transaction that is to be committed or aborted. -/
def ended? (e : Exchange) : Option String :=
  match e.question with
  | .request (.commitTransaction r) => some r.transaction
  | .request (.abortTransaction r) => some r.transaction
  | _ => none

/-- A transaction was opened, and it was neither to be committed nor to be aborted since. -/
def Live (log : List Exchange) (id : String) : Prop :=
  ∃ before e after, log = before ++ e :: after ∧ e.opened? = some id ∧
    ∀ e' ∈ after, e'.ended? ≠ some id

theorem not_live_nil (id : String) : ¬ Live [] id := by
  rintro ⟨before, e, after, h, -⟩
  exact absurd h.symm (by simp)

/-- After one more exchange those transactions live that it opens, and those that lived unless it
ends them. -/
theorem live_append_singleton (log : List Exchange) (e : Exchange) (id : String) :
    Live (log ++ [e]) id ↔ e.opened? = some id ∨ Live log id ∧ e.ended? ≠ some id := by
  constructor
  · rintro ⟨before, e', after, h, hopened, hafter⟩
    rcases List.eq_nil_or_concat after with rfl | ⟨after, last, rfl⟩
    · obtain ⟨-, he⟩ := List.append_inj' h rfl
      exact .inl (List.singleton_inj.1 he ▸ hopened)
    · rw [List.concat_eq_append, ← List.cons_append, ← List.append_assoc] at h
      obtain ⟨rfl, hlast⟩ := List.append_inj' h rfl
      obtain rfl := List.singleton_inj.1 hlast
      rw [List.concat_eq_append, List.forall_mem_append] at hafter
      exact .inr ⟨⟨before, e', after, rfl, hopened, hafter.1⟩, hafter.2 e (.head _)⟩
  · rintro (hopened | ⟨⟨before, e', after, rfl, hopened, hafter⟩, hended⟩)
    · exact ⟨log, e, [], rfl, hopened, List.forall_mem_nil _⟩
    · refine ⟨before, e', after ++ [e], by simp, hopened, List.forall_mem_append.2 ⟨hafter, ?_⟩⟩
      exact List.forall_mem_singleton.2 hended

theorem opened?_map {α : Type} {q : Question} (answer : Except ServiceError α) {f : α → Response}
    (h : ∀ a, (⟨q, .response (.ok (f a))⟩ : Exchange).opened? = none) :
    (⟨q, .response (answer.map f)⟩ : Exchange).opened? = none := by
  cases answer with
  | error e => rfl
  | ok a => exact h a

end Exchange

open Exchange

/-! ### Open transactions -/

namespace Store

theorem contains_stage (s : Store) (id id' : String) (w : Write) :
    (s.stage id w).2.transactions.contains id' = s.transactions.contains id' := by
  obtain ⟨e, hs⟩ | ⟨t, ht, hs⟩ := s.stage_cases id w
  · rw [hs]
  · rw [hs, Bool.eq_iff_iff, SortedMap.contains_insert_iff]
    refine or_iff_right_of_imp ?_
    rintro rfl
    rw [SortedMap.contains, ht]
    rfl

theorem contains_write (s : Store) (id : String) (w : Write) :
    (s.write w).2.transactions.contains id = s.transactions.contains id := by
  unfold write
  split
  · exact s.contains_stage _ id _
  · rfl

/-- A write opens no transaction. -/
theorem opened?_write (s : Store) (w : Write) {r : Request} (hr : s.answer r = s.write w) :
    (s.exchange (.request r)).opened? = none := by
  rw [exchange, ask, hr]
  unfold write
  split
  · next id _ =>
    obtain ⟨e, hs⟩ | ⟨t, -, hs⟩ := s.stage_cases id w.detached
    · rw [hs]
      rfl
    · rw [hs]
      cases w <;> rfl
  · cases w with
    | batch b => rfl
    | put r | update r | delete r => exact opened?_map _ fun _ => rfl

/-- What an exchange has to do with the open transactions: it leaves them alone, opens one, or ends
one, which need not be open. -/
theorem exchange_cases (s : Store) (q : Question) :
    ((s.exchange q).opened? = none ∧ (s.exchange q).ended? = none ∧
      ∀ id, (s.ask q).2.transactions.contains id = s.transactions.contains id) ∨
    (∃ id t, (s.exchange q).opened? = some id ∧ (s.exchange q).ended? = none ∧
      (s.ask q).2.transactions = s.transactions.insert id t) ∨
    ∃ id, (s.exchange q).opened? = none ∧ (s.exchange q).ended? = some id ∧
      (s.ask q).2.transactions = s.transactions.erase id := by
  cases q with
  | scan pageSize r token => exact .inl ⟨rfl, rfl, fun _ => rfl⟩
  | request r =>
    cases r with
    | putRow r | updateRow r | deleteRow r | batchWrite r =>
      exact .inl ⟨s.opened?_write _ rfl, rfl, fun id => s.contains_write id _⟩
    | listTables r | batchGet r => exact .inl ⟨rfl, rfl, fun _ => rfl⟩
    | describeTable r | getRow r | search r | updateTable r =>
      exact .inl ⟨opened?_map _ fun _ => rfl, rfl, fun _ => rfl⟩
    | createTable r =>
      refine .inl ⟨opened?_map _ fun _ => rfl, rfl, fun id => ?_⟩
      change (s.createTable r).2.transactions.contains id = _
      unfold createTable
      split <;> rfl
    | deleteTable r =>
      refine .inl ⟨opened?_map _ fun _ => rfl, rfl, fun id => ?_⟩
      change (s.deleteTable r).2.transactions.contains id = _
      unfold deleteTable
      split <;> rfl
    | startTransaction r =>
      by_cases ht : s.tables.contains r.table = true
      · refine .inr (.inl ⟨s.ids s.opened, { table := r.table }, ?_, rfl, ?_⟩)
        · simp [ask, answer, startTransaction, ht, opened?, Except.map]
        · simp [ask, answer, startTransaction, ht]
      · refine .inl ⟨?_, rfl, fun id => ?_⟩
        · simp [ask, answer, startTransaction, ht, opened?, Except.map]
        · simp [ask, answer, startTransaction, ht]
    | commitTransaction r =>
      refine .inr (.inr ⟨r.transaction, opened?_map _ fun _ => rfl, rfl, ?_⟩)
      change (s.commit r).2.transactions = _
      obtain ⟨hnone, hc⟩ | ⟨t, -, ⟨-, e, hc⟩ | ⟨-, hc⟩⟩ := s.commit_cases r
      · rw [hc, SortedMap.erase_eq_self hnone]
      · rw [hc]
      · rw [hc]
    | abortTransaction r =>
      refine .inr (.inr ⟨r.transaction, opened?_map _ fun _ => rfl, rfl, ?_⟩)
      change (s.abort r).2.transactions = _
      unfold abort
      split
      · rfl
      · next hnot => exact (SortedMap.erase_eq_self (by simpa [SortedMap.contains] using hnot)).symm

/-- The transactions that are open after a question: those that the exchange opens, and those that
were open unless it ends them. -/
theorem contains_ask (s : Store) (q : Question) (id : String) :
    (s.ask q).2.transactions.contains id = true ↔
      (s.exchange q).opened? = some id ∨
        s.transactions.contains id = true ∧ (s.exchange q).ended? ≠ some id := by
  obtain ⟨ho, he, ht⟩ | ⟨id', t, ho, he, ht⟩ | ⟨id', ho, he, ht⟩ := s.exchange_cases q
  · simp [ho, he, ht]
  · simp [ho, he, ht, SortedMap.contains_insert_iff]
  · simp [ho, he, ht, SortedMap.contains_erase_iff]

/-- The transactions that are open after a run are those that live. -/
theorem contains_run (log : List Exchange) {s : Store}
    (h : ∀ id, s.transactions.contains id = true ↔ Live log id) (qs : List Question) (id : String) :
    (s.run qs).2.transactions.contains id = true ↔ Live (log ++ (s.run qs).1) id := by
  induction qs generalizing log s with
  | nil =>
    rw [show (s.run []).1 = [] from rfl, List.append_nil]
    exact h id
  | cons q qs ih =>
    rw [run_cons, ← List.singleton_append, ← List.append_assoc]
    refine ih _ fun id => ?_
    rw [contains_ask, live_append_singleton, h]

/-- The transactions that are open after a run of a new store are those that live. -/
theorem run_contains_iff (ids : Nat → String) (qs : List Question) (id : String) :
    (run { ids } qs).2.transactions.contains id = true ↔
      Live (run { ids } qs).1 id :=
  contains_run []
    (fun id => ⟨fun h => Bool.noConfusion h, fun h => absurd h (not_live_nil id)⟩) qs id

end Store

/-! ### Refusals that are not about transactions -/

/-- A result is no refusal for want of a transaction. -/
def FreeOfSession {α : Type} (x : Except ServiceError α) : Prop :=
  ∀ e, x = .error e → e.code ≠ .sessionNotExist

namespace FreeOfSession

variable {α β : Type}

theorem ok (a : α) : FreeOfSession (.ok a) := nofun

theorem error {e : ServiceError} (h : e.code ≠ .sessionNotExist) :
    FreeOfSession (.error e : Except ServiceError α) :=
  FailsWith.error h

theorem bind {x : Except ServiceError α} {f : α → Except ServiceError β} (hx : FreeOfSession x)
    (hf : ∀ a, FreeOfSession (f a)) : FreeOfSession (x >>= f) :=
  FailsWith.bind hx hf

theorem map {x : Except ServiceError α} (hx : FreeOfSession x) (f : α → β) :
    FreeOfSession (x.map f) :=
  FailsWith.map hx f

theorem foldlM {f : β → α → Except ServiceError β} (hf : ∀ b a, FreeOfSession (f b a))
    (as : List α) (b : β) : FreeOfSession (as.foldlM f b) :=
  FailsWith.foldlM hf as b

end FreeOfSession

namespace FreeOfSession

theorem parameterInvalid {α : Type} (message : String) :
    FreeOfSession (.error (.parameterInvalid message) : Except ServiceError α) :=
  error ErrorCode.noConfusion

theorem sortKey (key : Key) : FreeOfSession key.sortKey := by
  refine FailsWith.mapM (fun c => ?_) key
  cases c.value with
  | autoIncrement => exact parameterInvalid _
  | _ => exact ok _

theorem ofToken (token : Bytes) : FreeOfSession (Key.ofToken token) := by
  unfold Key.ofToken
  dsimp only
  split
  · exact ok _
  · exact parameterInvalid _

theorem check (c : Condition) (existing : Option Row) : FreeOfSession (c.check existing) := by
  unfold Condition.check
  split
  · exact error ErrorCode.noConfusion
  · exact error ErrorCode.noConfusion
  · split
    · exact ok _
    · exact error ErrorCode.noConfusion

theorem target (t : Table) (key : Key) (c : Condition) : FreeOfSession (t.target key c) :=
  (sortKey key).bind fun k => (check c _).bind fun _ => ok k

theorem integerOf (row : Row) (column : String) : FreeOfSession (row.integerOf column) := by
  unfold Row.integerOf
  split
  · exact ok _
  · split
    · exact ok _
    · exact parameterInvalid _

theorem change (row : Row) (c : UpdateKind × ColumnOperand) : FreeOfSession (row.change c) := by
  obtain ⟨kind, o⟩ := c
  cases kind with
  | put =>
    change FreeOfSession (row.putOperand o)
    unfold Row.putOperand
    split
    · exact parameterInvalid _
    · exact ok _
  | delete | deleteAll => exact ok _
  | increment =>
    change FreeOfSession (row.addOperand o)
    unfold Row.addOperand
    split
    · exact parameterInvalid _
    · exact (integerOf row o.column).bind fun _ => ok _

theorem put (t : Table) (r : PutRow) : FreeOfSession (t.put r).1 := by
  unfold Table.put
  dsimp only
  split
  · next e he => exact error (target _ _ _ e he)
  · exact ok _

theorem updatedRow (t : Table) (r : UpdateRow) : FreeOfSession (t.updatedRow r) := by
  unfold Table.updatedRow
  split
  · exact parameterInvalid _
  · exact (target t _ _).bind fun k => (foldlM change _ _).bind fun row => ok (k, row)

theorem update (t : Table) (r : UpdateRow) : FreeOfSession (t.update r).1 := by
  unfold Table.update
  split
  · next e he => exact error (updatedRow t r e he)
  · exact ok _

theorem delete (t : Table) (r : DeleteRow) : FreeOfSession (t.delete r).1 := by
  unfold Table.delete
  split
  · next e he => exact error (target _ _ _ e he)
  · exact ok _

theorem find (ts : Tables) (name : String) : FreeOfSession (ts.find name) := by
  unfold Tables.find
  split
  · exact ok _
  · exact error ErrorCode.noConfusion

theorem act {α : Type} (ts : Tables) (name : String)
    {action : Table → Except ServiceError α × Table} (h : ∀ t, FreeOfSession (action t).1) :
    FreeOfSession (ts.act name action).1 := by
  unfold Tables.act
  split
  · exact h _
  · exact error ErrorCode.noConfusion

/-- No write is refused for want of a transaction when it is made. -/
theorem run (w : Write) (ts : Tables) : FreeOfSession (w.run ts).1 := by
  cases w with
  | put r => exact (act ts r.table fun t => put t r).map _
  | update r => exact (act ts r.table fun t => update t r).map _
  | delete r => exact (act ts r.table fun t => delete t r).map _
  | batch b => exact ok _

theorem runAll (ws : List Write) (ts : Tables) : FreeOfSession (Write.runAll ws ts) := by
  induction ws generalizing ts with
  | nil => exact ok ts
  | cons w ws ih =>
    rw [Write.runAll]
    split
    · exact ih _
    · next e _ he => exact error (run w ts e (congrArg (·.1) he))

end FreeOfSession

/-! ### Questions in a transaction -/

namespace Store

/-- A request in a transaction that is not open is refused and leaves no trace. -/
theorem answer_of_closed {s : Store} {r : Request} {id : String} (hr : r.transaction? = some id)
    (h : s.transactions.contains id = false) :
    s.answer r = (.error (.noTransaction id), s) := by
  have hget : s.transactions.get? id = none := by simpa [SortedMap.contains] using h
  have hwrite : ∀ w : Write, w.transaction? = some id →
      s.write w = (.error (.noTransaction id), s) := by
    intro w hw
    simp only [write, hw, stage, hget]
  cases r with
  | putRow r | updateRow r | deleteRow r | batchWrite r => exact hwrite _ hr
  | getRow r =>
    change r.transaction = some id at hr
    simp [answer, getRow, hr, h, bind, Except.bind, Except.map, throw, throwThe,
      MonadExceptOf.throw]
  | commitTransaction r =>
    obtain rfl := Option.some.inj hr
    simp [answer, commit, hget, Except.map]
  | abortTransaction r =>
    obtain rfl := Option.some.inj hr
    simp [answer, abort, h, Except.map]
  | _ => cases hr

/-- A request in a transaction that is open is not refused for want of the transaction. -/
theorem answer_of_open {s : Store} {r : Request} {id : String} (hr : r.transaction? = some id)
    (h : s.transactions.contains id = true) : FreeOfSession (s.answer r).1 := by
  obtain ⟨t, ht⟩ : ∃ t, s.transactions.get? id = some t := Option.isSome_iff_exists.1 h
  have hwrite : ∀ w : Write, w.transaction? = some id → FreeOfSession (s.write w).1 := by
    intro w hw
    simp only [write, hw, stage, ht]
    split
    · exact .parameterInvalid _
    · exact .ok _
  cases r with
  | putRow r | updateRow r | deleteRow r | batchWrite r => exact hwrite _ hr
  | getRow r =>
    change r.transaction = some id at hr
    refine FreeOfSession.map ?_ _
    simp only [getRow, hr, h]
    exact (FreeOfSession.find _ _).bind fun t =>
      ((FreeOfSession.sortKey _).map _).bind fun row => .ok _
  | commitTransaction r =>
    obtain rfl := Option.some.inj hr
    refine FreeOfSession.map (x := (s.commit r).1) ?_ _
    simp only [commit, ht]
    split
    · exact .ok _
    · next e he => exact .error (FreeOfSession.runAll _ _ e he)
  | abortTransaction r =>
    obtain rfl := Option.some.inj hr
    refine FreeOfSession.map (x := (s.abort r).1) ?_ _
    rw [abort, if_pos h]
    exact .ok _
  | _ => cases hr

/-- A page of a range is not refused for want of a transaction. -/
theorem scan_freeOfSession (s : Store) (pageSize : Nat) (r : GetRange) (token : Option Bytes) :
    FreeOfSession (s.scan pageSize r token) := by
  refine (FreeOfSession.find _ _).bind fun t => ?_
  have hcut : ∀ start : Key, FreeOfSession (do
      let first ← start.sortKey
      let stop ← r.stop.sortKey
      return Table.cut (Table.pageLength pageSize r.limit) r
        (t.range r.direction first stop)) := fun start =>
    (FreeOfSession.sortKey _).bind fun first => (FreeOfSession.sortKey _).bind fun stop => .ok _
  cases token with
  | none => exact hcut r.start
  | some bytes => exact (FreeOfSession.ofToken bytes).bind hcut

/-- A store heeds a transaction in a question: where it does not live, the question is refused for
that reason and leaves no trace, and where it lives, the question is not refused for want of it. -/
structure Heeds (s : Store) (live : Prop) (q : Question) (id : String) : Prop where
  /-- The question is refused if the transaction does not live. -/
  refused : ¬ live → (s.ask q).1.error? = some (.noTransaction id) ∧ (s.ask q).2 = s
  /-- The transaction is not missed if it lives. -/
  admitted : live → ∀ e, (s.ask q).1.error? = some e → e.code ≠ .sessionNotExist

/-- Requests heed their transactions. -/
theorem heeds_request {s : Store} {r : Request} {id : String} (hr : r.transaction? = some id) :
    s.Heeds (s.transactions.contains id = true) (.request r) id where
  refused h := by
    rw [ask, answer_of_closed hr (Bool.not_eq_true _ ▸ h)]
    exact ⟨rfl, rfl⟩
  admitted h e he := by
    change Reply.error? (.response (s.answer r).1) = some e at he
    cases ha : (s.answer r).1 with
    | error e' =>
      rw [ha] at he
      exact Option.some.inj he ▸ answer_of_open hr h e' ha
    | ok a =>
      rw [ha] at he
      cases he

/-- Pages heed only transactions that live. -/
theorem heeds_scan_iff {s : Store} {live : Prop} {pageSize : Nat} {r : GetRange}
    {token : Option Bytes} {id : String} :
    s.Heeds live (.scan pageSize r token) id ↔ live := by
  have hfree : ∀ e, (s.ask (.scan pageSize r token)).1.error? = some e →
      e.code ≠ .sessionNotExist := by
    intro e he
    change Reply.error? (.page (s.scan pageSize r token)) = some e at he
    cases hscan : s.scan pageSize r token with
    | error e' =>
      rw [hscan] at he
      exact Option.some.inj he ▸ s.scan_freeOfSession pageSize r token e' hscan
    | ok page =>
      rw [hscan] at he
      cases he
  constructor
  · intro h
    refine Classical.byContradiction fun hnot => ?_
    exact hfree _ (h.refused hnot).1 rfl
  · exact fun h => ⟨fun hnot => absurd h hnot, fun _ => hfree⟩

/-- **When a question heeds its transaction.**  After any run of a new store, a question in a
transaction is refused for want of it, and changes nothing, if what was said does not let the
transaction live, and is not refused for that reason if it does; unless the question asks for a
page of a range in a transaction that does not live. A page does not depend on its transaction at
all. -/
theorem run_heeds_exact (ids : Nat → String) (qs : List Question) {q : Question} {id : String}
    (h : q.transaction? = some id) :
    ((run { ids } qs).2.Heeds (Live (run { ids } qs).1 id) q id ↔
      ((∃ pageSize r token, q = .scan pageSize r token) → Live (run { ids } qs).1 id)) ∧
    ∀ pageSize r token, q = .scan pageSize r token →
      (run { ids } qs).2.ask q =
        (run { ids } qs).2.ask (.scan pageSize { r with transaction := none } token) := by
  cases q with
  | request r =>
    refine ⟨iff_of_true ?_ ?_, fun _ _ _ hq => by cases hq⟩
    · have hheeds := heeds_request (s := (run { ids } qs).2) h
      rwa [propext (run_contains_iff ids qs id)] at hheeds
    · rintro ⟨pageSize, r', token, hq⟩
      cases hq
  | scan pageSize r token =>
    refine ⟨heeds_scan_iff.trans ⟨fun hlive _ => hlive, fun hlive => hlive ⟨_, _, _, rfl⟩⟩, ?_⟩
    rintro _ _ _ ⟨⟩
    rfl

/-- A transaction is opened on a table and aborted. -/
def aborted : List Question :=
  [.request (.createTable { table := "t", keys := [] }),
   .request (.startTransaction { table := "t", key := ⟨"id", .integer 1⟩ }),
   .request (.abortTransaction ⟨":0:"⟩)]

theorem not_live_aborted : ¬ Live (run {} aborted).1 ":0:" := by
  rw [← run_contains_iff]
  exact Bool.false_ne_true

/-- A page of all rows in a transaction. -/
def pageIn (id : String) : Question :=
  .scan 10
    { table := "t", start := [⟨"id", .infMin⟩], stop := [⟨"id", .infMax⟩], transaction := some id }
    none

/-- A put heeds that its transaction was aborted, and a page does not. -/
theorem run_heeds_aborted :
    (run {} aborted).2.Heeds (Live (run {} aborted).1 ":0:")
      (.request (.putRow { table := "t", key := [], transaction := some ":0:" })) ":0:" ∧
    ¬ (run {} aborted).2.Heeds (Live (run {} aborted).1 ":0:") (pageIn ":0:") ":0:" := by
  have hput := (run_heeds_exact (Transaction.numbered "") aborted (q := .request (.putRow
    { table := "t", key := [], transaction := some ":0:" })) rfl).1
  have hpage := (run_heeds_exact (Transaction.numbered "") aborted (q := pageIn ":0:") rfl).1
  constructor
  · refine hput.2 ?_
    rintro ⟨_, _, _, hq⟩
    cases hq
  · exact fun h => not_live_aborted (hpage.1 h ⟨_, _, _, rfl⟩)

/-- A page may be answered in a transaction that was aborted. -/
theorem not_heeds_of_transaction :
    ¬ ∀ (ids : Nat → String) (qs : List Question) (q : Question) (id : String),
      Function.Injective ids → q.transaction? = some id →
      (run { ids } qs).2.Heeds (Live (run { ids } qs).1 id) q id := by
  intro h
  have hrefused := ((h _ aborted (pageIn ":0:") ":0:" (Transaction.numbered_injective "")
    rfl).refused not_live_aborted).1
  cases hrefused

end Store

end WideColumn
