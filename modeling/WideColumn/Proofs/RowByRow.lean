import WideColumn.Proofs.Allocation
import WideColumn.Proofs.Batch
import WideColumn.Proofs.Merge
import WideColumn.Proofs.Run
import WideColumn.Proofs.Scan

/-!
# Batches row by row

A row can be written by a call of its own or as a row of a batch. Both are described by the same
options, but different records read them: a row of a batch has no transaction of its own, and it
accepts options that not all calls do.

* `RowWrite.alone` : the write of a row of a batch on its own;
* `RowCall.request_eq` : the request of the call is that write, if it names no transaction;
* `Client.batchWrite_eq_calls` : a batch that is not atomic does what the calls do one by one.
-/

namespace WideColumn

/-! ### Rows of a batch on their own -/

namespace RowWrite

/-- The update of the row in a table, without its changes. -/
def asUpdate (w : RowWrite) (table : String) : UpdateRow where
  table
  key := w.key
  condition := w.condition
  returnType := w.returnType
  returnColumns := w.returnColumns

/-- The deletion of the row in a table. -/
def asDelete (w : RowWrite) (table : String) : DeleteRow where
  table
  key := w.key
  condition := w.condition
  returnType := w.returnType

/-- The write of the row on its own. -/
def alone (w : RowWrite) (table : String) : Write :=
  match w.kind with
  | .put => .put (w.asPut table)
  | .update => .update { w.asUpdate table with updates := w.updates }
  | .delete => .delete (w.asDelete table)

/-- Alone a row is written as in a batch. -/
theorem run_alone (w : RowWrite) (table : String) (ts : Tables) :
    (w.alone table).run ts = (w.run table ts).map (·.map .rowWritten) id := by
  obtain ⟨kind, key, cells, updates, condition, returnType, returnColumns⟩ := w
  cases kind <;> rfl

theorem transaction?_alone (w : RowWrite) (table : String) :
    (w.alone table).transaction? = none := by
  unfold alone
  cases w.kind <;> rfl

/-! ### Options -/

/-- A record reads the options that rows of a batch do, a transaction apart. -/
theorem agree_of_keys {ρ : Type} [Configurable ρ] {view : RowWrite → ρ}
    (hcondition : Configurable.Agree view "condition")
    (hreturnType : Configurable.Agree view "return_type")
    (hreturnColumns : Configurable.Agree view "return_columns")
    (hkeys : ∀ k ∈ Configurable.keys ρ,
      k ∈ ["condition", "return_type", "return_columns", "transaction_id"])
    {key : String} (h : key ≠ "transaction_id") : Configurable.Agree view key := by
  by_cases h₁ : key = "condition"
  · exact h₁ ▸ hcondition
  by_cases h₂ : key = "return_type"
  · exact h₂ ▸ hreturnType
  by_cases h₃ : key = "return_columns"
  · exact h₃ ▸ hreturnColumns
  have hnot : key ∉ ["condition", "return_type", "return_columns", "transaction_id"] := by
    simp [h₁, h₂, h₃, h]
  refine Configurable.agree_of_not_mem (fun hmem => hnot ?_) fun hmem => hnot (hkeys key hmem)
  exact List.mem_of_mem_take (i := 3) hmem

theorem agree_asPut (table : String) {key : String} (h : key ≠ "transaction_id") :
    Configurable.Agree (fun w => asPut w table) key := by
  refine agree_of_keys ?_ ?_ ?_ (by decide) h
  · exact Setting.through_of fun _ _ => rfl
  · exact Setting.through_of fun _ _ => rfl
  · exact Setting.keeps_of fun _ _ => rfl

theorem agree_asUpdate (table : String) {key : String} (h : key ≠ "transaction_id") :
    Configurable.Agree (fun w => asUpdate w table) key := by
  refine agree_of_keys ?_ ?_ ?_ (by decide) h
  · exact Setting.through_of fun _ _ => rfl
  · exact Setting.through_of fun _ _ => rfl
  · exact Setting.through_of fun _ _ => rfl

theorem agree_asDelete (table : String) {key : String} (h : key ≠ "transaction_id") :
    Configurable.Agree (fun w => asDelete w table) key := by
  refine agree_of_keys ?_ ?_ ?_ (by decide) h
  · exact Setting.through_of fun _ _ => rfl
  · exact Setting.through_of fun _ _ => rfl
  · exact Setting.keeps_of fun _ _ => rfl

/-- What a row does, and the changes of an update, are no options of the record. -/
theorem merge_kind {r r' : RowWrite} {options : OptionList} (h : merge r options = .ok r') :
    r'.kind = r.kind ∧ r'.updates = r.updates := by
  have hkeeps : ∀ s ∈ Configurable.settings (ρ := RowWrite),
      s.Keeps fun r => (r.kind, r.updates) := by
    simp only [Configurable.settings, List.forall_mem_cons, List.not_mem_nil, false_imp_iff,
      implies_true, and_true]
    and_intros <;> exact Setting.keeps_of fun _ _ => rfl
  simpa using merge_keeps hkeeps h

end RowWrite

/-- The tables of a batch are no options. -/
theorem BatchWrite.merge_tables {r r' : BatchWrite} {options : OptionList}
    (h : merge r options = .ok r') : r'.tables = r.tables := by
  have hkeeps : ∀ s ∈ Configurable.settings (ρ := BatchWrite), s.Keeps fun r => r.tables := by
    simp only [Configurable.settings, List.forall_mem_cons, List.not_mem_nil, false_imp_iff,
      implies_true, and_true]
    and_intros <;> exact Setting.keeps_of fun _ _ => rfl
  exact merge_keeps hkeeps h

/-! ### Calls -/

/-- A write of a row as a caller describes it. Only a put has cells. -/
structure RowCall where
  /-- The table. -/
  table : String
  /-- What the write does. -/
  kind : WriteKind
  /-- Key of the row. -/
  key : Key
  /-- Cells of a put. -/
  cells : List Cell := []
  /-- What the write expects and returns, and the changes of an update. -/
  options : OptionList := {}

namespace RowCall

/-- The call that writes the row on its own. -/
def call (w : RowCall) : Call RowWritten :=
  match w.kind with
  | .put => .putRow w.table w.key w.cells w.options
  | .update => .updateRow w.table w.key w.options
  | .delete => .deleteRow w.table w.key w.options

/-- The row of a batch with its table. -/
def row (w : RowCall) : Except Error (String × RowWrite) :=
  (RowWrite.ofOptions (Enumeration.symbol w.kind) w.key w.cells w.options).map (w.table, ·)

/-- No transaction is named. -/
def IsFree (w : RowCall) : Prop := ∀ e ∈ w.options.entries, e.1 ≠ "transaction_id"

theorem answer?_call (w : RowCall) : w.call.answer? = Response.rowWritten? := by
  unfold call
  cases w.kind <;> rfl

/-- If a row of a batch can be made of the options, the call makes the write of that row. -/
theorem request_eq {w : RowCall} {table : String} {r : RowWrite} (hfree : w.IsFree)
    (h : w.row = .ok (table, r)) : w.call.request = .ok (r.alone table).request := by
  obtain ⟨r', hr, heq⟩ := map_eq_ok.1 h
  obtain ⟨rfl, rfl⟩ := Prod.mk.inj heq
  obtain ⟨table, kind, key, cells, options⟩ := w
  unfold RowWrite.alone
  cases kind with
  | put =>
    change RowWrite.put key cells options = .ok r' at hr
    have hput : merge { table, key, cells } options = .ok (r'.asPut table) :=
      merge_view (fun e he => RowWrite.agree_asPut table (hfree e he)) hr
    rw [(RowWrite.merge_kind hr).1]
    exact map_eq_ok.2 ⟨_, hput, rfl⟩
  | update =>
    -- The changes are collected before the options are merged on the one side, and after it on
    -- the other.
    change RowWrite.update key options = .ok r' at hr
    obtain ⟨updates, hupdates, hr⟩ := bind_eq_ok.1 hr
    have hupdate : merge { table, key } options = .ok (r'.asUpdate table) :=
      merge_view (fun e he => RowWrite.agree_asUpdate table (hfree e he)) hr
    rw [(RowWrite.merge_kind hr).1, (RowWrite.merge_kind hr).2]
    exact map_eq_ok.2 ⟨_, bind_eq_ok.2 ⟨_, hupdate, bind_eq_ok.2 ⟨updates, hupdates, rfl⟩⟩, rfl⟩
  | delete =>
    change RowWrite.delete key options = .ok r' at hr
    have hdelete : merge { table, key } options = .ok (r'.asDelete table) :=
      merge_view (fun e he => RowWrite.agree_asDelete table (hfree e he)) hr
    rw [(RowWrite.merge_kind hr).1]
    exact map_eq_ok.2 ⟨_, hdelete, rfl⟩

end RowCall

/-- A row on its own is written at once. -/
theorem Store.answer_alone (s : Store) (w : RowWrite) (table : String) :
    s.answer (w.alone table).request =
      (w.run table s.tables).map (·.map .rowWritten) fun tables => { s with tables } := by
  have hwrite : s.answer (w.alone table).request = s.write (w.alone table) := by
    cases w.alone table <;> rfl
  rw [hwrite, Store.write, RowWrite.transaction?_alone]
  simp only [RowWrite.run_alone]
  rfl

/-- A batch that is not atomic and in no transaction writes its rows one after the other, and
reports each for itself. -/
theorem Store.answer_batchWrite (s : Store) {b : BatchWrite} (hfree : b.transaction = none)
    (hatomic : b.isAtomic ≠ some true) :
    ∃ out, s.answer (.batchWrite b) = (.ok (.batchWritten out),
        { s with tables := BatchWrite.after (BatchWrite.rowsOf b.tables) s.tables }) ∧
      BatchWrite.shape out.tables = b.tables.map (fun t => (t.table, t.rows.length)) ∧
      out.rows = (BatchWrite.answers (BatchWrite.rowsOf b.tables) s.tables).map
        RowOutcome.report := by
  obtain ⟨hrows, hshape, hafter⟩ := BatchWrite.runTables_spec b.tables s.tables
  refine ⟨⟨(BatchWrite.runTables b.tables s.tables).1⟩, ?_, hshape, hrows⟩
  rw [← hafter]
  simp only [answer, write, Write.transaction?, hfree, Write.run, BatchWrite.run_eq]
  rw [if_neg (by simp [hatomic])]
  rfl

/-! ### Runs -/

namespace Client

variable {τ σ α : Type}

/-- Make calls one after the other, whatever their answers are. -/
def runEach (c : Client τ) (net : Network τ σ) (instanceName : String) :
    List (Call α) → σ → List (Except Error α) × σ
  | [], s => ([], s)
  | call :: calls, s =>
    let (answer, s) := c.run net instanceName call s
    let (answers, s) := runEach c net instanceName calls s
    (answer :: answers, s)

/-- A server that is not told to fail answers calls from its store. -/
theorem run_ofServers {c : Client Nat} {cl : Cluster} {instanceName : String} {i : Nat}
    {v : Server} (hc : c.transport instanceName = .ok i) (hv : cl[i]? = some v)
    (hf : v.failNext = none) {call : Call α} {r : Request} (hr : call.request = .ok r) :
    c.run .ofServers instanceName call cl =
      (reply call r.operation (v.store.answer r).1, cl.set i { v with
        store := (v.store.answer r).2
        log := v.log ++ [(instanceName, r.operation)]
        failNext := none }) := by
  simp only [run, hr, hc, Network.ofServers, Cluster.ask, hv, Server.submit, Server.receive, hf,
    Prod.map, id]

theorem reply_rowWritten {call : Call RowWritten} (h : call.answer? = Response.rowWritten?)
    (op : Operation) (answer : Except ServiceError RowWritten) :
    reply call op (answer.map .rowWritten) = answer.mapError .service := by
  cases answer with
  | error e => rfl
  | ok a =>
    simp only [reply, Except.map, h]
    rfl

/-- A call answers like the row of a batch. -/
theorem run_call {c : Client Nat} {cl : Cluster} {instanceName : String} {i : Nat} {v : Server}
    (hc : c.transport instanceName = .ok i) (hv : cl[i]? = some v) (hf : v.failNext = none)
    {w : RowCall} {table : String} {r : RowWrite} (hfree : w.IsFree)
    (hrow : w.row = .ok (table, r)) :
    ∃ v', c.run .ofServers instanceName w.call cl =
        ((r.run table v.store.tables).1.mapError .service, cl.set i v') ∧
      v'.store = { v.store with tables := (r.run table v.store.tables).2 } ∧
      v'.failNext = none := by
  refine ⟨_, (run_ofServers hc hv hf (RowCall.request_eq hfree hrow)).trans (Prod.ext ?_ rfl),
    ?_, rfl⟩
  · rw [Store.answer_alone]
    exact reply_rowWritten w.answer?_call _ _
  · exact congrArg (·.2) (v.store.answer_alone r table)

/-- The calls answer like the rows of a batch, written one after the other. -/
theorem runEach_calls {c : Client Nat} {instanceName : String} {i : Nat}
    (hc : c.transport instanceName = .ok i) {ws : List RowCall}
    {rows : List (String × RowWrite)} (hfree : ∀ w ∈ ws, w.IsFree)
    (hrows : ws.mapM RowCall.row = .ok rows) {cl : Cluster} {v : Server} (hv : cl[i]? = some v)
    (hf : v.failNext = none) :
    ∃ cl', c.runEach .ofServers instanceName (ws.map (·.call)) cl =
        ((BatchWrite.answers rows v.store.tables).map (·.mapError .service), cl') ∧
      cl'.map (·.store) = (cl.map (·.store)).set i
        { v.store with tables := BatchWrite.after rows v.store.tables } := by
  induction ws generalizing rows cl v with
  | nil =>
    obtain rfl := pure_eq_ok.1 hrows
    obtain ⟨hi, rfl⟩ := List.getElem?_eq_some_iff.1 hv
    have hset := congrArg (List.map (·.store)) (List.set_getElem_self hi)
    rw [List.map_set] at hset
    exact ⟨cl, rfl, hset.symm⟩
  | cons w ws ih =>
    obtain ⟨⟨table, r⟩, rest, hrow, hrest, rfl⟩ := mapM_cons_eq_ok.1 hrows
    obtain ⟨hw, hfree⟩ := List.forall_mem_cons.1 hfree
    have hi := (List.getElem?_eq_some_iff.1 hv).1
    obtain ⟨v', hrun, hstore, hf'⟩ := run_call hc hv hf hw hrow
    obtain ⟨cl', hcalls, hstores⟩ := ih hfree hrest (List.getElem?_set_self hi) hf'
    -- The next call finds the tables that this one leaves, as the next row of the batch does.
    rw [hstore] at hcalls hstores
    refine ⟨cl', ?_, ?_⟩
    · rw [List.map_cons, runEach, hrun]
      dsimp only
      rw [hcalls]
      rfl
    · rw [hstores, List.map_set, List.set_set]
      rfl

/-- A batch that is not atomic and in no transaction is answered with the reports of its rows. -/
theorem run_batchWrite {c : Client Nat} {cl : Cluster} {instanceName : String} {i : Nat}
    {v : Server} (hc : c.transport instanceName = .ok i) (hv : cl[i]? = some v)
    (hf : v.failNext = none) {tables : List TableWrites} {options : OptionList} {b : BatchWrite}
    (hb : merge { tables } options = .ok b) (hfree : b.transaction = none)
    (hatomic : b.isAtomic ≠ some true) :
    ∃ out cl', c.run .ofServers instanceName (.batchWrite tables options) cl = (.ok out, cl') ∧
      BatchWrite.shape out.tables = tables.map (fun t => (t.table, t.rows.length)) ∧
      out.rows = (BatchWrite.answers (BatchWrite.rowsOf tables) v.store.tables).map
        RowOutcome.report ∧
      cl'.map (·.store) = (cl.map (·.store)).set i { v.store with
        tables := BatchWrite.after (BatchWrite.rowsOf tables) v.store.tables } := by
  obtain ⟨out, hanswer, hshape, hrows⟩ := v.store.answer_batchWrite hfree hatomic
  rw [BatchWrite.merge_tables hb] at hanswer hshape hrows
  have hrequest : (Call.batchWrite tables options).request = .ok (.batchWrite b) :=
    map_eq_ok.2 ⟨b, hb, rfl⟩
  have hcall := run_ofServers hc hv hf hrequest
  rw [hanswer] at hcall
  exact ⟨_, _, hcall, hshape, hrows, List.map_set⟩

/-- **A batch does what its rows do one by one.**  The rows of a batch that is not atomic and in no
transaction are put together of the same descriptions as calls, none of which names a transaction.
Then the batch leaves the store as the calls do, made in the same order whatever their answers are;
and its reports are, row by row, those of the answers of the calls: the row that is returned, or
the code and the message of the error. -/
theorem batchWrite_eq_calls {c : Client Nat} {cl : Cluster} {instanceName : String} {i : Nat}
    {v : Server} {ws : List RowCall} {tables : List TableWrites} {options : OptionList}
    {b : BatchWrite} (hc : c.transport instanceName = .ok i) (hv : cl[i]? = some v)
    (hf : v.failNext = none) (hfree : ∀ w ∈ ws, w.IsFree)
    (hrows : ws.mapM RowCall.row = .ok (BatchWrite.rowsOf tables))
    (hb : merge { tables } options = .ok b) (htransaction : b.transaction = none)
    (hatomic : b.isAtomic ≠ some true) :
    ∃ out, ∃ answers : List (Except ServiceError RowWritten), ∃ cl₁ cl₂,
      c.run .ofServers instanceName (.batchWrite tables options) cl = (.ok out, cl₁) ∧
      c.runEach .ofServers instanceName (ws.map (·.call)) cl =
        (answers.map (·.mapError .service), cl₂) ∧
      cl₁.map (·.store) = cl₂.map (·.store) ∧
      BatchWrite.shape out.tables = tables.map (fun t => (t.table, t.rows.length)) ∧
      out.rows = answers.map RowOutcome.report := by
  obtain ⟨out, cl₁, hbatch, hshape, hreports, hstores₁⟩ :=
    run_batchWrite hc hv hf hb htransaction hatomic
  obtain ⟨cl₂, hcalls, hstores₂⟩ := runEach_calls hc hfree hrows hv hf
  exact ⟨out, _, cl₁, cl₂, hbatch, hcalls, hstores₁.trans hstores₂.symm, hshape, hreports⟩

/-- A server with one empty table. -/
def withTable : Server where
  store := Store.after {} [.createTable { table := "t", keys := [] }]

/-- A put under a key to come, an update of the row that it stores, a put into a table that does
not exist, and the deletion of a row that does not exist. -/
def mixed : List RowCall :=
  [{ table := "t"
     kind := .put
     key := [⟨"id", .autoIncrement⟩]
     options := ⟨[("return_type", .symbol "pk")]⟩ },
   { table := "t"
     kind := .update
     key := numbered 1
     options := ⟨[("increment", .operands [{ column := "n", value := some (.integer 2) }]),
      ("condition", .symbol "expect_exist"), ("return_columns", .symbol "n"),
      ("return_type", .symbol "after_modify")]⟩ },
   { table := "u", kind := .put, key := numbered 1 },
   { table := "t"
     kind := .delete
     key := numbered 2
     options := ⟨[("condition", .symbol "expect_exist")]⟩ }]

/-- The batch of the same rows. -/
def mixedTables : List TableWrites :=
  [⟨"t", [
    { kind := .put, key := [⟨"id", .autoIncrement⟩], returnType := .key },
    { kind := .update
      key := numbered 1
      updates := { increment := some [{ column := "n", value := some (.integer 2) }] }
      condition := { existence := .expectExist }
      returnType := .afterModify
      returnColumns := ["n"] }]⟩,
   ⟨"u", [{ kind := .put, key := numbered 1 }]⟩,
   ⟨"t", [
    { kind := .delete, key := numbered 2, condition := { existence := .expectExist } }]⟩]

/-- The first two rows are written, the second because the first was. -/
theorem batchWrite_mixed :
    ∃ out, ∃ answers : List (Except ServiceError RowWritten), ∃ cl₁ cl₂,
      ofOne.run .ofServers "main" (.batchWrite mixedTables ⟨[]⟩) [withTable] = (.ok out, cl₁) ∧
      ofOne.runEach .ofServers "main" (mixed.map (·.call)) [withTable] =
        (answers.map (·.mapError .service), cl₂) ∧
      cl₁.map (·.store) = cl₂.map (·.store) ∧ out.rows = answers.map RowOutcome.report ∧
      out.rows.map (fun o => (o.row.map (·.cells.length), o.errorCode)) =
        [(some 0, none), (some 1, none), (none, some "OTSObjectNotExist"),
          (none, some "OTSConditionCheckFail")] := by
  have hc : ofOne.transport "main" = .ok 0 := rfl
  have hv : [withTable][0]? = some withTable := rfl
  have hfree : ∀ w ∈ mixed, w.IsFree := by
    unfold RowCall.IsFree
    decide
  have hrows : mixed.mapM RowCall.row = .ok (BatchWrite.rowsOf mixedTables) := rfl
  have hb : merge ({ tables := mixedTables } : BatchWrite) ⟨[]⟩ = .ok _ := rfl
  obtain ⟨out, answers, cl₁, cl₂, hbatch, hcalls, hstores, -, hreports⟩ :=
    batchWrite_eq_calls hc hv rfl hfree hrows hb rfl (by decide)
  refine ⟨out, answers, cl₁, cl₂, hbatch, hcalls, hstores, hreports, ?_⟩
  have hrun : ofOne.run .ofServers "main" (.batchWrite mixedTables ⟨[]⟩) [withTable] =
    (.ok _, _) := rfl
  obtain rfl := Except.ok.inj (Prod.mk.inj (hrun.symm.trans hbatch)).1
  rfl

end Client

end WideColumn
