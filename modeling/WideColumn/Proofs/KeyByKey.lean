import WideColumn.Proofs.Identity
import WideColumn.Proofs.Merge

/-!
# Batches of reads, key by key

A query of a batch reads rows of one table under the same options. The options are those of a read
of one row, a transaction apart, and are merged with the same outcome (`RowsCall.request_call`).
Then each key of the query is read as that read reads its row, and what becomes of it is reported in
its place: the row, or the error.

* `Store.batchGet_exact` : a batch of reads reports what reads of its rows answer.
-/

namespace WideColumn

/-! ### Options -/

/-- The read of one row with the options of a query. -/
def RowsQuery.single (q : RowsQuery) (key : Key) : GetRow where
  table := q.table
  key
  columns := q.columns
  maxVersions := q.maxVersions
  timeRange := q.timeRange
  filter := q.filter
  startColumn := q.startColumn
  endColumn := q.endColumn

/-- The read of one row knows the options of a query, and a transaction. -/
theorem RowsQuery.mirrors_single (key : Key) {k : String} (h : k ≠ "transaction_id") :
    Configurable.Mirrors (fun q => RowsQuery.single q key) k := by
  by_cases hmem : k ∈ Configurable.keys RowsQuery
  · simp only [Configurable.keys, Configurable.settings, List.map_cons, List.map_nil,
      List.mem_cons, List.not_mem_nil, or_false] at hmem
    rcases hmem with rfl | rfl | rfl | rfl | rfl | rfl <;>
      exact Setting.mirrors_of fun _ _ => rfl
  · refine Configurable.mirrors_of_not_mem hmem fun hmem' => ?_
    have hkeys : Configurable.keys GetRow = Configurable.keys RowsQuery ++ ["transaction_id"] := rfl
    rw [hkeys, List.mem_append, List.mem_singleton] at hmem'
    exact hmem'.elim hmem h

/-- The table and the keys of a query are no options. -/
theorem RowsQuery.merge_keys {q q' : RowsQuery} {options : OptionList}
    (h : merge q options = .ok q') : q'.table = q.table ∧ q'.keys = q.keys := by
  have hkeeps : ∀ s ∈ Configurable.settings (ρ := RowsQuery),
      s.Keeps fun q => (q.table, q.keys) := by
    simp only [Configurable.settings, List.forall_mem_cons, List.not_mem_nil, false_imp_iff,
      implies_true, and_true]
    and_intros <;> exact Setting.keeps_of fun _ _ => rfl
  simpa using merge_keeps hkeeps h

/-! ### Queries -/

/-- Rows to read of a table as a caller describes them. -/
structure RowsCall where
  /-- The table. -/
  table : String
  /-- Keys of the rows. -/
  keys : List Key
  /-- What is read of the rows. -/
  options : OptionList := {}

namespace RowsCall

/-- The rows as part of a batch. -/
def query (q : RowsCall) : Except Error RowsQuery := RowsQuery.ofOptions q.table q.keys q.options

/-- The call that reads one row. -/
def call (q : RowsCall) (key : Key) : Call RowRead := .getRow q.table key q.options

/-- No transaction is named. -/
def IsFree (q : RowsCall) : Prop := ∀ e ∈ q.options.entries, e.1 ≠ "transaction_id"

/-- The read of one row is made of the options like the query, or fails with the same error. -/
theorem request_call {q : RowsCall} (h : q.IsFree) (key : Key) :
    (q.call key).request = q.query.map fun query => .getRow (query.single key) := by
  have hmerge := merge_map (fun e he => RowsQuery.mirrors_single key (h e he))
    ({ table := q.table, keys := q.keys } : RowsQuery)
  change (merge ({ table := q.table, key } : GetRow) q.options).map Request.getRow = _
  rw [show merge ({ table := q.table, key } : GetRow) q.options = q.query.map (·.single key)
    from hmerge]
  cases q.query <;> rfl

end RowsCall

/-! ### Reads -/

namespace RowOutcome

/-- The report of a row by the answer to its read. -/
def readReport : Except ServiceError RowRead → RowOutcome
  | .ok read => { isOk := true, row := read.row }
  | .error e => { isOk := false, errorCode := some e.code.name, errorMessage := some e.message }

theorem ofResult_eq_readReport (a : Except ServiceError RowRead) :
    ofResult (a.map (·.row)) = readReport a := by
  cases a <;> rfl

end RowOutcome

namespace Store

/-- What becomes of a key of a query is what a read of its row answers. -/
theorem readAll_eq (s : Store) (q : RowsQuery) :
    s.readAll q = ⟨q.table, q.keys.map fun key => .readReport (s.getRow (q.single key))⟩ := by
  have hread (key : Key) : (s.getRow (q.single key)).map (·.row) =
      (s.tables.find q.table).bind fun t => t.read key q.columns q.filter := by
    have hfree : (q.single key).transaction.all s.transactions.contains = true := rfl
    rw [getRow_eq, if_pos hfree]
    show Except.map _ (Except.map _ ((s.tables.find q.table).bind
      fun t => t.read key q.columns q.filter)) = _
    cases (s.tables.find q.table).bind fun t => t.read key q.columns q.filter <;> rfl
  simp only [readAll, ← hread, RowOutcome.ofResult_eq_readReport]

/-- What becomes of a key is what the call that reads its row is answered. -/
def ReportsRow (s : Store) (q : RowsCall) (key : Key) (o : RowOutcome) : Prop :=
  ∃ (r : Request) (answer : Except ServiceError RowRead), (q.call key).request = .ok r ∧
    s.answer r = (answer.map .rowRead, s) ∧ o = .readReport answer

/-- So it is for all keys of a query, in order. -/
structure Reports (s : Store) (q : RowsCall) (o : TableOutcomes) : Prop where
  /-- The table is that of the query. -/
  table : o.table = q.table
  /-- The rows are those of the keys. -/
  rows : List.Forall₂ (s.ReportsRow q) q.keys o.rows

theorem reports_readAll (s : Store) {q : RowsCall} (hfree : q.IsFree) {query : RowsQuery}
    (hquery : q.query = .ok query) : s.Reports q (s.readAll query) := by
  obtain ⟨htable, hkeys⟩ := RowsQuery.merge_keys hquery
  rw [readAll_eq, hkeys]
  refine ⟨htable, List.forall₂_map_right_iff.2 (List.forall₂_same.2 fun key _ => ?_)⟩
  have hrequest : (q.call key).request = .ok (.getRow (query.single key)) := by
    rw [RowsCall.request_call hfree, hquery]
    rfl
  exact ⟨_, s.getRow (query.single key), hrequest, rfl, rfl⟩

/-- **A batch of reads does what its reads do one by one.** A query that names no transaction can be
made of its options exactly if the read of each row can, and with the same error otherwise. A batch
of such queries, whatever the store, changes nothing and reports of each query in turn, and in it of
each key in turn, what the read of this row alone answers: the row, or the code and the message of
the error. -/
theorem batchGet_exact (s : Store) {qs : List RowsCall} (hfree : ∀ q ∈ qs, q.IsFree) :
    (∀ q ∈ qs, ∀ key, (q.call key).request =
      q.query.map fun query => .getRow (query.single key)) ∧
    ∀ queries, qs.mapM RowsCall.query = .ok queries →
      ∃ out, s.answer (.batchGet { tables := queries }) = (.ok (.batchRead out), s) ∧
        List.Forall₂ s.Reports qs out.tables := by
  refine ⟨fun q hq => RowsCall.request_call (hfree q hq), fun queries hqueries => ⟨_, rfl, ?_⟩⟩
  show List.Forall₂ s.Reports qs (queries.map s.readAll)
  have hmade := (List.forall₂_and_left _ _).2 ⟨hfree, mapM_eq_ok_iff_forall₂.1 hqueries⟩
  refine List.forall₂_map_right_iff.2 (hmade.imp fun q query hq => ?_)
  exact s.reports_readAll hq.1 hq.2

/-- Two queries of one table, and one of a table that is not there. -/
def threeQueries : List RowsCall :=
  [{ table := "t"
     keys := [[⟨"id", .integer 1⟩], [⟨"id", .integer 2⟩], [⟨"id", .autoIncrement⟩]]
     options := ⟨[("columns_to_get", .columns ["a"])]⟩ },
   { table := "u", keys := [[⟨"id", .integer 1⟩]] },
   { table := "t", keys := [[⟨"id", .integer 1⟩]], options := ⟨[("max_versions", .integer 1)]⟩ }]

/-- A row is found twice, and two reads fail each for itself. -/
theorem batchGet_threeQueries :
    ∃ queries out, threeQueries.mapM RowsCall.query = .ok queries ∧
      (withRows [.integer 1]).answer (.batchGet { tables := queries }) =
        (.ok (.batchRead out), withRows [.integer 1]) ∧
      List.Forall₂ (withRows [.integer 1]).Reports threeQueries out.tables ∧
      out.tables.map (fun o => (o.table, o.rows.map fun row => (row.row.isSome, row.errorCode))) =
        [("t", [(true, none), (false, none), (false, some "OTSParameterInvalid")]),
          ("u", [(false, some "OTSObjectNotExist")]), ("t", [(true, none)])] := by
  have hfree : ∀ q ∈ threeQueries, q.IsFree := by
    unfold RowsCall.IsFree
    decide
  obtain ⟨out, hanswer, hreports⟩ := (batchGet_exact (withRows [.integer 1]) hfree).2 _ rfl
  refine ⟨_, out, rfl, hanswer, hreports, ?_⟩
  obtain rfl := Response.batchRead.inj (Except.ok.inj (Prod.mk.inj hanswer).1)
  decide

end Store

end WideColumn
