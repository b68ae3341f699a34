import WideColumn.Proofs.Reachable

/-!
# Batches of writes

The rows of a batch are written one after the other in request order, across its tables, and a row
that fails does not keep the later ones from being written (`BatchWrite.runTables_spec`). An atomic
batch with a row that fails leaves the tables as they were and reports every row as failed
(`BatchWrite.run_atomic`).

* `Store.answer_atomic_batch` : an atomic batch is all or nothing.
-/

namespace WideColumn

namespace BatchWrite

/-- The rows to write in request order, each with its table. -/
def rowsOf (ws : List TableWrites) : List (String × RowWrite) :=
  ws.flatMap fun t => t.rows.map fun w => (t.table, w)

/-- The tables that writes of rows leave, one after the other. -/
def after (ws : List (String × RowWrite)) (ts : Tables) : Tables :=
  ws.foldl (fun ts w => (w.2.run w.1 ts).2) ts

/-- The answer to each write of a row, made on the tables that those before it leave. -/
def answers : List (String × RowWrite) → Tables → List (Except ServiceError RowWritten)
  | [], _ => []
  | w :: ws, ts => (w.2.run w.1 ts).1 :: answers ws (w.2.run w.1 ts).2

theorem after_append (ws vs : List (String × RowWrite)) (ts : Tables) :
    after (ws ++ vs) ts = after vs (after ws ts) :=
  List.foldl_append

theorem answers_append (ws vs : List (String × RowWrite)) (ts : Tables) :
    answers (ws ++ vs) ts = answers ws ts ++ answers vs (after ws ts) := by
  induction ws generalizing ts with
  | nil => rfl
  | cons w ws ih =>
    rw [List.cons_append, answers, ih]
    rfl

end BatchWrite

/-! ### Reports -/

namespace RowOutcome

/-- The report of a row by the answer to its write. -/
def report : Except ServiceError RowWritten → RowOutcome
  | .ok w => { isOk := true, row := w.row }
  | .error e => { isOk := false, errorCode := some e.code.name, errorMessage := some e.message }

/-- The report of a row of a batch that was undone, by the answer that its own write had. -/
def undoneReport : Except ServiceError RowWritten → RowOutcome
  | .ok _ =>
    { isOk := false, errorCode := some "OTSRowOperationConflict"
      errorMessage := some "atomic batch rolled back" }
  | .error e => { isOk := false, errorCode := some e.code.name, errorMessage := some e.message }

theorem ofResult_eq_report (a : Except ServiceError RowWritten) :
    ofResult (a.map (·.row)) = report a := by
  cases a <;> rfl

theorem undo_report (a : Except ServiceError RowWritten) :
    (report a).undo = undoneReport a := by
  cases a <;> rfl

theorem isOk_report (a : Except ServiceError RowWritten) : (report a).isOk = a.isOk := by
  cases a <;> rfl

theorem isOk_undoneReport (a : Except ServiceError RowWritten) :
    (undoneReport a).isOk = false := by
  cases a <;> rfl

end RowOutcome

/-- The reports of all rows in request order. -/
def BatchWritten.rows (out : BatchWritten) : List RowOutcome := out.tables.flatMap (·.rows)

/-! ### Running a batch -/

namespace BatchWrite

theorem runRows_eq (table : String) (ws : List RowWrite) (ts : Tables) :
    runRows table ws ts =
      ((answers (ws.map fun w => (table, w)) ts).map RowOutcome.report,
        after (ws.map fun w => (table, w)) ts) := by
  induction ws generalizing ts with
  | nil => rfl
  | cons w ws ih =>
    simp only [runRows, ih, RowOutcome.ofResult_eq_report]
    rfl

/-- The names of the tables and the numbers of their rows. -/
def shape (outcomes : List TableOutcomes) : List (String × Nat) :=
  outcomes.map fun t => (t.table, t.rows.length)

theorem length_answers (ws : List (String × RowWrite)) (ts : Tables) :
    (answers ws ts).length = ws.length := by
  induction ws generalizing ts with
  | nil => rfl
  | cons w ws ih => rw [answers, List.length_cons, ih, List.length_cons]

/-- The answer to a row is that of its write behind the rows before it. -/
theorem getElem?_answers (ws vs : List (String × RowWrite)) (w : String × RowWrite) (ts : Tables) :
    (answers (ws ++ w :: vs) ts)[ws.length]? = some (w.2.run w.1 (after ws ts)).1 := by
  rw [answers_append, List.getElem?_append_right (Nat.le_of_eq (length_answers ws ts)),
    length_answers, Nat.sub_self]
  rfl

/-- The rows of a batch are written one after the other and reported each for itself. -/
theorem runTables_spec (ws : List TableWrites) (ts : Tables) :
    (runTables ws ts).1.flatMap (·.rows) = (answers (rowsOf ws) ts).map RowOutcome.report ∧
    shape (runTables ws ts).1 = ws.map (fun t => (t.table, t.rows.length)) ∧
    (runTables ws ts).2 = after (rowsOf ws) ts := by
  induction ws generalizing ts with
  | nil => exact ⟨rfl, rfl, rfl⟩
  | cons w ws ih =>
    -- The rows of the first table come first in the whole batch.
    obtain ⟨hrows, hshape, hafter⟩ := ih (after (w.rows.map fun r => (w.table, r)) ts)
    have hcons : rowsOf (w :: ws) = w.rows.map (fun r => (w.table, r)) ++ rowsOf ws := rfl
    simp only [runTables, runRows_eq]
    refine ⟨?_, ?_, ?_⟩
    · rw [List.flatMap_cons, hrows, hcons, answers_append, List.map_append]
    · rw [shape, List.map_cons, List.map_cons, ← hshape, List.length_map, length_answers,
        List.length_map]
      rfl
    · rw [hafter, hcons, after_append]

/-- The report `out` and the tables `ts'` are those of a batch that is written to the tables `ts`
as a whole or not at all. -/
structure AllOrNothing (b : BatchWrite) (ts : Tables) (out : BatchWritten) (ts' : Tables) :
    Prop where
  /-- The report has the tables and the rows of the batch. -/
  shape_eq : shape out.tables = b.tables.map fun t => (t.table, t.rows.length)
  /-- If every row can be written in its turn, all are, and are reported as they answer. -/
  written : (∀ a ∈ answers (rowsOf b.tables) ts, a.isOk = true) →
    out.rows = (answers (rowsOf b.tables) ts).map RowOutcome.report ∧
    (∀ o ∈ out.rows, o.isOk = true) ∧ ts' = after (rowsOf b.tables) ts
  /-- If some row cannot, nothing is written, and no row is reported as written. -/
  undone : (∃ a ∈ answers (rowsOf b.tables) ts, a.isOk = false) →
    out.rows = (answers (rowsOf b.tables) ts).map RowOutcome.undoneReport ∧
    (∀ o ∈ out.rows, o.isOk = false) ∧ ts' = ts

theorem succeeded_runTables {ws : List TableWrites} {ts : Tables} :
    succeeded (runTables ws ts).1 = true ↔ ∀ a ∈ answers (rowsOf ws) ts, a.isOk = true := by
  have hrows := (runTables_spec ws ts).1
  have hflat : succeeded (runTables ws ts).1 =
      ((runTables ws ts).1.flatMap (·.rows)).all (·.isOk) := by
    rw [List.all_flatMap]
    rfl
  rw [hflat, hrows, List.all_map, List.all_eq_true]
  simp only [Function.comp_apply, RowOutcome.isOk_report]

theorem rows_undo (outcomes : List TableOutcomes) :
    BatchWritten.rows ⟨outcomes.map fun t => { t with rows := t.rows.map (·.undo) }⟩ =
      (outcomes.flatMap (·.rows)).map (·.undo) := by
  rw [BatchWritten.rows, List.flatMap_map, List.map_flatMap]

theorem shape_undo (outcomes : List TableOutcomes) :
    shape (outcomes.map fun t => { t with rows := t.rows.map (·.undo) }) = shape outcomes := by
  simp only [shape, List.map_map, Function.comp_def, List.length_map]

/-- An atomic batch is written as a whole or not at all. -/
theorem run_atomic {b : BatchWrite} (hb : b.isAtomic = some true) (ts : Tables) :
    b.AllOrNothing ts (b.run ts).1 (b.run ts).2 := by
  obtain ⟨hrows, hshape, hafter⟩ := runTables_spec b.tables ts
  rw [run_eq, hb]
  by_cases hall : ∀ a ∈ answers (rowsOf b.tables) ts, a.isOk = true
  · rw [if_neg (by simp [succeeded_runTables.2 hall])]
    refine ⟨hshape, fun _ => ⟨hrows, fun o ho => ?_, hafter⟩, fun ⟨a, ha, hok⟩ => ?_⟩
    · rw [BatchWritten.rows, hrows] at ho
      obtain ⟨a, ha, rfl⟩ := List.mem_map.1 ho
      rw [RowOutcome.isOk_report]
      exact hall a ha
    · rw [hall a ha] at hok
      cases hok
  · have hfail : succeeded (runTables b.tables ts).1 = false := by
      rw [← Bool.not_eq_true, succeeded_runTables]
      exact hall
    rw [if_pos (by simp [hfail])]
    have hundo : BatchWritten.rows
        ⟨(runTables b.tables ts).1.map fun t => { t with rows := t.rows.map (·.undo) }⟩ =
          (answers (rowsOf b.tables) ts).map RowOutcome.undoneReport := by
      rw [rows_undo, hrows, List.map_map]
      exact List.map_congr_left fun a _ => RowOutcome.undo_report a
    refine ⟨(shape_undo _).trans hshape, fun h => absurd h hall,
      fun _ => ⟨hundo, fun o ho => ?_, rfl⟩⟩
    rw [hundo] at ho
    obtain ⟨a, -, rfl⟩ := List.mem_map.1 ho
    exact RowOutcome.isOk_undoneReport a

end BatchWrite

/-! ### Batches as requests -/

namespace Store

/-- A write that a transaction holds back leaves the tables alone. -/
theorem tables_stage (s : Store) (id : String) (w : Write) :
    (s.stage id w).2.tables = s.tables := by
  obtain ⟨e, hs⟩ | ⟨t, -, hs⟩ := s.stage_cases id w
  · rw [hs]
  · rw [hs]

/-- **An atomic batch is all or nothing.**  Without a transaction it is written at once, as a whole
or not at all, and nothing but the tables changes. In a transaction it leaves the tables alone, and
when its turn comes it is written as a whole or not at all to the tables of that time; until then
it is neither (`not_atomic_when_answered`). -/
theorem answer_atomic_batch (s : Store) {b : BatchWrite} (hb : b.isAtomic = some true) :
    (b.transaction = none → ∃ out ts,
      s.answer (.batchWrite b) = (.ok (.batchWritten out), { s with tables := ts }) ∧
      b.AllOrNothing s.tables out ts) ∧
    ∀ id, b.transaction = some id →
      (s.answer (.batchWrite b)).2.tables = s.tables ∧
      ∀ ts, ∃ out ts', (Write.batch b).detached.run ts = (.ok (.batchWritten out), ts') ∧
        b.AllOrNothing ts out ts' := by
  refine ⟨fun ht => ?_, fun id ht => ⟨?_, fun ts => ?_⟩⟩
  · refine ⟨_, _, ?_, BatchWrite.run_atomic hb s.tables⟩
    simp only [answer, write, Write.transaction?, ht]
    rfl
  · simp only [answer, write, Write.transaction?, ht]
    exact s.tables_stage id _
  · exact ⟨_, _, rfl, BatchWrite.run_atomic hb ts⟩

/-- A batch whose second row cannot be written. -/
def halfRefused : BatchWrite where
  tables := [⟨"t", [{ kind := .put, key := [⟨"id", .integer 1⟩] },
    { kind := .delete, key := [⟨"id", .integer 2⟩], condition := { existence := .expectExist } }]⟩]
  isAtomic := some true

/-- The row that could have been written is reported as undone, and the table has no row. -/
theorem answer_halfRefused :
    ∃ out, (after {} [.createTable { table := "t", keys := [] }]).answer (.batchWrite halfRefused) =
        (.ok (.batchWritten out), after {} [.createTable { table := "t", keys := [] }]) ∧
      out.rows.map (·.errorCode) =
        [some "OTSRowOperationConflict", some "OTSConditionCheckFail"] := by
  obtain ⟨out, ts, hanswer, hall⟩ :=
    (answer_atomic_batch (after {} [.createTable { table := "t", keys := [] }])
      (b := halfRefused) rfl).1 rfl
  obtain ⟨hrows, -, rfl⟩ := hall.undone ⟨_, .tail _ (.head _), rfl⟩
  refine ⟨out, hanswer, ?_⟩
  rw [hrows]
  rfl

/-- An atomic batch in a transaction. -/
def atomicInTransaction : BatchWrite where
  tables := [⟨"t", [{ kind := .put, key := [⟨"id", .integer 1⟩] }]⟩]
  transaction := some ":0:"
  isAtomic := some true

/-- An atomic batch in a transaction is neither written nor undone when it is answered. -/
theorem not_atomic_when_answered :
    ¬ ∀ (s : Store) (b : BatchWrite), s.Reachable → b.isAtomic = some true → ∃ out ts,
      s.answer (.batchWrite b) = (.ok (.batchWritten out), { s with tables := ts }) ∧
      b.AllOrNothing s.tables out ts := by
  intro h
  have hs : (after {} [.createTable { table := "t", keys := [] },
      .startTransaction { table := "t", key := ⟨"id", .integer 1⟩ }]).Reachable :=
    .after (.new _) _
  obtain ⟨out, ts, hanswer, hall⟩ := h _ atomicInTransaction hs rfl
  have hsame := congrArg (fun answer => answer.2.tables) hanswer
  obtain ⟨-, -, hts⟩ := hall.written (by decide)
  -- The row would have been written, but the tables are the same.
  have hsize := congrArg (fun ts => (SortedMap.get? ts "t").map (·.rows.size)) (hsame.trans hts)
  exact absurd hsize (by decide)

end Store

end WideColumn
