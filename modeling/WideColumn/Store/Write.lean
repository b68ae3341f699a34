import WideColumn.Store.Table

/-!
# Writes

A write changes the rows of one table, or, as a batch, the rows of several. It concerns the tables
only; transactions hold writes back and make them later.

In a batch each row is written for itself and what becomes of it is reported row by row. An atomic
batch with a row that fails leaves the tables as they were.
-/

namespace WideColumn

/-- Tables by name. -/
abbrev Tables := SortedMap String Table

namespace Tables

/-- A table by name. -/
def find (ts : Tables) (name : String) : Except ServiceError Table :=
  match ts.get? name with
  | some t => .ok t
  | none => .error (.noTable name)

/-- Let something act on the table of a name. -/
def act {α : Type} (ts : Tables) (name : String)
    (action : Table → Except ServiceError α × Table) : Except ServiceError α × Tables :=
  match ts.get? name with
  | some t => let (answer, t) := action t; (answer, ts.insert name t)
  | none => (.error (.noTable name), ts)

end Tables

/-! ### Rows of a batch -/

namespace RowOutcome

/-- What is reported of a row. -/
def ofResult : Except ServiceError (Option Row) → RowOutcome
  | .ok row => { isOk := true, row }
  | .error e => { errorCode := some e.code.name, errorMessage := some e.message }

/-- What is reported of a row that was written in vain because another failed. -/
def undone : RowOutcome :=
  { errorCode := some ErrorCode.rowOperationConflict.name
    errorMessage := some "atomic batch rolled back" }

/-- What is reported of a row after all was undone. -/
def undo (o : RowOutcome) : RowOutcome := if o.isOk then undone else o

end RowOutcome

/-- Write one row of a batch. -/
def RowWrite.run (w : RowWrite) (table : String) (ts : Tables) :
    Except ServiceError RowWritten × Tables :=
  let { kind, key, cells, updates, condition, returnType, returnColumns } := w
  match kind with
  | .put => Tables.act ts table (·.put { table, key, cells, condition, returnType })
  | .update =>
    Tables.act ts table (·.update { table, key, updates, condition, returnType, returnColumns })
  | .delete => Tables.act ts table (·.delete { table, key, condition, returnType })

namespace BatchWrite

/-- Write rows of a table one after the other. -/
def runRows (table : String) : List RowWrite → Tables → List RowOutcome × Tables
  | [], ts => ([], ts)
  | w :: ws, ts =>
    let (answer, ts) := w.run table ts
    let (outcomes, ts) := runRows table ws ts
    (.ofResult (answer.map (·.row)) :: outcomes, ts)

/-- Write the rows of some tables one after the other. -/
def runTables : List TableWrites → Tables → List TableOutcomes × Tables
  | [], ts => ([], ts)
  | w :: ws, ts =>
    let (rows, ts) := runRows w.table w.rows ts
    let (outcomes, ts) := runTables ws ts
    (⟨w.table, rows⟩ :: outcomes, ts)

/-- Whether no row failed. -/
def succeeded (outcomes : List TableOutcomes) : Bool :=
  outcomes.all fun t => t.rows.all (·.isOk)

/-- Write all rows; if the batch is atomic, then only together. -/
def run (b : BatchWrite) (ts : Tables) : BatchWritten × Tables :=
  let (outcomes, after) := runTables b.tables ts
  if b.isAtomic = some true && !succeeded outcomes then
    (⟨outcomes.map fun t => { t with rows := t.rows.map (·.undo) }⟩, ts)
  else (⟨outcomes⟩, after)

/-- What is reported of a batch that is held back. -/
def promised (b : BatchWrite) : BatchWritten :=
  ⟨b.tables.map fun t => ⟨t.table, t.rows.map fun _ => { isOk := true }⟩⟩

end BatchWrite

/-! ### Writes of all kinds -/

/-- A write. -/
inductive Write where
  /-- Put a row. -/
  | put (r : PutRow)
  /-- Update columns of a row. -/
  | update (r : UpdateRow)
  /-- Delete a row. -/
  | delete (r : DeleteRow)
  /-- Write several rows. -/
  | batch (r : BatchWrite)
deriving BEq, Inhabited

namespace Write

/-- The table that a write names as a whole. -/
def table? : Write → Option String
  | put r => some r.table
  | update r => some r.table
  | delete r => some r.table
  | batch _ => none

/-- The transaction that a write belongs to. -/
def transaction? : Write → Option String
  | put r => r.transaction
  | update r => r.transaction
  | delete r => r.transaction
  | batch r => r.transaction

/-- The write on its own. -/
def detached : Write → Write
  | put r => put { r with transaction := none }
  | update r => update { r with transaction := none }
  | delete r => delete { r with transaction := none }
  | batch r => batch { r with transaction := none }

/-- Make a write. -/
def run : Write → Tables → Except ServiceError Response × Tables
  | put r, ts => (ts.act r.table (·.put r)).map (·.map .rowWritten) id
  | update r, ts => (ts.act r.table (·.update r)).map (·.map .rowWritten) id
  | delete r, ts => (ts.act r.table (·.delete r)).map (·.map .rowWritten) id
  | batch r, ts => (r.run ts).map (.ok ∘ .batchWritten) id

/-- The answer to a write that is held back. -/
def promised : Write → Response
  | batch r => .batchWritten r.promised
  | _ => .rowWritten {}

/-- Make writes one after the other until one is refused. -/
def runAll : List Write → Tables → Except ServiceError Tables
  | [], ts => .ok ts
  | w :: ws, ts =>
    match w.run ts with
    | (.ok _, ts) => runAll ws ts
    | (.error e, _) => .error e

end Write

end WideColumn
