import WideColumn.Request
import WideColumn.Response
import WideColumn.Store.Change
import WideColumn.Store.Match
import WideColumn.Store.SortKey

/-!
# Tables

A table holds its rows in the order of their keys. Reads leave it as it is; a write answers with
a result and the table after it, which may differ from the one before even where the result is an
error: numbers that a put has allocated are spent.
-/

namespace WideColumn

/-- A table with its rows. -/
structure Table where
  /-- What was declared and set for the table. -/
  tableMeta : TableMeta := {}
  /-- The rows by sort key. -/
  rows : SortedMap SortKey Row := .empty
  /-- The next number to allocate. -/
  nextAuto : Nat := 1
deriving Inhabited

/-- Replace the placeholders of a key by numbers from `n` on. The first number that is left comes
along. -/
def Key.allocate : Key → Nat → Key × Nat
  | [], n => ([], n)
  | c :: k, n =>
    if c.value = .autoIncrement then
      let (k, m) := allocate k (n + 1)
      ({ c with value := .integer (.ofNat n) } :: k, m)
    else
      let (k, m) := allocate k n
      (c :: k, m)

/-- The settings of a new table. -/
def CreateTable.tableMeta (r : CreateTable) : TableMeta where
  name := r.table
  key := r.keys
  columns := r.columns
  indexes := r.indexes
  options := r.options
  reserved := r.reserved
  stream := r.stream

/-- The settings after an update. -/
def TableMeta.updated (m : TableMeta) (r : UpdateTable) : TableMeta :=
  { m with
    reserved :=
      { read := r.reservedRead.getD m.reserved.read
        write := r.reservedWrite.getD m.reserved.write }
    options := m.options.updated r.options
    stream := r.stream <|> m.stream }

namespace Table

/-! ### Reading rows -/

/-- The columns asked for of the row with a key, if there is one that passes a filter. -/
def read (t : Table) (key : Key) (columns : List String) (filter : Option Filter) :
    Except ServiceError (Option Row) :=
  key.sortKey.map fun k =>
    ((t.rows.get? k).filter (Filter.admits filter)).map (·.project columns)

/-! ### Writing rows -/

/-- The place of a row that is to be written, if a condition allows the write. -/
def target (t : Table) (key : Key) (condition : Condition) : Except ServiceError SortKey := do
  let k ← key.sortKey
  condition.check (t.rows.get? k)
  return k

/-- The answer to a write. -/
def written (row : Option Row) : RowWritten := { row, consumed := { write := 1 } }

/-- Put a row. Placeholders of its key get their numbers before anything is checked. -/
def put (t : Table) (r : PutRow) : Except ServiceError RowWritten × Table :=
  let (key, next) := r.key.allocate t.nextAuto
  let t := { t with nextAuto := next }
  match t.target key r.condition with
  | .error e => (.error e, t)
  | .ok k =>
    let row : Row := { key, cells := r.cells }
    (.ok (written (row.returned [] r.returnType)), { t with rows := t.rows.insert k row })

/-- The row that an update leaves, and its place. A row that was not there starts empty. -/
def updatedRow (t : Table) (r : UpdateRow) : Except ServiceError (SortKey × Row) := do
  if t.tableMeta.options.allowUpdate = some false then
    throw (.parameterInvalid s!"table {r.table} does not allow update")
  let k ← t.target r.key r.condition
  let row ← ((t.rows.get? k).getD { key := r.key }).update r.updates
  return (k, row)

/-- Update columns of a row. -/
def update (t : Table) (r : UpdateRow) : Except ServiceError RowWritten × Table :=
  match t.updatedRow r with
  | .error e => (.error e, t)
  | .ok (k, row) =>
    (.ok (written (row.returned r.returnColumns r.returnType)),
      { t with rows := t.rows.insert k row })

/-- Delete a row. The answer is about the row that was there. -/
def delete (t : Table) (r : DeleteRow) : Except ServiceError RowWritten × Table :=
  match t.target r.key r.condition with
  | .error e => (.error e, t)
  | .ok k =>
    (.ok (written ((t.rows.get? k).bind fun row => row.returned [] r.returnType)),
      { t with rows := t.rows.erase k })

end Table

end WideColumn
