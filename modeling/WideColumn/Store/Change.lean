import WideColumn.Error

/-!
# Updates of rows

`Row.update` applies the changes of an update set one after the other. The first change that
cannot be made is the error.
-/

namespace WideColumn

namespace Row

/-- Write a cell in the place of one of the same column and version. -/
def putCell (row : Row) (c : Cell) : Row :=
  { row with
    cells := row.cells.filter (fun d => !(d.column == c.column && d.version == c.version)) ++ [c] }

/-- Drop all cells of a column. -/
def dropColumn (row : Row) (column : String) : Row :=
  { row with cells := row.cells.filter (·.column != column) }

/-- Drop the last item that satisfies a test. -/
def eraseLast {α : Type} (test : α → Bool) (xs : List α) : List α :=
  (xs.reverse.eraseP test).reverse

/-- Whether a cell is one that the deletion of a version of a column means. Without a version
every cell of the column is. -/
def isMeant (column : String) (version : Option Int64) (c : Cell) : Bool :=
  c.column == column && (version.isNone || c.version == version)

/-- Drop one cell of a column: of those meant the latest. -/
def dropCell (row : Row) (column : String) (version : Option Int64) : Row :=
  match Cell.latest? (row.cells.filter (isMeant column version)) with
  | none => row
  | some latest =>
    { row with
      cells := eraseLast (fun c => isMeant column version c && c.age == latest.age) row.cells }

/-- Put a value into a column. -/
def putOperand (row : Row) (o : ColumnOperand) : Except ServiceError Row :=
  match o.value with
  | none => .error (.parameterInvalid s!"put of column {o.column} has no value")
  | some v => .ok (row.putCell ⟨o.column, v, o.version⟩)

/-- The latest integer of a column; zero if the column is missing. -/
def integerOf (row : Row) (column : String) : Except ServiceError Int64 :=
  match row.value? column with
  | none => .ok 0
  | some v =>
    match v.integer? with
    | some n => .ok n
    | none => .error (.parameterInvalid s!"column {column} is not an integer")

/-- Add to the latest integer of a column. One cell without version takes the place of all. -/
def addOperand (row : Row) (o : ColumnOperand) : Except ServiceError Row :=
  match o.value.bind Value.integer? with
  | none => .error (.parameterInvalid s!"increment of column {o.column} needs an integer operand")
  | some n => do
    let current ← row.integerOf o.column
    let row := row.dropColumn o.column
    let cell : Cell := { column := o.column, value := .integer (current + n) }
    return { row with cells := row.cells ++ [cell] }

/-- Make one change. -/
def change (row : Row) : UpdateKind × ColumnOperand → Except ServiceError Row
  | (.put, o) => row.putOperand o
  | (.delete, o) => .ok (row.dropCell o.column o.version)
  | (.deleteAll, o) => .ok (row.dropColumn o.column)
  | (.increment, o) => row.addOperand o

/-- Make all changes of an update set in order. -/
def update (row : Row) (u : UpdateSet) : Except ServiceError Row :=
  u.changes.foldlM change row

end Row

end WideColumn
