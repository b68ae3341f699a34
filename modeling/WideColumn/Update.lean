import WideColumn.Schema

/-!
# Update sets

What an update does to the columns of a row: for each kind of change the list of its operands, or
nothing if the kind was not mentioned. Changes apply in the order of the kinds.
-/

namespace WideColumn

/-- One operand of an update: a column, with a value where the change needs one. -/
structure ColumnOperand where
  /-- Column name. -/
  column : String
  /-- Operand value; deletions have none. -/
  value : Option Value := none
  /-- Version meant. -/
  version : Option Int64 := none
deriving BEq, Inhabited

/-- The operands of an update by kind. -/
structure UpdateSet where
  /-- Cells to write. -/
  put : Option (List ColumnOperand) := none
  /-- Versions to delete. -/
  delete : Option (List ColumnOperand) := none
  /-- Columns to delete. -/
  deleteAll : Option (List ColumnOperand) := none
  /-- Amounts to add. -/
  increment : Option (List ColumnOperand) := none
deriving BEq, Inhabited

namespace UpdateSet

/-- The operands of a kind. -/
def get? (u : UpdateSet) : UpdateKind → Option (List ColumnOperand)
  | .put => u.put
  | .delete => u.delete
  | .deleteAll => u.deleteAll
  | .increment => u.increment

/-- Replace the operands of a kind. -/
def set (u : UpdateSet) (kind : UpdateKind) (operands : List ColumnOperand) : UpdateSet :=
  match kind with
  | .put => { u with put := some operands }
  | .delete => { u with delete := some operands }
  | .deleteAll => { u with deleteAll := some operands }
  | .increment => { u with increment := some operands }

/-- The kinds mentioned with their operands, in order. -/
def toList (u : UpdateSet) : List (UpdateKind × List ColumnOperand) :=
  (Enumeration.members : List UpdateKind).filterMap fun kind =>
    (u.get? kind).map fun operands => (kind, operands)

/-- Whether no kind was mentioned. -/
def isEmpty (u : UpdateSet) : Bool := u.toList.isEmpty

/-- All changes one by one, in the order in which they apply. -/
def changes (u : UpdateSet) : List (UpdateKind × ColumnOperand) :=
  u.toList.flatMap fun (kind, operands) => operands.map fun o => (kind, o)

end UpdateSet

end WideColumn
