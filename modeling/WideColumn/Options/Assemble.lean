import WideColumn.Options.Merge

/-!
# Records assembled from options

Update sets are collected from the options `put`, `delete`, `delete_all` and `increment`; the
entries of batches are records with options of their own.
-/

namespace WideColumn

namespace UpdateSet

/-- The operands given for a kind: operands proper, or columns in any shape. -/
def operandsOf (key : String) : OptionValue → Except Error (List ColumnOperand)
  | .operands os => .ok os
  | v => (Shape.columns key v).map fun names => names.map fun c => { column := c }

/-- Add the operands of a kind, unless none or an absent value is given for it. -/
def addKind (options : OptionList) (u : UpdateSet) (kind : UpdateKind) :
    Except Error UpdateSet :=
  let key := Enumeration.symbol kind
  match options.get? key with
  | none => .ok u
  | some .absent => .ok u
  | some v => (operandsOf key v).map (u.set kind)

/-- The update set that options describe. Kinds are visited in their own order. -/
def ofOptions (options : OptionList) : Except Error UpdateSet :=
  (Enumeration.members : List UpdateKind).foldlM (addKind options) {}

end UpdateSet

/-- Rows to read from a table. -/
def RowsQuery.ofOptions (table : String) (keys : List Key) (options : OptionList) :
    Except Error RowsQuery :=
  merge { table, keys } options

namespace RowWrite

/-- The put of a row. -/
def put (key : Key) (cells : List Cell) (options : OptionList) : Except Error RowWrite :=
  merge { kind := .put, key, cells } options

/-- The update of a row; its changes are looked at before the other options. -/
def update (key : Key) (options : OptionList) : Except Error RowWrite := do
  let updates ← UpdateSet.ofOptions options
  merge { kind := .update, key, updates } options

/-- The deletion of a row. -/
def delete (key : Key) (options : OptionList) : Except Error RowWrite :=
  merge { kind := .delete, key } options

/-- The write that a word names. Only a put has cells. -/
def ofOptions (word : String) (key : Key) (cells : List Cell) (options : OptionList) :
    Except Error RowWrite :=
  match (Enumeration.ofSymbol? word : Option WriteKind) with
  | some .put => put key cells options
  | some .update => update key options
  | some .delete => delete key options
  | none => .error (.invalidOperationKind word)

end RowWrite

end WideColumn
