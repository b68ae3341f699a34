import WideColumn.Error
import WideColumn.Expr.Parse

/-!
# From expressions to filters

Resolving an expression reads every column token and replaces every variable by its value. The
filter has the shape of the expression; the first fault from left to right is the error.
-/

namespace WideColumn

/-- Values of variables by name. -/
abbrev Bindings := SortedMap String Value

namespace Expr

/-- The value of an operand. -/
def operandValue (bindings : Bindings) (c : Comparison) : Except Error Value :=
  match c.operand with
  | .literal v => .ok v
  | .binding name =>
    match bindings.get? name with
    | some v => .ok v
    | none => .error (.unboundVariable name c)

/-- The filter of a column and a value. -/
def columnFilter (comparator : Comparator) (column : ColumnRef) (value : Value) : ColumnFilter where
  comparator := comparator
  column := column.name
  value := value
  ignoreIfMissing := column.flag? ColumnRef.ignoreIfMissing
  latestVersionOnly := (column.flag? ColumnRef.latestVersionOnly).getD true
  extra := column.extraOptions

/-- The filter of a comparison: its column token is read before its variable is looked up. -/
def resolveComparison (bindings : Bindings) (c : Comparison) : Except Error ColumnFilter :=
  match ColumnRef.parse c.column with
  | .error fault => .error (.invalidColumn c.column fault)
  | .ok column => (operandValue bindings c).map (columnFilter c.comparator column)

mutual
/-- The filter of an expression. -/
def resolve (bindings : Bindings) : Expr → Except Error Filter
  | .compare c => (resolveComparison bindings c).map .single
  | .combine op parts => (resolveParts bindings parts).map (.composite op)

/-- The filters of several parts in order. -/
def resolveParts (bindings : Bindings) : List Expr → Except Error (List Filter)
  | [] => .ok []
  | e :: es => do
    let f ← resolve bindings e
    let fs ← resolveParts bindings es
    return f :: fs
end

/-- The expression of a filter text, a fault as an error. -/
def ofText (text : String) : Except Error Expr := (parse text).mapError .invalidExpression

end Expr

namespace Condition

/-- What a word says about the existence of a row. -/
def existenceOf (word : String) : Except Error RowExistence :=
  match Enumeration.ofSymbol? word with
  | some e => .ok e
  | none => .error (.invalidExistence word)

/-- A condition on the existence of the row alone. -/
def ofWord (word : String) : Except Error Condition :=
  (existenceOf word).map fun e => { existence := e }

/-- A condition on the existence of the row and on its columns. The word is looked at first. -/
def ofWordAndExpr (word : String) (e : Expr) (bindings : Bindings) : Except Error Condition := do
  let existence ← existenceOf word
  let filter ← e.resolve bindings
  return { existence, filter := some filter }

end Condition

end WideColumn
