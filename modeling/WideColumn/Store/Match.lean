import WideColumn.Error

/-!
# Filters and conditions on rows

`Filter.accepts` decides whether a row passes a filter, and `Condition.check` whether a write may
go ahead. Only the latest cell of a column is looked at. A row without the column passes a
comparison unless the comparison says otherwise.
-/

namespace WideColumn

/-! ### Comparing values -/

/-- The order of two doubles; none if one of them is no number. -/
def compareDoubles? (x y : Float) : Option Ordering :=
  if x < y then some .lt
  else if x == y then some .eq
  else if y < x then some .gt
  else none

/-- The order of two values. An integer and a double are compared as doubles; otherwise values of
different types have no order. -/
def Value.compare? : Value → Value → Option Ordering
  | .string s, .string t => some (compare s t)
  | .integer m, .integer n => some (compare m n)
  | .double x, .double y => compareDoubles? x y
  | .integer m, .double y => compareDoubles? m.toFloat y
  | .double x, .integer n => compareDoubles? x n.toFloat
  | .boolean a, .boolean b => some (compare a b)
  | .binary bs, .binary cs => some (compare bs cs)
  | _, _ => none

/-- Whether an order satisfies a comparator. -/
def Comparator.holds : Comparator → Ordering → Bool
  | equal, o => o.isEq
  | notEqual, o => o.isNe
  | greater, o => o.isGT
  | greaterEqual, o => o.isGE
  | less, o => o.isLT
  | lessEqual, o => o.isLE

/-- Whether two values satisfy a comparator. Values without an order are different, and nothing
else can be said of them. -/
def Comparator.test (c : Comparator) (a b : Value) : Bool :=
  match a.compare? b with
  | some o => c.holds o
  | none => c == .notEqual

/-! ### Filters -/

/-- Whether a row passes a comparison. -/
def ColumnFilter.accepts (f : ColumnFilter) (row : Row) : Bool :=
  match row.value? f.column with
  | none => f.ignoreIfMissing.getD true
  | some v => f.comparator.test v f.value

namespace Filter

mutual
/-- Whether a row passes a filter. -/
def accepts : Filter → Row → Bool
  | .single f, row => f.accepts row
  | .composite .and fs, row => allAccept fs row
  | .composite .or fs, row => someAccepts fs row
  | .composite .not fs, row => !allAccept fs row

/-- Whether a row passes all of some filters. -/
def allAccept : List Filter → Row → Bool
  | [], _ => true
  | f :: fs, row => accepts f row && allAccept fs row

/-- Whether a row passes one of some filters. -/
def someAccepts : List Filter → Row → Bool
  | [], _ => false
  | f :: fs, row => accepts f row || someAccepts fs row
end

theorem allAccept_eq_all (fs : List Filter) (row : Row) :
    allAccept fs row = fs.all fun f => f.accepts row := by
  induction fs with
  | nil => rfl
  | cons f fs ih => rw [allAccept, ih, List.all_cons]

theorem someAccepts_eq_any (fs : List Filter) (row : Row) :
    someAccepts fs row = fs.any fun f => f.accepts row := by
  induction fs with
  | nil => rfl
  | cons f fs ih => rw [someAccepts, ih, List.any_cons]

/-- Whether a row passes a filter, if there is one. -/
def admits (f : Option Filter) (row : Row) : Bool := f.all (·.accepts row)

end Filter

/-! ### Conditions -/

namespace Condition

/-- Whether a write that finds the row `existing` may go ahead. The columns of a row that is not
there are missing. -/
def check (c : Condition) (existing : Option Row) : Except ServiceError Unit :=
  match c.existence, existing with
  | .expectExist, none =>
    .error (.conditionCheckFailed "Condition check failed: row does not exist")
  | .expectNotExist, some _ =>
    .error (.conditionCheckFailed "Condition check failed: row already exists")
  | _, _ =>
    if Filter.admits c.filter (existing.getD {}) then .ok ()
    else .error (.conditionCheckFailed "Condition check failed: column condition not met")

end Condition

/-! ### Parts of rows -/

namespace Row

/-- The row with the cells of the given columns only; without columns the whole row. -/
def project (row : Row) (columns : List String) : Row :=
  if columns.isEmpty then row
  else { row with cells := row.cells.filter fun c => columns.contains c.column }

/-- What a write returns of the row that it leaves. -/
def returned (row : Row) (columns : List String) : ReturnType → Option Row
  | .none => Option.none
  | .key => some { key := row.key }
  | .afterModify => some (row.project columns)

end Row

end WideColumn
