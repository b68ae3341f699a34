import WideColumn.SortedMap
import WideColumn.Schema

/-!
# Filters and conditions

A filter as a request carries it: comparisons of columns with values, combined in a tree. A
condition is what a write expects of the row before it.
-/

namespace WideColumn

/-- The comparison of one column. -/
structure ColumnFilter where
  /-- How to compare. -/
  comparator : Comparator
  /-- Column name. -/
  column : String
  /-- Value to compare with. -/
  value : Value
  /-- Whether a row without the column passes, if said. -/
  ignoreIfMissing : Option Bool := none
  /-- Whether only the latest version is compared. -/
  latestVersionOnly : Bool := true
  /-- Further options, handed on as they are. -/
  extra : SortedMap String Value := .empty
deriving BEq, Inhabited

/-- A filter. -/
inductive Filter where
  /-- A comparison. -/
  | single (f : ColumnFilter)
  /-- A combination. -/
  | composite (op : Connective) (parts : List Filter)

namespace Filter

instance : Inhabited Filter := ⟨.single default⟩

mutual
/-- Equality of filters; doubles are compared as numbers. -/
def equal : Filter → Filter → Bool
  | .single f, .single g => f == g
  | .composite p fs, .composite q gs => p == q && equalParts fs gs
  | _, _ => false

/-- Equality part by part. -/
def equalParts : List Filter → List Filter → Bool
  | [], [] => true
  | f :: fs, g :: gs => equal f g && equalParts fs gs
  | _, _ => false
end

instance : BEq Filter := ⟨equal⟩

mutual
/-- The comparisons from left to right. -/
def leaves : Filter → List ColumnFilter
  | .single f => [f]
  | .composite _ fs => leavesOf fs

/-- The comparisons of several parts from left to right. -/
def leavesOf : List Filter → List ColumnFilter
  | [] => []
  | f :: fs => leaves f ++ leavesOf fs
end

/-- Number of comparisons. -/
def leafCount (f : Filter) : Nat := f.leaves.length

/-- The comparison of a filter that is nothing else. -/
def single? : Filter → Option ColumnFilter
  | .single f => some f
  | .composite .. => none

/-- The parts of a combination. -/
def parts? : Filter → Option (List Filter)
  | .single _ => none
  | .composite _ fs => some fs

end Filter

/-- What a write expects. -/
structure Condition where
  /-- Whether the row has to be there. -/
  existence : RowExistence := .ignore
  /-- What the columns of the row have to satisfy. -/
  filter : Option Filter := none
deriving BEq, Inhabited

end WideColumn
