import WideColumn.Schema

/-!
# Filter expressions

A filter as callers write it: comparisons of a column with a literal or with a variable bound
later, combined by `and`, `or` and `not`. Columns are still tokens that may carry an option block.
-/

namespace WideColumn

/-- What a column is compared with. -/
inductive Operand where
  /-- A literal value. -/
  | literal (v : Value)
  /-- A variable by name. -/
  | binding (name : String)
deriving BEq, Inhabited

/-- A comparison. -/
structure Comparison where
  /-- How to compare. -/
  comparator : Comparator
  /-- Column token: a name, possibly with an option block behind it. -/
  column : String
  /-- What to compare with. -/
  operand : Operand
deriving BEq, Inhabited

/-- A filter expression. -/
inductive Expr where
  /-- A comparison. -/
  | compare (c : Comparison)
  /-- A combination of any number of parts. -/
  | combine (op : Connective) (parts : List Expr)

namespace Expr

instance : Inhabited Expr := ⟨.compare default⟩

mutual
/-- Equality of expressions; doubles are compared as numbers. -/
def equal : Expr → Expr → Bool
  | .compare c, .compare d => c == d
  | .combine p es, .combine q fs => p == q && equalParts es fs
  | _, _ => false

/-- Equality part by part. -/
def equalParts : List Expr → List Expr → Bool
  | [], [] => true
  | e :: es, f :: fs => equal e f && equalParts es fs
  | _, _ => false
end

instance : BEq Expr := ⟨equal⟩

mutual
/-- The comparisons from left to right. -/
def comparisons : Expr → List Comparison
  | .compare c => [c]
  | .combine _ es => comparisonsOf es

/-- The comparisons of several parts from left to right. -/
def comparisonsOf : List Expr → List Comparison
  | [] => []
  | e :: es => comparisons e ++ comparisonsOf es
end

/-- The names of the variables from left to right, as often as they occur. -/
def bindings (e : Expr) : List String :=
  e.comparisons.filterMap fun c =>
    match c.operand with
    | .binding name => some name
    | .literal _ => none

/-- Both of two expressions. -/
def and (e f : Expr) : Expr := .combine .and [e, f]

/-- One of two expressions. -/
def or (e f : Expr) : Expr := .combine .or [e, f]

/-- Every one of some expressions. -/
def allOf (es : List Expr) : Expr := .combine .and es

/-- At least one of some expressions. -/
def anyOf (es : List Expr) : Expr := .combine .or es

/-- Not all of some expressions. -/
def notAll (es : List Expr) : Expr := .combine .not es

end Expr

end WideColumn
