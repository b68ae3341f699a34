import WideColumn.Json.Write
import WideColumn.Store.Table

/-!
# Searching a table

A query asks for all rows, or for the rows in which a column has a certain value. It is looked at
row by row, so that a query that makes no sense is found out by the first row it meets.
-/

namespace WideColumn

namespace Row

/-- Whether a column has the value that a query names. -/
def hasTerm (row : Row) (column : String) (expected : Json) : Bool :=
  match row.value? column, expected with
  | some (.string s), .string t => s == t
  | some (.integer m), .integer n => m.toInt == n
  | some (.boolean a), .bool b => a == b
  | _, _ => false

/-- Whether a row satisfies a query for the value of a column. -/
def satisfiesTerm (row : Row) (term : Json) : Except ServiceError Bool :=
  match (term.member? "field_name").bind Json.text?, term.member? "term" with
  | none, _ => .error (.parameterInvalid "term query needs field_name")
  | some _, none => .error (.parameterInvalid "term query needs term")
  | some column, some expected => .ok (row.hasTerm column expected)

/-- Whether a row satisfies a query. -/
def satisfies (row : Row) (query : Json) : Except ServiceError Bool :=
  if query == .null || (query.member? "match_all").isSome then .ok true
  else
    match query.member? "term" with
    | some term => row.satisfiesTerm term
    | none => .error (.parameterInvalid s!"unsupported search query: {query.text}")

/-- What a search returns of a row: the columns asked for, none if none are. -/
def found (row : Row) (columns : List String) : Row :=
  if columns.isEmpty then { key := row.key } else row.project columns

end Row

namespace Table

/-- The rows that satisfy a query. -/
def matching (query : Json) : List Row → Except ServiceError (List Row)
  | [] => .ok []
  | row :: rows => do
    let isHit ← row.satisfies query
    let hits ← matching query rows
    return if isHit then row :: hits else hits

/-- Whether a table can be searched through an index. One that declares no index can be searched
through any. -/
def hasIndex (t : Table) (name : String) : Bool :=
  t.tableMeta.indexes.isEmpty || t.tableMeta.indexes.any fun i => i.name == name

/-- The rows that a search finds, in key order. -/
def search (t : Table) (r : Search) : Except ServiceError SearchHits :=
  if t.hasIndex r.index then do
    let hits ← matching r.query t.rows.values
    return { rows := hits.map (·.found r.columns), totalHits := some (.ofNat hits.length),
             isAllSucceeded := true }
  else .error (.objectNotExist s!"index {r.index} does not exist")

end Table

end WideColumn
