import WideColumn.Store.Table

/-!
# Pages of a range

A scan goes through the rows whose keys lie between two bounds, the first included and the second
not. It comes in pages: the rows beyond a page are left for the next one, which starts at the
first of them. A filter thins out a page after it is cut, so that a page may be empty although
more are to come.
-/

namespace WideColumn

/-- Whether a key lies in a range: at the start or after it, in the direction of the scan, and
before the end. -/
def Direction.covers (d : Direction) (start stop k : SortKey) : Bool :=
  match d with
  | .forward => (compare start k).isLE && (compare k stop).isLT
  | .backward => (compare k start).isLE && (compare stop k).isLT

namespace Table

/-- The rows of a range in the order of the scan. -/
def range (t : Table) (d : Direction) (start stop : SortKey) : List Row :=
  let rows := (t.rows.entriesWhere (d.covers start stop)).map (·.2)
  match d with
  | .forward => rows
  | .backward => rows.reverse

/-- Number of rows on a page: the limit of the request, if it has a positive one, but no more than
the store allows. -/
def pageLength (pageSize : Nat) (limit : Option Int64) : Nat :=
  match limit with
  | none => pageSize
  | some n => if 0 < n then min n.toNatClampNeg pageSize else pageSize

/-- Cut a page of the rows of a range. -/
def cut (length : Nat) (r : GetRange) (rows : List Row) : RangePage :=
  let page := rows.take length
  let next := rows[length]?.map (·.key)
  { rows := (page.filter (Filter.admits r.filter)).map (·.project r.columns)
    nextStart := next
    nextToken := next.map Key.toToken
    consumed := { read := .ofNat page.length } }

/-- A page of a range. A token says where it starts in place of the key of the request. -/
def page (pageSize : Nat) (t : Table) (r : GetRange) (token : Option Bytes) :
    Except ServiceError RangePage := do
  let start ← match token with
    | some bytes => Key.ofToken bytes
    | none => pure r.start
  let first ← start.sortKey
  let stop ← r.stop.sortKey
  return cut (pageLength pageSize r.limit) r (t.range r.direction first stop)

end Table

end WideColumn
