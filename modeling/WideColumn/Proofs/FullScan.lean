import WideColumn.Proofs.Identity
import WideColumn.Proofs.SharedScan

/-!
# Scans from bound to bound

The two bounds of a range stand below and above every concrete value, so that a scan from the one
to the other is meant to return the whole table. But rows may be stored under the bounds themselves,
and under a key without columns.

* `Direction.covers_bounds` : which keys lie between the bounds;
* `Direction.meets_of_concrete` : all keys of concrete values do, in both directions;
* `Client.scanAll_bounds` : a scan from bound to bound returns a row that can be read exactly if its
  key lies between them.
-/

namespace WideColumn

/-! ### Keys between the bounds -/

namespace Direction

/-- The bound at which a whole scan starts. -/
def first : Direction → KeyValue
  | forward => .infMin
  | backward => .infMax

/-- The bound at which a whole scan ends. -/
def last : Direction → KeyValue
  | forward => .infMax
  | backward => .infMin

/-- A scan from bound to bound comes across a row with these values. Forward, there is a first
value, and it is not the upper bound; backward, the only value is not the lower bound, or the first
of several is not the upper one. -/
def Meets : Direction → List KeyValue → Prop
  | _, [] => False
  | forward, v :: _ => v ≠ .infMax
  | backward, [v] => v ≠ .infMin
  | backward, v :: _ :: _ => v ≠ .infMax

/-- Every key of concrete values lies between the bounds. -/
theorem meets_of_concrete (d : Direction) {values : List KeyValue} (hne : values ≠ [])
    (h : ∀ v ∈ values, v ≠ .infMin ∧ v ≠ .infMax) : d.Meets values := by
  cases values with
  | nil => exact absurd rfl hne
  | cons v values =>
    obtain ⟨hmin, hmax⟩ := h v (.head _)
    cases d with
    | forward => exact hmax
    | backward =>
      cases values with
      | nil => exact hmin
      | cons w values => exact hmax

end Direction

namespace KeyValue

theorem sortPart_eq_low {v : KeyValue} : v.sortPart = .ok .low ↔ v = .infMin := by
  cases v <;> simp [sortPart]

theorem sortPart_eq_high {v : KeyValue} : v.sortPart = .ok .high ↔ v = .infMax := by
  cases v <;> simp [sortPart]

end KeyValue

namespace KeyPart

variable (p : KeyPart) (ps : SortKey)

theorem compare_low_left : compare low p = if p = low then .eq else .lt := by
  cases p <;> rfl

theorem compare_high_right : compare p high = if p = high then .eq else .lt := by
  cases p <;> rfl

theorem isLE_low_cons : (compare [low] (p :: ps)).isLE = true := by
  rw [List.compare_cons_cons, compare_low_left]
  split
  · cases ps <;> rfl
  · rfl

theorem isLT_low_cons : (compare [low] (p :: ps)).isLT = true ↔ p ≠ low ∨ ps ≠ [] := by
  rw [List.compare_cons_cons, compare_low_left]
  split
  · next h => cases ps <;> simp [h]
  · next h => simp [h]

theorem isLE_cons_high : (compare (p :: ps) [high]).isLE = true ↔ p ≠ high ∨ ps = [] := by
  rw [List.compare_cons_cons, compare_high_right]
  split
  · next h => cases ps <;> simp [h]
  · next h => simp [h]

theorem isLT_cons_high : (compare (p :: ps) [high]).isLT = true ↔ p ≠ high := by
  rw [List.compare_cons_cons, compare_high_right]
  split
  · next h => cases ps <;> simp [h]
  · next h => simp [h]

end KeyPart

namespace Direction

/-- A row lies between the bounds exactly if a scan from the one to the other comes across its
values. -/
theorem covers_bounds (d : Direction) {first last k : SortKey} {n n' : String} {key : Key}
    (hfirst : Key.sortKey [⟨n, d.first⟩] = .ok first)
    (hlast : Key.sortKey [⟨n', d.last⟩] = .ok last) (hk : key.sortKey = .ok k) :
    d.covers first last k = true ↔ d.Meets key.values := by
  cases key with
  | nil =>
    obtain rfl := pure_eq_ok.1 hk
    cases d <;> cases hfirst <;> cases hlast <;> simp [covers, Meets]
  | cons c key =>
    obtain ⟨p, ps, hp, hps, rfl⟩ := Key.sortKey_cons_eq_ok.1 hk
    have hlow : p = .low ↔ c.value = .infMin := by
      rw [← KeyValue.sortPart_eq_low, hp, Except.ok.injEq]
    have hhigh : p = .high ↔ c.value = .infMax := by
      rw [← KeyValue.sortPart_eq_high, hp, Except.ok.injEq]
    -- The first part decides unless it is the bound itself; then it matters if others follow.
    cases d with
    | forward =>
      obtain rfl : [KeyPart.low] = first := Except.ok.inj hfirst
      obtain rfl : [KeyPart.high] = last := Except.ok.inj hlast
      rw [covers, KeyPart.isLE_low_cons, Bool.true_and, KeyPart.isLT_cons_high, ne_eq, hhigh]
      cases key <;> rfl
    | backward =>
      obtain rfl : [KeyPart.high] = first := Except.ok.inj hfirst
      obtain rfl : [KeyPart.low] = last := Except.ok.inj hlast
      rw [covers, Bool.and_eq_true, KeyPart.isLE_cons_high, KeyPart.isLT_low_cons, ne_eq, ne_eq,
        hhigh, hlow]
      cases key with
      | nil =>
        obtain rfl := pure_eq_ok.1 hps
        simp [Meets]
      | cons c' key =>
        obtain ⟨p', ps', -, -, rfl⟩ := Key.sortKey_cons_eq_ok.1 hps
        simp [Meets]

end Direction

/-! ### Scans -/

/-- A row is among those that a scan without filter selects from a range exactly if its place
belongs to the range. -/
theorem Table.Placed.mem_select {t : Table} (h : t.Placed) {r : GetRange}
    (hfilter : r.filter = none) {k : SortKey} {stored : Row}
    (hget : t.rows.get? k = some stored) (d : Direction) (first last : SortKey) :
    stored.project r.columns ∈ r.select ((t.span d first last).map (·.2)) ↔
      d.covers first last k = true := by
  have hspan := t.lists_span d first last
  rw [GetRange.select_eq_map, hfilter, List.mem_map]
  constructor
  · rintro ⟨e, he, heq⟩
    obtain ⟨hget', hcov⟩ := (hspan.mem_iff e.1 e.2).1 (List.mem_filter.1 he).1
    -- Rows with the same key have the same place.
    have hkey : e.2.key = stored.key := by
      rw [← e.2.key_project r.columns, heq, Row.key_project]
    obtain rfl : e.1 = k :=
      Except.ok.inj ((h e.1 e.2 hget').symm.trans ((congrArg _ hkey).trans (h k stored hget)))
    exact hcov
  · intro hcov
    exact ⟨(k, stored), List.mem_filter.2 ⟨(hspan.mem_iff k stored).2 ⟨hget, hcov⟩, rfl⟩, rfl⟩

theorem Table.length_span_le (t : Table) (d : Direction) (first last : SortKey) :
    (t.span d first last).length ≤ t.rows.size := by
  refine Nat.le_trans (List.length_filter_le _ _) (Nat.le_of_eq ?_)
  cases d with
  | forward => rfl
  | backward => exact List.length_reverse

namespace Client

/-- **Which rows a scan from bound to bound returns.**  Let a row be read from a table of a
reachable store. A scan of the table from the lower bound to the upper one, or backward from the
upper to the lower, without limit and filter and with the same columns, ends, whatever the size of
the pages, within one page more than the table has rows, and returns the row exactly if it comes
across the values of the key that was read. -/
theorem scanAll_bounds {c : Client Nat} {cl : Cluster} {instanceName : String} {i : Nat}
    {v : Server} {q : GetRow} {t : Table} {read : RowRead} {row : Row} {d : Direction}
    {n n' : String} {options : OptionList} {r : GetRange} {pages : Nat}
    (hc : c.transport instanceName = .ok i) (hv : cl[i]? = some v) (hf : v.failNext = none)
    (hs : v.store.Reachable) (hsize : 1 ≤ v.pageSize)
    (ht : v.store.tables.get? q.table = some t) (hread : v.store.getRow q = .ok read)
    (hrow : read.row = some row)
    (hr : merge { table := q.table, start := [⟨n, d.first⟩], stop := [⟨n', d.last⟩] } options =
      .ok r)
    (hd : r.direction = d) (hlimit : ∀ n, r.limit = some n → n < 0) (hfilter : r.filter = none)
    (hcolumns : r.columns = q.columns) (hpages : t.rows.size < pages) :
    ∃ all cl',
      c.scanAll .ofServers pages instanceName q.table [⟨n, d.first⟩] [⟨n', d.last⟩] options cl =
        some (.ok all, cl') ∧
      (row ∈ all.rows ↔ d.Meets q.key.values) := by
  obtain ⟨t', k, stored, ht', hk, hget, -, rfl⟩ := Store.getRow_eq_row hread hrow
  obtain rfl := Option.some.inj (ht.symm.trans ht')
  obtain ⟨htable, -, hstop⟩ := GetRange.merge_bounds hr
  obtain ⟨first, hfirst⟩ : ∃ first, Key.sortKey [⟨n, d.first⟩] = .ok first := by
    cases d <;> exact ⟨_, rfl⟩
  obtain ⟨last, hlast⟩ : ∃ last, Key.sortKey [⟨n', d.last⟩] = .ok last := by
    cases d <;> exact ⟨_, rfl⟩
  have hlen := Nat.lt_of_le_of_lt (t.length_span_le r.direction first last) hpages
  obtain ⟨all, cl', hcol, -, hrows, -⟩ :=
    collect_span (pagesOf_ofServers hc v.store v.pageSize) hsize (by rw [htable]; exact ht)
      (hs.placed ht) (by rw [hstop]; exact hlast) {} ⟨v, hv, hf, rfl, rfl⟩ hfirst hlen
  refine ⟨all, cl', by rw [scanAll, hr]; exact hcol, ?_⟩
  rw [GetRange.capped, GetRange.rowLimit_eq_none hlimit] at hrows
  rw [← d.covers_bounds hfirst hlast hk, ← (hs.placed ht).mem_select hfilter hget d first last,
    hcolumns, ← hd, hrows]
  rfl

/-- A server with a row under the lower bound, one under the upper bound, one under a key without
columns and one between the bounds. -/
def withEdges : Server where
  store := Store.after {} [.createTable { table := "t", keys := [] },
    .putRow { table := "t", key := edge .infMin },
    .putRow { table := "t", key := edge .infMax },
    .putRow { table := "t", key := [] },
    .putRow { table := "t", key := numbered 1 }]
  pageSize := 1

/-- Options of a scan in some direction. -/
def toward (d : Direction) : OptionList := ⟨[("direction", .symbol (Enumeration.symbol d))]⟩

/-- The row under the upper bound is returned backward, but not forward. -/
theorem scanAll_bounds_edges :
    (∃ all cl', ofOne.scanAll .ofServers 5 "main" "t" (edge .infMin) (edge .infMax)
        (toward .forward) [withEdges] = some (.ok all, cl') ∧
      { key := edge .infMax } ∉ all.rows) ∧
    ∃ all cl', ofOne.scanAll .ofServers 5 "main" "t" (edge .infMax) (edge .infMin)
        (toward .backward) [withEdges] = some (.ok all, cl') ∧
      { key := edge .infMax } ∈ all.rows := by
  have hc : ofOne.transport "main" = .ok 0 := rfl
  have hv : [withEdges][0]? = some withEdges := rfl
  have hs : withEdges.store.Reachable := .after (.new _) _
  have ht : withEdges.store.tables.get? "t" = some _ := rfl
  have hread : withEdges.store.getRow { table := "t", key := edge .infMax } =
    .ok { row := some { key := edge .infMax }, consumed := { read := 1 } } := rfl
  have hpages : 4 < 5 := by decide
  constructor
  · have hr : merge ({ table := "t", start := edge .infMin, stop := edge .infMax } : GetRange)
      (toward .forward) = .ok _ := rfl
    obtain ⟨all, cl', hall, hmem⟩ := scanAll_bounds (d := .forward) hc hv rfl hs (by decide) ht
      hread rfl hr rfl nofun rfl rfl hpages
    exact ⟨all, cl', hall, fun h => hmem.1 h rfl⟩
  · have hr : merge ({ table := "t", start := edge .infMax, stop := edge .infMin } : GetRange)
      (toward .backward) = .ok _ := rfl
    obtain ⟨all, cl', hall, hmem⟩ := scanAll_bounds (d := .backward) hc hv rfl hs (by decide) ht
      hread rfl hr rfl nofun rfl rfl hpages
    exact ⟨all, cl', hall, hmem.2 nofun⟩

/-- Whatever row is read as a whole from a reachable store, a scan from bound to bound in this
direction returns it. -/
def FindsAll (d : Direction) : Prop :=
  ∀ (v : Server) (q : GetRow) (read : RowRead) (row : Row) (pages : Nat) (all : RangePage)
    (cl' : Cluster), v.store.Reachable → 1 ≤ v.pageSize → q.columns = [] → q.filter = none →
    v.store.getRow q = .ok read → read.row = some row →
    ofOne.scanAll .ofServers pages "main" q.table (edge d.first) (edge d.last) (toward d) [v] =
      some (.ok all, cl') →
    row ∈ all.rows

/-- A row under a key without columns can be read, but no scan from bound to bound returns it. -/
theorem not_findsAll : ¬ FindsAll .forward ∧ ¬ FindsAll .backward := by
  have hs : withEdges.store.Reachable := .after (.new _) _
  have hread : withEdges.store.getRow { table := "t", key := [] } =
    .ok { row := some { key := [] }, consumed := { read := 1 } } := rfl
  constructor
  · intro h
    have hkey := List.mem_map_of_mem (f := (·.key))
      (h withEdges _ _ _ 3 _ _ hs (by decide) rfl rfl hread rfl rfl)
    exact absurd hkey (by decide)
  · intro h
    have hkey := List.mem_map_of_mem (f := (·.key))
      (h withEdges _ _ _ 3 _ _ hs (by decide) rfl rfl hread rfl rfl)
    exact absurd hkey (by decide)

end Client

end WideColumn
