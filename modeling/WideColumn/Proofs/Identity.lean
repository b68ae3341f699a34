import WideColumn.Proofs.Allocation
import WideColumn.Proofs.Frame
import WideColumn.Proofs.Lifetime

/-!
# What makes a row

A row is found by the values of its key, in their order. The names of the key columns are stored
with the row, and are returned as they were when it was first written, but two keys that differ in
the names alone lead to the same row.

* `Key.sortKey_eq_iff` : two keys have the same place exactly if they have the same values;
* `Store.getRow_congr` : what a read depends on;
* `Store.getRow_exact` : writes of a row leave all reads under other values alone, and a row that
  is read has the values that it was asked for by.
-/

namespace WideColumn

/-! ### Values of keys -/

namespace Key

/-- The values of a key, in order. -/
def values (k : Key) : List KeyValue := k.map (·.value)

@[simp] theorem values_nil : values [] = [] := rfl

@[simp] theorem values_cons (c : KeyColumn) (k : Key) : values (c :: k) = c.value :: k.values := rfl

theorem sortPart_inj {v w : KeyValue} {p : KeyPart} (hv : v.sortPart = .ok p)
    (hw : w.sortPart = .ok p) : v = w := by
  cases v <;> cases hv <;> cases w <;> cases hw <;> rfl

/-- The place of a key is made of its values. -/
theorem sortKey_congr {p q : Key} (h : q.values = p.values) : q.sortKey = p.sortKey := by
  have hmap (k : Key) : k.sortKey = k.values.mapM KeyValue.sortPart := by
    rw [sortKey, values, List.mapM_map]
    rfl
  rw [hmap, hmap, h]

theorem values_of_sortKey {p q : Key} {k : SortKey} (hp : p.sortKey = .ok k)
    (hq : q.sortKey = .ok k) : q.values = p.values := by
  -- The place is made column by column, and each part of it comes from one value only.
  induction p generalizing q k with
  | nil =>
    obtain rfl := pure_eq_ok.1 hp
    cases q with
    | nil => rfl
    | cons d q =>
      obtain ⟨_, _, _, _, hk⟩ := sortKey_cons_eq_ok.1 hq
      cases hk
  | cons c p ih =>
    obtain ⟨part, ps, hpart, hps, rfl⟩ := sortKey_cons_eq_ok.1 hp
    cases q with
    | nil => cases pure_eq_ok.1 hq
    | cons d q =>
      obtain ⟨part', qs, hpart', hqs, heq⟩ := sortKey_cons_eq_ok.1 hq
      obtain ⟨rfl, rfl⟩ := List.cons.inj heq
      rw [values_cons, values_cons, sortPart_inj hpart' hpart, ih hps hqs]

/-- Two keys have the same place in the order exactly if they have the same values. -/
theorem sortKey_eq_iff {p q : Key} {k : SortKey} (hp : p.sortKey = .ok k) :
    q.sortKey = .ok k ↔ q.values = p.values :=
  ⟨values_of_sortKey hp, fun h => (sortKey_congr h).trans hp⟩

end Key

/-- The key that a row is written under. That of a put gets its numbers first. -/
def RowWrite.keyIn (w : RowWrite) (t : Table) : Key :=
  match w.kind with
  | .put => (w.key.allocate t.nextAuto).1
  | .update | .delete => w.key

theorem RowWrite.place_eq (w : RowWrite) (t : Table) : w.place t = (w.keyIn t).sortKey := by
  unfold place keyIn
  cases w.kind <;> rfl

/-! ### Tables that stay -/

section Contains

variable {ts : Tables}

theorem Tables.contains_act {α : Type} (name other : String)
    (action : Table → Except ServiceError α × Table) :
    SortedMap.contains (ts.act name action).2 other = ts.contains other := by
  have hmap : (SortedMap.get? (ts.act name action).2 other).map (fun _ => ()) =
    (ts.get? other).map fun _ => () := map_act _ action fun _ _ _ => rfl
  rw [SortedMap.contains, ← Option.isSome_map, hmap, Option.isSome_map]
  rfl

theorem RowWrite.contains_run (w : RowWrite) (name other : String) :
    SortedMap.contains (w.run name ts).2 other = ts.contains other := by
  obtain ⟨kind, key, cells, updates, condition, returnType, returnColumns⟩ := w
  cases kind <;> exact Tables.contains_act name other _

end Contains

/-! ### Reads of one row -/

namespace Store

/-- A write neither adds tables nor drops them. -/
theorem tables_contains_write (s : Store) (w : Write) (other : String) :
    (s.write w).2.tables.contains other = s.tables.contains other :=
  s.kept_write (f := (·.contains other)) (fun w name _ => w.contains_run name other) w

theorem getRow_eq (s : Store) (q : GetRow) :
    s.getRow q =
      if q.transaction.all s.transactions.contains then
        ((s.tables.find q.table).bind fun t => t.read q.key q.columns q.filter).map
          fun row => { row, consumed := { read := 1 } }
      else .error (.noTransaction (q.transaction.getD "")) := by
  have hread : (do
      let t ← s.tables.find q.table
      let row ← t.read q.key q.columns q.filter
      return ({ row, consumed := { read := 1 } } : RowRead)) =
      ((s.tables.find q.table).bind fun t => t.read q.key q.columns q.filter).map
        fun row => { row, consumed := { read := 1 } } := by
    cases s.tables.find q.table with
    | error e => rfl
    | ok t => cases h : t.read q.key q.columns q.filter <;> simp only [bind, Except.bind, h] <;> rfl
  unfold getRow
  cases q.transaction with
  | none => exact hread
  | some id =>
    dsimp only
    rw [Option.all_some, Option.getD_some]
    cases s.transactions.contains id with
    | false => rfl
    | true => exact hread

/-- A read outside of transactions that filters nothing finds what is stored at its place. -/
theorem getRow_of_place {s : Store} {q : GetRow} (hopen : q.transaction = none)
    (hfilter : q.filter = none) {t : Table} (ht : s.tables.get? q.table = some t) {k : SortKey}
    (hk : q.key.sortKey = .ok k) :
    s.getRow q = .ok { row := (t.rows.get? k).map (·.project q.columns)
                       consumed := { read := 1 } } := by
  have hadmits : (t.rows.get? k).filter (Filter.admits none) = t.rows.get? k := by
    cases t.rows.get? k <;> rfl
  rw [getRow_eq, hopen, hfilter, Tables.find_eq_ok.2 ht]
  simp only [Except.bind, Table.read, hk, Except.map, hadmits]
  rfl

/-- A row that is read is stored at its place, and passes the filter. -/
theorem getRow_eq_row {s : Store} {q : GetRow} {read : RowRead} {row : Row}
    (h : s.getRow q = .ok read) (hrow : read.row = some row) :
    ∃ t k stored, s.tables.get? q.table = some t ∧ q.key.sortKey = .ok k ∧
      t.rows.get? k = some stored ∧ Filter.admits q.filter stored = true ∧
      row = stored.project q.columns := by
  rw [getRow_eq] at h
  by_cases hopen : q.transaction.all s.transactions.contains = true
  · rw [if_pos hopen] at h
    obtain ⟨row?, hread, rfl⟩ := map_eq_ok.1 h
    obtain ⟨t, ht, hread⟩ := bind_eq_ok.1 hread
    obtain ⟨k, hk, rfl⟩ := map_eq_ok.1 hread
    obtain ⟨stored, hstored, rfl⟩ := Option.map_eq_some_iff.1 hrow
    obtain ⟨hget, hadmits⟩ := Option.filter_eq_some_iff.1 hstored
    exact ⟨t, k, stored, Tables.find_eq_ok.1 ht, hk, hget, hadmits, rfl⟩
  · rw [if_neg hopen] at h
    cases h

theorem find_read_congr {s s' : Store} {table : String} {key : Key} {columns : List String}
    {filter : Option Filter} (htable : s'.tables.contains table = s.tables.contains table)
    (hrow : ∀ k, key.sortKey = .ok k → s'.row? table k = s.row? table k) :
    ((s'.tables.find table).bind fun t => t.read key columns filter) =
      (s.tables.find table).bind fun t => t.read key columns filter := by
  unfold SortedMap.contains at htable
  unfold row? at hrow
  unfold Tables.find
  cases ht : s.tables.get? table with
  | none =>
    cases ht' : s'.tables.get? table with
    | none => rfl
    | some t' => simp [ht, ht'] at htable
  | some t =>
    cases ht' : s'.tables.get? table with
    | none => simp [ht, ht'] at htable
    | some t' =>
      rw [ht, ht'] at hrow
      change t'.read key columns filter = t.read key columns filter
      unfold Table.read
      cases hk : key.sortKey with
      | error e => rfl
      | ok k =>
        have hget : t'.rows.get? k = t.rows.get? k := hrow k hk
        simp only [Except.map, hget]

/-- What a read depends on: whether its transaction is open, whether its table is there, and the row
at its place. -/
theorem getRow_congr {s s' : Store} {q : GetRow}
    (hopen : ∀ id, s'.transactions.contains id = s.transactions.contains id)
    (htable : s'.tables.contains q.table = s.tables.contains q.table)
    (hrow : ∀ k, q.key.sortKey = .ok k → s'.row? q.table k = s.row? q.table k) :
    s'.getRow q = s.getRow q := by
  have hcontains : s'.transactions.contains = s.transactions.contains := funext hopen
  rw [getRow_eq, getRow_eq, hcontains, find_read_congr htable hrow]

/-- The row that a read returns has the values that it was asked for by. -/
theorem Reachable.values_of_getRow {s : Store} (hs : s.Reachable) {q : GetRow} {read : RowRead}
    {row : Row} (h : s.getRow q = .ok read) (hrow : read.row = some row) :
    row.key.values = q.key.values := by
  obtain ⟨t, k, stored, ht, hk, hget, -, rfl⟩ := getRow_eq_row h hrow
  rw [Row.key_project]
  exact (Key.sortKey_eq_iff hk).1 (hs.placed ht k stored hget)

/-- **The values of a key make the row.**  A write of one row, whether it succeeds or not, leaves
what a read returns as it is unless the values of the key that it writes under, with the numbers
allocated, are those that are read, in the same table. And a row that is read has the values that it
was asked for by, whatever the names of its key columns are. -/
theorem getRow_exact {s : Store} (hs : s.Reachable) (q : GetRow) :
    (∀ (w : Write) (table : String) (row : RowWrite), w.rows = [(table, row)] →
      (table = q.table → ∀ t, s.tables.get? table = some t →
        (row.keyIn t).values ≠ q.key.values) →
      (s.answer w.request).2.getRow q = s.getRow q) ∧
    ∀ read row, s.getRow q = .ok read → read.row = some row →
      row.key.values = q.key.values := by
  refine ⟨fun w table row hw hne => ?_, fun read row h hrow => hs.values_of_getRow h hrow⟩
  rw [answer_request]
  refine getRow_congr (fun id => s.contains_write id w) (s.tables_contains_write w q.table)
    fun k hk => row?_write fun _ => ?_
  rw [Write.Spares, hw]
  refine ⟨fun htable t ht => ?_, trivial⟩
  obtain rfl := htable
  rw [RowWrite.place_eq, ne_eq, Key.sortKey_eq_iff hk]
  exact hne rfl t ht

/-- A read under a key of one column. -/
def readOf (c : KeyColumn) : GetRow where
  table := "t"
  key := [c]

/-- The read of row 2 under another name of the key column returns the row, before and after a put
that is given number 1. -/
theorem getRow_renamed :
    (withRows [.integer 2]).getRow (readOf ⟨"x", .integer 2⟩) =
      .ok { row := some { key := [⟨"id", .integer 2⟩] }, consumed := { read := 1 } } ∧
    ((withRows [.integer 2]).answer (Write.put numberless).request).2.getRow
        (readOf ⟨"x", .integer 2⟩) =
      (withRows [.integer 2]).getRow (readOf ⟨"x", .integer 2⟩) ∧
    Key.values [⟨"id", .integer 2⟩] = (readOf ⟨"x", .integer 2⟩).key.values := by
  have hs : (withRows [.integer 2]).Reachable := .after (.new _) _
  have hread : (withRows [.integer 2]).getRow (readOf ⟨"x", .integer 2⟩) =
    .ok { row := some { key := [⟨"id", .integer 2⟩] }, consumed := { read := 1 } } := rfl
  obtain ⟨hwrite, hvalues⟩ := getRow_exact hs (readOf ⟨"x", .integer 2⟩)
  refine ⟨hread, hwrite (.put numberless) _ _ rfl fun _ t ht => ?_, hvalues _ _ hread rfl⟩
  obtain rfl := Option.some.inj ht
  decide

/-- A key with another name leads to the same row: a put under the one changes what is read under
the other, and the row that is read has the key that it was put under. -/
theorem not_getRow_of_key_ne :
    (¬ ∀ (s : Store) (w : Write) (table : String) (row : RowWrite) (q : GetRow), s.Reachable →
      w.rows = [(table, row)] → row.key ≠ q.key → (s.answer w.request).1.isOk = true →
      (s.answer w.request).2.getRow q = s.getRow q) ∧
    ¬ ∀ (s : Store) (q : GetRow) (read : RowRead) (row : Row), s.Reachable →
      s.getRow q = .ok read → read.row = some row → row.key = q.key := by
  constructor
  · intro h
    have hread := h (withRows []) (.put { table := "t", key := [⟨"id", .integer 1⟩] }) "t" _
      (readOf ⟨"x", .integer 1⟩) (.after (.new _) _) rfl (by decide) rfl
    cases hread
  · intro h
    have hkey := h (withRows [.integer 1]) (readOf ⟨"x", .integer 1⟩) _ _ (.after (.new _) _) rfl
      rfl
    exact absurd hkey (by decide)

end Store

end WideColumn
