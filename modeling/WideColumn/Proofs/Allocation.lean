import WideColumn.Proofs.Commit

/-!
# Keys with allocated numbers

A put replaces the placeholders of its key by the next numbers of the table's counter, and then
stores its row like any other. The counter does not look at the rows: other writes may have stored
a row under the same values before, and such a row is lost.

* `Store.answer_put_exact` : a put that succeeds adds a row, and keeps all others, exactly if no
  row has the values of its key with the numbers allocated;
* `Store.grows_of_below` : where no write names a positive integer in a key, every put with a
  placeholder adds a row and keeps all others.
-/

namespace WideColumn

/-! ### Allocated keys -/

namespace Key

/-- The key leaves a number to the store. -/
def HasPlaceholder (k : Key) : Prop := ∃ c ∈ k, c.value = .autoIncrement

/-- All integers of a key come before a number. -/
def Below (n : Nat) (k : Key) : Prop :=
  ∀ c ∈ k, ∀ m : Int64, c.value = .integer m → m.toInt < n

theorem Below.mono {k : Key} {m n : Nat} (h : k.Below m) (hmn : m ≤ n) : k.Below n := by
  intro c hc i hi
  have := h c hc i hi
  omega

theorem allocate_cons (c : KeyColumn) (k : Key) (n : Nat) :
    allocate (c :: k) n =
      if c.value = .autoIncrement then
        ({ c with value := .integer (.ofNat n) } :: (allocate k (n + 1)).1, (allocate k (n + 1)).2)
      else (c :: (allocate k n).1, (allocate k n).2) := rfl

theorem le_allocate (k : Key) (n : Nat) : n ≤ (k.allocate n).2 := by
  induction k generalizing n with
  | nil => exact Nat.le_refl n
  | cons c k ih =>
    rw [allocate_cons]
    split
    · exact Nat.le_trans (Nat.le_succ n) (ih (n + 1))
    · exact ih n

/-- The first placeholder of a key gets the next number. -/
theorem exists_allocated {k : Key} (h : k.HasPlaceholder) (n : Nat) :
    ∃ c ∈ (k.allocate n).1, c.value = .integer (.ofNat n) := by
  induction k with
  | nil => exact absurd h (by simp [HasPlaceholder])
  | cons c k ih =>
    rw [allocate_cons]
    split
    · exact ⟨_, .head _, rfl⟩
    · next hc =>
      obtain ⟨d, hd, hauto⟩ := h
      rcases List.mem_cons.1 hd with rfl | hd
      · exact absurd hauto hc
      · obtain ⟨e, he, hn⟩ := ih ⟨d, hd, hauto⟩
        exact ⟨e, .tail _ he, hn⟩

theorem toInt_ofNat_le (n : Nat) : (Int64.ofNat n).toInt ≤ n := by
  have hmod : (n : Int) % Int64.size ≤ n := by exact_mod_cast Nat.mod_le n Int64.size
  rw [Int64.toInt_ofNat', Int.bmod_def]
  split <;> omega

/-- After an allocation all integers of the key come before the next number. -/
theorem Below.allocate {k : Key} {n : Nat} (h : k.Below n) :
    (k.allocate n).1.Below (k.allocate n).2 := by
  induction k generalizing n with
  | nil => exact h
  | cons c k ih =>
    have htail : Below n k := fun d hd => h d (.tail _ hd)
    rw [allocate_cons]
    split
    · intro d hd i hi
      rcases List.mem_cons.1 hd with rfl | hd
      · obtain rfl := KeyValue.integer.inj hi
        have := toInt_ofNat_le n
        have := le_allocate k (n + 1)
        dsimp only
        omega
      · exact ih (htail.mono (Nat.le_succ n)) d hd i hi
    · intro d hd i hi
      rcases List.mem_cons.1 hd with rfl | hd
      · have := h d (.head _) i hi
        have := le_allocate k n
        omega
      · exact ih htail d hd i hi

theorem sortPart_eq_integer {v : KeyValue} {n : Int64} :
    v.sortPart = .ok (.integer n) ↔ v = .integer n := by
  cases v <;> simp [KeyValue.sortPart]

/-- The integers of a key are those of its sort key. -/
theorem mem_sortKey {key : Key} {k : SortKey} (h : key.sortKey = .ok k) {n : Int64} :
    .integer n ∈ k ↔ ∃ c ∈ key, c.value = .integer n := by
  induction key generalizing k with
  | nil =>
    obtain rfl := pure_eq_ok.1 h
    simp
  | cons c key ih =>
    obtain ⟨p, ps, hp, hps, rfl⟩ := Key.sortKey_cons_eq_ok.1 h
    have hhead : .integer n = p ↔ c.value = .integer n := by
      rw [← sortPart_eq_integer, hp, Except.ok.injEq, eq_comm]
    simp only [List.mem_cons, exists_eq_or_imp, ih hps, hhead]

end Key

/-! ### Tables that grow -/

namespace Table

/-- Every row of a table is unchanged in another, which has exactly one row more. -/
structure Grows (t t' : Table) : Prop where
  /-- The rows are kept. -/
  kept : ∀ k row, t.rows.get? k = some row → t'.rows.get? k = some row
  /-- There is one row more. -/
  size_eq : t'.rows.size = t.rows.size + 1

/-- No row of a table has the values of a key. -/
def Vacant (t : Table) (key : Key) : Prop :=
  ∀ k row, t.rows.get? k = some row → row.key.sortKey ≠ key.sortKey

/-- What a put that succeeds does to a table: the row is stored under its key with the numbers
allocated, and no other place changes. -/
structure PutExact (t : Table) (r : PutRow) (t' : Table) : Prop where
  /-- The row is at the place of its key; elsewhere all is as before. -/
  stored : ∃ k, (t.putKey r).sortKey = .ok k ∧ t'.rows.get? k = some ⟨t.putKey r, r.cells⟩ ∧
    ∀ k', k' ≠ k → t'.rows.get? k' = t.rows.get? k'
  /-- The table grows exactly if no row had the values of the key. -/
  grows_iff : t.Grows t' ↔ t.Vacant (t.putKey r)
  /-- If a row had them, it is replaced. -/
  size_eq : ¬ t.Vacant (t.putKey r) → t'.rows.size = t.rows.size

theorem Placed.vacant_iff {t : Table} (h : t.Placed) {key : Key} {k : SortKey}
    (hk : key.sortKey = .ok k) : t.Vacant key ↔ t.rows.get? k = none := by
  constructor
  · intro hv
    cases hget : t.rows.get? k with
    | none => rfl
    | some row => exact absurd ((h k row hget).trans hk.symm) (hv k row hget)
  · intro hnone k' row hget heq
    obtain rfl : k' = k := Except.ok.inj ((h k' row hget).symm.trans (heq.trans hk))
    rw [hnone] at hget
    cases hget

theorem putExact {t : Table} (h : t.Placed) {r : PutRow} (hok : (t.put r).1.isOk = true) :
    t.PutExact r (t.put r).2 := by
  obtain ⟨e, he⟩ | ⟨k, hk, -, hput⟩ := t.put_cases r
  · rw [he] at hok
    cases hok
  rw [hput]
  have hsize := t.rows.size_insert k ⟨t.putKey r, r.cells⟩
  refine ⟨⟨k, hk, SortedMap.get?_insert_self .., fun k' hne =>
    SortedMap.get?_insert_of_ne _ _ hne⟩, ⟨fun hg => ?_, fun hv => ?_⟩, fun hv => ?_⟩
  · rw [h.vacant_iff hk]
    cases hget : t.rows.get? k with
    | none => rfl
    | some row =>
      rw [hget] at hsize
      exact absurd (hg.size_eq.symm.trans hsize) (Nat.succ_ne_self _)
  · rw [(h.vacant_iff hk).1 hv] at hsize
    refine ⟨fun k' row hget => ?_, hsize⟩
    rw [SortedMap.get?_insert_of_ne _ _ ?_]
    · exact hget
    · rintro rfl
      rw [(h.vacant_iff hk).1 hv] at hget
      cases hget
  · rw [h.vacant_iff hk, ← ne_eq, Option.ne_none_iff_isSome] at hv
    rw [hsize, if_pos hv]

/-- Every integer in the key of a stored row comes before the next number to allocate. -/
structure Counted (t : Table) : Prop where
  /-- Numbers are positive. -/
  pos : 1 ≤ t.nextAuto
  /-- The numbers to come are not used yet. -/
  below : ∀ k row, t.rows.get? k = some row → row.key.Below t.nextAuto

theorem Counted.insert {t : Table} (h : t.Counted) {k : SortKey} {row : Row} {n : Nat}
    (hn : t.nextAuto ≤ n) (hrow : row.key.Below n) :
    Counted { t with rows := t.rows.insert k row, nextAuto := n } where
  pos := Nat.le_trans h.pos hn
  below := SortedMap.forall_insert (fun k' row' hget => (h.below k' row' hget).mono hn) hrow

/-- Writes keep the count as long as the keys that are named hold no positive integer. -/
theorem keptFor_counted : KeptFor (·.key.Below 1) fun _ t => t.Counted where
  put _ t r hkey h := by
    have hn : t.nextAuto ≤ (t.allocated r).nextAuto := Key.le_allocate _ _
    obtain ⟨e, he⟩ | ⟨k, -, -, hput⟩ := t.put_cases r
    · rw [he]
      exact ⟨Nat.le_trans h.pos hn, fun k row hget => (h.below k row hget).mono hn⟩
    · rw [hput]
      exact h.insert hn (hkey.mono h.pos).allocate
  update _ t r hkey h := by
    obtain ⟨e, he⟩ | ⟨k, row, -, -, hrow, hupd⟩ := t.update_cases r
    · rw [he]
      exact h
    · rw [hupd]
      refine h.insert (Nat.le_refl _) ?_
      rw [Row.update_key hrow, existing]
      cases hget : t.rows.get? k with
      | none => exact hkey.mono h.pos
      | some row' => exact h.below k row' hget
  delete _ t r h := by
    obtain ⟨e, he⟩ | ⟨k, -, -, hdel⟩ := t.delete_cases r
    · rw [he]
      exact h
    · rw [hdel]
      exact ⟨h.pos, SortedMap.forall_erase h.below k⟩

/-- A key with a placeholder is not in use yet, if all integers in use come before the next number
and that number is in range. -/
theorem Counted.vacant {t : Table} (h : t.Counted) (hp : t.Placed)
    (hn : t.nextAuto ≤ Int64.maxValue.toInt) {r : PutRow} (hkey : r.key.HasPlaceholder) :
    t.Vacant (t.putKey r) := by
  intro k row hget hrow
  have hk : row.key.sortKey = .ok k := hp k row hget
  -- A row with the same values would have the number in its key, too.
  have hmem : .integer (.ofNat t.nextAuto) ∈ k :=
    (Key.mem_sortKey (hrow.symm.trans hk)).2 (Key.exists_allocated hkey t.nextAuto)
  obtain ⟨c, hc, hvalue⟩ := (Key.mem_sortKey hk).1 hmem
  have hlt := h.below k row hget c hc _ hvalue
  have hmax : Int64.maxValue.toInt = 2 ^ 63 - 1 := by decide
  rw [Int64.toInt_ofNat_of_lt (by omega)] at hlt
  exact Int.lt_irrefl _ hlt

end Table

/-! ### Puts in their turn -/

/-- What a put that succeeds does to tables: it acts on the table that it names. -/
def Tables.PutExact (ts : Tables) (r : PutRow) (ts' : Tables) : Prop :=
  ∃ t t', ts.get? r.table = some t ∧ ts' = ts.insert r.table t' ∧ t.PutExact r t'

theorem Tables.putExact {ts : Tables} (h : ts.All fun _ t => t.Placed) {r : PutRow}
    (hok : (ts.act r.table (·.put r)).1.isOk = true) :
    ts.PutExact r (ts.act r.table (·.put r)).2 := by
  unfold Tables.act at hok ⊢
  cases hget : ts.get? r.table with
  | none =>
    rw [hget] at hok
    cases hok
  | some t =>
    rw [hget] at hok
    exact ⟨t, _, hget, rfl, Table.putExact (h r.table t hget) hok⟩

theorem Write.putExact {ts : Tables} (h : ts.All fun _ t => t.Placed) {r : PutRow}
    (hok : ((put r).run ts).1.isOk = true) : ts.PutExact r ((put r).run ts).2 := by
  refine Tables.putExact h ?_
  -- The answer is only wrapped.
  cases hact : (ts.act r.table (·.put r)).1 with
  | ok a => rfl
  | error e =>
    simp only [run, Prod.map_fst, hact] at hok
    cases hok

/-- The put that a row of a batch asks for. -/
def RowWrite.asPut (w : RowWrite) (table : String) : PutRow where
  table := table
  key := w.key
  cells := w.cells
  condition := w.condition
  returnType := w.returnType

theorem RowWrite.run_put {w : RowWrite} (hw : w.kind = .put) (table : String) (ts : Tables) :
    w.run table ts = ts.act table (·.put (w.asPut table)) := by
  obtain ⟨kind, key, cells, updates, condition, returnType, returnColumns⟩ := w
  obtain rfl : kind = .put := hw
  rfl

theorem BatchWrite.all_after {P : String → Table → Prop} (hP : Table.Kept P)
    (ws : List (String × RowWrite)) {ts : Tables} (h : ts.All P) : (after ws ts).All P := by
  induction ws generalizing ts with
  | nil => exact h
  | cons w ws ih => exact ih (w.2.all_run hP.keptFor w.1 (fun _ _ => trivial) h)

theorem Write.all_after {P : String → Table → Prop} (hP : Table.Kept P) (ws : List Write)
    {ts : Tables} (h : ts.All P) : (after ws ts).All P := by
  induction ws generalizing ts with
  | nil => exact h
  | cons w ws ih => exact ih (w.all_run hP.keptFor (fun _ _ => trivial) h)

/-- The keys that a request stores rows under, at once or when its transaction is committed. -/
def Request.keys (r : Request) : List Key := r.supplied.map (·.key)

namespace Store

/-- **When a put adds a row.**  A put that succeeds adds a row and keeps all others exactly if no
row has the values of its key with the numbers allocated, and otherwise replaces that row. This
holds of a put that is made at once, of one that is made in its turn when its transaction is
committed, after the writes `ws`, and of one in a batch, made at once or then, after the rows `vs`
of the batch. -/
theorem answer_put_exact {s : Store} (hs : s.Reachable) :
    (∀ r : PutRow, r.transaction = none → (s.answer (.putRow r)).1.isOk = true →
      s.tables.PutExact r (s.answer (.putRow r)).2.tables) ∧
    ∀ ws : List Write,
      (∀ r : PutRow, ((Write.put r).run (Write.after ws s.tables)).1.isOk = true →
        (Write.after ws s.tables).PutExact r ((Write.put r).run (Write.after ws s.tables)).2) ∧
      ∀ (vs : List (String × RowWrite)) (table : String) (w : RowWrite), w.kind = .put →
        (w.run table (BatchWrite.after vs (Write.after ws s.tables))).1.isOk = true →
        (BatchWrite.after vs (Write.after ws s.tables)).PutExact (w.asPut table)
          (w.run table (BatchWrite.after vs (Write.after ws s.tables))).2 := by
  have hplaced : s.tables.All fun _ t => t.Placed := fun _ _ ht => hs.placed ht
  refine ⟨fun r hr hok => ?_, fun ws => ⟨fun r hok => ?_, fun vs table w hw hok => ?_⟩⟩
  · simp only [answer, write, Write.transaction?, hr] at hok ⊢
    exact Write.putExact hplaced hok
  · exact Write.putExact (Write.all_after Table.kept_placed ws hplaced) hok
  · rw [RowWrite.run_put hw] at hok ⊢
    exact Tables.putExact (BatchWrite.all_after Table.kept_placed vs
      (Write.all_after Table.kept_placed ws hplaced)) hok

/-- A table whose key is one integer, after some puts of rows. -/
def withRows (keys : List KeyValue) : Store :=
  after {} (.createTable { table := "t", keys := [⟨"id", .integer, false⟩] } ::
    keys.map fun v => .putRow { table := "t", key := [⟨"id", v⟩] })

/-- A put that leaves its key to the store. -/
def numberless : PutRow where
  table := "t"
  key := [⟨"id", .autoIncrement⟩]
  cells := [⟨"a", .integer 2, none⟩]

/-- The put is given number 1: next to row 5 it adds a row, and it replaces row 1. -/
theorem answer_put_numberless :
    (∃ t t', (withRows [.integer 5]).tables.get? "t" = some t ∧
      ((withRows [.integer 5]).answer (.putRow numberless)).2.tables.get? "t" = some t' ∧
      t.Grows t') ∧
    ∃ t t', (withRows [.integer 1]).tables.get? "t" = some t ∧
      ((withRows [.integer 1]).answer (.putRow numberless)).2.tables.get? "t" = some t' ∧
      ¬ t.Grows t' ∧ t'.rows.size = t.rows.size := by
  have hs (keys : List KeyValue) : (withRows keys).Reachable := .after (.new _) _
  constructor
  · obtain ⟨t, t', ht, hts, hexact⟩ := (answer_put_exact (hs [.integer 5])).1 numberless rfl rfl
    refine ⟨t, t', ht, by rw [hts]; exact SortedMap.get?_insert_self .., ?_⟩
    obtain rfl := Option.some.inj ht
    exact hexact.grows_iff.2 (((hs _).placed ht).vacant_iff rfl |>.2 rfl)
  · obtain ⟨t, t', ht, hts, hexact⟩ := (answer_put_exact (hs [.integer 1])).1 numberless rfl rfl
    have htaken : ¬ t.Vacant (t.putKey numberless) := by
      obtain rfl := Option.some.inj ht
      exact fun hv => nomatch ((hs _).placed ht).vacant_iff rfl |>.1 hv
    refine ⟨t, t', ht, by rw [hts]; exact SortedMap.get?_insert_self .., ?_, ?_⟩
    · exact fun hg => htaken (hexact.grows_iff.1 hg)
    · exact hexact.size_eq htaken

/-- A put may destroy the row that happens to have its number. -/
theorem not_grows_of_placeholder :
    ¬ ∀ (s : Store) (r : PutRow) (t t' : Table), s.Reachable → r.transaction = none →
      r.key.HasPlaceholder → (s.answer (.putRow r)).1.isOk = true →
      s.tables.get? r.table = some t → (s.answer (.putRow r)).2.tables.get? r.table = some t' →
      t.Grows t' := by
  intro h
  have hs : (withRows [.integer 1]).Reachable := .after (.new _) _
  have hgrows := h _ numberless _ _ hs rfl ⟨_, .head _, rfl⟩ rfl rfl rfl
  exact absurd hgrows.size_eq (by decide)

/-- **Allocation keeps all rows where it alone gives numbers.**  After requests that name no
positive integer in a key, every put with a placeholder that succeeds adds a row and keeps all
others, as long as the counter is in range. -/
theorem grows_of_below (ids : Nat → String) {rs : List Request}
    (hrs : ∀ r ∈ rs, ∀ key ∈ r.keys, key.Below 1) {name : String} {t : Table}
    (ht : (after { ids } rs).tables.get? name = some t)
    (hn : t.nextAuto ≤ Int64.maxValue.toInt) {r : PutRow}
    (hkey : r.key.HasPlaceholder) (hok : (t.put r).1.isOk = true) : t.Grows (t.put r).2 := by
  have hplaced : t.Placed := (Reachable.after (.new ids) rs).placed ht
  have hcounted : t.Counted := by
    have hinv := (Invariant.new ids).after Table.keptFor_counted ?_ ?_ rs
      fun r hr row hrow => hrs r hr row.key (List.mem_map_of_mem hrow)
    · exact hinv.tables name t ht
    · intro r
      exact ⟨Nat.le_refl 1, nofun⟩
    · intro _ t r h
      exact ⟨h.pos, h.below⟩
  exact (Table.putExact hplaced hok).grows_iff.2 (hcounted.vacant hplaced hn hkey)

end Store

end WideColumn
