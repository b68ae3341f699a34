import WideColumn.Proofs.Frame
import WideColumn.Proofs.Refusal

/-!
# Numbers that are handed out

The counter of a table lives in the table, so a batch or a commit that is undone puts it back, and
the numbers that it had handed out are handed out again. But none of these is in the key of a row
that is kept. What counts are the puts that take effect (`Placement`): the numbers in their keys
are among those that the counter passes for good (`Supplied`).

* `Placement.stored`, `RowWrite.isOk_run_iff` : a put that takes effect stores its row under the key
  with the numbers, and is one that is answered so;
* `Store.supplied_ask` : what one question takes from the counter of a table;
* `Store.run_numbers_exact` : as long as a table is not deleted, its numbers increase from one put
  that takes effect to the next.
-/

namespace WideColumn

/-! ### Puts that take effect -/

/-- The number of an integer value. -/
def KeyValue.integer? : KeyValue → Option Int64
  | integer n => some n
  | _ => none

/-- The integers of a stored key that stand where the key that was named has placeholders. -/
def Key.given (key stored : Key) : List Int64 :=
  (key.zip stored).filterMap fun (c, d) =>
    if c.value = .autoIncrement then d.value.integer? else none

/-- A put that takes effect. -/
structure Placement where
  /-- The put. -/
  put : PutRow
  /-- The table that it finds. -/
  table : Table
  /-- It succeeds there. -/
  isOk : (table.put put).1.isOk = true

namespace Placement

/-- The key of the row that is stored. -/
def key (p : Placement) : Key := p.table.putKey p.put

/-- The numbers that replace the placeholders, from left to right. -/
def numbers (p : Placement) : List Int64 := p.put.key.given p.key

/-- The row is stored under the key with the numbers. -/
theorem stored (p : Placement) : ∃ k, p.key.sortKey = .ok k ∧
    (p.table.put p.put).2.rows.get? k = some ⟨p.key, p.put.cells⟩ := by
  obtain ⟨e, he⟩ | ⟨k, hk, -, hput⟩ := p.table.put_cases p.put
  · have hok := p.isOk
    rw [he] at hok
    cases hok
  · refine ⟨k, hk, ?_⟩
    rw [hput]
    exact SortedMap.get?_insert_self ..

end Placement

section Placements

variable (name : String)

/-- The put of a row into a table, if it is one and takes effect. -/
def RowWrite.placements (w : RowWrite) (table : String) (ts : Tables) : List Placement :=
  match ts.get? name with
  | some t =>
    if h : table = name ∧ w.kind = .put ∧ (t.put (w.asPut name)).1.isOk = true then
      [⟨w.asPut name, t, h.2.2⟩]
    else []
  | none => []

/-- The puts into a table that take effect when rows are written one after the other. -/
def BatchWrite.placements : List (String × RowWrite) → Tables → List Placement
  | [], _ => []
  | w :: ws, ts => w.2.placements name w.1 ts ++ placements ws (w.2.run w.1 ts).2

/-- Whether a write is made in vain: an atomic batch with a row that fails. -/
def Write.isUndone (w : Write) (ts : Tables) : Bool :=
  match w with
  | batch b => b.isAtomic = some true && (BatchWrite.answers (BatchWrite.rowsOf b.tables) ts).any
      (!·.isOk)
  | _ => false

/-- The puts into a table that take effect with a write. -/
def Write.placements (w : Write) (ts : Tables) : List Placement :=
  if w.isUndone ts then [] else BatchWrite.placements name w.rows ts

/-- The puts into a table that take effect when writes are made one after the other. -/
def Write.placementsInTurn : List Write → Tables → List Placement
  | [], _ => []
  | w :: ws, ts => w.placements name ts ++ placementsInTurn ws (w.run ts).2

/-- The puts into a table that take effect with a commit: if it succeeds, those of the writes that
are held back. -/
def Store.commitPlacements (s : Store) (r : CommitTransaction) : List Placement :=
  match s.transactions.get? r.transaction with
  | some t => if (s.commit r).1.isOk then Write.placementsInTurn name t.staged s.tables else []
  | none => []

/-- The puts into a table that take effect with a write: none if it is held back. -/
def Store.writePlacements (s : Store) (w : Write) : List Placement :=
  match w.transaction? with
  | some _ => []
  | none => w.placements name s.tables

/-- The puts into a table that take effect with a question. -/
def Store.askPlacements (s : Store) : Question → List Placement
  | .request (.commitTransaction r) => s.commitPlacements name r
  | .request r => (r.write?.map (s.writePlacements name)).getD []
  | .scan .. => []

/-- The puts into a table that take effect when questions are asked one after the other. -/
def Store.runPlacements (s : Store) : List Question → List Placement
  | [] => []
  | q :: qs => s.askPlacements name q ++ runPlacements (s.ask q).2 qs

end Placements

/-- The numbers of some puts in their order. -/
def Placement.allNumbers (ps : List Placement) : List Int64 := ps.flatMap (·.numbers)

/-! ### Counters -/

/-- What a counter hands out while it moves: some of the numbers that it passes, in order. -/
structure Supplied (m n : Nat) (vs : List Int64) : Prop where
  /-- The counter does not go back. -/
  le : m ≤ n
  /-- Each number is handed out at most once. -/
  sublist : ∃ ns : List Nat, ns.Sublist (List.range' m (n - m)) ∧ vs = ns.map .ofNat

namespace Supplied

variable {m n p : Nat} {vs ws : List Int64}

/-- Numbers may be passed without being handed out. -/
theorem skip (h : m ≤ n) : Supplied m n [] :=
  ⟨h, [], List.nil_sublist _, rfl⟩

theorem refl (n : Nat) : Supplied n n [] := skip (Nat.le_refl n)

/-- All numbers that are passed may be handed out. -/
theorem all (m k : Nat) : Supplied m (m + k) ((List.range' m k).map .ofNat) :=
  ⟨Nat.le_add_right m k, _, by simp, rfl⟩

theorem append (h : Supplied m n vs) (h' : Supplied n p ws) : Supplied m p (vs ++ ws) := by
  obtain ⟨hmn, ns, hns, rfl⟩ := h
  obtain ⟨hnp, ns', hns', rfl⟩ := h'
  refine ⟨Nat.le_trans hmn hnp, ns ++ ns', ?_, List.map_append.symm⟩
  have hrange : List.range' m (n - m) ++ List.range' n (p - n) = List.range' m (p - m) := by
    have hn : n = m + (n - m) := by omega
    have hp : p - m = (n - m) + (p - n) := by omega
    rw [hp, ← List.range'_append_1, ← hn]
  rw [← hrange]
  exact hns.append hns'

/-- The numbers increase, and as long as they are in range their values do, too. -/
theorem pairwise (h : Supplied m n vs) : ∃ ns : List Nat, vs = ns.map .ofNat ∧
    ns.Pairwise (· < ·) ∧ (∀ k ∈ ns, m ≤ k ∧ k < n) ∧
    (n ≤ Int64.maxValue.toInt + 1 → vs.Pairwise (· < ·)) := by
  obtain ⟨hle, ns, hns, rfl⟩ := h
  have hlt : ns.Pairwise (· < ·) := List.Pairwise.sublist hns List.pairwise_lt_range'
  have hbounds : ∀ k ∈ ns, m ≤ k ∧ k < n := by
    intro k hk
    have := List.mem_range'_1.1 (hns.subset hk)
    omega
  refine ⟨ns, rfl, hlt, hbounds, fun hn => ?_⟩
  rw [List.pairwise_map]
  refine hlt.imp_of_mem fun {a b} ha hb hab => ?_
  -- In range, the values are the numbers themselves.
  have hmax : Int64.maxValue.toInt = 2 ^ 63 - 1 := by decide
  rw [Int64.lt_iff_toInt_lt, Int64.toInt_ofNat_of_lt (by have := hbounds a ha; omega),
    Int64.toInt_ofNat_of_lt (by have := hbounds b hb; omega)]
  omega

end Supplied

/-- The next number of a table, or the first one if there is no such table. -/
def Tables.counter (ts : Tables) (name : String) : Nat :=
  ((ts.get? name).map (·.nextAuto)).getD 1

theorem Tables.counter_eq_of_get?_eq {ts ts' : Tables} {name : String}
    (h : ts'.get? name = ts.get? name) : ts'.counter name = ts.counter name := by
  rw [counter, counter, h]

/-! ### What is taken from a counter -/

theorem Key.given_cons (c d : KeyColumn) (key stored : Key) :
    given (c :: key) (d :: stored) =
      (if c.value = .autoIncrement then d.value.integer? else none).toList ++
        given key stored := by
  rw [given, List.zip_cons_cons, List.filterMap_cons]
  dsimp only
  split
  · next h =>
    rw [h]
    rfl
  · next h =>
    rw [h]
    rfl

/-- A put is given one number for each placeholder, in order. -/
theorem Key.given_allocate (key : Key) (n : Nat) :
    key.given (key.allocate n).1 = (List.range' n key.placeholders).map .ofNat := by
  induction key generalizing n with
  | nil => rfl
  | cons c key ih =>
    rw [allocate_cons, placeholders, List.countP_cons]
    split
    · next hc =>
      rw [if_pos (by simpa using hc), List.range'_succ, given_cons, if_pos hc, ih]
      rfl
    · next hc =>
      rw [if_neg (by simpa using hc), given_cons, if_neg hc, ih]
      rfl

namespace Table

theorem nextAuto_put (t : Table) (r : PutRow) :
    (t.put r).2.nextAuto = t.nextAuto + r.key.placeholders := by
  obtain ⟨rows, hput⟩ := t.exists_rows_put r
  rw [hput, ← Key.allocate_next]
  rfl

theorem nextAuto_update (t : Table) (r : UpdateRow) : (t.update r).2.nextAuto = t.nextAuto := by
  obtain ⟨rows, hupdate⟩ := t.exists_rows_update r
  rw [hupdate]

theorem nextAuto_delete (t : Table) (r : DeleteRow) : (t.delete r).2.nextAuto = t.nextAuto := by
  obtain ⟨rows, hdelete⟩ := t.exists_rows_delete r
  rw [hdelete]

end Table

theorem Tables.counter_act {α : Type} {ts : Tables} {table name : String}
    (action : Table → Except ServiceError α × Table)
    (h : table = name → ∀ t, (action t).2.nextAuto = t.nextAuto) :
    counter (ts.act table action).2 name = ts.counter name := by
  rw [counter, counter, map_act _ action fun htable t _ => h htable t]

theorem Placement.numbers_eq (p : Placement) :
    p.numbers = (List.range' p.table.nextAuto p.put.key.placeholders).map .ofNat :=
  Key.given_allocate _ _

section Rows

variable {name : String}

theorem RowWrite.placements_eq_nil {w : RowWrite} {table : String}
    (h : ¬ (table = name ∧ w.kind = .put)) (ts : Tables) : w.placements name table ts = [] := by
  unfold placements
  cases ts.get? name with
  | none => rfl
  | some t => exact dif_neg fun hput => h ⟨hput.1, hput.2.1⟩

/-- Only puts use the counter of a table. -/
theorem RowWrite.counter_run {w : RowWrite} {table : String}
    (h : ¬ (table = name ∧ w.kind = .put)) (ts : Tables) :
    Tables.counter (w.run table ts).2 name = ts.counter name := by
  obtain ⟨kind, key, cells, updates, condition, returnType, returnColumns⟩ := w
  cases kind with
  | put => exact Tables.counter_act _ fun htable => absurd ⟨htable, rfl⟩ h
  | update => exact Tables.counter_act _ fun _ t => t.nextAuto_update _
  | delete => exact Tables.counter_act _ fun _ t => t.nextAuto_delete _

theorem RowWrite.supplied_run (w : RowWrite) (table : String) (ts : Tables) :
    Supplied (ts.counter name) (Tables.counter (w.run table ts).2 name)
      (Placement.allNumbers (w.placements name table ts)) := by
  by_cases hput : table = name ∧ w.kind = .put
  · obtain ⟨rfl, hkind⟩ := hput
    rw [run_put hkind, placements]
    unfold Tables.act
    cases ht : ts.get? table with
    | none => exact .refl _
    | some t =>
      dsimp only
      rw [Tables.counter, Tables.counter, ht, SortedMap.get?_insert_self, Option.map_some,
        Option.map_some, Option.getD_some, Option.getD_some, Table.nextAuto_put]
      -- Whether the put succeeds or not, the counter passes a number for each placeholder.
      by_cases hok : (t.put (w.asPut table)).1.isOk = true
      · rw [dif_pos ⟨rfl, hkind, hok⟩, Placement.allNumbers, List.flatMap_singleton,
          Placement.numbers_eq]
        exact .all _ _
      · rw [dif_neg fun h => hok h.2.2]
        exact .skip (Nat.le_add_right _ _)
  · rw [placements_eq_nil hput, counter_run hput]
    exact .refl _

/-- A put takes effect exactly if it is answered so. -/
theorem RowWrite.isOk_run_iff {w : RowWrite} (hkind : w.kind = .put) (ts : Tables) :
    (w.run name ts).1.isOk = true ↔ ∃ p, w.placements name name ts = [p] := by
  rw [run_put hkind, placements]
  unfold Tables.act
  cases ts.get? name with
  | none => simp [Except.isOk, Except.toBool]
  | some t =>
    dsimp only
    by_cases hok : (t.put (w.asPut name)).1.isOk = true
    · rw [dif_pos ⟨rfl, hkind, hok⟩]
      exact iff_of_true hok ⟨_, rfl⟩
    · rw [dif_neg fun h => hok h.2.2]
      exact iff_of_false hok (by simp)

theorem BatchWrite.supplied_after (ws : List (String × RowWrite)) (ts : Tables) :
    Supplied (ts.counter name) (Tables.counter (after ws ts) name)
      (Placement.allNumbers (placements name ws ts)) := by
  induction ws generalizing ts with
  | nil => exact .refl _
  | cons w ws ih =>
    rw [placements, Placement.allNumbers, List.flatMap_append]
    exact (w.2.supplied_run w.1 ts).append (ih _)

end Rows

/-- A write that is undone leaves the tables as they were, and any other as its rows leave them. -/
theorem Write.run_eq (w : Write) (ts : Tables) :
    (w.run ts).2 = if w.isUndone ts then ts else BatchWrite.after w.rows ts := by
  cases w with
  | put r | update r | delete r => rfl
  | batch b =>
    -- A batch fails exactly if one of its answers, given row by row, is a failure.
    have hfailed : (!BatchWrite.succeeded (BatchWrite.runTables b.tables ts).1) =
        (BatchWrite.answers (BatchWrite.rowsOf b.tables) ts).any (!·.isOk) := by
      rw [Bool.eq_iff_iff, Bool.not_eq_true', ← Bool.not_eq_true, BatchWrite.succeeded_runTables]
      simp
    change (b.run ts).2 = _
    rw [BatchWrite.run_eq, hfailed, isUndone]
    split
    · rfl
    · exact (BatchWrite.runTables_spec b.tables ts).2.2

section Writes

variable {name : String}

theorem Write.supplied_run (w : Write) (ts : Tables) :
    Supplied (ts.counter name) (Tables.counter (w.run ts).2 name)
      (Placement.allNumbers (w.placements name ts)) := by
  rw [Write.run_eq, placements]
  split
  · exact .refl _
  · exact BatchWrite.supplied_after w.rows ts

theorem Write.supplied_after (ws : List Write) (ts : Tables) :
    Supplied (ts.counter name) (Tables.counter (after ws ts) name)
      (Placement.allNumbers (placementsInTurn name ws ts)) := by
  induction ws generalizing ts with
  | nil => exact .refl _
  | cons w ws ih =>
    rw [placementsInTurn, Placement.allNumbers, List.flatMap_append]
    exact (w.supplied_run ts).append (ih _)

end Writes

/-! ### Runs -/

namespace Store

variable {name : String}

theorem supplied_write (s : Store) (w : Write) :
    Supplied (s.tables.counter name) (Tables.counter (s.write w).2.tables name)
      (Placement.allNumbers (s.writePlacements name w)) := by
  unfold write writePlacements
  cases w.transaction? with
  | none => exact w.supplied_run s.tables
  | some id =>
    dsimp only
    rw [s.tables_stage id]
    exact .refl _

/-- A commit that succeeds takes what its writes take, and one that fails takes nothing. -/
theorem supplied_commit (s : Store) (r : CommitTransaction) :
    Supplied (s.tables.counter name) (Tables.counter (s.commit r).2.tables name)
      (Placement.allNumbers (s.commitPlacements name r)) := by
  unfold commitPlacements
  obtain ⟨hnone, hc⟩ | ⟨t, ht, ⟨-, e, hc⟩ | ⟨-, hc⟩⟩ := s.commit_cases r
  · rw [hnone, hc]
    exact .refl _
  · -- The tables are put back, and with them their counters.
    rw [ht, hc]
    exact .refl _
  · rw [ht, hc]
    exact Write.supplied_after t.staged s.tables

/-- **What a question takes.**  As long as the table is not deleted, its counter does not go back,
and the numbers of the puts that take effect are some of those that it passes. -/
theorem supplied_ask {s : Store} {q : Question}
    (h : ∀ d, q = .request (.deleteTable d) → d.table ≠ name) :
    Supplied (s.tables.counter name) (Tables.counter (s.ask q).2.tables name)
      (Placement.allNumbers (s.askPlacements name q)) := by
  cases q with
  | scan pageSize r token => exact .refl _
  | request r =>
    cases r with
    | putRow r | updateRow r | deleteRow r | batchWrite r => exact s.supplied_write _
    | commitTransaction r => exact s.supplied_commit r
    | createTable r =>
      change Supplied _ (Tables.counter (s.createTable r).2.tables name) []
      obtain ⟨e, hs⟩ | ⟨hnone, hs⟩ := s.createTable_cases r
      · rw [hs]
        exact .refl _
      · rw [hs]
        by_cases hname : name = r.table
        · -- A new table begins where a missing one is said to be.
          subst hname
          rw [Tables.counter, Tables.counter, hnone, SortedMap.get?_insert_self]
          exact .refl _
        · rw [Tables.counter_eq_of_get?_eq (SortedMap.get?_insert_of_ne _ _ hname)]
          exact .refl _
    | deleteTable d =>
      change Supplied _ (Tables.counter (s.deleteTable d).2.tables name) []
      obtain ⟨e, hs⟩ | ⟨-, hs⟩ := s.deleteTable_cases d
      · rw [hs]
        exact .refl _
      · rw [hs, Tables.counter_eq_of_get?_eq (SortedMap.get?_erase_of_ne _ (h d rfl).symm)]
        exact .refl _
    | updateTable r =>
      change Supplied _ (Tables.counter (s.updateTable r).2.tables name) []
      have hcounter : Tables.counter (s.updateTable r).2.tables name = s.tables.counter name :=
        Tables.counter_act (fun t => (.ok (TableUpdated.mk _), { t with tableMeta := _ }))
          fun _ _ => rfl
      rw [hcounter]
      exact .refl _
    | startTransaction r =>
      change Supplied _ (Tables.counter (s.startTransaction r).2.tables name) []
      rw [tables_startTransaction]
      exact .refl _
    | abortTransaction r =>
      change Supplied _ (Tables.counter (s.abort r).2.tables name) []
      rw [tables_abort]
      exact .refl _
    | listTables | describeTable | getRow | batchGet | search => exact .refl _

theorem supplied_run {s : Store} {qs : List Question}
    (h : ∀ d, .request (.deleteTable d) ∈ qs → d.table ≠ name) :
    Supplied (s.tables.counter name) (Tables.counter (s.run qs).2.tables name)
      (Placement.allNumbers (s.runPlacements name qs)) := by
  induction qs generalizing s with
  | nil => exact .refl _
  | cons q qs ih =>
    rw [runPlacements, Placement.allNumbers, List.flatMap_append]
    refine (supplied_ask fun d hd => ?_).append (ih fun d hd => h d (List.mem_cons_of_mem q hd))
    exact h d (hd ▸ List.mem_cons_self)

/-- No request makes the counter of a table go back. -/
theorem nextAuto_le {s : Store} {q : Question} {t t' : Table} (ht : s.tables.get? name = some t)
    (ht' : (s.ask q).2.tables.get? name = some t') : t.nextAuto ≤ t'.nextAuto := by
  have hq : ∀ d, q = .request (.deleteTable d) → d.table ≠ name := by
    rintro d rfl rfl
    -- The table would be gone.
    have hdelete : (s.deleteTable d).2.tables.get? d.table = some t' := ht'
    rw [deleteTable, if_pos (by rw [SortedMap.contains, ht]; rfl), SortedMap.get?_erase_self]
      at hdelete
    cases hdelete
  have hle := (supplied_ask (s := s) hq).le
  rwa [Tables.counter, Tables.counter, ht, ht'] at hle

/-- **Numbers are not handed out twice.**  Each put that takes effect stores its row under the key in
which numbers replace the placeholders. As long as the table is not deleted, these numbers increase,
from one placeholder of a key to the next and from one put that takes effect to the next, and the
counter passes each of them. Neither batches nor commits that are undone change this; the counter of
a table is never smaller after a request than before. As 64-bit integers the numbers increase, and
differ, as long as all of them are in range. -/
theorem run_numbers_exact (s : Store) (name : String) :
    (∀ q t t', s.tables.get? name = some t → (s.ask q).2.tables.get? name = some t' →
      t.nextAuto ≤ t'.nextAuto) ∧
    ∀ qs, (∀ d, .request (.deleteTable d) ∈ qs → d.table ≠ name) →
      (∀ p ∈ s.runPlacements name qs, p.numbers = p.put.key.given p.key ∧
        ∃ k, p.key.sortKey = .ok k ∧
          (p.table.put p.put).2.rows.get? k = some ⟨p.key, p.put.cells⟩) ∧
      ∃ ns : List Nat, Placement.allNumbers (s.runPlacements name qs) = ns.map .ofNat ∧
        ns.Pairwise (· < ·) ∧
        (∀ n ∈ ns, s.tables.counter name ≤ n ∧ n < Tables.counter (s.run qs).2.tables name) ∧
        (Tables.counter (s.run qs).2.tables name ≤ Int64.maxValue.toInt + 1 →
          (Placement.allNumbers (s.runPlacements name qs)).Pairwise (· < ·) ∧
          (Placement.allNumbers (s.runPlacements name qs)).Nodup) := by
  refine ⟨fun q t t' => nextAuto_le, fun qs h => ?_⟩
  obtain ⟨ns, heq, hlt, hbounds, hvalues⟩ := (supplied_run h).pairwise
  refine ⟨fun p _ => ⟨rfl, p.stored⟩, ns, heq, hlt, hbounds,
    fun hn => ⟨hvalues hn, (hvalues hn).imp fun hab heq => ?_⟩⟩
  rw [heq] at hab
  exact Int64.lt_irrefl hab

/-- The deletion of a row that is not there, but has to be. -/
def missingRow : RowWrite where
  kind := .delete
  key := [⟨"id", .integer 100⟩]
  condition := { existence := .expectExist }

/-- A put to a table that is given a number, one that is refused after it was given one, an atomic
batch and a commit that are undone after that, and a put with two placeholders that is made while
another one is held back. -/
def withNumbers : List Question :=
  let number : KeyColumn := ⟨"id", .autoIncrement⟩
  let row : RowWrite := { kind := .put, key := [number] }
  [.request (.createTable { table := "t", keys := [⟨"id", .integer, true⟩] }),
    .request (.putRow { table := "t", key := [number] }),
    putAgain .autoIncrement,
    .request (.batchWrite { tables := [⟨"t", [row, missingRow]⟩], isAtomic := some true }),
    .request (.startTransaction { table := "t", key := ⟨"id", .integer 1⟩ }),
    .request (.putRow { table := "t", key := [number], transaction := some ":0:" }),
    .request (.deleteRow
      { table := "t"
        key := missingRow.key
        condition := missingRow.condition
        transaction := some ":0:" }),
    .request (.commitTransaction ⟨":0:"⟩),
    .request (.startTransaction { table := "t", key := ⟨"id", .integer 1⟩ }),
    .request (.putRow { table := "t", key := [number], transaction := some ":1:" }),
    .request (.putRow { table := "t", key := [number, ⟨"part", .autoIncrement⟩] }),
    .request (.commitTransaction ⟨":1:"⟩)]

/-- The put that is held back is given its number when it is made, and the refused one has spent
its own. -/
theorem run_numbers_undone :
    Placement.allNumbers (runPlacements "t" {} withNumbers) = [1, 3, 4, 5] ∧
    (Placement.allNumbers (runPlacements "t" {} withNumbers)).Nodup ∧
    (∀ p ∈ runPlacements "t" {} withNumbers, ∃ k, p.key.sortKey = .ok k ∧
      (p.table.put p.put).2.rows.get? k = some ⟨p.key, p.put.cells⟩) ∧
    ∃ t t', (withRows []).tables.get? "t" = some t ∧
      ((withRows []).ask (putAgain .autoIncrement)).2.tables.get? "t" = some t' ∧
      t.nextAuto ≤ t'.nextAuto := by
  have hkept : ∀ d, .request (.deleteTable d) ∈ withNumbers → d.table ≠ "t" := by
    intro d hd
    simp [withNumbers, putAgain] at hd
  obtain ⟨hstored, ns, -, -, -, hvalues⟩ := (run_numbers_exact {} "t").2 withNumbers hkept
  exact ⟨rfl, (hvalues (by decide)).2, fun p hp => (hstored p hp).2, _, _, rfl, rfl,
    (run_numbers_exact (withRows []) "t").1 (putAgain .autoIncrement) _ _ rfl rfl⟩

end Store

end WideColumn
