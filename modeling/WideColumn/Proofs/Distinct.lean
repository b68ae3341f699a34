import Mathlib.Data.List.Nodup
import WideColumn.Proofs.Allocation
import WideColumn.Proofs.Effect
import WideColumn.Proofs.Frame

/-!
# Cells with the same version

Cells of a row are addressed by column and version. An update keeps the addresses of a row distinct:
a put takes the place of the cell at its address (`Row.distinct_changes`). A put of a whole row
stores the cells as they come. The deletion of a version drops one cell (`Row.count_dropCell`), and
so leaves one if there were two.

* `Store.distinct_exact` : the addresses of the cells of a row are distinct as long as no put brings
  two cells of the same address.
-/

namespace WideColumn

/-! ### Addresses -/

namespace Cell

/-- The column and the version of a cell. -/
def address (c : Cell) : String × Option Int64 := (c.column, c.version)

/-- No two cells have the same address. -/
def Distinct (cs : List Cell) : Prop := (cs.map address).Nodup

instance (cs : List Cell) : Decidable (Distinct cs) :=
  inferInstanceAs (Decidable (cs.map address).Nodup)

variable {cs : List Cell} {c : Cell}

theorem distinct_nil : Distinct [] := List.nodup_nil

theorem Distinct.sublist {ds : List Cell} (h : Distinct cs) (hds : ds.Sublist cs) : Distinct ds :=
  List.Nodup.sublist (hds.map address) h

theorem Distinct.concat (h : Distinct cs) (hc : ∀ d ∈ cs, d.address ≠ c.address) :
    Distinct (cs ++ [c]) := by
  rw [Distinct, List.map_append]
  refine List.nodup_append.2 ⟨h, by simp, fun a ha b hb => ?_⟩
  obtain ⟨d, hd, rfl⟩ := List.mem_map.1 ha
  obtain rfl := List.mem_singleton.1 hb
  exact hc d hd

end Cell

open Cell (Distinct)
open UpdateSet (tagged)

/-! ### Updates of a row -/

namespace Row

variable {row row' : Row}

theorem exists_of_eraseLast {α : Type} (test : α → Bool) {xs : List α} {x : α} (hx : x ∈ xs)
    (ht : test x = true) :
    ∃ a l r, test a = true ∧ xs = l ++ a :: r ∧ eraseLast test xs = l ++ r := by
  obtain ⟨a, l, r, -, ha, hxs, herase⟩ := List.exists_of_eraseP (List.mem_reverse.2 hx) ht
  refine ⟨a, r.reverse, l.reverse, ha, ?_, ?_⟩
  · rw [← List.reverse_reverse xs, hxs]
    simp
  · rw [eraseLast, herase]
    simp

theorem eraseLast_sublist {α : Type} (test : α → Bool) (xs : List α) :
    (eraseLast test xs).Sublist xs :=
  List.reverse_sublist.1 (by rw [eraseLast, List.reverse_reverse]; exact List.eraseP_sublist)

theorem dropColumn_sublist (row : Row) (column : String) :
    (row.dropColumn column).cells.Sublist row.cells :=
  List.filter_sublist

theorem dropCell_sublist (row : Row) (column : String) (version : Option Int64) :
    (row.dropCell column version).cells.Sublist row.cells := by
  unfold dropCell
  split
  · exact List.Sublist.refl _
  · exact eraseLast_sublist _ _

theorem distinct_putCell (h : Distinct row.cells) (c : Cell) : Distinct (row.putCell c).cells := by
  refine (h.sublist List.filter_sublist).concat fun d hd heq => ?_
  obtain ⟨hcolumn, hversion⟩ := Prod.mk.inj heq
  simpa [hcolumn, hversion] using (List.mem_filter.1 hd).2

theorem distinct_putSum (h : Distinct row.cells) (column : String) (n : Int) :
    Distinct (row.putSum column n).cells := by
  refine (h.sublist (row.dropColumn_sublist column)).concat fun d hd heq => ?_
  have hcolumn : d.column = column := (Prod.mk.inj heq).1
  simpa [hcolumn] using (List.mem_filter.1 hd).2

/-- Each change keeps the addresses distinct. -/
theorem distinct_change {x : UpdateKind × ColumnOperand} (h : Distinct row.cells)
    (hx : row.change x = .ok row') : Distinct row'.cells := by
  obtain ⟨kind, o⟩ := x
  cases kind with
  | put =>
    simp only [change, putOperand] at hx
    split at hx
    · cases hx
    · rw [← Except.ok.inj hx]
      exact distinct_putCell h _
  | delete =>
    rw [← Except.ok.inj hx]
    exact h.sublist (row.dropCell_sublist _ _)
  | deleteAll =>
    rw [← Except.ok.inj hx]
    exact h.sublist (row.dropColumn_sublist _)
  | increment =>
    obtain ⟨n, -, -, rfl⟩ := addOperand_eq_ok.1 hx
    exact distinct_putSum h _ _

theorem distinct_changes {xs : List (UpdateKind × ColumnOperand)} (h : Distinct row.cells)
    (hxs : xs.foldlM change row = .ok row') : Distinct row'.cells :=
  foldlM_invariant (P := fun row => Distinct row.cells) (fun _ _ _ _ => distinct_change) h hxs

/-- The deletion of a version drops one of its cells. -/
theorem count_dropCell (row : Row) (column : String) (version : Int64) :
    ((row.dropCell column (some version)).cells.map Cell.address).count (column, some version) =
      (row.cells.map Cell.address).count (column, some version) - 1 := by
  have hmeant (c : Cell) : isMeant column (some version) c = true ↔
      c.address = (column, some version) := by
    simp [isMeant, Cell.address]
  unfold dropCell
  split
  · next hnone =>
    have hnot : (column, some version) ∉ row.cells.map Cell.address := by
      intro hmem
      obtain ⟨c, hc, haddress⟩ := List.mem_map.1 hmem
      obtain ⟨d, hd⟩ := Cell.exists_latest?
        (List.ne_nil_of_mem (List.mem_filter.2 ⟨hc, (hmeant c).2 haddress⟩))
      rw [hd] at hnone
      cases hnone
    rw [List.count_eq_zero.2 hnot]
  · next latest hlatest =>
    obtain ⟨hmem, htest⟩ := List.mem_filter.1 (Cell.mem_of_latest? hlatest)
    obtain ⟨a, l, r, ha, hcells, herase⟩ := exists_of_eraseLast
      (fun c => isMeant column (some version) c && c.age == latest.age) hmem (by simp [htest])
    have haddress : a.address = (column, some version) :=
      (hmeant a).1 (Bool.and_eq_true_iff.1 ha).1
    show List.count _ (List.map _ (eraseLast _ row.cells)) = _
    rw [herase, hcells]
    simp [haddress]

/-- Of a version that is deleted nothing is left, if there was one such cell. -/
theorem not_mem_dropCell (h : Distinct row.cells) (column : String) (version : Int64) :
    (column, some version) ∉ (row.dropCell column (some version)).cells.map Cell.address := by
  have hone := List.nodup_iff_count_le_one.1 h (column, some version)
  rw [← List.count_eq_zero, count_dropCell]
  omega

/-- What comes after the puts of an update brings no version back. -/
theorem not_mem_change {x : UpdateKind × ColumnOperand} (hx : row.change x = .ok row')
    (hkind : x.1 ≠ .put) {column : String} {version : Int64}
    (h : (column, some version) ∉ row.cells.map Cell.address) :
    (column, some version) ∉ row'.cells.map Cell.address := by
  obtain ⟨kind, o⟩ := x
  cases kind with
  | put => exact absurd rfl hkind
  | delete =>
    rw [← Except.ok.inj hx]
    exact fun hmem => h (((row.dropCell_sublist _ _).map _).subset hmem)
  | deleteAll =>
    rw [← Except.ok.inj hx]
    exact fun hmem => h (((row.dropColumn_sublist _).map _).subset hmem)
  | increment =>
    obtain ⟨n, -, -, rfl⟩ := addOperand_eq_ok.1 hx
    intro hmem
    rw [putSum, List.map_append] at hmem
    rcases List.mem_append.1 hmem with hmem | hmem
    · exact h (((row.dropColumn_sublist _).map _).subset hmem)
    · cases (Prod.mk.inj (List.mem_singleton.1 hmem)).2

/-- No puts come after a deletion. -/
theorem exists_changes_of_delete {u : UpdateSet} {o : ColumnOperand}
    (ho : o ∈ u.operands .delete) :
    ∃ xs ys, u.changes = xs ++ (.delete, o) :: ys ∧ ∀ y ∈ ys, y.1 ≠ UpdateKind.put := by
  obtain ⟨l, r, hsplit⟩ := List.append_of_mem ho
  refine ⟨tagged .put (u.operands .put) ++ tagged .delete l, tagged .delete r ++
    (tagged .deleteAll (u.operands .deleteAll) ++ tagged .increment (u.operands .increment)),
    ?_, fun y hy => ?_⟩
  · rw [UpdateSet.changes_eq, hsplit]
    simp [tagged]
  · simp only [tagged, List.mem_append, List.mem_map] at hy
    obtain ⟨_, -, rfl⟩ | ⟨_, -, rfl⟩ | ⟨_, -, rfl⟩ := hy <;> simp

/-- An update that deletes a version leaves no such cell. -/
theorem not_mem_update (h : Distinct row.cells) {u : UpdateSet} (hu : row.update u = .ok row')
    {o : ColumnOperand} (ho : o ∈ u.operands .delete) {version : Int64}
    (hversion : o.version = some version) :
    (o.column, some version) ∉ row'.cells.map Cell.address := by
  obtain ⟨xs, ys, hchanges, hys⟩ := exists_changes_of_delete ho
  rw [update, hchanges, List.foldlM_append] at hu
  obtain ⟨row₁, h₁, hu⟩ := bind_eq_ok.1 hu
  rw [List.foldlM_cons] at hu
  obtain ⟨row₂, h₂, hu⟩ := bind_eq_ok.1 hu
  have hdropped : (o.column, some version) ∉ row₂.cells.map Cell.address := by
    rw [← Except.ok.inj h₂, hversion]
    exact not_mem_dropCell (distinct_changes h h₁) _ _
  exact foldlM_invariant (P := fun row => (o.column, some version) ∉ row.cells.map Cell.address)
    (fun y hy _ _ h₁ hy' => not_mem_change hy' (hys y hy) h₁) hdropped hu

end Row

/-! ### Tables -/

/-- No row of a table has two cells of the same address. -/
def Table.Distinct (t : Table) : Prop := ∀ k row, t.rows.get? k = some row → Cell.Distinct row.cells

/-- No row has two cells of the same address. -/
def Tables.Distinct (ts : Tables) : Prop := ts.All fun _ t => t.Distinct

namespace Table

variable {t : Table}

/-- A put that stores a row keeps the addresses distinct if those that it brings are. -/
theorem distinct_put_iff (h : t.Distinct) (r : PutRow) :
    (t.put r).2.Distinct ↔ ((t.put r).1.isOk = true → Cell.Distinct r.cells) := by
  obtain ⟨e, hput⟩ | ⟨k, -, -, hput⟩ := t.put_cases r
  · rw [hput]
    exact iff_of_true h nofun
  · rw [hput]
    constructor
    · intro hafter _
      exact hafter k _ (SortedMap.get?_insert_self ..)
    · intro hr
      exact SortedMap.forall_insert h (hr rfl)

theorem Distinct.existing (h : t.Distinct) (key : Key) (k : SortKey) :
    Cell.Distinct (t.existing key k).cells := by
  unfold Table.existing
  cases hget : t.rows.get? k with
  | none => exact Cell.distinct_nil
  | some row => exact h k row hget

/-- Writes keep the addresses distinct as long as no put brings two cells of the same address. -/
theorem keptFor_distinct : KeptFor (fun row => Cell.Distinct row.cells) fun _ t => t.Distinct where
  put _ t r hr h := (distinct_put_iff h r).2 fun _ => hr
  update _ t r _ h := by
    obtain ⟨e, hupdate⟩ | ⟨k, row, -, -, hrow, hupdate⟩ := t.update_cases r
    · rw [hupdate]
      exact h
    · rw [hupdate]
      exact SortedMap.forall_insert h (Row.distinct_changes (h.existing r.key k) hrow)
  delete _ t r h := by
    obtain ⟨e, hdelete⟩ | ⟨k, -, -, hdelete⟩ := t.delete_cases r
    · rw [hdelete]
      exact h
    · rw [hdelete]
      exact SortedMap.forall_erase h k

end Table

/-! ### Writes of rows -/

namespace RowWrite

variable {ts : Tables}

/-- Only a put that brings two cells of the same address breaks the rule. -/
theorem distinct_run_iff (h : ts.Distinct) (w : RowWrite) (name : String) :
    (w.run name ts).2.Distinct ↔
      ¬ (w.kind = .put ∧ (w.run name ts).1.isOk = true ∧ ¬ Cell.Distinct w.cells) := by
  by_cases hkind : w.kind = .put
  · rw [run_put hkind, Tables.act]
    cases hget : ts.get? name with
    | none =>
      refine iff_of_true h ?_
      rintro ⟨-, hok, -⟩
      cases hok
    | some t =>
      have hput := Table.distinct_put_iff (h name t hget) (w.asPut name)
      constructor
      · rintro hafter ⟨-, hok, hcells⟩
        exact hcells (hput.1 (hafter name _ (SortedMap.get?_insert_self ..)) hok)
      · intro hnot
        refine Tables.All.insert h (hput.2 fun hok => ?_)
        exact not_not.1 fun hcells => hnot ⟨hkind, hok, hcells⟩
  · refine iff_of_true (w.all_run Table.keptFor_distinct name (fun row hrow => ?_) h)
      fun hput => hkind hput.1
    unfold supplied at hrow
    cases hw : w.kind with
    | put => exact absurd hw hkind
    | update =>
      rw [hw] at hrow
      obtain rfl := List.mem_singleton.1 hrow
      exact Cell.distinct_nil
    | delete =>
      rw [hw] at hrow
      cases hrow

/-- An update that deletes a version leaves a row without it. -/
theorem exists_row_of_delete (h : ts.Distinct) {w : RowWrite} (hkind : w.kind = .update)
    {name : String} (hok : (w.run name ts).1.isOk = true) {o : ColumnOperand}
    (ho : o ∈ w.updates.operands .delete) {version : Int64} (hversion : o.version = some version) :
    ∃ k row, w.key.sortKey = .ok k ∧ (w.run name ts).2.row? name k = some row ∧
      ∀ c ∈ row.cells, c.address ≠ (o.column, some version) := by
  obtain ⟨e, herror, -⟩ | ⟨t, k, row, ht, hk, hleaves, -, hrow⟩ := w.run_cases name ts
  · rw [herror] at hok
    cases hok
  · rw [place, hkind] at hk
    rw [Leaves, hkind] at hleaves
    obtain ⟨updated, hupdate, rfl⟩ := hleaves
    refine ⟨k, updated, hk, hrow, fun c hc haddress => ?_⟩
    refine Row.not_mem_update ((h name t ht).existing w.key k) hupdate ho hversion ?_
    exact List.mem_map.2 ⟨c, hc, haddress⟩

end RowWrite

/-! ### Stores -/

namespace Store

theorem distinct_after (ids : Nat → String) {rs : List Request}
    (hrs : ∀ r ∈ rs, ∀ row ∈ r.supplied, Cell.Distinct row.cells) :
    (after { ids } rs).tables.Distinct :=
  ((Invariant.new ids).after Table.keptFor_distinct (fun _ _ _ h => nomatch h)
    (fun _ _ _ h => h) rs hrs).tables

/-- **When cells have distinct addresses.** After requests that bring no two cells of the same
column and version, at once or for a transaction, no row has two such cells. Where this is so, it is
so after a row was written, at once, in a batch or at a commit, exactly unless that was a put that
brought such cells. An update that deletes a version then leaves no cell of the column with it. -/
theorem distinct_exact (ids : Nat → String) (rs : List Request) :
    ((∀ r ∈ rs, ∀ row ∈ r.supplied, Cell.Distinct row.cells) →
      (after { ids } rs).tables.Distinct) ∧
    ∀ (ts : Tables), ts.Distinct → ∀ (w : RowWrite) (name : String),
      ((w.run name ts).2.Distinct ↔
        ¬ (w.kind = .put ∧ (w.run name ts).1.isOk = true ∧ ¬ Cell.Distinct w.cells)) ∧
      (w.kind = .update → (w.run name ts).1.isOk = true →
        ∀ o ∈ w.updates.operands .delete, ∀ version, o.version = some version →
          ∃ k row, w.key.sortKey = .ok k ∧ (w.run name ts).2.row? name k = some row ∧
            ∀ c ∈ row.cells, c.address ≠ (o.column, some version)) :=
  ⟨distinct_after ids, fun _ h w name => ⟨w.distinct_run_iff h name,
    fun hkind hok _ ho _ => RowWrite.exists_row_of_delete h hkind hok ho⟩⟩

/-- A table with one row. -/
def withCells (cells : List Cell) : List Request :=
  [.createTable { table := "t", keys := [] },
    .putRow { table := "t", key := [⟨"id", .integer 1⟩], cells }]

/-- The deletion of a version of a column of this row. -/
def deleteVersion (column : String) (version : Int64) : RowWrite where
  kind := .update
  key := [⟨"id", .integer 1⟩]
  updates := { delete := some [{ column, version := some version }] }

/-- Two cells of a column have different versions, and one of them is deleted. -/
theorem distinct_twoVersions :
    (after {} (withCells [⟨"a", .integer 1, some 5⟩, ⟨"a", .integer 2, some 6⟩])).tables.Distinct ∧
    ((deleteVersion "a" 5).run "t" (after {} (withCells
      [⟨"a", .integer 1, some 5⟩, ⟨"a", .integer 2, some 6⟩])).tables).2.Distinct ∧
    ∃ k row, Key.sortKey [⟨"id", .integer 1⟩] = .ok k ∧
      ((deleteVersion "a" 5).run "t" (after {} (withCells
        [⟨"a", .integer 1, some 5⟩, ⟨"a", .integer 2, some 6⟩])).tables).2.row? "t" k = some row ∧
      ∀ c ∈ row.cells, c.address ≠ ("a", some 5) := by
  have hsupplied : ∀ r ∈ withCells [⟨"a", .integer 1, some 5⟩, ⟨"a", .integer 2, some 6⟩],
      ∀ row ∈ r.supplied, Cell.Distinct row.cells := by
    rintro r (_ | ⟨_, _ | ⟨_, _ | _⟩⟩) row hrow
    · cases hrow
    · obtain rfl := List.mem_singleton.1 hrow
      decide
  obtain ⟨hafter, hwrite⟩ := distinct_exact (Transaction.numbered "") (withCells
    [⟨"a", .integer 1, some 5⟩, ⟨"a", .integer 2, some 6⟩])
  obtain ⟨hdistinct, hdeleted⟩ := hwrite _ (hafter hsupplied) (deleteVersion "a" 5) "t"
  exact ⟨hafter hsupplied, hdistinct.2 nofun, hdeleted rfl rfl _ (.head _) 5 rfl⟩

/-- A put may bring two cells of the same address. -/
theorem not_distinct_of_put : ¬ ∀ s : Store, s.Reachable → s.tables.Distinct := by
  intro h
  have hdistinct := h (after {} (withCells [⟨"a", .integer 1, some 5⟩, ⟨"a", .integer 2, some 5⟩]))
    (.after (.new _) _)
  exact absurd (hdistinct "t" _ rfl [.integer 1] _ rfl) (by decide)

end Store

end WideColumn
