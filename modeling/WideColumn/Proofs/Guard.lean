import Mathlib
import WideColumn.Proofs.Absent
import WideColumn.Proofs.Cells
import WideColumn.Proofs.Fields
import WideColumn.Proofs.Frame

/-!
# Guarded updates

A client that has read the version of a row can change the row on the condition that it still has
this version, and add to the version in the same update. The condition is written as text and
compiled (`Condition.guard`); options that hand it on and name the sum, and no other change, make
such an update (`OptionList.Guards.guarded`).

* `Store.answer_guarded` : a guarded update leaves the row alone, and then it has failed or is held
  back, or it finds the integer that it expects and leaves the sum.
-/

namespace WideColumn

/-! ### Guards -/

/-- The text of the comparison that a guard makes. -/
def guardText : String := "version[ignore_if_missing: false] == expected"

/-- What a guarded write expects: that the row is there, and that its version is `e`. -/
def Condition.guard (e : Int64) : Except Error Condition := do
  ofWordAndExpr "expect_exist" (← Expr.ofText guardText) (.ofList [("expected", .integer e)])

/-- The comparison as an expression. -/
def Expr.guard : Expr :=
  .compare ⟨.equal, "version[ignore_if_missing: false]", .binding "expected"⟩

/-- The comparison as a filter. -/
def ColumnFilter.guard (e : Int64) : ColumnFilter where
  comparator := .equal
  column := "version"
  value := .integer e
  ignoreIfMissing := some false

theorem Expr.ofText_guardText : ofText guardText = .ok .guard := by cbv

theorem Expr.resolve_guard {bindings : Bindings} {e : Int64}
    (h : bindings.get? "expected" = some (.integer e)) :
    Expr.guard.resolve bindings = .ok (.single (.guard e)) := by
  have hcolumn : ColumnRef.parse "version[ignore_if_missing: false]" =
      .ok ⟨"version", some (.ofList [("ignore_if_missing", .boolean false)])⟩ := rfl
  rw [Expr.guard, resolve, resolveComparison, hcolumn]
  simp only [operandValue, h]
  rfl

theorem Condition.guard_eq (e : Int64) :
    guard e = .ok { existence := .expectExist, filter := some (.single (.guard e)) } := by
  have hbound : SortedMap.get? (.ofList [("expected", .integer e)] : Bindings) "expected" =
      some (.integer e) := SortedMap.get?_insert_self _ _ _
  have hword : existenceOf "expect_exist" = .ok .expectExist := rfl
  exact bind_eq_ok.2 ⟨_, Expr.ofText_guardText,
    bind_eq_ok.2 ⟨_, hword, bind_eq_ok.2 ⟨_, Expr.resolve_guard hbound, rfl⟩⟩⟩

/-- What a guarded write adds to the version. -/
def ColumnOperand.bump (d : Int64) : ColumnOperand where
  column := "version"
  value := some (.integer d)

/-- Options of an update that is guarded by the version `e` and adds `d` to it. What it returns and
whether it belongs to a transaction is left open. -/
structure OptionList.Guards (os : OptionList) (e d : Int64) : Prop where
  /-- The guard is what is expected. -/
  condition : ∃ c, Condition.guard e = .ok c ∧ os.given? "condition" = some (.condition c)
  /-- The version is added to. -/
  increment : os.standing? "increment" = some (.operands [.bump d])
  /-- Nothing else is changed. -/
  nothing : ∀ kind : UpdateKind, kind ≠ .increment →
    os.standing? (Enumeration.symbol kind) = none

/-- An update that is guarded by the version `e` and adds `d` to it. -/
structure UpdateRow.Guarded (r : UpdateRow) (e d : Int64) : Prop where
  /-- The row has to be there with the version `e`. -/
  condition : r.condition = { existence := .expectExist, filter := some (.single (.guard e)) }
  /-- The version is added to, and nothing else is changed. -/
  updates : r.updates = { increment := some [.bump d] }

theorem UpdateSet.ofOptions_guards {os : OptionList} {e d : Int64} (h : os.Guards e d) :
    UpdateSet.ofOptions os = .ok { increment := some [.bump d] } := by
  have hput := h.nothing .put nofun
  have hdelete := h.nothing .delete nofun
  have hdeleteAll := h.nothing .deleteAll nofun
  have hincrement : os.standing? (Enumeration.symbol UpdateKind.increment) = _ := h.increment
  rw [ofOptions]
  simp only [Enumeration.members, List.foldlM_cons, List.foldlM_nil, addKind_eq, hput, hdelete,
    hdeleteAll, hincrement]
  rfl

/-- The update that a call makes is what its options are merged into, with the changes that they
say. -/
theorem Call.updateOf_eq_ok {table : String} {key : Key} {os : OptionList} {r : UpdateRow}
    (h : updateOf table key os = .ok r) :
    ∃ r₀ u, Merged ({ table, key } : UpdateRow) os r₀ ∧ UpdateSet.ofOptions os = .ok u ∧
      r = { r₀ with updates := u } := by
  obtain ⟨r₀, hmerge, h⟩ := bind_eq_ok.1 h
  obtain ⟨u, hu, h⟩ := bind_eq_ok.1 h
  exact ⟨r₀, u, (merge_eq_ok_iff.1 hmerge).2, hu, (pure_eq_ok.1 h).symm⟩

/-- Options that guard make a guarded update, if they make one. -/
theorem OptionList.Guards.guarded {os : OptionList} {e d : Int64} (h : os.Guards e d)
    {table : String} {key : Key} {r : UpdateRow} (hr : Call.updateOf table key os = .ok r) :
    r.table = table ∧ r.key = key ∧ r.Guarded e d := by
  obtain ⟨r₀, u, hmerged, hu, rfl⟩ := Call.updateOf_eq_ok hr
  rw [UpdateSet.ofOptions_guards h] at hu
  obtain rfl := Except.ok.inj hu
  obtain ⟨c, hc, hgiven⟩ := h.condition
  have hrest : (r₀.table, r₀.key, r₀.updates) = (table, key, {}) := hmerged.rest
  simp only [Prod.mk.injEq] at hrest
  refine ⟨hrest.1, hrest.2.1, ?_, rfl⟩
  have hset := hmerged.set (.of "condition" Shape.condition (·.condition)) (.head _) _ hgiven
  rw [Condition.guard_eq] at hc
  obtain rfl := Except.ok.inj hc
  exact (Except.ok.inj hset).symm

/-- An update belongs to a transaction exactly if its options give one. -/
theorem Call.transaction_updateOf {table : String} {key : Key} {os : OptionList} {r : UpdateRow}
    (h : updateOf table key os = .ok r) :
    r.transaction = none ↔ os.given? "transaction_id" = none := by
  obtain ⟨r₀, u, hmerged, -, rfl⟩ := updateOf_eq_ok h
  have hfield : .optional "transaction_id" Shape.text (·.transaction) ∈
      Described.fields (ρ := UpdateRow) := .tail _ (.tail _ (.tail _ (.head _)))
  constructor
  · intro hnone
    cases hgiven : os.given? "transaction_id" with
    | none => rfl
    | some v =>
      obtain ⟨id, -, hid⟩ := map_eq_ok.1 (hmerged.set _ hfield v hgiven)
      exact nomatch hid.trans hnone
  · exact hmerged.kept _ hfield

/-! ### Guarded updates of a row -/

/-- The row of a guard is there, and its version has the order of what is expected. -/
theorem Condition.check_guard {e : Int64} {existing : Option Row}
    (h : check { existence := .expectExist, filter := some (.single (.guard e)) } existing =
      .ok ()) :
    ∃ row v, existing = some row ∧ row.value? "version" = some v ∧
      v.compare? (.integer e) = some .eq := by
  cases existing with
  | none => cases h
  | some row =>
    have haccepts : (ColumnFilter.guard e).accepts row = true := by
      by_cases hfilter : (ColumnFilter.guard e).accepts row = true
      · exact hfilter
      · simp [check, Filter.admits, Filter.accepts, hfilter] at h
    unfold ColumnFilter.accepts at haccepts
    cases hv : row.value? "version" with
    | none => simp [ColumnFilter.guard, hv] at haccepts
    | some v =>
      refine ⟨row, v, rfl, hv, ?_⟩
      simp only [ColumnFilter.guard, hv, Comparator.test] at haccepts
      cases hcompare : v.compare? (.integer e) with
      | none => simp [hcompare] at haccepts
      | some o =>
        rw [hcompare] at haccepts
        cases o <;> first | rfl | cases haccepts

/-- Only an integer is added to, and the sum is then the one version of the row. -/
theorem Row.update_bump {row row' : Row} {d : Int64}
    (h : row.update { increment := some [.bump d] } = .ok row') :
    ∃ n, row.integerOf "version" = .ok n ∧ row'.value? "version" = some (.integer (n + d)) := by
  have hadd : row.addOperand (.bump d) = .ok row' := by
    obtain ⟨row₁, h₁, h⟩ := bind_eq_ok.1 h
    rw [← pure_eq_ok.1 h]
    exact h₁
  obtain ⟨n, hn, hrow⟩ := bind_eq_ok.1 hadd
  refine ⟨n, hn, ?_⟩
  rw [← pure_eq_ok.1 hrow]
  have hdropped : (row.dropColumn "version").cells.filter (·.column == "version") = [] :=
    List.filter_eq_nil_iff.2 (by simp [dropColumn])
  simp [value?, cell?, ColumnOperand.bump, List.filter_append, hdropped, Cell.latest?]

/-- A guarded update that is made finds the version that it expects and leaves the sum. -/
theorem UpdateRow.Guarded.finds {t : Table} {k : SortKey} {r : UpdateRow} {e d : Int64} {row' : Row}
    (h : r.Guarded e d) (hcheck : r.condition.check (t.rows.get? k) = .ok ())
    (hrow' : (t.existing r.key k).update r.updates = .ok row') :
    ∃ row, t.rows.get? k = some row ∧ row.value? "version" = some (.integer e) ∧
      row'.value? "version" = some (.integer (e + d)) := by
  rw [h.condition] at hcheck
  obtain ⟨row, v, hrow, hv, hcompare⟩ := Condition.check_guard hcheck
  rw [h.updates, Table.existing, hrow, Option.getD_some] at hrow'
  obtain ⟨n, hn, hsum⟩ := Row.update_bump hrow'
  -- A double may compare equal to what is expected, but nothing is added to it.
  obtain rfl : v = .integer n := by
    obtain ⟨hnone, -⟩ | hinteger := Row.integerOf_eq_ok.1 hn
    · rw [hv] at hnone
      cases hnone
    · exact Option.some.inj (hv.symm.trans hinteger)
  obtain rfl : n = e := Std.LawfulEqOrd.eq_of_compare (Option.some.inj hcompare)
  exact ⟨row, hrow, hv, hsum⟩

/-! ### Stores -/

/-- A guarded update of a store leaves the row alone, and then fails or is held back, or it finds
the version that it expects and leaves the sum. -/
theorem Store.answer_guarded (s : Store) {r : UpdateRow} {k : SortKey} {e d : Int64}
    (h : r.Guarded e d) (hk : r.key.sortKey = .ok k) :
    ((s.answer (.updateRow r)).2.row? r.table k = s.row? r.table k ∧
      (r.transaction = none → ∃ err, (s.answer (.updateRow r)).1 = .error err)) ∨
    ∃ row row' w, r.transaction = none ∧ s.row? r.table k = some row ∧
      row.value? "version" = some (.integer e) ∧
      row'.value? "version" = some (.integer (e + d)) ∧
      (s.answer (.updateRow r)).1 = .ok (.rowWritten w) ∧
      (s.answer (.updateRow r)).2.row? r.table k = some row' := by
  cases hr : r.transaction with
  | some id =>
    -- The update is held back, or refused, and the tables stay as they are.
    have hstage : s.answer (.updateRow r) = s.stage id (Write.update r).detached := by
      simp only [answer, write, Write.transaction?, hr]
    refine .inl ⟨?_, fun hnone => ?_⟩
    · rw [hstage, row?, row?, s.tables_stage]
    · cases hnone
  | none =>
    obtain ⟨err, hfail⟩ | ⟨t, k', row', w, ht, hk', hcheck, hrow', hanswer⟩ :=
      s.answer_updateRow_cases hr
    · rw [hfail]
      exact .inl ⟨rfl, fun _ => ⟨err, rfl⟩⟩
    obtain rfl := Except.ok.inj (hk'.symm.trans hk)
    obtain ⟨row, hrow, hversion, hversion'⟩ := h.finds hcheck hrow'
    rw [hanswer]
    refine .inr ⟨row, row', w, rfl, ?_, hversion, hversion', rfl, ?_⟩
    · rw [row?, ht, Option.bind_some, hrow]
    · rw [row?, SortedMap.get?_insert_self, Option.bind_some, SortedMap.get?_insert_self]

end WideColumn
