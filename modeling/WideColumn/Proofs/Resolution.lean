import Mathlib.Data.List.Forall2
import WideColumn.Expr.Resolve
import WideColumn.Proofs.Result

/-!
# What expressions resolve to

Resolving goes through an expression from left to right and stops at the first comparison that has
a fault (`Comparison.fault?`). Where there is none, the filter mirrors the expression
(`Expr.Resolved`): the same combinations of as many parts, and at the leaves the comparisons with
the column that their token names and the value of their operand.

* `Expr.resolve_cases` : an expression has a first fault, or it resolves to what mirrors it;
* `Expr.resolve_congr` : only the comparisons decide;
* `Expr.resolve_exact` : when an expression resolves, to what, and which error it gives otherwise.
-/

namespace WideColumn

/-! ### Comparisons -/

/-- The value of an operand: a literal stands for itself, a variable for what it is bound to. -/
def Operand.HasValue (b : Bindings) : Operand → Value → Prop
  | literal v, w => w = v
  | binding name, w => b.get? name = some w

namespace Comparison

/-- Why a comparison is no filter: its column token cannot be read, or else its variable is not
bound. -/
def fault? (b : Bindings) (c : Comparison) : Option Error :=
  match ColumnRef.parse c.column, c.operand with
  | .error fault, _ => some (.invalidColumn c.column fault)
  | .ok _, .literal _ => none
  | .ok _, .binding name =>
    if (b.get? name).isNone then some (.unboundVariable name c) else none

/-- A comparison as a filter. -/
structure Becomes (b : Bindings) (c : Comparison) (f : ColumnFilter) : Prop where
  /-- It compares in the same way, -/
  comparator : f.comparator = c.comparator
  /-- the column that the token names, with the options of the token, -/
  column : ∃ column, ColumnRef.parse c.column = .ok column ∧ f.column = column.name ∧
    f.ignoreIfMissing = column.flag? "ignore_if_missing" ∧
    f.latestVersionOnly = (column.flag? "latest_version_only").getD true ∧
    f.extra = column.extraOptions
  /-- with the value of the operand. -/
  value : c.operand.HasValue b f.value

theorem fault?_eq_none_iff {b : Bindings} {c : Comparison} :
    c.fault? b = none ↔ (∃ column, ColumnRef.parse c.column = .ok column) ∧
      ∀ name, c.operand = .binding name → ∃ v, b.get? name = some v := by
  unfold fault?
  cases ColumnRef.parse c.column with
  | error fault => simp
  | ok column =>
    cases c.operand with
    | literal v => simp
    | binding name => cases h : b.get? name <;> simp [h]

end Comparison

namespace Expr

open Comparison

theorem operandValue_eq_ok {b : Bindings} {c : Comparison} {v : Value} :
    operandValue b c = .ok v ↔ c.operand.HasValue b v := by
  unfold operandValue Operand.HasValue
  cases c.operand with
  | literal w => simp [eq_comm]
  | binding name => cases h : b.get? name <;> simp [h]

theorem resolveComparison_eq_ok {b : Bindings} {c : Comparison} {f : ColumnFilter} :
    resolveComparison b c = .ok f ↔ c.Becomes b f := by
  unfold resolveComparison
  constructor
  · intro h
    cases hcolumn : ColumnRef.parse c.column with
    | error fault =>
      rw [hcolumn] at h
      cases h
    | ok column =>
      rw [hcolumn] at h
      obtain ⟨v, hv, rfl⟩ := map_eq_ok.1 h
      exact ⟨rfl, ⟨column, hcolumn, rfl, rfl, rfl, rfl⟩, operandValue_eq_ok.1 hv⟩
  · rintro ⟨hcomparator, ⟨column, hcolumn, hname, hignore, hlatest, hextra⟩, hv⟩
    rw [hcolumn]
    refine map_eq_ok.2 ⟨f.value, operandValue_eq_ok.2 hv, ?_⟩
    obtain ⟨comparator, name, value, ignoreIfMissing, latestVersionOnly, extra⟩ := f
    subst hcomparator hname hignore hlatest hextra
    rfl

theorem resolveComparison_eq_error {b : Bindings} {c : Comparison} {err : Error} :
    resolveComparison b c = .error err ↔ c.fault? b = some err := by
  unfold resolveComparison operandValue fault?
  cases ColumnRef.parse c.column with
  | error fault => simp
  | ok column =>
    cases c.operand with
    | literal v => simp [Except.map]
    | binding name => cases h : b.get? name <;> simp [h, Except.map]

/-- A comparison has a fault or becomes a filter. -/
theorem resolveComparison_cases (b : Bindings) (c : Comparison) :
    (∃ err, c.fault? b = some err ∧ resolveComparison b c = .error err) ∨
    ∃ f, c.fault? b = none ∧ resolveComparison b c = .ok f ∧ c.Becomes b f := by
  cases h : resolveComparison b c with
  | error err => exact .inl ⟨err, resolveComparison_eq_error.1 h, rfl⟩
  | ok f =>
    refine .inr ⟨f, ?_, rfl, resolveComparison_eq_ok.1 h⟩
    cases hfault : c.fault? b with
    | none => rfl
    | some err =>
      rw [resolveComparison_eq_error.2 hfault] at h
      cases h

/-! ### Expressions -/

/-- A filter mirrors an expression. -/
inductive Resolved (b : Bindings) : Expr → Filter → Prop
  /-- A comparison becomes a filter of one column. -/
  | compare {c : Comparison} {f : ColumnFilter} (h : c.Becomes b f) :
      Resolved b (.compare c) (.single f)
  /-- A combination stays one, of as many parts in the same order. -/
  | combine {op : Connective} {es : List Expr} {fs : List Filter}
      (h : List.Forall₂ (Resolved b) es fs) : Resolved b (.combine op es) (.composite op fs)

section Resolve

variable (b : Bindings)

mutual

/-- An expression has a first fault, which is the error, or resolves to a filter that mirrors
it. -/
theorem resolve_cases : ∀ e : Expr,
    (∃ err, e.comparisons.findSome? (fault? b) = some err ∧ e.resolve b = .error err) ∨
    ∃ f, e.comparisons.findSome? (fault? b) = none ∧ e.resolve b = .ok f ∧ Resolved b e f
  | .compare c => by
    rw [comparisons, List.findSome?_singleton, resolve]
    obtain ⟨err, hfault, h⟩ | ⟨f, hfault, h, hf⟩ := resolveComparison_cases b c
    · rw [hfault, h]
      exact .inl ⟨err, rfl, rfl⟩
    · rw [hfault, h]
      exact .inr ⟨.single f, rfl, rfl, .compare hf⟩
  | .combine op es => by
    rw [comparisons, resolve]
    obtain ⟨err, hfault, h⟩ | ⟨fs, hfault, h, hfs⟩ := resolveParts_cases es
    · rw [h]
      exact .inl ⟨err, hfault, rfl⟩
    · rw [h]
      exact .inr ⟨.composite op fs, hfault, rfl, .combine hfs⟩

theorem resolveParts_cases : ∀ es : List Expr,
    (∃ err, (comparisonsOf es).findSome? (fault? b) = some err ∧
      resolveParts b es = .error err) ∨
    ∃ fs, (comparisonsOf es).findSome? (fault? b) = none ∧ resolveParts b es = .ok fs ∧
      List.Forall₂ (Resolved b) es fs
  | [] => .inr ⟨[], rfl, rfl, .nil⟩
  | e :: es => by
    rw [comparisonsOf, List.findSome?_append, resolveParts]
    -- A fault of the first part comes before those of the others.
    obtain ⟨err, hfault, h⟩ | ⟨f, hfault, h, hf⟩ := resolve_cases e
    · rw [hfault, h]
      exact .inl ⟨err, rfl, rfl⟩
    · rw [hfault, h]
      obtain ⟨err, hfaults, hs⟩ | ⟨fs, hfaults, hs, hfs⟩ := resolveParts_cases es
      · rw [hfaults, hs]
        exact .inl ⟨err, rfl, rfl⟩
      · rw [hfaults, hs]
        exact .inr ⟨f :: fs, rfl, rfl, .cons hf hfs⟩

end

variable {b}

mutual

/-- Nothing else mirrors an expression than what it resolves to. -/
theorem Resolved.resolve_eq : ∀ {e : Expr} {f : Filter}, Resolved b e f → e.resolve b = .ok f
  | .compare c, _, .compare h => by
    rw [resolve, resolveComparison_eq_ok.2 h]
    rfl
  | .combine op es, _, .combine h => by
    rw [resolve, resolveParts_eq h]
    rfl

theorem resolveParts_eq : ∀ {es : List Expr} {fs : List Filter},
    List.Forall₂ (Resolved b) es fs → resolveParts b es = .ok fs
  | [], _, .nil => rfl
  | e :: es, _, .cons h hs => by
    rw [resolveParts, h.resolve_eq, resolveParts_eq hs]
    rfl

end

theorem resolve_eq_ok_iff {e : Expr} {f : Filter} : e.resolve b = .ok f ↔ Resolved b e f := by
  refine ⟨fun h => ?_, Resolved.resolve_eq⟩
  obtain ⟨err, -, herr⟩ | ⟨f', -, hf', hresolved⟩ := resolve_cases b e
  · rw [herr] at h
    cases h
  · obtain rfl := Except.ok.inj (hf'.symm.trans h)
    exact hresolved

theorem resolve_eq_error_iff {e : Expr} {err : Error} :
    e.resolve b = .error err ↔ e.comparisons.findSome? (fault? b) = some err := by
  obtain ⟨err', hfault, h⟩ | ⟨f, hfault, h, -⟩ := resolve_cases b e
  · rw [hfault, h, Except.error.injEq, Option.some.injEq]
  · rw [hfault, h]
    exact ⟨nofun, nofun⟩

theorem exists_resolve_iff {e : Expr} :
    (∃ f, e.resolve b = .ok f) ↔ ∀ c ∈ e.comparisons, c.fault? b = none := by
  rw [← List.findSome?_eq_none_iff]
  obtain ⟨err, hfault, h⟩ | ⟨f, hfault, h, -⟩ := resolve_cases b e
  · rw [hfault, h]
    exact ⟨nofun, nofun⟩
  · rw [hfault, h]
    exact ⟨fun _ => rfl, fun _ => ⟨f, rfl⟩⟩

mutual

/-- The leaves of the filter are the comparisons of the expression, in order. -/
theorem Resolved.leaves : ∀ {e : Expr} {f : Filter}, Resolved b e f →
    List.Forall₂ (Becomes b) e.comparisons f.leaves
  | .compare _, _, .compare h => .cons h .nil
  | .combine _ _, _, .combine h => leavesOf h

theorem leavesOf : ∀ {es : List Expr} {fs : List Filter}, List.Forall₂ (Resolved b) es fs →
    List.Forall₂ (Becomes b) (comparisonsOf es) (Filter.leavesOf fs)
  | [], _, .nil => .nil
  | _ :: _, _, .cons h hs => List.rel_append h.leaves (leavesOf hs)

end

end Resolve

section Congr

variable {b b' : Bindings}

mutual

/-- Bindings under which the comparisons resolve alike make no difference. -/
theorem resolve_congr : ∀ {e : Expr},
    (∀ c ∈ e.comparisons, resolveComparison b c = resolveComparison b' c) →
    e.resolve b = e.resolve b'
  | .compare c, h => by rw [resolve, resolve, h c (.head _)]
  | .combine op es, h => by rw [resolve, resolve, resolveParts_congr h]

theorem resolveParts_congr : ∀ {es : List Expr},
    (∀ c ∈ comparisonsOf es, resolveComparison b c = resolveComparison b' c) →
    resolveParts b es = resolveParts b' es
  | [], _ => rfl
  | e :: es, h => by
    obtain ⟨he, hes⟩ := List.forall_mem_append.1 h
    rw [resolveParts, resolveParts, resolve_congr he, resolveParts_congr hes]

end

end Congr

theorem mem_bindings {e : Expr} {name : String} :
    name ∈ e.bindings ↔ ∃ c ∈ e.comparisons, c.operand = .binding name := by
  rw [bindings, List.mem_filterMap]
  refine exists_congr fun c => and_congr_right fun _ => ?_
  cases c.operand <;> simp

/-- **Resolving is exact.**  An expression resolves if and only if all of its column tokens can be
read and all of its variables are bound. It resolves to the one filter that mirrors it, so that the
leaves are the comparisons in order, and as many. Otherwise the error is the fault of the first
comparison that has one, an unreadable column token before an unbound variable. Bindings that agree
on the variables of the expression make no difference. -/
theorem resolve_exact (b : Bindings) (e : Expr) :
    ((∃ f, e.resolve b = .ok f) ↔
      (∀ c ∈ e.comparisons, ∃ column, ColumnRef.parse c.column = .ok column) ∧
        ∀ name ∈ e.bindings, ∃ v, b.get? name = some v) ∧
    (∀ f, e.resolve b = .ok f ↔ Resolved b e f) ∧
    (∀ f, e.resolve b = .ok f →
      List.Forall₂ (Becomes b) e.comparisons f.leaves ∧ f.leafCount = e.comparisons.length) ∧
    (∀ err, e.resolve b = .error err ↔ e.comparisons.findSome? (fault? b) = some err) ∧
    ∀ b' : Bindings, (∀ name ∈ e.bindings, b'.get? name = b.get? name) →
      e.resolve b' = e.resolve b := by
  refine ⟨?_, fun _ => resolve_eq_ok_iff, fun f hf => ?_, fun _ => resolve_eq_error_iff,
    fun b' hb' => ?_⟩
  · simp only [exists_resolve_iff, fault?_eq_none_iff, mem_bindings]
    constructor
    · intro h
      exact ⟨fun c hc => (h c hc).1, fun name ⟨c, hc, hname⟩ => (h c hc).2 name hname⟩
    · rintro ⟨hcolumns, hbound⟩ c hc
      exact ⟨hcolumns c hc, fun name hname => hbound name ⟨c, hc, hname⟩⟩
  · have hleaves := (resolve_eq_ok_iff.1 hf).leaves
    exact ⟨hleaves, hleaves.length_eq.symm⟩
  · refine resolve_congr fun c hc => ?_
    have hvalue : operandValue b' c = operandValue b c := by
      unfold operandValue
      cases hop : c.operand with
      | literal v => rfl
      | binding name => simp only [hb' name (mem_bindings.2 ⟨c, hc, hop⟩)]
    rw [resolveComparison, resolveComparison, hvalue]

/-- An expression with two variables, a negation of two parts, and an option block. -/
def nested : Expr :=
  .notAll [.compare ⟨.equal, "a", .binding "x"⟩,
    .or (.compare ⟨.less, "b[ignore_if_missing: false]", .literal (.integer 2)⟩)
      (.compare ⟨.greater, "c", .binding "y"⟩)]

/-- With both variables bound it resolves to three comparisons. With one of them unbound that is the
error, and no other binding matters; but a column token in front of it that cannot be read comes
first. -/
theorem resolve_exact_nested :
    (∃ f, nested.resolve (.ofList [("x", .integer 1), ("y", .integer 2)]) = .ok f ∧
      f.leafCount = 3) ∧
    nested.resolve (.ofList [("x", .integer 1)]) =
      .error (.unboundVariable "y" ⟨.greater, "c", .binding "y"⟩) ∧
    nested.resolve (.ofList [("x", .integer 1), ("z", .integer 3)]) =
      nested.resolve (.ofList [("x", .integer 1)]) ∧
    (allOf [.compare ⟨.equal, "a[", .binding "x"⟩, nested]).resolve .empty =
      .error (.invalidColumn "a[" .unbalanced) := by
  have hbindings : nested.bindings = ["x", "y"] := rfl
  obtain ⟨hok, -, hleaves, -⟩ :=
    resolve_exact (.ofList [("x", .integer 1), ("y", .integer 2)]) nested
  obtain ⟨-, -, -, herror, hagree⟩ := resolve_exact (.ofList [("x", .integer 1)]) nested
  obtain ⟨-, -, -, hcolumn, -⟩ :=
    resolve_exact .empty (allOf [.compare ⟨.equal, "a[", .binding "x"⟩, nested])
  refine ⟨?_, (herror _).2 rfl, hagree _ ?_, (hcolumn _).2 rfl⟩
  · have hcolumns : ∀ c ∈ nested.comparisons, ∃ column, ColumnRef.parse c.column = .ok column :=
      List.forall_mem_cons.2 ⟨⟨_, rfl⟩, List.forall_mem_cons.2 ⟨⟨_, rfl⟩,
        List.forall_mem_singleton.2 ⟨_, rfl⟩⟩⟩
    obtain ⟨f, hf⟩ := hok.2 ⟨hcolumns, by
      rw [hbindings]
      exact List.forall_mem_cons.2 ⟨⟨_, rfl⟩, List.forall_mem_singleton.2 ⟨_, rfl⟩⟩⟩
    exact ⟨f, hf, (hleaves f hf).2⟩
  · rw [hbindings]
    exact List.forall_mem_cons.2 ⟨rfl, List.forall_mem_singleton.2 rfl⟩

end Expr

end WideColumn
