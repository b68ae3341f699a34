import WideColumn.Proofs.Resolution
import WideColumn.Store.Match

/-!
# Grouping

Conjunctions and disjunctions may be nested in pairs or written as one chain. Of a row, the filters
say the same (`Expr.verdict`), and of expressions that do not resolve, the first one is the error
either way.

* `Expr.verdict_combine` : the verdict on a combination, by the verdicts on its parts;
* `Expr.Grouping.verdict` : a nest of pairs has the verdict of the chain;
* `Expr.grouping_exact` : conjunctions, disjunctions, and negations of several expressions.
-/

namespace WideColumn

/-- What a connective makes of verdicts. -/
def Connective.decide : Connective → List Bool → Bool
  | and, vs => vs.all id
  | or, vs => vs.any id
  | not, vs => !vs.all id

/-- A chain of one is its verdict. -/
theorem Connective.decide_singleton {op : Connective} (hop : op ≠ .not) (v : Bool) :
    op.decide [v] = v := by
  cases op with
  | and | or => simp [decide]
  | not => exact absurd rfl hop

/-- Two chains, taken together, are one. -/
theorem Connective.decide_append {op : Connective} (hop : op ≠ .not) (vs ws : List Bool) :
    op.decide (vs ++ ws) = op.decide [op.decide vs, op.decide ws] := by
  cases op with
  | and | or => simp [decide]
  | not => exact absurd rfl hop

theorem Filter.accepts_composite (op : Connective) (fs : List Filter) (row : Row) :
    (composite op fs).accepts row = op.decide (fs.map (·.accepts row)) := by
  cases op with
  | and =>
    rw [accepts, allAccept_eq_all, Connective.decide, List.all_map]
    rfl
  | or =>
    rw [accepts, someAccepts_eq_any, Connective.decide, List.any_map]
    rfl
  | not =>
    rw [accepts, allAccept_eq_all, Connective.decide, List.all_map]
    rfl

namespace Expr

/-! ### Verdicts -/

/-- What is said of a row: whether the filter accepts it, or why there is no filter. -/
def verdict (b : Bindings) (row : Row) (e : Expr) : Except Error Bool :=
  (e.resolve b).map (·.accepts row)

section Verdict

variable (b : Bindings) (row : Row)

theorem resolveParts_verdicts (es : List Expr) :
    (resolveParts b es).map (·.map (·.accepts row)) = es.mapM (verdict b row) := by
  induction es with
  | nil => rfl
  | cons e es ih =>
    rw [List.mapM_cons, ← ih, resolveParts, verdict]
    cases e.resolve b with
    | error err => rfl
    | ok f => cases resolveParts b es <;> rfl

/-- The verdict on a combination is what the connective makes of those on the parts. The first part
that has none gives the error. -/
theorem verdict_combine (op : Connective) (es : List Expr) :
    (combine op es).verdict b row = (es.mapM (verdict b row)).map op.decide := by
  rw [← resolveParts_verdicts, verdict, resolve]
  cases resolveParts b es with
  | error err => rfl
  | ok fs => exact congrArg Except.ok (Filter.accepts_composite op fs row)

end Verdict

/-! ### Groupings -/

/-- A way to join expressions, in order, by joining two at a time. -/
inductive Grouping (join : Expr → Expr → Expr) : List Expr → Expr → Prop
  /-- One expression is not joined. -/
  | single (e : Expr) : Grouping join [e] e
  /-- Two groups are joined. -/
  | join {es fs : List Expr} {e f : Expr} (he : Grouping join es e) (hf : Grouping join fs f) :
      Grouping join (es ++ fs) (join e f)

/-- A nest of pairs has the verdict of the chain. -/
theorem Grouping.verdict {op : Connective} (hop : op ≠ .not) {es : List Expr} {e : Expr}
    (h : Grouping (fun e f => combine op [e, f]) es e) (b : Bindings) (row : Row) :
    e.verdict b row = (combine op es).verdict b row := by
  rw [verdict_combine]
  induction h with
  | single e =>
    rw [List.mapM_cons, List.mapM_nil]
    cases e.verdict b row with
    | error err => rfl
    | ok v => exact congrArg Except.ok (Connective.decide_singleton hop v).symm
  | @join es fs e f _ _ ihe ihf =>
    -- The verdicts on both groups are those on their own chains.
    rw [verdict_combine, List.mapM_cons, List.mapM_cons, List.mapM_nil, ihe, ihf,
      List.mapM_append]
    cases es.mapM (Expr.verdict b row) with
    | error err => rfl
    | ok vs =>
      cases fs.mapM (Expr.verdict b row) with
      | error err => rfl
      | ok ws => exact congrArg Except.ok (Connective.decide_append hop vs ws).symm

/-- **Grouping changes nothing.**  However some expressions are joined by `and`, two at a time and
in order, of every row the filter says what the filter of the whole chain says, or both have the
same error: that of the first expression that does not resolve. The row is accepted exactly if the
filter of each expression accepts it. The same holds of `or`, where one has to accept, and of the
negation of several expressions, where not all may; that it is made of the expressions or of their
conjunction is the same, too. -/
theorem grouping_exact (b : Bindings) (row : Row) (es : List Expr) :
    (∀ e, Grouping and es e → e.verdict b row = (allOf es).verdict b row ∧
      (notAll [e]).verdict b row = (notAll es).verdict b row) ∧
    (∀ e, Grouping or es e → e.verdict b row = (anyOf es).verdict b row) ∧
    (allOf es).verdict b row = (es.mapM (verdict b row)).map (fun vs => vs.all id) ∧
    (anyOf es).verdict b row = (es.mapM (verdict b row)).map (fun vs => vs.any id) ∧
    (notAll es).verdict b row = (es.mapM (verdict b row)).map (fun vs => !vs.all id) := by
  refine ⟨fun e he => ?_, fun e he => Grouping.verdict (nofun : Connective.or ≠ .not) he b row,
    verdict_combine b row .and es, verdict_combine b row .or es, verdict_combine b row .not es⟩
  have hall : e.verdict b row = (allOf es).verdict b row :=
    Grouping.verdict (nofun : Connective.and ≠ .not) he b row
  refine ⟨hall, ?_⟩
  -- The negation of one conjunction is what the negation of several expressions means.
  rw [notAll, notAll, verdict_combine, verdict_combine, List.mapM_cons, List.mapM_nil, hall, allOf,
    verdict_combine]
  cases es.mapM (verdict b row) with
  | error err => rfl
  | ok vs => simp [Except.map, bind, Except.bind, pure, Except.pure, Connective.decide]

/-- A column has to be below a variable. -/
def lessThan (column name : String) : Expr := .compare ⟨.less, column, .binding name⟩

/-- Joined from the left or from the right, three comparisons accept a row that each of them
accepts; if two variables are not bound, the error is about the first of them. -/
theorem grouping_exact_three :
    let left := ((lessThan "a" "x").and (lessThan "b" "y")).and (lessThan "c" "z")
    let right := (lessThan "a" "x").and ((lessThan "b" "y").and (lessThan "c" "z"))
    let row : Row := { cells := [⟨"a", .integer 1, none⟩, ⟨"b", .integer 2, none⟩] }
    let b : Bindings := .ofList [("x", .integer 7), ("y", .integer 7), ("z", .integer 7)]
    let unbound := Error.unboundVariable "y" ⟨.less, "b", .binding "y"⟩
    left.verdict b row = .ok true ∧ right.verdict b row = .ok true ∧
      left.verdict (.ofList [("x", .integer 7)]) row = .error unbound ∧
      right.verdict (.ofList [("x", .integer 7)]) row = .error unbound := by
  intro left right row b unbound
  let es := [lessThan "a" "x", lessThan "b" "y", lessThan "c" "z"]
  have hleft : Grouping and es left :=
    .join (.join (.single _) (.single _)) (.single _)
  have hright : Grouping and es right :=
    .join (.single _) (.join (.single _) (.single _))
  obtain ⟨hand, -, hall, -⟩ := grouping_exact b row es
  obtain ⟨hand', -, hall', -⟩ := grouping_exact (.ofList [("x", .integer 7)]) row es
  refine ⟨?_, ?_, ?_, ?_⟩
  · rw [(hand left hleft).1, hall]
    rfl
  · rw [(hand right hright).1, hall]
    rfl
  · rw [(hand' left hleft).1, hall']
    rfl
  · rw [(hand' right hright).1, hall']
    rfl

end Expr

end WideColumn
