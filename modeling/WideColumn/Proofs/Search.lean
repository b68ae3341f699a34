import WideColumn.Proofs.Reachable

/-!
# Accepted searches

What a search finds depends on the rows, but whether it is accepted should depend on its query
alone. It does not: the query is looked at once a row is met, so that a table without rows accepts
every query.

`Json.IsQuery` says which queries make sense and `Row.Hit` which rows they ask for, both without
regard to how a search goes about it.

* `Row.satisfies_eq_ok` : a row answers a query exactly if it makes sense, and then says whether it
  is a hit;
* `Table.matching_eq_ok` : rows are searched with success if there is none or the query makes sense;
* `Store.search_exact` : two tables accept the same searches but for those that make no sense where
  one of the tables is empty; what is found are the hits in key order.
-/

namespace WideColumn

/-! ### Queries -/

/-- A query that makes sense: null, or a query for all rows or for the value of a column. -/
inductive Json.IsQuery : Json → Prop
  /-- Null asks for all rows. -/
  | null : IsQuery .null
  /-- So does a member `match_all`, whatever its value. -/
  | matchAll {query all : Json} (hall : query.member? "match_all" = some all) : IsQuery query
  /-- A member `term` asks for the value of a column. -/
  | term {query term expected : Json} {column : String} (hterm : query.member? "term" = some term)
    (hcolumn : term.member? "field_name" = some (.string column))
    (hexpected : term.member? "term" = some expected) : IsQuery query

/-- A value is the one that a query names. Doubles and bytes have no name. -/
inductive Value.Named : Value → Json → Prop
  /-- Text names itself. -/
  | string (s : String) : Named (.string s) (.string s)
  /-- An integer is named by the number. -/
  | integer (n : Int64) : Named (.integer n) (.integer n.toInt)
  /-- A truth value names itself. -/
  | boolean (b : Bool) : Named (.boolean b) (.bool b)

/-- A row is among those that a query asks for. -/
inductive Row.Hit (row : Row) : Json → Prop
  /-- Null asks for all rows. -/
  | null : Hit row .null
  /-- So does a member `match_all`. -/
  | matchAll {query all : Json} (hall : query.member? "match_all" = some all) : Hit row query
  /-- A member `term` asks for the rows whose latest value of a column is the one that it names. -/
  | term {query term expected : Json} {column : String} {v : Value}
    (hterm : query.member? "term" = some term)
    (hcolumn : term.member? "field_name" = some (.string column))
    (hexpected : term.member? "term" = some expected)
    (hvalue : row.value? column = some v) (hnamed : v.Named expected) : Hit row query

namespace Json

theorem beq_null {j : Json} : (j == .null) = true ↔ j = .null := by
  change equal j .null = true ↔ _
  cases j <;> simp [equal]

theorem text?_eq_some {j : Json} {s : String} : j.text? = some s ↔ j = .string s := by
  cases j <;> simp [text?]

end Json

/-! ### Rows -/

namespace Row

variable {row : Row} {query : Json}

theorem hasTerm_iff {column : String} {expected : Json} :
    row.hasTerm column expected = true ↔
      ∃ v, row.value? column = some v ∧ v.Named expected := by
  unfold hasTerm
  constructor
  · intro h
    split at h
    · next s t hv =>
      obtain rfl := eq_of_beq h
      exact ⟨_, hv, .string s⟩
    · next m n hv =>
      obtain rfl := eq_of_beq h
      exact ⟨_, hv, .integer m⟩
    · next a b hv =>
      obtain rfl := eq_of_beq h
      exact ⟨_, hv, .boolean a⟩
    · cases h
  · rintro ⟨v, hv, hnamed⟩
    rw [hv]
    cases hnamed <;> exact beq_self_eq_true _

theorem all_iff : (query == .null || (query.member? "match_all").isSome) = true ↔
    query = .null ∨ ∃ all, query.member? "match_all" = some all := by
  rw [Bool.or_eq_true, Json.beq_null, Option.isSome_iff_exists]

/-- Of a query for the value of a column, the hits are the rows that have the value. -/
theorem hit_iff_hasTerm {term expected : Json} {column : String} (hnull : query ≠ .null)
    (hmatchAll : ¬∃ all, query.member? "match_all" = some all)
    (hterm : query.member? "term" = some term)
    (hcolumn : term.member? "field_name" = some (.string column))
    (hexpected : term.member? "term" = some expected) :
    row.Hit query ↔ row.hasTerm column expected = true := by
  rw [hasTerm_iff]
  constructor
  · intro h
    cases h with
    | null => exact absurd rfl hnull
    | matchAll hall => exact absurd ⟨_, hall⟩ hmatchAll
    | term hterm' hcolumn' hexpected' hvalue hnamed =>
      obtain rfl := Option.some.inj (hterm'.symm.trans hterm)
      obtain rfl := Json.string.inj (Option.some.inj (hcolumn'.symm.trans hcolumn))
      obtain rfl := Option.some.inj (hexpected'.symm.trans hexpected)
      exact ⟨_, hvalue, hnamed⟩
  · rintro ⟨v, hvalue, hnamed⟩
    exact .term hterm hcolumn hexpected hvalue hnamed

theorem satisfiesTerm_eq_ok {term : Json} {b : Bool} :
    row.satisfiesTerm term = .ok b ↔ ∃ column expected,
      term.member? "field_name" = some (.string column) ∧ term.member? "term" = some expected ∧
        row.hasTerm column expected = b := by
  have hname : ∀ column, (term.member? "field_name").bind Json.text? = some column ↔
      term.member? "field_name" = some (.string column) := fun column => by
    simp [Option.bind_eq_some_iff, Json.text?_eq_some]
  unfold satisfiesTerm
  constructor
  · intro h
    split at h
    · cases h
    · cases h
    · next column expected hcolumn hexpected =>
      exact ⟨column, expected, (hname column).1 hcolumn, hexpected, Except.ok.inj h⟩
  · rintro ⟨column, expected, hcolumn, hexpected, rfl⟩
    rw [(hname column).2 hcolumn, hexpected]

/-- A row answers a query exactly if it makes sense, and then says whether it is a hit. -/
theorem satisfies_eq_ok {b : Bool} :
    row.satisfies query = .ok b ↔ query.IsQuery ∧ (b = true ↔ row.Hit query) := by
  unfold satisfies
  split
  · next hall =>
    -- All rows are asked for.
    have hquery : query.IsQuery ∧ row.Hit query := by
      obtain rfl | ⟨all, hall⟩ := all_iff.1 hall
      · exact ⟨.null, .null⟩
      · exact ⟨.matchAll hall, .matchAll hall⟩
    rw [Except.ok.injEq, iff_true_right hquery.2, and_iff_right hquery.1, eq_comm]
  · next hall =>
    obtain ⟨hnull, hmatchAll⟩ := not_or.1 (mt all_iff.2 hall)
    cases hterm : query.member? "term" with
    | none =>
      refine iff_of_false nofun fun ⟨hquery, _⟩ => ?_
      cases hquery with
      | null => exact hnull rfl
      | matchAll h => exact hmatchAll ⟨_, h⟩
      | term h => cases hterm.symm.trans h
    | some term =>
      have hhit : ∀ {column expected}, term.member? "field_name" = some (.string column) →
          term.member? "term" = some expected →
          (row.Hit query ↔ row.hasTerm column expected = true) :=
        fun hcolumn hexpected => hit_iff_hasTerm hnull hmatchAll hterm hcolumn hexpected
      rw [satisfiesTerm_eq_ok]
      constructor
      · rintro ⟨column, expected, hcolumn, hexpected, rfl⟩
        exact ⟨.term hterm hcolumn hexpected, (hhit hcolumn hexpected).symm⟩
      · rintro ⟨hquery, hb⟩
        cases hquery with
        | null => exact absurd rfl hnull
        | matchAll h => exact absurd ⟨_, h⟩ hmatchAll
        | term hterm' hcolumn hexpected =>
          obtain rfl := Option.some.inj (hterm'.symm.trans hterm)
          exact ⟨_, _, hcolumn, hexpected,
            Bool.eq_iff_iff.2 (((hhit hcolumn hexpected).symm).trans hb.symm)⟩

theorem Hit.isQuery (h : row.Hit query) : query.IsQuery := by
  cases h with
  | null => exact .null
  | matchAll hall => exact .matchAll hall
  | term hterm hcolumn hexpected => exact .term hterm hcolumn hexpected

theorem satisfies_eq_true : row.satisfies query = .ok true ↔ row.Hit query := by
  rw [satisfies_eq_ok]
  exact ⟨fun h => h.2.1 rfl, fun h => ⟨h.isQuery, iff_of_true rfl h⟩⟩

theorem toOption_satisfies : (row.satisfies query).toOption = some true ↔ row.Hit query := by
  rw [← satisfies_eq_true]
  cases row.satisfies query <;> simp [Except.toOption]

instance : Decidable (row.Hit query) := decidable_of_iff _ toOption_satisfies

end Row

/-! ### Tables -/

namespace Table

/-- Rows are searched with success if there is none or the query makes sense. -/
theorem matching_eq_ok {query : Json} {rows hits : List Row} :
    matching query rows = .ok hits ↔
      (rows = [] ∨ query.IsQuery) ∧ hits = rows.filter fun row => decide (row.Hit query) := by
  induction rows generalizing hits with
  | nil => simp [matching, eq_comm]
  | cons row rows ih =>
    rw [matching, bind_eq_ok]
    constructor
    · rintro ⟨b, hb, h⟩
      obtain ⟨hits', hhits', h⟩ := bind_eq_ok.1 h
      obtain rfl := pure_eq_ok.1 h
      obtain ⟨hquery, hb⟩ := Row.satisfies_eq_ok.1 hb
      rw [(ih.1 hhits').2, List.filter_cons]
      exact ⟨.inr hquery, by simp only [hb, decide_eq_true_eq]⟩
    · rintro ⟨hquery, rfl⟩
      have hquery : query.IsQuery := hquery.resolve_left (List.cons_ne_nil row rows)
      refine ⟨decide (row.Hit query), Row.satisfies_eq_ok.2 ⟨hquery, decide_eq_true_iff⟩, ?_⟩
      refine bind_eq_ok.2 ⟨_, ih.2 ⟨.inr hquery, rfl⟩, ?_⟩
      rw [List.filter_cons]
      rfl

/-- The entries whose rows a query asks for, in key order. -/
def hits (t : Table) (query : Json) : List (SortKey × Row) :=
  t.rows.entries.filter fun e => decide (e.2.Hit query)

theorem mem_hits {t : Table} {query : Json} {k : SortKey} {row : Row} :
    (k, row) ∈ t.hits query ↔ t.rows.get? k = some row ∧ row.Hit query := by
  rw [hits, List.mem_filter, SortedMap.mem_entries, decide_eq_true_iff]

theorem hits_sorted (t : Table) (query : Json) :
    (t.hits query).Pairwise fun a b => compare a.1 b.1 = .lt :=
  t.rows.sorted.filter _

theorem matching_values_eq_ok {t : Table} {query : Json} {rows : List Row} :
    matching query t.rows.values = .ok rows ↔
      (t.rows.isEmpty = true ∨ query.IsQuery) ∧ rows = (t.hits query).map (·.2) := by
  rw [matching_eq_ok, SortedMap.isEmpty, List.isEmpty_iff, SortedMap.values, List.map_eq_nil_iff,
    List.filter_map]
  rfl

/-- A search succeeds if there is no row or the query makes sense. -/
theorem search_eq_ok {t : Table} {r : Search} {answer : SearchHits} :
    t.search r = .ok answer ↔
      (t.hasIndex r.index = true ∧ (t.rows.isEmpty = true ∨ r.query.IsQuery)) ∧
      answer =
        { rows := (t.hits r.query).map (·.2.found r.columns)
          totalHits := some (.ofNat (t.hits r.query).length)
          isAllSucceeded := true } := by
  rw [search]
  split
  · next hindex =>
    rw [bind_eq_ok]
    simp only [matching_values_eq_ok]
    constructor
    · rintro ⟨_, ⟨hquery, rfl⟩, h⟩
      rw [← pure_eq_ok.1 h, List.map_map, List.length_map]
      exact ⟨⟨hindex, hquery⟩, rfl⟩
    · rintro ⟨⟨-, hquery⟩, rfl⟩
      refine ⟨_, ⟨hquery, rfl⟩, ?_⟩
      rw [List.map_map, List.length_map]
      rfl
  · next hindex => simp [hindex]

theorem isOk_search (t : Table) (r : Search) :
    (t.search r).isOk = true ↔
      t.hasIndex r.index = true ∧ (t.rows.isEmpty = true ∨ r.query.IsQuery) := by
  rw [isOk_iff]
  simp only [search_eq_ok, exists_and_left, exists_eq, and_true]

theorem hasIndex_congr {t t' : Table} (h : t.tableMeta.indexes = t'.tableMeta.indexes)
    (name : String) : t.hasIndex name = t'.hasIndex name := by
  rw [hasIndex, hasIndex, h]

/-- What a search answers with: what it is to return of every row that the query asks for, in key
order, and how many there are. -/
structure Finds (t : Table) (r : Search) (answer : SearchHits) : Prop where
  /-- The rows are those of the hits, in the order of their keys. -/
  rows : ∃ l : List (SortKey × Row),
    (l.Pairwise fun a b => compare a.1 b.1 = .lt) ∧ (∀ e ∈ l, e.2.key.sortKey = .ok e.1) ∧
    (∀ k row, (k, row) ∈ l ↔ t.rows.get? k = some row ∧ row.Hit r.query) ∧
    answer.rows = l.map fun e => e.2.found r.columns
  /-- They are counted. -/
  total : answer.totalHits = some (.ofNat answer.rows.length)

theorem Placed.finds {t : Table} (h : t.Placed) {r : Search} {answer : SearchHits}
    (hsearch : t.search r = .ok answer) : t.Finds r answer := by
  obtain ⟨-, rfl⟩ := search_eq_ok.1 hsearch
  refine ⟨⟨t.hits r.query, t.hits_sorted r.query, fun e he => ?_, fun _ _ => mem_hits, rfl⟩, ?_⟩
  · exact h e.1 e.2 (mem_hits.1 he).1
  · rw [List.length_map]

end Table

/-! ### Stores -/

namespace Store

theorem answer_search {s : Store} {r : Search} {t : Table} (ht : s.tables.get? r.table = some t) :
    (s.answer (.search r)).1 = (t.search r).map Response.searchHits := by
  change (s.search r).map Response.searchHits = _
  rw [search, Tables.find_eq_ok.2 ht]
  rfl

theorem Reachable.finds {s : Store} (hs : s.Reachable) {r : Search} {t : Table}
    (ht : s.tables.get? r.table = some t) {a : Response} (ha : (s.answer (.search r)).1 = .ok a) :
    ∃ answer, a = .searchHits answer ∧ t.Finds r answer := by
  rw [answer_search ht] at ha
  obtain ⟨answer, hanswer, rfl⟩ := map_eq_ok.1 ha
  exact ⟨answer, rfl, (hs.placed ht).finds hanswer⟩

/-- **Which searches are accepted.**  Of two tables with the same indexes, both accept a search or
both refuse it exactly if the index is missing, the query makes sense, or either both tables have
rows or none has any. What an accepted search finds are the rows that the query asks for, in key
order, and their number. -/
theorem search_exact {s s' : Store} (hs : s.Reachable) (hs' : s'.Reachable) (r : Search)
    {t t' : Table} (ht : s.tables.get? r.table = some t) (ht' : s'.tables.get? r.table = some t')
    (hindexes : t.tableMeta.indexes = t'.tableMeta.indexes) :
    ((s.answer (.search r)).1.isOk = (s'.answer (.search r)).1.isOk ↔
      t.hasIndex r.index = false ∨ r.query.IsQuery ∨ t.rows.isEmpty = t'.rows.isEmpty) ∧
    (∀ a, (s.answer (.search r)).1 = .ok a → ∃ answer, a = .searchHits answer ∧ t.Finds r answer) ∧
    ∀ a, (s'.answer (.search r)).1 = .ok a →
      ∃ answer, a = .searchHits answer ∧ t'.Finds r answer := by
  refine ⟨?_, fun a ha => hs.finds ht ha, fun a ha => hs'.finds ht' ha⟩
  rw [answer_search ht, answer_search ht', isOk_map, isOk_map, Bool.eq_iff_iff, t.isOk_search,
    t'.isOk_search, ← Table.hasIndex_congr hindexes]
  by_cases hquery : r.query.IsQuery
  · simp [hquery]
  · cases t.hasIndex r.index with
    | false => simp
    | true =>
      simp only [hquery, true_and, or_false, false_or, Bool.true_eq_false]
      exact Bool.eq_iff_iff.symm

/-- A table after puts of rows with a column `a`. -/
def holding (rows : List (Int64 × Value)) : Store :=
  after {} (.createTable { table := "t", keys := [⟨"id", .integer, false⟩] } :: rows.map fun row =>
    .putRow { table := "t", key := [⟨"id", .integer row.1⟩], cells := [⟨"a", row.2, none⟩] })

theorem reachable_holding (rows : List (Int64 × Value)) : (holding rows).Reachable :=
  .after (.new _) _

/-- Rows in no order, two of them with the number 5. -/
def fives : List (Int64 × Value) := [(2, .integer 5), (1, .integer 5), (3, .string "5")]

/-- A search for the rows that have the number 5 in `a`. -/
def forFive : Search where
  table := "t"
  index := ""
  query := .object [("term", .object [("field_name", .string "a"), ("term", .integer 5)])]

theorem isQuery_forFive : forFive.query.IsQuery := .term rfl rfl rfl

/-- An empty table accepts the query, and so does one with rows, of which those are found that have
the number. -/
theorem search_exact_five :
    ((holding []).answer (.search forFive)).1.isOk = true ∧
    ∃ t answer, (holding fives).tables.get? "t" = some t ∧
      ((holding fives).answer (.search forFive)).1 = .ok (.searchHits answer) ∧
      t.Finds forFive answer ∧
      answer.rows = [⟨[⟨"id", .integer 1⟩], []⟩, ⟨[⟨"id", .integer 2⟩], []⟩] := by
  have ht : (holding []).tables.get? "t" = some _ := rfl
  have ht' : (holding fives).tables.get? "t" = some _ := rfl
  obtain ⟨halike, -, hfinds⟩ :=
    search_exact (reachable_holding []) (reachable_holding fives) forFive ht ht' rfl
  have hanswer : ((holding fives).answer (.search forFive)).1 = .ok _ := rfl
  obtain ⟨answer, ha, h⟩ := hfinds _ hanswer
  exact ⟨(halike.2 (.inr (.inl isQuery_forFive))).trans rfl, _, _, ht', hanswer,
    Response.searchHits.inj ha ▸ h, rfl⟩

/-- A search with a query that makes no sense. -/
def forNothing : Search where
  table := "t"
  index := ""
  query := .object [("fuzzy", .object [])]

/-- Whether a search is accepted is not settled by its query: one that makes no sense is accepted
as long as the table has no row. -/
theorem not_search_alike :
    ¬ ∀ (s s' : Store) (r : Search) (t t' : Table), s.Reachable → s'.Reachable →
      s.tables.get? r.table = some t → s'.tables.get? r.table = some t' →
      t.tableMeta.indexes = t'.tableMeta.indexes →
      (s.answer (.search r)).1.isOk = (s'.answer (.search r)).1.isOk := by
  intro h
  have halike := h (holding []) (holding [(1, .integer 5)]) forNothing _ _ (reachable_holding _)
    (reachable_holding _) rfl rfl rfl
  exact absurd halike (by decide)

end Store

end WideColumn
