import WideColumn.Client.Scan
import WideColumn.Proofs.Merge
import WideColumn.Proofs.Reachable

/-!
# Scans of whole ranges

A scan comes in pages, each of which starts at the first row that the one before left out. That
key is read off the row itself, so it takes a store whose rows are where their keys say
(`Table.Placed`) for the next page to start at the right place.

* `Table.lists_span` : the rows of a range, in the order of the scan;
* `Table.drop_span` : what a page leaves out is the range that starts at the first row left out;
* `Client.collect_error`, `Client.collect_next`, `Client.collect_last` : one turn of the loop over
  pages, and `Client.collect_cases` all that it can do;
* `Client.collect_span` : the loop over pages collects the rows of the range, whatever the pages
  are cut to;
* `Client.scanAll_range` : a whole scan of a reachable store.
-/

namespace WideColumn

/-! ### The order of a scan -/

namespace Direction

/-- Whether a key comes before another in the order of the scan. -/
def before (d : Direction) (a b : SortKey) : Bool :=
  match d with
  | .forward => (compare a b).isLT
  | .backward => (compare b a).isLT

theorem before_irrefl (d : Direction) (a : SortKey) : d.before a a = false := by
  cases d <;> simp [before]

theorem before_asymm (d : Direction) {a b : SortKey} (h : d.before a b = true) :
    d.before b a = false := by
  cases d <;> simp only [before, Ordering.isLT_iff_eq_lt] at h ⊢ <;>
    simp [Std.OrientedCmp.gt_of_lt h]

/-- Not before, in terms of the order. -/
theorem isLT_eq_false {a b : SortKey} : (compare a b).isLT = false ↔ (compare b a).isLE := by
  rw [Std.OrientedOrd.eq_swap (a := b), Ordering.isLE_swap, ← Ordering.not_isLT_eq_isGE,
    Bool.not_eq_true']

theorem before_of_not_before {d : Direction} {a b c : SortKey} (h : d.before a b = true)
    (hc : d.before c b = false) : d.before a c = true := by
  cases d with
  | forward =>
    rw [before, Ordering.isLT_iff_eq_lt] at h ⊢
    exact Std.TransCmp.lt_of_lt_of_isLE h (isLT_eq_false.1 hc)
  | backward =>
    rw [before, Ordering.isLT_iff_eq_lt] at h ⊢
    exact Std.TransCmp.lt_of_isLE_of_lt (isLT_eq_false.1 hc) h

/-- A key is in a range if it does not come before the start, but before the end. -/
theorem covers_eq (d : Direction) (start stop k : SortKey) :
    d.covers start stop k = (!d.before k start && d.before k stop) := by
  have hle (a b : SortKey) : (compare a b).isLE = !(compare b a).isLT := by
    rw [Std.OrientedOrd.eq_swap (a := b), Ordering.isLT_swap, Ordering.not_isGT_eq_isLE]
  cases d <;> rw [covers, before, before, hle]

/-- The part of a range from one of its keys on. -/
theorem covers_from {d : Direction} {start stop k : SortKey} (h : d.covers start stop k = true)
    (x : SortKey) : (!d.before x k && d.covers start stop x) = d.covers k stop x := by
  rw [covers_eq, Bool.and_eq_true, Bool.not_eq_true'] at h
  rw [covers_eq, covers_eq, ← Bool.and_assoc]
  congr 1
  rw [← Bool.not_or]
  congr 1
  rw [Bool.or_eq_left_iff_imp]
  intro hx
  exact before_of_not_before hx h.1

end Direction

/-! ### The rows of a range -/

/-- `l` lists the rows of a range with their sort keys: all of them, each once, in the order of the
scan. -/
structure Table.Lists (t : Table) (d : Direction) (start stop : SortKey)
    (l : List (SortKey × Row)) : Prop where
  /-- They are the rows stored in the range. -/
  mem_iff : ∀ k row, (k, row) ∈ l ↔ t.rows.get? k = some row ∧ d.covers start stop k = true
  /-- Their keys strictly advance. -/
  ordered : l.Pairwise fun a b => d.before a.1 b.1 = true

namespace Table

/-- All rows in the order of a scan. -/
def listing (t : Table) : Direction → List (SortKey × Row)
  | .forward => t.rows.entries
  | .backward => t.rows.entries.reverse

/-- The rows of a range in the order of the scan. -/
def span (t : Table) (d : Direction) (start stop : SortKey) : List (SortKey × Row) :=
  (t.listing d).filter fun e => d.covers start stop e.1

theorem range_eq (t : Table) (d : Direction) (start stop : SortKey) :
    t.range d start stop = (t.span d start stop).map (·.2) := by
  cases d with
  | forward => rfl
  | backward =>
    simp only [range, span, listing, SortedMap.entriesWhere, List.filter_reverse,
      List.map_reverse]

theorem listing_pairwise (t : Table) (d : Direction) :
    (t.listing d).Pairwise fun a b => d.before a.1 b.1 = true := by
  have h : t.rows.entries.Pairwise fun a b => (compare a.1 b.1).isLT = true :=
    t.rows.sorted.imp fun h => by simp [h]
  cases d with
  | forward => exact h
  | backward => exact List.pairwise_reverse.2 h

theorem mem_listing {t : Table} {d : Direction} {k : SortKey} {row : Row} :
    (k, row) ∈ t.listing d ↔ t.rows.get? k = some row := by
  cases d <;> simp [listing, SortedMap.mem_entries]

theorem lists_span (t : Table) (d : Direction) (start stop : SortKey) :
    t.Lists d start stop (t.span d start stop) where
  mem_iff k row := by rw [span, List.mem_filter, mem_listing]
  ordered := (t.listing_pairwise d).filter _

/-- A range has one listing. -/
theorem Lists.eq_span {t : Table} {d : Direction} {start stop : SortKey}
    {l : List (SortKey × Row)} (h : t.Lists d start stop l) : l = t.span d start stop := by
  have hspan := t.lists_span d start stop
  have hnodup {l : List (SortKey × Row)} (h : t.Lists d start stop l) : l.Nodup :=
    h.ordered.imp fun {a b} hab heq => by
      rw [heq, Direction.before_irrefl] at hab
      cases hab
  -- Both have the same rows, and there is one way to order them.
  have hperm : l.Perm (t.span d start stop) :=
    (List.perm_ext_iff_of_nodup (hnodup h) (hnodup hspan)).2 fun e => by
      rw [h.mem_iff, hspan.mem_iff]
  refine hperm.eq_of_pairwise (fun a b _ _ hab hba => ?_) h.ordered hspan.ordered
  rw [Direction.before_asymm _ hab] at hba
  cases hba

/-- What follows in a range from one of its rows on is the range that starts there. -/
theorem drop_span {t : Table} {d : Direction} {start stop : SortKey} {i : Nat}
    {e : SortKey × Row} (he : (t.span d start stop)[i]? = some e) :
    (t.span d start stop).drop i = t.span d e.1 stop := by
  have hcov : d.covers start stop e.1 = true :=
    (List.mem_filter.1 (List.mem_of_getElem? he)).2
  rw [drop_eq_filter (fun a => d.before_irrefl a.1) (fun a b => d.before_asymm)
    (t.lists_span d start stop).ordered he]
  rw [span, List.filter_filter, span]
  exact List.filter_congr fun x _ => Direction.covers_from hcov x.1

end Table

/-! ### Pages -/

namespace Key

theorem sortPart_eq_ok_iff {v : KeyValue} : (∃ p, v.sortPart = .ok p) ↔ v ≠ .autoIncrement := by
  cases v <;> simp [KeyValue.sortPart]

/-- A key has a place in the order unless it holds a number to come. -/
theorem exists_sortKey_iff {key : Key} :
    (∃ k, key.sortKey = .ok k) ↔ ∀ c ∈ key, c.value ≠ .autoIncrement := by
  induction key with
  | nil => simp [sortKey, pure, Except.pure]
  | cons c key ih =>
    rw [List.forall_mem_cons, ← ih, ← sortPart_eq_ok_iff]
    simp only [sortKey_cons_eq_ok]
    constructor
    · rintro ⟨-, p, k, hp, hk, -⟩
      exact ⟨⟨p, hp⟩, k, hk⟩
    · rintro ⟨⟨p, hp⟩, k, hk⟩
      exact ⟨p :: k, p, k, hp, hk, rfl⟩

end Key

namespace GetRange

/-- What a scan returns of rows of its range: those that pass the filter, with the columns asked
for. -/
def select (r : GetRange) (rows : List Row) : List Row :=
  (rows.filter (Filter.admits r.filter)).map (·.project r.columns)

theorem select_append (r : GetRange) (rows rows' : List Row) :
    r.select (rows ++ rows') = r.select rows ++ r.select rows' := by
  simp only [select, List.filter_append, List.map_append]

theorem rowLimit_eq_none {r : GetRange} (h : ∀ n, r.limit = some n → n < 0) :
    r.rowLimit = none := by
  unfold rowLimit
  cases hn : r.limit with
  | none => rfl
  | some n =>
    have hlt := Int64.lt_iff_toInt_lt.1 (h n hn)
    rw [Option.bind_some, if_neg]
    rw [Int64.le_iff_toInt_le]
    omega

/-- As many rows as were asked for. -/
def capped (r : GetRange) (rows : List Row) : List Row :=
  match r.rowLimit with
  | some n => rows.take n
  | none => rows

end GetRange

/-- A scan wants more rows than those that have come in. -/
def GetRange.WantsMore (r : GetRange) (rows : List Row) : Prop :=
  ∀ n, r.rowLimit = some n → rows.length < n

namespace GetRange

variable {r : GetRange} {rows : List Row}

theorem wantsMore_iff : r.WantsMore rows ↔ r.rowLimit.filter (· ≤ rows.length) = none := by
  rw [Option.filter_eq_none_iff]
  simp [WantsMore]

theorem WantsMore.capped_eq (h : r.WantsMore rows) : r.capped rows = rows := by
  unfold capped
  cases hn : r.rowLimit with
  | none => rfl
  | some n => exact List.take_of_length_le (Nat.le_of_lt (h n hn))

end GetRange

theorem Table.pageLength_pos {pageSize : Nat} (h : 0 < pageSize) (limit : Option Int64) :
    0 < pageLength pageSize limit := by
  unfold pageLength
  split
  · exact h
  · next n =>
    split
    · next hn =>
      rw [Int64.lt_iff_toInt_lt] at hn
      have : 0 < n.toNatClampNeg := by
        rw [Int64.toNatClampNeg]
        simp at hn
        omega
      omega
    · exact h

/-- A page of a stored table, asked for by key. -/
theorem Store.scan_eq {s : Store} {pageSize : Nat} {r : GetRange} {t : Table}
    {first last : SortKey} (ht : s.tables.get? r.table = some t)
    (hfirst : r.start.sortKey = .ok first) (hlast : r.stop.sortKey = .ok last) :
    s.scan pageSize r none =
      .ok (Table.cut (Table.pageLength pageSize r.limit) r
        ((t.span r.direction first last).map (·.2))) := by
  rw [← Table.range_eq]
  simp only [scan, Tables.find, ht, Except.bind, Table.page, bind, pure, Except.pure, hfirst, hlast]

/-! ### The loop over pages -/

namespace Client

variable {τ σ : Type}

section Turn

variable {c : Client τ} {net : Network τ σ} {instanceName : String} {r : GetRange}
  {all page : RangePage} {start : Key} {s s₁ : σ}

/-- An error ends the loop. -/
theorem collect_error {e : Error}
    (hpage : c.page net instanceName (r.resume start all.rows.length) none s = (.error e, s₁))
    (pages : Nat) :
    c.collect net instanceName r (pages + 1) all start s = some (.error e, s₁) := by
  rw [collect, hpage]

/-- The loop goes on behind a page if more rows are wanted and the page says where to go on. -/
theorem collect_next {next : Key}
    (hpage : c.page net instanceName (r.resume start all.rows.length) none s = (.ok page, s₁))
    (hmore : r.WantsMore (all.extend page).rows) (hnext : page.nextStart = some next)
    (pages : Nat) :
    c.collect net instanceName r (pages + 1) all start s =
      c.collect net instanceName r pages (all.extend page) next s₁ := by
  rw [collect, hpage]
  dsimp only
  rw [GetRange.wantsMore_iff.1 hmore, hnext]

/-- Otherwise the page is the last. -/
theorem collect_last
    (hpage : c.page net instanceName (r.resume start all.rows.length) none s = (.ok page, s₁))
    (hlast : r.WantsMore (all.extend page).rows → page.nextStart = none) (pages : Nat) :
    c.collect net instanceName r (pages + 1) all start s =
      some (.ok { all.extend page with rows := r.capped (all.extend page).rows }, s₁) := by
  rw [collect, hpage]
  dsimp only
  cases hlimit : r.rowLimit.filter (· ≤ (all.extend page).rows.length) with
  | some n =>
    rw [GetRange.capped, (Option.filter_eq_some_iff.1 hlimit).1]
    rfl
  | none =>
    have hmore := GetRange.wantsMore_iff.2 hlimit
    rw [hlast hmore, hmore.capped_eq]

/-- All that a turn of the loop can do if the loop ends. -/
theorem collect_cases {pages : Nat} {result : Except Error RangePage} {s' : σ}
    (h : c.collect net instanceName r (pages + 1) all start s = some (result, s')) :
    (∃ e, c.page net instanceName (r.resume start all.rows.length) none s = (.error e, s') ∧
      result = .error e) ∨
    (∃ page, c.page net instanceName (r.resume start all.rows.length) none s = (.ok page, s') ∧
      (r.WantsMore (all.extend page).rows → page.nextStart = none) ∧
      result = .ok { all.extend page with rows := r.capped (all.extend page).rows }) ∨
    ∃ page s₁ next,
      c.page net instanceName (r.resume start all.rows.length) none s = (.ok page, s₁) ∧
      r.WantsMore (all.extend page).rows ∧ page.nextStart = some next ∧
      c.collect net instanceName r pages (all.extend page) next s₁ = some (result, s') := by
  cases hpage : c.page net instanceName (r.resume start all.rows.length) none s with
  | mk answer s₁ =>
    cases answer with
    | error e =>
      rw [collect_error hpage] at h
      obtain ⟨rfl, rfl⟩ := Prod.mk.inj (Option.some.inj h)
      exact .inl ⟨e, rfl, rfl⟩
    | ok page =>
      by_cases hlast : r.WantsMore (all.extend page).rows → page.nextStart = none
      · rw [collect_last hpage hlast] at h
        obtain ⟨rfl, rfl⟩ := Prod.mk.inj (Option.some.inj h)
        exact .inr (.inl ⟨page, rfl, hlast, rfl⟩)
      · obtain ⟨hmore, hnext⟩ := Classical.not_imp.1 hlast
        obtain ⟨next, hnext⟩ := Option.ne_none_iff_exists'.1 hnext
        rw [collect_next hpage hmore hnext] at h
        exact .inr (.inr ⟨page, s₁, next, rfl, hmore, hnext, h⟩)

end Turn

/-- An instance answers with the pages of a store, which stays as it is. `I` is what is known of
the state behind the network. -/
def PagesOf (c : Client τ) (net : Network τ σ) (instanceName : String) (s : Store)
    (pageSize : Nat) (I : σ → Prop) : Prop :=
  ∀ x r, I x → ∃ x',
    c.page net instanceName r none x = ((s.scan pageSize r none).mapError .service, x') ∧ I x'

/-- The loop over pages collects the rows of the range, whatever the pages are cut to, and ends
within one page more than there are rows. -/
theorem collect_span {c : Client τ} {net : Network τ σ} {instanceName : String} {s : Store}
    {pageSize : Nat} {I : σ → Prop} {r : GetRange} {t : Table} {last : SortKey}
    (hpages : c.PagesOf net instanceName s pageSize I) (hsize : 0 < pageSize)
    (ht : s.tables.get? r.table = some t) (hplaced : t.Placed)
    (hlast : r.stop.sortKey = .ok last) {pages : Nat} (all : RangePage) {start : Key}
    {first : SortKey} {x : σ} (hx : I x) (hfirst : start.sortKey = .ok first)
    (hlen : (t.span r.direction first last).length < pages) :
    ∃ all' x', c.collect net instanceName r pages all start x = some (.ok all', x') ∧ I x' ∧
      all'.rows =
        r.capped (all.rows ++ r.select ((t.span r.direction first last).map (·.2))) ∧
      (r.rowLimit = none → all'.consumed.read =
        all.consumed.read + .ofNat (t.span r.direction first last).length) := by
  induction pages generalizing all start first x with
  | zero => omega
  | succ pages ih =>
    obtain ⟨x', hpage, hx'⟩ := hpages x (r.resume start all.rows.length) hx
    rw [Store.scan_eq (r := r.resume start all.rows.length) ht hfirst hlast] at hpage
    have hpos := Table.pageLength_pos hsize (r.resume start all.rows.length).limit
    generalize Table.pageLength pageSize (r.resume start all.rows.length).limit = len at hpage hpos
    change c.page net instanceName (r.resume start all.rows.length) none x =
      (.ok (Table.cut len r ((t.span r.direction first last).map (·.2))), x') at hpage
    have hdrop := @Table.drop_span t r.direction first last len
    have hkeys : ∀ e ∈ t.span r.direction first last, e.2.key.sortKey = .ok e.1 := fun e he =>
      hplaced e.1 e.2 (((t.lists_span r.direction first last).mem_iff e.1 e.2).1 he).1
    generalize t.span r.direction first last = l at hpage hdrop hkeys hlen ⊢
    generalize hp : Table.cut len r (l.map (·.2)) = page at hpage
    have hrows : page.rows = r.select ((l.take len).map (·.2)) := by
      rw [← hp, List.map_take]
      rfl
    have hread : page.consumed.read = .ofNat (l.take len).length := by
      rw [← hp, List.length_take]
      simp [Table.cut]
    have hnext : page.nextStart = l[len]?.map (·.2.key) := by
      rw [← hp]
      simp [Table.cut, Option.map_map, Function.comp_def]
    have hsplit : r.select (l.map (·.2)) = page.rows ++ r.select ((l.drop len).map (·.2)) := by
      rw [hrows, ← GetRange.select_append, ← List.map_append, List.take_append_drop]
    by_cases hmore : r.WantsMore (all.extend page).rows
    · cases hl : l[len]? with
      | none =>
        have hall : l.take len = l := List.take_of_length_le (List.getElem?_eq_none_iff.1 hl)
        rw [hall] at hrows hread
        rw [collect_last hpage fun _ => by rw [hnext, hl]; rfl, ← hrows, ← hread]
        exact ⟨_, x', rfl, hx', rfl, fun _ => rfl⟩
      | some e =>
        -- The key of the first row left out leads back to the rest of the range.
        rw [hl, Option.map_some] at hnext
        rw [collect_next hpage hmore hnext]
        have hrest := hdrop hl
        have hfirst' := hkeys e (List.mem_of_getElem? hl)
        have hlen' : (t.span r.direction e.1 last).length < pages := by
          have := (List.getElem?_eq_some_iff.1 hl).1
          rw [← hrest, List.length_drop]
          omega
        obtain ⟨all', x'', hcol, hx'', hrows', hread'⟩ :=
          ih (all.extend page) hx' hfirst' hlen'
        refine ⟨all', x'', hcol, hx'', ?_, fun h => ?_⟩
        · rw [hrows', ← hrest, hsplit, ← List.append_assoc]
          rfl
        · calc all'.consumed.read
              = all.consumed.read + page.consumed.read + .ofNat (l.drop len).length := by
                rw [hread' h, ← hrest]
                rfl
            _ = all.consumed.read + .ofNat ((l.take len).length + (l.drop len).length) := by
                rw [hread, Int64.add_assoc, Int64.ofNat_add]
            _ = all.consumed.read + .ofNat l.length := by
                rw [← List.length_append, List.take_append_drop]
    · -- Enough rows have come in: the rest of the range would only be cut off.
      rw [collect_last hpage fun h => absurd h hmore]
      obtain ⟨n, hn, hle⟩ : ∃ n, r.rowLimit = some n ∧ n ≤ (all.extend page).rows.length := by
        simpa only [GetRange.WantsMore, not_forall, Nat.not_lt, exists_prop] using hmore
      refine ⟨_, x', rfl, hx', ?_, fun h => nomatch h.symm.trans hn⟩
      rw [hsplit, ← List.append_assoc]
      simp only [GetRange.capped, hn]
      exact (List.take_append_of_le_length hle).symm

/-! ### Scans of reachable stores -/

theorem page_ofServers {c : Client Nat} {instanceName : String} {i : Nat} {v : Server}
    {cl : Cluster} (hc : c.transport instanceName = .ok i) (hv : cl[i]? = some v)
    (hf : v.failNext = none) (r : GetRange) :
    c.page .ofServers instanceName r none cl =
      ((v.store.scan v.pageSize r none).mapError .service,
        cl.set i { v with log := v.log ++ [(instanceName, .getRange)], failNext := none }) := by
  simp only [page, hc, Network.ofServers, Cluster.ask, hv, Server.scan, Server.receive, hf,
    Prod.map, id]

/-- A server that is not told to fail answers with the pages of its store. -/
theorem pagesOf_ofServers {c : Client Nat} {instanceName : String} {i : Nat}
    (hc : c.transport instanceName = .ok i) (s : Store) (pageSize : Nat) :
    c.PagesOf .ofServers instanceName s pageSize fun cl =>
      ∃ v, cl[i]? = some v ∧ v.failNext = none ∧ v.store = s ∧ v.pageSize = pageSize := by
  rintro cl r ⟨v, hv, hf, rfl, rfl⟩
  have hi := (List.getElem?_eq_some_iff.1 hv).1
  exact ⟨_, page_ofServers hc hv hf r, _, List.getElem?_set_self hi, rfl, rfl, rfl⟩

/-- The key of the row with a number. -/
def numbered (n : Int64) : Key := [⟨"id", .integer n⟩]

/-- A server with three rows that returns one a page. -/
def oneByOne : Server where
  store := Store.after {} [.createTable { table := "t", keys := [] },
    .putRow { table := "t", key := numbered 2, cells := [⟨"n", .integer 5, none⟩] },
    .putRow { table := "t", key := numbered 3, cells := [⟨"n", .integer 7, none⟩] },
    .putRow { table := "t", key := numbered 1, cells := [⟨"n", .integer 6, none⟩] }]
  pageSize := 1

/-- A client of one server. -/
def ofOne : Client Nat := ((Client.mk {} .empty).register ⟨"main", "", 1, 0, false⟩ 0).2

/-- The last two rows whose column is at least 6. -/
def lastTwo : OptionList := ⟨[("direction", .symbol "backward"), ("limit", .integer 2),
  ("filter", .filter (.single ⟨.greaterEqual, "n", .integer 6, none, true, .empty⟩))]⟩

end Client

end WideColumn
