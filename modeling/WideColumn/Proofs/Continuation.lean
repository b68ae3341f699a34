import WideColumn.Proofs.Absent
import WideColumn.Proofs.Fields
import WideColumn.Proofs.SharedScan
import WideColumn.Proofs.Token

/-!
# Where a scan goes on

A page says where the next one starts, and says nothing of it if there is none. What a scan of a
whole range returns never says where to go on, although a limit may have cut it short.

* `Client.scanAll_from` : the scan of what is left of a range from a row on;
* `Client.accountsFor_page` : the rows of a page and those of the full scan that goes on from it are
  the rows of the range;
* `Client.accountsFor_exact` : all pages account for their range so, and whole scans do if no limit
  cuts them short;
* `Client.not_accountsFor_limited` : a limit does.
-/

namespace WideColumn

/-! ### Options of the scan that goes on -/

namespace OptionList

theorem given?_without_self (os : OptionList) (key : String) :
    (os.without key).given? key = none := by
  unfold without given?
  rw [Option.map_eq_none_iff, List.find?_eq_none]
  intro e he
  simp only [List.mem_reverse, List.mem_filter, bne_iff_ne] at he
  simp [he.2]

theorem given?_without (os : OptionList) {key k : String} (h : k ≠ key) :
    (os.without key).given? k = os.given? k := by
  unfold without given?
  rw [← List.filter_reverse, List.find?_filter]
  congr 2
  funext e
  by_cases hk : e.1 = k
  · simp [hk, h]
  · simp [hk]

end OptionList

section Merge

open Described

variable {ρ : Type} [Configurable ρ] [Described ρ]

/-- Without the options of a key, its field stays and nothing else changes. -/
theorem merge_without_field {r r₁ r₂ : ρ} {os : OptionList} {key : String}
    (h : merge r os = .ok r₁)
    (hfield : ∀ f ∈ fields (ρ := ρ), f.key = key → f.get r₂ = f.get r)
    (hothers : ∀ f ∈ fields (ρ := ρ), f.key ≠ key → f.get r₂ = f.get r₁)
    (hrest : rest r₂ = rest r₁) : merge r (os.without key) = .ok r₂ := by
  obtain ⟨hfault, hmerged⟩ := merge_eq_ok_iff.1 h
  refine merge_eq_ok_iff.2 ⟨?_, ?set, ?kept, hrest.trans hmerged.rest⟩
  · exact List.findSome?_eq_none_iff.2 fun e he =>
      List.findSome?_eq_none_iff.1 hfault e (List.mem_of_mem_filter he)
  case set =>
    intro f hf v hv
    have hne : f.key ≠ key := fun heq => by
      rw [heq, OptionList.given?_without_self] at hv
      cases hv
    rw [OptionList.given?_without _ hne] at hv
    rw [hothers f hf hne]
    exact hmerged.set f hf v hv
  case kept =>
    intro f hf hnone
    by_cases hkey : f.key = key
    · exact hfield f hf hkey
    · rw [OptionList.given?_without _ hkey] at hnone
      rw [hothers f hf hkey]
      exact hmerged.kept f hf hnone

end Merge

namespace GetRange

/-- The same scan without its limit. -/
theorem merge_unlimited {r r' : GetRange} {options : OptionList} (h : merge r options = .ok r') :
    merge r (options.without "limit") = .ok { r' with limit := r.limit } := by
  refine merge_without_field h ?_ ?_ rfl <;> simp [Described.fields]

end GetRange

/-! ### The rows of a scan -/

namespace GetRange

/-- The rows that a scan of a stored table is to return if no limit cuts it short: those of the
range, in the order of the scan, that pass the filter, with the columns asked for. -/
def Matching (r : GetRange) (s : Store) (rows : List Row) : Prop :=
  ∃ t first last l, s.tables.get? r.table = some t ∧ r.start.sortKey = .ok first ∧
    r.stop.sortKey = .ok last ∧ t.Lists r.direction first last l ∧ rows = r.select (l.map (·.2))

theorem matching_span {r : GetRange} {s : Store} {t : Table} {first last : SortKey}
    (ht : s.tables.get? r.table = some t) (hfirst : r.start.sortKey = .ok first)
    (hlast : r.stop.sortKey = .ok last) :
    r.Matching s (r.select ((t.span r.direction first last).map (·.2))) :=
  ⟨t, first, last, _, ht, hfirst, hlast, t.lists_span .., rfl⟩

theorem Matching.unique {r : GetRange} {s : Store} {rows rows' : List Row}
    (h : r.Matching s rows) (h' : r.Matching s rows') : rows = rows' := by
  obtain ⟨t, first, last, l, ht, hfirst, hlast, hl, rfl⟩ := h
  obtain ⟨t', first', last', l', ht', hfirst', hlast', hl', rfl⟩ := h'
  obtain rfl := Option.some.inj (ht.symm.trans ht')
  obtain rfl := Except.ok.inj (hfirst.symm.trans hfirst')
  obtain rfl := Except.ok.inj (hlast.symm.trans hlast')
  rw [hl.eq_span, hl'.eq_span]

theorem capped_eq_self_iff {r : GetRange} {rows : List Row} :
    r.capped rows = rows ↔ ∀ n, r.rowLimit = some n → rows.length ≤ n := by
  unfold capped
  cases r.rowLimit <;> simp

end GetRange

/-- The key at which a scan starts. -/
def ScanStart.key? : ScanStart → Except ServiceError Key
  | .key k => .ok k
  | .token bytes => Key.ofToken bytes

namespace Client

variable {c : Client Nat} {instanceName table : String} {stop : Key} {options : OptionList}
  {i : Nat} {cl : Cluster} {v : Server}

/-- What was returned of the matching rows of a range says where the others are: there are none if
it says nothing, and otherwise the full scan that goes on from there ends and returns them. -/
def AccountsFor (c : Client Nat) (instanceName table : String) (stop : Key) (options : OptionList)
    (cl : Cluster) (page : RangePage) (rows : List Row) : Prop :=
  match page.nextStart with
  | none => page.rows = rows
  | some key => ∃ n, ∀ pages, n < pages → ∃ others cl',
      c.scanAll .ofServers pages instanceName table key stop (options.without "limit") cl =
        some (.ok others, cl') ∧
      page.rows ++ others.rows = rows

/-! ### Pages -/

/-- The full scan of a range from a key on. -/
theorem scanAll_from {t : Table} {r : GetRange} {start key : Key} {first last : SortKey}
    (hc : c.transport instanceName = .ok i) (hv : cl[i]? = some v) (hf : v.failNext = none)
    (hsize : 1 ≤ v.pageSize) (ht : v.store.tables.get? table = some t) (hplaced : t.Placed)
    (hr : merge { table, start, stop } options = .ok r) (hfirst : key.sortKey = .ok first)
    (hlast : stop.sortKey = .ok last) {pages : Nat}
    (hlen : (t.span r.direction first last).length < pages) :
    ∃ all cl', c.scanAll .ofServers pages instanceName table key stop (options.without "limit")
        cl = some (.ok all, cl') ∧
      all.rows = r.select ((t.span r.direction first last).map (·.2)) := by
  obtain ⟨htable, -, hstop⟩ := GetRange.merge_bounds hr
  have hr' : merge ({ table, start := key, stop } : GetRange) (options.without "limit") =
      .ok { r with limit := none, start := key } :=
    GetRange.merge_start (GetRange.merge_unlimited hr) key
  obtain ⟨all, cl', hcollect, -, hrows, -⟩ :=
    collect_span (r := { r with limit := none, start := key })
      (pagesOf_ofServers hc v.store v.pageSize) hsize (by rw [htable]; exact ht) hplaced
      (by rw [hstop]; exact hlast) {} ⟨v, hv, hf, rfl, rfl⟩ hfirst hlen
  exact ⟨all, cl', by rw [scanAll, hr']; exact hcollect, hrows⟩

/-- A page cut off a range accounts for it. -/
theorem accountsFor_cut {t : Table} {r : GetRange} {start : Key} {first last : SortKey}
    (hc : c.transport instanceName = .ok i) (hv : cl[i]? = some v) (hf : v.failNext = none)
    (hsize : 1 ≤ v.pageSize) (ht : v.store.tables.get? table = some t) (hplaced : t.Placed)
    (hr : merge { table, start, stop } options = .ok r) (hlast : stop.sortKey = .ok last)
    (len : Nat) :
    c.AccountsFor instanceName table stop options cl
      (Table.cut len r ((t.span r.direction first last).map (·.2)))
      (r.select ((t.span r.direction first last).map (·.2))) := by
  have hnext : (Table.cut len r ((t.span r.direction first last).map (·.2))).nextStart =
      (t.span r.direction first last)[len]?.map (·.2.key) := by
    simp [Table.cut, Option.map_map, Function.comp_def]
  unfold AccountsFor
  rw [hnext]
  cases he : (t.span r.direction first last)[len]? with
  | none =>
    rw [Option.map_none]
    change r.select _ = _
    rw [List.take_of_length_le]
    rw [List.length_map]
    exact List.getElem?_eq_none_iff.1 he
  | some e =>
    -- The scan goes on at the first row left out, whose key is where the row is stored.
    have hmem : t.rows.get? e.1 = some e.2 :=
      (((t.lists_span r.direction first last).mem_iff e.1 e.2).1 (List.mem_of_getElem? he)).1
    rw [Option.map_some]
    refine ⟨(t.span r.direction e.1 last).length, fun pages hlen => ?_⟩
    obtain ⟨others, cl', hscan, hrows⟩ :=
      scanAll_from hc hv hf hsize ht hplaced hr (hplaced e.1 e.2 hmem) hlast hlen
    refine ⟨others, cl', hscan, ?_⟩
    rw [hrows, ← Table.drop_span he, List.map_drop]
    change r.select _ ++ _ = _
    rw [← GetRange.select_append, List.take_append_drop]

/-- What a server answers with success is a page of its store. -/
theorem scan_of_page {r : GetRange} {token : Option Bytes} {page : RangePage} {cl' : Cluster}
    (hc : c.transport instanceName = .ok i) (hv : cl[i]? = some v)
    (h : c.page .ofServers instanceName r token cl = (.ok page, cl')) :
    v.failNext = none ∧ v.store.scan v.pageSize r token = .ok page := by
  obtain ⟨i', v', hc', hv', hf, hscan⟩ := page_eq_ok h
  obtain rfl := Except.ok.inj (hc.symm.trans hc')
  obtain rfl := Option.some.inj (hv.symm.trans hv')
  exact ⟨hf, hscan⟩

theorem scan_of_key? {start : ScanStart} {key : Key} (h : start.key? = .ok key) (cl : Cluster) :
    c.scan .ofServers instanceName table start stop options cl =
      c.scan .ofServers instanceName table (.key key) stop options cl := by
  cases start with
  | key k =>
    obtain rfl := Except.ok.inj h
    rfl
  | token bytes =>
    unfold scan
    cases (merge { table, stop } options : Except Error GetRange) with
    | error e => rfl
    | ok r => exact page_token h r cl

/-- What a page is asked for from starts at a key. -/
theorem key?_of_scan {start : ScanStart} {page : RangePage} {cl' : Cluster}
    (h : c.scan .ofServers instanceName table start stop options cl = (.ok page, cl')) :
    ∃ key, start.key? = .ok key := by
  cases start with
  | key k => exact ⟨k, rfl⟩
  | token bytes =>
    unfold scan at h
    cases hr : (merge { table, stop } options : Except Error GetRange) with
    | error e => rw [hr] at h; cases h
    | ok r =>
      rw [hr] at h
      obtain ⟨-, v, -, -, -, hscan⟩ := page_eq_ok h
      obtain ⟨t, -, hpage⟩ := bind_eq_ok.1 hscan
      obtain ⟨key, hkey, -⟩ := bind_eq_ok.1 hpage
      exact ⟨key, hkey⟩

/-- A page accounts for its range. -/
theorem accountsFor_scan {start : ScanStart} {page : RangePage} {cl' : Cluster}
    (hc : c.transport instanceName = .ok i) (hv : cl[i]? = some v) (hs : v.store.Reachable)
    (hsize : 1 ≤ v.pageSize)
    (h : c.scan .ofServers instanceName table start stop options cl = (.ok page, cl')) :
    ∃ key, ∃ r : GetRange, ∃ rows, start.key? = .ok key ∧
      merge { table, start := key, stop } options = .ok r ∧ r.Matching v.store rows ∧
      c.AccountsFor instanceName table stop options cl' page rows := by
  obtain ⟨key, hkey⟩ := key?_of_scan h
  rw [scan_of_key? hkey] at h
  unfold scan at h
  cases hr : (merge { table, stop } options : Except Error GetRange) with
  | error e => rw [hr] at h; cases h
  | ok r₀ =>
    rw [hr] at h
    replace h : c.page .ofServers instanceName { r₀ with start := key } none cl =
      (.ok page, cl') := h
    replace hr : merge ({ table, start := key, stop } : GetRange) options =
      .ok { r₀ with start := key } := GetRange.merge_start hr key
    generalize ({ r₀ with start := key } : GetRange) = r at h hr
    obtain ⟨htable, -, hstop⟩ : r.table = table ∧ r.start = key ∧ r.stop = stop :=
      GetRange.merge_bounds hr
    obtain ⟨hf, hscan⟩ := scan_of_page hc hv h
    obtain ⟨t, first, last, ht, hfirst, hlast, rfl⟩ := Store.scan_eq_ok hscan
    rw [page_ofServers hc hv hf] at h
    obtain rfl := (Prod.mk.inj h).2
    refine ⟨key, r, _, hkey, hr, GetRange.matching_span ht hfirst hlast, ?_⟩
    rw [htable] at ht
    rw [hstop] at hlast
    have hset := List.getElem?_set_self
      (a := { v with log := v.log ++ [(instanceName, .getRange)], failNext := none })
      (List.getElem?_eq_some_iff.1 hv).1
    exact accountsFor_cut hc hset rfl hsize ht (hs.placed ht) hr hlast _

/-! ### Whole scans -/

section Collect

variable {τ σ : Type} {c : Client τ} {net : Network τ σ} {r : GetRange}

/-- More pages than suffice change nothing. -/
theorem collect_mono {pages pages' : Nat} (hle : pages ≤ pages') {all : RangePage} {start : Key}
    {s : σ} {x : Except Error RangePage × σ}
    (h : c.collect net instanceName r pages all start s = some x) :
    c.collect net instanceName r pages' all start s = some x := by
  induction pages generalizing pages' all start s with
  | zero => cases h
  | succ pages ih =>
    obtain ⟨pages', rfl⟩ := Nat.exists_eq_succ_of_ne_zero (by omega : pages' ≠ 0)
    obtain ⟨result, s'⟩ := x
    obtain ⟨e, hpage, rfl⟩ | ⟨page, hpage, hlast, rfl⟩ |
      ⟨page, s₁, next, hpage, hmore, hnext, hrest⟩ := collect_cases h
    · exact collect_error hpage pages'
    · exact collect_last hpage hlast pages'
    · rw [collect_next hpage hmore hnext]
      exact ih (by omega) hrest

/-- What is collected keeps saying where to go on what was said before the first page. -/
theorem nextStart_of_collect {pages : Nat} {all all' : RangePage} {start : Key} {s s' : σ}
    (h : c.collect net instanceName r pages all start s = some (.ok all', s')) :
    all'.nextStart = all.nextStart := by
  induction pages generalizing all start s with
  | zero => cases h
  | succ pages ih =>
    obtain ⟨e, -, hresult⟩ | ⟨page, -, -, hresult⟩ | ⟨page, s₁, next, -, -, -, hrest⟩ :=
      collect_cases h
    · cases hresult
    · rw [Except.ok.inj hresult]
      rfl
    · rw [ih hrest]
      rfl

/-- A scan of a whole range that succeeds has asked for a page with success. -/
theorem page_of_collect {pages : Nat} {all all' : RangePage} {start : Key} {s s' : σ}
    (h : c.collect net instanceName r pages all start s = some (.ok all', s')) :
    ∃ page s₁, c.page net instanceName (r.resume start all.rows.length) none s =
      (.ok page, s₁) := by
  cases pages with
  | zero => cases h
  | succ pages =>
    obtain ⟨e, -, hresult⟩ | ⟨page, hpage, -⟩ | ⟨page, s₁, next, hpage, -⟩ := collect_cases h
    · cases hresult
    · exact ⟨page, s', hpage⟩
    · exact ⟨page, s₁, hpage⟩

end Collect

/-- What a scan of a whole range returns never says where to go on, and accounts for the range
exactly if no limit cuts it short. -/
theorem accountsFor_scanAll {pages : Nat} {start : Key} {all : RangePage} {cl' : Cluster}
    (hc : c.transport instanceName = .ok i) (hv : cl[i]? = some v) (hs : v.store.Reachable)
    (hsize : 1 ≤ v.pageSize)
    (h : c.scanAll .ofServers pages instanceName table start stop options cl =
      some (.ok all, cl')) :
    ∃ r : GetRange, ∃ rows, merge { table, start, stop } options = .ok r ∧
      r.Matching v.store rows ∧ all.nextStart = none ∧
      (c.AccountsFor instanceName table stop options cl' all rows ↔
        ∀ n, r.rowLimit = some n → rows.length ≤ n) := by
  unfold scanAll at h
  cases hr : (merge { table, start, stop } options : Except Error GetRange) with
  | error e => rw [hr] at h; cases h
  | ok r =>
    rw [hr] at h
    replace h : c.collect .ofServers instanceName r pages {} start cl = some (.ok all, cl') := h
    obtain ⟨htable, hstart, -⟩ : r.table = table ∧ r.start = start ∧ r.stop = stop :=
      GetRange.merge_bounds hr
    have hnext : all.nextStart = none := nextStart_of_collect h
    obtain ⟨page, cl₁, hpage⟩ := page_of_collect h
    obtain ⟨hf, hscan⟩ := scan_of_page hc hv hpage
    obtain ⟨t, first, last, ht, hfirst, hlast, -⟩ := Store.scan_eq_ok hscan
    replace ht : v.store.tables.get? r.table = some t := ht
    replace hfirst : start.sortKey = .ok first := hfirst
    replace hlast : r.stop.sortKey = .ok last := hlast
    -- With pages enough, what is collected is known, and it is what these pages collected.
    have hlen : (t.span r.direction first last).length <
      max pages ((t.span r.direction first last).length + 1) := by omega
    obtain ⟨all', cl₂, hcollect, -, hrows, -⟩ :=
      collect_span (pagesOf_ofServers hc v.store v.pageSize) hsize ht (hs.placed ht) hlast {}
        ⟨v, hv, hf, rfl, rfl⟩ hfirst hlen
    rw [collect_mono (by omega) h] at hcollect
    obtain ⟨rfl, rfl⟩ : all = all' ∧ cl' = cl₂ := by simpa using hcollect
    refine ⟨r, _, rfl, GetRange.matching_span ht (by rw [hstart]; exact hfirst) hlast, hnext, ?_⟩
    rw [AccountsFor, hnext, hrows]
    exact GetRange.capped_eq_self_iff

/-- **A page says where its range goes on, and a whole scan does not.**  Take a page of a reachable
store, from a key or a token on, in either direction, with any options: if it says where the range
goes on, the full scan from there ends and returns the matching rows that the page left out, and
otherwise there are none. What a scan of a whole range returns never says where to go on, so that
the same is true of it exactly if there are no more matching rows than it was asked for. -/
theorem accountsFor_exact (hc : c.transport instanceName = .ok i) (hv : cl[i]? = some v)
    (hs : v.store.Reachable) (hsize : 1 ≤ v.pageSize) (table : String) (stop : Key)
    (options : OptionList) :
    (∀ (start : ScanStart) (page : RangePage) (cl' : Cluster),
      c.scan .ofServers instanceName table start stop options cl = (.ok page, cl') →
      ∃ key, ∃ r : GetRange, ∃ rows, start.key? = .ok key ∧
        merge { table, start := key, stop } options = .ok r ∧ r.Matching v.store rows ∧
        c.AccountsFor instanceName table stop options cl' page rows) ∧
    ∀ (pages : Nat) (start : Key) (all : RangePage) (cl' : Cluster),
      c.scanAll .ofServers pages instanceName table start stop options cl =
        some (.ok all, cl') →
      ∃ r : GetRange, ∃ rows, merge { table, start, stop } options = .ok r ∧
        r.Matching v.store rows ∧ all.nextStart = none ∧
        (c.AccountsFor instanceName table stop options cl' all rows ↔
          ∀ n, r.rowLimit = some n → rows.length ≤ n) :=
  ⟨fun _ _ _ h => accountsFor_scan hc hv hs hsize h,
    fun _ _ _ _ h => accountsFor_scanAll hc hv hs hsize h⟩

/-- At most two rows. -/
def firstTwo : OptionList := ⟨[("limit", .integer 2)]⟩

/-- The first of three rows comes with the key of the second, from where the other two follow. Two
rows of two are all, in either direction. -/
theorem accountsFor_exact_oneByOne :
    (∃ page cl' n others cl'',
      ofOne.scan .ofServers "main" "t" (.key (numbered 1)) [⟨"id", .infMax⟩] firstTwo [oneByOne] =
        (.ok page, cl') ∧ page.nextStart = some (numbered 2) ∧
      ofOne.scanAll .ofServers n "main" "t" (numbered 2) [⟨"id", .infMax⟩]
        (firstTwo.without "limit") cl' = some (.ok others, cl'') ∧
      (page.rows ++ others.rows).map (·.key) = [numbered 1, numbered 2, numbered 3]) ∧
    ∃ all cl' rows,
      ofOne.scanAll .ofServers 4 "main" "t" (numbered 3) [⟨"id", .infMin⟩] lastTwo [oneByOne] =
        some (.ok all, cl') ∧
      rows.map (·.key) = [numbered 3, numbered 1] ∧
      ofOne.AccountsFor "main" "t" [⟨"id", .infMin⟩] lastTwo cl' all rows := by
  have hc : ofOne.transport "main" = .ok 0 := rfl
  have hv : [oneByOne][0]? = some oneByOne := rfl
  have hs : oneByOne.store.Reachable := .after (.new _) _
  constructor
  · obtain ⟨hscan, -⟩ :=
      accountsFor_exact hc hv hs (by decide) "t" [⟨"id", .infMax⟩] firstTwo
    obtain ⟨key, r, rows, hkey, hr, hmatch, n, hrest⟩ := hscan (.key (numbered 1)) _ _ rfl
    obtain ⟨others, cl'', hothers, hrows⟩ := hrest (n + 1) (by omega)
    refine ⟨_, _, n + 1, others, cl'', rfl, rfl, hothers, ?_⟩
    obtain rfl := Except.ok.inj hkey
    obtain rfl := Except.ok.inj hr
    rw [hrows, hmatch.unique (GetRange.matching_span rfl rfl rfl)]
    rfl
  · obtain ⟨-, hscan⟩ := accountsFor_exact hc hv hs (by decide) "t" [⟨"id", .infMin⟩] lastTwo
    obtain ⟨r, rows, hr, hmatch, -, haccounts⟩ := hscan 4 (numbered 3) _ _ rfl
    obtain rfl := Except.ok.inj hr
    obtain rfl := hmatch.unique (GetRange.matching_span rfl rfl rfl)
    refine ⟨_, _, _, rfl, rfl, haccounts.2 fun n hn => ?_⟩
    obtain rfl := Option.some.inj hn
    decide

/-- A scan that is to return one row leaves out two others without a word. -/
theorem not_accountsFor_limited :
    ¬ ∀ (c : Client Nat) (instanceName table : String) (i : Nat) (cl cl' : Cluster) (v : Server)
      (pages : Nat) (start stop : Key) (options : OptionList) (r : GetRange) (all : RangePage)
      (rows : List Row),
      c.transport instanceName = .ok i → cl[i]? = some v → v.store.Reachable → 1 ≤ v.pageSize →
      merge { table, start, stop } options = .ok r → r.Matching v.store rows →
      c.scanAll .ofServers pages instanceName table start stop options cl =
        some (.ok all, cl') →
      c.AccountsFor instanceName table stop options cl' all rows := by
  intro h
  have haccounts := h ofOne "main" "t" 0 [oneByOne] _ oneByOne 4 (numbered 1) [⟨"id", .infMax⟩]
    ⟨[("limit", .integer 1)]⟩ _ _ _ rfl rfl (.after (.new _) _) (by decide) rfl
    (GetRange.matching_span rfl rfl rfl) rfl
  have hlength : 1 = 3 := congrArg List.length haccounts
  cases hlength

end Client

end WideColumn
