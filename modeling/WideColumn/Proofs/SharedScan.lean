import WideColumn.Proofs.Scan

/-!
# Scans of ranges that others change

Between the pages of a scan, anyone may send requests. A page starts at the key that the page
before left out, and by then the row of that key may be gone, or other rows stored around it.

* `Network.shared` : a network on which requests of others come in before each of ours;
* `Sweep` : what a scan in pages is to return of a range that changes meanwhile;
* `Sweep.cons` : a page, in front of a sweep of what the page left out, is a sweep;
* `Client.collect_sweep` : the loop over pages sweeps the range, whatever the store does between
  the pages;
* `Client.scanAll_sweep` : a whole scan of a reachable store that others write to.
-/

namespace WideColumn

/-! ### Requests of others -/

/-- A request of someone else that arrives for an instance. -/
structure Arrival (τ : Type) where
  /-- The transport that it comes over. -/
  transport : τ
  /-- The instance. -/
  instanceName : String
  /-- The request. -/
  request : Request

namespace Network

variable {τ σ : Type}

/-- Deliver requests of others in order. -/
def deliver (net : Network τ σ) (as : List (Arrival τ)) (s : σ) : σ :=
  as.foldl (fun s a => (net.submit a.transport a.instanceName a.request s).2) s

/-- A network that others use too: before each request of ours some of theirs are delivered. -/
def shared (net : Network τ σ) : Network τ (σ × List (List (Arrival τ))) where
  submit t instanceName r x :=
    (net.submit t instanceName r (net.deliver (x.2.headD []) x.1)).map id (·, x.2.tail)
  scan t instanceName r token x :=
    (net.scan t instanceName r token (net.deliver (x.2.headD []) x.1)).map id (·, x.2.tail)

end Network

/-! ### Sweeps -/

/-- What a scan in pages returns of a range that changes meanwhile: `stored n` is what is stored
when page `n` of `m` is cut, and `l` lists the rows of all pages with their sort keys. -/
structure Sweep (d : Direction) (first last : SortKey) (admits : Row → Bool)
    (stored : Nat → SortKey → Option Row) (m : Nat) (l : List (SortKey × Row)) : Prop where
  /-- The keys strictly advance. -/
  ordered : l.Pairwise fun a b => d.before a.1 b.1 = true
  /-- Every row belongs to the range, passes the filter, and was stored under its key when one of
  the pages was cut. -/
  sound : ∀ k row, (k, row) ∈ l →
    d.covers first last k = true ∧ admits row = true ∧ ∃ n < m, stored n k = some row
  /-- No row of the range that passes the filter is left out if it is stored unchanged whenever a
  page is cut. -/
  complete : ∀ k row, d.covers first last k = true → admits row = true →
    (∀ n < m, stored n k = some row) → (k, row) ∈ l

namespace Sweep

variable {d : Direction} {first last : SortKey} {admits : Row → Bool}
  {stored : Nat → SortKey → Option Row} {t : Table}

/-- A page that leaves nothing out. -/
theorem single (ht : stored 0 = t.rows.get?) :
    Sweep d first last admits stored 1 ((t.span d first last).filter fun e => admits e.2) where
  ordered := (t.lists_span d first last).ordered.filter _
  sound k row h := by
    obtain ⟨hmem, hadm⟩ := List.mem_filter.1 h
    obtain ⟨hget, hcov⟩ := ((t.lists_span d first last).mem_iff k row).1 hmem
    exact ⟨hcov, hadm, 0, Nat.zero_lt_one, by rw [ht, hget]⟩
  complete k row hcov hadm hall := by
    have hget : t.rows.get? k = some row := by rw [← ht, hall 0 Nat.zero_lt_one]
    exact List.mem_filter.2 ⟨((t.lists_span d first last).mem_iff k row).2 ⟨hget, hcov⟩, hadm⟩

/-- A page comes before the first row that it leaves out. -/
theorem before_of_mem_take {len : Nat} {e x : SortKey × Row}
    (he : (t.span d first last)[len]? = some e) (hx : x ∈ (t.span d first last).take len) :
    d.before x.1 e.1 = true := by
  have hord := (t.lists_span d first last).ordered
  rw [← List.take_append_drop len (t.span d first last), List.pairwise_append] at hord
  refine hord.2.2 x hx e (List.mem_of_getElem? (i := 0) ?_)
  rw [List.getElem?_drop, Nat.add_zero, he]

/-- A page, followed by a sweep of the range from the first row on that the page leaves out. That
row need not be there any more when the sweep begins. -/
theorem cons {m len : Nat} {e : SortKey × Row} {l : List (SortKey × Row)}
    (ht : stored 0 = t.rows.get?) (he : (t.span d first last)[len]? = some e)
    (h : Sweep d e.1 last admits (fun n => stored (n + 1)) m l) :
    Sweep d first last admits stored (m + 1)
      (((t.span d first last).take len).filter (fun e => admits e.2) ++ l) := by
  have hspan := t.lists_span d first last
  have hcov : d.covers first last e.1 = true :=
    ((hspan.mem_iff e.1 e.2).1 (List.mem_of_getElem? he)).2
  -- The range from `e` on is what of the range does not come before `e`.
  have hrest : ∀ k, d.covers e.1 last k = true ↔
      d.before k e.1 = false ∧ d.covers first last k = true := fun k => by
    rw [← Direction.covers_from hcov k, Bool.and_eq_true, Bool.not_eq_true']
  constructor
  case ordered =>
    refine List.pairwise_append.2
      ⟨(hspan.ordered.sublist (List.take_sublist _ _)).filter _, h.ordered, fun a ha b hb => ?_⟩
    have hb' := ((hrest b.1).1 (h.sound b.1 b.2 hb).1).1
    exact Direction.before_of_not_before (before_of_mem_take he (List.mem_filter.1 ha).1) hb'
  case sound =>
    intro k row hmem
    rcases List.mem_append.1 hmem with hpage | hlater
    · obtain ⟨htake, hadm⟩ := List.mem_filter.1 hpage
      obtain ⟨hget, hk⟩ := (hspan.mem_iff k row).1 (List.mem_of_mem_take htake)
      exact ⟨hk, hadm, 0, Nat.succ_pos m, by rw [ht, hget]⟩
    · obtain ⟨hk, hadm, n, hn, hstored⟩ := h.sound k row hlater
      exact ⟨((hrest k).1 hk).2, hadm, n + 1, Nat.succ_lt_succ hn, hstored⟩
  case complete =>
    intro k row hk hadm hall
    rw [List.mem_append]
    cases hbefore : d.before k e.1 with
    | true =>
      -- The row was there when the page was cut, and does not belong to what was left out.
      have hget : t.rows.get? k = some row := by rw [← ht, hall 0 (Nat.succ_pos m)]
      have hmem := (hspan.mem_iff k row).2 ⟨hget, hk⟩
      rw [← List.take_append_drop len (t.span d first last), List.mem_append,
        Table.drop_span he] at hmem
      refine .inl (List.mem_filter.2 ⟨hmem.resolve_right fun hdrop => ?_, hadm⟩)
      have hcov' := (((t.lists_span d e.1 last).mem_iff k row).1 hdrop).2
      rw [((hrest k).1 hcov').1] at hbefore
      cases hbefore
    | false =>
      exact .inr (h.complete k row ((hrest k).2 ⟨hbefore, hk⟩) hadm fun n hn =>
        hall (n + 1) (Nat.succ_lt_succ hn))

end Sweep

/-! ### The loop over pages -/

theorem Row.key_project (row : Row) (columns : List String) :
    (row.project columns).key = row.key := by
  unfold project
  split <;> rfl

/-- The rows of a page as they are returned. -/
theorem GetRange.select_eq_map (r : GetRange) (l : List (SortKey × Row)) :
    r.select (l.map (·.2)) =
      (l.filter fun e => Filter.admits r.filter e.2).map (·.2.project r.columns) := by
  rw [select, List.filter_map, List.map_map]
  rfl

namespace Store

/-- The row that is stored under a sort key in a table. -/
def row? (s : Store) (table : String) (k : SortKey) : Option Row :=
  (s.tables.get? table).bind (·.rows.get? k)

theorem row?_of_get? {s : Store} {table : String} {t : Table}
    (h : s.tables.get? table = some t) : s.row? table = t.rows.get? :=
  funext fun k => by rw [row?, h, Option.bind_some]

/-- Only a stored table is scanned, between bounds that have a place in the order. -/
theorem scan_eq_ok {s : Store} {pageSize : Nat} {r : GetRange} {page : RangePage}
    (h : s.scan pageSize r none = .ok page) :
    ∃ t first last, s.tables.get? r.table = some t ∧ r.start.sortKey = .ok first ∧
      r.stop.sortKey = .ok last ∧
      page = Table.cut (Table.pageLength pageSize r.limit) r
        ((t.span r.direction first last).map (·.2)) := by
  obtain ⟨t, ht, hpage⟩ := bind_eq_ok.1 h
  obtain ⟨start, hstart, hpage⟩ := bind_eq_ok.1 hpage
  obtain rfl := pure_eq_ok.1 hstart
  obtain ⟨first, hfirst, hpage⟩ := bind_eq_ok.1 hpage
  obtain ⟨last, hlast, hpage⟩ := bind_eq_ok.1 hpage
  refine ⟨t, first, last, Tables.find_eq_ok.1 ht, hfirst, hlast, ?_⟩
  rw [← Table.range_eq]
  exact (pure_eq_ok.1 hpage).symm

/-- A page is a sweep of its own if it is the last one. Otherwise it says where the next page
starts, and is to come in front of a sweep from there on. -/
theorem sweep_of_scan {s : Store} {pageSize : Nat} {r : GetRange} {page : RangePage}
    (hplaced : ∀ t, s.tables.get? r.table = some t → t.Placed)
    (h : s.scan pageSize r none = .ok page) :
    ∃ first last l, r.start.sortKey = .ok first ∧ r.stop.sortKey = .ok last ∧
      page.rows = l.map (·.2.project r.columns) ∧ (∀ e ∈ l, e.2.key.sortKey = .ok e.1) ∧
      ∀ stored : Nat → SortKey → Option Row, stored 0 = s.row? r.table →
        match page.nextStart with
        | none => Sweep r.direction first last (Filter.admits r.filter) stored 1 l
        | some key => ∃ k, key.sortKey = .ok k ∧ ∀ m l',
          Sweep r.direction k last (Filter.admits r.filter) (fun n => stored (n + 1)) m l' →
          Sweep r.direction first last (Filter.admits r.filter) stored (m + 1) (l ++ l') := by
  obtain ⟨t, first, last, ht, hfirst, hlast, rfl⟩ := scan_eq_ok h
  generalize Table.pageLength pageSize r.limit = len
  have hkeys : ∀ e ∈ t.span r.direction first last, e.2.key.sortKey = .ok e.1 := fun e he =>
    hplaced t ht e.1 e.2 (((t.lists_span r.direction first last).mem_iff e.1 e.2).1 he).1
  refine ⟨first, last, ((t.span r.direction first last).take len).filter
    fun e => Filter.admits r.filter e.2, hfirst, hlast, ?_, ?_, ?_⟩
  · rw [← GetRange.select_eq_map, List.map_take]
    rfl
  · exact fun e he => hkeys e (List.mem_of_mem_take (List.mem_filter.1 he).1)
  intro stored hstored
  rw [row?_of_get? ht] at hstored
  have hnext : (Table.cut len r ((t.span r.direction first last).map (·.2))).nextStart =
      (t.span r.direction first last)[len]?.map (·.2.key) := by
    simp [Table.cut, Option.map_map, Function.comp_def]
  rw [hnext]
  cases he : (t.span r.direction first last)[len]? with
  | none =>
    rw [List.take_of_length_le (List.getElem?_eq_none_iff.1 he)]
    exact .single hstored
  | some e => exact ⟨e.1, hkeys e (List.mem_of_getElem? he), fun _ _ => .cons hstored he⟩

end Store

namespace Client

variable {τ σ : Type}

/-- An instance answers with pages of a store that may change before each of them: `s n` is what
it is when page `n` is cut. `I n` is what is known of the state behind the network before. -/
def PagesOfChanging (c : Client τ) (net : Network τ σ) (instanceName : String) (s : Nat → Store)
    (I : Nat → σ → Prop) : Prop :=
  ∀ n x r page x', I n x → c.page net instanceName r none x = (.ok page, x') →
    (∃ pageSize, (s n).scan pageSize r none = .ok page) ∧ I (n + 1) x'

/-- The loop over pages sweeps the range, whatever the store does between the pages. -/
theorem collect_sweep {c : Client τ} {net : Network τ σ} {instanceName : String} {s : Nat → Store}
    {I : Nat → σ → Prop} {r : GetRange} (hpages : c.PagesOfChanging net instanceName s I)
    (hplaced : ∀ n t, (s n).tables.get? r.table = some t → t.Placed) (hlim : r.rowLimit = none)
    {pages n : Nat} {all all' : RangePage} {start : Key} {x x' : σ} (hx : I n x)
    (h : c.collect net instanceName r pages all start x = some (.ok all', x')) :
    ∃ first last m l, start.sortKey = .ok first ∧ r.stop.sortKey = .ok last ∧
      I (n + m) x' ∧ 0 < m ∧
      all'.rows = all.rows ++ l.map (·.2.project r.columns) ∧
      (∀ e ∈ l, e.2.key.sortKey = .ok e.1) ∧
      Sweep r.direction first last (Filter.admits r.filter)
        (fun i => (s (n + i)).row? r.table) m l := by
  induction pages generalizing n all start x with
  | zero => cases h
  | succ pages ih =>
    have hmore (rows : List Row) : r.WantsMore rows := fun n hn => nomatch hlim.symm.trans hn
    obtain ⟨e, -, hresult⟩ | ⟨page, hpage, hend, hresult⟩ |
      ⟨page, x₁, key, hpage, -, hnext, hcol⟩ := collect_cases h
    · cases hresult
    · obtain ⟨⟨pageSize, hscan⟩, hx'⟩ := hpages n x _ page x' hx hpage
      obtain ⟨first, last, l, hfirst, hlast, hrows, hkeys, hsweep⟩ :=
        Store.sweep_of_scan (r := r.resume start all.rows.length) (hplaced n) hscan
      have hsweep := hsweep (fun i => (s (n + i)).row? r.table) rfl
      rw [hend (hmore _)] at hsweep
      obtain rfl := Except.ok.inj hresult
      refine ⟨first, last, 1, l, hfirst, hlast, hx', Nat.zero_lt_one, ?_, hkeys, hsweep⟩
      exact (hmore _).capped_eq.trans (congrArg (all.rows ++ ·) hrows)
    · obtain ⟨⟨pageSize, hscan⟩, hx₁⟩ := hpages n x _ page x₁ hx hpage
      obtain ⟨first, last, l, hfirst, hlast, hrows, hkeys, hsweep⟩ :=
        Store.sweep_of_scan (r := r.resume start all.rows.length) (hplaced n) hscan
      have hsweep := hsweep (fun i => (s (n + i)).row? r.table) rfl
      rw [hnext] at hsweep
      obtain ⟨k, hk, hsweep⟩ := hsweep
      -- What the page leaves out is swept from the next page on, when the store has changed.
      obtain ⟨k', last', m, l', hk', hlast', hx', -, hrows', hkeys', hrest⟩ := ih hx₁ hcol
      obtain rfl := Except.ok.inj (hk.symm.trans hk')
      obtain rfl := Except.ok.inj (hlast.symm.trans hlast')
      have hshift : (fun i => (s (n + 1 + i)).row? r.table) =
          fun i => (s (n + (i + 1))).row? r.table :=
        funext fun i => by rw [Nat.add_assoc, Nat.add_comm 1 i]
      rw [hshift] at hrest
      refine ⟨first, last, m + 1, l ++ l', hfirst, hlast, ?_, Nat.succ_pos m, ?_,
        List.forall_mem_append.2 ⟨hkeys, hkeys'⟩, hsweep m l' hrest⟩
      · rwa [Nat.add_comm m 1, ← Nat.add_assoc]
      · calc all'.rows = all.rows ++ page.rows ++ l'.map (·.2.project r.columns) := hrows'
          _ = all.rows ++ (l ++ l').map (·.2.project r.columns) := by
            rw [hrows, List.map_append, List.append_assoc]
            rfl

end Client

/-! ### Servers that others use -/

namespace Server

/-- What the answers of a server to requests depend on. -/
def core (v : Server) : Store × Option ErrorCode := (v.store, v.failNext)

/-- Server `i` after some arrivals, of which those over its own transport reach it. -/
def after (i : Nat) (as : List (Arrival Nat)) (v : Server) : Server :=
  as.foldl (fun v a => if a.transport = i then (v.submit a.instanceName a.request).2 else v) v

theorem after_append (i : Nat) (as as' : List (Arrival Nat)) (v : Server) :
    v.after i (as ++ as') = (v.after i as).after i as' :=
  List.foldl_append

theorem core_submit {v w : Server} (h : v.core = w.core) (instanceName : String) (r : Request) :
    (v.submit instanceName r).2.core = (w.submit instanceName r).2.core := by
  obtain ⟨hstore, hfail⟩ := Prod.mk.inj h
  unfold submit receive
  rw [hfail]
  cases w.failNext with
  | none => exact congrArg (fun s => ((s.answer r).2, none)) hstore
  | some code => exact congrArg (·, none) hstore

theorem core_after {v w : Server} (h : v.core = w.core) (i : Nat) (as : List (Arrival Nat)) :
    (v.after i as).core = (w.after i as).core := by
  induction as generalizing v w with
  | nil => exact h
  | cons a as ih =>
    refine ih ?_
    dsimp only
    split
    · exact core_submit h a.instanceName a.request
    · exact h

theorem reachable_submit {v : Server} (h : v.store.Reachable) (instanceName : String)
    (r : Request) : (v.submit instanceName r).2.store.Reachable := by
  unfold submit receive
  cases v.failNext with
  | none => exact h.answer r
  | some code => exact h

theorem reachable_after {v : Server} (h : v.store.Reachable) (i : Nat)
    (as : List (Arrival Nat)) : (v.after i as).store.Reachable := by
  induction as generalizing v with
  | nil => exact h
  | cons a as ih =>
    refine ih ?_
    dsimp only
    split
    · exact reachable_submit h a.instanceName a.request
    · exact h

end Server

namespace Cluster

/-- The row that server `i` stores under a sort key in a table. -/
def row? (cl : Cluster) (i : Nat) (table : String) (k : SortKey) : Option Row :=
  cl[i]?.bind fun v => v.store.row? table k

/-- A question changes the server that is asked, and no other. -/
theorem getElem?_ask {α : Type} (cl : Cluster) (i j : Nat)
    (question : Server → Except ServiceError α × Server) :
    (cl.ask j question).2[i]? = cl[i]?.map fun v => if j = i then (question v).2 else v := by
  simp only [ask]
  by_cases hji : j = i
  · subst hji
    cases hv : cl[j]? with
    | none => simp [hv]
    | some v => simp [List.getElem?_set_self (List.getElem?_eq_some_iff.1 hv).1]
  · simp only [if_neg hji, Option.map_id']
    cases cl[j]? with
    | none => rfl
    | some v => exact List.getElem?_set_ne hji

theorem getElem?_submit (cl : Cluster) (i j : Nat) (instanceName : String) (r : Request) :
    (Network.ofServers.submit j instanceName r cl).2[i]? =
      cl[i]?.map fun v => if j = i then (v.submit instanceName r).2 else v :=
  cl.getElem?_ask i j _

theorem getElem?_deliver (cl : Cluster) (i : Nat) (as : List (Arrival Nat)) :
    (Network.ofServers.deliver as cl)[i]? = cl[i]?.map (·.after i as) := by
  induction as generalizing cl with
  | nil => exact Option.map_id'.symm
  | cons a as ih =>
    refine (ih _).trans ?_
    rw [getElem?_submit, Option.map_map]
    rfl

end Cluster

namespace Client

/-- Over a shared network a page is asked for after what others have sent. -/
theorem page_shared {τ σ : Type} {c : Client τ} (net : Network τ σ) {instanceName : String} {t : τ}
    (hc : c.transport instanceName = .ok t) (r : GetRange) (token : Option Bytes)
    (x : σ × List (List (Arrival τ))) :
    c.page net.shared instanceName r token x =
      (c.page net instanceName r token (net.deliver (x.2.headD []) x.1)).map id (·, x.2.tail) := by
  simp only [page, hc]
  rfl

/-- A server that answers with a page was not told to fail, and what its answers depend on stays
as it is. -/
theorem of_page_ofServers {c : Client Nat} {instanceName : String} {i : Nat} {cl cl' : Cluster}
    {v : Server} (hc : c.transport instanceName = .ok i) (hv : cl[i]? = some v) {r : GetRange}
    {p : RangePage} (h : c.page .ofServers instanceName r none cl = (.ok p, cl')) :
    v.store.scan v.pageSize r none = .ok p ∧ ∃ v', cl'[i]? = some v' ∧ v'.core = v.core := by
  cases hf : v.failNext with
  | some code =>
    simp only [page, hc, Network.ofServers, Cluster.ask, hv, Server.scan, Server.receive, hf] at h
    cases h
  | none =>
    rw [page_ofServers hc hv hf] at h
    obtain ⟨hp, rfl⟩ := Prod.mk.inj h
    refine ⟨?_, _, List.getElem?_set_self (List.getElem?_eq_some_iff.1 hv).1, ?_⟩
    · cases hscan : v.store.scan v.pageSize r none <;> rw [hscan] at hp <;> cases hp
      rfl
    · rw [Server.core, Server.core, hf]

theorem flatten_take_succ {α : Type} (ls : List (List α)) (n : Nat) :
    (ls.take (n + 1)).flatten = (ls.take n).flatten ++ (ls.drop n).headD [] := by
  rw [List.take_add_one, List.flatten_append, List.headD_eq_head?_getD, List.head?_drop]
  cases ls[n]? <;> simp

/-- A server that others use, too, answers with pages of what their requests have made of its
store. -/
theorem pagesOfChanging_shared {c : Client Nat} {instanceName : String} {i : Nat} {v : Server}
    (hc : c.transport instanceName = .ok i) (gaps : List (List (Arrival Nat))) :
    c.PagesOfChanging Network.ofServers.shared instanceName
      (fun n => (v.after i (gaps.take (n + 1)).flatten).store)
      fun n x => x.2 = gaps.drop n ∧
        ∃ w, x.1[i]? = some w ∧ w.core = (v.after i (gaps.take n).flatten).core := by
  rintro n ⟨cl, rest⟩ r p x' ⟨rfl, w, hw, hcore⟩ h
  rw [page_shared _ hc] at h
  cases hpage : c.page .ofServers instanceName r none
      (Network.ofServers.deliver ((gaps.drop n).headD []) cl) with
  | mk answer cl' =>
    rw [hpage] at h
    obtain ⟨rfl, rfl⟩ := Prod.mk.inj h
    -- The server takes what others send before the page; the page itself changes nothing.
    have hw' := Cluster.getElem?_deliver cl i ((gaps.drop n).headD [])
    rw [hw, Option.map_some] at hw'
    replace hcore := Server.core_after hcore i ((gaps.drop n).headD [])
    rw [← Server.after_append, ← flatten_take_succ] at hcore
    obtain ⟨hscan, w', hw'', hcore'⟩ := of_page_ofServers hc hw' hpage
    have hstore := (Prod.mk.inj hcore).1
    rw [hstore] at hscan
    exact ⟨⟨_, hscan⟩, List.tail_drop, w', hw'', hcore'.trans hcore⟩

/-- **A scan of a range that others change.**  Whatever requests come in from others before each
page, when a scan without limit of a table of a reachable store comes to its end, then the sort
keys of the rows it returns strictly advance in the direction of the scan, so that no key comes
twice; every row returned was stored in the range when one of the pages was cut, and passes the
filter; and every row of the range that passes the filter and is stored unchanged whenever a page
is cut is returned. -/
theorem scanAll_sweep {c : Client Nat} {cl : Cluster} {instanceName table : String} {i : Nat}
    {v : Server} {start stop : Key} {options : OptionList} {r : GetRange}
    {gaps : List (List (Arrival Nat))} {pages : Nat} {all : RangePage}
    {x : Cluster × List (List (Arrival Nat))}
    (hc : c.transport instanceName = .ok i) (hv : cl[i]? = some v)
    (hs : v.store.Reachable) (hr : merge { table, start, stop } options = .ok r)
    (hlimit : ∀ n, r.limit = some n → n < 0)
    (h : c.scanAll Network.ofServers.shared pages instanceName table start stop options
      (cl, gaps) = some (.ok all, x)) :
    ∃ first last m l, start.sortKey = .ok first ∧ stop.sortKey = .ok last ∧
      x.2 = gaps.drop m ∧ 0 < m ∧
      all.rows = l.map (·.2.project r.columns) ∧ (∀ e ∈ l, e.2.key.sortKey = .ok e.1) ∧
      (all.rows.map (·.key)).Nodup ∧
      Sweep r.direction first last (Filter.admits r.filter)
        (fun n => (Network.ofServers.deliver (gaps.take (n + 1)).flatten cl).row? i table) m l := by
  obtain ⟨htable, -, hstop⟩ := GetRange.merge_bounds hr
  rw [scanAll, hr] at h
  obtain ⟨first, last, m, l, hfirst, hlast, ⟨hx, -⟩, hm, hrows, hkeys, hsweep⟩ :=
    collect_sweep (n := 0) (pagesOfChanging_shared (v := v) hc gaps)
      (fun n t ht => (Server.reachable_after hs i _).placed ht)
      (GetRange.rowLimit_eq_none hlimit) ⟨rfl, v, hv, rfl⟩ h
  rw [hstop] at hlast
  rw [Nat.zero_add] at hx
  replace hrows : all.rows = l.map (·.2.project r.columns) := by simpa using hrows
  refine ⟨first, last, m, l, hfirst, hlast, hx, hm, hrows, hkeys, ?_, ?_⟩
  · -- Equal keys have one sort key, and no sort key comes before itself.
    rw [hrows, List.map_map, List.Nodup, List.pairwise_map]
    refine hsweep.ordered.imp_of_mem fun {a b} ha hb hab heq => ?_
    have hkey : a.2.key = b.2.key := by
      simpa only [Function.comp, Row.key_project] using heq
    have hsort := (hkeys a ha).symm.trans ((congrArg _ hkey).trans (hkeys b hb))
    rw [Except.ok.inj hsort, Direction.before_irrefl] at hab
    cases hab
  · have hstored : (fun n =>
        (Network.ofServers.deliver (gaps.take (n + 1)).flatten cl).row? i table) = fun n =>
        (v.after i (gaps.take (0 + n + 1)).flatten).store.row? r.table := funext fun n => by
      funext k
      rw [Cluster.row?, Cluster.getElem?_deliver, hv, Nat.zero_add, htable]
      rfl
    rw [hstored]
    exact hsweep

/-- A key of one column to scan from or to. -/
def edge (v : KeyValue) : Key := [⟨"id", v⟩]

/-- An arrival at the first server. -/
def toFirst (r : Request) : Arrival Nat := ⟨0, "main", r⟩

/-- What others do between the pages of a scan: they delete the row that the next page is to start
at and put two others, one of them behind the scan, and then the other way round. -/
def meanwhile : List (List (Arrival Nat)) :=
  [[],
    [toFirst (.deleteRow { table := "t", key := numbered 2 }),
      toFirst (.putRow { table := "t", key := numbered 0, cells := [] }),
      toFirst (.putRow { table := "t", key := numbered 4, cells := [] })],
    [toFirst (.deleteRow { table := "t", key := numbered 4 }),
      toFirst (.putRow { table := "t", key := numbered 2, cells := [] })]]

/-- Two of the rows come in, both of which stay all the time, and none of those that come and
go. -/
theorem scanAll_sweep_meanwhile :
    ∃ all x, ofOne.scanAll Network.ofServers.shared 4 "main" "t" (edge .infMin)
        (edge .infMax) ⟨[]⟩ ([oneByOne], meanwhile) = some (.ok all, x) ∧
      all.rows.map (·.key) = [numbered 1, numbered 3] ∧
      ∃ first last m l, (edge .infMin).sortKey = .ok first ∧
        (edge .infMax).sortKey = .ok last ∧ x.2 = meanwhile.drop m ∧ 0 < m ∧
        all.rows = l.map (·.2.project []) ∧ (∀ e ∈ l, e.2.key.sortKey = .ok e.1) ∧
        (all.rows.map (·.key)).Nodup ∧
        Sweep .forward first last (Filter.admits none)
          (fun n => (Network.ofServers.deliver (meanwhile.take (n + 1)).flatten
            [oneByOne]).row? 0 "t") m l := by
  have hc : ofOne.transport "main" = .ok 0 := rfl
  have hv : [oneByOne][0]? = some oneByOne := rfl
  have hr : merge ({ table := "t", start := edge .infMin, stop := edge .infMax } : GetRange)
    ⟨[]⟩ = .ok _ := rfl
  have h : ofOne.scanAll Network.ofServers.shared 4 "main" "t" (edge .infMin)
    (edge .infMax) ⟨[]⟩ ([oneByOne], meanwhile) = some (.ok _, _) := rfl
  exact ⟨_, _, h, rfl, scanAll_sweep hc hv (.after (.new _) _) hr (fun n hn => by cases hn) h⟩

end Client

end WideColumn
