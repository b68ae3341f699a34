import WideColumn.Proofs.Routing
import WideColumn.Proofs.Scan

/-!
# Scans page by page

Nothing is known of what answers the requests of a scan. Pages may bring more rows than were asked
for, or none, and may say that the range goes on behind the last row that is wanted. All the same it
is settled by the pages that have come in what the next request is, when there is none, and what the
scan returns.

* `GetRange.GoesOn`, `GetRange.Resumes` : where a scan goes on after some pages, and with what
  request;
* `GetRange.Asked`, `GetRange.Ends`, `GetRange.Unfinished` : the requests of a run, and what comes
  of it;
* `GetRange.GoesOn.resumes` : the request of the loop is the one that is due;
* `Client.collect_goesOn`, `Client.collect_complete` : one turn of the loop;
* `Client.scanAll_pageByPage` : a whole scan, whatever the network answers.
-/

namespace WideColumn

/-! ### Pages and the requests for them -/

/-- A page that was asked for, and the reply. -/
structure Fetch where
  /-- What was asked. -/
  request : GetRange
  /-- What came back. -/
  reply : Except ServiceError RangePage

/-- What was delivered to ask for a page. -/
def Fetch.delivery (instanceName : String) (f : Fetch) : Delivery :=
  .scan instanceName f.request none

namespace RangePage

/-- The rows of some pages, in order. -/
def allRows (ps : List RangePage) : List Row := ps.flatMap (·.rows)

/-- The pages put together: their rows in order, and the sums of what they have consumed. -/
def joined (ps : List RangePage) : RangePage where
  rows := allRows ps
  consumed := ⟨(ps.map (·.consumed.read)).sum, (ps.map (·.consumed.write)).sum⟩

@[simp] theorem rows_joined (ps : List RangePage) : (joined ps).rows = allRows ps := rfl

theorem allRows_concat (ps : List RangePage) (p : RangePage) :
    allRows (ps ++ [p]) = allRows ps ++ p.rows := by
  simp [allRows]

theorem joined_concat (ps : List RangePage) (p : RangePage) :
    joined (ps ++ [p]) = (joined ps).extend p := by
  simp [joined, extend, allRows_concat, List.sum_append]

end RangePage

namespace GetRange

open RangePage

/-- A scan goes on at a key after some pages: without a page at its start, and else where the last
page says, unless as many rows have come in as were asked for. -/
def GoesOn (r : GetRange) (ps : List RangePage) (key : Key) : Prop :=
  match ps.getLast? with
  | none => key = r.start
  | some p => p.nextStart = some key ∧
      ∀ n, r.limit = some n → 0 ≤ n.toInt → ((allRows ps).length : Int) < n.toInt

/-- A request for a page that starts at a key after some pages. -/
structure Resumes (r : GetRange) (ps : List RangePage) (key : Key) (q : GetRange) : Prop where
  /-- Only the start and the limit are its own. -/
  base : q = { r with start := key, limit := q.limit }
  /-- It asks for the rows that are missing, which are some if any row was asked for at all. -/
  limited : ∀ n, r.limit = some n → 0 ≤ n.toInt → ∃ m, q.limit = some m ∧
    m.toInt + (allRows ps).length = n.toInt ∧ 0 ≤ m.toInt ∧ (0 < n.toInt → 0 < m.toInt)
  /-- If all rows are to come, its limit is as given. -/
  unlimited : (∀ n, r.limit = some n → n.toInt < 0) → q.limit = r.limit

theorem rowLimit_eq_some {r : GetRange} {l : Nat} :
    r.rowLimit = some l ↔ ∃ n, r.limit = some n ∧ n.toInt = l := by
  rw [rowLimit, Option.bind_eq_some_iff]
  refine exists_congr fun n => and_congr_right fun _ => ?_
  simp only [Int64.toNatClampNeg, Int64.le_iff_toInt_le, Int64.toInt_zero,
    Option.ite_none_right_eq_some, Option.some.injEq]
  omega

theorem goesOn_nil {r : GetRange} {key : Key} : r.GoesOn [] key ↔ key = r.start := Iff.rfl

theorem goesOn_concat {r : GetRange} {ps : List RangePage} {p : RangePage} {key : Key} :
    r.GoesOn (ps ++ [p]) key ↔ p.nextStart = some key ∧ r.WantsMore (allRows (ps ++ [p])) := by
  simp only [GoesOn, WantsMore, List.getLast?_concat, rowLimit_eq_some]
  refine and_congr_right fun _ => ⟨?_, ?_⟩
  · rintro h l ⟨n, hn, hl⟩
    have := h n hn (by omega)
    omega
  · intro h n hn hle
    have := h n.toInt.toNat ⟨n, hn, by omega⟩
    omega

/-- There is room for what has come in, and for more if anything was asked for. -/
theorem GoesOn.length_le {r : GetRange} {ps : List RangePage} {key : Key} (h : r.GoesOn ps key)
    {l : Nat} (hl : r.rowLimit = some l) :
    (allRows ps).length ≤ l ∧ (0 < l → (allRows ps).length < l) := by
  rcases List.eq_nil_or_concat ps with rfl | ⟨ps, p, rfl⟩
  · exact ⟨Nat.zero_le l, id⟩
  · rw [List.concat_eq_append] at h ⊢
    have := (goesOn_concat.1 h).2 l hl
    exact ⟨Nat.le_of_lt this, fun _ => this⟩

/-- The request that the loop makes is the one for the rows that are missing. -/
theorem GoesOn.resumes {r : GetRange} {ps : List RangePage} {key : Key} (h : r.GoesOn ps key) :
    r.Resumes ps key (r.resume key (allRows ps).length) where
  base := rfl
  limited n hn hle := by
    have hl : r.rowLimit = some n.toInt.toNat :=
      rowLimit_eq_some.2 ⟨n, hn, (Int.toNat_of_nonneg hle).symm⟩
    obtain ⟨hroom, hmore⟩ := h.length_le hl
    have hlt := n.toInt_lt
    -- What is missing is in the range of the limit, so nothing is lost when it is written down.
    have hm : (Int64.ofNat (n.toInt.toNat - (allRows ps).length)).toInt =
        (n.toInt.toNat - (allRows ps).length : Nat) := Int64.toInt_ofNat_of_lt (by omega)
    refine ⟨.ofNat (n.toInt.toNat - (allRows ps).length), by simp only [resume, hl], ?_⟩
    rw [hm]
    omega
  unlimited hneg := by
    cases hl : r.rowLimit with
    | none => simp only [resume, hl]
    | some l =>
      obtain ⟨n, hn, hnl⟩ := rowLimit_eq_some.1 hl
      have := hneg n hn
      omega

/-! ### Runs of requests -/

/-- Every request was made where the scan went on after the pages before it, of which `ps` came
first. -/
def Asked (r : GetRange) (ps : List RangePage) (fs : List Fetch) : Prop :=
  ∀ before f after, fs = before ++ f :: after → ∃ ps' key,
    before.map (·.reply) = ps'.map .ok ∧ r.GoesOn (ps ++ ps') key ∧
    r.Resumes (ps ++ ps') key f.request

/-- How a scan ends: with the first error, or after a page behind which it does not go on with all
rows, as many as were asked for. -/
inductive Ends (r : GetRange) (ps : List RangePage) : List Fetch → Except Error RangePage → Prop
  /-- The last reply is an error, which is the result. -/
  | refused {fs : List Fetch} {ps' : List RangePage} {f : Fetch} {e : ServiceError}
    (hreplies : fs.map (·.reply) = ps'.map .ok) (hf : f.reply = .error e) :
    Ends r ps (fs ++ [f]) (.error (.service e))
  /-- All replies are pages, and behind the last the scan does not go on. -/
  | complete {fs : List Fetch} {ps' : List RangePage}
    (hreplies : fs.map (·.reply) = ps'.map .ok) (hend : ∀ key, ¬r.GoesOn (ps ++ ps') key) :
    Ends r ps fs (.ok { joined (ps ++ ps') with rows := r.capped (allRows (ps ++ ps')) })

/-- A scan has not ended: all replies are pages, and behind the last it goes on. -/
def Unfinished (r : GetRange) (ps : List RangePage) (fs : List Fetch) : Prop :=
  ∃ ps' key, fs.map (·.reply) = ps'.map .ok ∧ r.GoesOn (ps ++ ps') key

theorem replies_cons {f : Fetch} {fs : List Fetch} {p : RangePage} {ps : List RangePage}
    (hf : f.reply = .ok p) (hfs : fs.map (·.reply) = ps.map .ok) :
    (f :: fs).map (·.reply) = (p :: ps).map .ok := by
  rw [List.map_cons, List.map_cons, hf, hfs]

variable {r : GetRange} {ps : List RangePage}

theorem asked_nil : r.Asked ps [] := by
  intro before f after h
  cases before <;> cases h

theorem asked_cons {f : Fetch} {fs : List Fetch} {key : Key} (hkey : r.GoesOn ps key)
    (hf : r.Resumes ps key f.request)
    (hfs : fs = [] ∨ ∃ p, f.reply = .ok p ∧ r.Asked (ps ++ [p]) fs) : r.Asked ps (f :: fs) := by
  intro before g after heq
  cases before with
  | nil =>
    obtain ⟨rfl, -⟩ := List.cons.inj heq
    exact ⟨[], key, rfl, by rwa [List.append_nil], by rwa [List.append_nil]⟩
  | cons f' before =>
    obtain ⟨rfl, hrest⟩ := List.cons.inj heq
    obtain rfl | ⟨p, hp, hasked⟩ := hfs
    · cases before <;> cases hrest
    · obtain ⟨ps', key', hreplies, hgoes, hresumes⟩ := hasked before g after hrest
      rw [List.append_assoc] at hgoes hresumes
      exact ⟨p :: ps', key', replies_cons hp hreplies, hgoes, hresumes⟩

theorem ends_error {f : Fetch} {e : ServiceError} (hf : f.reply = .error e) :
    r.Ends ps [f] (.error (.service e)) :=
  @Ends.refused r ps [] [] f e rfl hf

theorem ends_page {f : Fetch} {p : RangePage} (hf : f.reply = .ok p)
    (hend : ∀ key, ¬r.GoesOn (ps ++ [p]) key) :
    r.Ends ps [f] (.ok { joined (ps ++ [p]) with rows := r.capped (allRows (ps ++ [p])) }) :=
  @Ends.complete r ps [f] [p] (congrArg (fun reply => [reply]) hf) hend

theorem Ends.cons {f : Fetch} {fs : List Fetch} {p : RangePage} {result : Except Error RangePage}
    (hf : f.reply = .ok p) (h : r.Ends (ps ++ [p]) fs result) : r.Ends ps (f :: fs) result := by
  cases h with
  | refused hreplies hg => exact .refused (replies_cons hf hreplies) hg
  | complete hreplies hend =>
    rw [List.append_assoc] at hend ⊢
    exact .complete (replies_cons hf hreplies) hend

theorem Unfinished.cons {f : Fetch} {fs : List Fetch} {p : RangePage} (hf : f.reply = .ok p)
    (h : r.Unfinished (ps ++ [p]) fs) : r.Unfinished ps (f :: fs) := by
  obtain ⟨ps', key, hreplies, hgoes⟩ := h
  rw [List.append_assoc] at hgoes
  exact ⟨p :: ps', key, replies_cons hf hreplies, hgoes⟩

end GetRange

/-- A network answers requests for pages, made one after the other, with these replies. -/
def Network.Replies {τ σ : Type} (net : Network τ σ) (t : τ) (instanceName : String) :
    σ → List Fetch → σ → Prop
  | s, [], s' => s' = s
  | s, f :: fs, s' => ∃ s₁, net.scan t instanceName f.request none s = (f.reply, s₁) ∧
      Replies net t instanceName s₁ fs s'

/-! ### The loop -/

namespace Client

open RangePage

variable {τ σ : Type} {c : Client τ} {instanceName : String} {t : τ}

section Step

variable {net : Network τ σ} {r : GetRange} {ps : List RangePage} {key : Key} {s s₁ : σ}

theorem page_eq (ht : c.transport instanceName = .ok t) {q : GetRange} {token : Option Bytes}
    {reply : Except ServiceError RangePage}
    (hreply : net.scan t instanceName q token s = (reply, s₁)) :
    c.page net instanceName q token s = (reply.mapError .service, s₁) := by
  rw [page, ht]
  dsimp only
  rw [hreply]
  rfl

/-- A page behind which the scan goes on leads to the next turn of the loop. -/
theorem collect_goesOn (ht : c.transport instanceName = .ok t) {p : RangePage} {next : Key}
    (hreply : net.scan t instanceName (r.resume key (allRows ps).length) none s = (.ok p, s₁))
    (hnext : r.GoesOn (ps ++ [p]) next) (pages : Nat) :
    c.collect net instanceName r (pages + 1) (joined ps) key s =
      c.collect net instanceName r pages (joined (ps ++ [p])) next s₁ := by
  obtain ⟨hstart, hmore⟩ := GetRange.goesOn_concat.1 hnext
  rw [← rows_joined, joined_concat] at hmore
  rw [joined_concat]
  exact collect_next (page_eq ht hreply) hmore hstart pages

/-- A page behind which the scan does not go on ends the loop. -/
theorem collect_complete (ht : c.transport instanceName = .ok t) {p : RangePage}
    (hreply : net.scan t instanceName (r.resume key (allRows ps).length) none s = (.ok p, s₁))
    (hend : ∀ next, ¬r.GoesOn (ps ++ [p]) next) (pages : Nat) :
    c.collect net instanceName r (pages + 1) (joined ps) key s =
      some (.ok { joined (ps ++ [p]) with rows := r.capped (allRows (ps ++ [p])) }, s₁) := by
  rw [← rows_joined, joined_concat]
  refine collect_last (page_eq ht hreply) (fun hmore => ?_) pages
  refine Option.eq_none_iff_forall_ne_some.2 fun next hstart => hend next ?_
  rw [← joined_concat] at hmore
  exact GetRange.goesOn_concat.2 ⟨hstart, hmore⟩

end Step

/-- The loop asks for the pages one after the other, where the scan goes on, until it ends or has
asked for as many as it may. -/
theorem collect_pageByPage (ht : c.transport instanceName = .ok t) (net : Network τ σ)
    {r : GetRange} {ps : List RangePage} {key : Key} (h : r.GoesOn ps key) (pages : Nat) (s : σ) :
    ∃ fs s', net.Replies t instanceName s fs s' ∧ r.Asked ps fs ∧
      ((∃ result, r.Ends ps fs result ∧ fs.length ≤ pages ∧
          c.collect net instanceName r pages (joined ps) key s = some (result, s') ∧
          ∀ noted, c.collect net.noting instanceName r pages (joined ps) key (s, noted) =
            some (result, s', noted ++ fs.map fun f => (t, f.delivery instanceName))) ∨
        r.Unfinished ps fs ∧ fs.length = pages ∧
          c.collect net instanceName r pages (joined ps) key s = none) := by
  induction pages generalizing ps key s with
  | zero =>
    exact ⟨[], s, rfl, GetRange.asked_nil,
      .inr ⟨⟨[], key, rfl, by rwa [List.append_nil]⟩, rfl, rfl⟩⟩
  | succ pages ih =>
    cases hscan : net.scan t instanceName (r.resume key (allRows ps).length) none s with
    | mk reply s₁ =>
      let f : Fetch := ⟨r.resume key (allRows ps).length, reply⟩
      have hnoting (noted) : net.noting.scan t instanceName f.request none (s, noted) =
          (f.reply, s₁, noted ++ [(t, f.delivery instanceName)]) := by
        simp only [Network.noting, f, hscan]
        rfl
      cases reply with
      | error e =>
        refine ⟨[f], s₁, ⟨s₁, hscan, rfl⟩, GetRange.asked_cons h h.resumes (.inl rfl), .inl ?_⟩
        exact ⟨_, GetRange.ends_error rfl, Nat.le_add_left 1 pages,
          collect_error (page_eq ht hscan) pages,
          fun noted => collect_error (page_eq ht (hnoting noted)) pages⟩
      | ok p =>
        by_cases hnext : ∃ next, r.GoesOn (ps ++ [p]) next
        · -- What is asked for behind this page comes after it.
          obtain ⟨next, hnext⟩ := hnext
          obtain ⟨fs, s', hreplies, hasked, hcases⟩ := ih hnext s₁
          refine ⟨f :: fs, s', ⟨s₁, hscan, hreplies⟩,
            GetRange.asked_cons h h.resumes (.inr ⟨p, rfl, hasked⟩), ?_⟩
          rw [collect_goesOn ht hscan hnext]
          obtain ⟨result, hends, hlen, hcollect, hnoted⟩ | ⟨hunfinished, hlen, hcollect⟩ := hcases
          · refine .inl ⟨result, hends.cons rfl, Nat.succ_le_succ hlen, hcollect, fun noted => ?_⟩
            rw [collect_goesOn ht (hnoting noted) hnext, hnoted, List.append_assoc]
            rfl
          · exact .inr ⟨hunfinished.cons rfl, congrArg Nat.succ hlen, hcollect⟩
        · have hend := not_exists.1 hnext
          refine ⟨[f], s₁, ⟨s₁, hscan, rfl⟩, GetRange.asked_cons h h.resumes (.inl rfl), .inl ?_⟩
          exact ⟨_, GetRange.ends_page rfl hend, Nat.le_add_left 1 pages,
            collect_complete ht hscan hend pages,
            fun noted => collect_complete ht (hnoting noted) hend pages⟩

/-- **What a scan of a whole range asks for and returns.**  Whatever a network answers, the first
request is for a page from the start of the range on, and each other one from where the last page
says, as long as this page says so and fewer rows have come in than were asked for. Every request is
that of the options but for its start and, if rows were asked for up to a limit, the number of those
that are still missing. The scan ends with the first error, or else returns the rows of all pages in
order, cut to the limit, and the sums of what they have consumed. -/
theorem scanAll_pageByPage (ht : c.transport instanceName = .ok t) {table : String}
    {start stop : Key} {options : OptionList} {r : GetRange}
    (hr : merge { table, start, stop } options = .ok r) (net : Network τ σ) (pages : Nat) (s : σ) :
    (r.table = table ∧ r.start = start ∧ r.stop = stop) ∧
    ∃ fs s', net.Replies t instanceName s fs s' ∧ r.Asked [] fs ∧
      ((∃ result, r.Ends [] fs result ∧ fs.length ≤ pages ∧
          c.scanAll net pages instanceName table start stop options s = some (result, s') ∧
          ∀ noted, c.scanAll net.noting pages instanceName table start stop options (s, noted) =
            some (result, s', noted ++ fs.map fun f => (t, f.delivery instanceName))) ∨
        r.Unfinished [] fs ∧ fs.length = pages ∧
          c.scanAll net pages instanceName table start stop options s = none) := by
  have hbounds := GetRange.merge_bounds hr
  refine ⟨hbounds, ?_⟩
  simp only [scanAll, hr]
  exact collect_pageByPage ht net (GetRange.goesOn_nil.2 hbounds.2.1.symm) pages s

/-- Pages that bring two rows, none and again two, and never say that they are the last. -/
def overfull : Script where
  replies :=
    [.ok (.rangePage { rows := [⟨numbered 1, []⟩, ⟨numbered 2, []⟩], nextStart := some (numbered 4)
                       consumed := ⟨2, 0⟩ }),
      .ok (.rangePage { nextStart := some (numbered 5), consumed := ⟨1, 0⟩ }),
      .ok (.rangePage { rows := [⟨numbered 5, []⟩, ⟨numbered 6, []⟩], nextStart := some (numbered 8)
                        consumed := ⟨2, 0⟩ })]

/-- A client of one script. -/
def ofScript : Client Unit := ((Client.mk {} .empty).register ⟨"main", "", 1, 0, false⟩ ()).2

/-- A scan of three rows. -/
def threeRows : GetRange where
  table := "t"
  limit := some 3
  start := numbered 1
  stop := numbered 9

/-- What the scan is to return of the four rows. -/
def firstThree : RangePage where
  rows := [1, 2, 5].map fun n => ⟨numbered n, []⟩
  consumed := ⟨5, 0⟩

/-- Three rows are returned, and the second and the third request ask for one that is missing. -/
theorem scanAll_pageByPage_overfull :
    ∃ fs s', threeRows.Asked [] fs ∧ threeRows.Ends [] fs (.ok firstThree) ∧
      ofScript.scanAll Script.network 3 "main" "t" (numbered 1) (numbered 9)
        ⟨[("limit", .integer 3)]⟩ overfull = some (.ok firstThree, s') ∧
      (fs.map fun f => ((), f.delivery "main")) =
        [((), .scan "main" threeRows none),
          ((), .scan "main" { threeRows with start := numbered 4, limit := some 1 } none),
          ((), .scan "main" { threeRows with start := numbered 5, limit := some 1 } none)] := by
  have ht : ofScript.transport "main" = .ok () := rfl
  have hr : merge ({ table := "t", start := numbered 1, stop := numbered 9 } : GetRange)
    ⟨[("limit", .integer 3)]⟩ = .ok threeRows := rfl
  obtain ⟨-, fs, s', -, hasked, ⟨result, hends, -, hscan, hnoted⟩ | ⟨-, -, hnone⟩⟩ :=
    scanAll_pageByPage ht hr Script.network 3 overfull
  · have hrun : ofScript.scanAll Script.network.noting 3 "main" "t" (numbered 1) (numbered 9)
      ⟨[("limit", .integer 3)]⟩ (overfull, []) = some (.ok firstThree, _, _) := rfl
    obtain ⟨rfl, hstate⟩ := Prod.mk.inj (Option.some.inj ((hnoted []).symm.trans hrun))
    exact ⟨fs, s', hasked, hends, hscan, (Prod.mk.inj hstate).2⟩
  · cases hnone

end Client

end WideColumn
