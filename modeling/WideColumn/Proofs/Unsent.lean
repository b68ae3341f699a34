import WideColumn.Proofs.Routing
import WideColumn.Proofs.Scan

/-!
# Errors before anything is sent

An error is the caller's if the service did not report it (`Error.isCaller`), which is meant to say
that nothing was sent. All errors of options, and of instances that are not registered, are found
before anything is sent. But a response of the wrong kind is the caller's error as well.

* `FailsLocally` : a computation whose errors are found before anything is sent;
* `failsLocally_merge` : so fail options, since their errors name one of them;
* `Invocation.failsLocally_delivery` : and so does whatever keeps a call from being sent;
* `Errand.sent_exact` : what was sent when a call or a whole scan ends in an error.
-/

namespace WideColumn

/-! ### Local errors -/

/-- Whether an error is found before anything is sent: the service does not report it, and it is not
found in a response. -/
def Error.isLocal : Error → Bool
  | service _ | unexpectedResponse .. => false
  | _ => true

theorem Error.isLocal_iff {e : Error} :
    e.isLocal = true ↔ e.isCaller = true ∧ ∀ op received, e ≠ unexpectedResponse op received := by
  cases e <;> simp [isLocal, isCaller]

/-- Errors are found before anything is sent. -/
abbrev FailsLocally {α : Type} (x : Except Error α) : Prop :=
  FailsWith (fun e => e.isLocal = true) x

/-! ### Options -/

theorem Error.Names.isLocal {key : String} {v : OptionValue} {e : Error} (h : e.Names key v) :
    e.isLocal = true := by
  cases h <;> rfl

theorem failsLocally_merge {ρ : Type} [Configurable ρ] [Described ρ] (r : ρ)
    (options : OptionList) : FailsLocally (merge r options) := by
  intro e h
  obtain ⟨_, -, hnames⟩ := names_of_merge h
  exact hnames.isLocal

theorem UpdateSet.failsLocally_ofOptions (options : OptionList) :
    FailsLocally (ofOptions options) := by
  refine FailsWith.foldlM (fun u kind => ?_) _ _
  unfold addKind
  dsimp only
  split
  · exact .ok u
  · exact .ok u
  · refine FailsWith.map ?_ _
    unfold operandsOf
    split
    · exact .ok _
    · refine FailsWith.map (fun e h => ?_) _
      exact (Shape.columns_names _ _ e h).isLocal

/-! ### Calls -/

/-- Whatever keeps a call from being sent is found before. -/
theorem Invocation.failsLocally_delivery (inv : Invocation) (instanceName : String) :
    FailsLocally (inv.delivery instanceName) := by
  cases inv with
  | deleteTable | listTables | describeTable | batchGet | startTransaction | commitTransaction
  | abortTransaction => exact .ok _
  | createTable | updateTable | getRow | putRow | deleteRow | batchWrite | search =>
    exact ((failsLocally_merge _ _).map _).map _
  | updateRow table key options =>
    refine (FailsWith.bind (failsLocally_merge _ _) fun r => ?_).map _ |>.map _
    exact (UpdateSet.failsLocally_ofOptions options).bind fun updates => .ok _
  | getRange => exact (failsLocally_merge _ _).map _

section Client

variable {τ σ : Type}

theorem Client.failsLocally_transport (c : Client τ) (name : String) :
    FailsLocally (c.transport name) := by
  unfold transport
  split
  · exact .ok _
  · exact .error rfl

/-- A reply is no answer if the service reports an error, or if it is of the wrong kind. -/
theorem Operation.accept_eq_error {op : Operation} {reply : Except ServiceError Response}
    {e : Error} (h : op.accept reply = .error e) :
    (∃ err, e = .service err) ∨ ∃ received, e = .unexpectedResponse op received := by
  cases reply with
  | error err => exact .inl ⟨err, (Except.error.inj h).symm⟩
  | ok response =>
    unfold accept at h
    dsimp only at h
    split at h
    · cases h
    · exact .inr ⟨response.kind, (Except.error.inj h).symm⟩

/-! ### Whole scans -/

theorem Client.collect_unserved {c : Client τ} {instanceName : String} {e : Error}
    (ht : c.transport instanceName = .error e) (net : Network τ σ) (r : GetRange) (pages : Nat)
    (all : RangePage) (start : Key) (s : σ) :
    c.collect net instanceName r (pages + 1) all start s = some (.error e, s) :=
  collect_error (by rw [page, ht]) pages

section Served

variable {c : Client τ} {net : Network τ σ} {instanceName : String} {r : GetRange} {t : τ}

/-- The request for a page is noted, and fails only for what the service reports. -/
theorem Client.page_sent (ht : c.transport instanceName = .ok t) {token : Option Bytes} {s s' : σ}
    {answer : Except Error RangePage}
    (h : c.page net instanceName r token s = (answer, s')) :
    (∀ e, answer = .error e → ∃ err, e = .service err) ∧ ∀ noted,
      c.page net.noting instanceName r token (s, noted) =
        (answer, s', noted ++ [(t, .scan instanceName r token)]) := by
  unfold page at h ⊢
  rw [ht] at h ⊢
  obtain ⟨rfl, rfl⟩ := Prod.mk.inj h
  refine ⟨fun e he => ?_, fun noted => rfl⟩
  cases hreply : (net.scan t instanceName r token s).1 with
  | error err =>
    rw [hreply] at he
    exact ⟨err, (Except.error.inj he).symm⟩
  | ok page =>
    rw [hreply] at he
    cases he

/-- The loop over pages sends at least one request if the instance is served, and fails only for
what the service reports. -/
theorem Client.collect_sent (ht : c.transport instanceName = .ok t) {pages : Nat}
    {all : RangePage} {start : Key} {s s' : σ} {result : Except Error RangePage}
    (h : c.collect net instanceName r pages all start s = some (result, s')) :
    (∀ e, result = .error e → ∃ err, e = .service err) ∧ ∃ sent, sent ≠ [] ∧ ∀ noted,
      c.collect net.noting instanceName r pages all start (s, noted) =
        some (result, s', noted ++ sent) := by
  induction pages generalizing all start s with
  | zero => cases h
  | succ pages ih =>
    let d : τ × Delivery := (t, .scan instanceName (r.resume start all.rows.length) none)
    obtain ⟨e, hpage, rfl⟩ | ⟨page, hpage, hlast, rfl⟩ |
      ⟨page, s₁, next, hpage, hmore, hnext, hrest⟩ := collect_cases h
    · obtain ⟨hservice, hnoting⟩ := page_sent ht hpage
      exact ⟨hservice, [d], by simp, fun noted => collect_error (hnoting noted) pages⟩
    · obtain ⟨-, hnoting⟩ := page_sent ht hpage
      exact ⟨nofun, [d], by simp, fun noted => collect_last (hnoting noted) hlast pages⟩
    · -- What the rest of the loop sends comes after this page.
      obtain ⟨-, hnoting⟩ := page_sent ht hpage
      obtain ⟨hservice, sent, -, hsent⟩ := ih hrest
      refine ⟨hservice, d :: sent, by simp, fun noted => ?_⟩
      rw [collect_next (hnoting noted) hmore hnext, hsent, List.append_assoc]
      rfl

end Served

end Client

/-! ### All calls -/

/-- A call of a client, or a scan of a whole range. -/
inductive Errand where
  /-- A call. -/
  | call (inv : Invocation)
  /-- A scan of a whole range. -/
  | scanAll (table : String) (start stop : Key) (options : OptionList)

namespace Errand

variable {τ σ : Type}

/-- Do what is asked for; of a scan, `pages` pages at most. -/
def perform (a : Errand) (c : Client τ) (net : Network τ σ) (pages : Nat) (instanceName : String)
    (s : σ) : Option (Except Error Response × σ) :=
  match a with
  | call inv => some (inv.perform c net instanceName s)
  | scanAll table start stop options =>
    (c.scanAll net pages instanceName table start stop options s).map
      (·.map (·.map .rangePage) id)

/-- What was sent when something ends in an error. -/
structure Sent (a : Errand) (c : Client τ) (net : Network τ σ) (pages : Nat)
    (instanceName : String) (s : σ) (e : Error) (s' : σ) (sent : List (τ × Delivery)) : Prop where
  /-- This is what was delivered. -/
  noted : ∀ noted, a.perform c net.noting pages instanceName (s, noted) =
    some (.error e, s', noted ++ sent)
  /-- Nothing was sent exactly if the error is the caller's, and not about a response. -/
  nil_iff : sent = [] ↔
    e.isCaller = true ∧ ∀ op received, e ≠ .unexpectedResponse op received
  /-- A response of the wrong kind is the reply to a single request, for the operation that the
  error names. -/
  unexpected : ∀ op received, e = .unexpectedResponse op received →
    ∃ t d, sent = [(t, d)] ∧ d.operation = op

section Sent

variable {a : Errand} {c : Client τ} {net : Network τ σ} {pages : Nat} {instanceName : String}
  {s s' : σ} {e : Error}

theorem Sent.of_local (he : e.isLocal = true)
    (h : ∀ noted, a.perform c net.noting pages instanceName (s, noted) =
      some (.error e, s', noted)) : a.Sent c net pages instanceName s e s' [] where
  noted noted := by rw [h, List.append_nil]
  nil_iff := iff_of_true rfl (Error.isLocal_iff.1 he)
  unexpected op received h := absurd h ((Error.isLocal_iff.1 he).2 op received)

theorem Sent.of_service {sent : List (τ × Delivery)} (he : ∃ err, e = .service err)
    (hsent : sent ≠ []) (h : ∀ noted, a.perform c net.noting pages instanceName (s, noted) =
      some (.error e, s', noted ++ sent)) : a.Sent c net pages instanceName s e s' sent where
  noted := h
  nil_iff := by
    obtain ⟨err, rfl⟩ := he
    exact iff_of_false hsent fun hcaller => nomatch hcaller.1
  unexpected := by
    obtain ⟨err, rfl⟩ := he
    exact nofun

theorem Sent.of_unexpected {op : Operation} {received : String} {t : τ} {d : Delivery}
    (he : e = .unexpectedResponse op received) (hd : d.operation = op)
    (h : ∀ noted, a.perform c net.noting pages instanceName (s, noted) =
      some (.error e, s', noted ++ [(t, d)])) :
    a.Sent c net pages instanceName s e s' [(t, d)] where
  noted := h
  nil_iff := iff_of_false (by simp) fun hnone => hnone.2 op received he
  unexpected op' received' he' := by
    obtain ⟨rfl, -⟩ := Error.unexpectedResponse.inj (he.symm.trans he')
    exact ⟨t, d, rfl, hd⟩

theorem exists_sent_call {inv : Invocation}
    (h : inv.perform c net instanceName s = (.error e, s')) :
    ∃ sent, (call inv).Sent c net pages instanceName s e s' sent := by
  cases hd : inv.delivery instanceName with
  | error err =>
    obtain ⟨hperform, hnoting⟩ := Invocation.yields_of_error (c := c) hd net s
    obtain ⟨heq, rfl⟩ := Prod.mk.inj (hperform.symm.trans h)
    obtain rfl := Except.error.inj heq
    refine ⟨[], .of_local (inv.failsLocally_delivery instanceName _ hd) fun noted => ?_⟩
    rw [perform, hnoting, List.append_nil]
  | ok d =>
    cases ht : c.transport instanceName with
    | error err =>
      obtain ⟨hperform, hnoting⟩ := Invocation.yields_of_unserved hd ht net s
      obtain ⟨heq, rfl⟩ := Prod.mk.inj (hperform.symm.trans h)
      obtain rfl := Except.error.inj heq
      refine ⟨[], .of_local (c.failsLocally_transport instanceName _ ht) fun noted => ?_⟩
      rw [perform, hnoting, List.append_nil]
    | ok t =>
      obtain ⟨hperform, hnoting⟩ := Invocation.yields_of_served hd ht net s
      obtain ⟨heq, rfl⟩ := Prod.mk.inj (hperform.symm.trans h)
      rw [heq] at hnoting
      -- The request was sent, so the error was made of the reply.
      have hnoted := fun noted => congrArg some (hnoting noted)
      obtain he | ⟨received, he⟩ := Operation.accept_eq_error heq
      · exact ⟨_, .of_service he (by simp) hnoted⟩
      · exact ⟨_, .of_unexpected he (Invocation.operation_of_delivery hd) hnoted⟩

theorem exists_sent_scanAll {table : String} {start stop : Key} {options : OptionList}
    (h : c.scanAll net pages instanceName table start stop options s = some (.error e, s')) :
    ∃ sent, (scanAll table start stop options).Sent c net pages instanceName s e s' sent := by
  cases hr : (merge { table, start, stop } options : Except Error GetRange) with
  | error err =>
    rw [Client.scanAll, hr] at h
    obtain ⟨heq, rfl⟩ := Prod.mk.inj (Option.some.inj h)
    obtain rfl := Except.error.inj heq
    refine ⟨[], .of_local (failsLocally_merge _ _ _ hr) fun noted => ?_⟩
    simp only [perform, Client.scanAll, hr]
    rfl
  | ok r =>
    rw [Client.scanAll, hr] at h
    dsimp only at h
    cases ht : c.transport instanceName with
    | error err =>
      cases pages with
      | zero => cases h
      | succ pages =>
        rw [Client.collect_unserved ht] at h
        obtain ⟨heq, rfl⟩ := Prod.mk.inj (Option.some.inj h)
        obtain rfl := Except.error.inj heq
        refine ⟨[], .of_local (c.failsLocally_transport instanceName _ ht) fun noted => ?_⟩
        simp only [perform, Client.scanAll, hr, Client.collect_unserved ht]
        rfl
    | ok t =>
      obtain ⟨hservice, sent, hne, hnoting⟩ := Client.collect_sent ht h
      refine ⟨sent, .of_service (hservice e rfl) hne fun noted => ?_⟩
      simp only [perform, Client.scanAll, hr, hnoting]
      rfl

/-- **Which errors mean that nothing was sent.**  A call with any arguments and options, or a scan
of a whole range, ends in an error, whatever instances are registered and whatever the transports
reply. Then nothing was sent exactly if the error is the caller's and is not that of a response of
the wrong kind. That error comes of a single request, for the operation that it names. -/
theorem sent_exact (h : a.perform c net pages instanceName s = some (.error e, s')) :
    ∃ sent, a.Sent c net pages instanceName s e s' sent := by
  cases a with
  | call inv => exact exists_sent_call (Option.some.inj h)
  | scanAll table start stop options =>
    obtain ⟨⟨result, s₁⟩, hscan, heq⟩ := Option.map_eq_some_iff.1 h
    obtain ⟨hresult, rfl⟩ := Prod.mk.inj heq
    obtain rfl := map_eq_error.1 hresult
    exact exists_sent_scanAll hscan

end Sent

/-- A put that is answered with what was read: the error is the caller's, and the put was sent. -/
theorem sent_exact_misled :
    ∃ sent, (call (.putRow "t" [] [] {})).perform (.ofHistory {} Invocation.replaced)
        Invocation.misled.noting 0 "main" ((), []) =
          some (.error (.unexpectedResponse .putRow "GetRow"), (), sent) ∧
      sent.map (·.2.operation) = [.putRow] := by
  have h : (call (.putRow "t" [] [] {})).perform (.ofHistory {} Invocation.replaced)
    Invocation.misled 0 "main" () = some (.error (.unexpectedResponse .putRow "GetRow"), ()) := rfl
  obtain ⟨sent, hsent⟩ := sent_exact h
  obtain ⟨t, d, rfl, hd⟩ := hsent.unexpected _ _ rfl
  exact ⟨[(t, d)], hsent.noted [], congrArg (fun op => [op]) hd⟩

/-- Not every error of the caller means that nothing was sent. -/
theorem not_unsent_of_isCaller :
    ¬ ∀ (a : Errand) (c : Client Nat) (net : Network Nat Unit) (pages : Nat) (instanceName : String)
      (e : Error) (sent : List (Nat × Delivery)),
      a.perform c net.noting pages instanceName ((), []) = some (.error e, (), sent) →
      e.isCaller = true → sent = [] := by
  intro h
  have hnil := h (.call (.putRow "t" [] [] {})) (.ofHistory {} Invocation.replaced)
    Invocation.misled 0 "main" _ _ rfl rfl
  cases hnil

end Errand

end WideColumn
