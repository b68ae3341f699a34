import WideColumn.Proofs.Settings
import WideColumn.Proofs.Unsent

/-!
# Descriptions of tables

Whatever clients do, scans of whole ranges included, the settings of a table change only by calls
that create, update or delete this table and succeed. So a table that is there was created by one of
them and only updated since, and its description tells what those calls said last.

* `Invocation.settles_perform` : what one call does to the settings of a table of a server;
* `Leads` : errands that were done one after the other;
* `Leads.reports` : the settings are those that the errands made, a step at a time;
* `Leads.describe_exact` : and `describe_table` returns them.
-/

namespace WideColumn

/-! ### Servers -/

theorem Server.store_scan (v : Server) (instanceName : String) (r : GetRange)
    (token : Option Bytes) : (v.scan instanceName r token).2.store = v.store := by
  unfold scan receive
  cases v.failNext <;> rfl

theorem Server.failNext_scan (v : Server) (instanceName : String) (r : GetRange)
    (token : Option Bytes) : (v.scan instanceName r token).2.failNext = none := by
  unfold scan receive
  cases v.failNext <;> rfl

theorem Server.failNext_submit (v : Server) (instanceName : String) (r : Request) :
    (v.submit instanceName r).2.failNext = none := by
  unfold submit receive
  cases v.failNext <;> rfl

namespace Cluster

/-- The settings of a table of a server, if both exist. -/
def tableMeta? (cl : Cluster) (i : Nat) (name : String) : Option TableMeta :=
  cl[i]?.bind (·.store.tables.tableMeta? name)

/-- A server that has a table was not told to fail. -/
def Ready (cl : Cluster) (i : Nat) (name : String) : Prop :=
  ∀ v, cl[i]? = some v → v.store.tables.tableMeta? name ≠ none → v.failNext = none

theorem tableMeta?_of_getElem? {cl : Cluster} {i : Nat} {v : Server} (h : cl[i]? = some v)
    (name : String) : cl.tableMeta? i name = v.store.tables.tableMeta? name := by
  rw [tableMeta?, h, Option.bind_some]

theorem Ready.of_missing {cl : Cluster} {i : Nat} {name : String}
    (h : cl.tableMeta? i name = none) : cl.Ready i name := by
  intro v hv hm
  rw [tableMeta?_of_getElem? hv] at h
  exact absurd h hm

section Ask

variable {cl : Cluster} {i j : Nat} {name : String} {α : Type}

theorem tableMeta?_ask (question : Server → Except ServiceError α × Server)
    (h : j = i → ∀ v,
      (question v).2.store.tables.tableMeta? name = v.store.tables.tableMeta? name) :
    (cl.ask j question).2.tableMeta? i name = cl.tableMeta? i name := by
  rw [tableMeta?, tableMeta?, getElem?_ask]
  cases cl[i]? with
  | none => rfl
  | some v =>
    rw [Option.map_some, Option.bind_some, Option.bind_some]
    split
    · next hj => exact h hj v
    · rfl

/-- Whatever a server was told to fail is over when it was asked. -/
theorem Ready.ask (h : cl.Ready i name) {question : Server → Except ServiceError α × Server}
    (hq : ∀ v, (question v).2.failNext = none) : (cl.ask j question).2.Ready i name := by
  intro v hv hm
  rw [getElem?_ask] at hv
  obtain ⟨w, hw, rfl⟩ := Option.map_eq_some_iff.1 hv
  by_cases hj : j = i
  · rw [if_pos hj]
    exact hq w
  · -- Another server is asked.
    rw [if_neg hj] at hm ⊢
    exact h w hw hm

end Ask

end Cluster

/-! ### What deliveries keep -/

section Keeps

variable {τ σ : Type} {P : σ → Prop} {c : Client τ} {net : Network τ σ} {pages : Nat}
  {instanceName : String} {s s' : σ}

theorem Client.page_keeps
    (hP : ∀ t instanceName r token s, P s → P (net.scan t instanceName r token s).2)
    (c : Client τ) (instanceName : String) (r : GetRange) (token : Option Bytes) (hs : P s) :
    P (c.page net instanceName r token s).2 := by
  unfold page
  cases c.transport instanceName with
  | error e => exact hs
  | ok t => exact hP t instanceName r token s hs

theorem Client.collect_keeps
    (hP : ∀ t instanceName r token s, P s → P (net.scan t instanceName r token s).2)
    {r : GetRange} {all : RangePage} {start : Key} {result : Except Error RangePage}
    (h : c.collect net instanceName r pages all start s = some (result, s')) (hs : P s) :
    P s' := by
  -- Where the next page starts and what it is added to does not matter.
  induction pages generalizing all start s with
  | zero => cases h
  | succ pages ih =>
    have hs₁ := page_keeps hP c instanceName (r.resume start all.rows.length) none hs
    obtain ⟨e, hpage, -⟩ | ⟨page, hpage, -⟩ | ⟨page, s₁, next, hpage, -, -, hrest⟩ :=
      collect_cases h
    · rwa [hpage] at hs₁
    · rwa [hpage] at hs₁
    · rw [hpage] at hs₁
      exact ih hrest hs₁

/-- What every page leaves alone, a whole scan leaves alone. -/
theorem Client.scanAll_keeps
    (hP : ∀ t instanceName r token s, P s → P (net.scan t instanceName r token s).2)
    {table : String} {start stop : Key} {options : OptionList} {result : Except Error RangePage}
    (h : c.scanAll net pages instanceName table start stop options s = some (result, s'))
    (hs : P s) : P s' := by
  unfold scanAll at h
  split at h
  · obtain ⟨-, rfl⟩ := Prod.mk.inj (Option.some.inj h)
    exact hs
  · exact collect_keeps hP h hs

theorem Invocation.perform_keeps (hP : ∀ t d s, P s → P (net.send t d s).2) (inv : Invocation)
    (c : Client τ) (instanceName : String) (hs : P s) :
    P (inv.perform c net instanceName s).2 := by
  rw [perform_eq]
  cases inv.delivery instanceName with
  | error e => exact hs
  | ok d =>
    cases c.transport instanceName with
    | error e => exact hs
    | ok t => exact hP t d s hs

/-- What every delivery keeps, an errand keeps. -/
theorem Errand.perform_keeps (hP : ∀ t d s, P s → P (net.send t d s).2) {a : Errand}
    {result : Except Error Response}
    (h : a.perform c net pages instanceName s = some (result, s')) (hs : P s) : P s' := by
  cases a with
  | call inv =>
    have hperform : inv.perform c net instanceName s = (result, s') := Option.some.inj h
    have hs' := inv.perform_keeps hP c instanceName hs
    rwa [hperform] at hs'
  | scanAll table start stop options =>
    obtain ⟨⟨page, s₁⟩, hscan, heq⟩ := Option.map_eq_some_iff.1 h
    obtain rfl : s₁ = s' := (Prod.mk.inj heq).2
    exact Client.scanAll_keeps (fun t instanceName r token => hP t (.scan instanceName r token))
      hscan hs

end Keeps

/-! ### What calls do to settings in a cluster -/

/-- Whether a client knows an instance as one of a server. -/
def Client.reaches (c : Client Nat) (instanceName : String) (i : Nat) : Bool :=
  match c.transport instanceName with
  | .ok j => j == i
  | .error _ => false

namespace Cluster

variable {cl : Cluster} {i j : Nat} {name : String}

theorem tableMeta?_scan (instanceName : String) (r : GetRange) (token : Option Bytes) :
    (Network.ofServers.scan j instanceName r token cl).2.tableMeta? i name =
      cl.tableMeta? i name :=
  tableMeta?_ask (·.scan instanceName r token) fun _ v => by rw [v.store_scan]

theorem tableMeta?_send_of_ne (h : j ≠ i) (d : Delivery) :
    (Network.ofServers.send j d cl).2.tableMeta? i name = cl.tableMeta? i name := by
  cases d with
  | request instanceName r => exact tableMeta?_ask _ fun hj => absurd hj h
  | scan instanceName r token => exact tableMeta?_scan instanceName r token

theorem Ready.send (h : cl.Ready i name) (d : Delivery) :
    (Network.ofServers.send j d cl).2.Ready i name := by
  cases d with
  | request instanceName r => exact h.ask fun v => v.failNext_submit instanceName r
  | scan instanceName r token => exact h.ask fun v => v.failNext_scan instanceName r token

end Cluster

namespace Invocation

theorem settlement?_of_scan {inv : Invocation} {instanceName other : String}
    {r : GetRange} {token : Option Bytes} (h : inv.Asks instanceName (.scan other r token))
    (name : String) : inv.settlement? name = none := by
  cases inv with
  | createTable | updateTable =>
    obtain ⟨q, hq, -⟩ := h
    cases hq
  | deleteTable => cases h
  | _ => rfl

/-- What a delivery to a server does to the settings of a table there. -/
theorem settles_send {inv : Invocation} {instanceName : String} {d : Delivery}
    (h : inv.Asks instanceName d) (cl : Cluster) (i : Nat) (name : String) :
    Settles name (cl.tableMeta? i name) ((Network.ofServers.send i d cl).2.tableMeta? i name)
      (if (inv.operation.accept (Network.ofServers.send i d cl).1).isOk then inv.settlement? name
        else none) := by
  cases d with
  | scan other r token =>
    rw [settlement?_of_scan h, ite_self]
    change Settles name _ ((Network.ofServers.scan i other r token cl).2.tableMeta? i name) none
    rw [Cluster.tableMeta?_scan]
    exact .kept _
  | request other r =>
    change Settles name _ ((Network.ofServers.submit i other r cl).2.tableMeta? i name)
      (if (inv.operation.accept (Network.ofServers.submit i other r cl).1).isOk then
        inv.settlement? name else none)
    cases hv : cl[i]? with
    | none =>
      simp only [Network.ofServers, Cluster.ask, hv]
      exact .kept _
    | some v =>
      obtain ⟨hanswer, hafter⟩ := Cluster.submit_of_getElem? hv other r
      rw [hanswer, Cluster.tableMeta?_of_getElem? hafter, Cluster.tableMeta?_of_getElem? hv]
      obtain ⟨err, herr, hstore⟩ | ⟨hans, hstore⟩ := v.submit_cases other r
      · -- It was told to fail, and its store is not asked.
        rw [herr, hstore]
        exact .kept _
      · rw [hans, hstore]
        exact settles_answer h v.store name

/-- **What a call does to settings.**  The settings of a table of a server change as the call says
if it is one about this table, at an instance of the server, and succeeds. Otherwise they do not
change at all. -/
theorem settles_perform (inv : Invocation) (c : Client Nat) (instanceName : String) (cl : Cluster)
    (i : Nat) (name : String) :
    Settles name (cl.tableMeta? i name)
      ((inv.perform c .ofServers instanceName cl).2.tableMeta? i name)
      (if c.reaches instanceName i && (inv.perform c .ofServers instanceName cl).1.isOk then
        inv.settlement? name else none) := by
  rw [perform_eq]
  cases hd : inv.delivery instanceName with
  | error e =>
    simp only [Except.isOk, Except.toBool, Bool.and_false, Bool.false_eq_true, if_false]
    exact .kept _
  | ok d =>
    cases hj : c.transport instanceName with
    | error e =>
      simp only [Except.isOk, Except.toBool, Bool.and_false, Bool.false_eq_true, if_false]
      exact .kept _
    | ok j =>
      have hreaches : c.reaches instanceName i = (j == i) := by rw [Client.reaches, hj]
      by_cases hi : j = i
      · subst hi
        simp only [hreaches, beq_self_eq_true, Bool.true_and]
        exact settles_send (asks_of_delivery hd) cl j name
      · simp only [hreaches, beq_false_of_ne hi, Bool.false_and, Bool.false_eq_true, if_false]
        change Settles name _ ((Network.ofServers.send j d cl).2.tableMeta? i name) none
        rw [Cluster.tableMeta?_send_of_ne hi]
        exact .kept _

/-- A server describes a table with its settings. -/
theorem perform_describeTable {cl : Cluster} {i : Nat} {name : String} (hready : cl.Ready i name)
    {m : TableMeta} (hm : cl.tableMeta? i name = some m) {c : Client Nat} {instanceName : String}
    (hc : c.transport instanceName = .ok i) :
    ((describeTable name).perform c .ofServers instanceName cl).1 =
      .ok (.tableDescription ⟨m⟩) := by
  obtain ⟨v, hv, hmeta⟩ := Option.bind_eq_some_iff.1 hm
  obtain ⟨t, ht, rfl⟩ := Option.map_eq_some_iff.1 hmeta
  have hf : v.failNext = none := hready v hv (by rw [hmeta]; exact Option.some_ne_none _)
  have hdelivery : (describeTable name).delivery instanceName =
    .ok (.request instanceName (.describeTable ⟨name⟩)) := rfl
  obtain ⟨hanswer, -⟩ := Cluster.submit_of_getElem? hv instanceName (.describeTable ⟨name⟩)
  have hdescribe : (v.submit instanceName (.describeTable ⟨name⟩)).1 =
      .ok (.tableDescription ⟨t.tableMeta⟩) := by
    unfold Server.submit Server.receive
    rw [hf]
    change (v.store.describeTable ⟨name⟩).map Response.tableDescription = _
    rw [Store.describeTable, Tables.find_eq_ok.2 ht]
    rfl
  rw [perform_eq, hdelivery, hc]
  change (describeTable name).operation.accept (Network.ofServers.submit i instanceName
    (.describeTable ⟨name⟩) cl).1 = _
  rw [hanswer, hdescribe]
  rfl

end Invocation

/-! ### Runs of calls -/

/-- An errand that was done, and what came of it. -/
structure Finished where
  /-- Who did it, -/
  client : Client Nat
  /-- at which instance. -/
  instanceName : String
  /-- What was done. -/
  errand : Errand
  /-- What came of it. -/
  result : Except Error Response

namespace Finished

/-- What was done to the settings of a table of a server: nothing if the call failed. -/
def settlement? (f : Finished) (i : Nat) (name : String) : Option Settlement :=
  match f.errand with
  | .call inv =>
    if f.client.reaches f.instanceName i && f.result.isOk then inv.settlement? name else none
  | .scanAll .. => none

/-- The errand was done in a cluster, and left it as another. -/
def Turns (f : Finished) (cl cl' : Cluster) : Prop :=
  ∃ pages, f.errand.perform f.client .ofServers pages f.instanceName cl = some (f.result, cl')

theorem Turns.ready {f : Finished} {cl cl' : Cluster} (h : f.Turns cl cl') {i : Nat}
    {name : String} (hready : cl.Ready i name) : cl'.Ready i name := by
  obtain ⟨pages, h⟩ := h
  exact Errand.perform_keeps (P := fun cl => cl.Ready i name) (fun _ d _ hcl => hcl.send d) h
    hready

theorem Turns.settles {f : Finished} {cl cl' : Cluster} (h : f.Turns cl cl') (i : Nat)
    (name : String) :
    Settles name (cl.tableMeta? i name) (cl'.tableMeta? i name) (f.settlement? i name) := by
  obtain ⟨client, instanceName, errand, result⟩ := f
  obtain ⟨pages, h⟩ := h
  cases errand with
  | scanAll table start stop options =>
    obtain ⟨⟨page, cl₁⟩, hscan, heq⟩ := Option.map_eq_some_iff.1 h
    obtain rfl : cl₁ = cl' := (Prod.mk.inj heq).2
    -- The scan only reads.
    have hkept : cl₁.tableMeta? i name = cl.tableMeta? i name :=
      Client.scanAll_keeps (P := fun cl₁ => cl₁.tableMeta? i name = cl.tableMeta? i name)
        (fun _ other r token _ hcl => (Cluster.tableMeta?_scan other r token).trans hcl) hscan rfl
    rw [hkept]
    exact .kept _
  | call inv =>
    have hperform : inv.perform client .ofServers instanceName cl = (result, cl') :=
      Option.some.inj h
    have hsettles := inv.settles_perform client instanceName cl i name
    rw [hperform] at hsettles
    exact hsettles

end Finished

/-- Errands were done one after the other. -/
inductive Leads (cl : Cluster) : List Finished → Cluster → Prop
  /-- Nothing was done. -/
  | start : Leads cl [] cl
  /-- One more errand was done. -/
  | concat {log : List Finished} {cl₁ cl₂ : Cluster} {f : Finished} (h : Leads cl log cl₁)
      (hf : f.Turns cl₁ cl₂) : Leads cl (log ++ [f]) cl₂

namespace Leads

variable {cl cl' : Cluster} {log : List Finished} {i : Nat} {name : String}

theorem ready (h : Leads cl log cl') (hready : cl.Ready i name) : cl'.Ready i name := by
  induction h with
  | start => exact hready
  | concat h hf ih => exact hf.ready ih

/-- The settings are reported as they were made and updated since. -/
theorem reports (h : Leads cl log cl') (hnew : cl.tableMeta? i name = none) :
    ∀ m, cl'.tableMeta? i name = some m → ∃ earlier keys options updates,
      log.filterMap (·.settlement? i name) =
        earlier ++ .created keys options :: updates.map .updated ∧
      m.Reports name keys options updates := by
  induction h with
  | start =>
    intro m hm
    rw [hnew] at hm
    cases hm
  | @concat log cl₁ cl₂ f h hf ih =>
    intro m hm
    have hsettles := hf.settles i name
    rw [List.filterMap_append]
    rw [hm] at hsettles
    -- The table is still there, so the last errand did not delete it.
    generalize cl₁.tableMeta? i name = before at hsettles ih
    generalize hst : f.settlement? i name = st at hsettles
    cases hsettles with
    | kept =>
      obtain ⟨earlier, keys, options, updates, hlog, hreports⟩ := ih m rfl
      refine ⟨earlier, keys, options, updates, ?_, hreports⟩
      simp [hst, hlog]
    | @created keys options r hmerged =>
      refine ⟨log.filterMap (·.settlement? i name), keys, options, [], ?_,
        CreateTable.reports hmerged⟩
      simp [hst]
    | @updated m₀ options' r hmerged =>
      obtain ⟨earlier, keys, options, updates, hlog, hreports⟩ := ih m₀ rfl
      refine ⟨earlier, keys, options, updates ++ [options'], ?_, hreports.updated hmerged⟩
      simp [hst, hlog]

/-- **Tables are described as they were settled.**  Clients do errands one after the other at a
server that does not have a table at first. If the table is there then, the last of the calls that
succeeded in creating or deleting it has created it, and the calls that succeeded in updating it
since have changed its settings; `describe_table` returns them, for every client. The keys, the
defined columns and the indexes are those that it was created with. For each other setting the last
value counts that was given for it in the creation or in an update. Nothing but these calls changes
any of this. -/
theorem describe_exact (h : Leads cl log cl') (hnew : cl.tableMeta? i name = none) :
    (∀ (f : Finished) (cl'' : Cluster), f.Turns cl' cl'' → f.settlement? i name = none →
      cl''.tableMeta? i name = cl'.tableMeta? i name) ∧
    ∀ m, cl'.tableMeta? i name = some m →
      (∃ earlier keys options updates,
        log.filterMap (·.settlement? i name) =
          earlier ++ .created keys options :: updates.map .updated ∧
        m.Reports name keys options updates) ∧
      ∀ (c : Client Nat) (instanceName : String), c.transport instanceName = .ok i →
        ((Invocation.describeTable name).perform c .ofServers instanceName cl').1 =
          .ok (.tableDescription ⟨m⟩) := by
  refine ⟨fun f cl'' hf hnone => ?_, fun m hm => ⟨h.reports hnew m hm, fun c instanceName hc => ?_⟩⟩
  · have hsettles := hf.settles i name
    rw [hnone] at hsettles
    generalize cl'.tableMeta? i name = before at hsettles ⊢
    generalize cl''.tableMeta? i name = after at hsettles ⊢
    cases hsettles
    rfl
  · have hready : cl'.Ready i name := h.ready (.of_missing hnew)
    exact Invocation.perform_describeTable hready hm hc

/-- One more call was made. -/
theorem call (h : Leads cl log cl') (inv : Invocation) (c : Client Nat) (instanceName : String) :
    Leads cl (log ++ [⟨c, instanceName, .call inv, (inv.perform c .ofServers instanceName cl').1⟩])
      (inv.perform c .ofServers instanceName cl').2 :=
  h.concat ⟨0, rfl⟩

/-- The options of a new table, some of them given twice. -/
def initialOptions : OptionList :=
  ⟨[("time_to_live", .integer 5), ("max_versions", .integer 3), ("time_to_live", .absent),
    ("max_versions", .integer 2), ("reserved_throughput_read", .integer 1),
    ("allow_update", .bool false),
    ("stream_spec", .map [("expiration_time", .integer 24), ("is_enabled", .bool true)])]⟩

/-- The options of an update, some of them without a value. -/
def laterOptions : OptionList :=
  ⟨[("max_versions", .absent), ("reserved_throughput_read", .integer 4), ("allow_update", .absent),
    ("stream_spec", .map [("is_enabled", .bool false)])]⟩

/-- A table is created and updated. What an update mentions without a value stays, and so does
everything if the table is to be created again; a change stream is replaced as a whole. -/
theorem describe_exact_updated :
    ∃ log cl' m, Leads [.new "" none] log cl' ∧
      ((Invocation.describeTable "t").perform Client.ofOne .ofServers "main" cl').1 =
        .ok (.tableDescription ⟨m⟩) ∧
      m.Reports "t" [] initialOptions [laterOptions] ∧
      (m.reserved.read, m.options.timeToLive, m.options.maxVersions, m.options.deviation) =
        (4, some 5, some 2, some 86400) ∧
      (m.options.allowUpdate, m.stream) = (some false, some ⟨false, none⟩) ∧
      ((Invocation.createTable "t" [] {}).perform Client.ofOne .ofServers "main" cl').2.tableMeta?
        0 "t" = some m := by
  have h := ((start : Leads [.new "" none] [] _).call (.createTable "t" [] initialOptions)
    Client.ofOne "main").call (.updateTable "t" laterOptions) Client.ofOne "main"
  have hnew : Cluster.tableMeta? [.new "" none] 0 "t" = none := rfl
  obtain ⟨hkept, hdescribed⟩ := describe_exact h hnew
  obtain ⟨⟨earlier, keys, options, updates, hlog, hreports⟩, hdescribe⟩ := hdescribed _ rfl
  have hsettled : [Settlement.created [] initialOptions, .updated laterOptions] =
    earlier ++ .created keys options :: updates.map .updated := hlog
  refine ⟨_, _, _, h, hdescribe _ _ rfl, ?_, rfl, rfl, ?_⟩
  · -- The only creation is the first call.
    cases earlier with
    | nil =>
      obtain ⟨hcreated, hupdates⟩ := List.cons.inj hsettled
      obtain ⟨rfl, rfl⟩ := Settlement.created.inj hcreated
      cases updates with
      | nil => cases hupdates
      | cons os updates =>
        obtain ⟨hupdated, hnil⟩ := List.cons.inj hupdates
        obtain rfl := Settlement.updated.inj hupdated
        obtain rfl := List.map_eq_nil_iff.1 hnil.symm
        exact hreports
    | cons st earlier =>
      exact absurd (List.cons.inj hsettled).2 (by cases earlier <;> simp)
  · have hrefused := hkept ⟨Client.ofOne, "main", .call (.createTable "t" [] {}),
      .error (.service (.objectAlreadyExist "table t already exists"))⟩ _ ⟨0, rfl⟩ rfl
    exact hrefused

end Leads

end WideColumn
