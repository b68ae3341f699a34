import Mathlib.Data.List.Induction
import WideColumn.Client.Scan
import WideColumn.Client.Script
import WideColumn.Proofs.Fields
import WideColumn.Proofs.SortedMap

/-!
# Routing of calls

A call to an instance is one request, delivered over the transport that serves the instance, and
what comes back is the answer if it is of the kind that the operation calls for.

* `Client.transport_ofHistory` : the transport that serves an instance is the one of the last
  registration of its name, unless the name was deregistered since;
* `Invocation` : the calls of a client with their arguments;
* `Invocation.Asks`, `Invocation.Refused` : the request that a call makes of its arguments, and why
  there may be none;
* `Invocation.perform_eq` : a call delivers its request and takes the reply;
* `Invocation.yields_routed` : the same of every client, whatever was registered and deregistered.
-/

namespace WideColumn

/-! ### Registrations -/

/-- A change of the instances that a client knows. -/
inductive Registration (τ : Type) where
  /-- An instance is registered with its transport. -/
  | register (config : InstanceConfig) (transport : τ)
  /-- An instance is deregistered. -/
  | deregister (name : String)

namespace Registration

variable {τ : Type}

/-- The instance concerned. -/
def name : Registration τ → String
  | register config _ => config.name
  | deregister name => name

/-- Make the change. -/
def apply (c : Client τ) : Registration τ → Client τ
  | register config transport => (c.register config transport).2
  | deregister name => (c.deregister name).2

/-- `t` is the transport of the last registration of an instance, which was not deregistered
since. -/
def Serves (history : List (Registration τ)) (name : String) (t : τ) : Prop :=
  ∃ before config after, history = before ++ register config t :: after ∧ config.name = name ∧
    ∀ r ∈ after, r.name ≠ name

/-- The last change decides if it concerns the instance. -/
theorem serves_concat {history : List (Registration τ)} {r : Registration τ} {name : String}
    {t : τ} : Serves (history ++ [r]) name t ↔
      (∃ config, r = register config t ∧ config.name = name) ∨
        r.name ≠ name ∧ Serves history name t := by
  constructor
  · rintro ⟨before, config, after, heq, hname, hafter⟩
    rcases List.eq_nil_or_concat after with rfl | ⟨after, last, rfl⟩
    · obtain ⟨-, hlast⟩ := List.append_inj' heq rfl
      exact .inl ⟨config, (List.cons.inj hlast).1, hname⟩
    · rw [List.concat_eq_append, ← List.cons_append, ← List.append_assoc] at heq
      obtain ⟨rfl, hlast⟩ := List.append_inj' heq rfl
      obtain rfl := (List.cons.inj hlast).1
      exact .inr ⟨hafter r (by simp), before, config, after, rfl, hname,
        fun r' hr' => hafter r' (by simp [hr'])⟩
  · rintro (⟨config, rfl, hname⟩ | ⟨hr, before, config, after, rfl, hname, hafter⟩)
    · exact ⟨history, config, [], rfl, hname, nofun⟩
    · refine ⟨before, config, after ++ [r], by simp, hname, fun r' hr' => ?_⟩
      rcases List.mem_append.1 hr' with hr' | hr'
      · exact hafter r' hr'
      · rw [List.mem_singleton.1 hr']
        exact hr

end Registration

namespace Client

variable {τ : Type}

/-- The client after a history of registrations. -/
def ofHistory (config : ClientConfig) (history : List (Registration τ)) : Client τ :=
  history.foldl Registration.apply { config }

theorem transport_eq_ok {c : Client τ} {name : String} {t : τ} :
    c.transport name = .ok t ↔ ∃ b, c.bindings.get? name = some b ∧ b.transport = t := by
  unfold transport binding?
  cases c.bindings.get? name <;> simp

theorem transport_apply {c : Client τ} {r : Registration τ} {name : String} {t : τ} :
    (r.apply c).transport name = .ok t ↔
      (∃ config, r = .register config t ∧ config.name = name) ∨
        r.name ≠ name ∧ c.transport name = .ok t := by
  rw [transport_eq_ok, transport_eq_ok]
  by_cases h : r.name = name
  · obtain rfl := h
    cases r with
    | register config t' => simp [Registration.apply, register, Registration.name]
    | deregister name => simp [Registration.apply, deregister, Registration.name]
  · have hget : (r.apply c).bindings.get? name = c.bindings.get? name := by
      cases r with
      | register config t' => exact SortedMap.get?_insert_of_ne _ _ (Ne.symm h)
      | deregister n => exact SortedMap.get?_erase_of_ne _ (Ne.symm h)
    rw [hget]
    refine ⟨fun hb => .inr ⟨h, hb⟩, ?_⟩
    rintro (⟨config, rfl, hname⟩ | ⟨-, hb⟩)
    · exact (h hname).elim
    · exact hb

/-- An instance is served by the transport that was registered last for it. -/
theorem transport_ofHistory {config : ClientConfig} {history : List (Registration τ)}
    {name : String} {t : τ} :
    (ofHistory config history).transport name = .ok t ↔ Registration.Serves history name t := by
  induction history using List.reverseRecOn with
  | nil =>
    refine iff_of_false nofun ?_
    rintro ⟨before, config, after, h, -⟩
    cases before <;> cases h
  | append_singleton history r ih =>
    rw [ofHistory, List.foldl_concat, transport_apply, Registration.serves_concat, ← ih]
    rfl

theorem transport_eq_error {c : Client τ} {name : String} (h : ∀ t, c.transport name ≠ .ok t) :
    c.transport name = .error (.unknownInstance name) := by
  unfold transport at h ⊢
  cases hb : c.binding? name with
  | none => rfl
  | some b =>
    rw [hb] at h
    exact (h b.transport rfl).elim

end Client

/-! ### Deliveries -/

/-- The operation that is asked for. -/
def Delivery.operation : Delivery → Operation
  | request _ r => r.operation
  | scan .. => .getRange

namespace Network

variable {τ σ : Type}

/-- Send a delivery over a transport. -/
def send (net : Network τ σ) (t : τ) (d : Delivery) (s : σ) :
    Except ServiceError Response × σ :=
  match d with
  | .request instanceName r => net.submit t instanceName r s
  | .scan instanceName r token => (net.scan t instanceName r token s).map (·.map .rangePage) id

/-- The network that notes what is delivered over which transport. -/
def noting (net : Network τ σ) : Network τ (σ × List (τ × Delivery)) where
  submit t instanceName r s :=
    (net.submit t instanceName r s.1).map id fun s' => (s', s.2 ++ [(t, .request instanceName r)])
  scan t instanceName r token s :=
    (net.scan t instanceName r token s.1).map id
      fun s' => (s', s.2 ++ [(t, .scan instanceName r token)])

theorem send_noting (net : Network τ σ) (t : τ) (d : Delivery) (s : σ)
    (noted : List (τ × Delivery)) :
    net.noting.send t d (s, noted) =
      ((net.send t d s).1, (net.send t d s).2, noted ++ [(t, d)]) := by
  cases d <;> rfl

end Network

namespace Operation

/-- The kind of response that an operation calls for. The writes of single rows share one. -/
def replyKind : Operation → String
  | putRow | updateRow | deleteRow => "WriteRow"
  | op => op.name

/-- What becomes of the reply to an operation: a response of the right kind is the answer. -/
def accept (op : Operation) : Except ServiceError Response → Except Error Response
  | .error e => .error (.service e)
  | .ok response =>
    if response.kind = op.replyKind then .ok response
    else .error (.unexpectedResponse op response.kind)

end Operation

/-! ### Calls with their arguments -/

/-- A call of a client, scans of whole ranges apart. -/
inductive Invocation where
  /-- Create a table. -/
  | createTable (table : String) (keys : List KeySchema) (options : OptionList)
  /-- Delete a table. -/
  | deleteTable (table : String)
  /-- List the tables. -/
  | listTables
  /-- Change the settings of a table. -/
  | updateTable (table : String) (options : OptionList)
  /-- Describe a table. -/
  | describeTable (table : String)
  /-- Read a row. -/
  | getRow (table : String) (key : Key) (options : OptionList)
  /-- Put a row. -/
  | putRow (table : String) (key : Key) (cells : List Cell) (options : OptionList)
  /-- Update columns of a row. -/
  | updateRow (table : String) (key : Key) (options : OptionList)
  /-- Delete a row. -/
  | deleteRow (table : String) (key : Key) (options : OptionList)
  /-- Read rows of several tables. -/
  | batchGet (tables : List RowsQuery)
  /-- Write rows of several tables. -/
  | batchWrite (tables : List TableWrites) (options : OptionList)
  /-- Scan a page of a range. -/
  | getRange (table : String) (start : ScanStart) (stop : Key) (options : OptionList)
  /-- Search a table through an index. -/
  | search (table index : String) (options : OptionList)
  /-- Open a transaction on a table. -/
  | startTransaction (table : String) (key : KeyColumn)
  /-- Commit a transaction. -/
  | commitTransaction (transaction : String)
  /-- Abort a transaction. -/
  | abortTransaction (transaction : String)

/-- How a call is made. -/
inductive Plan : Type 1 where
  /-- As a call of the client, whose answers are responses of one kind. -/
  | run {α : Type} (call : Call α) (wrap : α → Response)
  /-- As a scan. -/
  | scan (table : String) (start : ScanStart) (stop : Key) (options : OptionList)

/-- How a call is to be made for an operation: its request asks for the operation, and it takes the
responses of the kind that the operation calls for. -/
def Plan.Fits (op : Operation) : Plan → Prop
  | .run call wrap => (∀ r, call.request = .ok r → r.operation = op) ∧
      ∀ response, (call.answer? response).map wrap =
        if response.kind = op.replyKind then some response else none
  | .scan .. => op = .getRange

namespace Invocation

variable {τ σ : Type}

/-- The operation called for. -/
def operation : Invocation → Operation
  | createTable .. => .createTable
  | deleteTable _ => .deleteTable
  | listTables => .listTable
  | updateTable .. => .updateTable
  | describeTable _ => .describeTable
  | getRow .. => .getRow
  | putRow .. => .putRow
  | updateRow .. => .updateRow
  | deleteRow .. => .deleteRow
  | batchGet _ => .batchGetRow
  | batchWrite .. => .batchWriteRow
  | getRange .. => .getRange
  | search .. => .search
  | startTransaction .. => .startTransaction
  | commitTransaction _ => .commitTransaction
  | abortTransaction _ => .abortTransaction

/-- How the call is made. -/
def plan : Invocation → Plan
  | createTable table keys options => .run (.createTable table keys options) .tableCreated
  | deleteTable table => .run (.deleteTable table) .tableDeleted
  | listTables => .run .listTables .tableList
  | updateTable table options => .run (.updateTable table options) .tableUpdated
  | describeTable table => .run (.describeTable table) .tableDescription
  | getRow table key options => .run (.getRow table key options) .rowRead
  | putRow table key cells options => .run (.putRow table key cells options) .rowWritten
  | updateRow table key options => .run (.updateRow table key options) .rowWritten
  | deleteRow table key options => .run (.deleteRow table key options) .rowWritten
  | batchGet tables => .run (.batchGet tables) .batchRead
  | batchWrite tables options => .run (.batchWrite tables options) .batchWritten
  | getRange table start stop options => .scan table start stop options
  | search table index options => .run (.search table index options) .searchHits
  | startTransaction table key => .run (.startTransaction table key) .transactionStarted
  | commitTransaction transaction =>
    .run (.commitTransaction transaction) .transactionCommitted
  | abortTransaction transaction => .run (.abortTransaction transaction) .transactionAborted

/-- Make the call to an instance. -/
def perform (inv : Invocation) (c : Client τ) (net : Network τ σ) (instanceName : String) (s : σ) :
    Except Error Response × σ :=
  match inv.plan with
  | .run call wrap => (c.run net instanceName call s).map (·.map wrap) id
  | .scan table start stop options =>
    (c.scan net instanceName table start stop options s).map (·.map .rangePage) id

/-- What the call delivers, or why it delivers nothing. -/
def delivery (inv : Invocation) (instanceName : String) : Except Error Delivery :=
  match inv.plan with
  | .run call _ => call.request.map (.request instanceName)
  | .scan table start stop options =>
    (merge { table, stop } options : Except Error GetRange).map fun r =>
      match start with
      | .key k => .scan instanceName { r with start := k } none
      | .token bytes => .scan instanceName { r with token := some bytes } (some bytes)

end Invocation

/-! ### Replies -/

theorem Plan.accept_reply {α : Type} {call : Call α} {wrap : α → Response} {op : Operation}
    (h : (Plan.run call wrap).Fits op) (reply : Except ServiceError Response) :
    (Client.reply call op reply).map wrap = op.accept reply := by
  cases reply with
  | error e => rfl
  | ok response =>
    have htakes := h.2 response
    unfold Client.reply Operation.accept
    dsimp only
    by_cases hkind : response.kind = op.replyKind
    · rw [if_pos hkind] at htakes ⊢
      obtain ⟨a, hanswer, ha⟩ := Option.map_eq_some_iff.1 htakes
      rw [hanswer]
      exact congrArg Except.ok ha
    · rw [if_neg hkind] at htakes ⊢
      rw [Option.map_eq_none_iff.1 htakes]
      rfl

/-- Every page is of the kind that a scan calls for. -/
theorem Client.page_map {τ σ : Type} (c : Client τ) (net : Network τ σ) (instanceName : String)
    (r : GetRange) (token : Option Bytes) (s : σ) :
    (c.page net instanceName r token s).map (·.map .rangePage) id =
      match c.transport instanceName with
      | .error e => (.error e, s)
      | .ok t => (net.send t (.scan instanceName r token) s).map (Operation.accept .getRange) id
    := by
  unfold page
  cases c.transport instanceName with
  | error e => rfl
  | ok t =>
    simp only [Network.send]
    generalize net.scan t instanceName r token s = answer
    obtain ⟨page, s'⟩ := answer
    cases page <;> rfl

namespace Invocation

variable {τ σ : Type}

theorem plan_fits (inv : Invocation) : inv.plan.Fits inv.operation := by
  cases inv with
  | getRange => rfl
  | deleteTable | listTables | describeTable | batchGet | startTransaction | commitTransaction
  | abortTransaction =>
    refine ⟨fun r h => ?_, fun response => by cases response <;> rfl⟩
    cases h
    rfl
  | createTable | updateTable | getRow | putRow | updateRow | deleteRow | batchWrite | search =>
    refine ⟨fun r h => ?_, fun response => by cases response <;> rfl⟩
    obtain ⟨q, -, rfl⟩ := map_eq_ok.1 h
    rfl

/-- A call delivers its request over the transport of the instance and takes the reply. Without
request or transport it delivers nothing. -/
theorem perform_eq (inv : Invocation) (c : Client τ) (net : Network τ σ) (instanceName : String)
    (s : σ) :
    inv.perform c net instanceName s =
      match inv.delivery instanceName, c.transport instanceName with
      | .error e, _ => (.error e, s)
      | .ok _, .error e => (.error e, s)
      | .ok d, .ok t => (net.send t d s).map inv.operation.accept id := by
  have hfits := inv.plan_fits
  unfold perform delivery
  generalize inv.plan = plan at hfits ⊢
  cases plan with
  | run call wrap =>
    dsimp only
    unfold Client.run
    cases hr : call.request with
    | error e => rfl
    | ok r =>
      cases c.transport instanceName with
      | error e => rfl
      | ok t =>
        refine Prod.ext ?_ rfl
        change ((Client.reply call r.operation _).map wrap) = _
        rw [hfits.1 r hr]
        exact Plan.accept_reply hfits _
  | scan table start stop options =>
    replace hfits : inv.operation = .getRange := hfits
    dsimp only
    unfold Client.scan
    rw [hfits]
    cases (merge { table, stop } options : Except Error GetRange) with
    | error e => rfl
    | ok r =>
      cases start with
      | key k =>
        refine (c.page_map net instanceName _ none s).trans ?_
        cases c.transport instanceName <;> rfl
      | token bytes =>
        refine (c.page_map net instanceName _ (some bytes) s).trans ?_
        cases c.transport instanceName <;> rfl

/-! ### What a call asks for -/

/-- Among the options is one that cannot be read into its field of a record. The first of them is
the error. -/
def Faulty (ρ : Type) [Configurable ρ] [Described ρ] (options : OptionList) (e : Error) : Prop :=
  options.entries.findSome? (Described.fault? ρ) = some e

/-- Why there is no request: an option that cannot be read, or operands that make no update. -/
def Refused : Invocation → Error → Prop
  | createTable _ _ options, e => Faulty CreateTable options e
  | updateTable _ options, e => Faulty UpdateTable options e
  | getRow _ _ options, e => Faulty GetRow options e
  | putRow _ _ _ options, e => Faulty PutRow options e
  | updateRow _ _ options, e => Faulty UpdateRow options e ∨
      (∀ e', ¬ Faulty UpdateRow options e') ∧ UpdateSet.ofOptions options = .error e
  | deleteRow _ _ options, e => Faulty DeleteRow options e
  | batchWrite _ options, e => Faulty BatchWrite options e
  | getRange _ _ _ options, e => Faulty GetRange options e
  | search _ _ options, e => Faulty Search options e
  | deleteTable _, _ | listTables, _ | describeTable _, _ | batchGet _, _ | startTransaction .., _
  | commitTransaction _, _ | abortTransaction _, _ => False

/-- What is delivered to an instance: the request of the operation with the arguments of the call,
into which the options are merged. -/
def Asks (instanceName : String) (d : Delivery) : Invocation → Prop
  | createTable table keys options => ∃ r : CreateTable,
      d = .request instanceName (.createTable r) ∧ r.table = table ∧ r.keys = keys ∧
      Merged { table, keys } options r
  | deleteTable table => d = .request instanceName (.deleteTable { table })
  | listTables => d = .request instanceName (.listTables {})
  | updateTable table options => ∃ r : UpdateTable,
      d = .request instanceName (.updateTable r) ∧ r.table = table ∧ Merged { table } options r
  | describeTable table => d = .request instanceName (.describeTable { table })
  | getRow table key options => ∃ r : GetRow,
      d = .request instanceName (.getRow r) ∧ r.table = table ∧ r.key = key ∧
      Merged { table, key } options r
  | putRow table key cells options => ∃ r : PutRow,
      d = .request instanceName (.putRow r) ∧ r.table = table ∧ r.key = key ∧ r.cells = cells ∧
      Merged { table, key, cells } options r
  | updateRow table key options => ∃ r : UpdateRow,
      d = .request instanceName (.updateRow r) ∧ r.table = table ∧ r.key = key ∧
      UpdateSet.ofOptions options = .ok r.updates ∧
      Merged { table, key, updates := r.updates } options r
  | deleteRow table key options => ∃ r : DeleteRow,
      d = .request instanceName (.deleteRow r) ∧ r.table = table ∧ r.key = key ∧
      Merged { table, key } options r
  | batchGet tables => d = .request instanceName (.batchGet { tables })
  | batchWrite tables options => ∃ r : BatchWrite,
      d = .request instanceName (.batchWrite r) ∧ r.tables = tables ∧ Merged { tables } options r
  | getRange table start stop options => ∃ r : GetRange, r.table = table ∧ r.stop = stop ∧
      match start with
      | .key k => d = .scan instanceName r none ∧ r.start = k ∧
          Merged { table, start := k, stop } options r
      | .token bytes => d = .scan instanceName r (some bytes) ∧ r.token = some bytes ∧
          Merged { table, stop, token := some bytes } options r
  | search table index options => ∃ r : Search,
      d = .request instanceName (.search r) ∧ r.table = table ∧ r.index = index ∧
      Merged { table, index } options r
  | startTransaction table key => d = .request instanceName (.startTransaction { table, key })
  | commitTransaction transaction =>
    d = .request instanceName (.commitTransaction { transaction })
  | abortTransaction transaction => d = .request instanceName (.abortTransaction { transaction })

section Merge

variable {ρ : Type} [Configurable ρ] [Described ρ] {r : ρ} {options : OptionList}
  {make : ρ → Request} {instanceName : String}

theorem exists_merge_iff : (∃ r', merge r options = .ok r') ↔ ∀ e, ¬ Faulty ρ options e := by
  cases h : merge r options with
  | error e =>
    refine iff_of_false nofun fun hnone => ?_
    exact hnone e (merge_eq_error_iff.1 h)
  | ok r' =>
    refine iff_of_true ⟨r', rfl⟩ fun e he => ?_
    rw [merge_eq_error_iff.2 he] at h
    cases h

theorem merged_of_delivery {d : Delivery}
    (h : ((merge r options).map make).map (Delivery.request instanceName) = .ok d) :
    ∃ r', d = .request instanceName (make r') ∧ Merged r options r' := by
  obtain ⟨q, hq, rfl⟩ := map_eq_ok.1 h
  obtain ⟨r', hr', rfl⟩ := map_eq_ok.1 hq
  exact ⟨r', rfl, (merge_eq_ok_iff.1 hr').2⟩

theorem delivery_eq_error_of_merge {e : Error} :
    ((merge r options).map make).map (Delivery.request instanceName) = .error e ↔
      Faulty ρ options e := by
  rw [map_eq_error, map_eq_error, merge_eq_error_iff]
  rfl

end Merge

/-- A call delivers what it asks for. -/
theorem asks_of_delivery {inv : Invocation} {instanceName : String} {d : Delivery}
    (h : inv.delivery instanceName = .ok d) : inv.Asks instanceName d := by
  cases inv with
  | deleteTable | listTables | describeTable | batchGet | startTransaction | commitTransaction
  | abortTransaction => exact (Except.ok.inj h).symm
  | createTable table keys options =>
    obtain ⟨r, rfl, hr⟩ := merged_of_delivery h
    obtain ⟨htable, hkeys⟩ := Prod.mk.inj hr.rest
    exact ⟨r, rfl, htable, hkeys, hr⟩
  | updateTable table options =>
    obtain ⟨r, rfl, hr⟩ := merged_of_delivery h
    exact ⟨r, rfl, hr.rest, hr⟩
  | getRow table key options | deleteRow table key options =>
    obtain ⟨r, rfl, hr⟩ := merged_of_delivery h
    obtain ⟨htable, hkey⟩ := Prod.mk.inj hr.rest
    exact ⟨r, rfl, htable, hkey, hr⟩
  | putRow table key cells options =>
    obtain ⟨r, rfl, hr⟩ := merged_of_delivery h
    obtain ⟨htable, hrest⟩ := Prod.mk.inj hr.rest
    obtain ⟨hkey, hcells⟩ := Prod.mk.inj hrest
    exact ⟨r, rfl, htable, hkey, hcells, hr⟩
  | updateRow table key options =>
    obtain ⟨q, hq, rfl⟩ := map_eq_ok.1 h
    obtain ⟨r', hr', rfl⟩ := map_eq_ok.1 hq
    obtain ⟨r, hr, hr'⟩ := bind_eq_ok.1 hr'
    obtain ⟨updates, hupdates, hr'⟩ := bind_eq_ok.1 hr'
    obtain rfl := pure_eq_ok.1 hr'
    have hmerged := (merge_eq_ok_iff.1 (UpdateRow.merge_updates hr updates)).2
    obtain ⟨htable, hrest⟩ := Prod.mk.inj hmerged.rest
    exact ⟨_, rfl, htable, (Prod.mk.inj hrest).1, hupdates, hmerged⟩
  | batchWrite tables options =>
    obtain ⟨r, rfl, hr⟩ := merged_of_delivery h
    exact ⟨r, rfl, hr.rest, hr⟩
  | search table index options =>
    obtain ⟨r, rfl, hr⟩ := merged_of_delivery h
    obtain ⟨htable, hindex⟩ := Prod.mk.inj hr.rest
    exact ⟨r, rfl, htable, hindex, hr⟩
  | getRange table start stop options =>
    obtain ⟨r, hr, rfl⟩ := map_eq_ok.1 h
    obtain ⟨htable, -, hstop⟩ := GetRange.merge_bounds hr
    cases start with
    | key k =>
      exact ⟨{ r with start := k }, htable, hstop, rfl, rfl,
        (merge_eq_ok_iff.1 (GetRange.merge_start hr k)).2⟩
    | token bytes =>
      exact ⟨{ r with token := some bytes }, htable, hstop, rfl, rfl,
        (merge_eq_ok_iff.1 (GetRange.merge_token hr (some bytes))).2⟩

/-- A call delivers nothing exactly if it is refused. -/
theorem delivery_eq_error_iff {inv : Invocation} {instanceName : String} {e : Error} :
    inv.delivery instanceName = .error e ↔ inv.Refused e := by
  cases inv with
  | deleteTable | listTables | describeTable | batchGet | startTransaction | commitTransaction
  | abortTransaction => exact ⟨nofun, False.elim⟩
  | createTable | updateTable | getRow | putRow | deleteRow | batchWrite | search =>
    exact delivery_eq_error_of_merge
  | getRange table start stop options =>
    exact map_eq_error.trans merge_eq_error_iff
  | updateRow table key options =>
    refine map_eq_error.trans (map_eq_error.trans (bind_eq_error.trans ?_))
    refine or_congr merge_eq_error_iff ?_
    rw [← exists_merge_iff (r := ({ table, key } : UpdateRow))]
    constructor
    · rintro ⟨r, hr, hrest⟩
      refine ⟨⟨r, hr⟩, (bind_eq_error.1 hrest).resolve_right ?_⟩
      rintro ⟨updates, -, hpure⟩
      cases hpure
    · rintro ⟨⟨r, hr⟩, hupdates⟩
      exact ⟨r, hr, bind_eq_error.2 (.inl hupdates)⟩

theorem exists_delivery {inv : Invocation} (h : ∀ e, ¬ inv.Refused e) (instanceName : String) :
    ∃ d, inv.delivery instanceName = .ok d := by
  cases hd : inv.delivery instanceName with
  | error e => exact (h e (delivery_eq_error_iff.1 hd)).elim
  | ok d => exact ⟨d, rfl⟩

theorem operation_of_delivery {inv : Invocation} {instanceName : String} {d : Delivery}
    (h : inv.delivery instanceName = .ok d) : d.operation = inv.operation := by
  have hfits := inv.plan_fits
  unfold delivery at h
  generalize inv.plan = plan at hfits h
  cases plan with
  | run call wrap =>
    obtain ⟨r, hr, rfl⟩ := map_eq_ok.1 h
    exact hfits.1 r hr
  | scan table start stop options =>
    obtain ⟨r, -, rfl⟩ := map_eq_ok.1 h
    cases start <;> exact hfits.symm

/-! ### Calls to instances -/

/-- What comes of a call: its result, what becomes of what is behind the network, and what was
delivered, over which transports. -/
def Yields (inv : Invocation) (c : Client τ) (net : Network τ σ) (instanceName : String) (s : σ)
    (result : Except Error Response) (s' : σ) (delivered : List (τ × Delivery)) : Prop :=
  inv.perform c net instanceName s = (result, s') ∧
    ∀ noted, inv.perform c net.noting instanceName (s, noted) =
      (result, s', noted ++ delivered)

theorem yields_of_error {inv : Invocation} {c : Client τ} {instanceName : String} {e : Error}
    (h : inv.delivery instanceName = .error e) (net : Network τ σ) (s : σ) :
    inv.Yields c net instanceName s (.error e) s [] := by
  constructor
  · rw [perform_eq, h]
  · intro noted
    rw [perform_eq, h, List.append_nil]

theorem yields_of_unserved {inv : Invocation} {c : Client τ} {instanceName : String}
    {d : Delivery} {e : Error} (h : inv.delivery instanceName = .ok d)
    (ht : c.transport instanceName = .error e) (net : Network τ σ) (s : σ) :
    inv.Yields c net instanceName s (.error e) s [] := by
  constructor
  · rw [perform_eq, h, ht]
  · intro noted
    rw [perform_eq, h, ht, List.append_nil]

theorem yields_of_served {inv : Invocation} {c : Client τ} {instanceName : String}
    {d : Delivery} {t : τ} (h : inv.delivery instanceName = .ok d)
    (ht : c.transport instanceName = .ok t) (net : Network τ σ) (s : σ) :
    inv.Yields c net instanceName s (inv.operation.accept (net.send t d s).1)
      (net.send t d s).2 [(t, d)] := by
  constructor
  · rw [perform_eq, h, ht]
    rfl
  · intro noted
    rw [perform_eq, h, ht]
    dsimp only
    rw [Network.send_noting]
    rfl

/-- **Calls are routed by the registrations.**  Take any history of registrations and
deregistrations, any call to any instance, and any network behind the client. If the options are
refused, the call fails with that error, and otherwise, if no transport serves the instance, it
fails for that; nothing is delivered then. Otherwise exactly one request is delivered, over the
transport registered last for the instance. It asks for the operation with the arguments of the
call, and its reply decides: a response of the kind that the operation calls for is the answer, one
of another kind is an error that names the operation and the kind, and an error of the service is
that error. -/
theorem yields_routed (config : ClientConfig) (history : List (Registration τ))
    (net : Network τ σ) (inv : Invocation) (instanceName : String) (s : σ) :
    (∀ e, inv.Refused e →
      inv.Yields (.ofHistory config history) net instanceName s (.error e) s []) ∧
    ((∀ e, ¬ inv.Refused e) → (∀ t, ¬ Registration.Serves history instanceName t) →
      inv.Yields (.ofHistory config history) net instanceName s
        (.error (.unknownInstance instanceName)) s []) ∧
    ∀ t, (∀ e, ¬ inv.Refused e) → Registration.Serves history instanceName t →
      ∃ d, inv.Asks instanceName d ∧ d.operation = inv.operation ∧
        inv.Yields (.ofHistory config history) net instanceName s
          (inv.operation.accept (net.send t d s).1) (net.send t d s).2 [(t, d)] := by
  refine ⟨fun e he => ?_, fun haccepted hunserved => ?_, fun t haccepted hserves => ?_⟩
  · exact yields_of_error (delivery_eq_error_iff.2 he) net s
  · obtain ⟨d, hd⟩ := exists_delivery haccepted instanceName
    refine yields_of_unserved hd (Client.transport_eq_error fun t ht => ?_) net s
    exact hunserved t (Client.transport_ofHistory.1 ht)
  · obtain ⟨d, hd⟩ := exists_delivery haccepted instanceName
    exact ⟨d, asks_of_delivery hd, operation_of_delivery hd,
      yields_of_served hd (Client.transport_ofHistory.2 hserves) net s⟩

/-- A network whose transports answer whatever they are asked with a row that they did not find. -/
def misled : Network Nat Unit where
  submit _ _ _ s := (.ok (.rowRead {}), s)
  scan _ _ _ _ s := (.ok {}, s)

/-- An instance whose transport was replaced. -/
def replaced : List (Registration Nat) :=
  [.register ⟨"main", "", 1, 0, false⟩ 0, .register ⟨"main", "", 1, 0, false⟩ 1]

/-- A put goes to the transport that replaced the first, and is not content with what was read. At
an instance that was never registered it goes nowhere. -/
theorem yields_routed_put :
    (∃ d, (putRow "t" [] [] {}).Yields (.ofHistory {} replaced) misled "main" ()
      (.error (.unexpectedResponse .putRow "GetRow")) () [(1, d)]) ∧
    (putRow "t" [] [] {}).Yields (.ofHistory {} replaced) misled "other" ()
      (.error (.unknownInstance "other")) () [] := by
  have haccepted : ∀ e, ¬ (putRow "t" [] [] {}).Refused e := nofun
  constructor
  · obtain ⟨-, -, hserved⟩ := yields_routed {} replaced misled (putRow "t" [] [] {}) "main" ()
    obtain ⟨d, ⟨r, rfl, -⟩, -, hyields⟩ := hserved 1 haccepted
      ⟨[.register ⟨"main", "", 1, 0, false⟩ 0], _, [], rfl, rfl, nofun⟩
    exact ⟨_, hyields⟩
  · obtain ⟨-, hunserved, -⟩ := yields_routed {} replaced misled (putRow "t" [] [] {}) "other" ()
    refine hunserved haccepted fun t hserves => ?_
    obtain ⟨before, config, after, heq, hname, -⟩ := hserves
    have hmem : Registration.register config t ∈ replaced := by
      rw [heq]
      simp
    simp only [replaced, List.mem_cons, Registration.register.injEq, List.not_mem_nil,
      or_false] at hmem
    rcases hmem with ⟨rfl, -⟩ | ⟨rfl, -⟩ <;> simp at hname

end Invocation

end WideColumn
