import WideColumn.Proofs.JsonText
import WideColumn.Proofs.Records
import WideColumn.Proofs.Result
import WideColumn.Proofs.Scan

/-!
# Tokens

A page says where the next one starts, by a key and by a token. The token is the text of the key's
record, so both lead to the same place.

* `Key.ofToken_toToken` : a token stands for the key that it was made of;
* `Table.page_token` : a page is the same whether it starts at a key or at a token that stands for
  it;
* `Client.scan_resumed` : the same of pages asked for by a client.
-/

namespace WideColumn

/-! ### Keys as text -/

namespace Json

theorem areWhole_map {α : Type} (write : α → Json) (h : ∀ a, (write a).isWhole = true)
    (xs : List α) : areWhole (xs.map write) = true := by
  induction xs with
  | nil => rfl
  | cons x xs ih => rw [List.map_cons, areWhole, h x, ih, Bool.and_self]

end Json

namespace Key

/-- The record of a key value has no doubles in it. -/
theorem isWhole_encode_value (v : KeyValue) : (encode v).isWhole = true := by
  cases v with
  | integer n =>
    have hlow := Int64.le_toInt n
    have hhigh := Int64.toInt_lt n
    change (true && ((decide (-2 ^ 63 ≤ n.toInt) && decide (n.toInt < 2 ^ 64)) && true)) = true
    simp
    omega
  | string _ | binary _ | infMin | infMax | autoIncrement => rfl

theorem isWhole_encode_column (c : KeyColumn) : (encode c).isWhole = true := by
  change (true && ((encode c.value).isWhole && true)) = true
  rw [isWhole_encode_value]
  rfl

theorem isWhole_encode (k : Key) : (encode k).isWhole = true :=
  Json.areWhole_map _ isWhole_encode_column k

/-- A token stands for the key that it was made of. -/
theorem ofToken_toToken (k : Key) : ofToken k.toToken = .ok k := by
  have hdecode : (decode (encode k) : Except DecodeFault Key) = .ok k :=
    ReadsBack.decode_eq_ok false k
  simp only [ofToken, toToken, Json.ofBytes?_text (isWhole_encode k) (.inl rfl),
    Option.bind_eq_bind, Option.bind_some, hdecode]
  rfl

end Key

/-! ### Pages -/

namespace Table

/-- A page is the same whether it starts at a key or at a token that stands for it. -/
theorem page_token {bytes : Bytes} {k : Key} (h : Key.ofToken bytes = .ok k) (pageSize : Nat)
    (t : Table) (r : GetRange) :
    t.page pageSize { r with token := some bytes } (some bytes) =
      t.page pageSize { r with start := k } none := by
  simp only [page, h]
  rfl

/-- Where a page goes on is said by a key and by its token. -/
theorem nextToken_of_page {pageSize : Nat} {t : Table} {r : GetRange} {token : Option Bytes}
    {page : RangePage} (h : t.page pageSize r token = .ok page) :
    page.nextToken = page.nextStart.map Key.toToken := by
  have hcut : ∃ length rows, cut length r rows = page := by
    cases token <;>
    · obtain ⟨_, -, h⟩ := bind_eq_ok.1 h
      obtain ⟨_, -, h⟩ := bind_eq_ok.1 h
      obtain ⟨_, -, h⟩ := bind_eq_ok.1 h
      exact ⟨_, _, pure_eq_ok.1 h⟩
  obtain ⟨length, rows, rfl⟩ := hcut
  rfl

end Table

namespace Client

variable {c : Client Nat} {instanceName table : String}

/-- Only a server that is not told to fail answers with a page, and it is a page of its store. -/
theorem page_eq_ok {r : GetRange} {token : Option Bytes} {cl cl' : Cluster} {page : RangePage}
    (h : c.page .ofServers instanceName r token cl = (.ok page, cl')) :
    ∃ i v, c.transport instanceName = .ok i ∧ cl[i]? = some v ∧ v.failNext = none ∧
      v.store.scan v.pageSize r token = .ok page := by
  unfold Client.page at h
  cases hc : c.transport instanceName with
  | error e => rw [hc] at h; cases h
  | ok i =>
    simp only [hc, Network.ofServers, Cluster.ask] at h
    cases hv : cl[i]? with
    | none => simp [hv, Except.mapError] at h
    | some v =>
      simp only [hv, Server.scan, Server.receive] at h
      cases hf : v.failNext with
      | some code => simp [hf, Except.mapError] at h
      | none =>
        refine ⟨i, v, rfl, hv, hf, ?_⟩
        simp only [hf, Prod.map_apply, Prod.mk.injEq] at h
        cases hscan : v.store.scan v.pageSize r token with
        | error e => rw [hscan] at h; cases h.1
        | ok page' => rw [hscan] at h; exact congrArg _ (Except.ok.inj h.1)

/-- A server answers alike to a key and to a token that stands for it. -/
theorem page_token {bytes : Bytes} {k : Key} (h : Key.ofToken bytes = .ok k) (r : GetRange)
    (cl : Cluster) :
    c.page .ofServers instanceName { r with token := some bytes } (some bytes) cl =
      c.page .ofServers instanceName { r with start := k } none cl := by
  have hscan (s : Store) (pageSize : Nat) :
      s.scan pageSize { r with token := some bytes } (some bytes) =
        s.scan pageSize { r with start := k } none := by
    simp only [Store.scan, Table.page_token h]
  unfold Client.page
  simp only [Network.ofServers, Server.scan, hscan]

/-- **A scan resumed by token is the scan resumed by key.**  Whatever a key holds, its token stands
for it. A page that says where the scan goes on says so by a key and by a token; asked for with the
same end and options, the page that starts at the one and the page that starts at the other are the
same, and so is what becomes of the servers. -/
theorem scan_resumed (key : Key) :
    Key.ofToken key.toToken = .ok key ∧
    ∀ (c : Client Nat) (instanceName table : String) (start : ScanStart) (stop : Key)
      (options : OptionList) (cl cl' : Cluster) (page : RangePage),
      c.scan .ofServers instanceName table start stop options cl = (.ok page, cl') →
      page.nextStart = some key →
      ∃ token, page.nextToken = some token ∧ ∀ cl : Cluster,
        c.scan .ofServers instanceName table (.token token) stop options cl =
          c.scan .ofServers instanceName table (.key key) stop options cl := by
  refine ⟨key.ofToken_toToken, ?_⟩
  intro c instanceName table start stop options cl cl' page hscan hnext
  unfold scan at hscan ⊢
  cases hr : (merge { table, stop } options : Except Error GetRange) with
  | error e => rw [hr] at hscan; cases hscan
  | ok r =>
    rw [hr] at hscan
    have hpage : ∃ r token, c.page .ofServers instanceName r token cl = (.ok page, cl') := by
      cases start with
      | key k => exact ⟨_, _, hscan⟩
      | token bytes => exact ⟨_, _, hscan⟩
    obtain ⟨r', token, hpage⟩ := hpage
    obtain ⟨-, v, -, -, -, hpage⟩ := page_eq_ok hpage
    obtain ⟨t, -, hpage⟩ := bind_eq_ok.1 hpage
    refine ⟨key.toToken, ?_, fun cl => ?_⟩
    · rw [Table.nextToken_of_page hpage, hnext]
      rfl
    · exact page_token key.ofToken_toToken r cl

/-- The first of three rows comes with the token of the second, where the scan goes on. -/
theorem scan_resumed_oneByOne :
    ∃ page cl' token, ofOne.scan .ofServers "main" "t" (.key (numbered 1)) [⟨"id", .infMax⟩] {}
        [oneByOne] = (.ok page, cl') ∧
      page.nextToken = some token ∧
      ofOne.scan .ofServers "main" "t" (.token token) [⟨"id", .infMax⟩] {} cl' =
        ofOne.scan .ofServers "main" "t" (.key (numbered 2)) [⟨"id", .infMax⟩] {} cl' := by
  obtain ⟨token, htoken, hresume⟩ := (scan_resumed (numbered 2)).2 ofOne "main" "t"
    (.key (numbered 1)) [⟨"id", .infMax⟩] {} [oneByOne] _ _ rfl rfl
  exact ⟨_, _, token, rfl, htoken, hresume _⟩

end Client

end WideColumn
