import WideColumn.Client.Scan
import WideColumn.Proofs.Merge

/-!
# Options mentioned without a value

What a key is mentioned for without a value is passed over when options are merged
(`merge_mention`). Update sets are collected from the last options of their keys instead, so that a
mention behind the operands of a kind takes them back (`Withdraws`), as if its key did not occur.

* `mention_exact` : nothing that is assembled from options notices a mention, the updates from
  which it withdraws operands apart;
* `not_mention_keeps` : these do.
-/

namespace WideColumn

/-! ### Mentions -/

/-- An option. -/
abbrev OptionList.Entry := String × OptionValue

namespace OptionList

/-- Options among which a key is mentioned without a value. -/
def mention (before : List Entry) (key : String) (after : List Entry) : OptionList :=
  ⟨before ++ (key, .absent) :: after⟩

/-- Options without those of a key. -/
def without (os : OptionList) (key : String) : OptionList := ⟨os.entries.filter (·.1 != key)⟩

/-- What was said last of a key, if that is a value. -/
def standing? (os : OptionList) (key : String) : Option OptionValue :=
  (os.get? key).filter fun v => !v.isAbsent

/-- A mention takes back the operands of a kind of change: they were given before it, and nothing
is said of the kind after it. -/
def Withdraws (before : List Entry) (key : String) (after : List Entry) : Prop :=
  (∃ kind : UpdateKind, Enumeration.symbol kind = key) ∧
    (standing? ⟨before⟩ key).isSome ∧ ∀ e ∈ after, e.1 ≠ key

theorem get?_append (before after : List Entry) (key : String) :
    get? ⟨before ++ after⟩ key = (get? ⟨after⟩ key).or (get? ⟨before⟩ key) := by
  unfold get?
  rw [List.reverse_append, List.find?_append, Option.map_or]

theorem get?_cons (e : Entry) (es : List Entry) (key : String) :
    get? ⟨e :: es⟩ key = (get? ⟨es⟩ key).or (if e.1 = key then some e.2 else none) := by
  unfold get?
  rw [List.reverse_cons, List.find?_append, Option.map_or]
  congr 1
  by_cases h : e.1 = key <;> simp [h]

theorem get?_eq_none_iff {es : List Entry} {key : String} :
    get? ⟨es⟩ key = none ↔ ∀ e ∈ es, e.1 ≠ key := by
  unfold get?
  rw [Option.map_eq_none_iff, List.find?_eq_none]
  simp

theorem get?_mention {before after : List Entry} {key k : String} :
    (mention before key after).get? k = (get? ⟨after⟩ k).or
      (if key = k then some .absent else get? ⟨before⟩ k) := by
  unfold mention
  rw [get?_append, get?_cons, Option.or_assoc]
  by_cases h : key = k <;> simp [h]

/-- A mention changes only what stands for its key, and that only if it withdraws it. -/
theorem standing?_mention {before after : List Entry} {key k : String}
    (h : key = k → get? ⟨after⟩ k = none → standing? ⟨before⟩ k = none) :
    (mention before key after).standing? k = standing? ⟨before ++ after⟩ k := by
  unfold standing? at h ⊢
  rw [get?_mention, get?_append]
  cases hafter : get? ⟨after⟩ k with
  | some v => rfl
  | none =>
    by_cases hkey : key = k
    · rw [Option.none_or, Option.none_or, if_pos hkey, h hkey hafter]
      rfl
    · rw [if_neg hkey]

theorem get?_without (os : OptionList) {key k : String} (h : k ≠ key) :
    (os.without key).get? k = os.get? k := by
  unfold without get?
  rw [← List.filter_reverse, List.find?_filter]
  congr 2
  funext e
  by_cases hk : e.1 = k
  · simp [hk, h]
  · simp [hk]

/-- What is mentioned last stands for nothing. -/
theorem standing?_mention_self {before after : List Entry} {key : String}
    (h : ∀ e ∈ after, e.1 ≠ key) : (mention before key after).standing? key = none := by
  unfold standing?
  rw [get?_mention, get?_eq_none_iff.2 h, Option.none_or, if_pos rfl]
  rfl

theorem standing?_append {before after : List Entry} {key : String} (h : ∀ e ∈ after, e.1 ≠ key) :
    standing? ⟨before ++ after⟩ key = standing? ⟨before⟩ key := by
  unfold standing?
  rw [get?_append, get?_eq_none_iff.2 h, Option.none_or]

theorem standing?_without_self (os : OptionList) (key : String) :
    (os.without key).standing? key = none := by
  unfold standing?
  rw [show (os.without key).get? key = none from get?_eq_none_iff.2 fun e he => by
    simpa using (List.mem_filter.1 he).2]
  rfl

/-- Where a mention withdraws what stands for a key, the options stand as without the key. -/
theorem standing?_withdrawn {before after : List Entry} {key k : String}
    (h : ∀ e ∈ after, e.1 ≠ key) :
    (mention before key after).standing? k = (without ⟨before ++ after⟩ key).standing? k := by
  by_cases hkey : k = key
  · obtain rfl := hkey
    rw [standing?_mention_self h, standing?_without_self]
  · rw [standing?_mention fun heq => absurd heq.symm hkey]
    unfold standing?
    rw [get?_without _ hkey]

end OptionList

open OptionList

/-! ### Merging -/

section Merge

variable {ρ : Type} [Configurable ρ]

theorem Configurable.applyOption_passed {e : Entry} {r : ρ}
    (h : e.2.isAbsent = true ∨ setting? (ρ := ρ) e.1 = none) : applyOption r e = .ok r := by
  unfold applyOption
  obtain h | h := h
  · rw [if_pos h]
  · rw [h]
    split <;> rfl

/-- Mentions do not count when options are merged. -/
theorem merge_mention (r : ρ) (before : List Entry) (key : String) (after : List Entry) :
    merge r (mention before key after) = merge r ⟨before ++ after⟩ := by
  unfold merge mention
  dsimp only
  rw [List.foldlM_append, List.foldlM_append]
  rfl

/-- Nor do options that the record does not know. -/
theorem merge_without (r : ρ) (os : OptionList) {key : String}
    (h : Configurable.setting? (ρ := ρ) key = none) : merge r (os.without key) = merge r os := by
  obtain ⟨es⟩ := os
  unfold merge without
  dsimp only
  induction es generalizing r with
  | nil => rfl
  | cons e es ih =>
    by_cases hkey : e.1 = key
    · rw [List.filter_cons_of_neg (by simpa using hkey), List.foldlM_cons,
        Configurable.applyOption_passed (.inr (hkey ▸ h)), ih]
      rfl
    · rw [List.filter_cons_of_pos (by simpa using hkey), List.foldlM_cons, List.foldlM_cons]
      exact congrArg _ (funext ih)

end Merge

/-! ### Update sets -/

namespace UpdateSet

variable {os os' : OptionList} {u u' : UpdateSet} {kind : UpdateKind}

theorem get?_set (u : UpdateSet) (kind kind' : UpdateKind) (operands : List ColumnOperand) :
    (u.set kind operands).get? kind' = if kind = kind' then some operands else u.get? kind' := by
  cases kind <;> cases kind' <;> rfl

theorem addKind_eq (os : OptionList) (u : UpdateSet) (kind : UpdateKind) :
    addKind os u kind = match os.standing? (Enumeration.symbol kind) with
      | none => .ok u
      | some v => (operandsOf (Enumeration.symbol kind) v).map (u.set kind) := by
  unfold addKind standing?
  dsimp only
  cases os.get? (Enumeration.symbol kind) with
  | none => rfl
  | some v => cases v <;> rfl

/-- Update sets are collected from what stands for their kinds. -/
theorem ofOptions_congr (h : ∀ kind : UpdateKind, os.standing? (Enumeration.symbol kind) =
    os'.standing? (Enumeration.symbol kind)) : ofOptions os = ofOptions os' := by
  unfold ofOptions
  congr 1
  funext u kind
  rw [addKind_eq, addKind_eq, h]

theorem isSome_get?_foldlM {kinds : List UpdateKind} (h : kinds.foldlM (addKind os) u = .ok u') :
    (u'.get? kind).isSome ↔ (u.get? kind).isSome ∨
      kind ∈ kinds ∧ (os.standing? (Enumeration.symbol kind)).isSome := by
  induction kinds generalizing u with
  | nil =>
    rw [← pure_eq_ok.1 h]
    simp
  | cons kind' kinds ih =>
    rw [List.foldlM_cons] at h
    obtain ⟨u₁, h₁, h⟩ := bind_eq_ok.1 h
    rw [ih h, List.mem_cons]
    rw [addKind_eq] at h₁
    cases hstanding : os.standing? (Enumeration.symbol kind') with
    | none =>
      rw [hstanding] at h₁
      obtain rfl := Except.ok.inj h₁
      by_cases hkind : kind = kind'
      · obtain rfl := hkind
        simp [hstanding]
      · simp [hkind]
    | some v =>
      rw [hstanding] at h₁
      obtain ⟨operands, -, rfl⟩ := map_eq_ok.1 h₁
      rw [get?_set]
      by_cases hkind : kind = kind'
      · obtain rfl := hkind
        simp [hstanding]
      · simp [hkind, Ne.symm hkind]

/-- A mention that withdraws nothing does not count. -/
theorem ofOptions_mention {before after : List Entry} {key : String}
    (h : ¬ Withdraws before key after) :
    ofOptions (mention before key after) = ofOptions ⟨before ++ after⟩ := by
  refine ofOptions_congr fun kind => standing?_mention fun hkey hafter => ?_
  obtain rfl := hkey
  exact Option.not_isSome_iff_eq_none.1 fun hbefore =>
    h ⟨⟨kind, rfl⟩, hbefore, get?_eq_none_iff.1 hafter⟩

/-- One that withdraws operands leaves what is collected without its key. -/
theorem ofOptions_withdrawn {before after : List Entry} {key : String}
    (h : Withdraws before key after) :
    ofOptions (mention before key after) = ofOptions (without ⟨before ++ after⟩ key) :=
  ofOptions_congr fun _ => standing?_withdrawn h.2.2

/-- An update set has the kinds for which something stands. -/
theorem isSome_get?_ofOptions (h : ofOptions os = .ok u) :
    (u.get? kind).isSome ↔ (os.standing? (Enumeration.symbol kind)).isSome := by
  rw [isSome_get?_foldlM h]
  cases kind <;> simp [get?, Enumeration.members]

/-- What operands are withdrawn from was another update set. -/
theorem ofOptions_withdrawn_ne {before after : List Entry} {key : String}
    (h : Withdraws before key after) (hu : ofOptions (mention before key after) = .ok u) :
    ofOptions ⟨before ++ after⟩ ≠ .ok u := by
  obtain ⟨⟨kind, rfl⟩, hbefore, hafter⟩ := h
  intro hu'
  rw [← standing?_append hafter, ← isSome_get?_ofOptions hu', isSome_get?_ofOptions hu,
    standing?_mention_self hafter] at hbefore
  cases hbefore

end UpdateSet

/-! ### What is assembled -/

/-- What is assembled from options: the requests of calls, and the entries of batches. -/
inductive Assembly : Type → Type where
  /-- The creation of a table. -/
  | createTable (table : String) (keys : List KeySchema) : Assembly Request
  /-- A change of the settings of a table. -/
  | updateTable (table : String) : Assembly Request
  /-- The read of a row. -/
  | getRow (table : String) (key : Key) : Assembly Request
  /-- The put of a row. -/
  | putRow (table : String) (key : Key) (cells : List Cell) : Assembly Request
  /-- The update of a row. -/
  | updateRow (table : String) (key : Key) : Assembly Request
  /-- The deletion of a row. -/
  | deleteRow (table : String) (key : Key) : Assembly Request
  /-- A batch write. -/
  | batchWrite (tables : List TableWrites) : Assembly Request
  /-- A search. -/
  | search (table index : String) : Assembly Request
  /-- Rows to read of a table, in a batch. -/
  | rowsQuery (table : String) (keys : List Key) : Assembly RowsQuery
  /-- The put of a row, in a batch. -/
  | rowPut (key : Key) (cells : List Cell) : Assembly RowWrite
  /-- The update of a row, in a batch. -/
  | rowUpdate (key : Key) : Assembly RowWrite
  /-- The deletion of a row, in a batch. -/
  | rowDelete (key : Key) : Assembly RowWrite
  /-- The write that a word names, in a batch. -/
  | rowWrite (word : String) (key : Key) (cells : List Cell) : Assembly RowWrite

namespace Assembly

/-- What is made of options, or why there is nothing. -/
def make : {α : Type} → Assembly α → OptionList → Except Error α
  | _, createTable table keys, os => (Call.createTable table keys os).request
  | _, updateTable table, os => (Call.updateTable table os).request
  | _, getRow table key, os => (Call.getRow table key os).request
  | _, putRow table key cells, os => (Call.putRow table key cells os).request
  | _, updateRow table key, os => (Call.updateRow table key os).request
  | _, deleteRow table key, os => (Call.deleteRow table key os).request
  | _, batchWrite tables, os => (Call.batchWrite tables os).request
  | _, search table index, os => (Call.search table index os).request
  | _, rowsQuery table keys, os => RowsQuery.ofOptions table keys os
  | _, rowPut key cells, os => RowWrite.put key cells os
  | _, rowUpdate key, os => RowWrite.update key os
  | _, rowDelete key, os => RowWrite.delete key os
  | _, rowWrite word key cells, os => RowWrite.ofOptions word key cells os

/-- Whether an update set is collected from the options. -/
def IsUpdate : {α : Type} → Assembly α → Prop
  | _, updateRow .. => True
  | _, rowUpdate _ => True
  | _, rowWrite word .. => Enumeration.ofSymbol? word = some WriteKind.update
  | _, _ => False

/-- Options from which the same is merged, into records that know no changes of columns, and the
same changes are collected, are assembled to the same. -/
theorem make_congr {α : Type} (a : Assembly α) {os os' : OptionList}
    (hmerge : ∀ {ρ : Type} [Configurable ρ] (r : ρ),
      (∀ kind : UpdateKind, Configurable.setting? (ρ := ρ) (Enumeration.symbol kind) = none) →
      merge r os = merge r os')
    (hupdate : a.IsUpdate → UpdateSet.ofOptions os = UpdateSet.ofOptions os') :
    a.make os = a.make os' := by
  have hrow (k : Key) (h : UpdateSet.ofOptions os = UpdateSet.ofOptions os') :
      RowWrite.update k os = RowWrite.update k os' := by
    unfold RowWrite.update
    rw [h]
    exact congrArg _ (funext fun u => hmerge _ fun kind => by cases kind <;> rfl)
  cases a with
  | updateRow table k =>
    refine congrArg (Except.map Request.updateRow) ?_
    unfold Call.updateOf
    rw [hupdate trivial, hmerge _ fun kind => by cases kind <;> rfl]
  | rowUpdate k => exact hrow k (hupdate trivial)
  | rowWrite word k cells =>
    change RowWrite.ofOptions word k cells os = RowWrite.ofOptions word k cells os'
    unfold RowWrite.ofOptions
    cases hword : (Enumeration.ofSymbol? word : Option WriteKind) with
    | none => rfl
    | some kind =>
      cases kind with
      | put | delete => exact hmerge _ fun kind => by cases kind <;> rfl
      | update => exact hrow k (hupdate hword)
  | createTable | updateTable | getRow | putRow | deleteRow | batchWrite | search =>
    exact congrArg (Except.map _) (hmerge _ fun kind => by cases kind <;> rfl)
  | rowsQuery | rowPut | rowDelete => exact hmerge _ fun kind => by cases kind <;> rfl

/-- The changes that are collected can be told from what is assembled. -/
theorem IsUpdate.updates {α : Type} {a : Assembly α} (h : a.IsUpdate) :
    ∃ updates : α → UpdateSet, ∀ os x, a.make os = .ok x →
      UpdateSet.ofOptions os = .ok (updates x) := by
  have hrow (k : Key) (os : OptionList) (w : RowWrite) (h : RowWrite.update k os = .ok w) :
      UpdateSet.ofOptions os = .ok w.updates := by
    obtain ⟨u, hu, hmerge⟩ := bind_eq_ok.1 h
    have hkeeps : ∀ s ∈ Configurable.settings (ρ := RowWrite), s.Keeps (·.updates) := by
      simp only [Configurable.settings, List.forall_mem_cons, List.not_mem_nil, false_imp_iff,
        implies_true, and_true]
      and_intros <;> exact Setting.keeps_of fun _ _ => rfl
    rw [hu, merge_keeps hkeeps hmerge]
  cases a with
  | updateRow table k =>
    refine ⟨fun | .updateRow r => r.updates | _ => {}, fun os x hx => ?_⟩
    obtain ⟨r, hr, rfl⟩ := map_eq_ok.1 hx
    obtain ⟨r₀, -, hr⟩ := bind_eq_ok.1 hr
    obtain ⟨u, hu, hr⟩ := bind_eq_ok.1 hr
    rw [hu, ← pure_eq_ok.1 hr]
  | rowUpdate k => exact ⟨(·.updates), hrow k⟩
  | rowWrite word k cells =>
    refine ⟨(·.updates), fun os w hw => hrow k os w ?_⟩
    change RowWrite.ofOptions word k cells os = .ok w at hw
    unfold RowWrite.ofOptions at hw
    rw [show Enumeration.ofSymbol? word = some WriteKind.update from h] at hw
    exact hw
  | createTable | updateTable | getRow | putRow | deleteRow | batchWrite | search => exact h.elim
  | rowsQuery | rowPut | rowDelete => exact h.elim

/-- Updates that are assembled to the same have collected the same changes. -/
theorem IsUpdate.ofOptions_eq {α : Type} {a : Assembly α} (h : a.IsUpdate) {os os' : OptionList}
    {x : α} (hmake : a.make os = a.make os') (hx : a.make os = .ok x) :
    UpdateSet.ofOptions os = UpdateSet.ofOptions os' := by
  obtain ⟨updates, hupdates⟩ := h.updates
  rw [hupdates os x hx, hupdates os' x (hmake ▸ hx)]

end Assembly

/-- **Mentions do not count, except that they withdraw operands.** A key that is mentioned without
a value, anywhere among the options, changes neither what is assembled nor the error, where no
update is assembled or nothing is withdrawn. In an update it withdraws the operands of a kind of
change if they were given before it, and nothing is said of the kind after it: then the options
count as without the key, and if there was something assembled, it is another. A scan never notices
a mention. -/
theorem mention_exact (before : List Entry) (key : String) (after : List Entry) :
    (∀ {α : Type} (a : Assembly α), ¬ (a.IsUpdate ∧ Withdraws before key after) →
      a.make (mention before key after) = a.make ⟨before ++ after⟩) ∧
    (∀ {α : Type} (a : Assembly α), a.IsUpdate → Withdraws before key after →
      a.make (mention before key after) = a.make (without ⟨before ++ after⟩ key) ∧
      ∀ x, a.make ⟨before ++ after⟩ = .ok x → a.make (mention before key after) ≠ .ok x) ∧
    (∀ {τ σ : Type} (c : Client τ) (net : Network τ σ) (pages : Nat)
        (instanceName table : String) (start : ScanStart) (first stop : Key) (s : σ),
      c.scan net instanceName table start stop (mention before key after) s =
        c.scan net instanceName table start stop ⟨before ++ after⟩ s ∧
      c.scanAll net pages instanceName table first stop (mention before key after) s =
        c.scanAll net pages instanceName table first stop ⟨before ++ after⟩ s) := by
  refine ⟨fun a h => ?_, fun a hupdate h => ⟨?_, fun x hx hx' => ?_⟩,
    fun c net pages instanceName table start first stop s => ?_⟩
  · exact a.make_congr (fun r _ => merge_mention r before key after) fun hupdate =>
      UpdateSet.ofOptions_mention fun hwithdraws => h ⟨hupdate, hwithdraws⟩
  · refine a.make_congr (fun r hr => ?_) fun _ => UpdateSet.ofOptions_withdrawn h
    obtain ⟨⟨kind, rfl⟩, -⟩ := h
    rw [merge_mention, merge_without r _ (hr kind)]
  · obtain ⟨updates, hupdates⟩ := hupdate.updates
    exact UpdateSet.ofOptions_withdrawn_ne h (hupdates _ _ hx') (hupdates _ _ hx)
  · unfold Client.scan Client.scanAll
    rw [merge_mention, merge_mention]
    exact ⟨rfl, rfl⟩

/-- The update of a row whose puts are mentioned once more, without a value, changes nothing; in
front of them, or for its condition, the mention does not count. -/
theorem mention_exact_put :
    let put : Entry := ("put", .operands [{ column := "a", value := some (.integer 1) }])
    let update := Assembly.updateRow "t" []
    (update.make (mention [put] "put" []) = update.make ⟨[]⟩ ∧
      update.make ⟨[put]⟩ = .ok (.updateRow { table := "t", key := [], updates :=
        { put := some [{ column := "a", value := some (.integer 1) }] } }) ∧
      update.make (mention [put] "put" []) ≠ update.make ⟨[put]⟩) ∧
    update.make (mention [] "put" [put]) = update.make ⟨[put]⟩ ∧
    update.make (mention [put] "condition" []) = update.make ⟨[put]⟩ := by
  intro put update
  have hwithdraws : Withdraws [put] "put" [] := ⟨⟨.put, rfl⟩, rfl, nofun⟩
  have hmade : update.make ⟨[put]⟩ = .ok (.updateRow { table := "t", key := [], updates :=
      { put := some [{ column := "a", value := some (.integer 1) }] } }) := rfl
  obtain ⟨-, hwithdrawn, -⟩ := mention_exact [put] "put" []
  obtain ⟨hwithout, hne⟩ := hwithdrawn update trivial hwithdraws
  refine ⟨⟨hwithout, hmade, fun h => hne _ hmade (h.trans hmade)⟩, ?_, ?_⟩
  · exact (mention_exact [] "put" [put]).1 update fun h => nomatch h.2.2.1
  · refine (mention_exact [put] "condition" []).1 update fun h => ?_
    obtain ⟨⟨kind, hkind⟩, -⟩ := h.2
    cases kind <;> exact absurd hkind (by decide)

/-- A mention may change what is assembled. -/
theorem not_mention_keeps :
    ¬ ∀ (α : Type) (a : Assembly α) (before : List Entry) (key : String) (after : List Entry),
      a.make (mention before key after) = a.make ⟨before ++ after⟩ := by
  intro h
  have hmake := h _ (.updateRow "t" [])
    [("put", .operands [{ column := "a", value := some (.integer 1) }])] "put" []
  have hupdate : (Assembly.updateRow "t" []).IsUpdate := trivial
  have hsame := hupdate.ofOptions_eq hmake rfl
  have hput := congrArg (Except.map fun u : UpdateSet => u.put.isSome) hsame
  exact Bool.noConfusion (show false = true from Except.ok.inj hput)

end WideColumn
