import WideColumn.Proofs.Allocation
import WideColumn.Proofs.Run

/-!
# Refused requests

A request that is refused should leave the store as it is; only a commit closes its transaction
either way (`Store.kept`). All requests do this but one: a put allocates the numbers for its key
before anything is checked, and a put that is refused does not give them back.

* `Store.ask_refused` : all that a refused question can do to a store;
* `Store.ask_refused_exact` : a refused question leaves more behind than it should exactly if it
  puts a row, outside of a transaction, under a key with a placeholder; what it leaves behind is
  the counter of the table, which has moved on by the number of placeholders.
-/

namespace WideColumn

/-- Whether a reply is an error. -/
def Reply.isRefusal : Reply → Bool
  | response answer => !answer.isOk
  | page answer => !answer.isOk

/-! ### Numbers that are allocated -/

namespace Key

/-- How many numbers a key leaves to the store. -/
def placeholders (k : Key) : Nat := k.countP fun c => c.value = .autoIncrement

theorem placeholders_pos_iff {k : Key} : 0 < k.placeholders ↔ k.HasPlaceholder := by
  simp [placeholders, HasPlaceholder, List.countP_pos_iff]

/-- An allocation takes one number for each placeholder. -/
theorem allocate_next (k : Key) (n : Nat) : (k.allocate n).2 = n + k.placeholders := by
  induction k generalizing n with
  | nil => rfl
  | cons c k ih =>
    rw [allocate_cons, placeholders, List.countP_cons]
    split
    · next hc =>
      rw [ih, if_pos (by simpa using hc), placeholders]
      omega
    · next hc =>
      rw [ih, if_neg (by simpa using hc), placeholders]
      omega

end Key

namespace Table

theorem allocated_eq (t : Table) (r : PutRow) :
    t.allocated r = { t with nextAuto := t.nextAuto + r.key.placeholders } := by
  rw [allocated, Key.allocate_next]

theorem allocated_eq_self_iff {t : Table} {r : PutRow} :
    t.allocated r = t ↔ ¬ r.key.HasPlaceholder := by
  rw [allocated_eq, ← Key.placeholders_pos_iff]
  constructor
  · intro h
    have := congrArg nextAuto h
    dsimp only at this
    omega
  · intro h
    rw [Nat.eq_zero_of_not_pos h]
    rfl

/-! ### Refused writes -/

theorem put_refused {t : Table} {r : PutRow} (h : (t.put r).1.isOk = false) :
    (t.put r).2 = t.allocated r := by
  obtain ⟨e, he⟩ | ⟨k, -, -, hput⟩ := t.put_cases r
  · rw [he]
  · rw [hput] at h
    cases h

theorem update_refused {t : Table} {r : UpdateRow} (h : (t.update r).1.isOk = false) :
    (t.update r).2 = t := by
  obtain ⟨e, he⟩ | ⟨k, row, -, -, -, hupd⟩ := t.update_cases r
  · rw [he]
  · rw [hupd] at h
    cases h

theorem delete_refused {t : Table} {r : DeleteRow} (h : (t.delete r).1.isOk = false) :
    (t.delete r).2 = t := by
  obtain ⟨e, he⟩ | ⟨k, -, -, hdel⟩ := t.delete_cases r
  · rw [he]
  · rw [hdel] at h
    cases h

end Table

/-- A refusal is that of a missing table, or comes from the table and leaves what the action on it
leaves. -/
theorem Tables.act_refused {α : Type} {ts : Tables} {name : String}
    {action : Table → Except ServiceError α × Table} (h : (ts.act name action).1.isOk = false) :
    (ts.get? name = none ∧ (ts.act name action).2 = ts) ∨
    ∃ t, ts.get? name = some t ∧ (action t).1.isOk = false ∧
      (ts.act name action).2 = SortedMap.insert ts name (action t).2 := by
  unfold Tables.act at h ⊢
  cases ht : ts.get? name with
  | none => exact .inl ⟨rfl, rfl⟩
  | some t =>
    rw [ht] at h
    exact .inr ⟨t, rfl, h, rfl⟩

/-- A write that is refused leaves the tables as they are, except that a put to a table that is
there has allocated its numbers. -/
theorem Write.run_refused {w : Write} {ts : Tables} (h : (w.run ts).1.isOk = false) :
    (∃ r t, w = put r ∧ ts.get? r.table = some t ∧
      (w.run ts).2 = SortedMap.insert ts r.table (t.allocated r)) ∨
    (∀ r, w = put r → ts.get? r.table = none) ∧ (w.run ts).2 = ts := by
  cases w with
  | put r =>
    simp only [run, Prod.map_fst, Prod.map_snd, id, isOk_map] at h ⊢
    obtain ⟨ht, hts⟩ | ⟨t, ht, ha, hts⟩ := Tables.act_refused h
    · exact .inr ⟨fun r' hr' => by rw [← put.inj hr', ht], hts⟩
    · exact .inl ⟨r, t, rfl, ht, by rw [hts, Table.put_refused ha]⟩
  | update r =>
    simp only [run, Prod.map_fst, Prod.map_snd, id, isOk_map] at h ⊢
    obtain ⟨-, hts⟩ | ⟨t, ht, ha, hts⟩ := Tables.act_refused h
    · exact .inr ⟨by rintro _ ⟨⟩, hts⟩
    · exact .inr
        ⟨by rintro _ ⟨⟩, by rw [hts, Table.update_refused ha, SortedMap.insert_eq_self ht]⟩
  | delete r =>
    simp only [run, Prod.map_fst, Prod.map_snd, id, isOk_map] at h ⊢
    obtain ⟨-, hts⟩ | ⟨t, ht, ha, hts⟩ := Tables.act_refused h
    · exact .inr ⟨by rintro _ ⟨⟩, hts⟩
    · exact .inr
        ⟨by rintro _ ⟨⟩, by rw [hts, Table.delete_refused ha, SortedMap.insert_eq_self ht]⟩
  | batch r =>
    -- A batch reports its rows one by one and is not refused as a whole.
    cases h

/-! ### Refused questions -/

/-- What is answered under a condition, and refused without a trace otherwise, leaves no trace if
it is refused. -/
theorem snd_of_refused {α σ : Type} {c : Prop} [Decidable c] {a : α} {e : ServiceError}
    {s s' : σ} (h : (if c then (.ok a, s') else (.error e, s) :
      Except ServiceError α × σ).1.isOk = false) :
    (if c then (.ok a, s') else (.error e, s) : Except ServiceError α × σ).2 = s := by
  by_cases hc : c
  · rw [if_pos hc] at h
    cases h
  · rw [if_neg hc]

namespace Store

/-- What a question that is refused should leave of a store: the store as it is, but without the
transaction that was to be committed. -/
def kept (s : Store) : Question → Store
  | .request (.commitTransaction r) =>
    { s with transactions := s.transactions.erase r.transaction }
  | _ => s

/-- A question asks for numbers in a table: it puts a row at once, under a key with a
placeholder. -/
def AsksForNumbers (s : Store) (q : Question) : Prop :=
  ∃ r t, q = .request (.putRow r) ∧ r.transaction = none ∧ s.tables.get? r.table = some t ∧
    r.key.HasPlaceholder

theorem write_refused {s : Store} {w : Write} (h : (s.write w).1.isOk = false) :
    (∃ r t, w = .put r ∧ r.transaction = none ∧ s.tables.get? r.table = some t ∧
      (s.write w).2 = { s with tables := s.tables.insert r.table (t.allocated r) }) ∨
    (∀ r, w = .put r → r.transaction = none → s.tables.get? r.table = none) ∧
      (s.write w).2 = s := by
  unfold write at h ⊢
  cases hid : w.transaction? with
  | some id =>
    rw [hid] at h
    refine .inr ⟨?_, s.stage_refused h⟩
    rintro r rfl hr
    rw [Write.transaction?, hr] at hid
    cases hid
  | none =>
    rw [hid] at h
    obtain ⟨r, t, rfl, ht, hts⟩ | ⟨hput, hts⟩ := Write.run_refused h
    · exact .inl ⟨r, t, rfl, hid, ht, by simp only [Prod.map_snd, hts]⟩
    · exact .inr ⟨fun r hr _ => hput r hr, by simp only [Prod.map_snd, hts]⟩

/-- A commit that is refused closes its transaction, if there is one. -/
theorem commit_refused {s : Store} {r : CommitTransaction} (h : (s.commit r).1.isOk = false) :
    (s.commit r).2 = { s with transactions := s.transactions.erase r.transaction } := by
  obtain ⟨hnone, hc⟩ | ⟨t, -, ⟨-, e, hc⟩ | ⟨-, hc⟩⟩ := s.commit_cases r
  · rw [hc, SortedMap.erase_eq_self hnone]
  · rw [hc]
  · rw [hc] at h
    cases h

/-- A question that is refused, and is no put, leaves of the store what it should. -/
theorem ask_refused_of_ne_put {s : Store} {q : Question} (h : (s.ask q).1.isRefusal = true)
    (hq : ∀ r, q ≠ .request (.putRow r)) : (s.ask q).2 = s.kept q := by
  cases q with
  | scan pageSize r token => rfl
  | request r =>
    have h : (s.answer r).1.isOk = false := by simpa [ask, Reply.isRefusal] using h
    cases r with
    | putRow r => exact absurd rfl (hq r)
    | updateRow r =>
      obtain ⟨_, _, hr, -⟩ | ⟨-, hs⟩ := s.write_refused h
      · cases hr
      · exact hs
    | deleteRow r =>
      obtain ⟨_, _, hr, -⟩ | ⟨-, hs⟩ := s.write_refused h
      · cases hr
      · exact hs
    | batchWrite r =>
      obtain ⟨_, _, hr, -⟩ | ⟨-, hs⟩ := s.write_refused h
      · cases hr
      · exact hs
    | commitTransaction r =>
      rw [answer, Prod.map_fst, isOk_map] at h
      exact commit_refused h
    | createTable r =>
      rw [answer, Prod.map_fst, isOk_map] at h
      change (s.createTable r).2 = s
      unfold createTable at h ⊢
      rw [← ite_not] at h ⊢
      exact snd_of_refused h
    | deleteTable r =>
      rw [answer, Prod.map_fst, isOk_map] at h
      change (s.deleteTable r).2 = s
      exact snd_of_refused h
    | updateTable r =>
      rw [answer, Prod.map_fst, isOk_map, updateTable, Prod.map_fst, id] at h
      change (s.updateTable r).2 = s
      obtain ⟨-, hts⟩ | ⟨t, -, ha, -⟩ := Tables.act_refused h
      · rw [updateTable, Prod.map_snd, hts]
      · cases ha
    | startTransaction r =>
      rw [answer, Prod.map_fst, isOk_map] at h
      change (s.startTransaction r).2 = s
      exact snd_of_refused h
    | abortTransaction r =>
      rw [answer, Prod.map_fst, isOk_map] at h
      change (s.abort r).2 = s
      exact snd_of_refused h
    | listTables r | describeTable r | getRow r | batchGet r | search r => rfl

/-- A question that is refused leaves of the store what it should, or is a put at once that has
allocated its numbers. -/
theorem ask_refused {s : Store} {q : Question} (h : (s.ask q).1.isRefusal = true) :
    (∃ r t, q = .request (.putRow r) ∧ r.transaction = none ∧
      s.tables.get? r.table = some t ∧
      (s.ask q).2 = { s with tables := s.tables.insert r.table (t.allocated r) }) ∨
    (∀ r, q = .request (.putRow r) → r.transaction = none → s.tables.get? r.table = none) ∧
      (s.ask q).2 = s.kept q := by
  by_cases hq : ∃ r, q = .request (.putRow r)
  · obtain ⟨r, rfl⟩ := hq
    have h : (s.answer (.putRow r)).1.isOk = false := by simpa [ask, Reply.isRefusal] using h
    obtain ⟨r', t, hr, htr, ht, hs⟩ | ⟨hput, hs⟩ := s.write_refused h
    · obtain rfl := Write.put.inj hr
      exact .inl ⟨r, t, rfl, htr, ht, hs⟩
    · refine .inr ⟨fun r' hr' => ?_, hs⟩
      obtain rfl := Request.putRow.inj (Question.request.inj hr')
      exact hput r rfl
  · have hne : ∀ r, q ≠ .request (.putRow r) := fun r hr => hq ⟨r, hr⟩
    exact .inr ⟨fun r hr => absurd hr (hne r), ask_refused_of_ne_put h hne⟩

/-- **When a refusal changes nothing.**  A question that is refused leaves the store as it is, or,
if it is a commit, without the transaction, exactly if it does not put a row at once under a key
with a placeholder. A put that is refused by a table that is there leaves all as it is but the
counter of that table, which moves on by the number of placeholders. -/
theorem ask_refused_exact {s : Store} {q : Question} (h : (s.ask q).1.isRefusal = true) :
    ((s.ask q).2 = s.kept q ↔ ¬ s.AsksForNumbers q) ∧
    ∀ r t, q = .request (.putRow r) → r.transaction = none → s.tables.get? r.table = some t →
      (s.ask q).2 = { s with
        tables := s.tables.insert r.table
          { t with nextAuto := t.nextAuto + r.key.placeholders } } := by
  obtain ⟨r, t, rfl, htr, ht, hs⟩ | ⟨hput, hs⟩ := s.ask_refused h
  · rw [hs]
    constructor
    · constructor
      · rintro hkept ⟨r', t', hr', -, ht', hkey⟩
        obtain rfl := Request.putRow.inj (Question.request.inj hr')
        obtain rfl := Option.some.inj (ht.symm.trans ht')
        -- In the store that should be left, the counter has not moved.
        have hget : (s.tables.insert r.table (t.allocated r)).get? r.table =
            s.tables.get? r.table := congrArg (fun s => s.tables.get? r.table) hkept
        rw [SortedMap.get?_insert_self, ht] at hget
        exact Table.allocated_eq_self_iff.1 (Option.some.inj hget) hkey
      · intro hasks
        have hkey : ¬ r.key.HasPlaceholder := fun hkey => hasks ⟨r, t, rfl, htr, ht, hkey⟩
        rw [Table.allocated_eq_self_iff.2 hkey, SortedMap.insert_eq_self ht]
        rfl
    · intro r' t' hr' _ ht'
      obtain rfl := Request.putRow.inj (Question.request.inj hr')
      obtain rfl := Option.some.inj (ht.symm.trans ht')
      rw [Table.allocated_eq]
  · refine ⟨⟨?_, fun _ => hs⟩, fun r t hr htr ht => ?_⟩
    · rintro - ⟨r, t, hr, htr, ht, -⟩
      rw [hput r hr htr] at ht
      cases ht
    · rw [hput r hr htr] at ht
      cases ht

/-- The put of a row that has to be there. -/
def putAgain (v : KeyValue) : Question :=
  .request (.putRow
    { table := "t", key := [⟨"id", v⟩], condition := { existence := .expectExist } })

/-- The put of a row that is not there is refused: it changes nothing if it names the row, and
spends a number if it leaves that to the store. -/
theorem ask_putAgain :
    ((withRows []).ask (putAgain (.integer 1))).1.isRefusal = true ∧
    ((withRows []).ask (putAgain (.integer 1))).2 = withRows [] ∧
    ((withRows []).ask (putAgain .autoIncrement)).1.isRefusal = true ∧
    ((withRows []).ask (putAgain .autoIncrement)).2 ≠ withRows [] ∧
    (((withRows []).ask (putAgain .autoIncrement)).2.tables.get? "t").map (·.nextAuto) =
      some 2 := by
  have ht : (withRows []).tables.get? "t" = some _ := rfl
  have hasks : (withRows []).AsksForNumbers (putAgain .autoIncrement) :=
    ⟨_, _, rfl, rfl, ht, _, .head _, rfl⟩
  obtain ⟨hkept, hspent⟩ :=
    ask_refused_exact (s := withRows []) (q := putAgain .autoIncrement) rfl
  refine ⟨rfl, (ask_refused_exact rfl).1.2 ?_, rfl, fun heq => hkept.1 heq hasks, ?_⟩
  · rintro ⟨r, t, hr, -, -, c, hc, hauto⟩
    obtain rfl := Request.putRow.inj (Question.request.inj hr)
    obtain rfl := List.mem_singleton.1 hc
    cases hauto
  · rw [hspent _ _ rfl rfl ht]
    rfl

/-- A refused put may change the store. -/
theorem not_kept_of_refused :
    ¬ ∀ (s : Store) (q : Question), s.Reachable → (s.ask q).1.isRefusal = true →
      (s.ask q).2 = s.kept q := by
  intro h
  have hkept := h (withRows []) (putAgain .autoIncrement) (.after (.new _) _) rfl
  have hnext := congrArg (fun s => (s.tables.get? "t").map (·.nextAuto)) hkept
  exact absurd hnext (by decide)

end Store

end WideColumn
