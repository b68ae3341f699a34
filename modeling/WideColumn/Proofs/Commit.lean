import WideColumn.Proofs.Batch

/-!
# Commits

A commit makes the writes of its transaction one after the other. It succeeds if each of them is
accepted in its turn, and otherwise leaves the tables as they were (`Store.commit_cases`). A batch
is always accepted: its rows fail one by one, in a report that a commit does not look at. So a
commit may succeed although rows are missing.

* `Store.answer_commit_exact` : a commit that succeeds leaves a row out exactly if a batch has a
  row that fails in its turn while all else is accepted.
-/

namespace WideColumn

namespace Write

/-- The tables that writes leave, one after the other. -/
def after (ws : List Write) (ts : Tables) : Tables := ws.foldl (fun ts w => (w.run ts).2) ts

/-- Every write satisfies a property together with the tables that those before it leave. -/
def InTurn (P : Write → Tables → Prop) : List Write → Tables → Prop
  | [], _ => True
  | w :: ws, ts => P w ts ∧ InTurn P ws (w.run ts).2

/-- A write is not refused as a whole. -/
def Accepted (w : Write) (ts : Tables) : Prop := (w.run ts).1.isOk = true

/-- Every row of a write is written. -/
def Applied (w : Write) (ts : Tables) : Prop :=
  match w with
  | batch b => ∀ o ∈ (b.run ts).1.rows, o.isOk = true
  | w => w.Accepted ts

theorem inTurn_iff {P : Write → Tables → Prop} {ws : List Write} {ts : Tables} :
    InTurn P ws ts ↔ ∀ ws₁ w ws₂, ws = ws₁ ++ w :: ws₂ → P w (after ws₁ ts) := by
  induction ws generalizing ts with
  | nil => simp [InTurn]
  | cons w ws ih =>
    rw [InTurn, ih]
    constructor
    · rintro ⟨hw, hws⟩ ws₁ w' ws₂ heq
      cases ws₁ with
      | nil =>
        obtain ⟨rfl, rfl⟩ := List.cons.inj heq
        exact hw
      | cons v ws₁ =>
        obtain ⟨rfl, rfl⟩ := List.cons.inj heq
        exact hws ws₁ w' ws₂ rfl
    · intro h
      exact ⟨h [] w ws rfl, fun ws₁ w' ws₂ heq => h (w :: ws₁) w' ws₂ (by rw [heq]; rfl)⟩

/-- Writes that are all accepted in their turn fail to write a row only in a batch. -/
theorem not_inTurn_applied {ws : List Write} {ts : Tables} (h : InTurn Accepted ws ts) :
    ¬ InTurn Applied ws ts ↔ ∃ ws₁ b ws₂, ws = ws₁ ++ batch b :: ws₂ ∧
      ∃ o ∈ (b.run (after ws₁ ts)).1.rows, o.isOk = false := by
  rw [inTurn_iff] at h ⊢
  constructor
  · intro hnot
    simp only [Classical.not_forall] at hnot
    obtain ⟨ws₁, w, ws₂, heq, hw⟩ := hnot
    have hacc := h ws₁ w ws₂ heq
    cases w with
    | batch b =>
      simp only [Applied, Classical.not_forall, Bool.not_eq_true] at hw
      obtain ⟨o, ho, hok⟩ := hw
      exact ⟨ws₁, b, ws₂, heq, o, ho, hok⟩
    | put r => exact absurd hacc hw
    | update r => exact absurd hacc hw
    | delete r => exact absurd hacc hw
  · rintro ⟨ws₁, b, ws₂, heq, o, ho, hok⟩ hall
    rw [hall ws₁ _ ws₂ heq o ho] at hok
    cases hok

/-- Writes are made up to the end exactly if each is accepted in its turn. -/
theorem runAll_eq_ok_iff {ws : List Write} {ts ts' : Tables} :
    runAll ws ts = .ok ts' ↔ InTurn Accepted ws ts ∧ ts' = after ws ts := by
  induction ws generalizing ts with
  | nil =>
    rw [runAll, Except.ok.injEq]
    exact ⟨fun h => ⟨trivial, h.symm⟩, fun h => h.2.symm⟩
  | cons w ws ih =>
    rw [runAll, InTurn]
    cases hw : w.run ts with
    | mk answer ts₁ =>
      cases answer with
      | ok a =>
        dsimp only
        rw [ih]
        simp only [Accepted, hw, Except.isOk, Except.toBool, true_and, after, List.foldl_cons]
      | error e =>
        simp [Accepted, hw, Except.isOk, Except.toBool]

end Write

namespace Store

/-- A commit names no open transaction and changes nothing; or it closes the transaction and
leaves the tables as they were, a write being refused in its turn; or it closes the transaction
after all its writes were accepted. -/
theorem commit_cases (s : Store) (r : CommitTransaction) :
    (s.transactions.get? r.transaction = none ∧
      s.commit r = (.error (.noTransaction r.transaction), s)) ∨
    ∃ t, s.transactions.get? r.transaction = some t ∧
      ((¬ Write.InTurn Write.Accepted t.staged s.tables ∧
        ∃ e, s.commit r =
          (.error e, { s with transactions := s.transactions.erase r.transaction })) ∨
      (Write.InTurn Write.Accepted t.staged s.tables ∧
        s.commit r = (.ok {}, { s with
          transactions := s.transactions.erase r.transaction
          tables := Write.after t.staged s.tables }))) := by
  unfold commit
  cases ht : s.transactions.get? r.transaction with
  | none => exact .inl ⟨rfl, rfl⟩
  | some t =>
    refine .inr ⟨t, rfl, ?_⟩
    dsimp only
    cases hrun : Write.runAll t.staged s.tables with
    | error e =>
      refine .inl ⟨fun hacc => ?_, e, rfl⟩
      rw [Write.runAll_eq_ok_iff.2 ⟨hacc, rfl⟩] at hrun
      cases hrun
    | ok ts =>
      obtain ⟨hacc, rfl⟩ := Write.runAll_eq_ok_iff.1 hrun
      exact .inr ⟨hacc, rfl⟩

/-- **When a commit is all or nothing.**  A commit that fails leaves the tables as they were. One
that succeeds has made the writes of the transaction one after the other; it has left out a row of
them exactly if all of them are accepted in their turn, but a batch among them has a row that
fails then. -/
theorem answer_commit_exact (s : Store) (r : CommitTransaction) :
    ((s.answer (.commitTransaction r)).1.isOk = false →
      (s.answer (.commitTransaction r)).2.tables = s.tables) ∧
    ∀ t, s.transactions.get? r.transaction = some t →
      ((s.answer (.commitTransaction r)).1.isOk = true →
        (s.answer (.commitTransaction r)).2.tables = Write.after t.staged s.tables) ∧
      ((s.answer (.commitTransaction r)).1.isOk = true ∧
          ¬ Write.InTurn Write.Applied t.staged s.tables ↔
        Write.InTurn Write.Accepted t.staged s.tables ∧
          ∃ ws₁ b ws₂, t.staged = ws₁ ++ .batch b :: ws₂ ∧
            ∃ o ∈ (b.run (Write.after ws₁ s.tables)).1.rows, o.isOk = false) := by
  have hanswer : s.answer (.commitTransaction r) =
      ((s.commit r).1.map .transactionCommitted, (s.commit r).2) := rfl
  obtain ⟨hnone, hc⟩ | ⟨t, ht, ⟨hacc, e, hc⟩ | ⟨hacc, hc⟩⟩ := s.commit_cases r
  · rw [hanswer, hc]
    refine ⟨fun _ => rfl, fun t ht => ?_⟩
    rw [hnone] at ht
    cases ht
  · rw [hanswer, hc]
    refine ⟨fun _ => rfl, fun t' ht' => ?_⟩
    obtain rfl := Option.some.inj (ht.symm.trans ht')
    exact ⟨nofun, fun h => (nomatch h.1), fun h => absurd h.1 hacc⟩
  · rw [hanswer, hc]
    refine ⟨nofun, fun t' ht' => ?_⟩
    obtain rfl := Option.some.inj (ht.symm.trans ht')
    refine ⟨fun _ => rfl, fun h => ⟨hacc, (Write.not_inTurn_applied hacc).1 h.2⟩, fun h => ?_⟩
    exact ⟨rfl, (Write.not_inTurn_applied hacc).2 h.2⟩

/-- A table with row 1, and an open transaction on it that some requests follow. -/
def withTransaction (rs : List Request) : Store :=
  after {} (.createTable { table := "t", keys := [] } ::
    .putRow { table := "t", key := [⟨"id", .integer 1⟩] } ::
    .startTransaction { table := "t", key := ⟨"id", .integer 1⟩ } :: rs)

/-- The put of a row that must not be there yet. -/
def newRow (n : Int64) : RowWrite where
  kind := .put
  key := [⟨"id", .integer n⟩]
  condition := { existence := .expectNotExist }

/-- Two rows put in the transaction. -/
def twoNewRows : BatchWrite where
  tables := [⟨"t", [newRow 1, newRow 2]⟩]
  transaction := some ":0:"

/-- A commit makes the one row of a batch that can be written and succeeds. -/
theorem answer_commit_twoNewRows :
    ∃ t, (withTransaction [.batchWrite twoNewRows]).transactions.get? ":0:" = some t ∧
      ((withTransaction [.batchWrite twoNewRows]).answer (.commitTransaction ⟨":0:"⟩)).2.tables =
        Write.after t.staged (withTransaction [.batchWrite twoNewRows]).tables ∧
      ¬ Write.InTurn Write.Applied t.staged (withTransaction [.batchWrite twoNewRows]).tables := by
  have ht : (withTransaction [.batchWrite twoNewRows]).transactions.get? ":0:" = some _ := rfl
  obtain ⟨htables, hexact⟩ := (answer_commit_exact _ ⟨":0:"⟩).2 _ ht
  exact ⟨_, ht, htables rfl, (hexact.2 ⟨⟨rfl, trivial⟩, [], _, [], rfl, _, .head _, rfl⟩).2⟩

/-- A commit may succeed without a row of its transaction. -/
theorem not_all_or_nothing_commit :
    ¬ ∀ s r t, Reachable s → s.transactions.get? r.transaction = some t →
      (s.answer (.commitTransaction r)).1.isOk = true →
      Write.InTurn Write.Applied t.staged s.tables := by
  intro h
  have hs : (withTransaction [.batchWrite twoNewRows]).Reachable := .after (.new _) _
  have happlied := h _ ⟨":0:"⟩ _ hs rfl rfl
  have hrow := happlied.1 _ (.head _)
  exact absurd hrow (by decide)

end Store

end WideColumn
