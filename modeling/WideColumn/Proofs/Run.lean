import WideColumn.Proofs.Commit

/-!
# Runs

A run asks a store one question after the other: requests, with or without a transaction, and
pages of ranges. What was said tells which writes were held back for a transaction
(`Exchange.held`), and so which run does the same without holding anything back
(`Exchange.serial`): every write that was held back and later committed is made at the commit, as a
request of its own without a transaction, and the others are left out.

* `Transaction.numbered_injective` : numbered ids are never supplied twice;
* `Store.runSteps_make` : the writes made at a commit change the tables only.
-/

namespace WideColumn

/-! ### Runs -/

/-- What a store is asked. -/
inductive Question where
  /-- To answer a request. -/
  | request (r : Request)
  /-- For a page of a range. -/
  | scan (pageSize : Nat) (r : GetRange) (token : Option Bytes)

/-- What a store replies. -/
inductive Reply where
  /-- The answer to a request. -/
  | response (answer : Except ServiceError Response)
  /-- A page of a range. -/
  | page (answer : Except ServiceError RangePage)

/-- A question and the reply to it. -/
structure Exchange where
  /-- The question. -/
  question : Question
  /-- The reply. -/
  reply : Reply

namespace Store

/-- Reply to a question. -/
def ask (s : Store) : Question → Reply × Store
  | .request r => (s.answer r).map .response id
  | .scan pageSize r token => (.page (s.scan pageSize r token), s)

/-- A question and the reply of a store to it. -/
abbrev exchange (s : Store) (q : Question) : Exchange := ⟨q, (s.ask q).1⟩

/-- What is said when some questions are asked one after the other, and the store then. -/
def run (s : Store) : List Question → List Exchange × Store
  | [] => ([], s)
  | q :: qs =>
    let (log, s') := run (s.ask q).2 qs
    (s.exchange q :: log, s')

end Store

/-! ### Writes that are held back -/

/-- The write that a request asks for. -/
def Request.write? : Request → Option Write
  | putRow r => some (.put r)
  | updateRow r => some (.update r)
  | deleteRow r => some (.delete r)
  | batchWrite r => some (.batch r)
  | _ => none

/-- The request for a write. -/
def Write.request : Write → Request
  | put r => .putRow r
  | update r => .updateRow r
  | delete r => .deleteRow r
  | batch r => .batchWrite r

/-- The transaction that a request names. -/
def Request.transaction? : Request → Option String
  | getRow r => r.transaction
  | commitTransaction r => some r.transaction
  | abortTransaction r => some r.transaction
  | r => r.write?.bind (·.transaction?)

/-- Whether a request only reads. -/
def Request.isRead : Request → Bool
  | listTables _ | describeTable _ | getRow _ | batchGet _ | search _ => true
  | _ => false

namespace Exchange

/-- Whether something is read, or no transaction is named. -/
def isPublic (e : Exchange) : Bool :=
  match e.question with
  | .request r => r.isRead || r.transaction?.isNone
  | .scan .. => true

/-- The write that is held back, and the transaction that it waits for. -/
def staged? (e : Exchange) : Option (String × Write) :=
  match e with
  | ⟨.request r, .response (.ok _)⟩ =>
    r.write?.bind fun w => w.transaction?.map fun id => (id, w.detached)
  | _ => none

/-- The transaction that is committed. -/
def committed? (e : Exchange) : Option String :=
  match e with
  | ⟨.request (.commitTransaction r), .response (.ok _)⟩ => some r.transaction
  | _ => none

/-- The writes that are held back for a transaction, in order, each on its own. -/
def held (log : List Exchange) (id : String) : List Write :=
  ((log.filterMap staged?).filter (·.1 = id)).map (·.2)

end Exchange

/-! ### Serial runs -/

/-- A step of a serial run. -/
inductive Step where
  /-- Ask a question. -/
  | ask (q : Question)
  /-- Make a write. -/
  | make (w : Write)

namespace Exchange

/-- The steps of a serial run that stand for an exchange after others: none for a write that is
held back, the writes held back for it and then the question for a commit that succeeds, and the
question for all else. -/
def steps (before : List Exchange) (e : Exchange) : List Step :=
  if e.staged?.isSome then []
  else (e.committed?.elim [] (held before)).map .make ++ [.ask e.question]

/-- The serial run of some exchanges after others. -/
def serial (before : List Exchange) : List Exchange → List Step
  | [] => []
  | e :: log => e.steps before ++ serial (before ++ [e]) log

end Exchange

namespace Store

/-- What is said in a serial run, and the store then. Replies to writes are not recorded. -/
def runSteps (s : Store) : List Step → List Exchange × Store
  | [] => ([], s)
  | .ask q :: steps =>
    let (log, s') := runSteps (s.ask q).2 steps
    (s.exchange q :: log, s')
  | .make w :: steps => runSteps (s.answer w.request).2 steps

end Store

open Exchange

/-! ### Ids of transactions -/

/-- No two transactions of a series have the same id. -/
theorem Transaction.numbered_injective (series : String) :
    Function.Injective (numbered series) := by
  intro m n h
  have hchars := congrArg String.toList h
  simp only [numbered, toString, String.toList_append, List.append_assoc,
    List.append_cancel_left_eq, List.append_cancel_right_eq, Nat.toList_repr] at hchars
  rw [← Nat.ofDigitChars_toDigits (b := 10) (n := m) (by decide) (by decide), hchars,
    Nat.ofDigitChars_toDigits (by decide) (by decide)]

/-! ### Exchanges -/

@[simp] theorem Write.transaction?_detached (w : Write) : w.detached.transaction? = none := by
  cases w <;> rfl

theorem Store.answer_request (s : Store) (w : Write) : s.answer w.request = s.write w := by
  cases w <;> rfl

theorem Store.answer_of_write? (s : Store) {r : Request} {w : Write} (h : r.write? = some w) :
    s.answer r = s.write w := by
  cases r with
  | putRow r | updateRow r | deleteRow r | batchWrite r =>
    obtain rfl := Option.some.inj h
    rfl
  | _ => cases h

namespace Exchange

theorem held_append (log : List Exchange) (e : Exchange) (id : String) :
    held (log ++ [e]) id = held log id ++ held [e] id := by
  simp only [held, List.filterMap_append, List.filter_append, List.map_append]

theorem held_of_staged? {e : Exchange} {id id' : String} {w : Write}
    (h : e.staged? = some (id', w)) : held [e] id = if id' = id then [w] else [] := by
  by_cases hid : id' = id <;> simp [held, h, hid]

theorem held_append_of_none (log : List Exchange) {e : Exchange} (h : e.staged? = none) :
    held (log ++ [e]) = held log := by
  funext id
  rw [held_append]
  simp [held, h]

/-- What is held back for a transaction no longer names it. -/
theorem transaction?_of_mem_held {log : List Exchange} {id : String} {w : Write}
    (h : w ∈ held log id) : w.transaction? = none := by
  simp only [held, List.mem_map, List.mem_filter, List.mem_filterMap] at h
  obtain ⟨p, ⟨⟨e, -, he⟩, -⟩, rfl⟩ := h
  obtain ⟨q, reply⟩ := e
  unfold staged? at he
  split at he
  · obtain ⟨v, -, hv⟩ := Option.bind_eq_some_iff.1 he
    obtain ⟨id', -, rfl⟩ := Option.map_eq_some_iff.1 hv
    exact v.transaction?_detached
  · cases he

theorem staged?_of_ok {r : Request} {w : Write} {id : String} (hw : r.write? = some w)
    (hid : w.transaction? = some id) (a : Response) :
    staged? ⟨.request r, .response (.ok a)⟩ = some (id, w.detached) := by
  simp only [staged?, hw, Option.bind_some, hid, Option.map_some]

/-- A write is held back if it names a transaction and is not refused. -/
theorem staged?_eq_some {s : Store} {q : Question} {id : String} {w : Write}
    (h : (s.exchange q).staged? = some (id, w)) :
    ∃ r v, q = .request r ∧ r.write? = some v ∧ v.transaction? = some id ∧
      w = v.detached ∧ (s.answer r).1.isOk = true := by
  cases q with
  | scan pageSize r token => cases h
  | request r =>
    cases ha : (s.answer r).1 with
    | error e => simp [Store.exchange, staged?, Store.ask, Prod.map, ha] at h
    | ok a =>
      simp only [Store.exchange, staged?, Store.ask, Prod.map, ha] at h
      obtain ⟨v, hv, hid⟩ := Option.bind_eq_some_iff.1 h
      obtain ⟨id', hid', heq⟩ := Option.map_eq_some_iff.1 hid
      obtain ⟨rfl, rfl⟩ := Prod.mk.inj heq
      exact ⟨r, v, rfl, hv, hid', rfl, by rw [ha]; rfl⟩

end Exchange

namespace Store

theorem run_cons (s : Store) (q : Question) (qs : List Question) :
    s.run (q :: qs) = (s.exchange q :: ((s.ask q).2.run qs).1, ((s.ask q).2.run qs).2) := rfl

theorem runSteps_ask (s : Store) (q : Question) (steps : List Step) :
    s.runSteps (.ask q :: steps) =
      (s.exchange q :: ((s.ask q).2.runSteps steps).1, ((s.ask q).2.runSteps steps).2) := rfl

theorem runSteps_append (s : Store) (steps steps' : List Step) :
    s.runSteps (steps ++ steps') =
      ((s.runSteps steps).1 ++ ((s.runSteps steps).2.runSteps steps').1,
        ((s.runSteps steps).2.runSteps steps').2) := by
  induction steps generalizing s with
  | nil => rfl
  | cons step steps ih =>
    cases step with
    | ask q =>
      rw [List.cons_append, runSteps_ask, runSteps_ask, ih]
      rfl
    | make w => exact ih _

/-- Steps that make writes change the tables only. -/
theorem runSteps_make (s : Store) {ws : List Write} (h : ∀ w ∈ ws, w.transaction? = none)
    (steps : List Step) : s.runSteps (ws.map .make ++ steps) =
      runSteps { s with tables := Write.after ws s.tables } steps := by
  induction ws generalizing s with
  | nil => rfl
  | cons w ws ih =>
    have hw : (s.write w).2 = { s with tables := (w.run s.tables).2 } := by
      unfold write
      rw [h w List.mem_cons_self]
      rfl
    rw [List.map_cons, List.cons_append, runSteps, answer_request, hw,
      ih _ fun v hv => h v (List.mem_cons_of_mem w hv)]
    rfl

end Store

end WideColumn
