import WideColumn.Proofs.Frame
import WideColumn.Proofs.RowByRow

/-!
# Writes that do not meet

A write of one row reads the settings of its table and the row at its own place, and changes that
place alone. So two writes of different rows can be made in either order. A put that leaves a number
to the store also reads the counter of the table, and is left out.

* `Interchange` : two actions answer and leave the same in either order;
* `Table.interchange_actAt` : what acts on one row each may be interchanged if the rows are
  different;
* `RowWrite.run_eq_act` : a write of a row acts on that row;
* `Store.interchange_answer` : writes of different rows may be interchanged.
-/

namespace WideColumn

/-! ### Actions in either order -/

/-- In a state, two actions may be interchanged. -/
structure Interchange {σ α β : Type} (f : σ → α × σ) (g : σ → β × σ) (s : σ) : Prop where
  /-- The one answers the same after the other as before it. -/
  left : (f (g s).2).1 = (f s).1
  /-- So does the other. -/
  right : (g (f s).2).1 = (g s).1
  /-- Both orders lead to the same state. -/
  state : (g (f s).2).2 = (f (g s).2).2

namespace SortedMap

variable {κ α : Type} [Ord κ] [Std.TransOrd κ]

/-- Store under a key what is to be there, or drop what is there. -/
def set (m : SortedMap κ α) (k : κ) : Option α → SortedMap κ α
  | some x => m.insert k x
  | none => m.erase k

variable [Std.LawfulEqOrd κ]

@[simp] theorem get?_set_self (m : SortedMap κ α) (k : κ) (x : Option α) :
    (m.set k x).get? k = x := by
  cases x with
  | none => exact m.get?_erase_self k
  | some x => exact m.get?_insert_self k x

theorem get?_set_of_ne (m : SortedMap κ α) {k k' : κ} (x : Option α) (h : k' ≠ k) :
    (m.set k x).get? k' = m.get? k' := by
  cases x with
  | none => exact m.get?_erase_of_ne h
  | some x => exact m.get?_insert_of_ne x h

theorem set_get? (m : SortedMap κ α) (k : κ) : m.set k (m.get? k) = m := by
  cases h : m.get? k with
  | none => exact erase_eq_self h
  | some x => exact insert_eq_self h

theorem set_comm (m : SortedMap κ α) {k k' : κ} (h : k ≠ k') (x y : Option α) :
    (m.set k x).set k' y = (m.set k' y).set k x := by
  refine ext_get? fun j => ?_
  by_cases hk' : j = k'
  · subst hk'
    rw [get?_set_self, get?_set_of_ne _ _ h.symm, get?_set_self]
  · rw [get?_set_of_ne _ _ hk']
    by_cases hk : j = k
    · subst hk
      rw [get?_set_self, get?_set_self]
    · rw [get?_set_of_ne _ _ hk, get?_set_of_ne _ _ hk, get?_set_of_ne _ _ hk']

theorem insert_comm (m : SortedMap κ α) {k k' : κ} (h : k ≠ k') (x y : α) :
    (m.insert k x).insert k' y = (m.insert k' y).insert k x :=
  m.set_comm h (some x) (some y)

theorem insert_insert (m : SortedMap κ α) (k : κ) (x y : α) :
    (m.insert k x).insert k y = m.insert k y := by
  refine ext_get? fun j => ?_
  by_cases hj : j = k
  · rw [hj, get?_insert_self, get?_insert_self]
  · rw [get?_insert_of_ne _ _ hj, get?_insert_of_ne _ _ hj, get?_insert_of_ne _ _ hj]

end SortedMap

/-! ### Actions on rows -/

/-- What acts on a row sees the settings of the table and the row that is there. It answers, and
says what is to be there. -/
abbrev RowEffect := TableMeta → Option Row → Except ServiceError RowWritten × Option Row

namespace Table

/-- Let something act on the row at a place. -/
def actAt (t : Table) (k : SortKey) (effect : RowEffect) : Except ServiceError RowWritten × Table :=
  (effect t.tableMeta (t.rows.get? k)).map id fun row => { t with rows := t.rows.set k row }

theorem target_of_sortKey (t : Table) {key : Key} {k : SortKey} (hk : key.sortKey = .ok k)
    (c : Condition) : t.target key c = (c.check (t.rows.get? k)).map fun _ => k := by
  rw [target, hk]
  change (c.check (t.rows.get? k) >>= fun _ => pure k) = _
  cases c.check (t.rows.get? k) <;> rfl

/-- What acts on different rows may be interchanged. -/
theorem interchange_actAt (t : Table) {k k' : SortKey} (h : k ≠ k')
    (effect effect' : RowEffect) :
    Interchange (·.actAt k effect) (·.actAt k' effect') t where
  left := by simp only [actAt, Prod.map, id, SortedMap.get?_set_of_ne _ _ h]
  right := by simp only [actAt, Prod.map, id, SortedMap.get?_set_of_ne _ _ h.symm]
  state := by
    simp only [actAt, Prod.map, SortedMap.get?_set_of_ne _ _ h,
      SortedMap.get?_set_of_ne _ _ h.symm, SortedMap.set_comm _ h]

end Table

namespace Tables

variable {α β : Type} {ts : Tables}

/-- What acts on one table may be interchanged if it may be interchanged there. -/
theorem interchange_act {name : String} {f : Table → Except ServiceError α × Table}
    {g : Table → Except ServiceError β × Table}
    (h : ∀ t, ts.get? name = some t → Interchange f g t) :
    Interchange (·.act name f) (·.act name g) ts := by
  cases ht : ts.get? name with
  | none => constructor <;> simp only [act, ht]
  | some t =>
    have hfg := h t ht
    constructor <;>
      simp only [act_of_get? ht, act_of_get? (SortedMap.get?_insert_self ..),
        SortedMap.insert_insert, hfg.left, hfg.right, hfg.state]

/-- What acts on different tables may be interchanged. -/
theorem interchange_act_of_ne {name name' : String} (h : name ≠ name')
    (f : Table → Except ServiceError α × Table) (g : Table → Except ServiceError β × Table) :
    Interchange (·.act name f) (·.act name' g) ts := by
  constructor <;> cases ht : ts.get? name <;> cases ht' : ts.get? name' <;>
    simp only [act, ht, ht', SortedMap.get?_insert_of_ne _ _ h,
      SortedMap.get?_insert_of_ne _ _ h.symm, SortedMap.insert_comm _ h]

end Tables

/-! ### Writes of rows -/

theorem Key.allocate_eq_self {k : Key} (h : ¬ k.HasPlaceholder) (n : Nat) :
    k.allocate n = (k, n) := by
  induction k with
  | nil => rfl
  | cons c k ih =>
    have hc : c.value ≠ .autoIncrement := fun hc => h ⟨c, .head _, hc⟩
    have hk : ¬ HasPlaceholder k := fun ⟨d, hd, hauto⟩ => h ⟨d, .tail _ hd, hauto⟩
    rw [allocate_cons, if_neg hc, ih hk]

theorem Key.exists_sortKey_of {k : Key} (h : ¬ k.HasPlaceholder) : ∃ p, k.sortKey = .ok p :=
  exists_sortKey_iff.2 fun c hc hauto => h ⟨c, hc, hauto⟩

namespace RowWrite

/-- What a write of a row does to the row if nothing refuses it: the answer, and what is to be
there. -/
def change (w : RowWrite) (table : String) (m : TableMeta) (existing : Option Row) :
    Except ServiceError (RowWritten × Option Row) :=
  match w.kind with
  | .put => (w.condition.check existing).map fun _ =>
    let row : Row := { key := w.key, cells := w.cells }
    (Table.written (row.returned [] w.returnType), some row)
  | .update => do
    if m.options.allowUpdate = some false then
      throw (.parameterInvalid s!"table {table} does not allow update")
    w.condition.check existing
    let row ← (existing.getD { key := w.key }).update w.updates
    return (Table.written (row.returned w.returnColumns w.returnType), some row)
  | .delete => (w.condition.check existing).map fun _ =>
    (Table.written (existing.bind fun row => row.returned [] w.returnType), none)

/-- What a write of a row does to the row: if it is refused, the row stays. -/
def effect (w : RowWrite) (table : String) : RowEffect := fun m existing =>
  match w.change table m existing with
  | .error e => (.error e, existing)
  | .ok (answer, row) => (.ok answer, row)

section Act

variable {w : RowWrite} {table : String} {t : Table} {k : SortKey}

/-- A write that is refused leaves the table as it is. -/
theorem actAt_effect (w : RowWrite) (table : String) (t : Table) (k : SortKey) :
    t.actAt k (w.effect table) =
      match w.change table t.tableMeta (t.rows.get? k) with
      | .error e => (.error e, t)
      | .ok (answer, row) => (.ok answer, { t with rows := t.rows.set k row }) := by
  unfold Table.actAt effect
  cases w.change table t.tableMeta (t.rows.get? k) with
  | error e => simp only [Prod.map, id, SortedMap.set_get?]
  | ok p => rfl

theorem put_eq_actAt (hkind : w.kind = .put) (hw : ¬ w.key.HasPlaceholder)
    (hk : w.key.sortKey = .ok k) : t.put (w.asPut table) = t.actAt k (w.effect table) := by
  have hallocate : w.key.allocate t.nextAuto = (w.key, t.nextAuto) := Key.allocate_eq_self hw _
  simp only [actAt_effect, change, hkind, Table.put, asPut, hallocate, Table.target_of_sortKey _ hk]
  cases w.condition.check (t.rows.get? k) <;> rfl

theorem update_eq_actAt (hkind : w.kind = .update) (hk : w.key.sortKey = .ok k) :
    t.update { w.asUpdate table with updates := w.updates } = t.actAt k (w.effect table) := by
  have hchange : w.change table t.tableMeta (t.rows.get? k) =
      (t.updatedRow { w.asUpdate table with updates := w.updates }).map fun p =>
        (Table.written (p.2.returned w.returnColumns w.returnType), some p.2) := by
    -- The settings are looked at first, then the condition, and then the changes are made.
    simp only [change, hkind, Table.updatedRow, asUpdate, Table.target_of_sortKey t hk]
    by_cases ha : t.tableMeta.options.allowUpdate = some false
    · simp only [if_pos ha]
      rfl
    · simp only [if_neg ha]
      cases w.condition.check (t.rows.get? k) with
      | error e => rfl
      | ok u =>
        simp only [bind, Except.bind, Except.map]
        cases ((t.rows.get? k).getD { key := w.key }).update w.updates <;> rfl
  rw [actAt_effect, hchange, Table.update]
  cases hrow : t.updatedRow { w.asUpdate table with updates := w.updates } with
  | error e => rfl
  | ok p =>
    obtain ⟨-, hp, -, -⟩ := Table.updatedRow_eq_ok.1 hrow
    obtain rfl := Except.ok.inj (hk.symm.trans hp)
    rfl

theorem delete_eq_actAt (hkind : w.kind = .delete) (hk : w.key.sortKey = .ok k) :
    t.delete (w.asDelete table) = t.actAt k (w.effect table) := by
  simp only [actAt_effect, change, hkind, Table.delete, asDelete, Table.target_of_sortKey _ hk]
  cases w.condition.check (t.rows.get? k) <;> rfl

end Act

/-- A write under a key that leaves no number to the store acts on the row at the place of the
key. -/
theorem run_eq_act {w : RowWrite} {k : SortKey} (hw : ¬ w.key.HasPlaceholder)
    (hk : w.key.sortKey = .ok k) (table : String) (ts : Tables) :
    w.run table ts = ts.act table (·.actAt k (w.effect table)) := by
  obtain ⟨kind, key, cells, updates, condition, returnType, returnColumns⟩ := w
  cases kind with
  | put => exact congrArg (ts.act table) (funext fun t => put_eq_actAt rfl hw hk)
  | update => exact congrArg (ts.act table) (funext fun t => update_eq_actAt rfl hk)
  | delete => exact congrArg (ts.act table) (funext fun t => delete_eq_actAt rfl hk)

/-- Writes of different rows may be interchanged. -/
theorem interchange_run {w w' : RowWrite} {table table' : String} (hw : ¬ w.key.HasPlaceholder)
    (hw' : ¬ w'.key.HasPlaceholder) (h : table ≠ table' ∨ w.key.sortKey ≠ w'.key.sortKey)
    (ts : Tables) : Interchange (w.run table) (w'.run table') ts := by
  obtain ⟨k, hk⟩ := Key.exists_sortKey_of hw
  obtain ⟨k', hk'⟩ := Key.exists_sortKey_of hw'
  rw [funext (run_eq_act hw hk table), funext (run_eq_act hw' hk' table')]
  by_cases htable : table = table'
  · -- In one table, the places differ.
    subst htable
    have hne : k ≠ k' := by
      rintro rfl
      exact h.resolve_left (absurd rfl) (hk.trans hk'.symm)
    exact Tables.interchange_act fun t _ => t.interchange_actAt hne _ _
  · exact Tables.interchange_act_of_ne htable _ _

end RowWrite

/-! ### Requests -/

namespace Write

/-- The row of a write of a single row, with its table. -/
def single? : Write → Option (String × RowWrite)
  | batch _ => none
  | w => w.rows.head?

/-- A write of a single row in no transaction is the write of that row. -/
theorem eq_alone {w : Write} {table : String} {row : RowWrite}
    (hrow : w.single? = some (table, row)) (hfree : w.transaction? = none) :
    w = row.alone table := by
  cases w with
  | put r | update r | delete r =>
    cases r
    cases hfree
    cases hrow
    rfl
  | batch b => cases hrow

end Write

namespace Store

/-- What may be interchanged in the tables of a store may be interchanged in the store. -/
theorem interchange_alone {s : Store} {w w' : RowWrite} {table table' : String}
    (h : Interchange (w.run table) (w'.run table') s.tables) :
    Interchange (·.answer (w.alone table).request) (·.answer (w'.alone table').request) s := by
  constructor <;> simp only [answer_alone, Prod.map, h.left, h.right, h.state]

/-- **Writes of different rows may be interchanged.**  Take any store and two puts, updates or
deletes that belong to no transaction, leave no number to the store, and write to different tables
or to different places of one table. Each answers the same in both orders, with the row that it
returns or with its error, and both orders leave the same store. -/
theorem interchange_answer (s : Store) {w w' : Write} {table table' : String}
    {row row' : RowWrite} (hrow : w.single? = some (table, row))
    (hrow' : w'.single? = some (table', row')) (hfree : w.transaction? = none)
    (hfree' : w'.transaction? = none) (hkey : ¬ row.key.HasPlaceholder)
    (hkey' : ¬ row'.key.HasPlaceholder)
    (h : table ≠ table' ∨ row.key.sortKey ≠ row'.key.sortKey) :
    Interchange (·.answer w.request) (·.answer w'.request) s := by
  rw [Write.eq_alone hrow hfree, Write.eq_alone hrow' hfree']
  exact interchange_alone (RowWrite.interchange_run hkey hkey' h s.tables)

/-- The put of a row that must not be there yet. -/
def putNew (n : Int64) : Write :=
  .put { table := "t", key := [⟨"id", .integer n⟩], condition := { existence := .expectNotExist },
         returnType := .key }

/-- The deletion of a row that has to be there. -/
def deleteOld (n : Int64) : Write :=
  .delete { table := "t", key := [⟨"id", .integer n⟩], condition := { existence := .expectExist } }

/-- Row 2 can be put and row 1 deleted in either order. -/
theorem interchange_putNew_deleteOld :
    Interchange (·.answer (putNew 2).request) (·.answer (deleteOld 1).request)
      (withRows [.integer 1]) ∧
    ((withRows [.integer 1]).answer (putNew 2).request).1.isOk = true ∧
    ((withRows [.integer 1]).answer (deleteOld 1).request).1.isOk = true := by
  have hkey (n : Int64) : ¬ Key.HasPlaceholder [⟨"id", .integer n⟩] := by
    rintro ⟨c, hc, hauto⟩
    obtain rfl := List.mem_singleton.1 hc
    cases hauto
  refine ⟨interchange_answer _ rfl rfl rfl rfl (hkey 2) (hkey 1) (.inr fun h => ?_), rfl, rfl⟩
  exact absurd (Except.ok.inj h) (by decide)

end Store

end WideColumn
