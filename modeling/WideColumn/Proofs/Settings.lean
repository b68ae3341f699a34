import WideColumn.Proofs.Frame
import WideColumn.Proofs.Routing
import WideColumn.Proofs.Shape

/-!
# Settings of tables

A table is created with some options and may be updated with others. Creations and updates are
described by different records: one has values or defaults, the other only what is to change. But
both read the same options in the same way, so that for each setting the last value counts that was
given in any of them (`TableMeta.Reports`).

* `CreateTable.reports`, `TableMeta.Reports.updated` : what is reported after a creation, and after
  an update;
* `Store.tableMeta?_answer` : a request that does not create, update or delete a table leaves all
  settings alone;
* `Invocation.settles_answer` : what a store does to the settings of a table when it is asked for
  what a call asks for.
-/

namespace WideColumn

open Shape

/-! ### What options say -/

namespace OptionList

/-- Lists of options, one after the other. -/
def join (ls : List OptionList) : OptionList := ⟨ls.flatMap (·.entries)⟩

theorem given?_append (es fs : List (String × OptionValue)) (key : String) :
    given? ⟨es ++ fs⟩ key = (given? ⟨fs⟩ key).or (given? ⟨es⟩ key) := by
  unfold given?
  rw [List.reverse_append, List.find?_append, Option.map_or]

theorem given?_join_concat (ls : List OptionList) (os : OptionList) (key : String) :
    (join (ls ++ [os])).given? key = (os.given? key).or ((join ls).given? key) := by
  rw [join, List.flatMap_append, List.flatMap_singleton, given?_append]
  rfl

/-- What is read from the last value given for a key, or a default if none is given. -/
def Says {α : Type} (os : OptionList) (key : String) (read : String → OptionValue → Except Error α)
    (default x : α) : Prop :=
  match os.given? key with
  | some v => read key v = .ok x
  | none => x = default

end OptionList

/-- A reader of what may also be unset. -/
def settable {α : Type} (read : String → OptionValue → Except Error α) (key : String)
    (v : OptionValue) : Except Error (Option α) := (read key v).map some

/-- If a value may be unset, what it stands for is read as set. -/
theorem Reads.settable {α : Type} {read : String → OptionValue → Except Error α} {key : String}
    {Is : OptionValue → α → Prop} {fault : OptionValue → Error} (h : Reads (read key) Is fault) :
    Reads (settable read key) (fun v x? => ∃ x, Is v x ∧ some x = x?) fault where
  eq_ok_iff v x? := map_eq_ok.trans (exists_congr fun x => and_congr_left' (h.eq_ok_iff v x))
  refuses v hnone := by
    have hv : ∀ x, ¬ Is v x := fun x hx => hnone (some x) ⟨x, hx, rfl⟩
    rw [WideColumn.settable, h.refuses v hv]
    rfl

/-- Options say what the last value given for a key stands for, or the default. -/
theorem OptionList.says_iff {α : Type} {os : OptionList} {key : String}
    {read : String → OptionValue → Except Error α} {Is : OptionValue → α → Prop}
    {fault : OptionValue → Error} (h : Reads (read key) Is fault) {default x : α} :
    os.Says key read default x ↔ (∀ v, os.given? key = some v → Is v x) ∧
      (os.given? key = none → x = default) := by
  unfold Says
  cases os.given? key with
  | none => exact ⟨fun hx => ⟨nofun, fun _ => hx⟩, fun hx => hx.2 rfl⟩
  | some v =>
    refine (h.eq_ok_iff v x).trans ⟨fun hx => ⟨?_, nofun⟩, fun hx => hx.1 v rfl⟩
    rintro _ ⟨⟩
    exact hx

namespace OptionList.Says

variable {α : Type} {os : OptionList} {ls : List OptionList} {key : String}
  {read : String → OptionValue → Except Error α}

theorem join_singleton {default x : α} (h : os.Says key read default x) :
    (join [os]).Says key read default x := by
  rw [join, List.flatMap_singleton]
  exact h

/-- What is said last counts. -/
theorem join_concat {default x : α} {y : Option α} (h : (join ls).Says key read default x)
    (h' : os.Says key (settable read) none y) :
    (join (ls ++ [os])).Says key read default (y.getD x) := by
  unfold Says at h h' ⊢
  rw [given?_join_concat]
  cases hos : os.given? key with
  | none =>
    rw [hos] at h'
    obtain rfl := h'
    exact h
  | some v =>
    rw [hos] at h'
    obtain ⟨z, hz, rfl⟩ := map_eq_ok.1 h'
    exact hz

theorem join_concat_settable {default x y : Option α}
    (h : (join ls).Says key (settable read) default x)
    (h' : os.Says key (settable read) none y) :
    (join (ls ++ [os])).Says key (settable read) default (y <|> x) := by
  unfold Says at h h' ⊢
  rw [given?_join_concat]
  cases hos : os.given? key with
  | none =>
    rw [hos] at h'
    obtain rfl := h'
    exact h
  | some v =>
    rw [hos] at h'
    obtain ⟨z, hz, rfl⟩ := map_eq_ok.1 h'
    exact h'

end OptionList.Says

section Merged

variable {ρ α : Type} [Configurable ρ] [Described ρ] {r r' : ρ} {os : OptionList} {key : String}
  {read : String → OptionValue → Except Error α}

theorem Merged.tells (h : Merged r os r') (get : ρ → α)
    (hf : Field.of key read get ∈ Described.fields (ρ := ρ)) :
    os.Says key read (get r) (get r') := by
  unfold OptionList.Says
  split
  · next v hv => exact h.set _ hf v hv
  · next hnone => exact h.kept _ hf hnone

theorem Merged.tells_settable (h : Merged r os r') (get : ρ → Option α)
    (hf : Field.optional key read get ∈ Described.fields (ρ := ρ)) :
    os.Says key (settable read) (get r) (get r') := by
  unfold OptionList.Says
  split
  · next v hv => exact h.set _ hf v hv
  · next hnone => exact h.kept _ hf hnone

end Merged

/-- What is reported of a table that was created with some keys and options, and then updated with
others. -/
structure TableMeta.Reports (m : TableMeta) (name : String) (keys : List KeySchema)
    (options : OptionList) (updates : List OptionList) : Prop where
  /-- The table has its name. -/
  name : m.name = name
  /-- It has the keys that it was created with, -/
  key : m.key = keys
  /-- the columns, -/
  columns : options.Says "defined_columns" records [] m.columns
  /-- and the indexes. -/
  indexes : options.Says "index_metas" records [] m.indexes
  /-- All else is what was said last: the reserved reads, -/
  read : (OptionList.join (options :: updates)).Says "reserved_throughput_read" integer 0
    m.reserved.read
  /-- the reserved writes, -/
  write : (OptionList.join (options :: updates)).Says "reserved_throughput_write" integer 0
    m.reserved.write
  /-- how long data is kept, -/
  timeToLive : (OptionList.join (options :: updates)).Says "time_to_live" (settable integer)
    (some (-1)) m.options.timeToLive
  /-- how many versions are, -/
  maxVersions : (OptionList.join (options :: updates)).Says "max_versions" (settable integer)
    (some 1) m.options.maxVersions
  /-- how far versions may deviate, -/
  deviation : (OptionList.join (options :: updates)).Says "deviation_cell_version_in_sec"
    (settable integer) (some 86400) m.options.deviation
  /-- whether rows may be updated, -/
  allowUpdate : (OptionList.join (options :: updates)).Says "allow_update" (settable flag) none
    m.options.allowUpdate
  /-- and the change stream. -/
  stream : (OptionList.join (options :: updates)).Says "stream_spec" (settable streamSpec) none
    m.stream

theorem CreateTable.reports {r : CreateTable} {table : String} {keys : List KeySchema}
    {options : OptionList} (h : Merged { table, keys } options r) :
    r.tableMeta.Reports table keys options [] := by
  -- The name and the keys are what options do not set.
  obtain ⟨htable, hkeys⟩ := Prod.mk.inj h.rest
  exact
    { name := htable
      key := hkeys
      columns := h.tells (·.columns) (by simp [Described.fields])
      indexes := h.tells (·.indexes) (by simp [Described.fields])
      read := (h.tells (·.reserved.read) (by simp [Described.fields])).join_singleton
      write := (h.tells (·.reserved.write) (by simp [Described.fields])).join_singleton
      timeToLive :=
        (h.tells_settable (·.options.timeToLive) (by simp [Described.fields])).join_singleton
      maxVersions :=
        (h.tells_settable (·.options.maxVersions) (by simp [Described.fields])).join_singleton
      deviation :=
        (h.tells_settable (·.options.deviation) (by simp [Described.fields])).join_singleton
      allowUpdate :=
        (h.tells_settable (·.options.allowUpdate) (by simp [Described.fields])).join_singleton
      stream := (h.tells_settable (·.stream) (by simp [Described.fields])).join_singleton }

/-- An update is taken into account. -/
theorem TableMeta.Reports.updated {m : TableMeta} {name : String} {keys : List KeySchema}
    {options : OptionList} {updates : List OptionList} (h : m.Reports name keys options updates)
    {r : UpdateTable} {os : OptionList} (hr : Merged { table := name } os r) :
    (m.updated r).Reports name keys options (updates ++ [os]) where
  name := h.name
  key := h.key
  columns := h.columns
  indexes := h.indexes
  read := h.read.join_concat (hr.tells_settable (·.reservedRead) (by simp [Described.fields]))
  write := h.write.join_concat (hr.tells_settable (·.reservedWrite) (by simp [Described.fields]))
  timeToLive := h.timeToLive.join_concat_settable
    (hr.tells_settable (·.options.timeToLive) (by simp [Described.fields]))
  maxVersions := h.maxVersions.join_concat_settable
    (hr.tells_settable (·.options.maxVersions) (by simp [Described.fields]))
  deviation := h.deviation.join_concat_settable
    (hr.tells_settable (·.options.deviation) (by simp [Described.fields]))
  allowUpdate := h.allowUpdate.join_concat_settable
    (hr.tells_settable (·.options.allowUpdate) (by simp [Described.fields]))
  stream := h.stream.join_concat_settable
    (hr.tells_settable (·.stream) (by simp [Described.fields]))

/-! ### What requests do to settings -/

/-- The settings of a table, if it exists. -/
def Tables.tableMeta? (ts : Tables) (name : String) : Option TableMeta :=
  (ts.get? name).map (·.tableMeta)

/-- The table whose settings a request makes, changes or drops. -/
def Request.settled? : Request → Option String
  | createTable r => some r.table
  | updateTable r => some r.table
  | deleteTable r => some r.table
  | _ => none

theorem Tables.tableMeta?_insert (ts : Tables) (table name : String) (t : Table) :
    tableMeta? (ts.insert table t) name =
      if name = table then some t.tableMeta else ts.tableMeta? name := by
  rw [tableMeta?, SortedMap.get?_insert]
  simp only [Std.LawfulEqOrd.compare_eq_iff_eq]
  split <;> rfl

theorem Tables.tableMeta?_erase (ts : Tables) (table name : String) :
    tableMeta? (ts.erase table) name = if name = table then none else ts.tableMeta? name := by
  rw [tableMeta?, SortedMap.get?_erase]
  simp only [Std.LawfulEqOrd.compare_eq_iff_eq]
  split <;> rfl

theorem Table.tableMeta_put (t : Table) (r : PutRow) : (t.put r).2.tableMeta = t.tableMeta := by
  obtain ⟨rows, hput⟩ := t.exists_rows_put r
  rw [hput]
  rfl

theorem Table.tableMeta_update (t : Table) (r : UpdateRow) :
    (t.update r).2.tableMeta = t.tableMeta := by
  obtain ⟨rows, hupdate⟩ := t.exists_rows_update r
  rw [hupdate]

theorem Table.tableMeta_delete (t : Table) (r : DeleteRow) :
    (t.delete r).2.tableMeta = t.tableMeta := by
  obtain ⟨rows, hdelete⟩ := t.exists_rows_delete r
  rw [hdelete]

theorem RowWrite.tableMeta?_run (name : String) (w : RowWrite) (table : String) (ts : Tables) :
    (w.run table ts).2.tableMeta? name = ts.tableMeta? name := by
  obtain ⟨kind, key, cells, updates, condition, returnType, returnColumns⟩ := w
  cases kind with
  | put => exact Tables.map_act _ _ fun _ t _ => t.tableMeta_put _
  | update => exact Tables.map_act _ _ fun _ t _ => t.tableMeta_update _
  | delete => exact Tables.map_act _ _ fun _ t _ => t.tableMeta_delete _

namespace Store

/-- A request that is about rows, or only reads, leaves all settings alone. -/
theorem tableMeta?_answer {name : String} (s : Store) {r : Request} (h : r.settled? = none) :
    (s.answer r).2.tables.tableMeta? name = s.tables.tableMeta? name := by
  have hrow := RowWrite.tableMeta?_run name
  cases r with
  | createTable | updateTable | deleteTable => cases h
  | putRow | updateRow | deleteRow | batchWrite =>
    exact s.kept_write (f := (·.tableMeta? name)) hrow _
  | commitTransaction r => exact s.kept_commit (f := (·.tableMeta? name)) hrow r
  | startTransaction r => exact congrArg (·.tableMeta? name) (s.tables_startTransaction r)
  | abortTransaction r => exact congrArg (·.tableMeta? name) (s.tables_abort r)
  | listTables | describeTable | getRow | batchGet | search => rfl

end Store

/-! ### What calls do to settings -/

/-- What is done to the settings of a table. -/
inductive Settlement where
  /-- The table is created. -/
  | created (keys : List KeySchema) (options : OptionList)
  /-- The table is updated. -/
  | updated (options : OptionList)
  /-- The table is deleted. -/
  | deleted

/-- The settings of a table, if it exists, before and after something is done to them. -/
inductive Settles (name : String) :
    Option TableMeta → Option TableMeta → Option Settlement → Prop
  /-- Nothing is done. -/
  | kept (m : Option TableMeta) : Settles name m m none
  /-- A new table has the settings that it is created with. -/
  | created {keys : List KeySchema} {options : OptionList} {r : CreateTable}
      (h : Merged { table := name, keys } options r) :
      Settles name none (some r.tableMeta) (some (.created keys options))
  /-- The settings are updated. -/
  | updated {m : TableMeta} {options : OptionList} {r : UpdateTable}
      (h : Merged { table := name } options r) :
      Settles name (some m) (some (m.updated r)) (some (.updated options))
  /-- There are none any more. -/
  | deleted (m : Option TableMeta) : Settles name m none (some .deleted)

/-- What is done to one table is done to no other. -/
theorem Settles.of_table {ts : Tables} {table : String} {after : Option TableMeta}
    {st : Settlement} (h : Settles table (ts.tableMeta? table) after (some st)) (name : String) :
    Settles name (ts.tableMeta? name) (if name = table then after else ts.tableMeta? name)
      (if table = name then some st else none) := by
  by_cases hname : table = name
  · subst hname
    rw [if_pos rfl, if_pos rfl]
    exact h
  · rw [if_neg (Ne.symm hname), if_neg hname]
    exact .kept _

namespace Invocation

/-- What a call is to do to the settings of a table. -/
def settlement? (name : String) : Invocation → Option Settlement
  | createTable table keys options => if table = name then some (.created keys options) else none
  | updateTable table options => if table = name then some (.updated options) else none
  | deleteTable table => if table = name then some .deleted else none
  | _ => none

/-- A store does what a call is to do if the call succeeds, and nothing otherwise. -/
theorem settles_answer {inv : Invocation} {instanceName other : String} {r : Request}
    (h : inv.Asks instanceName (.request other r)) (s : Store) (name : String) :
    Settles name (s.tables.tableMeta? name) ((s.answer r).2.tables.tableMeta? name)
      (if (inv.operation.accept (s.answer r).1).isOk then inv.settlement? name else none) := by
  cases inv with
  | createTable table keys options =>
    obtain ⟨q, hq, rfl, rfl, hmerged⟩ := h
    obtain ⟨-, rfl⟩ := Delivery.request.inj hq
    have hanswer : s.answer (.createTable q) =
      ((s.createTable q).1.map .tableCreated, (s.createTable q).2) := rfl
    obtain ⟨e, hs⟩ | ⟨hnone, hs⟩ := s.createTable_cases q
    · rw [hanswer, hs]
      exact .kept _
    · rw [hanswer, hs, Tables.tableMeta?_insert]
      refine .of_table ?_ name
      rw [Tables.tableMeta?, hnone]
      exact .created hmerged
  | updateTable table options =>
    obtain ⟨q, hq, rfl, hmerged⟩ := h
    obtain ⟨-, rfl⟩ := Delivery.request.inj hq
    have hanswer : s.answer (.updateTable q) =
      ((s.updateTable q).1.map .tableUpdated, (s.updateTable q).2) := rfl
    obtain ⟨e, hs⟩ | ⟨t, ht, hs⟩ := s.updateTable_cases q
    · rw [hanswer, hs]
      exact .kept _
    · rw [hanswer, hs, Tables.tableMeta?_insert]
      refine .of_table ?_ name
      rw [Tables.tableMeta?, ht]
      exact .updated hmerged
  | deleteTable table =>
    obtain ⟨-, rfl⟩ := Delivery.request.inj h
    have hanswer : s.answer (.deleteTable ⟨table⟩) =
      ((s.deleteTable ⟨table⟩).1.map .tableDeleted, (s.deleteTable ⟨table⟩).2) := rfl
    obtain ⟨e, hs⟩ | ⟨-, hs⟩ := s.deleteTable_cases ⟨table⟩
    · rw [hanswer, hs]
      exact .kept _
    · rw [hanswer, hs, Tables.tableMeta?_erase]
      exact .of_table (.deleted _) name
  | listTables | describeTable | batchGet | startTransaction | commitTransaction
  | abortTransaction =>
    obtain ⟨-, rfl⟩ := Delivery.request.inj h
    simp only [settlement?, ite_self]
    rw [s.tableMeta?_answer rfl]
    exact .kept _
  | getRow | putRow | updateRow | deleteRow | batchWrite | search =>
    obtain ⟨q, hq, -⟩ := h
    obtain ⟨-, rfl⟩ := Delivery.request.inj hq
    simp only [settlement?, ite_self]
    rw [s.tableMeta?_answer rfl]
    exact .kept _
  | getRange table start stop options =>
    -- A page is not asked for by a request.
    obtain ⟨q, -, -, hq⟩ := h
    cases start with
    | key k => cases hq.1
    | token bytes => cases hq.1

end Invocation

end WideColumn
