import WideColumn.Options.Shape
import WideColumn.Proofs.Result

/-!
# What readers make of values

A value of an option stands for something if it has the shape that the option asks for: for each
reader a relation says which values stand for what (`Shape.IsText`, `Shape.IsColumns` and so on). A
reader reads what a value stands for and refuses a value that stands for nothing, with an error that
names it or, of a list that is read item by item, the first item that does not fit (`Reads`).

* `Reads.failsWith` : a reader fails with nothing else;
* `Shape.text_reads`, …, `Shape.timeRange_reads` : what each reader reads and refuses;
* `Error.Names` : so errors name the option or what of its value does not fit.
-/

namespace WideColumn

/-- A reader reads what a value stands for, and fails with the fault of a value that stands for
nothing. -/
structure Reads {α : Type} (read : OptionValue → Except Error α) (Is : OptionValue → α → Prop)
    (fault : OptionValue → Error) : Prop where
  /-- What is read is what the value stands for. -/
  eq_ok_iff : ∀ v x, read v = .ok x ↔ Is v x
  /-- A value that stands for nothing is refused. -/
  refuses : ∀ v, (∀ x, ¬ Is v x) → read v = .error (fault v)

namespace Reads

variable {α : Type} {read : OptionValue → Except Error α} {Is : OptionValue → α → Prop}
  {fault : OptionValue → Error}

/-- It is enough that each value stands for something or is refused. -/
theorem of_cases (his : ∀ v x, Is v x → read v = .ok x)
    (hcases : ∀ v, (∃ x, Is v x) ∨ read v = .error (fault v)) : Reads read Is fault where
  eq_ok_iff v x := by
    refine ⟨fun hread => ?_, his v x⟩
    obtain ⟨y, hy⟩ | hfault := hcases v
    · obtain rfl : x = y := Except.ok.inj (hread.symm.trans (his v y hy))
      exact hy
    · rw [hfault] at hread
      cases hread
  refuses v h := (hcases v).resolve_left fun ⟨x, hx⟩ => h x hx

/-- A reader fails with nothing but the fault. -/
theorem failsWith (h : Reads read Is fault) {P : Error → Prop} {v : OptionValue}
    (hP : P (fault v)) : FailsWith P (read v) := by
  intro e he
  have hnone : ∀ x, ¬ Is v x := fun x hx => by
    rw [(h.eq_ok_iff v x).2 hx] at he
    cases he
  obtain rfl := Except.error.inj ((h.refuses v hnone).symm.trans he)
  exact hP

/-- Items that all stand for something are read in order. -/
theorem mapM_of_forall₂ (h : Reads read Is fault) {items : List OptionValue} {xs : List α}
    (hitems : List.Forall₂ Is items xs) : items.mapM read = .ok xs :=
  mapM_eq_ok_iff_forall₂.2 (hitems.imp fun v x => (h.eq_ok_iff v x).2)

/-- Of items that are read in order the first that stands for nothing is refused. -/
theorem mapM_cases (h : Reads read Is fault) {fits : OptionValue → Bool}
    (hfits : ∀ v, fits v = true ↔ ∃ x, Is v x) (items : List OptionValue) :
    (∃ xs, List.Forall₂ Is items xs) ∨
    ∃ w, items.find? (!fits ·) = some w ∧ items.mapM read = .error (fault w) := by
  induction items with
  | nil => exact .inl ⟨[], .nil⟩
  | cons v items ih =>
    by_cases hv : fits v = true
    · obtain ⟨x, hx⟩ := (hfits v).1 hv
      obtain ⟨xs, hxs⟩ | ⟨w, hw, herror⟩ := ih
      · exact .inl ⟨x :: xs, .cons hx hxs⟩
      · refine .inr ⟨w, by simpa [hv] using hw, ?_⟩
        rw [List.mapM_cons, (h.eq_ok_iff v x).2 hx, herror]
        rfl
    · -- This item is refused, and those behind it are not looked at.
      have hnone : ∀ x, ¬ Is v x := fun x hx => hv ((hfits v).2 ⟨x, hx⟩)
      refine .inr ⟨v, by simp [hv], ?_⟩
      rw [List.mapM_cons, h.refuses v hnone]
      rfl

end Reads

/-- An enumeration lists all members, and no two have the same symbol. -/
structure Enumeration.Complete (α : Type) [Enumeration α] : Prop where
  /-- All members are listed. -/
  all : ∀ a : α, a ∈ members
  /-- The symbols are different. -/
  symbol : ∀ a b : α, symbol a = symbol b → a = b

theorem Enumeration.Complete.ofSymbol?_eq_some_iff {α : Type} [Enumeration α] (h : Complete α)
    {s : String} {a : α} : ofSymbol? s = some a ↔ Enumeration.symbol a = s := by
  unfold ofSymbol?
  constructor
  · exact fun hfound => by simpa using List.find?_some hfound
  · rintro rfl
    cases hfound : members.find? fun b : α => Enumeration.symbol b == Enumeration.symbol a with
    | none => exact absurd (beq_self_eq_true _) (List.find?_eq_none.1 hfound a (h.all a))
    | some b => rw [h.symbol b a (by simpa using List.find?_some hfound)]

theorem ReturnType.complete : Enumeration.Complete ReturnType where
  all a := by cases a <;> decide
  symbol a b := by cases a <;> cases b <;> decide

theorem Direction.complete : Enumeration.Complete Direction where
  all a := by cases a <;> decide
  symbol a b := by cases a <;> cases b <;> decide

theorem RowExistence.complete : Enumeration.Complete RowExistence where
  all a := by cases a <;> decide
  symbol a b := by cases a <;> cases b <;> decide

namespace Shape

/-! ### Texts, numbers and flags -/

/-- A text is a string or a symbol. -/
inductive IsText : OptionValue → String → Prop
  /-- A string. -/
  | string (s : String) : IsText (.string s) s
  /-- A symbol. -/
  | symbol (s : String) : IsText (.symbol s) s

theorem word?_eq_some_iff {v : OptionValue} {s : String} : v.word? = some s ↔ IsText v s := by
  constructor
  · intro h
    cases v with
    | string t =>
      obtain rfl := Option.some.inj h
      exact .string t
    | symbol t =>
      obtain rfl := Option.some.inj h
      exact .symbol t
    | _ => cases h
  · rintro (s | s) <;> rfl

theorem isSome_word?_iff {v : OptionValue} : v.word?.isSome = true ↔ ∃ s, IsText v s := by
  simp only [Option.isSome_iff_exists, word?_eq_some_iff]

/-- A word is the symbol of a member of an enumeration. -/
def IsWord {α : Type} [Enumeration α] (v : OptionValue) (a : α) : Prop :=
  IsText v (Enumeration.symbol a)

variable (key : String)

theorem text_reads : Reads (text key) IsText (.invalidOption key) := by
  refine .of_cases (fun v s h => ?_) fun v => ?_
  · rw [text, word?_eq_some_iff.2 h]
  · cases v with
    | string s => exact .inl ⟨s, .string s⟩
    | symbol s => exact .inl ⟨s, .symbol s⟩
    | _ => exact .inr rfl

theorem integer_reads : Reads (integer key) (fun v n => v = .integer n) (.invalidOption key) := by
  refine .of_cases (fun v n h => by rw [h, integer]) fun v => ?_
  cases v with
  | integer n => exact .inl ⟨n, rfl⟩
  | _ => exact .inr rfl

theorem flag_reads : Reads (flag key) (fun v b => v = .bool b) (.invalidOption key) := by
  refine .of_cases (fun v b h => by rw [h, flag]) fun v => ?_
  cases v with
  | bool b => exact .inl ⟨b, rfl⟩
  | _ => exact .inr rfl

/-- A word is looked up among the members of its enumeration. -/
theorem reads_word {α : Type} [Enumeration α] (h : Enumeration.Complete α)
    {read : OptionValue → Except Error α} {fault : OptionValue → Error}
    (hsome : ∀ v a, v.word?.bind Enumeration.ofSymbol? = some a → read v = .ok a)
    (hnone : ∀ v, (v.word?.bind Enumeration.ofSymbol? : Option α) = none →
      read v = .error (fault v)) : Reads read IsWord fault := by
  have hword {v : OptionValue} {a : α} :
      v.word?.bind Enumeration.ofSymbol? = some a ↔ IsWord v a := by
    simp only [Option.bind_eq_some_iff, h.ofSymbol?_eq_some_iff, exists_eq_right',
      word?_eq_some_iff, IsWord]
  refine .of_cases (fun v a ha => hsome v a (hword.2 ha)) fun v => ?_
  cases ha : (v.word?.bind Enumeration.ofSymbol? : Option α) with
  | none => exact .inr (hnone v ha)
  | some a => exact .inl ⟨a, hword.1 ha⟩

theorem returnType_reads : Reads returnType IsWord .invalidReturnType :=
  reads_word ReturnType.complete (fun v t h => by rw [returnType, h])
    fun v h => by rw [returnType, h]

theorem direction_reads : Reads direction IsWord .invalidDirection :=
  reads_word Direction.complete (fun v d h => by rw [direction, h])
    fun v h => by rw [direction, h]

/-! ### Items -/

/-- What keeps a value from being read item by item: in a list the first item that does not fit, and
else the value itself. -/
def misfit (fits : OptionValue → Bool) : OptionValue → OptionValue
  | .list items => (items.find? (!fits ·)).getD (.list items)
  | v => v

/-- Column names are a list of names, a list of texts, or one text. -/
inductive IsColumns : OptionValue → List String → Prop
  /-- A list of names. -/
  | names (names : List String) : IsColumns (.columns names) names
  /-- A list of texts. -/
  | list {items : List OptionValue} {names : List String} (h : List.Forall₂ IsText items names) :
      IsColumns (.list items) names
  /-- One text. -/
  | text {v : OptionValue} {name : String} (h : IsText v name) : IsColumns v [name]

theorem columns_reads : Reads (columns key) IsColumns
    fun v => .invalidOption key (misfit (·.word?.isSome) v) := by
  refine .of_cases (fun v names h => ?_) fun v => ?_
  · cases h with
    | names => rfl
    | list h => exact (text_reads key).mapM_of_forall₂ h
    | text h => cases h <;> rfl
  · cases v with
    | columns names => exact .inl ⟨names, .names names⟩
    | string s => exact .inl ⟨[s], .text (.string s)⟩
    | symbol s => exact .inl ⟨[s], .text (.symbol s)⟩
    | list items =>
      obtain ⟨names, h⟩ | ⟨w, hw, herror⟩ :=
        (text_reads key).mapM_cases (fun _ => isSome_word?_iff) items
      · exact .inl ⟨names, .list h⟩
      · refine .inr (herror.trans ?_)
        rw [misfit, hw, Option.getD_some]
    | _ => exact .inr rfl

/-- Whether the value is a primary key. -/
def isKey : OptionValue → Bool
  | .key _ => true
  | _ => false

theorem isKey_iff {v : OptionValue} : isKey v = true ↔ ∃ k, v = .key k := by
  cases v <;> simp [isKey]

theorem primaryKey_reads : Reads (primaryKey key) (fun v k => v = .key k) (.invalidOption key) := by
  refine .of_cases (fun v k h => by rw [h, primaryKey]) fun v => ?_
  cases v with
  | key k => exact .inl ⟨k, rfl⟩
  | _ => exact .inr rfl

/-- Primary keys are one key, or a list of them. -/
inductive IsKeys : OptionValue → List Key → Prop
  /-- One key. -/
  | key (k : Key) : IsKeys (.key k) [k]
  /-- A list of keys. -/
  | list {items : List OptionValue} {ks : List Key}
      (h : List.Forall₂ (fun v k => v = .key k) items ks) : IsKeys (.list items) ks

theorem primaryKeys_reads : Reads (primaryKeys key) IsKeys
    fun v => .invalidOption key (misfit isKey v) := by
  refine .of_cases (fun v ks h => ?_) fun v => ?_
  · cases h with
    | key => rfl
    | list h => exact (primaryKey_reads key).mapM_of_forall₂ h
  · cases v with
    | key k => exact .inl ⟨[k], .key k⟩
    | list items =>
      obtain ⟨ks, h⟩ | ⟨w, hw, herror⟩ :=
        (primaryKey_reads key).mapM_cases (fun _ => isKey_iff) items
      · exact .inl ⟨ks, .list h⟩
      · refine .inr (herror.trans ?_)
        rw [misfit, hw, Option.getD_some]
    | _ => exact .inr rfl

/-! ### Filters and conditions -/

theorem filter_reads : Reads (filter key) (fun v f => v = .filter f) (.invalidOption key) := by
  refine .of_cases (fun v f h => by rw [h, filter]) fun v => ?_
  cases v with
  | filter f => exact .inl ⟨f, rfl⟩
  | _ => exact .inr rfl

/-- A write condition is given as such, or as a word about the existence of the row. -/
inductive IsCondition : OptionValue → Condition → Prop
  /-- A condition. -/
  | condition (c : Condition) : IsCondition (.condition c) c
  /-- A word. -/
  | word {v : OptionValue} {e : RowExistence} (h : IsWord v e) : IsCondition v { existence := e }

theorem ofWord_cases (s : String) :
    (∃ e : RowExistence, Enumeration.symbol e = s) ∨
      Condition.ofWord s = .error (.invalidExistence s) := by
  unfold Condition.ofWord Condition.existenceOf
  cases he : (Enumeration.ofSymbol? s : Option RowExistence) with
  | none => exact .inr rfl
  | some e => exact .inl ⟨e, RowExistence.complete.ofSymbol?_eq_some_iff.1 he⟩

theorem condition_reads : Reads (condition key) IsCondition
    fun v => (v.word?.map .invalidExistence).getD (.invalidOption key v) := by
  refine .of_cases (fun v c h => ?_) fun v => ?_
  · cases h with
    | condition => rfl
    | @word v e h => cases h <;> cases e <;> rfl
  · cases v with
    | condition c => exact .inl ⟨c, .condition c⟩
    | string s =>
      obtain ⟨e, rfl⟩ | herror := ofWord_cases s
      · exact .inl ⟨_, .word (.string _)⟩
      · exact .inr herror
    | symbol s =>
      obtain ⟨e, rfl⟩ | herror := ofWord_cases s
      · exact .inl ⟨_, .word (.symbol _)⟩
      · exact .inr herror
    | _ => exact .inr rfl

/-! ### Records -/

/-- JSON is given as such, or as a text that holds it. -/
inductive IsJson : OptionValue → Json → Prop
  /-- JSON. -/
  | json (j : Json) : IsJson (.json j) j
  /-- A text. -/
  | text {s : String} {j : Json} (h : Json.parse? s = some j) : IsJson (.string s) j.sorted

theorem json_reads : Reads (json key) IsJson (.invalidOption key) := by
  refine .of_cases (fun v j h => ?_) fun v => ?_
  · cases h with
    | json => rfl
    | text h => simp only [json, h]
  · cases v with
    | json j => exact .inl ⟨j, .json j⟩
    | string s =>
      cases hs : Json.parse? s with
      | none => exact .inr (by simp only [json, hs])
      | some j => exact .inl ⟨_, .text hs⟩
    | _ => exact .inr rfl

/-- Records are given as JSON that is decoded. -/
def IsRecords {α : Type} [Wire α] (v : OptionValue) (xs : List α) : Prop :=
  ∃ j, IsJson v j ∧ (decode j : Except DecodeFault (List α)) = .ok xs

theorem records_reads {α : Type} [Wire α] :
    Reads (records key : OptionValue → Except Error (List α)) IsRecords (.invalidOption key) := by
  have hjson := json_reads key
  refine .of_cases (fun v xs h => ?_) fun v => ?_
  · obtain ⟨j, hj, hxs⟩ := h
    rw [records, (hjson.eq_ok_iff v j).2 hj]
    exact congrArg (Except.mapError _) hxs
  · by_cases hv : ∃ j, IsJson v j
    · obtain ⟨j, hj⟩ := hv
      cases hxs : (decode j : Except DecodeFault (List α)) with
      | ok xs => exact .inl ⟨xs, j, hj, hxs⟩
      | error fault =>
        refine .inr ?_
        rw [records, (hjson.eq_ok_iff v j).2 hj]
        exact congrArg (Except.mapError _) hxs
    · refine .inr ?_
      rw [records, hjson.refuses v (not_exists.1 hv)]
      rfl

/-! ### Streams and time ranges -/

/-- How long a stream keeps its records may be left out. -/
inductive IsExpiration : Option OptionValue → Option Int64 → Prop
  /-- It is not mentioned. -/
  | missing : IsExpiration none none
  /-- It is mentioned without a value. -/
  | absent : IsExpiration (some .absent) none
  /-- It is given in hours. -/
  | hours (n : Int64) : IsExpiration (some (.integer n)) (some n)

theorem expiration?_eq_some_iff {v : Option OptionValue} {hours : Option Int64} :
    expiration? v = some hours ↔ IsExpiration v hours := by
  constructor
  · intro h
    unfold expiration? at h
    split at h
    · obtain rfl := Option.some.inj h
      exact .missing
    · obtain rfl := Option.some.inj h
      exact .absent
    · obtain rfl := Option.some.inj h
      exact .hours _
    · cases h
  · rintro (_ | _ | n) <;> rfl

/-- A change stream is a map that says whether it is enabled and, possibly, how long it keeps its
records, and nothing else. -/
inductive IsStreamSpec : OptionValue → StreamSpec → Prop
  /-- A map. -/
  | map {entries : List (String × OptionValue)} {enabled : Bool} {hours : Option Int64}
      (hkeys : ∀ e ∈ entries, e.1 = "is_enabled" ∨ e.1 = "expiration_time")
      (henabled : entries.lookup "is_enabled" = some (.bool enabled))
      (hhours : IsExpiration (entries.lookup "expiration_time") hours) :
      IsStreamSpec (.map entries) ⟨enabled, hours⟩

theorem streamSpec_reads : Reads (streamSpec key) IsStreamSpec (.invalidOption key) := by
  refine .of_cases (fun v spec h => ?_) fun v => ?_
  · cases h with
    | @map entries enabled hours hkeys henabled hhours =>
      have hknown : (entries.any fun e => e.1 != "is_enabled" && e.1 != "expiration_time") =
          false := by
        simpa [or_iff_not_imp_left] using hkeys
      simp only [streamSpec, hknown, henabled, expiration?_eq_some_iff.2 hhours,
        Bool.false_eq_true, if_false]
  · unfold streamSpec
    split
    · next entries =>
      split
      · -- Some key is neither of the two.
        exact .inr rfl
      · next hknown =>
        split
        · next enabled hours henabled hhours =>
          refine .inl ⟨_, .map (fun e he => ?_) henabled (expiration?_eq_some_iff.1 hhours)⟩
          by_contra hkey
          exact hknown (List.any_eq_true.2 ⟨e, he, by simpa using hkey⟩)
        · exact .inr rfl
    · exact .inr rfl

/-- A time range is one instant or a pair of them. -/
inductive IsTimeRange : OptionValue → TimeRange → Prop
  /-- One instant. -/
  | instant (t : Int64) : IsTimeRange (.integer t) (.specific t)
  /-- A pair. -/
  | pair (a b : Int64) : IsTimeRange (.pair a b) (.between a b)
  /-- A list of two. -/
  | list (a b : Int64) : IsTimeRange (.list [.integer a, .integer b]) (.between a b)

theorem timeRange_reads : Reads timeRange IsTimeRange .invalidTimeRange := by
  refine .of_cases (fun v range h => by cases h <;> rfl) fun v => ?_
  unfold timeRange
  split
  · next t => exact .inl ⟨_, .instant t⟩
  · next a b => exact .inl ⟨_, .pair a b⟩
  · next a b => exact .inl ⟨_, .list a b⟩
  · exact .inr rfl

end Shape

/-! ### What errors name -/

open Shape

/-- An error names an option with its value or with an item of it, or the value where only an option
of this kind takes such values. -/
inductive Error.Names (key : String) (v : OptionValue) : Error → Prop
  /-- The key and the value. -/
  | value : Names key v (.invalidOption key v)
  /-- The key and an item of the value. -/
  | item {items : List OptionValue} {w : OptionValue} (hv : v = .list items) (hw : w ∈ items) :
      Names key v (.invalidOption key w)
  /-- A word that says nothing about the existence of a row. -/
  | existence {s : String} (h : IsText v s) : Names key v (.invalidExistence s)
  /-- A value that is no return type. -/
  | returnType : Names key v (.invalidReturnType v)
  /-- A value that is no direction. -/
  | direction : Names key v (.invalidDirection v)
  /-- A value that is no time range. -/
  | timeRange : Names key v (.invalidTimeRange v)

theorem Error.names_misfit (key : String) (fits : OptionValue → Bool) (v : OptionValue) :
    Names key v (.invalidOption key (misfit fits v)) := by
  cases v with
  | list items =>
    cases hw : items.find? (!fits ·) with
    | none =>
      rw [misfit, hw]
      exact .value
    | some w =>
      rw [misfit, hw]
      exact .item rfl (List.mem_of_find?_eq_some hw)
  | _ => exact .value

theorem Error.names_condition (key : String) (v : OptionValue) :
    Names key v ((v.word?.map .invalidExistence).getD (.invalidOption key v)) := by
  cases hv : v.word? with
  | none => exact .value
  | some s => exact .existence (word?_eq_some_iff.1 hv)

namespace Shape

variable (key : String) (v : OptionValue)

@[simp] theorem text_names : FailsWith (Error.Names key v) (text key v) :=
  (text_reads key).failsWith .value

@[simp] theorem integer_names : FailsWith (Error.Names key v) (integer key v) :=
  (integer_reads key).failsWith .value

@[simp] theorem flag_names : FailsWith (Error.Names key v) (flag key v) :=
  (flag_reads key).failsWith .value

@[simp] theorem columns_names : FailsWith (Error.Names key v) (columns key v) :=
  (columns_reads key).failsWith (Error.names_misfit key _ v)

@[simp] theorem filter_names : FailsWith (Error.Names key v) (filter key v) :=
  (filter_reads key).failsWith .value

@[simp] theorem condition_names : FailsWith (Error.Names key v) (condition key v) :=
  (condition_reads key).failsWith (Error.names_condition key v)

@[simp] theorem primaryKeys_names : FailsWith (Error.Names key v) (primaryKeys key v) :=
  (primaryKeys_reads key).failsWith (Error.names_misfit key _ v)

@[simp] theorem json_names : FailsWith (Error.Names key v) (json key v) :=
  (json_reads key).failsWith .value

@[simp] theorem records_names {α : Type} [Wire α] :
    FailsWith (Error.Names key v) (records key v : Except Error (List α)) :=
  (records_reads key).failsWith .value

@[simp] theorem returnType_names : FailsWith (Error.Names key v) (returnType v) :=
  returnType_reads.failsWith .returnType

@[simp] theorem direction_names : FailsWith (Error.Names key v) (direction v) :=
  direction_reads.failsWith .direction

@[simp] theorem streamSpec_names : FailsWith (Error.Names key v) (streamSpec key v) :=
  (streamSpec_reads key).failsWith .value

@[simp] theorem timeRange_names : FailsWith (Error.Names key v) (timeRange v) :=
  timeRange_reads.failsWith .timeRange

end Shape

end WideColumn
