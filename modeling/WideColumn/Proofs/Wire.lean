import WideColumn.Proofs.Base64
import WideColumn.Proofs.MemberOrder
import WideColumn.Record.Row

/-!
# Reading what was written

What is written as JSON comes back, with one exception: a double that is no number is written as
null, which is not read as a double. `HasValues` says which values a type has in it, and `ReadsBack`
that what is written comes back if these are finite, and is not read otherwise. This is so whether
the members of objects stand as they were written or in name order.

A record is written member by member and read field by field. `Fields.Reads` says what some fields
make of the members that were written: they give back what was written, or fail. It is put together
along the fields of a record, for which each way of writing and reading a field has to be looked at
once (`Fields.Reads.required`, `Fields.Reads.optional`, `Fields.Reads.list`, `Fields.Reads.orElse`).

* `ReadsBack.ofFields` : a record comes back if its fields do;
* `ReadsBack.decode_eq_ok` : what has no values in it always comes back.
-/

namespace WideColumn

/-! ### The values in a record -/

namespace Value

/-- Whether a value is not a double, or a double that is a number. -/
def isFinite : Value → Bool
  | double x => Decimal.isFinite x
  | _ => true

/-- Whether all of some values are finite. -/
def allFinite (vs : List Value) : Bool := vs.all isFinite

@[simp] theorem allFinite_nil : allFinite [] = true := rfl

@[simp] theorem allFinite_append (vs ws : List Value) :
    allFinite (vs ++ ws) = (allFinite vs && allFinite ws) := List.all_append

end Value

/-- Types that may have values of cells, of operands or of filters in them. -/
class HasValues (α : Type) where
  /-- The values, in the order in which they are written. -/
  valuesOf : α → List Value := fun _ => []

export HasValues (valuesOf)

/-- Types that have no values in them. -/
class NoValues (α : Type) [HasValues α] : Prop where
  /-- There are none. -/
  valuesOf_eq_nil : ∀ a : α, valuesOf a = []

@[simp] theorem valuesOf_eq_nil {α : Type} [HasValues α] [NoValues α] (a : α) : valuesOf a = [] :=
  NoValues.valuesOf_eq_nil a

section Containers

variable {α : Type} [HasValues α]

instance : HasValues (Option α) where
  valuesOf o := o.toList.flatMap valuesOf

instance : HasValues (List α) where
  valuesOf xs := xs.flatMap valuesOf

instance : HasValues (SortedMap String α) where
  valuesOf m := m.values.flatMap valuesOf

instance [NoValues α] : NoValues (Option α) where
  valuesOf_eq_nil _ := List.flatMap_eq_nil_iff.2 fun a _ => valuesOf_eq_nil a

instance [NoValues α] : NoValues (List α) where
  valuesOf_eq_nil _ := List.flatMap_eq_nil_iff.2 fun a _ => valuesOf_eq_nil a

theorem allFinite_flatMap (xs : List α) :
    Value.allFinite (xs.flatMap valuesOf) = xs.all fun a => Value.allFinite (valuesOf a) :=
  List.all_flatMap

end Containers

/-- What is written comes back if all values in it are finite, and is not read otherwise. -/
class ReadsBack (α : Type) [Wire α] [HasValues α] : Prop where
  /-- Nothing is written as null, which stands for a field that is not set. -/
  encode_ne_null : ∀ a : α, encode a ≠ .null
  /-- What is written comes back or is not read. -/
  toOption_decode : ∀ (byName : Bool) (a : α),
    (decode ((encode a).arranged byName) : Except DecodeFault α).toOption =
      if Value.allFinite (valuesOf a) then some a else none

/-! ### Results without their faults -/

section Results

variable {ε ε' α β : Type}

theorem eq_ok_of_toOption {x : Except ε α} {a : α} (h : x.toOption = some a) : x = .ok a := by
  cases x with
  | error e => cases h
  | ok b => exact congrArg _ (Option.some.inj h)

theorem exists_error_of_toOption {x : Except ε α} (h : x.toOption = none) :
    ∃ e, x = .error e := by
  cases x with
  | error e => exact ⟨e, rfl⟩
  | ok b => cases h

theorem toOption_mapError (x : Except ε α) (f : ε → ε') : (x.mapError f).toOption = x.toOption := by
  cases x <;> rfl

theorem toOption_map (x : Except ε α) (f : α → β) : (x.map f).toOption = x.toOption.map f := by
  cases x <;> rfl

theorem toOption_bind (x : Except ε α) (f : α → Except ε β) :
    (x >>= f).toOption = x.toOption.bind fun a => (f a).toOption := by
  cases x <;> rfl

/-- Items that come back one by one under some tests come back together under all of them. -/
theorem toOption_mapM_map {item : β → Except ε α} {write : α → β} {test : α → Bool} {xs : List α}
    (h : ∀ a ∈ xs, (item (write a)).toOption = if test a then some a else none) :
    ((xs.map write).mapM item).toOption = if xs.all test then some xs else none := by
  induction xs with
  | nil => rfl
  | cons a xs ih =>
    obtain ⟨ha, hxs⟩ := List.forall_mem_cons.1 h
    rw [List.map_cons, List.mapM_cons, toOption_bind, ha, List.all_cons]
    cases test a with
    | false => rfl
    | true =>
      rw [if_pos rfl, Option.bind_some, toOption_bind, ih hxs, Bool.true_and]
      cases xs.all test <;> rfl

end Results

/-- What has no values in it always comes back. -/
theorem ReadsBack.decode_eq_ok {α : Type} [Wire α] [HasValues α] [NoValues α] [ReadsBack α]
    (byName : Bool) (a : α) : decode ((encode a).arranged byName) = .ok a :=
  eq_ok_of_toOption (by rw [toOption_decode, valuesOf_eq_nil]; rfl)

/-! ### Plain values -/

instance : HasValues String := {}
instance : HasValues Bool := {}
instance : HasValues Int64 := {}
instance : HasValues Bytes := {}
instance : NoValues String := ⟨fun _ => rfl⟩
instance : NoValues Bool := ⟨fun _ => rfl⟩
instance : NoValues Int64 := ⟨fun _ => rfl⟩
instance : NoValues Bytes := ⟨fun _ => rfl⟩

instance : ReadsBack String where
  encode_ne_null _ := nofun
  toOption_decode byName s :=
    congrArg (fun j => (decode j).toOption) (Json.arranged_string byName s)

instance : ReadsBack Bool where
  encode_ne_null _ := nofun
  toOption_decode byName b :=
    congrArg (fun j => (decode j).toOption) (Json.arranged_bool byName b)

instance : ReadsBack Int64 where
  encode_ne_null _ := nofun
  toOption_decode byName n := by
    change (decode ((Json.integer n.toInt).arranged byName)).toOption = _
    rw [Json.arranged_integer]
    change (DecodeFault.ofOption (Decimal.toInt64? n.toInt)).toOption = _
    rw [Decimal.toInt64?, if_pos ⟨Int64.minValue_le_toInt n, Int64.toInt_le n⟩, Int64.ofInt_toInt]
    rfl

theorem toOption_byteOfJson (b : UInt8) : (byteOfJson (.integer b.toNat)).toOption = some b := by
  have hb := b.toNat_lt
  rw [byteOfJson, if_pos (by omega), Int.toNat_natCast, UInt8.ofNat_toNat]
  rfl

instance : ReadsBack Bytes where
  encode_ne_null _ := nofun
  toOption_decode byName bs := by
    have hitem (b : UInt8) (_ : b ∈ bs) :
        (byteOfJson ((Json.integer b.toNat).arranged byName)).toOption =
          if (fun _ => true) b then some b else none := by
      rw [Json.arranged_integer]
      exact toOption_byteOfJson b
    have h := toOption_mapM_map hitem
    rw [List.all_eq_true.2 fun _ _ => rfl] at h
    change (decode ((Json.array _).arranged byName)).toOption = _
    rw [Json.arranged_array, List.map_map]
    exact h

/-- Members of an enumeration come back if their names tell them apart. -/
theorem ReadsBack.ofEnumeration {α : Type} [Enumeration α] [HasValues α] [NoValues α]
    (hnames : ∀ a : α, Enumeration.ofName? (Enumeration.name a) = some a) :
    @ReadsBack α (.ofEnumeration α) _ :=
  let _ : Wire α := .ofEnumeration α
  { encode_ne_null := fun _ => nofun
    toOption_decode := fun byName a => by
      change (decodeName ((Json.string (Enumeration.name a)).arranged byName)).toOption = _
      rw [Json.arranged_string, decodeName, hnames, valuesOf_eq_nil]
      rfl }

/-! ### Lists and maps -/

/-- Items that come back one by one come back as a list. -/
theorem toOption_decodeItems {α : Type} [HasValues α] {item : Json → Except DecodeFault α}
    {write : α → Json} {xs : List α} {byName : Bool}
    (h : ∀ a ∈ xs, (item ((write a).arranged byName)).toOption =
      if Value.allFinite (valuesOf a) then some a else none) :
    (decodeItems item ((Json.array (xs.map write)).arranged byName)).toOption =
      if Value.allFinite (valuesOf xs) then some xs else none := by
  rw [Json.arranged_array, List.map_map]
  refine (toOption_mapM_map h).trans ?_
  rw [← allFinite_flatMap]
  rfl

section Containers

variable {α : Type} [Wire α] [HasValues α] [ReadsBack α]

instance : ReadsBack (List α) where
  encode_ne_null _ := nofun
  toOption_decode byName _ := toOption_decodeItems fun a _ => ReadsBack.toOption_decode byName a

instance : ReadsBack (SortedMap String α) where
  encode_ne_null _ := nofun
  toOption_decode byName m := by
    have hmember (e : String × α) (_ : e ∈ m.entries) :
        ((do return (e.1, ← decode ((encode e.2).arranged byName))) :
          Except DecodeFault (String × α)).toOption =
          if Value.allFinite (valuesOf e.2) then some e else none := by
      rw [toOption_bind, ReadsBack.toOption_decode]
      cases Value.allFinite (valuesOf e.2) <;> rfl
    have hentries : ((m.entries.map fun e : String × α => (e.1, (encode e.2).arranged byName)).mapM
        fun e => (do return (e.1, ← decode e.2) : Except DecodeFault (String × α))).toOption = _ :=
      toOption_mapM_map hmember
    have hwritten : (encode m).arranged byName =
        .object (m.entries.map fun e => (e.1, (encode e.2).arranged byName)) := by
      refine (Json.arranged_object byName _).trans (congrArg _ ?_)
      rw [Json.arrangedMembers_of_pairwise _ (List.pairwise_map.2 m.sorted), List.map_map]
      rfl
    have hvalues : Value.allFinite (valuesOf m) =
        m.entries.all fun e => Value.allFinite (valuesOf e.2) := by
      refine (allFinite_flatMap m.values).trans ?_
      rw [SortedMap.values, List.all_map]
      rfl
    rw [hvalues, hwritten]
    refine (toOption_bind _ _).trans ?_
    rw [hentries]
    cases m.entries.all fun e => Value.allFinite (valuesOf e.2)
    · rfl
    · exact congrArg some m.ofList_entries

end Containers

/-! ### Members of objects -/

section Written

variable {α : Type} [Wire α]

@[simp] theorem filter_field (name name' : String) (a : α) :
    (field name a).filter (·.1 == name') = if name = name' then field name a else [] := by
  by_cases h : name = name' <;> simp [field, h]

@[simp] theorem filter_optionalField (name name' : String) (o : Option α) :
    (optionalField name o).filter (·.1 == name') =
      if name = name' then optionalField name o else [] := by
  by_cases h : name = name' <;> cases o <;> simp [optionalField, h]

@[simp] theorem filter_listField (name name' : String) (xs : List α) :
    (listField name xs).filter (·.1 == name') =
      if name = name' then listField name xs else [] := by
  unfold listField
  by_cases h : name = name' <;> cases xs <;> simp [h]

/-- A field that is left out under some condition. -/
@[simp] theorem filter_omitted (c : Bool) (name name' : String) (a : α) :
    (if c then [] else field name a).filter (·.1 == name') =
      if name = name' then if c then [] else field name a else [] := by
  cases c <;> simp

end Written

namespace FieldSource

variable {ms : List (String × Json)} {name : String}

theorem find_of_filter_eq_nil (h : ms.filter (·.1 == name) = []) (i : Nat) :
    (members ms).find name i = .missing := by
  have hnone : ms.findIdx? (fun m => m.1 == name) = none := by
    simpa [List.filter_eq_nil_iff] using h
  simp only [find, hnone]

theorem find_of_filter_eq_singleton {m : String × Json} (h : ms.filter (·.1 == name) = [m])
    (i : Nat) : ∃ p, (members ms).find name i = .present p m.2 := by
  obtain ⟨before, after, rfl, hbefore, hm, hafter⟩ := List.filter_eq_cons_iff.1 h
  have hnone : before.findIdx? (fun m => m.1 == name) = none := by simpa using hbefore
  have hfirst : (before ++ m :: after).findIdx? (fun m => m.1 == name) = some before.length := by
    rw [List.findIdx?_append, hnone, Option.none_or, List.findIdx?_cons, if_pos hm]
    simp
  have hsecond : after.findIdx? (fun m => m.1 == name) = none := by
    simpa [List.filter_eq_nil_iff] using hafter
  have hlookup : (before ++ m :: after).lookup name = some m.2 := by
    have hbefore : before.lookup name = none :=
      List.lookup_eq_none_iff.2 fun e he => by
        rw [bne_iff_ne]
        exact fun heq => hbefore e he (beq_iff_eq.2 heq.symm)
    rw [List.lookup_append, hbefore, Option.none_or, ← beq_iff_eq.1 hm, List.lookup_cons_self]
  refine ⟨before.length, ?_⟩
  simp only [find, hfirst, List.drop_length_add_append, List.drop_one, List.tail_cons, hsecond,
    hlookup, Option.getD_some]

end FieldSource

/-! ### Fields of records -/

namespace Fields

variable {α β : Type}

/-- Of fields that are read one after the other, each has to be read. -/
theorem toOption_read_seq (f : Fields (α → β)) (x : Fields α) (s : FieldSource) (i : Nat) :
    ((f <*> x).read s i).toOption =
      (f.read s i).toOption.bind fun g => (x.read s (i + f.count)).toOption.map g := by
  change ((f.seq x).read s i).toOption = _
  unfold seq
  dsimp only
  cases f.read s i <;> cases x.read s (i + f.count) <;> rfl

/-- Some fields of an object give back `a` if the values `vs` are finite, and fail otherwise. -/
def Reads (f : Fields α) (ms : List (String × Json)) (vs : List Value) (a : α) : Prop :=
  ∀ byName i, (f.read (.members (Json.arrangedMembers byName ms)) i).toOption =
    if Value.allFinite vs then some a else none

namespace Reads

variable {ms : List (String × Json)} {vs ws : List Value} {name : String}

theorem pure (a : α) : (Pure.pure a : Fields α).Reads ms [] a := fun _ _ => rfl

theorem seq {f : Fields (α → β)} {x : Fields α} {g : α → β} {a : α} (hf : f.Reads ms vs g)
    (hx : x.Reads ms ws a) : (f <*> x).Reads ms (vs ++ ws) (g a) := by
  intro byName i
  rw [toOption_read_seq, hf, hx, Value.allFinite_append]
  cases Value.allFinite vs <;> cases Value.allFinite ws <;> rfl

/-- A member holds what was written for a field, and is read as that is. -/
theorem of_present [Wire α] {x : Fields α} {w a : α} {missing : Except DecodeFault α}
    (hx : ∀ s i, x.read s i = ofFound s Wire.decode missing (s.find name i))
    (h : ms.filter (·.1 == name) = field name w)
    (hback : ∀ byName, (Wire.decode ((encode w).arranged byName) : Except DecodeFault α).toOption =
      if Value.allFinite vs then some a else none) : x.Reads ms vs a := by
  intro byName i
  obtain ⟨p, hp⟩ :=
    FieldSource.find_of_filter_eq_singleton (Json.filter_arrangedMembers byName h) i
  rw [hx, hp, ofFound, toOption_mapError, hback]

section Kinds

variable [Wire α] [HasValues α] [ReadsBack α] {f : Fields (α → β)} {g : α → β}

/-- After the fields `f`, one that is always written and has to be there. -/
theorem required {a : α} (hf : f.Reads ms vs g)
    (h : ms.filter (·.1 == name) = field name a := by simp) :
    (f <*> Fields.required name).Reads ms (vs ++ valuesOf a) (g a) :=
  hf.seq (of_present (fun _ _ => rfl) h (ReadsBack.toOption_decode · a))

/-- After the fields `f`, one that is always written but may be missing. -/
theorem orElse {a default : α} (hf : f.Reads ms vs g)
    (h : ms.filter (·.1 == name) = field name a := by simp) :
    (f <*> Fields.orElse name default).Reads ms (vs ++ valuesOf a) (g a) :=
  hf.seq (of_present (fun _ _ => rfl) h (ReadsBack.toOption_decode · a))

/-- After the fields `f`, one that is left out where it has the value that it has when missing. -/
theorem omitted {a default : α} {c : Bool} (hf : f.Reads ms vs g)
    (hc : c = true → a = default) (hdefault : valuesOf default = [])
    (h : ms.filter (·.1 == name) = if c then [] else field name a := by simp) :
    (f <*> Fields.orElse name default).Reads ms (vs ++ valuesOf a) (g a) := by
  refine hf.seq ?_
  cases c with
  | true =>
    rw [if_pos rfl] at h
    rw [hc rfl, hdefault]
    intro byName i
    simp only [Fields.orElse, ofFound,
      FieldSource.find_of_filter_eq_nil (Json.filter_arrangedMembers_eq_nil byName h)]
    rfl
  | false =>
    rw [if_neg Bool.false_ne_true] at h
    exact of_present (fun _ _ => rfl) h (ReadsBack.toOption_decode · a)

end Kinds

/-- After the fields `f`, one that is written if it is set. -/
theorem optional [Wire α] [HasValues α] [ReadsBack α] {f : Fields (Option α → β)}
    {g : Option α → β} {o : Option α}
    (hf : f.Reads ms vs g) (h : ms.filter (·.1 == name) = optionalField name o := by simp) :
    (f <*> Fields.optional name).Reads ms (vs ++ valuesOf o) (g o) := by
  refine hf.seq fun byName i => ?_
  cases o with
  | none =>
    simp only [Fields.optional, ofFound,
      FieldSource.find_of_filter_eq_nil (Json.filter_arrangedMembers_eq_nil byName h)]
    rfl
  | some a =>
    have hvalues : valuesOf (some a) = valuesOf a := List.append_nil _
    have hnull := mt (Json.arranged_eq_null_iff byName).1 (ReadsBack.encode_ne_null a)
    have hback := ReadsBack.toOption_decode byName a
    obtain ⟨p, hp⟩ :=
      FieldSource.find_of_filter_eq_singleton (Json.filter_arrangedMembers byName h) i
    simp only [Fields.optional, hp, ofFound]
    rw [toOption_mapError, hvalues]
    generalize (encode a).arranged byName = j at hnull hback
    have hread : ((Wire.decode j : Except DecodeFault α).map some).toOption =
        if Value.allFinite (valuesOf a) then some (some a) else none := by
      rw [toOption_map, hback]
      cases Value.allFinite (valuesOf a) <;> rfl
    cases j with
    | null => exact absurd rfl hnull
    | _ => exact hread

/-- After the fields `f`, a list that is left out where it is empty. -/
theorem list [Wire α] [HasValues α] [ReadsBack α] {f : Fields (List α → β)} {g : List α → β}
    {xs : List α} (hf : f.Reads ms vs g)
    (h : ms.filter (·.1 == name) = listField name xs := by simp) :
    (f <*> Fields.orElse name []).Reads ms (vs ++ valuesOf xs) (g xs) :=
  hf.omitted (c := xs.isEmpty) List.isEmpty_iff.1 rfl h

/-- What becomes of an object with these members. -/
theorem toOption_decode {f : Fields α} {a : α} (h : f.Reads ms vs a) (byName : Bool) :
    (f.decode ((Json.object ms).arranged byName)).toOption =
      if Value.allFinite vs then some a else none := by
  rw [Json.arranged_object, ← h byName 0]
  exact toOption_mapError _ _

end Reads

end Fields

/-- What becomes of a record, by what becomes of its fields. -/
theorem Wire.toOption_decode {α : Type} {wire : Wire α} {f : Fields α}
    {write : α → List (String × Json)} (hwire : wire = ⟨fun a => .object (write a), f.decode⟩)
    {a b : α} {vs : List Value} (hreads : f.Reads (write a) vs b) (byName : Bool) :
    (decode ((encode a).arranged byName) : Except DecodeFault α).toOption =
      if Value.allFinite vs then some b else none := by
  have hencode : encode a = .object (write a) := congrArg (·.encode a) hwire
  have hdecode (j : Json) : decode j = f.decode j := congrArg (·.decode j) hwire
  rw [hencode, hdecode]
  exact hreads.toOption_decode byName

/-- A record comes back if its fields do. -/
theorem ReadsBack.ofFields {α : Type} {wire : Wire α} [HasValues α] {f : Fields α}
    {write : α → List (String × Json)} {values : α → List Value}
    (hwire : wire = ⟨fun a => .object (write a), f.decode⟩)
    (hreads : ∀ a, f.Reads (write a) (values a) a)
    (hvalues : ∀ a, values a = valuesOf a := by intro; simp; rfl) : ReadsBack α := by
  constructor
  · intro a
    have hencode : encode a = .object (write a) := congrArg (·.encode a) hwire
    rw [hencode]
    nofun
  · intro byName a
    rw [← hvalues]
    exact Wire.toOption_decode hwire (hreads a) byName

end WideColumn
