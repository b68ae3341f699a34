import WideColumn.Proofs.Wire
import WideColumn.Record.Request
import WideColumn.Record.Response

/-!
# Every record comes back

All records are written so that they can be read again. Only a double that is no number cannot: in
a cell, an operand or a filter it makes the whole record unreadable. A search carries JSON of the
caller, of which an object comes back with its members in name order.

For most records it is enough to say for each field how it is written. Values, update sets and
filters have codecs of their own.

* `recordTypes` : the records of requests, responses, filters, updates, tables and values;
* `decode_encode_record` : any record of any of these types comes back, or is not read.
-/

namespace WideColumn

open Fields.Reads

/-! ### Values and rows -/

theorem toOption_decodeBinary (bs : Bytes) (byName : Bool) :
    (decodeBinary ((encode (Base64.encode bs)).arranged byName)).toOption = some bs := by
  have h : (encode (Base64.encode bs)).arranged byName = .string (Base64.encode bs) :=
    Json.arranged_string byName _
  rw [h]
  change (DecodeFault.ofOption (Base64.decode? (Base64.encode bs))).toOption = some bs
  rw [Base64.decode?_encode]
  rfl

instance : HasValues Value := ⟨fun v => [v]⟩

theorem Value.toOption_ofTag (v : Value) (byName : Bool) :
    (ofTag v.typeName (v.payload.arranged byName)).toOption =
      if v.isFinite then some v else none := by
  cases v with
  | string s => exact (toOption_map _ _).trans (by rw [payload, ReadsBack.toOption_decode]; rfl)
  | integer n => exact (toOption_map _ _).trans (by rw [payload, ReadsBack.toOption_decode]; rfl)
  | boolean b => exact (toOption_map _ _).trans (by rw [payload, ReadsBack.toOption_decode]; rfl)
  | binary bs => exact (toOption_map _ _).trans (by rw [payload, toOption_decodeBinary]; rfl)
  | double x =>
    refine (toOption_map _ _).trans ?_
    change Option.map _ (decode ((if Decimal.isFinite x then Json.real x else .null).arranged
      byName)).toOption = if Decimal.isFinite x then some (Value.double x) else none
    cases Decimal.isFinite x with
    | true => rw [if_pos rfl, if_pos rfl, Json.arranged_real]; rfl
    | false => rw [if_neg Bool.false_ne_true, if_neg Bool.false_ne_true, Json.arranged_null]; rfl

instance : ReadsBack Value where
  encode_ne_null _ := nofun
  toOption_decode byName v := by
    change (decodeTagged _ Value.ofTag ((Json.object [_]).arranged byName)).toOption = _
    rw [Json.arranged_object_singleton, decodeTagged, Value.toOption_ofTag]
    simp [Value.allFinite, valuesOf]

instance : HasValues KeyValue := {}
instance : NoValues KeyValue := ⟨fun _ => rfl⟩

theorem KeyValue.toOption_ofTag (v : KeyValue) (byName : Bool) :
    (ofTag v.tagged.1 (v.tagged.2.arranged byName)).toOption = some v := by
  cases v with
  | string s => exact (toOption_map _ _).trans (by rw [tagged, ReadsBack.toOption_decode]; rfl)
  | integer n => exact (toOption_map _ _).trans (by rw [tagged, ReadsBack.toOption_decode]; rfl)
  | binary bs => exact (toOption_map _ _).trans (by rw [tagged, toOption_decodeBinary]; rfl)
  | infMin | infMax | autoIncrement => rfl

instance : ReadsBack KeyValue where
  encode_ne_null _ := nofun
  toOption_decode byName v := by
    change (decodeTagged _ KeyValue.ofTag ((Json.object [_]).arranged byName)).toOption = _
    rw [Json.arranged_object_singleton, decodeTagged, KeyValue.toOption_ofTag, valuesOf_eq_nil]
    rfl

instance : HasValues KeyColumn := {}
instance : ReadsBack KeyColumn := .ofFields rfl fun _ => pure _ |>.required |>.required
instance : NoValues KeyColumn := ⟨fun _ => rfl⟩

instance : HasValues Cell := ⟨fun c => valuesOf c.value⟩
instance : ReadsBack Cell := .ofFields rfl fun _ => pure _ |>.required |>.required |>.optional

instance : HasValues Row := ⟨fun r => valuesOf r.cells⟩
instance : ReadsBack Row := .ofFields rfl fun _ => pure _ |>.required |>.list

/-! ### Updates -/

instance : HasValues ColumnOperand := ⟨fun o => valuesOf o.value⟩
instance : ReadsBack ColumnOperand := .ofFields rfl fun _ =>
  pure _ |>.required |>.optional |>.optional

namespace UpdateSet

instance : HasValues UpdateSet := ⟨fun u => u.toList.flatMap fun e => valuesOf e.2⟩

/-- The kinds in the order of their names. -/
def kindsByName : List UpdateKind := [.deleteAll, .delete, .increment, .put]

theorem pairwise_kindsByName : kindsByName.Pairwise fun kind kind' =>
    compare (Enumeration.name kind) (Enumeration.name kind') = .lt := by
  decide +kernel

/-- The operands of some kinds as they are written. -/
def membersOf (u : UpdateSet) (byName : Bool) (kinds : List UpdateKind) : List (String × Json) :=
  kinds.filterMap fun kind =>
    (u.get? kind).map fun operands => (Enumeration.name kind, (encode operands).arranged byName)

theorem arranged_encode (u : UpdateSet) (byName : Bool) :
    ((encode u).arranged byName) =
      .object (u.membersOf byName (if byName then kindsByName else Enumeration.members)) := by
  have hmembers : u.toList.map (fun e => (Enumeration.name e.1, encode e.2)) =
      u.membersOf false Enumeration.members := by
    simp [membersOf, toList, List.map_filterMap, Function.comp_def]
  refine (Json.arranged_object byName _).trans (congrArg _ ?_)
  rw [hmembers]
  cases byName with
  | false => rfl
  | true =>
    have hperm : (Enumeration.members : List UpdateKind).Perm kindsByName := by decide
    refine (Json.sortedMembers_of_perm (hperm.filterMap _) ?_).trans ?_
    · refine pairwise_kindsByName.filterMap _ fun _ _ hlt b hb b' hb' => ?_
      obtain ⟨_, _, rfl⟩ := Option.map_eq_some_iff.1 hb
      obtain ⟨_, _, rfl⟩ := Option.map_eq_some_iff.1 hb'
      exact hlt
    · simp [membersOf, List.map_filterMap, Function.comp_def]

/-- Take over the operands of a kind if there are any. -/
def take (u v : UpdateSet) (kind : UpdateKind) : UpdateSet :=
  match u.get? kind with
  | some operands => v.set kind operands
  | none => v

theorem toOption_foldlM_addMember (u v : UpdateSet) (byName : Bool) (kinds : List UpdateKind) :
    ((u.membersOf byName kinds).foldlM addMember v).toOption =
      if kinds.all fun kind => Value.allFinite (valuesOf (u.get? kind))
      then some (kinds.foldl u.take v) else none := by
  induction kinds generalizing v with
  | nil => rfl
  | cons kind kinds ih =>
    rw [List.all_cons, List.foldl_cons, take]
    cases hget : u.get? kind with
    | none =>
      have h : u.membersOf byName (kind :: kinds) = u.membersOf byName kinds := by
        simp [membersOf, hget]
      rw [h, ih]
      rfl
    | some operands =>
      have h : u.membersOf byName (kind :: kinds) =
          (Enumeration.name kind, (encode operands).arranged byName) ::
            u.membersOf byName kinds := by
        simp [membersOf, hget]
      have hname : Enumeration.ofName? (Enumeration.name kind) = some kind := by
        cases kind <;> rfl
      have hvalues : valuesOf (some operands) = valuesOf operands := List.append_nil _
      rw [h, List.foldlM_cons, toOption_bind, addMember, hname, hvalues]
      change Option.bind (Except.toOption (decode _ >>= fun os => .ok (v.set kind os))) _ = _
      rw [toOption_bind, ReadsBack.toOption_decode]
      cases Value.allFinite (valuesOf operands) with
      | false => rfl
      | true => exact ih _

theorem foldl_take (u : UpdateSet) (byName : Bool) :
    (if byName then kindsByName else Enumeration.members).foldl u.take {} = u := by
  cases byName <;> obtain ⟨_ | _, _ | _, _ | _, _ | _⟩ := u <;> rfl

theorem all_kinds (u : UpdateSet) (byName : Bool) :
    ((if byName then kindsByName else Enumeration.members).all fun kind =>
      Value.allFinite (valuesOf (u.get? kind))) = Value.allFinite (valuesOf u) := by
  have hperm : (if byName then kindsByName else Enumeration.members).Perm Enumeration.members := by
    cases byName <;> decide
  have hvalues : valuesOf u = Enumeration.members.flatMap fun kind => valuesOf (u.get? kind) := by
    obtain ⟨_ | _, _ | _, _ | _, _ | _⟩ := u <;> simp [valuesOf, toList, get?, Enumeration.members]
  rw [hperm.all_eq, hvalues, Value.allFinite, List.all_flatMap]
  rfl

instance : ReadsBack UpdateSet where
  encode_ne_null _ := nofun
  toOption_decode byName u := by
    rw [arranged_encode]
    refine (toOption_foldlM_addMember u {} byName _).trans ?_
    rw [foldl_take, all_kinds]

end UpdateSet

/-! ### Filters and conditions -/

instance : HasValues RowExistence := {}
instance : NoValues RowExistence := ⟨fun _ => rfl⟩
instance : ReadsBack RowExistence := .ofEnumeration fun a => by cases a <;> rfl

instance : HasValues ReturnType := {}
instance : NoValues ReturnType := ⟨fun _ => rfl⟩
instance : ReadsBack ReturnType := .ofEnumeration fun a => by cases a <;> rfl

instance : HasValues Direction := {}
instance : NoValues Direction := ⟨fun _ => rfl⟩
instance : ReadsBack Direction := .ofEnumeration fun a => by cases a <;> rfl

instance : HasValues Comparator := {}
instance : NoValues Comparator := ⟨fun _ => rfl⟩
instance : ReadsBack Comparator := .ofEnumeration fun a => by cases a <;> rfl

instance : HasValues Connective := {}
instance : NoValues Connective := ⟨fun _ => rfl⟩
instance : ReadsBack Connective := .ofEnumeration fun a => by cases a <;> rfl

instance : HasValues WriteKind := {}
instance : NoValues WriteKind := ⟨fun _ => rfl⟩
instance : ReadsBack WriteKind := .ofEnumeration fun a => by cases a <;> rfl

instance : HasValues ColumnFilter := ⟨fun f => valuesOf f.value ++ valuesOf f.extra⟩

theorem SortedMap.eq_empty_of_isEmpty {α : Type} {m : SortedMap String α}
    (h : m.isEmpty = true) : m = .empty :=
  (SortedMap.mk.injEq ..).mpr (List.isEmpty_iff.1 h)

instance : ReadsBack ColumnFilter := .ofFields rfl fun f =>
  pure _ |>.required |>.required |>.required |>.optional |>.required
    |>.omitted (c := f.extra.isEmpty) SortedMap.eq_empty_of_isEmpty rfl

namespace Filter

instance : HasValues Filter := ⟨fun f => f.leaves.flatMap valuesOf⟩

theorem partsToJson_eq_map (parts : List Filter) : partsToJson parts = parts.map toJson := by
  induction parts with
  | nil => rfl
  | cons f fs ih => rw [partsToJson, ih, List.map_cons]

theorem valuesOf_composite (op : Connective) (parts : List Filter) :
    valuesOf (composite op parts) = valuesOf parts := by
  have h (fs : List Filter) : leavesOf fs = fs.flatMap leaves := by
    induction fs with
    | nil => rfl
    | cons f fs ih => rw [leavesOf, ih, List.flatMap_cons]
  change (leaves (composite op parts)).flatMap valuesOf = _
  rw [leaves, h, List.flatMap_assoc]
  rfl

mutual
/-- How deep combinations nest. -/
def height : Filter → Nat
  | .single _ => 0
  | .composite _ fs => heightOf fs + 1

/-- The greatest height of some parts. -/
def heightOf : List Filter → Nat
  | [] => 0
  | f :: fs => max f.height (heightOf fs)
end

/-- The members of a combination are written in name order. -/
theorem arranged_toJson_composite (op : Connective) (parts : List Filter) (byName : Bool) :
    (toJson (composite op parts)).arranged byName = .object [("Composite", .object
      [("Combinator", .string (Enumeration.name op)),
        ("SubFilters", .array (parts.map fun f => f.toJson.arranged byName))])] := by
  have hsorted : (field "Combinator" op ++
      [("SubFilters", Json.array (partsToJson parts))]).Pairwise fun a b =>
        compare a.1 b.1 = .lt := by
    refine List.pairwise_pair.2 ?_
    change compare "Combinator" "SubFilters" = .lt
    decide +kernel
  have hop : (encode op).arranged byName = .string (Enumeration.name op) :=
    Json.arranged_string byName _
  rw [toJson, Json.arranged_object_singleton, Json.arranged_object,
    Json.arrangedMembers_of_pairwise byName hsorted, partsToJson_eq_map]
  simp only [field, List.cons_append, List.nil_append, List.map_cons, List.map_nil, hop,
    Json.arranged_array, List.map_map]
  rfl

mutual
/-- What is written of a filter is deep enough to be read. -/
theorem height_le_depth (byName : Bool) :
    ∀ f : Filter, f.height ≤ (f.toJson.arranged byName).depth
  | .single _ => Nat.zero_le _
  | .composite op parts => by
    have h := heightOf_le_depthOfItems byName parts
    rw [height, arranged_toJson_composite]
    simp only [Json.depth, Json.depthOfMembers]
    omega

/-- What is written of some filters is deep enough to be read. -/
theorem heightOf_le_depthOfItems (byName : Bool) : ∀ fs : List Filter,
    heightOf fs ≤ Json.depthOfItems (fs.map fun f => f.toJson.arranged byName)
  | [] => Nat.zero_le _
  | f :: fs => by
    have hf := height_le_depth byName f
    have hfs := heightOf_le_depthOfItems byName fs
    rw [heightOf, List.map_cons, Json.depthOfItems]
    omega
end

/-- Parts that come back make up a combination that comes back. -/
theorem toOption_ofJson_composite {op : Connective} {parts : List Filter} {n : Nat}
    (h : ∀ f ∈ parts, ∀ byName, (ofJson n (f.toJson.arranged byName)).toOption =
      if Value.allFinite (valuesOf f) then some f else none) (byName : Bool) :
    (ofJson (n + 1) ((toJson (composite op parts)).arranged byName)).toOption =
      if Value.allFinite (valuesOf parts) then some (composite op parts) else none := by
  let _ : Wire Filter := ⟨toJson, ofJson n⟩
  have hparts (byName : Bool) := toOption_decodeItems fun f hf => h f hf byName
  have hreads : Fields.Reads (Combination.mk <$> .required "Combinator" <*> .required "SubFilters")
      (field "Combinator" op ++ field "SubFilters" parts) ([] ++ valuesOf op ++ valuesOf parts)
      ⟨op, parts⟩ :=
    ((pure _).required).seq (of_present (fun _ _ => rfl) (by simp) hparts)
  have hdecode := hreads.toOption_decode byName
  rw [toJson, Json.arranged_object_singleton, partsToJson_eq_map, ofJson]
  refine (toOption_map _ _).trans ?_
  refine (congrArg (Option.map _) hdecode).trans ?_
  rw [valuesOf_eq_nil, List.append_nil, List.nil_append]
  cases Value.allFinite (valuesOf parts) <;> rfl

mutual
/-- A filter comes back if the reader goes deep enough. -/
theorem toOption_ofJson : ∀ (f : Filter) {n : Nat}, f.height ≤ n → ∀ byName,
    (ofJson n (f.toJson.arranged byName)).toOption =
      if Value.allFinite (valuesOf f) then some f else none
  | .single g, n, _, byName => by
    have hvalues : valuesOf (single g) = valuesOf g := List.append_nil _
    rw [toJson, Json.arranged_object_singleton, ofJson, hvalues]
    refine (toOption_map _ _).trans ?_
    rw [ReadsBack.toOption_decode]
    cases Value.allFinite (valuesOf g) <;> rfl
  | .composite op parts, n, hn, byName => by
    rw [height] at hn
    obtain ⟨m, rfl⟩ : ∃ m, n = m + 1 := ⟨n - 1, by omega⟩
    rw [toOption_ofJson_composite fun f hf => toOption_ofJson_parts parts (by omega) f hf,
      valuesOf_composite]

/-- The parts of a filter come back if the reader goes deep enough. -/
theorem toOption_ofJson_parts : ∀ (fs : List Filter) {n : Nat}, heightOf fs ≤ n →
    ∀ f ∈ fs, ∀ byName, (ofJson n (f.toJson.arranged byName)).toOption =
      if Value.allFinite (valuesOf f) then some f else none
  | [], _, _, _, hf => nomatch hf
  | g :: fs, n, hn, f, hf => by
    rw [heightOf] at hn
    rcases List.mem_cons.1 hf with heq | hf
    · rw [heq]
      exact toOption_ofJson g (by omega)
    · exact toOption_ofJson_parts fs (by omega) f hf
end

instance : ReadsBack Filter where
  encode_ne_null f := by
    cases f <;> exact nofun
  toOption_decode byName f := toOption_ofJson f (height_le_depth byName f) byName

end Filter

instance : HasValues (Combination Filter) := ⟨fun c => valuesOf c.parts⟩
instance : ReadsBack (Combination Filter) := .ofFields rfl fun _ => pure _ |>.required |>.required

instance : HasValues Condition := ⟨fun c => valuesOf c.filter⟩
instance : ReadsBack Condition := .ofFields rfl fun _ => pure _ |>.required |>.optional

/-! ### Tables and their settings -/

instance : HasValues UpdateKind := {}
instance : NoValues UpdateKind := ⟨fun _ => rfl⟩
instance : ReadsBack UpdateKind := .ofEnumeration fun a => by cases a <;> rfl

instance : HasValues KeyType := {}
instance : NoValues KeyType := ⟨fun _ => rfl⟩
instance : ReadsBack KeyType := .ofEnumeration fun a => by cases a <;> rfl

instance : HasValues ColumnType := {}
instance : NoValues ColumnType := ⟨fun _ => rfl⟩
instance : ReadsBack ColumnType := .ofEnumeration fun a => by cases a <;> rfl

instance : HasValues IndexKind := {}
instance : NoValues IndexKind := ⟨fun _ => rfl⟩
instance : ReadsBack IndexKind := .ofEnumeration fun a => by cases a <;> rfl

instance : HasValues KeySchema := {}
instance : ReadsBack KeySchema := .ofFields rfl fun _ => pure _ |>.required |>.required |>.orElse
instance : NoValues KeySchema := ⟨fun _ => rfl⟩

instance : HasValues ColumnSchema := {}
instance : ReadsBack ColumnSchema := .ofFields rfl fun _ => pure _ |>.required |>.required
instance : NoValues ColumnSchema := ⟨fun _ => rfl⟩

instance : HasValues IndexMeta := {}
instance : ReadsBack IndexMeta := .ofFields rfl fun _ =>
  pure _ |>.required |>.required |>.list |>.orElse
instance : NoValues IndexMeta := ⟨fun _ => rfl⟩

instance : HasValues Capacity := {}
instance : ReadsBack Capacity := .ofFields rfl fun _ => pure _ |>.required |>.required
instance : NoValues Capacity := ⟨fun _ => rfl⟩

instance : HasValues TableOptions := {}
instance : ReadsBack TableOptions := .ofFields rfl fun _ =>
  pure _ |>.optional |>.optional |>.optional |>.optional
instance : NoValues TableOptions := ⟨fun _ => rfl⟩

instance : HasValues StreamSpec := {}
instance : ReadsBack StreamSpec := .ofFields rfl fun _ => pure _ |>.required |>.optional
instance : NoValues StreamSpec := ⟨fun _ => rfl⟩

instance : HasValues TimeRange := {}
instance : ReadsBack TimeRange := .ofFields rfl fun _ =>
  pure _ |>.optional |>.optional |>.optional
instance : NoValues TimeRange := ⟨fun _ => rfl⟩

instance : HasValues TableMeta := {}
instance : ReadsBack TableMeta := .ofFields rfl fun _ =>
  pure _ |>.required |>.orElse |>.list |>.list |>.orElse |>.orElse |>.optional |>.list
instance : NoValues TableMeta := ⟨fun _ => rfl⟩

/-! ### Requests -/

instance : HasValues CreateTable := {}
instance : ReadsBack CreateTable := .ofFields rfl fun _ =>
  pure _ |>.required |>.required |>.list |>.list |>.required |>.required |>.optional

instance : HasValues DeleteTable := {}
instance : ReadsBack DeleteTable := .ofFields rfl fun _ => pure _ |>.required

instance : HasValues DescribeTable := {}
instance : ReadsBack DescribeTable := .ofFields rfl fun _ => pure _ |>.required

instance : HasValues ListTables := {}
instance : ReadsBack ListTables := .ofFields rfl fun _ => pure _

instance : HasValues UpdateTable := {}
instance : ReadsBack UpdateTable := .ofFields rfl fun _ =>
  pure _ |>.required |>.optional |>.optional |>.required |>.optional

instance : HasValues GetRow := ⟨fun r => valuesOf r.filter⟩
instance : ReadsBack GetRow := .ofFields rfl fun _ =>
  pure _ |>.required |>.required |>.list |>.optional |>.optional |>.optional |>.optional
    |>.optional |>.optional

instance : HasValues PutRow := ⟨fun r => valuesOf r.cells ++ valuesOf r.condition⟩
instance : ReadsBack PutRow := .ofFields rfl fun _ =>
  pure _ |>.required |>.required |>.orElse |>.required |>.required |>.optional

instance : HasValues UpdateRow := ⟨fun r => valuesOf r.updates ++ valuesOf r.condition⟩
instance : ReadsBack UpdateRow := .ofFields rfl fun _ =>
  pure _ |>.required |>.required |>.orElse |>.required |>.required |>.list |>.optional

instance : HasValues DeleteRow := ⟨fun r => valuesOf r.condition⟩
instance : ReadsBack DeleteRow := .ofFields rfl fun _ =>
  pure _ |>.required |>.required |>.required |>.required |>.optional

instance : HasValues GetRange := ⟨fun r => valuesOf r.filter⟩
instance : ReadsBack GetRange := .ofFields rfl fun _ =>
  pure _ |>.required |>.required |>.list |>.optional |>.optional |>.optional |>.orElse |>.required
    |>.optional |>.optional |>.optional |>.optional |>.optional

instance : HasValues RowsQuery := ⟨fun r => valuesOf r.filter⟩
instance : ReadsBack RowsQuery := .ofFields rfl fun _ =>
  pure _ |>.required |>.required |>.list |>.optional |>.optional |>.optional |>.optional
    |>.optional

instance : HasValues BatchGet := ⟨fun r => valuesOf r.tables⟩
instance : ReadsBack BatchGet := .ofFields rfl fun _ => pure _ |>.required

theorem UpdateSet.eq_empty_of_isEmpty {u : UpdateSet} (h : u.isEmpty = true) : u = {} := by
  obtain ⟨_ | _, _ | _, _ | _, _ | _⟩ := u <;> first | rfl | cases h

instance : HasValues RowWrite := ⟨fun r =>
  valuesOf r.cells ++ (valuesOf r.updates ++ valuesOf r.condition)⟩

instance : ReadsBack RowWrite := .ofFields rfl fun r =>
  pure _ |>.required |>.required |>.list
    |>.omitted (c := r.updates.isEmpty) UpdateSet.eq_empty_of_isEmpty rfl |>.required |>.required
    |>.list

instance : HasValues TableWrites := ⟨fun r => valuesOf r.rows⟩
instance : ReadsBack TableWrites := .ofFields rfl fun _ => pure _ |>.required |>.required

instance : HasValues BatchWrite := ⟨fun r => valuesOf r.tables⟩
instance : ReadsBack BatchWrite := .ofFields rfl fun _ =>
  pure _ |>.required |>.optional |>.optional

instance : HasValues StartTransaction := {}
instance : ReadsBack StartTransaction := .ofFields rfl fun _ => pure _ |>.required |>.required

instance : HasValues CommitTransaction := {}
instance : ReadsBack CommitTransaction := .ofFields rfl fun _ => pure _ |>.required

instance : HasValues AbortTransaction := {}
instance : ReadsBack AbortTransaction := .ofFields rfl fun _ => pure _ |>.required

instance : HasValues Search := {}

/-- What a search looks for comes back with its members in name order. -/
theorem Search.toOption_decode (r : Search) (byName : Bool) :
    (decode ((encode r).arranged byName) : Except DecodeFault Search).toOption =
      some { r with query := r.query.sorted } := by
  have hquery (byName : Bool) :
      (decode ((encode r.query).arranged byName) : Except DecodeFault Json).toOption =
        if Value.allFinite [] then some r.query.sorted else none := by
    cases byName with
    | false => rfl
    | true => exact congrArg some r.query.sorted_sorted
  refine (Wire.toOption_decode (b := { r with query := r.query.sorted }) rfl
    (pure _ |>.required |>.required |>.seq (of_present (fun _ _ => rfl) (by simp) hquery)
      |>.list |>.list |>.optional) byName).trans ?_
  simp

/-! ### Responses -/

instance : HasValues TableCreated := {}
instance : ReadsBack TableCreated := .ofFields rfl fun _ => pure _

instance : HasValues TableDeleted := {}
instance : ReadsBack TableDeleted := .ofFields rfl fun _ => pure _

instance : HasValues TableList := {}
instance : ReadsBack TableList := .ofFields rfl fun _ => pure _ |>.orElse

instance : HasValues TableUpdated := {}
instance : ReadsBack TableUpdated := .ofFields rfl fun _ => pure _ |>.optional

instance : HasValues TableDescription := {}
instance : ReadsBack TableDescription := .ofFields rfl fun _ => pure _ |>.required

instance : HasValues RowRead := ⟨fun r => valuesOf r.row⟩
instance : ReadsBack RowRead := .ofFields rfl fun _ => pure _ |>.optional |>.orElse

instance : HasValues RowWritten := ⟨fun r => valuesOf r.row⟩
instance : ReadsBack RowWritten := .ofFields rfl fun _ => pure _ |>.optional |>.orElse

instance : HasValues RangePage := ⟨fun r => valuesOf r.rows⟩
instance : ReadsBack RangePage := .ofFields rfl fun _ =>
  pure _ |>.orElse |>.optional |>.optional |>.orElse

instance : HasValues RowOutcome := ⟨fun r => valuesOf r.row⟩
instance : ReadsBack RowOutcome := .ofFields rfl fun _ =>
  pure _ |>.required |>.optional |>.optional |>.optional

instance : HasValues TableOutcomes := ⟨fun r => valuesOf r.rows⟩
instance : ReadsBack TableOutcomes := .ofFields rfl fun _ => pure _ |>.required |>.required

instance : HasValues BatchRead := ⟨fun r => valuesOf r.tables⟩
instance : ReadsBack BatchRead := .ofFields rfl fun _ => pure _ |>.required

instance : HasValues BatchWritten := ⟨fun r => valuesOf r.tables⟩
instance : ReadsBack BatchWritten := .ofFields rfl fun _ => pure _ |>.required

instance : HasValues SearchHits := ⟨fun r => valuesOf r.rows⟩
instance : ReadsBack SearchHits := .ofFields rfl fun _ =>
  pure _ |>.orElse |>.optional |>.orElse |>.optional

instance : HasValues TransactionStarted := {}
instance : ReadsBack TransactionStarted := .ofFields rfl fun _ => pure _ |>.required

instance : HasValues TransactionCommitted := {}
instance : ReadsBack TransactionCommitted := .ofFields rfl fun _ => pure _

instance : HasValues TransactionAborted := {}
instance : ReadsBack TransactionAborted := .ofFields rfl fun _ => pure _

/-! ### All of them -/

/-- A type of records. -/
structure RecordType where
  /-- Its records. -/
  Record : Type
  [wire : Wire Record]
  [hasValues : HasValues Record]
  /-- The JSON of callers that a record carries. -/
  payloads : Record → List Json := fun _ => []

attribute [instance] RecordType.wire RecordType.hasValues

/-- The types of records: values and rows, filters, updates and conditions, tables and their
settings, requests, and responses. -/
def recordTypes : List RecordType := [
  { Record := Value }, { Record := KeyValue }, { Record := KeyColumn }, { Record := Cell },
  { Record := Row },
  { Record := ColumnOperand }, { Record := UpdateSet }, { Record := ColumnFilter },
  { Record := Combination Filter }, { Record := Filter }, { Record := Condition },
  { Record := RowExistence }, { Record := ReturnType }, { Record := Direction },
  { Record := Comparator }, { Record := Connective }, { Record := UpdateKind },
  { Record := WriteKind }, { Record := KeyType }, { Record := ColumnType },
  { Record := IndexKind },
  { Record := KeySchema }, { Record := ColumnSchema }, { Record := IndexMeta },
  { Record := Capacity }, { Record := TableOptions }, { Record := StreamSpec },
  { Record := TimeRange }, { Record := TableMeta },
  { Record := CreateTable }, { Record := DeleteTable }, { Record := DescribeTable },
  { Record := ListTables }, { Record := UpdateTable }, { Record := GetRow },
  { Record := PutRow }, { Record := UpdateRow }, { Record := DeleteRow },
  { Record := GetRange }, { Record := RowsQuery }, { Record := BatchGet },
  { Record := RowWrite }, { Record := TableWrites }, { Record := BatchWrite },
  { Record := Search, payloads := fun r => [r.query] },
  { Record := StartTransaction }, { Record := CommitTransaction }, { Record := AbortTransaction },
  { Record := TableCreated }, { Record := TableDeleted }, { Record := TableList },
  { Record := TableUpdated }, { Record := TableDescription }, { Record := RowRead },
  { Record := RowWritten }, { Record := RangePage }, { Record := RowOutcome },
  { Record := TableOutcomes }, { Record := BatchRead }, { Record := BatchWritten },
  { Record := SearchHits }, { Record := TransactionStarted },
  { Record := TransactionCommitted }, { Record := TransactionAborted }]

/-- The records of a type come back, or are not read if they have a value that is not finite. -/
def RecordType.Faithful (t : RecordType) : Prop :=
  ∀ (r : t.Record) (byName : Bool), (∀ j ∈ t.payloads r, j.sorted = j) →
    (decode ((encode r).arranged byName) : Except DecodeFault t.Record).toOption =
      if Value.allFinite (valuesOf r) then some r else none

theorem RecordType.faithful_of_readsBack {α : Type} [Wire α] [HasValues α] [ReadsBack α] :
    RecordType.Faithful { Record := α } :=
  fun r byName _ => ReadsBack.toOption_decode byName r

theorem RecordType.faithful_search :
    RecordType.Faithful { Record := Search, payloads := fun r => [r.query] } := by
  intro r byName hpayload
  refine (r.toOption_decode byName).trans ?_
  rw [hpayload _ (List.mem_singleton_self _)]
  rfl

theorem faithful_recordTypes : ∀ t ∈ recordTypes, t.Faithful := by
  simp only [recordTypes, List.forall_mem_cons]
  and_intros
  all_goals first
    | exact RecordType.faithful_of_readsBack
    | exact RecordType.faithful_search
    | exact fun _ h => nomatch h

/-- **Every record comes back**, whether the members of its JSON stand as they were written or in
name order: what is read is equal to what was written if no cell, operand or filter in it has a
double that is no number, and nothing is read if one has. JSON of the caller is a value whose
members are in name order. -/
theorem decode_encode_record {t : RecordType} (ht : t ∈ recordTypes) (r : t.Record)
    (hpayload : ∀ j ∈ t.payloads r, j.sorted = j) (byName : Bool) :
    ((∀ v ∈ valuesOf r, v.isFinite = true) →
      decode ((encode r).arranged byName) = .ok r) ∧
    ((∃ v ∈ valuesOf r, v.isFinite = false) →
      ∃ fault, (decode ((encode r).arranged byName) : Except DecodeFault t.Record) =
        .error fault) := by
  have h := faithful_recordTypes t ht r byName hpayload
  constructor
  · intro hfinite
    rw [Value.allFinite, List.all_eq_true.2 hfinite, if_pos rfl] at h
    exact eq_ok_of_toOption h
  · intro hexists
    rw [Value.allFinite, List.all_eq_false.2 (by simpa using hexists),
      if_neg Bool.false_ne_true] at h
    exact exists_error_of_toOption h

/-- A search whose query has two members. -/
def Search.ofTwoMembers : Search where
  table := "t"
  index := "i"
  query := .object [("a", .null), ("b", .null)]

/-- A row with a double that is no number. -/
def PutRow.notANumber : PutRow where
  table := "t"
  key := []
  cells := [{ column := "c", value := .double (.ofBits (-1)) }]

/-- A query in name order comes back, a double that is no number does not. -/
theorem decode_encode_search_put :
    decode (encode Search.ofTwoMembers).sorted = .ok Search.ofTwoMembers ∧
      ∃ fault, (decode (encode PutRow.notANumber) : Except DecodeFault PutRow) = .error fault := by
  constructor
  · have hsorted : Search.ofTwoMembers.query.sorted = Search.ofTwoMembers.query :=
      congrArg Json.object (Json.sortedMembers_of_pairwise (by decide +kernel))
    exact (decode_encode_record (t := { Record := Search, payloads := fun r => [r.query] })
      (by simp [recordTypes]) Search.ofTwoMembers (by simpa using hsorted) true).1 nofun
  · exact (decode_encode_record (t := { Record := PutRow }) (by simp [recordTypes])
      PutRow.notANumber nofun false).2
      ⟨.double (.ofBits (-1)), List.mem_singleton_self _, by decide +kernel⟩

end WideColumn
