import WideColumn.Json.Read
import WideColumn.Json.Write
import WideColumn.Proofs.Numeral
import WideColumn.Record.Row

/-!
# JSON text reads back

The text of a value is read as the value. Doubles are left out here: what the reader makes of their
digits is not always the double that was written.

The reader goes through the units of a text, that is the bytes of its characters in UTF-8. In a
string every character is read as its units, whether it was escaped or not
(`Json.takeString?_writeChar`), and the units of a text are that text (`Json.textOfUnits?_flatMap`).
What follows a value is kept as `rest` throughout; a number has to end where `rest` starts
(`Json.EndsNumber`).

* `Json.takeValue?_write` : what was written is read, and nothing of what follows;
* `Json.ofBytes?_text` : whole texts.
-/

namespace WideColumn

open Text Decimal

namespace Json

/-! ### Units -/

theorem toList_loop (bs : ByteArray) (i : Nat) (acc : List UInt8) :
    ByteArray.toList.loop bs i acc = acc.reverse ++ bs.data.toList.drop i := by
  fun_induction ByteArray.toList.loop bs i acc with
  | case1 i acc hi ih =>
    have hget : bs.get! i = bs.data[i]! := by cases bs; rfl
    have hlength : i < bs.data.toList.length := by simpa using hi
    rw [ih, List.drop_eq_getElem_cons hlength, hget, getElem!_pos bs.data i hi]
    simp
  | case2 i acc hi =>
    rw [List.drop_eq_nil_of_le (by simpa using Nat.le_of_not_lt hi), List.append_nil]

theorem toList_eq (bs : ByteArray) : bs.toList = bs.data.toList := toList_loop bs 0 []

/-- The units of a text are those of its characters. -/
theorem units_utf8 (cs : List Char) :
    units (String.ofList cs).toUTF8.toList = cs.flatMap unitsOf := by
  rw [toList_eq, String.toUTF8_eq_toByteArray, String.toByteArray_ofList, List.utf8Encode,
    List.data_toByteArray, units, List.map_flatMap]
  rfl

theorem map_toUInt8_units (bs : List UInt8) : (units bs).map Char.toUInt8 = bs := by
  have h (b : UInt8) : (Char.ofUInt8 b).toUInt8 = b := by simp [Char.ofUInt8, Char.toUInt8]
  simp [units, Function.comp_def, h]

/-- The units of a text are that text. -/
theorem textOfUnits?_flatMap (s : String) : textOfUnits? (s.toList.flatMap unitsOf) = some s := by
  have hunits : (s.toList.flatMap unitsOf).map Char.toUInt8 =
      s.toList.flatMap String.utf8EncodeChar := by
    rw [List.map_flatMap]
    exact List.flatMap_congr fun c _ => map_toUInt8_units _
  have hbytes : (⟨(s.toList.flatMap String.utf8EncodeChar).toArray⟩ : ByteArray) =
      s.toByteArray := by
    rw [← String.utf8Encode_toList, List.utf8Encode]
    exact ByteArray.ext (List.data_toByteArray).symm
  rw [textOfUnits?, hunits, hbytes, String.fromUTF8?, dif_pos s.isValidUTF8]
  rfl

theorem unitsOf_ascii {c : Char} (h : c.toNat < 128) : unitsOf c = [c] := by
  have hval : c.val.toNat ≤ 127 := Nat.le_of_lt_succ h
  have hback : Char.ofUInt8 (UInt8.ofNat c.val.toNat) = c := by
    refine Char.ext (UInt32.toNat_inj.1 ?_)
    simp only [Char.ofUInt8, UInt8.toNat_toUInt32, UInt8.toNat_ofNat']
    omega
  rw [unitsOf, String.utf8EncodeChar]
  simp only [hval, if_true, units, List.map_cons, List.map_nil, hback]

/-- Where a character is no ASCII character, neither is one of its units. -/
theorem le_toNat_of_mem_unitsOf {c u : Char} (h : 128 ≤ c.toNat) (hu : u ∈ unitsOf c) :
    128 ≤ u.toNat := by
  have hval : ¬ c.val.toNat ≤ 127 := Nat.not_le.2 h
  obtain ⟨b, hb, rfl⟩ := List.mem_map.1 hu
  have hnat : (Char.ofUInt8 b).toNat = b.toNat := by simp [Char.ofUInt8, Char.toNat]
  rw [hnat]
  simp only [String.utf8EncodeChar, hval, if_false] at hb
  split at hb
  · simp only [List.mem_cons, List.not_mem_nil, or_false] at hb
    rcases hb with rfl | rfl <;> rw [UInt8.toNat_ofNat'] <;> omega
  · split at hb
    · simp only [List.mem_cons, List.not_mem_nil, or_false] at hb
      rcases hb with rfl | rfl | rfl <;> rw [UInt8.toNat_ofNat'] <;> omega
    · simp only [List.mem_cons, List.not_mem_nil, or_false] at hb
      rcases hb with rfl | rfl | rfl | rfl <;> rw [UInt8.toNat_ofNat'] <;> omega

theorem flatMap_ascii {cs : List Char} (h : ∀ c ∈ cs, c.toNat < 128) :
    cs.flatMap unitsOf = cs := by
  induction cs with
  | nil => rfl
  | cons c cs ih =>
    obtain ⟨hc, hcs⟩ := List.forall_mem_cons.1 h
    rw [List.flatMap_cons, unitsOf_ascii hc, ih hcs]
    rfl

/-! ### Strings -/

/-- Put units in front of those of a string that was read. -/
def inFront (us : List Char) (p : Option (List Char) × List Char) :
    Option (List Char) × List Char :=
  (p.1.map (us ++ ·), p.2)

theorem inFront_nil : inFront [] = id := funext fun p => by simp [inFront]

theorem inFront_comp (us vs : List Char) : inFront us ∘ inFront vs = inFront (us ++ vs) :=
  funext fun p => by simp [inFront, Function.comp_def]

/-- What stands for itself in a string is read as that. -/
theorem takeString?_plain {us : List Char}
    (h : ∀ u ∈ us, u ≠ '"' ∧ u ≠ '\\' ∧ 0x20 ≤ u.toNat) (cs : List Char) :
    takeString? (us ++ cs) = (takeString? cs).map (inFront us) := by
  induction us with
  | nil => rw [inFront_nil, Option.map_id]; rfl
  | cons u us ih =>
    obtain ⟨⟨hquote, hslash, hcontrol⟩, hus⟩ := List.forall_mem_cons.1 h
    rw [List.cons_append, takeString?, if_neg hquote, if_neg hslash, if_neg (by omega), ih hus,
      ← List.singleton_append, ← inFront_comp, ← Option.map_map]
    rfl

/-- An escape is read as the character that it stands for. -/
theorem takeString?_escape {c : Char} {es cs : List Char}
    (h : takeEscape? (es ++ cs) = some (some c, cs)) :
    takeString? ('\\' :: es ++ cs) = (takeString? cs).map (inFront (unitsOf c)) := by
  rw [List.cons_append, takeString?, if_neg (by decide), if_pos rfl]
  split
  · next hnone => rw [h] at hnone; cases hnone
  · next d rest hsome =>
    obtain ⟨rfl, rfl⟩ : some c = d ∧ cs = rest := by simpa using h.symm.trans hsome
    refine congrArg (Option.map · _) (funext fun p => ?_)
    cases hp : p.1 <;> simp [inFront, hp]

theorem hexByte_toList {n : Nat} (h : n < 32) : (Text.hexByte (UInt8.ofNat n)).toList =
    [Nat.digitChar (n / 16), Nat.digitChar (n % 16)] := by
  have hall : ∀ n : Fin 32, (Text.hexByte (UInt8.ofNat n.val)).toList =
      [Nat.digitChar (n.val / 16), Nat.digitChar (n.val % 16)] := by
    decide +kernel
  exact hall ⟨n, h⟩

theorem hexValue?_digitChar {n : Nat} (h : n < 16) : hexValue? (Nat.digitChar n) = some n := by
  have hall : ∀ n : Fin 16, hexValue? (Nat.digitChar n.val) = some n.val := by decide +kernel
  exact hall ⟨n, h⟩

theorem digitChar_lt {n : Nat} (h : n < 16) : (Nat.digitChar n).toNat < 128 := by
  have hall : ∀ n : Fin 16, (Nat.digitChar n.val).toNat < 128 := by decide +kernel
  exact hall ⟨n, h⟩

/-- What is written for a control character without an escape of its own is read as that. -/
theorem takeEscape?_control {c : Char} (h : c.toNat < 0x20) (cs : List Char) :
    takeEscape? ('u' :: '0' :: '0' :: Nat.digitChar (c.toNat / 16) ::
      Nat.digitChar (c.toNat % 16) :: cs) = some (some c, cs) := by
  have hzero : hexValue? '0' = some 0 := by decide
  have hdiv : c.toNat / 16 * 16 + c.toNat % 16 = c.toNat := by omega
  have hlow : (c.toNat < 0xD800 || 0xDFFF < c.toNat) = true := by simp; omega
  rw [takeEscape?, takeUnicode?, takeHex?, hzero, hexValue?_digitChar (by omega),
    hexValue?_digitChar (by omega)]
  simp only [Option.bind_eq_bind, Option.bind_some, Nat.zero_mul, Nat.zero_add, hdiv, hlow, if_true,
    Char.ofNat_toNat]

theorem takeEscape?_short {c e : Char} (h : shortEscape? c = some e) :
    e.toNat < 128 ∧ ∀ cs, takeEscape? (e :: cs) = some (some c, cs) := by
  unfold shortEscape? at h
  split at h <;> cases h <;> exact ⟨by decide, fun _ => rfl⟩

/-- A character of a string is read as its units. -/
theorem takeString?_writeChar (c : Char) (cs : List Char) :
    takeString? ((writeChar c).flatMap unitsOf ++ cs) =
      (takeString? cs).map (inFront (unitsOf c)) := by
  unfold writeChar
  cases he : shortEscape? c with
  | some e =>
    obtain ⟨hascii, hread⟩ := takeEscape?_short he
    have hunits : ['\\', e].flatMap unitsOf = '\\' :: [e] :=
      flatMap_ascii (by simpa using hascii)
    rw [hunits]
    exact takeString?_escape (hread cs)
  | none =>
    by_cases hcontrol : c.toNat < 0x20
    · have hunits : ("\\u00".toList ++ [Nat.digitChar (c.toNat / 16),
          Nat.digitChar (c.toNat % 16)]).flatMap unitsOf = '\\' :: ['u', '0', '0',
            Nat.digitChar (c.toNat / 16), Nat.digitChar (c.toNat % 16)] := by
        have hhigh := digitChar_lt (n := c.toNat / 16) (by omega)
        have hlow := digitChar_lt (n := c.toNat % 16) (by omega)
        exact flatMap_ascii (by simp [hhigh, hlow])
      rw [if_pos hcontrol, hexByte_toList hcontrol, hunits]
      exact takeString?_escape (takeEscape?_control hcontrol cs)
    · have hquote : c ≠ '"' := by rintro rfl; cases he
      have hslash : c ≠ '\\' := by rintro rfl; cases he
      rw [if_neg hcontrol, List.flatMap_singleton]
      refine takeString?_plain (fun u hu => ?_) cs
      by_cases hascii : c.toNat < 128
      · rw [unitsOf_ascii hascii, List.mem_singleton] at hu
        exact hu ▸ ⟨hquote, hslash, Nat.le_of_not_lt hcontrol⟩
      · have hu := le_toNat_of_mem_unitsOf (Nat.le_of_not_lt hascii) hu
        refine ⟨?_, ?_, by omega⟩ <;> rintro rfl <;> revert hu <;> decide

/-- What is written for the characters of a string is read as their units. -/
theorem takeString?_flatMap (cs rest : List Char) :
    takeString? ((cs.flatMap writeChar).flatMap unitsOf ++ '"' :: rest) =
      some (some (cs.flatMap unitsOf), rest) := by
  induction cs with
  | nil => rw [List.flatMap_nil, List.flatMap_nil, List.nil_append, takeString?, if_pos rfl]
  | cons c cs ih =>
    rw [List.flatMap_cons, List.flatMap_append, List.append_assoc, takeString?_writeChar, ih]
    rfl

/-- A string is read as the units of its text, which are that text. -/
theorem takeString?_writeString (s : String) (rest : List Char) :
    ∃ us, (writeString s).flatMap unitsOf ++ rest = '"' :: us ∧
      takeString? us = some (some (s.toList.flatMap unitsOf), rest) := by
  refine ⟨_, ?_, takeString?_flatMap s.toList rest⟩
  have hquote : unitsOf '"' = ['"'] := rfl
  simp [writeString, hquote]

/-! ### Numbers -/

theorem le_foldl_digits (m : Nat) (cs : List Char) :
    m ≤ cs.foldl (fun n c => 10 * n + (c.toNat - '0'.toNat)) m := by
  induction cs generalizing m with
  | nil => exact Nat.le_refl m
  | cons c cs ih =>
    have := ih (10 * m + (c.toNat - '0'.toNat))
    rw [List.foldl_cons]
    omega

theorem pushDigit?_of_lt {m : Nat} {c : Char}
    (h : 10 * m + (c.toNat - '0'.toNat) < UInt64.size) :
    pushDigit? m c = some (10 * m + (c.toNat - '0'.toNat)) := by
  simp only [pushDigit?, h, if_true]

-- `rw [pushWhole]` would look into the bound that `pushDigit?` compares with.
theorem pushWhole_cons (m : Nat) (c : Char) (cs : List Char) : pushWhole m (c :: cs) =
    match pushDigit? m c with
    | some m' => pushWhole m' cs
    | none => (m, cs.length + 1) := by
  delta pushWhole
  rfl

/-- Digits that fit make up their number. -/
theorem pushWhole_eq {m : Nat} {cs : List Char}
    (h : cs.foldl (fun n c => 10 * n + (c.toNat - '0'.toNat)) m < UInt64.size) :
    pushWhole m cs = (cs.foldl (fun n c => 10 * n + (c.toNat - '0'.toNat)) m, 0) := by
  induction cs generalizing m with
  | nil => rfl
  | cons c cs ih =>
    rw [List.foldl_cons] at h ⊢
    rw [pushWhole_cons, pushDigit?_of_lt (Nat.lt_of_le_of_lt (le_foldl_digits _ cs) h)]
    exact ih h

/-- The digits of a number other than zero start with another digit. -/
theorem digits_ne_zero_cons {n : Nat} (h : n ≠ 0) (cs : List Char) : digits n ≠ '0' :: cs := by
  induction n using Nat.strongRecOn generalizing cs with
  | ind n ih =>
    unfold digits
    by_cases hn : n < 10
    · rw [Nat.toDigits_of_lt_base hn]
      have hall : ∀ n : Fin 10, n.val ≠ 0 → Nat.digitChar n.val ≠ '0' := by decide
      exact fun heq => hall ⟨n, hn⟩ h (List.cons.inj heq).1
    · rw [Nat.toDigits_of_base_le (by omega) (by omega)]
      obtain ⟨c, ds, hds⟩ := List.exists_cons_of_ne_nil (digits_ne_nil (n / 10))
      have hc : c ≠ '0' := by
        rintro rfl
        exact ih (n / 10) (by omega) (by omega) ds hds
      rw [digits] at hds
      rw [hds]
      exact fun heq => hc (List.cons.inj heq).1

/-- Where a number ends: no further digit, no point and no exponent. -/
def EndsNumber (rest : List Char) : Prop :=
  Stops (fun c => c.isDigit || c == '.' || c == 'e' || c == 'E') rest

theorem takeWhole?_digits (n : Nat) {rest : List Char} (h : Stops Char.isDigit rest) :
    takeWhole? (digits n ++ rest) = some (digits n, rest) := by
  by_cases hn : n = 0
  · subst hn
    rfl
  · obtain ⟨c, ds, hds⟩ := List.exists_cons_of_ne_nil (digits_ne_nil n)
    have hwhile := takeWhile_append (areDigits_digits n) h
    have hrest := dropWhile_append (areDigits_digits n) h
    have hempty : (digits n).isEmpty = false := by rw [hds]; rfl
    have htake : takeDigits? (digits n ++ rest) = some (digits n, rest) := by
      simp [takeDigits?, hwhile, hrest, hempty]
    rw [← htake]
    unfold takeWhole?
    split
    · next cs heq =>
      rw [hds] at heq
      exact absurd (hds.trans (by rw [(List.cons.inj heq).1])) (digits_ne_zero_cons hn ds)
    · rfl

theorem value?_digits {n : Int} (hlow : -2 ^ 63 ≤ n) (hhigh : n < 2 ^ 64) :
    NumberParts.value? ⟨n < 0, digits n.natAbs, none, none⟩ = some (.integer n) := by
  have hdigits : (digits n.natAbs).foldl (fun n c => 10 * n + (c.toNat - '0'.toNat)) 0 =
      n.natAbs := ofDigits_digits _
  have hpush : pushWhole 0 (digits n.natAbs) = (n.natAbs, 0) := by
    rw [pushWhole_eq, hdigits]
    rw [hdigits, UInt64.size]
    omega
  have hzero : (decide (n < 0) && n.natAbs == 0) = false := by
    simp; omega
  have hfits : (decide (n < 0) && decide (Nat.pow 2 63 < n.natAbs)) = false := by
    simp; omega
  rw [NumberParts.value?]
  have hsign : (if decide (n < 0) = true then -(n.natAbs : Int) else n.natAbs) = n := by
    by_cases hn : n < 0
    · rw [if_pos (by simpa using hn)]
      omega
    · rw [if_neg (by simpa using hn)]
      omega
  simp only [hpush, hzero, hfits, hsign]
  rfl

/-- An integer that 64 bits hold, with or without sign, is read as what it is. -/
theorem takeNumber?_intText {n : Int} (hlow : -2 ^ 63 ≤ n) (hhigh : n < 2 ^ 64)
    {rest : List Char} (h : EndsNumber rest) :
    takeNumber? (intText n ++ rest) = some (some (.integer n), rest) := by
  have hdigit : Stops Char.isDigit rest := fun c hc => by
    have := h c hc
    simp at this
    simp [this]
  have hwhole := takeWhole?_digits n.natAbs hdigit
  have hfraction : takeFraction? rest = some (none, rest) := by
    unfold takeFraction?
    split
    · have := h '.' rfl
      cases this
    · rfl
  have hexponent : takeExponent? rest = some (none, rest) := by
    unfold takeExponent?
    split
    · next c cs =>
      have := h c rfl
      have he : ¬ (c == 'e' || c == 'E') = true := by simp at this ⊢; simp [this]
      rw [if_neg he]
    · rfl
  have hvalue := value?_digits hlow hhigh
  unfold takeNumber?
  by_cases hn : n < 0
  · simp only [hn, decide_true] at hvalue
    simp [intText, hn, hwhole, hfraction, hexponent, hvalue]
  · simp only [hn, decide_false] at hvalue
    obtain ⟨c, ds, hds⟩ := List.exists_cons_of_ne_nil (digits_ne_nil n.natAbs)
    have hminus : c ≠ '-' := by
      rintro rfl
      have := areDigits_digits n.natAbs '-' (by rw [hds]; exact List.mem_cons_self)
      cases this
    rw [intText, if_neg hn]
    split
    · next heq =>
      split at heq
      · next cs' heq' =>
        rw [hds] at heq'
        exact absurd (List.cons.inj heq').1 hminus
      · cases heq
        simp [hwhole, hfraction, hexponent, hvalue]

/-! ### Values -/

mutual
/-- Whether there are no doubles in a value, and only integers that 64 bits hold. -/
def isWhole : Json → Bool
  | .integer n => -2 ^ 63 ≤ n && n < 2 ^ 64
  | .real _ => false
  | .array xs => areWhole xs
  | .object ms => areWholeMembers ms
  | _ => true

/-- Whether all items are whole. -/
def areWhole : List Json → Bool
  | [] => true
  | x :: xs => isWhole x && areWhole xs

/-- Whether all members are whole. -/
def areWholeMembers : List (String × Json) → Bool
  | [] => true
  | (_, x) :: ms => isWhole x && areWholeMembers ms
end

theorem skipBlanks_of_stops {cs : List Char}
    (h : Stops (fun c => c == ' ' || c == '\n' || c == '\t' || c == '\r') cs) :
    skipBlanks cs = cs :=
  dropWhile_append (l := []) nofun h

theorem takeValue?_string (t : Tolerance) (n d : Nat) (us : List Char) :
    takeValue? t (n + 1) d ('"' :: us) = (do
      let (s, rest) ← takeString? us
      let j ← t.hold ((s.bind textOfUnits?).map .string)
      some (j, rest)) := by
  rw [takeValue?]
  rfl

/-- A number is told by its first character. -/
theorem takeValue?_number (t : Tolerance) (n d : Nat) {c : Char} (cs : List Char)
    (h : c.isDigit = true ∨ c = '-') : takeValue? t (n + 1) d (c :: cs) = (do
      let (j, rest) ← takeNumber? (c :: cs)
      let j ← t.hold j
      some (j, rest)) := by
  have hne (d : Char) (hd : d.isDigit = false ∧ d ≠ '-') : c ≠ d := by
    rintro rfl
    rcases h with h | h
    · rw [hd.1] at h
      cases h
    · exact hd.2 h
  have hblank : skipBlanks (c :: cs) = c :: cs :=
    skipBlanks_of_stops (stops_cons (by simp [hne]) cs)
  rw [takeValue?, hblank]
  split
  case h_7 => rfl
  all_goals
    next heq => exact absurd (List.cons.inj heq).1 (hne _ (by decide))

theorem takeValue?_array (t : Tolerance) (n d : Nat) {cs : List Char}
    (h : Stops (fun c => c == ' ' || c == '\n' || c == '\t' || c == '\r' || c == ']') cs) :
    takeValue? t (n + 1) (d + 1) ('[' :: cs) =
      (takeItems? t n d cs).map fun (xs, rest) => (.array xs, rest) := by
  have hblank : skipBlanks cs = cs := skipBlanks_of_stops fun c hc => by
    have := h c hc
    simp at this ⊢
    simp [this]
  have hbracket : skipBlanks ('[' :: cs) = '[' :: cs := rfl
  rw [takeValue?, hbracket]
  simp only [hblank]
  split
  · have := h ']' rfl
    cases this
  · rfl

theorem takeValue?_object (t : Tolerance) (n d : Nat) (cs : List Char) :
    takeValue? t (n + 1) (d + 1) ('\x7b' :: '"' :: cs) = (do
      let (ms, rest) ← takeMembers? t n d ('"' :: cs)
      let j ← t.hold (ms.map .object)
      some (j, rest)) := by
  rw [takeValue?]
  rfl

theorem flatMap_intText (n : Int) : (intText n).flatMap unitsOf = intText n := by
  refine flatMap_ascii fun c hc => ?_
  have hdigit (h : c.isDigit = true) : c.toNat < 128 :=
    Nat.lt_of_le_of_lt (Char.isDigit_iff_toNat.1 h).2 (by decide)
  unfold intText at hc
  split at hc
  · rcases List.mem_cons.1 hc with rfl | hc
    · decide
    · exact hdigit (areDigits_digits _ c hc)
  · exact hdigit (areDigits_digits _ c hc)

theorem unitsOf_quote : unitsOf '"' = ['"'] := rfl

theorem unitsOf_brace : unitsOf '\x7b' = ['\x7b'] := rfl

theorem unitsOf_colon : unitsOf ':' = [':'] := rfl

theorem unitsOf_comma : unitsOf ',' = [','] := rfl

theorem flatMap_write_array (x : Json) (xs : List Json) :
    (write (.array (x :: xs))).flatMap unitsOf =
      '[' :: ((write x).flatMap unitsOf ++ (writeItems xs).flatMap unitsOf) := by
  rw [← List.flatMap_append]
  rfl

theorem flatMap_writeItems_cons (x : Json) (xs : List Json) :
    (writeItems (x :: xs)).flatMap unitsOf =
      ',' :: ((write x).flatMap unitsOf ++ (writeItems xs).flatMap unitsOf) := by
  rw [← List.flatMap_append]
  rfl

theorem flatMap_write_object (k : String) (x : Json) (ms : List (String × Json)) :
    (write (.object ((k, x) :: ms))).flatMap unitsOf =
      '\x7b' :: ((writeString k).flatMap unitsOf ++ ':' :: ((write x).flatMap unitsOf ++
        (writeMembers ms).flatMap unitsOf)) := by
  simp [write, unitsOf_brace, unitsOf_colon]

theorem flatMap_writeMembers_cons (k : String) (x : Json) (ms : List (String × Json)) :
    (writeMembers ((k, x) :: ms)).flatMap unitsOf =
      ',' :: ((writeString k).flatMap unitsOf ++ ':' :: ((write x).flatMap unitsOf ++
        (writeMembers ms).flatMap unitsOf)) := by
  simp [writeMembers, unitsOf_comma, unitsOf_colon]

theorem stops_write {j : Json} (h : j.isWhole = true) (rest : List Char) :
    Stops (fun c => c == ' ' || c == '\n' || c == '\t' || c == '\r' || c == ']')
      ((write j).flatMap unitsOf ++ rest) := by
  cases j with
  | real x => cases h
  | null => exact stops_cons rfl _
  | bool b => cases b <;> exact stops_cons rfl _
  | string s => exact stops_cons rfl _
  | array xs => cases xs <;> exact stops_cons rfl _
  | object ms => cases ms <;> exact stops_cons rfl _
  | integer n =>
    obtain ⟨c, cs, hcs, hc⟩ := intText_eq_cons n
    rw [write, flatMap_intText, hcs]
    refine stops_cons ?_ _
    rcases hc with hc | rfl
    · have := Char.isDigit_iff_toNat.1 hc
      simp only [Bool.or_eq_false_iff, beq_eq_false_iff_ne]
      refine ⟨⟨⟨⟨?_, ?_⟩, ?_⟩, ?_⟩, ?_⟩ <;> rintro rfl <;> cases hc
    · rfl

mutual
/-- The units of a whole value are read as the value. -/
theorem takeValue?_write (t : Tolerance) : ∀ (j : Json) {n d : Nat} {r : List Char},
    j.isWhole = true → j.depth ≤ d → 2 * ((write j).flatMap unitsOf).length ≤ n →
    EndsNumber r → takeValue? t n d ((write j).flatMap unitsOf ++ r) = some (j, r)
  | .null, n, d, r, _, _, hn, _ => by
    have hunits : (write .null).flatMap unitsOf = ['n', 'u', 'l', 'l'] := rfl
    rw [hunits] at hn ⊢
    obtain ⟨m, rfl⟩ : ∃ m, n = m + 1 := ⟨n - 1, by simp at hn; omega⟩
    rw [takeValue?]
    rfl
  | .bool true, n, d, r, _, _, hn, _ => by
    have hunits : (write (.bool true)).flatMap unitsOf = ['t', 'r', 'u', 'e'] := rfl
    rw [hunits] at hn ⊢
    obtain ⟨m, rfl⟩ : ∃ m, n = m + 1 := ⟨n - 1, by simp at hn; omega⟩
    rw [takeValue?]
    rfl
  | .bool false, n, d, r, _, _, hn, _ => by
    have hunits : (write (.bool false)).flatMap unitsOf = ['f', 'a', 'l', 's', 'e'] := rfl
    rw [hunits] at hn ⊢
    obtain ⟨m, rfl⟩ : ∃ m, n = m + 1 := ⟨n - 1, by simp at hn; omega⟩
    rw [takeValue?]
    rfl
  | .integer i, n, d, r, hj, _, hn, hrest => by
    obtain ⟨c, cs, hcs, hc⟩ := intText_eq_cons i
    rw [write, flatMap_intText] at hn ⊢
    obtain ⟨m, rfl⟩ : ∃ m, n = m + 1 := ⟨n - 1, by rw [hcs] at hn; simp at hn; omega⟩
    simp only [isWhole, Bool.and_eq_true, decide_eq_true_eq] at hj
    rw [hcs, List.cons_append, takeValue?_number t m d _ hc, ← List.cons_append, ← hcs,
      takeNumber?_intText hj.1 hj.2 hrest]
    rfl
  | .real _, _, _, _, hj, _, _, _ => by cases hj
  | .string s, n, d, r, _, _, hn, _ => by
    obtain ⟨us, hus, hread⟩ := takeString?_writeString s r
    rw [write] at hn ⊢
    obtain ⟨m, rfl⟩ : ∃ m, n = m + 1 :=
      ⟨n - 1, by simp [writeString, unitsOf_quote] at hn; omega⟩
    rw [hus, takeValue?_string, hread]
    simp only [Option.bind_eq_bind, Option.bind_some, textOfUnits?_flatMap]
    rfl
  | .array [], n, d, r, _, hd, hn, _ => by
    have hunits : (write (.array [])).flatMap unitsOf = ['[', ']'] := rfl
    rw [hunits] at hn ⊢
    obtain ⟨m, rfl⟩ : ∃ m, n = m + 1 := ⟨n - 1, by simp at hn; omega⟩
    obtain ⟨e, rfl⟩ : ∃ e, d = e + 1 := ⟨d - 1, by simp [depth] at hd; omega⟩
    rw [takeValue?]
    rfl
  | .array (x :: xs), n, d, r, hj, hd, hn, _ => by
    simp only [isWhole, areWhole, Bool.and_eq_true] at hj
    simp only [depth, depthOfItems] at hd
    rw [flatMap_write_array, List.length_cons, List.length_append] at hn
    obtain ⟨m, rfl⟩ : ∃ m, n = m + 1 := ⟨n - 1, by omega⟩
    obtain ⟨e, rfl⟩ : ∃ e, d = e + 1 := ⟨d - 1, by omega⟩
    rw [flatMap_write_array, List.cons_append, List.append_assoc,
      takeValue?_array t m e (stops_write hj.1 _),
      takeItems?_write t x xs hj.1 hj.2 (by omega) (by omega) (by omega)]
    rfl
  | .object [], n, d, r, _, hd, hn, _ => by
    have hunits : (write (.object [])).flatMap unitsOf = ['\x7b', '\x7d'] := rfl
    rw [hunits] at hn ⊢
    obtain ⟨m, rfl⟩ : ∃ m, n = m + 1 := ⟨n - 1, by simp at hn; omega⟩
    obtain ⟨e, rfl⟩ : ∃ e, d = e + 1 := ⟨d - 1, by simp [depth] at hd; omega⟩
    rw [takeValue?]
    rfl
  | .object ((k, x) :: ms), n, d, r, hj, hd, hn, _ => by
    simp only [isWhole, areWholeMembers, Bool.and_eq_true] at hj
    simp only [depth, depthOfMembers] at hd
    obtain ⟨us, hus, hread⟩ := takeString?_writeString k
      (':' :: ((write x).flatMap unitsOf ++ ((writeMembers ms).flatMap unitsOf ++ r)))
    rw [flatMap_write_object, List.length_cons, List.length_append, List.length_cons,
      List.length_append] at hn
    obtain ⟨m, rfl⟩ : ∃ m, n = m + 1 := ⟨n - 1, by omega⟩
    obtain ⟨e, rfl⟩ : ∃ e, d = e + 1 := ⟨d - 1, by omega⟩
    have hmembers := takeMembers?_write t k x ms (n := m) (d := e) hread hj.1 hj.2 (by omega)
      (by omega) (by omega)
    rw [flatMap_write_object, List.cons_append, List.append_assoc, List.cons_append,
      List.append_assoc, hus, takeValue?_object, hmembers]
    rfl
termination_by j => sizeOf j

/-- The units of whole items are read as the items. -/
theorem takeItems?_write (t : Tolerance) : ∀ (x : Json) (xs : List Json) {n d : Nat}
    {r : List Char}, x.isWhole = true → areWhole xs = true → x.depth ≤ d →
    depthOfItems xs ≤ d →
    2 * (((write x).flatMap unitsOf).length + ((writeItems xs).flatMap unitsOf).length) < n →
    takeItems? t n d
        ((write x).flatMap unitsOf ++ ((writeItems xs).flatMap unitsOf ++ r)) =
      some (x :: xs, r)
  | x, [], n, d, r, hx, _, hd, _, hn => by
    have hunits : (writeItems []).flatMap unitsOf = [']'] := rfl
    obtain ⟨m, rfl⟩ : ∃ m, n = m + 1 := ⟨n - 1, by omega⟩
    rw [hunits, takeItems?, List.singleton_append,
      takeValue?_write t x hx hd (by omega) (stops_cons rfl _)]
    rfl
  | x, y :: ys, n, d, r, hx, hxs, hd, hds, hn => by
    simp only [areWhole, Bool.and_eq_true] at hxs
    simp only [depthOfItems] at hds
    rw [flatMap_writeItems_cons, List.length_cons, List.length_append] at hn
    obtain ⟨m, rfl⟩ : ∃ m, n = m + 1 := ⟨n - 1, by omega⟩
    have hmore := takeItems?_write t y ys (n := m) (d := d) (r := r) hxs.1 hxs.2 (by omega)
      (by omega) (by omega)
    rw [flatMap_writeItems_cons, List.cons_append, List.append_assoc, takeItems?,
      takeValue?_write t x hx hd (by omega) (stops_cons rfl _)]
    change (takeItems? t m d _ >>= _) = _
    rw [hmore]
    rfl
termination_by x xs => 1 + sizeOf x + sizeOf xs

/-- The units of whole members are read as the members. -/
theorem takeMembers?_write (t : Tolerance) : ∀ (k : String) (x : Json)
    (ms : List (String × Json)) {n d : Nat} {us r : List Char},
    takeString? us = some (some (k.toList.flatMap unitsOf),
      ':' :: ((write x).flatMap unitsOf ++ ((writeMembers ms).flatMap unitsOf ++ r))) →
    x.isWhole = true → areWholeMembers ms = true → x.depth ≤ d → depthOfMembers ms ≤ d →
    2 * (((write x).flatMap unitsOf).length + ((writeMembers ms).flatMap unitsOf).length) < n →
    takeMembers? t n d ('"' :: us) = some (some ((k, x) :: ms), r)
  | k, x, [], n, d, us, r, hread, hx, _, hd, _, hn => by
    have hunits : (writeMembers []).flatMap unitsOf = ['\x7d'] := rfl
    have hquote : skipBlanks ('"' :: us) = '"' :: us := rfl
    have hcolon (cs : List Char) : skipBlanks (':' :: cs) = ':' :: cs := rfl
    obtain ⟨m, rfl⟩ : ∃ m, n = m + 1 := ⟨n - 1, by omega⟩
    rw [takeMembers?, hquote]
    simp only [hread, Option.bind_eq_bind, Option.bind_some, textOfUnits?_flatMap, hcolon, hunits,
      List.singleton_append]
    rw [takeValue?_write t x hx hd (by omega) (stops_cons rfl _)]
    rfl
  | k, x, (k', y) :: ms, n, d, us, r, hread, hx, hms, hd, hds, hn => by
    obtain ⟨us', hus', hread'⟩ := takeString?_writeString k'
      (':' :: ((write y).flatMap unitsOf ++ ((writeMembers ms).flatMap unitsOf ++ r)))
    have hquote : skipBlanks ('"' :: us) = '"' :: us := rfl
    have hcolon (cs : List Char) : skipBlanks (':' :: cs) = ':' :: cs := rfl
    simp only [areWholeMembers, Bool.and_eq_true] at hms
    simp only [depthOfMembers] at hds
    rw [flatMap_writeMembers_cons, List.length_cons, List.length_append, List.length_cons,
      List.length_append] at hn
    obtain ⟨m, rfl⟩ : ∃ m, n = m + 1 := ⟨n - 1, by omega⟩
    have hmore := takeMembers?_write t k' y ms (n := m) (d := d) hread' hms.1 hms.2 (by omega)
      (by omega) (by omega)
    rw [takeMembers?, hquote]
    simp only [hread, Option.bind_eq_bind, Option.bind_some, textOfUnits?_flatMap, hcolon,
      flatMap_writeMembers_cons, List.cons_append, List.append_assoc]
    rw [takeValue?_write t x hx hd (by omega) (stops_cons rfl _)]
    change (takeMembers? t m d _ >>= _) = _
    rw [hus', hmore]
    rfl
termination_by _ x ms => 1 + sizeOf x + sizeOf ms
end

/-! ### Whole texts -/

mutual
/-- Nothing nests deeper than its text is long. -/
theorem depth_le_length : ∀ j : Json, j.depth ≤ ((write j).flatMap unitsOf).length
  | .null | .bool _ | .integer _ | .real _ | .string _ => Nat.zero_le _
  | .array [] | .object [] => Nat.le_add_left 1 1
  | .array (x :: xs) => by
    have hx := depth_le_length x
    have hxs := depthOfItems_le_length xs
    rw [flatMap_write_array, depth, depthOfItems, List.length_cons, List.length_append]
    omega
  | .object ((k, x) :: ms) => by
    have hx := depth_le_length x
    have hms := depthOfMembers_le_length ms
    rw [flatMap_write_object, depth, depthOfMembers, List.length_cons, List.length_append,
      List.length_cons, List.length_append]
    omega

/-- No item nests deeper than the text of the items is long. -/
theorem depthOfItems_le_length : ∀ xs : List Json,
    depthOfItems xs ≤ ((writeItems xs).flatMap unitsOf).length
  | [] => Nat.zero_le _
  | x :: xs => by
    have hx := depth_le_length x
    have hxs := depthOfItems_le_length xs
    rw [flatMap_writeItems_cons, depthOfItems, List.length_cons, List.length_append]
    omega

/-- No member nests deeper than the text of the members is long. -/
theorem depthOfMembers_le_length : ∀ ms : List (String × Json),
    depthOfMembers ms ≤ ((writeMembers ms).flatMap unitsOf).length
  | [] => Nat.zero_le _
  | (_, x) :: ms => by
    have hx := depth_le_length x
    have hms := depthOfMembers_le_length ms
    rw [flatMap_writeMembers_cons, depthOfMembers, List.length_cons, List.length_append,
      List.length_cons, List.length_append]
    omega
end

/-- **The text of a value is read as the value**, if there are no doubles in it, all its integers
fit into 64 bits and it does not nest deeper than the reader goes. -/
theorem ofBytes?_text {t : Tolerance} {j : Json} (h : j.isWhole = true)
    (hdepth : t = .asNull ∨ j.depth ≤ 127) : ofBytes? t j.text.toUTF8.toList = some j := by
  have hlevel : j.depth ≤ t.depth ((write j).flatMap unitsOf) := by
    rcases hdepth with rfl | hdepth
    · exact depth_le_length j
    · cases t with
      | refuse => exact hdepth
      | asNull => exact depth_le_length j
  have hread := takeValue?_write t j (r := []) h hlevel (Nat.le_add_right _ 2) (stops_nil _)
  rw [List.append_nil] at hread
  rw [text, ofBytes?, units_utf8]
  simp only [hread, Option.bind_eq_bind, Option.bind_some]
  rfl

end Json

end WideColumn
