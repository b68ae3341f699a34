import Mathlib
import WideColumn.Decimal.Layout
import WideColumn.Decimal.Nearest

/-!
# Numbers as text

Integers are read back from their digits. A finite double is written as a numeral
(`Layout.exists_numeral`): digits, a point with digits behind it, an exponent, the last two not both
missing. What a numeral is read as depends on its digits taken together and on where the last of
them stands (`Numeral.readUnsigned?_text`).
-/

namespace WideColumn

namespace Text

/-! ### Runs of characters -/

/-- A text does not go on with a character of some class. -/
def Stops (p : Char → Bool) (k : List Char) : Prop := ∀ c ∈ k.head?, p c = false

theorem stops_nil (p : Char → Bool) : Stops p [] := nofun

theorem stops_cons {p : Char → Bool} {c : Char} (h : p c = false) (k : List Char) :
    Stops p (c :: k) := by
  rintro d ⟨⟩
  exact h

section Runs

variable {p : Char → Bool} {k : List Char}

/-- A run does not go on into a text that does not start with a character of the class. -/
theorem takeWhile_append_stops (hk : Stops p k) (cs : List Char) :
    (cs ++ k).takeWhile p = cs.takeWhile p := by
  have hnil : k.takeWhile p = [] := by
    cases k with
    | nil => rfl
    | cons c k => rw [List.takeWhile_cons_of_neg (by simp [hk c rfl])]
  rw [List.takeWhile_append, hnil, List.append_nil]
  split
  · next h => exact (List.IsPrefix.eq_of_length (List.takeWhile_prefix p) h).symm
  · rfl

theorem dropWhile_append_stops (hk : Stops p k) (cs : List Char) :
    (cs ++ k).dropWhile p = cs.dropWhile p ++ k := by
  have hself : k.dropWhile p = k := by
    cases k with
    | nil => rfl
    | cons c k => rw [List.dropWhile_cons_of_neg (by simp [hk c rfl])]
  rw [List.dropWhile_append, hself]
  split
  · next h => rw [List.isEmpty_iff.1 h, List.nil_append]
  · rfl

variable {l : List Char}

theorem takeWhile_append (hl : ∀ c ∈ l, p c = true) (hk : Stops p k) :
    (l ++ k).takeWhile p = l := by
  rw [takeWhile_append_stops hk, List.takeWhile_eq_self_iff.2 hl]

theorem dropWhile_append (hl : ∀ c ∈ l, p c = true) (hk : Stops p k) :
    (l ++ k).dropWhile p = k := by
  rw [dropWhile_append_stops hk, List.dropWhile_eq_nil_iff.2 hl, List.nil_append]

end Runs

/-- Joined texts: the first, and each further one behind a separator. -/
theorem intercalate_cons (sep l : List Char) (ls : List (List Char)) :
    sep.intercalate (l :: ls) = l ++ ls.flatMap (sep ++ ·) := by
  induction ls generalizing l with
  | nil => simp
  | cons m ls ih =>
    rw [List.intercalate_cons_cons, ih]
    simp

end Text

namespace Decimal

open Text

/-! ### Digits -/

/-- All characters are digits. -/
def AreDigits (cs : List Char) : Prop := ∀ c ∈ cs, c.isDigit = true

theorem areDigits_digits (n : Nat) : AreDigits (digits n) := fun _ hc =>
  Nat.isDigit_of_mem_toDigits (by decide) (by decide) hc

theorem digits_ne_nil (n : Nat) : digits n ≠ [] := Nat.toDigits_ne_nil

theorem AreDigits.append {cs ds : List Char} (hc : AreDigits cs) (hd : AreDigits ds) :
    AreDigits (cs ++ ds) := by
  intro c h
  rcases List.mem_append.1 h with h | h
  · exact hc c h
  · exact hd c h

theorem areDigits_replicate (n : Nat) : AreDigits (List.replicate n '0') := by
  intro c h
  rw [(List.mem_replicate.1 h).2]
  rfl

theorem AreDigits.take {cs : List Char} (h : AreDigits cs) (n : Nat) : AreDigits (cs.take n) :=
  fun c hc => h c (List.mem_of_mem_take hc)

theorem AreDigits.drop {cs : List Char} (h : AreDigits cs) (n : Nat) : AreDigits (cs.drop n) :=
  fun c hc => h c (List.mem_of_mem_drop hc)

theorem ofDigits_eq (cs : List Char) : ofDigits cs = Nat.ofDigitChars 10 cs 0 :=
  Nat.ofDigitChars_eq_foldl.symm

theorem ofDigits_digits (n : Nat) : ofDigits (digits n) = n := by
  rw [ofDigits_eq]
  exact Nat.ofDigitChars_ten_toDigits

theorem ofDigits_append (cs ds : List Char) :
    ofDigits (cs ++ ds) = ofDigits cs * 10 ^ ds.length + ofDigits ds := by
  rw [ofDigits_eq, ofDigits_eq, ofDigits_eq, Nat.ofDigitChars_append,
    Nat.ofDigitChars_eq_ofDigitChars_zero, Nat.mul_comm]

theorem ofDigits_replicate (n : Nat) : ofDigits (List.replicate n '0') = 0 := by
  rw [ofDigits_eq, Nat.ofDigitChars_replicate_zero, Nat.mul_zero]

theorem readNat?_eq {cs : List Char} (hne : cs ≠ []) (hd : AreDigits cs) :
    readNat? cs = some (ofDigits cs) := by
  have hempty : cs.isEmpty = false := by simpa using hne
  have hall : cs.all Char.isDigit = true := List.all_eq_true.2 hd
  rw [readNat?, hempty, hall]
  rfl

theorem readNat?_digits (n : Nat) : readNat? (digits n) = some n := by
  rw [readNat?_eq (digits_ne_nil n) (areDigits_digits n), ofDigits_digits]

theorem splitSign_of_areDigits {cs : List Char} (hd : AreDigits cs) :
    splitSign cs = (false, cs) := by
  cases cs with
  | nil => rfl
  | cons c cs =>
    have hc := hd c List.mem_cons_self
    unfold splitSign
    split
    · next h => simp [(List.cons.inj h).1] at hc
    · next h => simp [(List.cons.inj h).1] at hc
    · rfl

/-! ### Integers -/

/-- The sign and the size of a written integer are read back. -/
theorem splitSign_intText (n : Int) :
    ∃ m, readNat? (splitSign (intText n)).2 = some m ∧
      (if (splitSign (intText n)).1 then -(m : Int) else m) = n := by
  refine ⟨n.natAbs, ?_⟩
  unfold intText
  split
  · next hn =>
    refine ⟨readNat?_digits _, ?_⟩
    simp only [splitSign, if_true]
    omega
  · next hn =>
    rw [splitSign_of_areDigits (areDigits_digits _)]
    refine ⟨readNat?_digits _, ?_⟩
    simp only [Bool.false_eq_true, if_false]
    omega

theorem readInt64?_intText (n : Int64) : readInt64? (intText n.toInt) = some n := by
  obtain ⟨m, hm, hval⟩ := splitSign_intText n.toInt
  simp only [readInt64?, hm, Option.bind_eq_bind, Option.bind_some, hval]
  rw [toInt64?, if_pos ⟨Int64.minValue_le_toInt n, Int64.toInt_le n⟩, Int64.ofInt_toInt]

theorem intText_eq_cons (n : Int) :
    ∃ c cs, intText n = c :: cs ∧ (c.isDigit = true ∨ c = '-') := by
  unfold intText
  split
  · exact ⟨_, _, rfl, .inr rfl⟩
  · obtain ⟨c, cs, hcs⟩ := List.exists_cons_of_ne_nil (digits_ne_nil n.natAbs)
    exact ⟨c, cs, hcs, .inl (areDigits_digits _ c (by rw [hcs]; exact List.mem_cons_self))⟩

theorem readExponent?_intText (e : Int) : readExponent? ('e' :: intText e) = some e := by
  obtain ⟨m, hm, hval⟩ := splitSign_intText e
  simp only [readExponent?, hm, Option.bind_eq_bind, Option.bind_some, hval]
  rfl

/-! ### Numerals -/

/-- A number without sign as it is written. -/
structure Numeral where
  /-- The digits before the point. -/
  whole : List Char
  /-- The digits behind the point. -/
  fraction : List Char
  /-- The exponent. -/
  exponent : Option Int

namespace Numeral

/-- The exponent as written. -/
def exponentText (n : Numeral) : List Char :=
  match n.exponent with
  | none => []
  | some e => 'e' :: intText e

/-- The point and the digits behind it. -/
def fractionText (n : Numeral) : List Char :=
  match n.fraction with
  | [] => []
  | ds => '.' :: ds

/-- The numeral as written. -/
def text (n : Numeral) : List Char := n.whole ++ n.fractionText ++ n.exponentText

/-- There are digits, and what marks a double: a point or an exponent. -/
structure WellFormed (n : Numeral) : Prop where
  /-- There is a digit before the point. -/
  whole_ne : n.whole ≠ []
  /-- Only digits stand before the point. -/
  whole : AreDigits n.whole
  /-- Only digits stand behind the point. -/
  fraction : AreDigits n.fraction
  /-- There is a point or an exponent. -/
  marked : n.fraction ≠ [] ∨ n.exponent ≠ none

/-- All digits as one number. -/
def coefficient (n : Numeral) : Nat := ofDigits (n.whole ++ n.fraction)

/-- The power of ten of the last digit. -/
def scale (n : Numeral) : Int := n.exponent.getD 0 - n.fraction.length

variable {n : Numeral}

theorem fractionText_of_ne (h : n.fraction ≠ []) : n.fractionText = '.' :: n.fraction := by
  unfold fractionText
  split
  · next hnil => exact absurd hnil h
  · rfl

theorem stops_exponentText (n : Numeral) {p : Char → Bool} (he : p 'e' = false) {k : List Char}
    (hk : Stops p k) : Stops p (n.exponentText ++ k) := by
  unfold exponentText
  split
  · exact hk
  · exact stops_cons he _

/-- Behind the digits before the point stands no further digit. -/
theorem stops_fractionText (n : Numeral) {k : List Char} (hk : Stops Char.isDigit k) :
    Stops Char.isDigit (n.fractionText ++ (n.exponentText ++ k)) := by
  unfold fractionText
  split
  · exact n.stops_exponentText rfl hk
  · exact stops_cons rfl _

theorem readExponent?_exponentText (n : Numeral) :
    readExponent? n.exponentText = some (n.exponent.getD 0) := by
  unfold exponentText
  split
  · next h => rw [h]; rfl
  · next e h => rw [h, readExponent?_intText]; rfl

theorem WellFormed.exists_digit (h : n.WellFormed) :
    ∃ c cs, n.text = c :: cs ∧ c.isDigit = true := by
  obtain ⟨c, cs, hw⟩ := List.exists_cons_of_ne_nil h.whole_ne
  refine ⟨c, cs ++ n.fractionText ++ n.exponentText, ?_, h.whole c (by simp [hw])⟩
  simp [text, hw]

end Numeral

theorem toLower_of_isDigit {c : Char} (h : c.isDigit = true) : c.toLower = c := by
  simp only [Char.isDigit, Bool.and_eq_true, decide_eq_true_eq] at h
  rw [Char.toLower, dif_neg]
  grind

/-- What starts with a digit is no word. -/
theorem readUnsigned?_of_isDigit (negative : Bool) {c : Char} {cs : List Char}
    (hc : c.isDigit = true) :
    readUnsigned? negative (c :: cs) = (do
      let whole := (c :: cs).takeWhile Char.isDigit
      let (fraction, rest) :=
        match (c :: cs).dropWhile Char.isDigit with
        | '.' :: r => (r.takeWhile Char.isDigit, r.dropWhile Char.isDigit)
        | r => ([], r)
      let m ← readNat? (whole ++ fraction)
      let e ← readExponent? rest
      some (nearestDecimal negative m (e - fraction.length))) := by
  have hword : ∀ d ds, d.isDigit = false →
      String.ofList ((c :: cs).map Char.toLower) ≠ String.ofList (d :: ds) := by
    intro d ds hd h
    have := (List.cons.inj (String.ofList_injective h)).1
    rw [toLower_of_isDigit hc] at this
    rw [this, hd] at hc
    cases hc
  unfold readUnsigned?
  split
  · next h => exact absurd h (hword 'i' ['n', 'f'] rfl)
  · next h => exact absurd h (hword 'i' ['n', 'f', 'i', 'n', 'i', 't', 'y'] rfl)
  · next h => exact absurd h (hword 'n' ['a', 'n'] rfl)
  · rfl

namespace Numeral

variable {n : Numeral}

/-- A numeral is read as its digits at its scale. -/
theorem readUnsigned?_text (h : n.WellFormed) (negative : Bool) :
    readUnsigned? negative n.text = some (nearestDecimal negative n.coefficient n.scale) := by
  have hstop : Stops Char.isDigit (n.fractionText ++ n.exponentText) := by
    simpa using n.stops_fractionText (stops_nil _)
  have hexp : Stops Char.isDigit n.exponentText := by
    simpa using n.stops_exponentText rfl (stops_nil _)
  have htake : n.text.takeWhile Char.isDigit = n.whole := by
    rw [text, List.append_assoc, takeWhile_append h.whole hstop]
  have hdrop : n.text.dropWhile Char.isDigit = n.fractionText ++ n.exponentText := by
    rw [text, List.append_assoc, dropWhile_append h.whole hstop]
  have hsplit : (match n.fractionText ++ n.exponentText with
      | '.' :: r => (r.takeWhile Char.isDigit, r.dropWhile Char.isDigit)
      | r => ([], r)) = (n.fraction, n.exponentText) := by
    by_cases hne : n.fraction = []
    · rw [fractionText, hne, List.nil_append]
      split
      · next r hr =>
        unfold exponentText at hr
        split at hr
        · cases hr
        · cases hr
      · rfl
    · rw [fractionText_of_ne hne, List.cons_append]
      exact Prod.ext (takeWhile_append h.fraction hexp) (dropWhile_append h.fraction hexp)
  have hnat : readNat? (n.whole ++ n.fraction) = some n.coefficient :=
    readNat?_eq (List.append_ne_nil_of_left_ne_nil h.whole_ne _) (h.whole.append h.fraction)
  obtain ⟨c, cs, htext, hc⟩ := h.exists_digit
  rw [htext, readUnsigned?_of_isDigit negative hc, ← htext, htake, hdrop, hsplit]
  simp only [hnat, readExponent?_exponentText, Option.bind_eq_bind, Option.bind_some, scale]

end Numeral

/-! ### Signs -/

/-- The sign of a number as written. -/
def signText (negative : Bool) : List Char := if negative then ['-'] else []

theorem readDouble?_numeral {n : Numeral} (h : n.WellFormed) (negative : Bool) :
    readDouble? (signText negative ++ n.text) =
      some (nearestDecimal negative n.coefficient n.scale) := by
  rw [← Numeral.readUnsigned?_text h]
  cases negative with
  | true => rfl
  | false =>
    obtain ⟨c, cs, htext, hc⟩ := h.exists_digit
    have hsplit : splitSign n.text = (false, n.text) := by
      rw [htext]
      unfold splitSign
      split
      · next heq => simp [(List.cons.inj heq).1] at hc
      · next heq => simp [(List.cons.inj heq).1] at hc
      · rfl
    have hsign : signText false ++ n.text = n.text := rfl
    rw [hsign]
    unfold readDouble?
    rw [hsplit]

/-! ### Written doubles -/

/-- The digits of `c · 10 ^ e`, with zeros behind them or without. -/
def Numeral.Stands (n : Numeral) (c : Nat) (e : Int) : Prop :=
  ∃ k : Nat, n.coefficient = c * 10 ^ k ∧ n.scale = e - k

theorem ofDigits_zero_cons (cs : List Char) : ofDigits ('0' :: cs) = ofDigits cs := rfl

theorem positional_numeral (c : Nat) (e : Int) :
    ∃ n : Numeral, n.WellFormed ∧ positional (digits c) e = n.text ∧ n.Stands c e := by
  have hne := digits_ne_nil c
  have hds := areDigits_digits c
  have hlen : 0 < (digits c).length := List.length_pos_iff.2 hne
  unfold positional
  dsimp only
  split
  · next hpoint =>
    -- All digits stand behind the point, behind zeros.
    let zeros := List.replicate (-((digits c).length + e : Int)).toNat '0'
    refine ⟨⟨['0'], zeros ++ digits c, none⟩, ⟨by simp, ?_, ?_, ?_⟩, ?_, 0, ?_, ?_⟩
    · simp [AreDigits]
    · exact (areDigits_replicate _).append hds
    · exact .inl (List.append_ne_nil_of_right_ne_nil _ hne)
    · rw [Numeral.text, Numeral.fractionText_of_ne (List.append_ne_nil_of_right_ne_nil _ hne)]
      simp [Numeral.exponentText, zeros]
    · simp only [Numeral.coefficient, List.singleton_append, ofDigits_zero_cons]
      rw [ofDigits_append, ofDigits_replicate, ofDigits_digits]
      omega
    · simp only [Numeral.scale, Option.getD_none, List.length_append, List.length_replicate, zeros]
      omega
  split
  · next hpoint he =>
    -- All digits stand before the point, with zeros behind them.
    refine ⟨⟨digits c ++ List.replicate e.toNat '0', ['0'], none⟩, ⟨?_, ?_, ?_, ?_⟩, ?_,
      e.toNat + 1, ?_, ?_⟩
    · exact List.append_ne_nil_of_left_ne_nil hne _
    · exact hds.append (areDigits_replicate _)
    · simp [AreDigits]
    · simp
    · simp [Numeral.text, Numeral.fractionText, Numeral.exponentText]
    · rw [Numeral.coefficient, List.append_assoc, ← List.replicate_succ', ofDigits_append,
        ofDigits_replicate, ofDigits_digits, List.length_replicate]
      omega
    · simp only [Numeral.scale, Option.getD_none, List.length_singleton]
      omega
  · next hpoint he =>
    -- The point stands among the digits.
    let point := ((digits c).length + e : Int).toNat
    have hdrop : (digits c).drop point ≠ [] := by
      rw [Ne, List.drop_eq_nil_iff]
      omega
    refine ⟨⟨(digits c).take point, (digits c).drop point, none⟩,
      ⟨?_, hds.take _, hds.drop _, .inl hdrop⟩, ?_, 0, ?_, ?_⟩
    · rw [Ne, List.take_eq_nil_iff]
      rintro (h | h)
      · omega
      · exact hne h
    · rw [Numeral.text, Numeral.fractionText_of_ne hdrop]
      simp [Numeral.exponentText, point]
    · rw [Numeral.coefficient, List.take_append_drop, ofDigits_digits]
      omega
    · simp only [Numeral.scale, Option.getD_none, List.length_drop]
      omega

theorem scientific_numeral (c : Nat) (e : Int) :
    ∃ n : Numeral, n.WellFormed ∧ scientific false (digits c) e = n.text ∧ n.Stands c e := by
  have hds := areDigits_digits c
  obtain ⟨d, ds, hcons⟩ := List.exists_cons_of_ne_nil (digits_ne_nil c)
  refine ⟨⟨[d], ds, some ((digits c).length + e - 1)⟩, ⟨by simp, ?_, ?_, .inr (by simp)⟩, ?_, 0,
    ?_, ?_⟩
  · exact fun x hx => hds x (by rw [hcons]; exact List.mem_cons.2 (.inl (List.mem_singleton.1 hx)))
  · exact fun x hx => hds x (by rw [hcons]; exact List.mem_cons_of_mem _ hx)
  · simp only [scientific, hcons, Numeral.text, Numeral.fractionText, Numeral.exponentText]
    cases ds <;> simp
  · rw [Numeral.coefficient, List.singleton_append, ← hcons, ofDigits_digits]
    omega
  · simp only [Numeral.scale, Option.getD_some, hcons, List.length_cons]
    omega

theorem Layout.write_numeral {layout : Layout} (h : layout.plusSign = false) (c : Nat) (e : Int) :
    ∃ n : Numeral, n.WellFormed ∧ layout.write c e = n.text ∧ n.Stands c e := by
  unfold Layout.write
  dsimp only
  split
  · exact positional_numeral c e
  · rw [h]
    exact scientific_numeral c e

/-- The mantissa of a double and the power of two that it counts. -/
def mantissa (exponent fraction : Nat) : Nat × Int :=
  if exponent = 0 then (fraction, -1074) else (Nat.pow 2 52 + fraction, exponent - 1075)

/-- The shortest digits of a double. -/
def shortestDigits (tie : Tie) (exponent fraction : Nat) : Nat × Int :=
  if (mantissa exponent fraction).1 = 0 then (0, 0)
  else shortest tie (mantissa exponent fraction).1 (mantissa exponent fraction).2

/-- What is written for a finite double is a numeral of its shortest digits. -/
theorem Layout.exists_numeral {layout : Layout} (h : layout.plusSign = false)
    {exponent : Nat} (hexp : exponent ≠ 2047) (fraction : Nat) :
    ∃ n : Numeral, n.WellFormed ∧ layout.magnitude exponent fraction = n.text ∧
      n.Stands (shortestDigits layout.tie exponent fraction).1
        (shortestDigits layout.tie exponent fraction).2 := by
  unfold Layout.magnitude shortestDigits mantissa
  rw [if_neg hexp]
  split
  · split
    · next hzero =>
      refine ⟨⟨['0'], ['0'], none⟩, ⟨by simp, ?_, ?_, by simp⟩, rfl, 1, ?_, ?_⟩
      · simp [AreDigits]
      · simp [AreDigits]
      · rfl
      · rfl
    · exact Layout.write_numeral h _ _
  · rw [if_neg (by simp)]
    exact Layout.write_numeral h _ _

end Decimal

end WideColumn
