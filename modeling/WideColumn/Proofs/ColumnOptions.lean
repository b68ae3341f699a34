import WideColumn.Proofs.Lexeme
import WideColumn.Proofs.Resolution
import WideColumn.Proofs.SortedMap

/-!
# Option blocks of column tokens

`ColumnRef.WrittenColumn` is a column token as it can be written: a name and a block of entries,
each a key and a spelling of a value (`ColumnRef.Spells`), with blanks of any kind wherever they may
stand. Reading a token gives back its name and its entries:

* `ColumnRef.splitEntries_intercalate` : a block is split at the commas between its entries, not at
  those in quotes;
* `ColumnRef.Spells.readValue_eq` : a value is read as what it spells;
* `ColumnRef.WrittenColumn.parse_text` : a token is read as its name and its entries, unless a flag
  has no truth value;
* `ColumnRef.parse_written` : what is found under a key, and what becomes of the token in a filter.
-/

namespace WideColumn

namespace Text

/-! ### Trimming -/

/-- All characters are blank. -/
def Blank (cs : List Char) : Prop := ∀ c ∈ cs, isBlank c = true

instance (cs : List Char) : Decidable (Blank cs) :=
  decidable_of_iff (cs.all isBlank = true) List.all_eq_true

/-- There is a character, and neither the first nor the last one is blank. -/
structure Tight (cs : List Char) : Prop where
  /-- There is a character. -/
  ne_nil : cs ≠ []
  /-- It does not start with a blank. -/
  head : Stops isBlank cs
  /-- It does not end with a blank. -/
  last : Stops isBlank cs.reverse

theorem blank_nil : Blank [] := fun _ hc => absurd hc List.not_mem_nil

theorem Blank.reverse {bs : List Char} (h : Blank bs) : Blank bs.reverse :=
  fun c hc => h c (List.mem_reverse.1 hc)

theorem Blank.not_mem {bs : List Char} (h : Blank bs) {d : Char} (hd : isBlank d = false) :
    d ∉ bs := by
  intro hmem
  rw [h d hmem] at hd
  cases hd

theorem Blank.append {bs bs' : List Char} (h : Blank bs) (h' : Blank bs') : Blank (bs ++ bs') :=
  fun c hc => (List.mem_append.1 hc).elim (h c) (h' c)

theorem tight_of_forall {cs : List Char} (hne : cs ≠ []) (h : ∀ c ∈ cs, isBlank c = false) :
    Tight cs :=
  ⟨hne, fun c hc => h c (List.mem_of_mem_head? hc),
    fun c hc => h c (List.mem_reverse.1 (List.mem_of_mem_head? hc))⟩

theorem trimEnd_append {bs cs : List Char} (hbs : Blank bs) (hcs : Stops isBlank cs.reverse) :
    trimEnd (cs ++ bs) = cs := by
  rw [trimEnd, List.reverse_append, dropWhile_append hbs.reverse hcs, List.reverse_reverse]

theorem trimEnd_eq_self {cs : List Char} (h : Stops isBlank cs.reverse) : trimEnd cs = cs := by
  simpa using trimEnd_append blank_nil h

theorem stops_append {p : Char → Bool} {cs : List Char} (h : Stops p cs) (hne : cs ≠ [])
    (k : List Char) : Stops p (cs ++ k) := by
  intro c hc
  rw [List.head?_append_of_ne_nil _ hne] at hc
  exact h c hc

/-- Trimming leaves what stands between blanks. -/
theorem Tight.trim_eq {cs : List Char} (h : Tight cs) {bs bs' : List Char} (hbs : Blank bs)
    (hbs' : Blank bs') : trim (bs ++ (cs ++ bs')) = cs := by
  rw [trim, trimStart, dropWhile_append hbs (stops_append h.head h.ne_nil bs')]
  exact trimEnd_append hbs' h.last

theorem trim_eq_nil_iff {cs : List Char} : trim cs = [] ↔ Blank cs := by
  rw [trim, trimEnd, List.reverse_eq_nil_iff, List.dropWhile_eq_nil_iff]
  constructor
  · intro h
    refine List.dropWhile_eq_nil_iff.1 ?_
    -- What is left at the start would begin with a character that is no blank.
    cases hcs : cs.dropWhile isBlank with
    | nil => rfl
    | cons c rest =>
      have hblank : isBlank c = true := h c (by simp [trimStart, hcs])
      have hnot := List.head?_dropWhile_not isBlank cs
      simp [hcs, hblank] at hnot
  · intro h
    have hstart : trimStart cs = [] := List.dropWhile_eq_nil_iff.2 h
    simp [hstart]

end Text

namespace ColumnRef

open Text Decimal Token

/-! ### Plain characters -/

/-- Characters of which words and numbers consist: neither blank nor bracket, comma or quote. -/
def isPlain (c : Char) : Bool :=
  !isBlank c && !isBracket c && c != ',' && c != '"' && c != '\''

theorem isPlain_of_isAlphanum {c : Char} (h : c.isAlphanum = true) : isPlain c = true := by
  have hrange : 48 ≤ c.toNat ∧ c.toNat ≤ 122 := by
    simp [Char.isAlphanum, Char.isAlpha, Char.isUpper, Char.isLower, Char.isDigit,
      UInt32.le_iff_toNat_le] at h
    omega
  have hblank : isBlank c = false := by
    simp [isBlank, inRanges, blankRanges]
    omega
  have hne : ∀ d : Char, d.isAlphanum = false → c ≠ d := by
    rintro d hd rfl
    rw [h] at hd
    cases hd
  simp [isPlain, hblank, isBracket, hne '[' rfl, hne ']' rfl, hne ',' rfl, hne '"' rfl, hne '\'' rfl]

theorem isBlank_of_isPlain {c : Char} (h : isPlain c = true) : isBlank c = false := by
  simp [isPlain] at h
  exact h.1.1.1.1

theorem isBracket_of_isPlain {c : Char} (h : isPlain c = true) : isBracket c = false := by
  simp [isPlain] at h
  exact h.1.1.1.2

theorem isBracket_of_isBlank {c : Char} (h : isBlank c = true) : isBracket c = false := by
  rw [← Bool.not_eq_true]
  intro hc
  simp only [isBracket, Bool.or_eq_true, beq_iff_eq] at hc
  rcases hc with rfl | rfl <;> cases h

theorem isPlain_of_isDigit {c : Char} (h : c.isDigit = true) : isPlain c = true :=
  isPlain_of_isAlphanum (by simp [Char.isAlphanum, h])

theorem plain_ne {cs : List Char} (h : ∀ c ∈ cs, isPlain c = true) {d : Char}
    (hd : isPlain d = false) : d ∉ cs := by
  intro hmem
  rw [h d hmem] at hd
  cases hd

theorem isPlain_of_isNamePart {c : Char} (h : isNamePart c = true) : isPlain c = true := by
  simp only [isNamePart, Bool.or_eq_true, beq_iff_eq] at h
  rcases h with h | rfl
  · exact isPlain_of_isAlphanum h
  · rfl

/-- A key starts as a name does and goes on as one. -/
theorem isKey_cases {w : List Char} (hw : isKey w = true) :
    ∃ c cs, w = c :: cs ∧ isNameStart c = true ∧ ∀ d ∈ w, isNamePart d = true := by
  cases w with
  | nil => cases hw
  | cons c cs =>
    obtain ⟨hc, hcs⟩ := isName_cons.1 hw
    refine ⟨c, cs, rfl, hc, List.forall_mem_cons.2 ⟨?_, hcs⟩⟩
    simp only [isNameStart, isNamePart, Bool.or_eq_true] at hc ⊢
    exact hc.imp_left fun h => by simp [Char.isAlphanum, h]

theorem not_mem_of_isKey {w : List Char} (hw : isKey w = true) {d : Char}
    (hd : isNamePart d = false) : d ∉ w := by
  obtain ⟨-, -, -, -, h⟩ := isKey_cases hw
  intro hmem
  rw [h d hmem] at hd
  cases hd

theorem isPlain_of_isKey {w : List Char} (hw : isKey w = true) : ∀ c ∈ w, isPlain c = true := by
  obtain ⟨-, -, -, -, h⟩ := isKey_cases hw
  exact fun c hc => isPlain_of_isNamePart (h c hc)

/-! ### Spelling -/

/-- How a value is spelled without quotes. -/
inductive Unquoted : List Char → Value → Prop
  /-- A truth value. -/
  | boolean (b : Bool) : Unquoted (if b then "true" else "false").toList (.boolean b)
  /-- An integer: digits, possibly with a sign. -/
  | integer {sign ds : List Char} {n : Int64} (hsign : sign = [] ∨ sign = ['+'] ∨ sign = ['-'])
      (hne : ds ≠ []) (hds : AreDigits ds)
      (hn : n.toInt = if sign = ['-'] then -(ofDigits ds : Int) else ofDigits ds) :
      Unquoted (sign ++ ds) (.integer n)
  /-- A double: a number with a point. -/
  | double {raw : List Char} {x : Float} (hpoint : '.' ∈ raw) (hread : readDouble? raw = some x) :
      Unquoted raw (.double x)
  /-- A word that is no truth value. -/
  | word {w : List Char} (hw : isKey w = true) (htrue : w ≠ "true".toList)
      (hfalse : w ≠ "false".toList) : Unquoted w (.string (String.ofList w))
  /-- Any word behind a colon. -/
  | symbol {w : List Char} (hw : isKey w = true) : Unquoted (':' :: w) (.string (String.ofList w))

/-- How a value is spelled in an option block. -/
inductive Spells : List Char → Value → Prop
  /-- Text in quotes of either kind, without that quote and without brackets in it. -/
  | quoted {q : Char} {s : List Char} (hq : q = '"' ∨ q = '\'')
      (hs : ∀ c ∈ s, c ≠ q ∧ isBracket c = false) :
      Spells (q :: (s ++ [q])) (.string (String.ofList s))
  /-- Anything else. -/
  | unquoted {raw : List Char} {v : Value} (h : Unquoted raw v) : Spells raw v

/-! ### Numbers -/

theorem readInt64?_sign {sign ds : List Char} {n : Int64}
    (hsign : sign = [] ∨ sign = ['+'] ∨ sign = ['-']) (hne : ds ≠ []) (hds : AreDigits ds)
    (hn : n.toInt = if sign = ['-'] then -(ofDigits ds : Int) else ofDigits ds) :
    readInt64? (sign ++ ds) = some n := by
  have hsplit : splitSign (sign ++ ds) = (decide (sign = ['-']), ds) := by
    rcases hsign with rfl | rfl | rfl
    · exact splitSign_of_areDigits hds
    · rfl
    · rfl
  simp only [readInt64?, hsplit, readNat?_eq hne hds, Option.bind_eq_bind, Option.bind_some,
    decide_eq_true_eq, ← hn]
  rw [toInt64?, if_pos ⟨Int64.minValue_le_toInt n, Int64.toInt_le n⟩, Int64.ofInt_toInt]

theorem areDigits_of_readNat? {cs : List Char} {n : Nat} (h : readNat? cs = some n) :
    AreDigits cs := by
  unfold readNat? at h
  split at h
  · cases h
  · next hc =>
    simp at hc
    exact hc.2

theorem mem_splitSign {cs : List Char} {c : Char} (hc : c ∈ cs) :
    c ∈ (splitSign cs).2 ∨ c = '+' ∨ c = '-' := by
  unfold splitSign
  split
  · exact (List.mem_cons.1 hc).symm.imp_right .inr
  · exact (List.mem_cons.1 hc).symm.imp_right .inl
  · exact .inl hc

/-- Characters of an integer. -/
theorem chars_of_readInt64? {cs : List Char} {n : Int64} (h : readInt64? cs = some n) :
    ∀ c ∈ cs, c.isDigit = true ∨ c = '+' ∨ c = '-' := by
  simp only [readInt64?, Option.bind_eq_bind, Option.bind_eq_some_iff] at h
  obtain ⟨m, hm, -⟩ := h
  exact fun c hc => (mem_splitSign hc).imp_left (areDigits_of_readNat? hm c)

theorem readInt64?_eq_none {cs : List Char} {d : Char} (hmem : d ∈ cs) (hdigit : d.isDigit = false)
    (hplus : d ≠ '+') (hminus : d ≠ '-') : readInt64? cs = none := by
  cases h : readInt64? cs with
  | none => rfl
  | some n =>
    rcases chars_of_readInt64? h d hmem with h | h | h
    · rw [hdigit] at h
      cases h
    · exact absurd h hplus
    · exact absurd h hminus

theorem isPlain_of_mem_splitSign {cs : List Char}
    (h : ∀ c ∈ (splitSign cs).2, isPlain c = true) : ∀ c ∈ cs, isPlain c = true := by
  intro c hc
  rcases mem_splitSign hc with hc | rfl | rfl
  · exact h c hc
  · rfl
  · rfl

theorem isPlain_of_readExponent? {cs : List Char} {e : Int} (h : readExponent? cs = some e) :
    ∀ c ∈ cs, isPlain c = true := by
  cases cs with
  | nil => nofun
  | cons c cs =>
    rw [readExponent?] at h
    split at h
    · next hc =>
      simp only [Option.bind_eq_bind, Option.bind_eq_some_iff] at h
      obtain ⟨n, hn, -⟩ := h
      refine List.forall_mem_cons.2 ⟨?_, isPlain_of_mem_splitSign fun d hd =>
        isPlain_of_isDigit (areDigits_of_readNat? hn d hd)⟩
      simp only [Bool.or_eq_true, beq_iff_eq] at hc
      rcases hc with rfl | rfl <;> rfl
    · cases h

theorem isPlain_of_dropWhile {cs : List Char}
    (h : ∀ c ∈ cs.dropWhile Char.isDigit, isPlain c = true) : ∀ c ∈ cs, isPlain c = true := by
  intro c hc
  rw [← List.takeWhile_append_dropWhile (p := Char.isDigit) (l := cs)] at hc
  rcases List.mem_append.1 hc with hc | hc
  · exact isPlain_of_isDigit (List.all_eq_true.1 List.all_takeWhile c hc)
  · exact h c hc

/-- A double with a point in it is no word, so it consists of digits, signs, points and letters. -/
theorem isPlain_of_readUnsigned? {negative : Bool} {cs : List Char} {x : Float}
    (hpoint : '.' ∈ cs) (h : readUnsigned? negative cs = some x) :
    ∀ c ∈ cs, isPlain c = true := by
  have hword : ∀ w : List Char, '.' ∉ w → String.ofList (cs.map Char.toLower) ≠ String.ofList w := by
    intro w hw heq
    rw [← String.ofList_injective heq] at hw
    exact hw (List.mem_map.2 ⟨'.', hpoint, rfl⟩)
  unfold readUnsigned? at h
  split at h
  · next heq => exact absurd heq (hword ['i', 'n', 'f'] (by decide))
  · next heq => exact absurd heq (hword ['i', 'n', 'f', 'i', 'n', 'i', 't', 'y'] (by decide))
  · next heq => exact absurd heq (hword ['n', 'a', 'n'] (by decide))
  · simp only [Option.bind_eq_bind, Option.bind_eq_some_iff] at h
    obtain ⟨m, -, e, he, -⟩ := h
    refine isPlain_of_dropWhile ?_
    split at he
    · next r hr =>
      rw [hr]
      exact List.forall_mem_cons.2 ⟨rfl, isPlain_of_dropWhile (isPlain_of_readExponent? he)⟩
    · exact isPlain_of_readExponent? he

theorem isPlain_of_readDouble? {raw : List Char} {x : Float} (hpoint : '.' ∈ raw)
    (hread : readDouble? raw = some x) : ∀ c ∈ raw, isPlain c = true := by
  refine isPlain_of_mem_splitSign (isPlain_of_readUnsigned? ?_ hread)
  simpa using mem_splitSign hpoint

/-! ### Reading values -/

theorem Unquoted.ne_nil {raw : List Char} {v : Value} (h : Unquoted raw v) : raw ≠ [] := by
  cases h with
  | boolean b => cases b <;> exact List.cons_ne_nil _ _
  | integer _ hne => exact List.append_ne_nil_of_right_ne_nil _ hne
  | double hpoint => exact List.ne_nil_of_mem hpoint
  | word hw =>
    obtain ⟨c, cs, rfl, -⟩ := isKey_cases hw
    exact List.cons_ne_nil _ _
  | symbol => exact List.cons_ne_nil _ _

theorem Unquoted.isPlain {raw : List Char} {v : Value} (h : Unquoted raw v) :
    ∀ c ∈ raw, isPlain c = true := by
  cases h with
  | boolean b =>
    cases b with
    | true => exact isPlain_of_isKey (w := "true".toList) rfl
    | false => exact isPlain_of_isKey (w := "false".toList) rfl
  | integer hsign _ hds =>
    intro c hc
    rcases List.mem_append.1 hc with hc | hc
    · rcases hsign with rfl | rfl | rfl
      · cases hc
      · rw [List.mem_singleton.1 hc]; rfl
      · rw [List.mem_singleton.1 hc]; rfl
    · exact isPlain_of_isDigit (hds c hc)
  | double hpoint hread => exact isPlain_of_readDouble? hpoint hread
  | word hw => exact isPlain_of_isKey hw
  | symbol hw => exact List.forall_mem_cons.2 ⟨rfl, isPlain_of_isKey hw⟩

theorem unquote?_quoted (q : Char) (s : List Char) : unquote? q (q :: (s ++ [q])) = some s := by
  simp [unquote?]

theorem unquote?_of_ne {q c : Char} (h : c ≠ q) (cs : List Char) : unquote? q (c :: cs) = none := by
  simp [unquote?, h]

theorem unquote?_of_isPlain {raw : List Char} (h : ∀ c ∈ raw, isPlain c = true) {q : Char}
    (hq : isPlain q = false) : unquote? q raw = none := by
  cases raw with
  | nil => rfl
  | cons c cs =>
    refine unquote?_of_ne ?_ cs
    rintro rfl
    rw [h c List.mem_cons_self] at hq
    cases hq

theorem readValue_quoted {q : Char} (hq : q = '"' ∨ q = '\'') (s : List Char) :
    readValue (q :: (s ++ [q])) = .ok (.string (String.ofList s)) := by
  rcases hq with rfl | rfl
  · simp [readValue, unquote?_quoted]
  · simp [readValue, unquote?_of_ne (q := '"') (c := '\'') (by decide), unquote?_quoted]

theorem readValue_unquoted {raw : List Char} (hne : raw ≠ []) (h : ∀ c ∈ raw, isPlain c = true) :
    readValue raw =
      if raw == "true".toList then .ok (.boolean true)
      else if raw == "false".toList then .ok (.boolean false)
      else
        match readNumber? raw with
        | some v => .ok v
        | none =>
          if isKey (dropColon raw) then .ok (.string (String.ofList (dropColon raw)))
          else .error (.invalidValue (String.ofList raw)) := by
  have hempty : raw.isEmpty = false := by simpa using hne
  rw [readValue, hempty, unquote?_of_isPlain h rfl, unquote?_of_isPlain h rfl]
  rfl

theorem readValue_of_readNumber? {raw : List Char} {v : Value} (hne : raw ≠ [])
    (h : ∀ c ∈ raw, isPlain c = true) (hv : readNumber? raw = some v) : readValue raw = .ok v := by
  have htrue : raw ≠ "true".toList := by
    rintro rfl
    cases hv
  have hfalse : raw ≠ "false".toList := by
    rintro rfl
    cases hv
  rw [readValue_unquoted hne h, if_neg (by simpa using htrue), if_neg (by simpa using hfalse), hv]

theorem readNumber?_eq_none {raw : List Char} {d : Char} (hmem : d ∈ raw)
    (hdigit : d.isDigit = false) (hplus : d ≠ '+') (hminus : d ≠ '-') (hpoint : '.' ∉ raw) :
    readNumber? raw = none := by
  simp [readNumber?, readInt64?_eq_none hmem hdigit hplus hminus, hpoint]

theorem readValue_word {w : List Char} (hw : isKey w = true) (htrue : w ≠ "true".toList)
    (hfalse : w ≠ "false".toList) : readValue w = .ok (.string (String.ofList w)) := by
  have hplain := isPlain_of_isKey hw
  have hpoint : '.' ∉ w := not_mem_of_isKey hw rfl
  obtain ⟨c, cs, rfl, hc, -⟩ := isKey_cases hw
  have hne : ∀ d, isNameStart d = false → c ≠ d := by
    rintro d hd rfl
    rw [hc] at hd
    cases hd
  have hnumber := readNumber?_eq_none List.mem_cons_self (isDigit_of_isNameStart hc) (hne '+' rfl)
    (hne '-' rfl) hpoint
  have hcolon : dropColon (c :: cs) = c :: cs := by
    unfold dropColon
    split
    · next h => exact absurd (List.cons.inj h).1 (hne ':' rfl)
    · rfl
  rw [readValue_unquoted (List.cons_ne_nil _ _) hplain, if_neg (by simpa using htrue),
    if_neg (by simpa using hfalse), hnumber, hcolon, hw]
  rfl

theorem readValue_symbol {w : List Char} (hw : isKey w = true) :
    readValue (':' :: w) = .ok (.string (String.ofList w)) := by
  have hplain : ∀ c ∈ ':' :: w, isPlain c = true :=
    List.forall_mem_cons.2 ⟨rfl, isPlain_of_isKey hw⟩
  have hpoint : '.' ∉ w := not_mem_of_isKey hw rfl
  have hnumber : readNumber? (':' :: w) = none :=
    readNumber?_eq_none List.mem_cons_self rfl (by decide) (by decide) (by simpa using hpoint)
  rw [readValue_unquoted (List.cons_ne_nil _ _) hplain, hnumber]
  simp [dropColon, hw]

theorem Unquoted.readValue_eq {raw : List Char} {v : Value} (h : Unquoted raw v) :
    readValue raw = .ok v := by
  have hne := h.ne_nil
  have hplain := h.isPlain
  cases h with
  | boolean b => cases b <;> rfl
  | integer hsign hds hdigits hn =>
    refine readValue_of_readNumber? hne hplain ?_
    rw [readNumber?, readInt64?_sign hsign hds hdigits hn]
  | double hpoint hread =>
    refine readValue_of_readNumber? hne hplain ?_
    rw [readNumber?, readInt64?_eq_none hpoint rfl (by decide) (by decide), hread]
    simp [hpoint]
  | word hw htrue hfalse => exact readValue_word hw htrue hfalse
  | symbol hw => exact readValue_symbol hw

/-- A value is read as what it spells. -/
theorem Spells.readValue_eq {raw : List Char} {v : Value} (h : Spells raw v) :
    readValue raw = .ok v := by
  cases h with
  | quoted hq _ => exact readValue_quoted hq _
  | unquoted h => exact h.readValue_eq

theorem Spells.tight {raw : List Char} {v : Value} (h : Spells raw v) : Tight raw := by
  cases h with
  | @quoted q s hq hs =>
    have hblank : isBlank q = false := by
      rcases hq with rfl | rfl <;> rfl
    refine ⟨List.cons_ne_nil _ _, stops_cons hblank _, ?_⟩
    rw [List.reverse_cons, List.reverse_append]
    exact stops_cons hblank _
  | unquoted h => exact tight_of_forall h.ne_nil fun c hc => isBlank_of_isPlain (h.isPlain c hc)

theorem Spells.isBracket_eq {raw : List Char} {v : Value} (h : Spells raw v) :
    ∀ c ∈ raw, isBracket c = false := by
  cases h with
  | @quoted q s hq hs =>
    have hbracket : isBracket q = false := by
      rcases hq with rfl | rfl <;> rfl
    simp only [List.mem_cons, List.mem_append, List.not_mem_nil, or_false]
    rintro c (rfl | hc | rfl)
    · exact hbracket
    · exact (hs c hc).2
    · exact hbracket
  | unquoted h => exact fun c hc => isBracket_of_isPlain (h.isPlain c hc)

/-! ### Entries of a block -/

/-- A part of a block with all its quotes closed and no comma outside of them. -/
def Whole (cs : List Char) : Prop :=
  ∀ k, splitEntries none (cs ++ k) = (cs ++ (splitEntries none k).1, (splitEntries none k).2)

theorem whole_nil : Whole [] := fun _ => rfl

theorem Whole.append {cs ds : List Char} (hcs : Whole cs) (hds : Whole ds) : Whole (cs ++ ds) := by
  intro k
  rw [List.append_assoc, hcs, hds, List.append_assoc]

theorem whole_cons {c : Char} (hcomma : c ≠ ',') (hdouble : c ≠ '"') (hsingle : c ≠ '\'')
    {cs : List Char} (h : Whole cs) : Whole (c :: cs) := by
  intro k
  simp [splitEntries, quoteAfter, hcomma, hdouble, hsingle, h k]

theorem whole_of_not_mem {cs : List Char} (hcomma : ',' ∉ cs) (hdouble : '"' ∉ cs)
    (hsingle : '\'' ∉ cs) : Whole cs := by
  induction cs with
  | nil => exact whole_nil
  | cons c cs ih =>
    rw [List.mem_cons, not_or] at hcomma hdouble hsingle
    exact whole_cons (Ne.symm hcomma.1) (Ne.symm hdouble.1) (Ne.symm hsingle.1)
      (ih hcomma.2 hdouble.2 hsingle.2)

theorem whole_of_blank {bs : List Char} (h : Blank bs) : Whole bs :=
  whole_of_not_mem (h.not_mem rfl) (h.not_mem rfl) (h.not_mem rfl)

theorem whole_of_isPlain {cs : List Char} (h : ∀ c ∈ cs, isPlain c = true) : Whole cs :=
  whole_of_not_mem (plain_ne h rfl) (plain_ne h rfl) (plain_ne h rfl)

/-- Between two quotes nothing ends an entry. -/
theorem splitEntries_quoted {q : Char} {s : List Char} (hs : q ∉ s) (k : List Char) :
    splitEntries (some q) (s ++ q :: k) =
      (s ++ q :: (splitEntries none k).1, (splitEntries none k).2) := by
  induction s with
  | nil => simp [splitEntries, quoteAfter]
  | cons c s ih =>
    rw [List.mem_cons, not_or] at hs
    simp [splitEntries, quoteAfter, hs.1, ih hs.2]

theorem whole_quoted {q : Char} (hq : q = '"' ∨ q = '\'') {s : List Char} (hs : q ∉ s) :
    Whole (q :: (s ++ [q])) := by
  intro k
  have hopen : splitEntries none (q :: (s ++ q :: k)) =
      (q :: (splitEntries (some q) (s ++ q :: k)).1, (splitEntries (some q) (s ++ q :: k)).2) := by
    rcases hq with rfl | rfl <;> rfl
  simp [hopen, splitEntries_quoted hs]

theorem Spells.whole {raw : List Char} {v : Value} (h : Spells raw v) : Whole raw := by
  cases h with
  | quoted hq hs => exact whole_quoted hq fun hmem => (hs _ hmem).1 rfl
  | unquoted h => exact whole_of_isPlain h.isPlain

theorem Whole.splitEntries_eq {cs : List Char} (h : Whole cs) : splitEntries none cs = (cs, []) := by
  simpa [splitEntries] using h []

/-- A block is split at the commas between its entries. -/
theorem splitEntries_intercalate {e : List Char} {es : List (List Char)} (he : Whole e)
    (hes : ∀ e ∈ es, Whole e) : splitEntries none ([','].intercalate (e :: es)) = (e, es) := by
  induction es generalizing e with
  | nil => simpa using he.splitEntries_eq
  | cons d es ih =>
    obtain ⟨hd, hes⟩ := List.forall_mem_cons.1 hes
    have hcomma (k : List Char) : splitEntries none (',' :: k) =
        ([], (splitEntries none k).1 :: (splitEntries none k).2) := rfl
    rw [List.intercalate_cons_cons, List.append_assoc, he, List.singleton_append, hcomma, ih hd hes,
      List.append_nil]

/-- An entry of an option block as it is written. -/
structure WrittenOption where
  /-- Key. -/
  key : List Char
  /-- The value as spelled. -/
  raw : List Char
  /-- Value. -/
  value : Value
  /-- Blanks in front of the key. -/
  beforeKey : List Char
  /-- Blanks between the key and the colon. -/
  afterKey : List Char
  /-- Blanks between the colon and the value. -/
  beforeValue : List Char
  /-- Blanks behind the value. -/
  afterValue : List Char
  /-- The key is a name. -/
  key_isKey : isKey key = true
  /-- What is spelled is the value. -/
  spells : Spells raw value
  /-- Only blanks stand around the key, the colon and the value. -/
  blank : Blank beforeKey ∧ Blank afterKey ∧ Blank beforeValue ∧ Blank afterValue

namespace WrittenOption

/-- The characters of an entry. -/
def text (o : WrittenOption) : List Char :=
  o.beforeKey ++ (o.key ++ o.afterKey) ++ ':' :: (o.beforeValue ++ (o.raw ++ o.afterValue))

/-- The key and the value of an entry. -/
def entry (o : WrittenOption) : String × Value := (String.ofList o.key, o.value)

variable (o : WrittenOption)

theorem tight_key : Tight o.key := by
  obtain ⟨c, cs, hkey, -⟩ := isKey_cases o.key_isKey
  refine tight_of_forall (hkey ▸ List.cons_ne_nil c cs) fun c hc => ?_
  exact isBlank_of_isPlain (isPlain_of_isKey o.key_isKey c hc)

theorem colon_not_mem : ':' ∉ o.beforeKey ++ (o.key ++ o.afterKey) := by
  simp only [List.mem_append, not_or]
  exact ⟨o.blank.1.not_mem rfl, not_mem_of_isKey o.key_isKey rfl, o.blank.2.1.not_mem rfl⟩

/-- The key and the value of an entry are read, but a flag has to be a truth value. -/
theorem readEntry_text :
    readEntry o.text =
      if isFlag o.entry.1 && o.entry.2.boolean?.isNone then
        .error (.notBoolean o.entry.1 o.entry.2)
      else .ok o.entry := by
  have hcolon : ∀ c ∈ o.beforeKey ++ (o.key ++ o.afterKey), (c != ':') = true := by
    intro c hc
    rw [bne_iff_ne]
    rintro rfl
    exact o.colon_not_mem hc
  have hstop (k : List Char) : Stops (· != ':') (':' :: k) := stops_cons rfl k
  obtain ⟨hbeforeKey, hafterKey, hbeforeValue, hafterValue⟩ := o.blank
  unfold readEntry text
  rw [dropWhile_append hcolon (hstop _), takeWhile_append hcolon (hstop _)]
  simp only [o.tight_key.trim_eq hbeforeKey hafterKey, o.key_isKey, if_true,
    o.spells.tight.trim_eq hbeforeValue hafterValue, o.spells.readValue_eq]
  rfl

theorem whole_text : Whole o.text := by
  obtain ⟨hbeforeKey, hafterKey, hbeforeValue, hafterValue⟩ := o.blank
  have hkey := whole_of_isPlain (isPlain_of_isKey o.key_isKey)
  have hvalue := (whole_of_blank hbeforeValue).append
    (o.spells.whole.append (whole_of_blank hafterValue))
  exact ((whole_of_blank hbeforeKey).append (hkey.append (whole_of_blank hafterKey))).append
    (whole_cons (by decide) (by decide) (by decide) hvalue)

theorem isBracket_text : ∀ c ∈ o.text, isBracket c = false := by
  obtain ⟨hbeforeKey, hafterKey, hbeforeValue, hafterValue⟩ := o.blank
  have hkey := isPlain_of_isKey o.key_isKey
  simp only [text, List.mem_append, List.mem_cons]
  rintro c ((hc | hc | hc) | rfl | hc | hc | hc)
  · exact isBracket_of_isBlank (hbeforeKey c hc)
  · exact isBracket_of_isPlain (hkey c hc)
  · exact isBracket_of_isBlank (hafterKey c hc)
  · rfl
  · exact isBracket_of_isBlank (hbeforeValue c hc)
  · exact o.spells.isBracket_eq c hc
  · exact isBracket_of_isBlank (hafterValue c hc)

end WrittenOption

/-- A column token with an option block as it is written. -/
structure WrittenColumn where
  /-- Name. -/
  name : List Char
  /-- The entries of the block. -/
  options : List WrittenOption
  /-- Blanks in front of the name. -/
  before : List Char
  /-- Blanks between the name and the block. -/
  between : List Char
  /-- What an empty block consists of. -/
  gap : List Char
  /-- Blanks behind the block. -/
  after : List Char
  /-- The name is not empty and neither starts nor ends with a blank. -/
  tight : Tight name
  /-- There is no bracket in the name. -/
  name_brackets : ∀ c ∈ name, isBracket c = false
  /-- Only blanks stand around the name and the block, and in an empty block. -/
  blank : Blank before ∧ Blank between ∧ Blank gap ∧ Blank after

namespace WrittenColumn

variable (w : WrittenColumn)

/-- What stands between the brackets. -/
def block : List Char :=
  if w.options.isEmpty then w.gap else [','].intercalate (w.options.map (·.text))

/-- The token without the blanks around it. -/
def core : List Char := w.name ++ w.between ++ '[' :: (w.block ++ [']'])

/-- The token. -/
def text : String := String.ofList (w.before ++ (w.core ++ w.after))

/-- The keys and values of the block in order. -/
def entries : List (String × Value) := w.options.map (·.entry)

/-- The value of the last entry with a key. -/
def last? (key : String) : Option Value := w.entries.reverse.lookup key

/-- The first flag whose value is no truth value. -/
def misplaced? : Option (String × Value) :=
  w.entries.find? fun e => isFlag e.1 && e.2.boolean?.isNone

variable {w}

theorem block_eq_gap (h : w.options = []) : w.block = w.gap := by
  simp [block, h]

theorem block_eq_cons {o : WrittenOption} {os : List WrittenOption} (h : w.options = o :: os) :
    w.block = [','].intercalate ((o :: os).map (·.text)) := by
  simp [block, h]

variable (w)

theorem isBracket_block : ∀ c ∈ w.block, isBracket c = false := by
  cases h : w.options with
  | nil =>
    rw [block_eq_gap h]
    exact fun c hc => isBracket_of_isBlank (w.blank.2.2.1 c hc)
  | cons o os =>
    rw [block_eq_cons h, List.map_cons, intercalate_cons, List.flatMap_map]
    simp only [List.mem_append, List.mem_flatMap, List.mem_singleton]
    rintro c (hc | ⟨o', -, rfl | hc⟩)
    · exact o.isBracket_text c hc
    · rfl
    · exact o'.isBracket_text c hc

theorem tight_core : Tight w.core := by
  refine ⟨List.append_ne_nil_of_right_ne_nil _ (List.cons_ne_nil _ _), ?_, ?_⟩
  · rw [core, List.append_assoc]
    exact stops_append w.tight.head w.tight.ne_nil _
  · rw [core, List.reverse_append, List.reverse_cons, List.reverse_append]
    exact stops_cons rfl _

/-- A token is split into its name and its block. -/
theorem splitToken_text : splitToken w.text.toList = .ok (w.name, some w.block) := by
  obtain ⟨hbefore, hbetween, -, hafter⟩ := w.blank
  have hname : ∀ c ∈ w.name ++ w.between, (!isBracket c) = true := by
    simp only [List.mem_append, Bool.not_eq_true']
    rintro c (hc | hc)
    · exact w.name_brackets c hc
    · exact isBracket_of_isBlank (hbetween c hc)
  have hblock : ∀ c ∈ w.block, (!isBracket c) = true := by simpa using w.isBracket_block
  have hopen (k : List Char) : Stops (fun c => !isBracket c) ('[' :: k) := stops_cons rfl k
  have hclose : Stops (fun c => !isBracket c) [']'] := stops_cons rfl _
  unfold splitToken text
  rw [String.toList_ofList, w.tight_core.trim_eq hbefore hafter]
  unfold core
  simp only [takeWhile_append hname (hopen _), dropWhile_append hname (hopen _),
    trimEnd_append hbetween w.tight.last, takeWhile_append hblock hclose,
    dropWhile_append hblock hclose]

theorem readEntries_eq (os : List WrittenOption) :
    os.mapM (fun o => readEntry o.text) =
      match (os.map (·.entry)).find? fun e => isFlag e.1 && e.2.boolean?.isNone with
      | none => .ok (os.map (·.entry))
      | some e => .error (.notBoolean e.1 e.2) := by
  induction os with
  | nil => rfl
  | cons o os ih =>
    rw [List.mapM_cons, o.readEntry_text, ih, List.map_cons, List.find?_cons]
    cases isFlag o.entry.1 && o.entry.2.boolean?.isNone with
    | true => rfl
    | false =>
      dsimp only
      cases (os.map (·.entry)).find? fun e => isFlag e.1 && e.2.boolean?.isNone <;> rfl

/-- The entries of a block are read, but a flag has to be a truth value. -/
theorem readBlock_block :
    readBlock w.block =
      match w.misplaced? with
      | none => .ok (.ofList w.entries)
      | some e => .error (.notBoolean e.1 e.2) := by
  unfold misplaced? entries
  cases h : w.options with
  | nil =>
    have hblank : trim w.gap = [] := trim_eq_nil_iff.2 w.blank.2.2.1
    rw [block_eq_gap h, readBlock, hblank]
    rfl
  | cons o os =>
    have hcolon : ':' ∈ w.block := by
      rw [block_eq_cons h, List.map_cons, intercalate_cons]
      simp [WrittenOption.text]
    have hne : (trim w.block).isEmpty = false := by
      rw [List.isEmpty_eq_false_iff, ne_eq, trim_eq_nil_iff]
      exact fun hblank => hblank.not_mem rfl hcolon
    have hsplit : splitEntries none w.block = (o.text, os.map (·.text)) := by
      rw [block_eq_cons h]
      refine splitEntries_intercalate o.whole_text fun e he => ?_
      obtain ⟨o', -, rfl⟩ := List.mem_map.1 he
      exact o'.whole_text
    have hread : (o.text :: os.map (·.text)).mapM readEntry =
        (o :: os).mapM fun o => readEntry o.text :=
      List.mapM_map (f := WrittenOption.text) (l := o :: os)
    rw [readBlock, hne, hsplit]
    simp only [hread, readEntries_eq]
    cases ((o :: os).map (·.entry)).find? fun e => isFlag e.1 && e.2.boolean?.isNone <;> rfl

/-- A token is read as its name and its entries, but a flag has to be a truth value. -/
theorem parse_text :
    parse w.text =
      match w.misplaced? with
      | none => .ok ⟨String.ofList w.name, some (.ofList w.entries)⟩
      | some e => .error (.notBoolean e.1 e.2) := by
  have hempty : w.name.isEmpty = false := by simpa using w.tight.ne_nil
  rw [parse, w.splitToken_text]
  change (if w.name.isEmpty = true then throw .missingName else
    readBlock w.block >>= fun m => pure (⟨String.ofList w.name, some m⟩ : ColumnRef)) = _
  rw [hempty, w.readBlock_block]
  cases w.misplaced? <;> rfl

end WrittenColumn

/-! ### Flags and further options -/

theorem flag?_mk (name : String) (options : SortedMap String Value) (key : String) :
    flag? ⟨name, some options⟩ key = (options.get? key).bind Value.boolean? := rfl

theorem get?_extraOptions (name : String) (options : SortedMap String Value) (key : String) :
    (extraOptions ⟨name, some options⟩).get? key =
      if isFlag key then none else options.get? key := by
  unfold extraOptions isFlag
  by_cases hlatest : key = latestVersionOnly
  · rw [hlatest, SortedMap.get?_erase_self, beq_self_eq_true, Bool.or_true, if_pos rfl]
  by_cases hignore : key = ignoreIfMissing
  · rw [SortedMap.get?_erase_of_ne _ hlatest, hignore, SortedMap.get?_erase_self, beq_self_eq_true,
      Bool.true_or, if_pos rfl]
  · rw [SortedMap.get?_erase_of_ne _ hlatest, SortedMap.get?_erase_of_ne _ hignore,
      beq_false_of_ne hlatest, beq_false_of_ne hignore, Bool.or_self]
    rfl

theorem boolean?_eq_none_iff {v : Value} : v.boolean? = none ↔ ∀ b, v ≠ .boolean b := by
  cases v <;> simp [Value.boolean?]

namespace WrittenColumn

variable {w : WrittenColumn}

theorem mem_of_last? {key : String} {v : Value} (h : w.last? key = some v) :
    (key, v) ∈ w.entries := by
  obtain ⟨l, r, hentries, -⟩ := List.lookup_eq_some_iff.1 h
  rw [← List.mem_reverse, hentries]
  exact List.mem_append_right _ List.mem_cons_self

theorem misplaced?_eq_none (h : ∀ e ∈ w.entries, isFlag e.1 = true → ∃ b, e.2 = .boolean b) :
    w.misplaced? = none := by
  refine List.find?_eq_none.2 fun e he hbad => ?_
  simp only [Bool.and_eq_true, Option.isNone_iff_eq_none] at hbad
  obtain ⟨b, hb⟩ := h e he hbad.1
  exact boolean?_eq_none_iff.1 hbad.2 b hb

theorem exists_misplaced? (h : ∃ e ∈ w.entries, isFlag e.1 = true ∧ ∀ b, e.2 ≠ .boolean b) :
    ∃ e ∈ w.entries, w.misplaced? = some e ∧ isFlag e.1 = true ∧ ∀ b, e.2 ≠ .boolean b := by
  obtain ⟨d, hd, hflag, hbad⟩ := h
  have hsome : w.misplaced?.isSome = true :=
    List.find?_isSome.2 ⟨d, hd, by simp [hflag, boolean?_eq_none_iff.2 hbad]⟩
  obtain ⟨e, he⟩ := Option.isSome_iff_exists.1 hsome
  have htest := List.find?_some he
  simp only [Bool.and_eq_true, Option.isNone_iff_eq_none] at htest
  exact ⟨e, List.mem_of_find?_eq_some he, he, htest.1, boolean?_eq_none_iff.1 htest.2⟩

/-- Where flags only get truth values, what is found under a flag is one. -/
theorem last?_flag (h : ∀ e ∈ w.entries, isFlag e.1 = true → ∃ b, e.2 = .boolean b) {key : String}
    (hkey : isFlag key = true) : w.last? key = ((w.last? key).bind Value.boolean?).map .boolean := by
  cases hlast : w.last? key with
  | none => rfl
  | some v =>
    obtain ⟨b, rfl⟩ := h _ (mem_of_last? hlast) hkey
    rfl

end WrittenColumn

/-- **Option blocks are read back exactly.**  A written token whose flags all have truth values is
read as its name and a map in which the last entry of each key is found. It resolves to a comparison
that has each flag as it was given, or else no word on rows without the column and the latest
version only, and all other keys as further options. If a flag has any other value, neither reading
nor resolving succeeds, and the error names such a flag. -/
theorem parse_written (w : WrittenColumn) :
    ((∀ e ∈ w.entries, isFlag e.1 = true → ∃ b, e.2 = .boolean b) →
      (∃ options, parse w.text = .ok ⟨String.ofList w.name, some options⟩ ∧
        ∀ key, options.get? key = w.last? key) ∧
      ∀ (bindings : Bindings) (op : Comparator) (operand : Operand) (v : Value),
        operand.HasValue bindings v →
        ∃ f, Expr.resolve bindings (.compare ⟨op, w.text, operand⟩) = .ok (.single f) ∧
          f.comparator = op ∧ f.column = String.ofList w.name ∧ f.value = v ∧
          f.ignoreIfMissing.map Value.boolean = w.last? ignoreIfMissing ∧
          .boolean f.latestVersionOnly = (w.last? latestVersionOnly).getD (.boolean true) ∧
          ∀ key, f.extra.get? key = if isFlag key then none else w.last? key) ∧
    ((∃ e ∈ w.entries, isFlag e.1 = true ∧ ∀ b, e.2 ≠ .boolean b) →
      ∃ e ∈ w.entries, isFlag e.1 = true ∧ (∀ b, e.2 ≠ .boolean b) ∧
        parse w.text = .error (.notBoolean e.1 e.2) ∧
        ∀ (bindings : Bindings) (op : Comparator) (operand : Operand),
          Expr.resolve bindings (.compare ⟨op, w.text, operand⟩) =
            .error (.invalidColumn w.text (.notBoolean e.1 e.2))) := by
  constructor
  · intro hflags
    have hparse : parse w.text = .ok ⟨String.ofList w.name, some (.ofList w.entries)⟩ := by
      rw [w.parse_text, WrittenColumn.misplaced?_eq_none hflags]
    have hlast (key : String) : (SortedMap.ofList w.entries).get? key = w.last? key :=
      SortedMap.get?_ofList w.entries key
    have hflag (key : String) (hkey : isFlag key = true) :
        (flag? ⟨String.ofList w.name, some (.ofList w.entries)⟩ key).map .boolean = w.last? key := by
      rw [flag?_mk, hlast]
      exact (w.last?_flag hflags hkey).symm
    refine ⟨⟨_, hparse, hlast⟩, fun bindings op operand v hv => ?_⟩
    have hvalue : Expr.operandValue bindings ⟨op, w.text, operand⟩ = .ok v :=
      Expr.operandValue_eq_ok.2 hv
    refine ⟨Expr.columnFilter op ⟨String.ofList w.name, some (.ofList w.entries)⟩ v, ?_, rfl, rfl,
      rfl, hflag ignoreIfMissing rfl, ?_, fun key => ?_⟩
    · rw [Expr.resolve, Expr.resolveComparison, hparse]
      simp only [hvalue]
      rfl
    · rw [← hflag latestVersionOnly rfl, Option.getD_map]
      rfl
    · rw [← hlast]
      exact get?_extraOptions (String.ofList w.name) _ key
  · intro h
    obtain ⟨e, he, hfirst, hflag, hbad⟩ := WrittenColumn.exists_misplaced? h
    have hparse : parse w.text = .error (.notBoolean e.1 e.2) := by
      rw [w.parse_text, hfirst]
    refine ⟨e, he, hflag, hbad, hparse, fun bindings op operand => ?_⟩
    rw [Expr.resolve, Expr.resolveComparison, hparse]
    rfl

/-- An entry with a blank on either side of its key and of its value. -/
def spaced {key raw : List Char} {value : Value} (hkey : isKey key = true)
    (h : Spells raw value) : WrittenOption where
  key := key
  raw := raw
  value := value
  beforeKey := [' ']
  afterKey := ['\t']
  beforeValue := ['\u3000']
  afterValue := ['\n']
  key_isKey := hkey
  spells := h
  blank := by decide

/-- A note with a comma, a colon and the other quote in it. -/
def note : WrittenOption :=
  spaced (show isKey "note".toList = true from rfl)
    (@Spells.quoted '\'' "a, \"b\": c".toList (.inr rfl) (by simp [isBracket]))

/-- A flag with a truth value. -/
def switch (b : Bool) : WrittenOption :=
  spaced (show isKey ignoreIfMissing.toList = true from rfl) (.unquoted (.boolean b))

/-- The same flag with a number. -/
def numbered : WrittenOption :=
  spaced (show isKey ignoreIfMissing.toList = true from rfl)
    (.unquoted (@Unquoted.integer ['-'] ['0', '7'] (-7) (.inr (.inr rfl)) (by simp)
      (by simp [AreDigits]) rfl))

/-- A name of two words with some entries. -/
def twoWords (options : List WrittenOption) : WrittenColumn where
  name := "first name".toList
  options := options
  before := [' ']
  between := []
  gap := []
  after := ['\n']
  tight := ⟨by decide, stops_cons rfl _, stops_cons rfl _⟩
  name_brackets := by simp [isBracket]
  blank := by decide

theorem parse_written_twoWords :
    (∃ options, parse (twoWords [switch false, note, switch true]).text =
        .ok ⟨"first name", some options⟩ ∧
      options.get? ignoreIfMissing = some (.boolean true) ∧
      options.get? "note" = some (.string "a, \"b\": c")) ∧
    parse (twoWords [note, numbered, switch true]).text =
      .error (.notBoolean ignoreIfMissing (.integer (-7))) := by
  have hnote : isFlag note.entry.1 ≠ true := by decide
  have hflags : ∀ e ∈ (twoWords [switch false, note, switch true]).entries,
      isFlag e.1 = true → ∃ b, e.2 = .boolean b :=
    List.forall_mem_cons.2 ⟨fun _ => ⟨false, rfl⟩, List.forall_mem_cons.2
      ⟨fun h => absurd h hnote, List.forall_mem_singleton.2 fun _ => ⟨true, rfl⟩⟩⟩
  have hbad : ∃ e ∈ (twoWords [note, numbered, switch true]).entries,
      isFlag e.1 = true ∧ ∀ b, e.2 ≠ .boolean b :=
    ⟨numbered.entry, .tail _ (.head _), rfl, nofun⟩
  obtain ⟨⟨options, hparse, hlast⟩, -⟩ := (parse_written _).1 hflags
  obtain ⟨e, he, hflag, hvalue, herror, -⟩ := (parse_written _).2 hbad
  refine ⟨⟨options, hparse, ?_, ?_⟩, ?_⟩
  · rw [hlast]
    rfl
  · rw [hlast]
    rfl
  · -- Of the three entries only the number is a flag that is no truth value.
    rcases List.mem_cons.1 he with rfl | he
    · exact absurd hflag hnote
    rcases List.mem_cons.1 he with rfl | he
    · exact herror
    · obtain rfl := List.mem_singleton.1 he
      exact absurd rfl (hvalue true)

end ColumnRef

end WideColumn
