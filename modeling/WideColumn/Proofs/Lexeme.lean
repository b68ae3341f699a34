import WideColumn.Expr.Parse
import WideColumn.Expr.Print
import WideColumn.Proofs.Result
import WideColumn.Proofs.Shortest

/-!
# Tokens of written text

What the scanner makes of each piece of written text, if what stands behind the piece cannot go on
with it (`scan_word`, `scan_block`, `scan_quotedIn`, `scan_operator`, `scan_integer`,
`scan_double`).
Conversely, a scanned name is a name and no keyword, and a scanned double is a number
(`wellFormed_of_scan`).
-/

namespace WideColumn

namespace Token

open Text

/-! ### One token at a time -/

theorem scan_cons (c : Char) (cs : List Char) :
    scan (c :: cs) = if isSpace c then scan cs else
      next c cs >>= fun p => (scan p.2).map (p.1 :: ·) := by
  rw [scan]
  split
  · rfl
  · split
    · next h => simp only [h]; rfl
    · next h => simp only [h]; rfl

theorem scan_of_next {c : Char} {cs rest : List Char} {t : Token} (hc : isSpace c = false)
    (h : next c cs = .ok (t, rest)) : scan (c :: cs) = (scan rest).map (t :: ·) := by
  rw [scan_cons, hc, h]
  rfl

theorem scan_space (k : List Char) : scan (' ' :: k) = scan k := by
  rw [scan_cons]
  rfl

theorem scan_leftParen (k : List Char) : scan ('(' :: k) = (scan k).map (.leftParen :: ·) :=
  scan_of_next rfl rfl

theorem scan_rightParen (k : List Char) : scan (')' :: k) = (scan k).map (.rightParen :: ·) :=
  scan_of_next rfl rfl

theorem map_append_ok (x : Except SyntaxFault (List Token)) (ts us : List Token) :
    (x.map (us ++ ·)).map (ts ++ ·) = x.map (ts ++ us ++ ·) := by
  cases x with
  | error e => rfl
  | ok vs => simp [Except.map]

/-- What stands behind a word or a number in written text: nothing, a space or a closing
parenthesis. -/
def Boundary (k : List Char) : Prop := ∀ c ∈ k.head?, c = ' ' ∨ c = ')'

theorem boundary_nil : Boundary [] := by
  rintro c ⟨⟩

theorem Boundary.stops {k : List Char} (h : Boundary k) {p : Char → Bool} (hspace : p ' ' = false)
    (hparen : p ')' = false) : Stops p k := by
  intro c hc
  rcases h c hc with rfl | rfl
  · exact hspace
  · exact hparen

/-! ### Words -/

/-- The words of the grammar, in any case. -/
def isKeyword (w : List Char) : Bool :=
  ["and", "or", "not", "true", "false"].contains (String.ofList (w.map Char.toLower))

/-- A word is a connective, a truth value or a name. -/
theorem ofWord_cases (w : List Char) :
    (isKeyword w = true ∧
      (ofWord w = .and ∨ ofWord w = .or ∨ ofWord w = .not ∨ ∃ b, ofWord w = .boolean b)) ∨
    (isKeyword w = false ∧ ofWord w = .identifier (String.ofList w)) := by
  unfold ofWord isKeyword
  split
  · next h => rw [h]; exact .inl ⟨rfl, .inl rfl⟩
  · next h => rw [h]; exact .inl ⟨rfl, .inr (.inl rfl)⟩
  · next h => rw [h]; exact .inl ⟨rfl, .inr (.inr (.inl rfl))⟩
  · next h => rw [h]; exact .inl ⟨rfl, .inr (.inr (.inr ⟨true, rfl⟩))⟩
  · next h => rw [h]; exact .inl ⟨rfl, .inr (.inr (.inr ⟨false, rfl⟩))⟩
  · next h₁ h₂ h₃ h₄ h₅ =>
    refine .inr ⟨?_, rfl⟩
    simp only [List.contains_cons, beq_false_of_ne h₁, beq_false_of_ne h₂, beq_false_of_ne h₃,
      beq_false_of_ne h₄, beq_false_of_ne h₅]
    rfl

theorem ofWord_of_isKeyword_eq_false {w : List Char} (h : isKeyword w = false) :
    ofWord w = .identifier (String.ofList w) := by
  rcases ofWord_cases w with ⟨h', -⟩ | ⟨-, heq⟩
  · rw [h] at h'
    cases h'
  · exact heq

theorem isDigit_of_isNameStart {c : Char} (h : isNameStart c = true) : c.isDigit = false := by
  simp only [isNameStart, Char.isAlpha, Char.isUpper, Char.isLower, Bool.or_eq_true,
    decide_eq_true_eq, beq_iff_eq, Bool.and_eq_true] at h
  rw [← Bool.not_eq_true]
  simp only [Char.isDigit, Bool.and_eq_true, decide_eq_true_eq]
  rintro ⟨h₁, h₂⟩
  rcases h with (h | h) | rfl
  · grind
  · grind
  · grind

theorem next_word {c : Char} (hc : isNameStart c = true) {w k : List Char}
    (hw : ∀ d ∈ w, isNamePart d = true) (hk : Stops isNamePart k) :
    next c (w ++ k) = .ok (ofWord (c :: w), k) := by
  have hne : ∀ d, isNameStart d = false → (c == d) = false := by
    intro d hd
    rw [beq_eq_false_iff_ne]
    rintro rfl
    rw [hc] at hd
    cases hd
  have hop : isOperatorPart c = false := by
    simp only [isOperatorPart, hne '=' rfl, hne '!' rfl, hne '<' rfl, hne '>' rfl, hne '~' rfl,
      Bool.or_self]
  simp only [next, hne '(' rfl, hne ')' rfl, hne '[' rfl, hne '"' rfl, hne '\'' rfl, hne '-' rfl,
    hop, isDigit_of_isNameStart hc, hc, Bool.or_self, Bool.false_eq_true, if_false, if_true,
    takeWhile_append hw hk, dropWhile_append hw hk]

theorem isSpace_of_isNameStart {c : Char} (h : isNameStart c = true) : isSpace c = false := by
  rw [← Bool.not_eq_true]
  intro hs
  simp only [isSpace, Bool.or_eq_true, beq_iff_eq] at hs
  rcases hs with (((rfl | rfl) | rfl) | rfl) | rfl <;> cases h

theorem isName_cons {c : Char} {w : List Char} :
    Expr.isName (c :: w) = true ↔ isNameStart c = true ∧ ∀ d ∈ w, isNamePart d = true := by
  rw [Expr.isName, Bool.and_eq_true, List.all_eq_true]
  rfl

theorem scan_word {w k : List Char} (hw : Expr.isName w = true) (hk : Stops isNamePart k) :
    scan (w ++ k) = (scan k).map (ofWord w :: ·) := by
  cases w with
  | nil => cases hw
  | cons c w =>
    obtain ⟨hc, hw⟩ := isName_cons.1 hw
    exact scan_of_next (isSpace_of_isNameStart hc) (next_word hc hw hk)

/-! ### Option blocks -/

theorem takeBlock?_append {b : List Char} (hb : ']' ∉ b) (k : List Char) :
    takeBlock? (b ++ ']' :: k) = some (b, k) := by
  induction b with
  | nil => rfl
  | cons c b ih =>
    rw [List.mem_cons, not_or] at hb
    rw [List.cons_append, takeBlock?, if_neg (Ne.symm hb.1), ih hb.2]
    rfl

theorem scan_block {b : List Char} (hb : ']' ∉ b) (k : List Char) :
    scan ('[' :: (b ++ ']' :: k)) = (scan k).map (.block (String.ofList b) :: ·) := by
  refine scan_of_next rfl ?_
  simp only [next, takeBlock?_append hb]
  rfl

/-! ### Quoted text -/

/-- A character as written between quotes of some kind. -/
def escaped (q c : Char) : List Char := if c == q || c == '\\' then ['\\', c] else [c]

theorem takeString?_cons_of_ne {q c : Char} (hc : c ≠ '\\') (cs : List Char) :
    takeString? q (c :: cs) =
      if c = q then some ([], cs) else (takeString? q cs).map fun (s, r) => (c :: s, r) :=
  takeString?.eq_4 _ _ _ (fun h _ => hc h) fun _ _ h _ => hc h

theorem takeString?_escaped {q : Char} (hq : q = '"' ∨ q = '\'') (c : Char) (k : List Char) :
    takeString? q (escaped q c ++ k) = (takeString? q k).map fun (s, r) => (c :: s, r) := by
  unfold escaped
  split
  · next h =>
    have hunescape : unescape c = c := by
      simp only [Bool.or_eq_true, beq_iff_eq] at h
      rcases h with rfl | rfl
      · rcases hq with rfl | rfl <;> rfl
      · rfl
    rw [List.cons_append, List.singleton_append, takeString?, hunescape]
  · next h =>
    simp only [Bool.or_eq_true, beq_iff_eq, not_or] at h
    rw [List.singleton_append, takeString?_cons_of_ne h.2, if_neg h.1]

theorem takeString?_flatMap {q : Char} (hq : q = '"' ∨ q = '\'') (s k : List Char) :
    takeString? q (s.flatMap (escaped q) ++ q :: k) = some (s, k) := by
  induction s with
  | nil =>
    have hne : q ≠ '\\' := by
      rcases hq with rfl | rfl <;> decide
    rw [List.flatMap_nil, List.nil_append, takeString?_cons_of_ne hne, if_pos rfl]
  | cons c s ih =>
    rw [List.flatMap_cons, List.append_assoc, takeString?_escaped hq, ih]
    rfl

/-- A text in quotes of either kind is scanned as itself. -/
theorem scan_quotedIn {q : Char} (hq : q = '"' ∨ q = '\'') (s : String) (k : List Char) :
    scan (q :: (s.toList.flatMap (escaped q) ++ q :: k)) = (scan k).map (.string s :: ·) := by
  have hnext : next q (s.toList.flatMap (escaped q) ++ q :: k) = .ok (.string s, k) := by
    rcases hq with rfl | rfl
    · simp [next, takeString?_flatMap (.inl rfl)]
    · simp [next, takeString?_flatMap (.inr rfl)]
  refine scan_of_next ?_ hnext
  rcases hq with rfl | rfl <;> rfl

theorem scan_quoted (s : String) (k : List Char) :
    scan (Expr.quoted s ++ k) = (scan k).map (.string s :: ·) := by
  have htext : Expr.quoted s ++ k = '"' :: (s.toList.flatMap (escaped '"') ++ '"' :: k) := by
    simp only [Expr.quoted, List.cons_append, List.append_assoc, List.nil_append]
    rfl
  rw [htext]
  exact scan_quotedIn (.inl rfl) s k

/-! ### Operators -/

/-- An operator is scanned whole if no character of an operator comes behind it. -/
theorem scan_operator (op : Comparator) {k : List Char} (hk : Stops isOperatorPart k) :
    scan ((Enumeration.symbol op).toList ++ k) = (scan k).map (.comparator op :: ·) := by
  have hsymbol : ∃ c w, (Enumeration.symbol op).toList = c :: w ∧ isOperatorPart c = true ∧
      ∀ d ∈ w, isOperatorPart d = true := by
    cases op
    all_goals exact ⟨_, _, rfl, rfl, List.all_eq_true.1 rfl⟩
  obtain ⟨c, w, htext, hc, hw⟩ := hsymbol
  have hread : Enumeration.ofSymbol? (String.ofList (c :: w)) = some op := by
    rw [← htext, String.ofList_toList]
    cases op <;> rfl
  have hne : ∀ d, isOperatorPart d = false → (c == d) = false := by
    intro d hd
    rw [beq_eq_false_iff_ne]
    rintro rfl
    rw [hc] at hd
    cases hd
  rw [htext, List.cons_append]
  refine scan_of_next ?_ ?_
  · simp only [isSpace, hne ' ' rfl, hne '\t' rfl, hne '\n' rfl, hne '\x0c' rfl, hne '\r' rfl,
      Bool.or_self]
  · simp only [next, hne '(' rfl, hne ')' rfl, hne '[' rfl, hne '"' rfl, hne '\'' rfl, hc,
      Bool.or_self, Bool.false_eq_true, if_false, if_true, takeWhile_append hw hk,
      dropWhile_append hw hk, hread]

theorem scan_symbol (op : Comparator) (k : List Char) :
    scan ((Enumeration.symbol op).toList ++ ' ' :: k) = (scan k).map (.comparator op :: ·) := by
  rw [scan_operator op (stops_cons rfl k), scan_space]

/-! ### Numbers -/

open Decimal

/-- What the scanner makes of a number whose two parts it has split off. -/
def number (negative : Bool) (mantissa exponent : List Char × List Char) :
    Except SyntaxFault (Token × List Char) :=
  (ofNumber (signText negative ++ mantissa.1 ++ exponent.1)).map fun t => (t, exponent.2)

theorem next_minus (cs : List Char) :
    next '-' cs = number true (takeMantissa cs) (takeExponent (takeMantissa cs).2) := rfl

theorem isDigit_ne {c d : Char} (hc : c.isDigit = true) (hd : d.isDigit = false) :
    (c == d) = false := by
  rw [beq_eq_false_iff_ne]
  rintro rfl
  rw [hc] at hd
  cases hd

theorem next_digit {c : Char} (hc : c.isDigit = true) (cs : List Char) :
    next c cs =
      number false (takeMantissa (c :: cs)) (takeExponent (takeMantissa (c :: cs)).2) := by
  have hne {d : Char} := isDigit_ne (d := d) hc
  simp only [next, hne (d := '(') rfl, hne (d := ')') rfl, hne (d := '[') rfl,
    hne (d := '"') rfl, hne (d := '\'') rfl, hne (d := '-') rfl, isOperatorPart,
    hne (d := '=') rfl, hne (d := '!') rfl, hne (d := '<') rfl, hne (d := '>') rfl,
    hne (d := '~') rfl, hc, Bool.or_self, Bool.or_true, Bool.false_eq_true, if_false, if_true]
  rfl

theorem isSpace_of_isDigit {c : Char} (h : c.isDigit = true) : isSpace c = false := by
  rw [← Bool.not_eq_true]
  intro hs
  simp only [isSpace, Bool.or_eq_true, beq_iff_eq] at hs
  rcases hs with (((rfl | rfl) | rfl) | rfl) | rfl <;> cases h

theorem scan_number {negative : Bool} {c : Char} {m x k : List Char} {t : Token}
    (hc : c.isDigit = true) (hmantissa : takeMantissa (c :: m ++ (x ++ k)) = (c :: m, x ++ k))
    (hexponent : takeExponent (x ++ k) = (x, k))
    (ht : ofNumber (signText negative ++ c :: m ++ x) = .ok t) :
    scan (signText negative ++ (c :: m ++ (x ++ k))) = (scan k).map (t :: ·) := by
  have hnumber : number negative (takeMantissa (c :: m ++ (x ++ k)))
      (takeExponent (takeMantissa (c :: m ++ (x ++ k))).2) = .ok (t, k) := by
    rw [hmantissa, hexponent, number, ht]
    rfl
  cases negative with
  | true => exact scan_of_next rfl ((next_minus _).trans hnumber)
  | false => exact scan_of_next (isSpace_of_isDigit hc) ((next_digit hc _).trans hnumber)

theorem takeExponent_boundary {k : List Char} (hk : Boundary k) : takeExponent k = ([], k) := by
  unfold takeExponent
  split
  · next e s rest =>
    rcases hk e rfl with rfl | rfl <;> rfl
  · rfl

theorem takeMantissa_digits {ds k : List Char} (hd : AreDigits ds) (hk : Boundary k) :
    takeMantissa (ds ++ k) = (ds, k) := by
  have hstop := hk.stops (p := Char.isDigit) rfl rfl
  unfold takeMantissa
  rw [takeWhile_append hd hstop, dropWhile_append hd hstop]
  split
  · next rest => rcases hk '.' rfl with h | h <;> cases h
  · rfl

/-- Integers are written as a sign and digits. -/
theorem intText_eq (n : Int) : intText n = signText (decide (n < 0)) ++ digits n.natAbs := by
  unfold intText signText
  by_cases h : n < 0 <;> simp [h]

theorem ofNumber_intText (n : Int64) : ofNumber (intText n.toInt) = .ok (.integer n) := by
  have hmark : ((intText n.toInt).any fun c => c == '.' || c == 'e' || c == 'E') = false := by
    rw [intText_eq, List.any_append, Bool.or_eq_false_iff]
    constructor
    · unfold signText
      split <;> rfl
    · rw [List.any_eq_false]
      intro c hc
      have hc := areDigits_digits _ c hc
      simp [isDigit_ne hc (d := '.') rfl, isDigit_ne hc (d := 'e') rfl,
        isDigit_ne hc (d := 'E') rfl]
  unfold ofNumber
  simp only [hmark, readInt64?_intText]
  rfl

theorem scan_integer (n : Int64) {k : List Char} (hk : Boundary k) :
    scan (intText n.toInt ++ k) = (scan k).map (.integer n :: ·) := by
  have hds := areDigits_digits n.toInt.natAbs
  have htext := intText_eq n.toInt
  obtain ⟨c, cs, hcons⟩ := List.exists_cons_of_ne_nil (digits_ne_nil n.toInt.natAbs)
  rw [hcons] at hds htext
  have hread := ofNumber_intText n
  rw [htext] at hread ⊢
  rw [List.append_assoc]
  exact scan_number (x := []) (hds c List.mem_cons_self) (takeMantissa_digits hds hk)
    (takeExponent_boundary hk) (by rw [List.append_nil]; exact hread)

theorem takeExponent_intText (e : Int) {k : List Char} (hk : Boundary k) :
    takeExponent ('e' :: intText e ++ k) = ('e' :: intText e, k) := by
  have hds := areDigits_digits e.natAbs
  have hstop := hk.stops (p := Char.isDigit) rfl rfl
  obtain ⟨c, cs, hcons⟩ := List.exists_cons_of_ne_nil (digits_ne_nil e.natAbs)
  have hc : c.isDigit = true := hds c (by simp [hcons])
  have hcs : AreDigits cs := fun d hd => hds d (by simp [hcons, hd])
  by_cases he : e < 0
  · have htext : intText e = '-' :: c :: cs := by rw [intText, if_pos he, hcons]
    have htake := takeWhile_append (l := c :: cs) (hcons ▸ hds) hstop
    have hdrop := dropWhile_append (l := c :: cs) (hcons ▸ hds) hstop
    rw [htext]
    simp only [takeExponent, List.cons_append] at htake hdrop ⊢
    simp [htake, hdrop, hc]
  · have htext : intText e = c :: cs := by rw [intText, if_neg he, hcons]
    have htake := takeWhile_append (l := cs) hcs hstop
    have hdrop := dropWhile_append (l := cs) hcs hstop
    rw [htext]
    simp [takeExponent, htake, hdrop, hc]

theorem takeExponent_exponentText (n : Numeral) {k : List Char} (hk : Boundary k) :
    takeExponent (n.exponentText ++ k) = (n.exponentText, k) := by
  unfold Numeral.exponentText
  split
  · exact takeExponent_boundary hk
  · exact takeExponent_intText _ hk

theorem takeMantissa_numeral {n : Numeral} (h : n.WellFormed) {k : List Char} (hk : Boundary k) :
    takeMantissa (n.whole ++ n.fractionText ++ (n.exponentText ++ k)) =
      (n.whole ++ n.fractionText, n.exponentText ++ k) := by
  have hstop := hk.stops (p := Char.isDigit) rfl rfl
  have hexp := n.stops_exponentText (p := Char.isDigit) rfl hstop
  have hfraction := n.stops_fractionText hstop
  unfold takeMantissa
  rw [List.append_assoc, takeWhile_append h.whole hfraction, dropWhile_append h.whole hfraction]
  by_cases hne : n.fraction = []
  · rw [Numeral.fractionText, hne, List.nil_append, List.append_nil]
    have hpoint := n.stops_exponentText (p := (· == '.')) rfl (hk.stops rfl rfl)
    split
    · next rest hrest =>
      rw [hrest] at hpoint
      exact absurd (hpoint '.' rfl) (by decide)
    · rfl
  · rw [Numeral.fractionText_of_ne hne]
    exact Prod.ext (congrArg (n.whole ++ '.' :: ·) (takeWhile_append h.fraction hexp))
      (dropWhile_append h.fraction hexp)

theorem Numeral.isMarked {n : Numeral} (h : n.WellFormed) :
    (n.text.any fun c => c == '.' || c == 'e' || c == 'E') = true := by
  rw [List.any_eq_true]
  rcases h.marked with hne | hne
  · exact ⟨'.', by simp [Numeral.text, Numeral.fractionText_of_ne hne], rfl⟩
  · obtain ⟨e, he⟩ := Option.ne_none_iff_exists'.1 hne
    exact ⟨'e', by simp [Numeral.text, Numeral.exponentText, he], rfl⟩

/-- A numeral is scanned as the double that it stands for. -/
theorem scan_numeral {n : Numeral} (h : n.WellFormed) {negative : Bool} {x : Float}
    (hx : readDouble? (signText negative ++ n.text) = some x) {k : List Char} (hk : Boundary k) :
    scan (signText negative ++ n.text ++ k) = (scan k).map (.double x :: ·) := by
  obtain ⟨c, cs, hwhole⟩ := List.exists_cons_of_ne_nil h.whole_ne
  have hread : ofNumber (signText negative ++ n.text) = .ok (.double x) := by
    unfold ofNumber
    rw [List.any_append, Numeral.isMarked h, Bool.or_true]
    simp only [if_true, hx, Option.map_some]
  have hmantissa := takeMantissa_numeral h hk
  have htext : n.text = c :: (cs ++ n.fractionText) ++ n.exponentText := by
    rw [Numeral.text, hwhole, List.cons_append]
  rw [hwhole, List.cons_append] at hmantissa
  rw [htext] at hread ⊢
  rw [List.append_assoc, List.append_assoc]
  exact scan_number (h.whole c (by rw [hwhole]; exact List.mem_cons_self)) hmantissa
    (takeExponent_exponentText n hk) (by rw [List.append_assoc]; exact hread)

theorem scan_double {x : Float} (hx : isFinite x = true) {k : List Char} (hk : Boundary k) :
    scan ((plain.text x).toList ++ k) = (scan k).map (.double x :: ·) := by
  obtain ⟨n, hn, htext, -⟩ := @Layout.exists_numeral_text plain rfl x hx
  have hread := @readDouble?_text plain rfl x hx
  rw [htext] at hread ⊢
  exact scan_numeral hn hread hk

/-! ### What is scanned -/

/-- What the scanner promises of a token: a name is a name and no keyword, a double is a number. -/
def WellFormed : Token → Prop
  | identifier s => Expr.isName s.toList = true ∧ isKeyword s.toList = false
  | double x => x.isInf = false → isFinite x = true
  | _ => True

theorem nearestDecimal_eq_nearest (negative : Bool) (m : Nat) (e : Int) :
    ∃ num den, nearestDecimal negative m e = nearest negative num den := by
  unfold nearestDecimal
  dsimp only
  split
  · exact ⟨_, _, rfl⟩
  split
  · exact ⟨_, _, rfl⟩
  split
  · exact ⟨_, _, rfl⟩
  · exact ⟨_, _, rfl⟩

/-- What does not start like the word for no number is read as a number. -/
theorem isFinite_of_readUnsigned? {negative : Bool} {cs : List Char} {x : Float}
    (hhead : ∀ c ∈ cs.head?, c.toLower ≠ 'n') (h : readUnsigned? negative cs = some x)
    (hinf : x.isInf = false) : isFinite x = true := by
  unfold readUnsigned? at h
  split at h
  · cases h
    exact isFinite_nearest hinf
  · cases h
    exact isFinite_nearest hinf
  · next hword =>
    have hchars : cs.map Char.toLower = ['n', 'a', 'n'] := String.ofList_injective hword
    cases cs with
    | nil => cases hchars
    | cons c cs => exact absurd (List.cons.inj hchars).1 (hhead c rfl)
  · simp only [Option.bind_eq_bind, Option.bind_eq_some_iff] at h
    obtain ⟨m, -, e, -, h⟩ := h
    cases h
    obtain ⟨num, den, heq⟩ := nearestDecimal_eq_nearest negative m _
    rw [heq] at hinf ⊢
    exact isFinite_nearest hinf

/-- How a number without its sign may start, even one that cannot be read. -/
def StartsNumber (c : Char) : Prop := c.isDigit = true ∨ c = '.' ∨ c = 'e' ∨ c = 'E'

theorem StartsNumber.toLower_ne {c : Char} (h : StartsNumber c) : c.toLower ≠ 'n' := by
  rcases h with h | rfl | rfl | rfl
  · rw [toLower_of_isDigit h]
    rintro rfl
    cases h
  · decide
  · decide
  · decide

theorem splitSign_signText (negative : Bool) {cs : List Char}
    (h : ∀ c ∈ cs.head?, StartsNumber c) :
    splitSign (signText negative ++ cs) = (negative, cs) := by
  cases negative with
  | true => rfl
  | false =>
    change splitSign cs = _
    unfold splitSign
    split
    · exact absurd (h '-' rfl) (by simp [StartsNumber])
    · exact absurd (h '+' rfl) (by simp [StartsNumber])
    · rfl

theorem head_append {p : Char → Prop} {l k : List Char} (hl : ∀ c ∈ l.head?, p c)
    (hk : ∀ c ∈ k.head?, p c) : ∀ c ∈ (l ++ k).head?, p c := by
  cases l with
  | nil => exact hk
  | cons d l => exact hl

theorem head_takeMantissa (cs : List Char) :
    ∀ c ∈ (takeMantissa cs).1.head?, StartsNumber c := by
  intro c hc
  have hdigit : ∀ c ∈ (cs.takeWhile Char.isDigit).head?, StartsNumber c := by
    intro c hc
    rw [List.head?_takeWhile] at hc
    exact .inl (Option.mem_filter_iff.1 hc).2
  unfold takeMantissa at hc
  split at hc
  · exact head_append hdigit (by rintro d ⟨⟩; exact .inr (.inl rfl)) c hc
  · exact hdigit c hc

theorem head_takeExponent (cs : List Char) :
    ∀ c ∈ (takeExponent cs).1.head?, StartsNumber c := by
  intro c hc
  unfold takeExponent at hc
  split at hc
  · next e s rest =>
    split at hc
    · next he =>
      simp only [Bool.or_eq_true, beq_iff_eq] at he
      split at hc
      · cases hc
        exact .inr (.inr he)
      split at hc
      · cases hc
        exact .inr (.inr he)
      · cases hc
    · cases hc
  · cases hc

theorem wellFormed_of_number {negative : Bool} {mantissa exponent : List Char × List Char}
    {t : Token} {rest : List Char} (hmantissa : ∀ c ∈ mantissa.1.head?, StartsNumber c)
    (hexponent : ∀ c ∈ exponent.1.head?, StartsNumber c)
    (h : number negative mantissa exponent = .ok (t, rest)) : t.WellFormed := by
  obtain ⟨t', hread, heq⟩ := map_eq_ok.1 h
  obtain ⟨rfl, -⟩ := Prod.mk.inj heq
  have hhead := head_append hmantissa hexponent
  rw [List.append_assoc] at hread
  generalize mantissa.1 ++ exponent.1 = cs at hread hhead
  unfold ofNumber at hread
  dsimp only at hread
  split at hread
  · next ht =>
    cases hread
    split at ht
    · obtain ⟨x, hx, rfl⟩ := Option.map_eq_some_iff.1 ht
      rw [readDouble?, splitSign_signText negative hhead] at hx
      exact isFinite_of_readUnsigned? (fun c hc => (hhead c hc).toLower_ne) hx
    · obtain ⟨n, -, rfl⟩ := Option.map_eq_some_iff.1 ht
      trivial
  · cases hread

theorem wellFormed_ofWord {w : List Char} (hw : Expr.isName w = true) : (ofWord w).WellFormed := by
  rcases ofWord_cases w with ⟨-, h | h | h | ⟨b, h⟩⟩ | ⟨hkeyword, h⟩
  · rw [h]; trivial
  · rw [h]; trivial
  · rw [h]; trivial
  · rw [h]; trivial
  · rw [h, WellFormed, String.toList_ofList]
    exact ⟨hw, hkeyword⟩

theorem wellFormed_of_next {c : Char} {cs rest : List Char} {t : Token}
    (h : next c cs = .ok (t, rest)) : t.WellFormed := by
  unfold next at h
  split at h
  · cases h; trivial
  split at h
  · cases h; trivial
  split at h
  · split at h <;> cases h
    trivial
  split at h
  · split at h <;> cases h
    trivial
  split at h
  · dsimp only at h
    split at h <;> cases h
    trivial
  split at h
  · exact wellFormed_of_number (head_takeMantissa _) (head_takeExponent _) h
  split at h
  · next hc =>
    cases h
    exact wellFormed_ofWord (isName_cons.2 ⟨hc, List.all_eq_true.1 List.all_takeWhile⟩)
  · cases h

theorem wellFormed_of_scan {cs : List Char} {ts : List Token} (h : scan cs = .ok ts) :
    ∀ t ∈ ts, t.WellFormed := by
  fun_induction scan cs generalizing ts with
  | case1 => cases h; nofun
  | case2 c cs hc ih => exact ih h
  | case3 => cases h
  | case4 c cs hc t rest hnext _ ih =>
    obtain ⟨us, hus, rfl⟩ := map_eq_ok.1 h
    intro u hu
    rcases List.mem_cons.1 hu with rfl | hu
    · exact wellFormed_of_next hnext
    · exact ih hus u hu

end Token

end WideColumn
