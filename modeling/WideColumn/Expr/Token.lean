import WideColumn.Expr.Basic
import WideColumn.Decimal.Nearest

/-!
# Tokens of filter text

`Token.scan` splits a filter text into tokens. `Token.next` takes the longest token at the front
of the text; `length_of_next` says that it never gives back more than it was given.
-/

namespace WideColumn

/-- A token of filter text. -/
inductive Token where
  /-- A name that is no keyword. -/
  | identifier (s : String)
  /-- A quoted string, its escapes resolved. -/
  | string (s : String)
  /-- An integer. -/
  | integer (n : Int64)
  /-- A number with a point or an exponent. -/
  | double (x : Float)
  /-- What stands between brackets, as written. -/
  | block (s : String)
  /-- A comparison operator. -/
  | comparator (op : Comparator)
  /-- `true` or `false`. -/
  | boolean (b : Bool)
  /-- The keyword `and`. -/
  | and
  /-- The keyword `or`. -/
  | or
  /-- The keyword `not`. -/
  | not
  /-- An opening parenthesis. -/
  | leftParen
  /-- A closing parenthesis. -/
  | rightParen
deriving BEq, Inhabited

/-- The token as shown in messages. -/
def Token.text : Token → String
  | identifier s => s!"identifier '{s}'"
  | string s => "string " ++ Text.quote s
  | integer n => String.ofList (Decimal.intText n.toInt)
  | double x => Decimal.plain.text x
  | block s => s!"'[{s}]'"
  | comparator op => s!"'{Enumeration.symbol op}'"
  | boolean b => if b then "true" else "false"
  | and => "AND"
  | or => "OR"
  | not => "NOT"
  | leftParen => "'('"
  | rightParen => "')'"

/-- What the grammar asks for at some place. -/
inductive Expected where
  /-- A column name. -/
  | column
  /-- A comparison operator. -/
  | comparator
  /-- A value. -/
  | value
  /-- A closing parenthesis. -/
  | rightParen
  /-- The end of the text. -/
  | finish
deriving DecidableEq, Inhabited

/-- What is asked for as shown in messages. -/
def Expected.text : Expected → String
  | column => "column name"
  | comparator => "comparison operator"
  | value => "value"
  | rightParen => "')'"
  | finish => "end of expression"

/-- Why a filter text is refused. -/
inductive SyntaxFault where
  /-- A character that starts no token. -/
  | character (c : Char)
  /-- A run of operator characters that is no operator. -/
  | operator (s : String)
  /-- A bracket that is never closed. -/
  | openBlock
  /-- A string that is never closed. -/
  | openString
  /-- A number that cannot be read. -/
  | number (s : String)
  /-- A token out of place; none is the end of the text. -/
  | unexpected (expected : Expected) (found : Option Token)
  /-- A text without tokens. -/
  | empty
deriving BEq, Inhabited

/-- The fault as shown in messages. -/
def SyntaxFault.text : SyntaxFault → String
  | character c => s!"unexpected character '{c}'"
  | operator s => s!"unsupported operator '{s}'"
  | openBlock => "unterminated option block"
  | openString => "unterminated string literal"
  | number s => s!"invalid number '{s}'"
  | unexpected expected found =>
    let shown := match found with
      | some t => t.text
      | none => "EOF"
    s!"expected {expected.text}, found {shown}"
  | empty => "empty expression"

namespace Token

/-! ### Character classes -/

/-- Blanks between tokens. -/
def isSpace (c : Char) : Bool :=
  c == ' ' || c == '\t' || c == '\n' || c == '\x0c' || c == '\r'

/-- First character of a name. -/
def isNameStart (c : Char) : Bool := c.isAlpha || c == '_'

/-- Further character of a name. -/
def isNamePart (c : Char) : Bool := c.isAlphanum || c == '_'

/-- Characters of which operators consist. -/
def isOperatorPart (c : Char) : Bool :=
  c == '=' || c == '!' || c == '<' || c == '>' || c == '~'

/-! ### Single tokens -/

/-- The token of a word: a keyword in any case, or a name. -/
def ofWord (w : List Char) : Token :=
  match String.ofList (w.map Char.toLower) with
  | "and" => .and
  | "or" => .or
  | "not" => .not
  | "true" => .boolean true
  | "false" => .boolean false
  | _ => .identifier (String.ofList w)

/-- The rest of an option block up to its bracket. -/
def takeBlock? : List Char → Option (List Char × List Char)
  | [] => none
  | c :: cs => if c = ']' then some ([], cs) else (takeBlock? cs).map fun (s, r) => (c :: s, r)

/-- What a backslash makes of the character behind it. -/
def unescape : Char → Char
  | 'n' => '\n'
  | 't' => '\t'
  | c => c

/-- The rest of a string up to its closing quote. -/
def takeString? (quote : Char) : List Char → Option (List Char × List Char)
  | [] => none
  | '\\' :: [] => none
  | '\\' :: c :: cs => (takeString? quote cs).map fun (s, r) => (unescape c :: s, r)
  | c :: cs =>
    if c = quote then some ([], cs) else (takeString? quote cs).map fun (s, r) => (c :: s, r)

/-- Split off digits with at most one point among them. -/
def takeMantissa (cs : List Char) : List Char × List Char :=
  match cs.dropWhile Char.isDigit with
  | '.' :: rest =>
    (cs.takeWhile Char.isDigit ++ '.' :: rest.takeWhile Char.isDigit, rest.dropWhile Char.isDigit)
  | rest => (cs.takeWhile Char.isDigit, rest)

/-- Split off an exponent; without a digit in it there is none. -/
def takeExponent (cs : List Char) : List Char × List Char :=
  match cs with
  | e :: s :: rest =>
    if e == 'e' || e == 'E' then
      if s.isDigit then (e :: s :: rest.takeWhile Char.isDigit, rest.dropWhile Char.isDigit)
      else if (s == '+' || s == '-') && rest.head?.any Char.isDigit then
        (e :: s :: rest.takeWhile Char.isDigit, rest.dropWhile Char.isDigit)
      else ([], cs)
    else ([], cs)
  | _ => ([], cs)

/-- The token of a number as written: an integer unless it has a point or an exponent. -/
def ofNumber (s : List Char) : Except SyntaxFault Token :=
  let read :=
    if s.any fun c => c == '.' || c == 'e' || c == 'E' then
      (Decimal.readDouble? s).map double
    else (Decimal.readInt64? s).map integer
  match read with
  | some t => .ok t
  | none => .error (.number (String.ofList s))

/-- Take the token that starts with the character `c` in front of `cs`. -/
def next (c : Char) (cs : List Char) : Except SyntaxFault (Token × List Char) :=
  if c == '(' then .ok (.leftParen, cs)
  else if c == ')' then .ok (.rightParen, cs)
  else if c == '[' then
    match takeBlock? cs with
    | some (s, rest) => .ok (.block (String.ofList s), rest)
    | none => .error .openBlock
  else if c == '"' || c == '\'' then
    match takeString? c cs with
    | some (s, rest) => .ok (.string (String.ofList s), rest)
    | none => .error .openString
  else if isOperatorPart c then
    let op := String.ofList (c :: cs.takeWhile isOperatorPart)
    match Enumeration.ofSymbol? op with
    | some op => .ok (.comparator op, cs.dropWhile isOperatorPart)
    | none => .error (.operator op)
  else if c == '-' || c.isDigit then
    let (mantissa, rest) := takeMantissa (if c == '-' then cs else c :: cs)
    let (exponent, rest) := takeExponent rest
    let sign := if c == '-' then ['-'] else []
    (ofNumber (sign ++ mantissa ++ exponent)).map fun t => (t, rest)
  else if isNameStart c then .ok (ofWord (c :: cs.takeWhile isNamePart), cs.dropWhile isNamePart)
  else .error (.character c)

/-! ### Lengths -/

theorem length_dropWhile_le {α : Type} (p : α → Bool) (l : List α) :
    (l.dropWhile p).length ≤ l.length := (List.dropWhile_sublist p).length_le

theorem length_of_takeBlock? {cs s rest : List Char} (h : takeBlock? cs = some (s, rest)) :
    rest.length ≤ cs.length := by
  induction cs generalizing s with
  | nil => cases h
  | cons c cs ih =>
    simp only [takeBlock?] at h
    split at h
    · simp only [Option.some.injEq, Prod.mk.injEq] at h
      simp [← h.2]
    · simp only [Option.map_eq_some_iff, Prod.mk.injEq] at h
      obtain ⟨⟨s', r'⟩, h', -, rfl⟩ := h
      exact Nat.le_succ_of_le (ih h')

theorem length_of_takeString? {q : Char} {cs s rest : List Char}
    (h : takeString? q cs = some (s, rest)) : rest.length ≤ cs.length := by
  fun_induction takeString? q cs generalizing s with
  | case1 => cases h
  | case2 => cases h
  | case3 c cs ih =>
    simp only [Option.map_eq_some_iff, Prod.mk.injEq] at h
    obtain ⟨⟨s', r'⟩, h', -, rfl⟩ := h
    exact Nat.le_trans (ih h') (by simp only [List.length_cons]; omega)
  | case4 =>
    simp only [Option.some.injEq, Prod.mk.injEq] at h
    simp [← h.2]
  | case5 c cs _ _ _ ih =>
    simp only [Option.map_eq_some_iff, Prod.mk.injEq] at h
    obtain ⟨⟨s', r'⟩, h', -, rfl⟩ := h
    exact Nat.le_succ_of_le (ih h')

theorem length_takeMantissa_le (cs : List Char) : (takeMantissa cs).2.length ≤ cs.length := by
  unfold takeMantissa
  have := length_dropWhile_le Char.isDigit cs
  split
  · next rest h =>
    have h' := length_dropWhile_le Char.isDigit rest
    rw [h] at this
    simp only [List.length_cons] at this ⊢
    omega
  · next rest => exact this

theorem length_takeExponent_le (cs : List Char) : (takeExponent cs).2.length ≤ cs.length := by
  unfold takeExponent
  split
  · next e s rest =>
    have := length_dropWhile_le Char.isDigit rest
    repeat' split
    all_goals simp only [List.length_cons]; omega
  · exact Nat.le_refl _

theorem length_takeMantissa_digit (c : Char) (cs : List Char) (h : c.isDigit) :
    (takeMantissa (c :: cs)).2.length ≤ cs.length := by
  have : takeMantissa (c :: cs) = (c :: (takeMantissa cs).1, (takeMantissa cs).2) := by
    unfold takeMantissa
    rw [List.dropWhile_cons_of_pos h, List.takeWhile_cons_of_pos h]
    split <;> rfl
  rw [this]
  exact length_takeMantissa_le cs

theorem length_of_next {c : Char} {cs rest : List Char} {t : Token}
    (h : next c cs = .ok (t, rest)) : rest.length ≤ cs.length := by
  unfold next at h
  split at h
  · cases h; exact Nat.le_refl _
  split at h
  · cases h; exact Nat.le_refl _
  split at h
  · split at h
    · next hb => cases h; exact length_of_takeBlock? hb
    · cases h
  split at h
  · split at h
    · next hs => cases h; exact length_of_takeString? hs
    · cases h
  split at h
  · simp only at h
    split at h
    · cases h; exact length_dropWhile_le _ _
    · cases h
  split at h
  · next hc =>
    simp only [Except.map] at h
    split at h
    · cases h
    · cases h
      refine Nat.le_trans (length_takeExponent_le _) ?_
      split
      · exact length_takeMantissa_le cs
      · next hm => exact length_takeMantissa_digit c cs (by simpa [hm] using hc)
  split at h
  · cases h; exact length_dropWhile_le _ _
  · cases h

/-! ### Whole texts -/

/-- The tokens of a text. -/
def scan : List Char → Except SyntaxFault (List Token)
  | [] => .ok []
  | c :: cs =>
    if isSpace c then scan cs
    else
      match h : next c cs with
      | .error e => .error e
      | .ok (t, rest) =>
        have := length_of_next h
        (scan rest).map (t :: ·)
termination_by cs => cs.length
decreasing_by all_goals simp only [List.length_cons]; omega

end Token

end WideColumn
