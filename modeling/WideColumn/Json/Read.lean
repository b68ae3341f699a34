import WideColumn.Json.Number

/-!
# Reading JSON

`Json.parse?` reads a text that holds one value and nothing else but blanks. Arrays and objects
nest at most 127 deep.

The reader sees a text unit by unit, a unit being a byte of its UTF-8 form, taken as the character
with that number. All signs of JSON are single units. What stands between the quotes of a string is
put together to characters at the end, so a string that is no text is found out only where its
value is asked for; `Tolerance` says what then becomes of it.
-/

namespace WideColumn.Json

/-- The units of bytes. -/
def units (bs : List UInt8) : List Char := bs.map Char.ofUInt8

/-- The units of a character. -/
def unitsOf (c : Char) : List Char := units (String.utf8EncodeChar c)

/-- The text of some units, if they are a text in UTF-8. -/
def textOfUnits? (cs : List Char) : Option String :=
  String.fromUTF8? ⟨(cs.map Char.toUInt8).toArray⟩

/-- Skip the blanks that JSON allows between tokens. -/
def skipBlanks (cs : List Char) : List Char :=
  cs.dropWhile fun c => c == ' ' || c == '\n' || c == '\t' || c == '\r'

/-- The value of a hexadecimal digit. -/
def hexValue? (c : Char) : Option Nat :=
  if c.isDigit then some (c.toNat - '0'.toNat)
  else if 'a' ≤ c && c ≤ 'f' then some (c.toNat - 'a'.toNat + 10)
  else if 'A' ≤ c && c ≤ 'F' then some (c.toNat - 'A'.toNat + 10)
  else none

/-- Read four hexadecimal digits. -/
def takeHex? : List Char → Option (Nat × List Char)
  | a :: b :: c :: d :: rest => do
    let high := (← hexValue? a) * 16 + (← hexValue? b)
    let low := (← hexValue? c) * 16 + (← hexValue? d)
    some (high * 256 + low, rest)
  | _ => none

/-- Read the second half of a pair of code units whose first half is `n`. -/
def takeLowHalf? (n : Nat) : List Char → Option (Char × List Char)
  | '\\' :: 'u' :: cs =>
    match takeHex? cs with
    | none => none
    | some (m, rest) =>
      if 0xDC00 ≤ m && m ≤ 0xDFFF then
        some (Char.ofNat (0x10000 + (n - 0xD800) * 0x400 + (m - 0xDC00)), rest)
      else none
  | _ => none

/-- Read the code unit of a `\u` escape, with the next one if both make up a pair. Half of a pair
alone is no character. -/
def takeUnicode? (cs : List Char) : Option (Option Char × List Char) :=
  match takeHex? cs with
  | none => none
  | some (n, rest) =>
    if n < 0xD800 || 0xDFFF < n then some (some (Char.ofNat n), rest)
    else if 0xDC00 ≤ n then some (none, rest)
    else
      match takeLowHalf? n rest with
      | some (c, rest) => some (some c, rest)
      | none => some (none, rest)

/-- Read what follows a backslash. -/
def takeEscape? : List Char → Option (Option Char × List Char)
  | '"' :: cs => some (some '"', cs)
  | '\\' :: cs => some (some '\\', cs)
  | '/' :: cs => some (some '/', cs)
  | 'b' :: cs => some (some '\x08', cs)
  | 'f' :: cs => some (some '\x0c', cs)
  | 'n' :: cs => some (some '\n', cs)
  | 'r' :: cs => some (some '\r', cs)
  | 't' :: cs => some (some '\t', cs)
  | 'u' :: cs => takeUnicode? cs
  | _ => none

theorem length_of_takeHex? {cs rest : List Char} {n : Nat} (h : takeHex? cs = some (n, rest)) :
    rest.length < cs.length := by
  unfold takeHex? at h
  split at h
  · simp only [Option.bind_eq_bind, Option.bind_eq_some_iff] at h
    obtain ⟨_, _, _, _, _, _, _, _, h⟩ := h
    simp only [Option.some.injEq, Prod.mk.injEq] at h
    simp only [List.length_cons, ← h.2]
    omega
  · cases h

theorem length_of_takeLowHalf? {n : Nat} {cs rest : List Char} {c : Char}
    (h : takeLowHalf? n cs = some (c, rest)) : rest.length < cs.length := by
  unfold takeLowHalf? at h
  split at h
  · next cs' =>
    split at h
    · cases h
    · next m r hm =>
      have hr := length_of_takeHex? hm
      split at h
      · simp only [Option.some.injEq, Prod.mk.injEq] at h
        simp only [List.length_cons, ← h.2]
        omega
      · cases h
  · cases h

theorem length_of_takeUnicode? {cs rest : List Char} {c : Option Char}
    (h : takeUnicode? cs = some (c, rest)) : rest.length < cs.length := by
  unfold takeUnicode? at h
  split at h
  · cases h
  · next n r hn =>
    have hr := length_of_takeHex? hn
    split at h
    · simp only [Option.some.injEq, Prod.mk.injEq] at h
      exact h.2 ▸ hr
    · split at h
      · simp only [Option.some.injEq, Prod.mk.injEq] at h
        exact h.2 ▸ hr
      · split at h
        · next d r' hd =>
          simp only [Option.some.injEq, Prod.mk.injEq] at h
          exact h.2 ▸ Nat.lt_trans (length_of_takeLowHalf? hd) hr
        · simp only [Option.some.injEq, Prod.mk.injEq] at h
          exact h.2 ▸ hr

theorem length_of_takeEscape? {cs rest : List Char} {c : Option Char}
    (h : takeEscape? cs = some (c, rest)) : rest.length < cs.length := by
  unfold takeEscape? at h
  split at h
  case h_9 =>
    have := length_of_takeUnicode? h
    simp only [List.length_cons]
    omega
  case h_10 => cases h
  all_goals
    simp only [Option.some.injEq, Prod.mk.injEq] at h
    simp [← h.2]

/-- Read the units of a string behind its opening quote. Control characters have to be escaped.
Where an escape is no character there are no units, but the string still has its end. -/
def takeString? : List Char → Option (Option (List Char) × List Char)
  | [] => none
  | c :: cs =>
    if c = '"' then some (some [], cs)
    else if c = '\\' then
      match h : takeEscape? cs with
      | none => none
      | some (d, rest) =>
        have := length_of_takeEscape? h
        (takeString? rest).map fun (s, rest) => (do some (unitsOf (← d) ++ (← s)), rest)
    else if c.toNat < 0x20 then none
    else (takeString? cs).map fun (s, rest) => (s.map (c :: ·), rest)
termination_by cs => cs.length
decreasing_by all_goals simp only [List.length_cons]; omega

/-! ### Values -/

/-- What a reader does about values of the right form that cannot be held: numbers too great for
a double, and strings that are no text. -/
inductive Tolerance where
  /-- It refuses the whole text. -/
  | refuse
  /-- It takes null for them. -/
  | asNull
deriving DecidableEq, Inhabited

/-- What is taken for a value. -/
def Tolerance.hold : Tolerance → Option Json → Option Json
  | _, some j => some j
  | .refuse, none => none
  | .asNull, none => some .null

mutual
/-- Read a value. The first number bounds the calls, the second is how deep values may nest. -/
def takeValue? (t : Tolerance) : Nat → Nat → List Char → Option (Json × List Char)
  | 0, _, _ => none
  | n + 1, depth, cs =>
    match skipBlanks cs with
    | '"' :: rest => do
      let (s, rest) ← takeString? rest
      let j ← t.hold ((s.bind textOfUnits?).map .string)
      some (j, rest)
    | '[' :: rest =>
      match depth with
      | 0 => none
      | d + 1 =>
        match skipBlanks rest with
        | ']' :: rest => some (.array [], rest)
        | rest => (takeItems? t n d rest).map fun (xs, rest) => (.array xs, rest)
    | '\x7b' :: rest =>
      match depth with
      | 0 => none
      | d + 1 =>
        match skipBlanks rest with
        | '\x7d' :: rest => some (.object [], rest)
        | rest => do
          let (ms, rest) ← takeMembers? t n d rest
          let j ← t.hold (ms.map .object)
          some (j, rest)
    | 'n' :: 'u' :: 'l' :: 'l' :: rest => some (.null, rest)
    | 't' :: 'r' :: 'u' :: 'e' :: rest => some (.bool true, rest)
    | 'f' :: 'a' :: 'l' :: 's' :: 'e' :: rest => some (.bool false, rest)
    | rest => do
      let (j, rest) ← takeNumber? rest
      let j ← t.hold j
      some (j, rest)

/-- Read the items of an array up to its end. -/
def takeItems? (t : Tolerance) : Nat → Nat → List Char → Option (List Json × List Char)
  | 0, _, _ => none
  | n + 1, depth, cs => do
    let (x, rest) ← takeValue? t n depth cs
    match skipBlanks rest with
    | ',' :: rest =>
      let (xs, rest) ← takeItems? t n depth rest
      some (x :: xs, rest)
    | ']' :: rest => some ([x], rest)
    | _ => none

/-- Read the members of an object up to its end. There are none if a name is no text. -/
def takeMembers? (t : Tolerance) :
    Nat → Nat → List Char → Option (Option (List (String × Json)) × List Char)
  | 0, _, _ => none
  | n + 1, depth, cs =>
    match skipBlanks cs with
    | '"' :: rest => do
      let (s, rest) ← takeString? rest
      let k := s.bind textOfUnits?
      match skipBlanks rest with
      | ':' :: rest =>
        let (x, rest) ← takeValue? t n depth rest
        match skipBlanks rest with
        | ',' :: rest =>
          let (ms, rest) ← takeMembers? t n depth rest
          some (do some ((← k, x) :: (← ms)), rest)
        | '\x7d' :: rest => some (k.map fun k => [(k, x)], rest)
        | _ => none
      | _ => none
    | _ => none
end

/-- How deep arrays and objects may nest. Whoever tolerates anything tolerates any depth. -/
def Tolerance.depth : Tolerance → List Char → Nat
  | .refuse, _ => 127
  | .asNull, cs => cs.length

/-- The value that a text in UTF-8 holds. -/
def ofBytes? (t : Tolerance) (bs : List UInt8) : Option Json := do
  let cs := units bs
  let (j, rest) ← takeValue? t (2 * cs.length + 2) (t.depth cs) cs
  if (skipBlanks rest).isEmpty then some j else none

/-- The value that a text holds. -/
def parse? (s : String) : Option Json := ofBytes? .refuse s.toUTF8.toList

end WideColumn.Json
