import WideColumn.Proofs.Written

/-!
# Filter text in parentheses

A text that is scanned is scanned the same way when a blank or a closing parenthesis comes behind it
(`Token.scan_append`): its last token does not go on into what follows. So an accepted text keeps
its meaning between parentheses, and any number of them can be combined without one reaching into
the next (`Expr.ofText_parenthesized`).
-/

namespace WideColumn

namespace Token

open Text

/-! ### What ends a token -/

/-- What ends every token in front of it: nothing, a blank or a closing parenthesis. -/
def Ends (k : List Char) : Prop := ∀ c ∈ k.head?, isSpace c = true ∨ c = ')'

theorem ends_rightParen (k : List Char) : Ends (')' :: k) := by
  rintro c ⟨⟩
  exact .inr rfl

/-- None of the characters that end a token is of a class that lacks them. -/
theorem Ends.stops {k : List Char} (hk : Ends k) {p : Char → Bool}
    (hspace : ∀ c, isSpace c = true → p c = false) (hparen : p ')' = false) : Stops p k := by
  intro c hc
  rcases hk c hc with h | rfl
  · exact hspace c h
  · exact hparen

theorem isSpace_cases {c : Char} (h : isSpace c = true) :
    c = ' ' ∨ c = '\t' ∨ c = '\n' ∨ c = '\x0c' ∨ c = '\r' := by
  simpa only [isSpace, Bool.or_eq_true, beq_iff_eq, or_assoc] using h

theorem isDigit_of_isSpace {c : Char} (h : isSpace c = true) : c.isDigit = false := by
  rcases isSpace_cases h with rfl | rfl | rfl | rfl | rfl <;> rfl

theorem isNamePart_of_isSpace {c : Char} (h : isSpace c = true) : isNamePart c = false := by
  rcases isSpace_cases h with rfl | rfl | rfl | rfl | rfl <;> rfl

theorem isOperatorPart_of_isSpace {c : Char} (h : isSpace c = true) :
    isOperatorPart c = false := by
  rcases isSpace_cases h with rfl | rfl | rfl | rfl | rfl <;> rfl

theorem Ends.head_ne {k : List Char} (hk : Ends k) {d : Char} (hspace : isSpace d = false)
    (hparen : d ≠ ')') : k.head? ≠ some d := by
  intro hd
  rcases hk d hd with h | h
  · rw [hspace] at h
    cases h
  · exact hparen h

variable {k : List Char}

theorem Ends.stops_isDigit (hk : Ends k) : Stops Char.isDigit k :=
  hk.stops (fun _ => isDigit_of_isSpace) rfl

/-! ### Single tokens -/

theorem takeBlock?_append_of_some {cs s rest : List Char} (h : takeBlock? cs = some (s, rest)) :
    takeBlock? (cs ++ k) = some (s, rest ++ k) := by
  induction cs generalizing s with
  | nil => cases h
  | cons c cs ih =>
    rw [List.cons_append]
    simp only [takeBlock?] at h ⊢
    split at h
    · next hc =>
      cases h
      rw [if_pos hc]
    · next hc =>
      obtain ⟨⟨s', r'⟩, h', heq⟩ := Option.map_eq_some_iff.1 h
      cases heq
      rw [if_neg hc, ih h']
      rfl

theorem ne_backslash {c : Char} {cs : List Char} (hlast : c = '\\' → cs = [] → False)
    (hnext : ∀ d ds, c = '\\' → cs = d :: ds → False) : c ≠ '\\' := by
  intro hc
  cases cs with
  | nil => exact hlast hc rfl
  | cons d ds => exact hnext d ds hc rfl

theorem takeString?_append_of_some {q : Char} {cs s rest : List Char}
    (h : takeString? q cs = some (s, rest)) : takeString? q (cs ++ k) = some (s, rest ++ k) := by
  fun_induction takeString? q cs generalizing s with
  | case1 => cases h
  | case2 => cases h
  | case3 c cs ih =>
    obtain ⟨⟨s', r'⟩, h', heq⟩ := Option.map_eq_some_iff.1 h
    cases heq
    rw [List.cons_append, List.cons_append, takeString?, ih h']
    rfl
  | case4 cs hlast hesc =>
    cases h
    rw [List.cons_append, takeString?_cons_of_ne (ne_backslash hlast hesc), if_pos rfl]
  | case5 c cs hlast hesc hc ih =>
    obtain ⟨⟨s', r'⟩, h', heq⟩ := Option.map_eq_some_iff.1 h
    cases heq
    rw [List.cons_append, takeString?_cons_of_ne (ne_backslash hlast hesc), if_neg hc, ih h']
    rfl

theorem takeMantissa_append (hk : Ends k) (cs : List Char) :
    takeMantissa (cs ++ k) = ((takeMantissa cs).1, (takeMantissa cs).2 ++ k) := by
  have hdigit := hk.stops_isDigit
  unfold takeMantissa
  rw [takeWhile_append_stops hdigit, dropWhile_append_stops hdigit]
  cases cs.dropWhile Char.isDigit with
  | nil =>
    -- The text ends behind its digits, and what follows does not start with a point.
    rw [List.nil_append]
    split
    · exact absurd rfl (hk.head_ne (d := '.') rfl (by decide))
    · rfl
  | cons c rest =>
    rw [List.cons_append]
    by_cases hc : c = '.'
    · subst hc
      simp only [takeWhile_append_stops hdigit, dropWhile_append_stops hdigit]
    · split
      · next h => exact absurd (List.cons.inj h).1 hc
      · split
        · next h => exact absurd (List.cons.inj h).1 hc
        · rfl

theorem takeExponent_nil_of_head {e : Char} {cs : List Char} (h : Stops Char.isDigit cs)
    (hplus : cs.head? ≠ some '+') (hminus : cs.head? ≠ some '-') :
    takeExponent (e :: cs) = ([], e :: cs) := by
  cases cs with
  | nil => rfl
  | cons s rest =>
    have hs : s ≠ '+' ∧ s ≠ '-' :=
      ⟨fun hs => hplus (congrArg some hs), fun hs => hminus (congrArg some hs)⟩
    simp [takeExponent, h s rfl, hs.1, hs.2]

theorem takeExponent_ends (hk : Ends k) : takeExponent k = ([], k) := by
  unfold takeExponent
  split
  · next e s rest =>
    have he : e ≠ 'e' ∧ e ≠ 'E' :=
      ⟨fun he => hk.head_ne rfl (by decide) (congrArg some he),
        fun he => hk.head_ne rfl (by decide) (congrArg some he)⟩
    simp [he.1, he.2]
  · rfl

theorem takeExponent_append (hk : Ends k) (cs : List Char) :
    takeExponent (cs ++ k) = ((takeExponent cs).1, (takeExponent cs).2 ++ k) := by
  have hdigit := hk.stops_isDigit
  match cs with
  | [] => exact takeExponent_ends hk
  | [e] =>
    exact takeExponent_nil_of_head hdigit (hk.head_ne rfl (by decide)) (hk.head_ne rfl (by decide))
  | e :: s :: rest =>
    -- Whether a digit comes behind the sign does not depend on what follows the text.
    have hhead : (rest ++ k).head?.any Char.isDigit = rest.head?.any Char.isDigit := by
      cases rest with
      | nil =>
        cases k with
        | nil => rfl
        | cons c k => simpa using hdigit c rfl
      | cons c rest => rfl
    simp only [takeExponent, List.cons_append, takeWhile_append_stops hdigit,
      dropWhile_append_stops hdigit, hhead]
    split
    · split
      · rfl
      · split
        · rfl
        · rfl
    · rfl

theorem number_append {negative : Bool} {mantissa exponent : List Char × List Char} {t : Token}
    {rest : List Char} (h : number negative mantissa exponent = .ok (t, rest)) (l : List Char) :
    number negative (mantissa.1, l) (exponent.1, exponent.2 ++ k) = .ok (t, rest ++ k) := by
  obtain ⟨t', hread, heq⟩ := map_eq_ok.1 h
  cases heq
  rw [number, hread]
  rfl

theorem next_number_append (hk : Ends k) {c : Char} (hc : (c == '-' || c.isDigit) = true)
    {cs rest : List Char} {t : Token} (h : next c cs = .ok (t, rest)) :
    next c (cs ++ k) = .ok (t, rest ++ k) := by
  rcases Bool.or_eq_true_iff.1 hc with hc | hc
  · obtain rfl : c = '-' := by simpa using hc
    rw [next_minus] at h ⊢
    rw [takeMantissa_append hk, takeExponent_append hk]
    exact number_append h _
  · rw [next_digit hc] at h ⊢
    rw [← List.cons_append, takeMantissa_append hk, takeExponent_append hk]
    exact number_append h _

/-- A token that is taken from the front of a text is taken if something comes behind the text. -/
theorem next_append (hk : Ends k) {c : Char} {cs rest : List Char} {t : Token}
    (h : next c cs = .ok (t, rest)) : next c (cs ++ k) = .ok (t, rest ++ k) := by
  by_cases hnumber : (c == '-' || c.isDigit) = true
  · exact next_number_append hk hnumber h
  have hoperator : Stops isOperatorPart k := hk.stops (fun _ => isOperatorPart_of_isSpace) rfl
  have hname : Stops isNamePart k := hk.stops (fun _ => isNamePart_of_isSpace) rfl
  unfold next at h ⊢
  split at h
  · next hc => cases h; rw [if_pos hc]
  next hopen =>
  rw [if_neg hopen]
  split at h
  · next hc => cases h; rw [if_pos hc]
  next hclose =>
  rw [if_neg hclose]
  split at h
  · next hc =>
    rw [if_pos hc]
    split at h
    · next hb => cases h; rw [takeBlock?_append_of_some hb]
    · cases h
  next hblock =>
  rw [if_neg hblock]
  split at h
  · next hc =>
    rw [if_pos hc]
    split at h
    · next hs => cases h; rw [takeString?_append_of_some hs]
    · cases h
  next hstring =>
  rw [if_neg hstring]
  split at h
  · next hc =>
    rw [if_pos hc, takeWhile_append_stops hoperator, dropWhile_append_stops hoperator]
    dsimp only at h ⊢
    split at h
    · cases h; rfl
    · cases h
  next hop =>
  rw [if_neg hop]
  rw [if_neg hnumber]
  split at h
  · next hc =>
    cases h
    rw [if_pos hc, takeWhile_append_stops hname, dropWhile_append_stops hname]
  · cases h

/-! ### Whole texts -/

/-- A text that is scanned is scanned the same way if something comes behind it. -/
theorem scan_append (hk : Ends k) {cs : List Char} {ts : List Token} (h : scan cs = .ok ts) :
    scan (cs ++ k) = (scan k).map (ts ++ ·) := by
  fun_induction scan cs generalizing ts with
  | case1 =>
    cases h
    rw [List.nil_append]
    cases scan k with
    | error fault => rfl
    | ok us => rfl
  | case2 c cs hc ih =>
    rw [List.cons_append, scan_cons, hc]
    exact ih h
  | case3 => cases h
  | case4 c cs hc t rest hnext _ ih =>
    obtain ⟨us, hus, rfl⟩ := map_eq_ok.1 h
    rw [List.cons_append, scan_of_next (Bool.eq_false_iff.2 hc) (next_append hk hnext), ih hus]
    exact map_append_ok _ [t] us

/-- A scanned text in parentheses is scanned as its tokens in parentheses. -/
theorem scan_group {cs : List Char} {ts : List Token} (h : scan cs = .ok ts) (k : List Char) :
    scan ('(' :: (cs ++ ')' :: k)) = (scan k).map (.leftParen :: ts ++ [.rightParen] ++ ·) := by
  rw [scan_leftParen, scan_append (ends_rightParen k) h, scan_rightParen]
  cases scan k with
  | error fault => rfl
  | ok us => simp [Except.map]

end Token

namespace Expr

open Text Token

/-! ### Groups and chains of groups -/

/-- A text in parentheses. -/
def grouped (text : String) : String := "(" ++ text ++ ")"

theorem toList_grouped (text : String) (k : List Char) :
    (grouped text).toList ++ k = '(' :: (text.toList ++ ')' :: k) := by
  simp [grouped, String.toList_append]

/-- The tokens of an accepted text in parentheses form one operand. -/
theorem exists_scan_grouped {text : String} {e : Expr} (h : ofText text = .ok e) :
    ∃ ts, Derives .negation ts e ∧
      ∀ k, scan ((grouped text).toList ++ k) = (scan k).map (ts ++ ·) := by
  obtain ⟨ts, hscan, hderives⟩ := parse_eq_ok_iff.1 (ofText_eq_ok_iff.1 h)
  refine ⟨_, .primary (.group hderives), fun k => ?_⟩
  rw [toList_grouped]
  exact scan_group hscan k

/-- Accepted texts in parentheses, each behind a connective. -/
theorem exists_scan_rest {op : Connective} (hop : op ≠ .not) {ps : List (String × Expr)}
    (h : ∀ p ∈ ps, ofText p.1 = .ok p.2) :
    ∃ parts : List (List Token × Expr), (∀ q ∈ parts, Derives .negation q.1 q.2) ∧
      ps.map (·.2) = parts.map (·.2) ∧
      scan (ps.flatMap fun p => separator op ++ (grouped p.1).toList) =
        .ok (joined (separatorToken op) parts) := by
  induction ps with
  | nil => exact ⟨[], nofun, rfl, by rw [List.flatMap_nil, scan]; rfl⟩
  | cons p ps ih =>
    obtain ⟨hp, hps⟩ := List.forall_mem_cons.1 h
    obtain ⟨parts, hparts, hmap, hscan⟩ := ih hps
    obtain ⟨ts, hts, hgroup⟩ := exists_scan_grouped hp
    refine ⟨(ts, p.2) :: parts, List.forall_mem_cons.2 ⟨hts, hparts⟩, ?_, ?_⟩
    · rw [List.map_cons, List.map_cons, hmap]
    · rw [List.flatMap_cons, List.append_assoc, scan_separator hop, hgroup, hscan]
      rfl

theorem ofText_chain {op : Connective} (hop : op ≠ .not) {ps : List (String × Expr)}
    (hlen : 2 ≤ ps.length) (h : ∀ p ∈ ps, ofText p.1 = .ok p.2) :
    ofText ((String.ofList (separator op)).intercalate (ps.map fun p => grouped p.1)) =
      .ok (.combine op (ps.map (·.2))) := by
  cases ps with
  | nil => simp at hlen
  | cons p ps =>
    obtain ⟨hp, hps⟩ := List.forall_mem_cons.1 h
    obtain ⟨ts, hts, hgroup⟩ := exists_scan_grouped hp
    obtain ⟨parts, hparts, hmap, hscan⟩ := exists_scan_rest hop hps
    have hne : parts ≠ [] := by
      rintro rfl
      obtain rfl : ps = [] := by simpa using hmap
      simp at hlen
    have htext : ((String.ofList (separator op)).intercalate
        ((p :: ps).map fun p => grouped p.1)).toList =
        (grouped p.1).toList ++ ps.flatMap fun p => separator op ++ (grouped p.1).toList := by
      simp [String.toList_intercalate, intercalate_cons, List.flatMap_map]
    refine ofText_eq_ok_iff.2 (parse_eq_ok_iff.2 ⟨ts ++ joined (separatorToken op) parts, ?_, ?_⟩)
    · rw [htext, hgroup, hscan]
      rfl
    · rw [List.map_cons, hmap]
      cases op with
      | not => exact absurd rfl hop
      | and => exact .conjunction (.and hts hne hparts)
      | or => exact .or (.negation hts) hne fun q hq => .negation (hparts q hq)

theorem ofText_group {text : String} {e : Expr} (h : ofText text = .ok e) :
    ofText (grouped text) = .ok e := by
  obtain ⟨ts, hts, hscan⟩ := exists_scan_grouped h
  refine ofText_eq_ok_iff.2 (parse_eq_ok_iff.2 ⟨ts, ?_, .conjunction (.negation hts)⟩)
  simpa [scan, Except.map] using hscan []

theorem ofText_not_group {text : String} {e : Expr} (h : ofText text = .ok e) :
    ofText ("not " ++ grouped text) = .ok (notAll [e]) := by
  obtain ⟨ts, hts, hscan⟩ := exists_scan_grouped h
  have htext : ("not " ++ grouped text).toList = "not".toList ++ ' ' :: (grouped text).toList := by
    simp [String.toList_append]
  refine ofText_eq_ok_iff.2
    (parse_eq_ok_iff.2 ⟨.not :: ts, ?_, .conjunction (.negation (.not hts))⟩)
  rw [htext, scan_word rfl (stops_cons rfl _), scan_space, ← List.append_nil (grouped text).toList,
    hscan, scan]
  simp [Except.map]
  rfl

/-- **Accepted text cannot escape its parentheses.**  Accepted texts in parentheses, joined by a
connective, stand for the combination of what each of them stands for; a single one in parentheses
stands for the same as without them, and with `not` in front for its negation. -/
theorem ofText_parenthesized :
    (∀ ps : List (String × Expr), 2 ≤ ps.length → (∀ p ∈ ps, ofText p.1 = .ok p.2) →
      ofText (" and ".intercalate (ps.map fun p => "(" ++ p.1 ++ ")")) =
        .ok (allOf (ps.map (·.2))) ∧
      ofText (" or ".intercalate (ps.map fun p => "(" ++ p.1 ++ ")")) =
        .ok (anyOf (ps.map (·.2)))) ∧
    ∀ (text : String) (e : Expr), ofText text = .ok e →
      ofText ("(" ++ text ++ ")") = .ok e ∧ ofText ("not (" ++ text ++ ")") = .ok (notAll [e]) := by
  refine ⟨fun ps hlen h => ⟨?_, ?_⟩, fun text e h => ?_⟩
  · exact ofText_chain (show Connective.and ≠ .not by decide) hlen h
  · exact ofText_chain (show Connective.or ≠ .not by decide) hlen h
  · have hnot : "not (" ++ text ++ ")" = "not " ++ grouped text := by
      simp [grouped, ← String.append_assoc]
    rw [hnot]
    exact ⟨ofText_group h, ofText_not_group h⟩

/-- Texts with parentheses in their strings and in their option blocks, and what they stand for. -/
def fragments : List (String × Expr) :=
  [("name == ')' or size>=-1",
      anyOf [.compare ⟨.equal, "name", .literal (.string ")")⟩,
        .compare ⟨.greaterEqual, "size", .literal (.integer (-1))⟩]),
    ("not \"(\"[unit: ')'] != limit", notAll [.compare ⟨.notEqual, "([unit: ')']", .binding "limit"⟩]),
    ("done == TRUE ", .compare ⟨.equal, "done", .literal (.boolean true)⟩)]

theorem ofText_fragments : ∀ p ∈ fragments, ofText p.1 = .ok p.2 := by
  simp only [fragments, List.forall_mem_cons, List.not_mem_nil, IsEmpty.forall_iff, implies_true,
    and_true]
  refine ⟨?_, ?_, ?_⟩
  all_goals cbv

theorem ofText_parenthesized_fragments :
    2 ≤ fragments.length ∧ (∀ p ∈ fragments, ofText p.1 = .ok p.2) ∧
      ofText (" and ".intercalate (fragments.map fun p => "(" ++ p.1 ++ ")")) =
        .ok (allOf (fragments.map (·.2))) ∧
      ofText ("not (" ++ "done == TRUE " ++ ")") =
        .ok (notAll [.compare ⟨.equal, "done", .literal (.boolean true)⟩]) := by
  have hlen : 2 ≤ fragments.length := Nat.le_succ 2
  have hdone := ofText_fragments _ (.tail _ (.tail _ (.head _)))
  exact ⟨hlen, ofText_fragments, (ofText_parenthesized.1 fragments hlen ofText_fragments).1,
    (ofText_parenthesized.2 _ _ hdone).2⟩

end Expr

end WideColumn
