import WideColumn.Proofs.Grammar
import WideColumn.Proofs.Lexeme

/-!
# The tokens of a written expression

`Expr.Canonical` says which expressions have a text of their own. The text of such an expression
consists of tokens that stand for it (`exists_written`), whatever comes behind.
-/

namespace WideColumn

namespace Expr

open Decimal Text Token

/-! ### Canonical expressions -/

/-- A column token that can be read back: it is quoted, or its name is no keyword and its first
closing bracket is its last character. -/
def SafeColumn (cs : List Char) : Prop :=
  isPlainColumn cs = true → isKeyword (cs.takeWhile (· != '[')) = false ∧ ']' ∉ cs.dropLast

/-- An operand that can be read back: a variable with a name that is no keyword, or a literal that
has a text. -/
def SafeOperand : Operand → Prop
  | .binding name => isName name.toList = true ∧ isKeyword name.toList = false
  | .literal (.double x) => isFinite x = true
  | .literal (.binary _) => False
  | .literal _ => True

/-- Every column and every operand of an expression can be read back. -/
def SafeLeaves (e : Expr) : Prop :=
  ∀ c ∈ e.comparisons, SafeColumn c.column.toList ∧ SafeOperand c.operand

/-- Expressions with a text of their own. -/
structure Canonical (e : Expr) : Prop where
  /-- Chains have two or more parts, negations one. -/
  shaped : Shaped e
  /-- Every column token can be read back. -/
  columns : ∀ c ∈ e.comparisons, SafeColumn c.column.toList
  /-- Every operand can be read back. -/
  operands : ∀ c ∈ e.comparisons, SafeOperand c.operand

theorem mem_comparisonsOf {c : Comparison} {es : List Expr} :
    c ∈ comparisonsOf es ↔ ∃ e ∈ es, c ∈ e.comparisons := by
  induction es with
  | nil => simp [comparisonsOf]
  | cons e es ih => simp [comparisonsOf, ih]

/-! ### Columns -/

/-- A plain column token is a name, alone or with a block behind it. -/
theorem plain_cases {cs : List Char} (h : isPlainColumn cs = true) :
    isName (cs.takeWhile (· != '[')) = true ∧ (cs = cs.takeWhile (· != '[') ∨
      ∃ inner, cs = cs.takeWhile (· != '[') ++ '[' :: (inner ++ [']'])) := by
  rw [isPlainColumn, Bool.and_eq_true, Bool.or_eq_true] at h
  refine ⟨h.1, ?_⟩
  have hsplit := cs.takeWhile_append_dropWhile (p := (· != '['))
  -- What is left behind the name starts with a bracket, so the other end is one, too.
  cases hdrop : cs.dropWhile (· != '[') with
  | nil =>
    rw [hdrop, List.append_nil] at hsplit
    exact .inl hsplit.symm
  | cons d rest =>
    have hd : d = '[' := by
      have := List.head?_dropWhile_not (· != '[') cs
      rw [hdrop] at this
      simpa using this
    rw [hdrop, hd] at hsplit
    have hlast : cs.getLast? = some ']' := by
      rcases h.2 with h | h
      · rw [hdrop] at h
        cases h
      · simpa using h
    rw [← hsplit, List.getLast?_append_of_ne_nil _ (by simp)] at hlast
    rcases List.eq_nil_or_concat' rest with rfl | ⟨inner, x, rfl⟩
    · cases hlast
    · obtain rfl : x = ']' := by simpa [List.getLast?_cons] using hlast
      exact .inr ⟨inner, hsplit.symm⟩

theorem toList_block (name inner : List Char) :
    s!"{String.ofList name}[{String.ofList inner}]".toList = name ++ '[' :: (inner ++ [']']) := by
  simp [String.toList_append, toString]

theorem not_mem_of_isName {name : List Char} (h : isName name = true) : ']' ∉ name := by
  intro hmem
  cases name with
  | nil => cases h
  | cons c cs =>
    obtain ⟨hc, hcs⟩ := isName_cons.1 h
    rcases List.mem_cons.1 hmem with rfl | hmem
    · cases hc
    · cases hcs ']' hmem

/-- The first closing bracket of a name with a block is the last character if none stands in the
block. -/
theorem mem_dropLast_block {name inner : List Char} (hname : isName name = true) :
    ']' ∈ (name ++ '[' :: (inner ++ [']'])).dropLast ↔ ']' ∈ inner := by
  have hlast : name ++ '[' :: (inner ++ [']']) = (name ++ '[' :: inner) ++ [']'] := by simp
  rw [hlast, List.dropLast_concat, List.mem_append, List.mem_cons]
  simp [not_mem_of_isName hname]

/-- A plain column token is scanned as a word and what stands in its brackets. -/
theorem scan_plain {column : String} (h : isPlainColumn column.toList = true)
    (hinner : ']' ∉ column.toList.dropLast)
    (hname : isKeyword (column.toList.takeWhile (· != '[')) = false) :
    ∃ cs, IsColumn cs column ∧
      ∀ k, scan (column.toList ++ ' ' :: k) = (scan k).map (cs ++ ·) := by
  obtain ⟨hisName, hcases⟩ := plain_cases h
  generalize hn : column.toList.takeWhile (· != '[') = name at hisName hcases hname
  have hword := ofWord_of_isKeyword_eq_false hname
  rcases hcases with htext | ⟨inner, htext⟩
  · obtain rfl : String.ofList name = column := by rw [← htext, String.ofList_toList]
    refine ⟨_, .name (.identifier _), fun k => ?_⟩
    rw [htext, scan_word hisName (stops_cons rfl k), scan_space, hword]
    rfl
  · have hinner' : ']' ∉ inner := by
      rwa [htext, mem_dropLast_block hisName] at hinner
    obtain rfl : s!"{String.ofList name}[{String.ofList inner}]" = column :=
      String.toList_injective ((toList_block name inner).trans htext.symm)
    refine ⟨_, .block (.identifier _) _, fun k => ?_⟩
    have hassoc : name ++ '[' :: (inner ++ [']']) ++ ' ' :: k =
        name ++ '[' :: (inner ++ ']' :: ' ' :: k) := by simp
    rw [htext, hassoc, scan_word hisName (stops_cons rfl _), hword, scan_block hinner', scan_space]
    exact map_append_ok _ [_] [_]

theorem scan_column {column : String} (h : SafeColumn column.toList) :
    ∃ cs, IsColumn cs column ∧
      ∀ k, scan (writeColumn column ++ ' ' :: k) = (scan k).map (cs ++ ·) := by
  unfold writeColumn
  split
  · next hplain => exact scan_plain hplain (h hplain).2 (h hplain).1
  · refine ⟨_, .name (.string column), fun k => ?_⟩
    rw [scan_quoted, scan_space]
    rfl

/-! ### Operands -/

theorem scan_operand {v : Operand} (h : SafeOperand v) :
    ∃ t, Denotes t v ∧
      ∀ k, Boundary k → scan (writeOperand v ++ k) = (scan k).map (t :: ·) := by
  cases v with
  | binding name =>
    refine ⟨_, .identifier name, fun k hk => ?_⟩
    rw [writeOperand, scan_word h.1 (hk.stops rfl rfl), ofWord_of_isKeyword_eq_false h.2,
      String.ofList_toList]
  | literal v =>
    cases v with
    | string s => exact ⟨_, .string s, fun k _ => scan_quoted s k⟩
    | integer n => exact ⟨_, .integer n, fun k hk => scan_integer n hk⟩
    | double x =>
      refine ⟨_, .double x, fun k hk => ?_⟩
      rw [writeOperand, if_pos (show isFinite x = true from h), scan_double h hk]
    | boolean b =>
      refine ⟨_, .boolean b, fun k hk => ?_⟩
      cases b with
      | true => exact scan_word rfl (hk.stops rfl rfl)
      | false => exact scan_word rfl (hk.stops rfl rfl)
    | binary bs => exact h.elim

/-! ### Expressions -/

/-- The text of an expression consists of tokens that stand for it. -/
def Written (ts : List Token) (e : Expr) : Prop :=
  Derives .negation ts e ∧ ∀ k, Boundary k → scan (write e ++ k) = (scan k).map (ts ++ ·)

theorem write_compare_append (c : Comparison) (k : List Char) :
    write (.compare c) ++ k =
      writeColumn c.column ++ ' ' :: ((Enumeration.symbol c.comparator).toList ++
        ' ' :: (writeOperand c.operand ++ k)) := by
  simp [write, writeComparison]

theorem written_comparison {c : Comparison} (hc : SafeColumn c.column.toList)
    (hv : SafeOperand c.operand) : ∃ ts, Written ts (.compare c) := by
  obtain ⟨cs, hcs, hcolumn⟩ := scan_column hc
  obtain ⟨t, ht, hoperand⟩ := scan_operand hv
  refine ⟨_, .primary (.comparison c.comparator hcs ht), fun k hk => ?_⟩
  rw [write_compare_append, hcolumn, scan_symbol, hoperand k hk]
  cases scan k with
  | error fault => rfl
  | ok ts => simp [Except.map]

theorem boundary_rightParen (k : List Char) : Boundary (')' :: k) := by
  rintro c ⟨⟩
  exact .inr rfl

/-- What comes behind the first part of a combination starts with a space or a parenthesis. -/
theorem boundary_writeRest {op : Connective} (hop : op ≠ .not) (es : List Expr) (k : List Char) :
    Boundary (writeRest op es ++ k) := by
  cases es with
  | nil => exact boundary_rightParen k
  | cons e es =>
    rw [writeRest]
    cases op with
    | not => exact absurd rfl hop
    | and =>
      rintro c ⟨⟩
      exact .inl rfl
    | or =>
      rintro c ⟨⟩
      exact .inl rfl

theorem opening_eq {op : Connective} (hop : op ≠ .not) : opening op = ['('] := by
  cases op with
  | not => exact absurd rfl hop
  | and => rfl
  | or => rfl

/-- The token between the parts of a chain. -/
def separatorToken : Connective → Token
  | .and => .and
  | .or => .or
  | .not => .not

theorem scan_separator {op : Connective} (hop : op ≠ .not) (k : List Char) :
    scan (separator op ++ k) = (scan k).map (separatorToken op :: ·) := by
  cases op with
  | not => exact absurd rfl hop
  | and =>
    refine (scan_space _).trans ?_
    rw [← scan_space k]
    exact scan_word (w := "and".toList) rfl (stops_cons rfl k)
  | or =>
    refine (scan_space _).trans ?_
    rw [← scan_space k]
    exact scan_word (w := "or".toList) rfl (stops_cons rfl k)

theorem written_rest {op : Connective} (hop : op ≠ .not) {es : List Expr}
    (h : ∀ e ∈ es, ∃ ts, Written ts e) :
    ∃ parts : List (List Token × Expr), (∀ p ∈ parts, Written p.1 p.2) ∧ es = parts.map (·.2) ∧
      ∀ k, scan (writeRest op es ++ k) =
        (scan k).map (joined (separatorToken op) parts ++ [.rightParen] ++ ·) := by
  induction es with
  | nil => exact ⟨[], nofun, rfl, scan_rightParen⟩
  | cons e es ih =>
    obtain ⟨parts, hparts, rfl, hscan⟩ := ih fun e' he' => h e' (List.mem_cons_of_mem _ he')
    obtain ⟨ts, hts⟩ := h e List.mem_cons_self
    refine ⟨(ts, e) :: parts, ?_, rfl, fun k => ?_⟩
    · intro p hp
      rcases List.mem_cons.1 hp with rfl | hp
      · exact hts
      · exact hparts p hp
    · rw [writeRest, List.append_assoc, scan_separator hop, List.append_assoc,
        hts.2 _ (boundary_writeRest hop _ k), hscan]
      cases scan k with
      | error fault => rfl
      | ok us => simp [Except.map, joined]

theorem Written.ofChain {op : Connective} (hop : op ≠ .not) {es : List Expr} (hlen : 2 ≤ es.length)
    (h : ∀ e ∈ es, ∃ ts, Written ts e) : ∃ ts, Written ts (.combine op es) := by
  cases es with
  | nil => simp at hlen
  | cons e es =>
    obtain ⟨ts, hts⟩ := h e List.mem_cons_self
    obtain ⟨parts, hparts, rfl, hscan⟩ :=
      written_rest hop fun e' he' => h e' (List.mem_cons_of_mem _ he')
    have hne : parts ≠ [] := by
      rintro rfl
      simp at hlen
    refine ⟨.leftParen :: (ts ++ joined (separatorToken op) parts) ++ [.rightParen], ?_,
      fun k hk => ?_⟩
    · refine .primary (.group ?_)
      cases op with
      | not => exact absurd rfl hop
      | and => exact .conjunction (.and hts.1 hne fun p hp => (hparts p hp).1)
      | or => exact .or (.negation hts.1) hne fun p hp => .negation (hparts p hp).1
    · rw [write, opening_eq hop, List.append_assoc, List.append_assoc, List.singleton_append,
        scan_leftParen, hts.2 _ (boundary_writeRest hop _ k), hscan]
      cases scan k with
      | error fault => rfl
      | ok us => simp [Except.map]

theorem write_not (e : Expr) (k : List Char) :
    write (.combine .not [e]) ++ k = "not".toList ++ ' ' :: '(' :: (write e ++ ')' :: k) := by
  simp [write, writeRest, opening]

theorem Written.not {ts : List Token} {e : Expr} (h : Written ts e) :
    Written (.not :: (.leftParen :: ts ++ [.rightParen])) (.combine .not [e]) := by
  refine ⟨.not (.primary (.group (.conjunction (.negation h.1)))), fun k hk => ?_⟩
  rw [write_not, scan_word rfl (stops_cons rfl _), scan_space, scan_leftParen,
    h.2 _ (boundary_rightParen k), scan_rightParen]
  cases scan k with
  | error fault => rfl
  | ok us => simp [Except.map]; rfl

/-- The text of an expression that can be read back consists of tokens that stand for it. -/
theorem exists_written {e : Expr} (h : Shaped e) (hleaves : SafeLeaves e) :
    ∃ ts, Written ts e := by
  induction h with
  | compare c =>
    obtain ⟨hc, hv⟩ := hleaves c (by simp [comparisons])
    exact written_comparison hc hv
  | chain hop hlen _ ih =>
    refine Written.ofChain hop hlen fun e he => ih e he fun c hc => hleaves c ?_
    rw [comparisons, mem_comparisonsOf]
    exact ⟨e, he, hc⟩
  | not _ ih =>
    obtain ⟨ts, hts⟩ := ih fun c hc => hleaves c (by simpa [comparisons, comparisonsOf] using hc)
    exact ⟨_, hts.not⟩

end Expr

end WideColumn
