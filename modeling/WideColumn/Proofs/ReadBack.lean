import WideColumn.Proofs.Written

/-!
# Reading written expressions back

The text of an expression is read as an expression equal to it exactly if the expression is
canonical (`Expr.ofText_text_iff`). That nothing else is read back by accident is seen from the
columns: `ColumnsOf` finds them in the tokens of a text, and where a column token falls apart into
other tokens, or a value is none, the columns found are not those of the expression.
-/

namespace WideColumn

namespace Expr

open Decimal Text Token

/-! ### Columns among tokens -/

/-- A token that belongs to no comparison. -/
def IsGlue : Token → Prop
  | .and | .or | .not | .leftParen | .rightParen => True
  | _ => False

/-- The columns of the comparisons among some tokens. -/
inductive ColumnsOf : List Token → List String → Prop
  /-- No tokens. -/
  | nil : ColumnsOf [] []
  /-- Connectives and parentheses are passed over. -/
  | glue {t : Token} {ts : List Token} {cols : List String} (ht : IsGlue t)
      (h : ColumnsOf ts cols) : ColumnsOf (t :: ts) cols
  /-- A comparison gives its column. -/
  | comparison {cs : List Token} {c : String} {t : Token} {v : Operand} {ts : List Token}
      {cols : List String} (op : Comparator) (hc : IsColumn cs c) (hv : Denotes t v)
      (h : ColumnsOf ts cols) : ColumnsOf (cs ++ .comparator op :: t :: ts) (c :: cols)

theorem not_isGlue_of_names {t : Token} {s : String} (h : Names t s) : ¬ IsGlue t := by
  cases h <;> exact id

theorem ColumnsOf.of_glue {t : Token} {ts : List Token} {cols : List String}
    (h : ColumnsOf (t :: ts) cols) (ht : IsGlue t) : ColumnsOf ts cols := by
  generalize hus : t :: ts = us at h
  cases h with
  | nil => cases hus
  | glue _ h =>
    cases hus
    exact h
  | comparison op hc hv h =>
    cases hc with
    | name hn =>
      cases hus
      exact absurd ht (not_isGlue_of_names hn)
    | block hn b =>
      cases hus
      exact absurd ht (not_isGlue_of_names hn)

/-- Where no column can start, none is found. -/
theorem ColumnsOf.start {t : Token} {ts : List Token} {cols : List String}
    (h : ColumnsOf (t :: ts) cols) : IsGlue t ∨ ∃ s, Names t s := by
  generalize hus : t :: ts = us at h
  cases h with
  | nil => cases hus
  | glue ht _ =>
    cases hus
    exact .inl ht
  | comparison op hc hv h =>
    cases hc with
    | name hn =>
      cases hus
      exact .inr ⟨_, hn⟩
    | block hn b =>
      cases hus
      exact .inr ⟨_, hn⟩

/-- Behind a name and a block stands the comparison of the column that they form. -/
theorem ColumnsOf.of_block {s b c : String} {ts : List Token} {cols : List String}
    (h : ColumnsOf (.identifier s :: .block b :: ts) (c :: cols)) : c = s!"{s}[{b}]" := by
  generalize hus : Token.identifier s :: .block b :: ts = us at h
  generalize hcs : c :: cols = cs at h
  cases h with
  | nil => cases hus
  | glue ht _ =>
    cases hus
    exact ht.elim
  | comparison op hc hv h =>
    cases hcs
    cases hc with
    | name hn => cases hus
    | block hn b =>
      cases hus
      cases hn
      rfl

/-- Behind a column and an operator stands a value. -/
theorem ColumnsOf.of_column {cs ts : List Token} {c c' : String} (hc : IsColumn cs c)
    {op : Comparator} {cols : List String}
    (h : ColumnsOf (cs ++ .comparator op :: ts) (c' :: cols)) :
    ∃ t v ts', ts = t :: ts' ∧ Denotes t v ∧ ColumnsOf ts' cols := by
  generalize hus : cs ++ .comparator op :: ts = us at h
  generalize hcs : c' :: cols = cs' at h
  cases h with
  | nil => cases hc <;> cases hus
  | glue ht _ =>
    cases hc with
    | name hn =>
      cases hus
      exact absurd ht (not_isGlue_of_names hn)
    | block hn b =>
      cases hus
      exact absurd ht (not_isGlue_of_names hn)
  | comparison op' hc' hv h =>
    cases hcs
    cases hc with
    | name hn =>
      cases hc' with
      | name hn' =>
        cases hus
        exact ⟨_, _, _, rfl, hv, h⟩
      | block hn' b => cases hus
    | block hn b =>
      cases hc' with
      | name hn' => cases hus
      | block hn' b' =>
        cases hus
        exact ⟨_, _, _, rfl, hv, h⟩

/-! ### Columns of an expression -/

/-- The column tokens of an expression from left to right. -/
def columns (e : Expr) : List String := e.comparisons.map (·.column)

theorem columns_compare (c : Comparison) : columns (.compare c) = [c.column] := rfl

theorem columns_combine_nil (op : Connective) : columns (.combine op []) = [] := rfl

theorem columns_combine_cons (op : Connective) (e : Expr) (es : List Expr) :
    columns (.combine op (e :: es)) = columns e ++ columns (.combine op es) := by
  simp [columns, comparisons, comparisonsOf]

theorem columnsOf_joined (separator : Token) (hsep : IsGlue separator) (op : Connective)
    {parts : List (List Token × Expr)} {us : List Token} {cols : List String}
    (hparts : ∀ p ∈ parts, ∀ us cols, ColumnsOf us cols →
      ColumnsOf (p.1 ++ us) (columns p.2 ++ cols))
    (hus : ColumnsOf us cols) :
    ColumnsOf (joined separator parts ++ us) (columns (.combine op (parts.map (·.2))) ++ cols) := by
  induction parts with
  | nil => exact hus
  | cons p parts ih =>
    have hrest := ih fun q hq => hparts q (List.mem_cons_of_mem _ hq)
    have hfirst := hparts p List.mem_cons_self _ _ hrest
    rw [List.map_cons, columns_combine_cons, List.append_assoc, joined, List.flatMap_cons,
      List.append_assoc]
    exact .glue hsep hfirst

/-- The columns found in the tokens of a phrase are those of its expression. -/
theorem Derives.columnsOf {p : Phrase} {ts : List Token} {e : Expr} (h : Derives p ts e) :
    ∀ us cols, ColumnsOf us cols → ColumnsOf (ts ++ us) (columns e ++ cols) := by
  induction h with
  | comparison op hc hv =>
    intro us cols hus
    rw [List.append_assoc]
    exact .comparison op hc hv hus
  | group _ ih =>
    intro us cols hus
    rw [List.append_assoc]
    exact .glue trivial (ih _ _ (.glue trivial hus))
  | primary _ ih => exact ih
  | not _ ih =>
    intro us cols hus
    rw [columns_combine_cons, columns_combine_nil, List.append_nil]
    exact .glue trivial (ih _ _ hus)
  | negation _ ih => exact ih
  | and _ _ _ ih ihs =>
    intro us cols hus
    rw [columns_combine_cons, List.append_assoc, List.append_assoc]
    exact ih _ _ (columnsOf_joined .and trivial _ ihs hus)
  | conjunction _ ih => exact ih
  | or _ _ _ ih ihs =>
    intro us cols hus
    rw [columns_combine_cons, List.append_assoc, List.append_assoc]
    exact ih _ _ (columnsOf_joined .or trivial _ ihs hus)

/-! ### Written comparisons -/

/-- An operand that a text can stand for, but for doubles that are none. -/
def ReadableOperand (v : Operand) : Prop := SafeOperand v ∨ ∃ x, v = .literal (.double x)

/-- An angle bracket starts an operator. -/
theorem scan_less {cs : List Char} {t : Token} {ts : List Token}
    (h : scan ('<' :: cs) = .ok (t :: ts)) : ∃ op, t = .comparator op := by
  rw [scan_cons] at h
  obtain ⟨⟨t', rest⟩, hnext, h⟩ := bind_eq_ok.1 h
  obtain ⟨us, -, heq⟩ := map_eq_ok.1 h
  obtain ⟨rfl, -⟩ := List.cons.inj heq
  cases hop : (Enumeration.ofSymbol? (String.ofList ('<' :: cs.takeWhile isOperatorPart)) :
      Option Comparator) with
  | none =>
    simp only [next, isOperatorPart, hop] at hnext
    cases hnext
  | some op =>
    simp only [next, isOperatorPart, hop] at hnext
    exact ⟨op, (Prod.mk.inj (Except.ok.inj hnext)).1.symm⟩

/-- If a value is scanned where an operand is written, the operand can be read back. -/
theorem safeOperand_of_denotes {v v' : Operand} (hv : ReadableOperand v) {k : List Char}
    (hk : Boundary k) {t : Token} {ts : List Token}
    (hscan : scan (writeOperand v ++ k) = .ok (t :: ts)) (ht : Denotes t v') :
    SafeOperand v ∧ scan k = .ok ts := by
  have hsafe : SafeOperand v := by
    rcases hv with hv | ⟨x, rfl⟩
    · exact hv
    · -- A double that is no number is written in angle brackets.
      by_contra hx
      have hinf : isFinite x = false := by simpa [SafeOperand] using hx
      rw [writeOperand, hinf] at hscan
      obtain ⟨op, rfl⟩ := scan_less hscan
      cases ht
  refine ⟨hsafe, ?_⟩
  obtain ⟨t', -, hoperand⟩ := scan_operand hsafe
  rw [hoperand k hk] at hscan
  obtain ⟨us, hus, heq⟩ := map_eq_ok.1 hscan
  rw [hus, (List.cons.inj heq).2]

/-- Brackets are scanned as a block up to the first closing one. -/
theorem scan_brackets {inner rest : List Char} {ts : List Token}
    (h : scan ('[' :: (inner ++ ']' :: rest)) = .ok ts) :
    ∃ b us, ']' ∉ b ∧ ts = .block (String.ofList b) :: us := by
  obtain ⟨b, r, hsplit, hb⟩ : ∃ b r, inner ++ [']'] = b ++ ']' :: r ∧ ']' ∉ b :=
    List.eq_append_cons_of_mem (by simp)
  have htext : inner ++ ']' :: rest = b ++ ']' :: (r ++ rest) := by
    rw [← List.singleton_append, ← List.append_assoc, hsplit]
    simp
  rw [htext, scan_block hb] at h
  obtain ⟨us, -, rfl⟩ := map_eq_ok.1 h
  exact ⟨b, us, hb, rfl⟩

/-- A keyword is no column. -/
theorem not_columnsOf_keyword {w : List Char} (hw : isKeyword w = true) {t : Token}
    (hglue : ¬ IsGlue t) (hnames : ∀ s, ¬ Names t s) {ts : List Token} {c : String}
    {cols : List String} : ¬ ColumnsOf (ofWord w :: t :: ts) (c :: cols) := by
  intro h
  have hnext (hw : IsGlue (ofWord w)) : False := by
    rcases (h.of_glue hw).start with ht | ⟨s, hs⟩
    · exact hglue ht
    · exact hnames s hs
  rcases ofWord_cases w with ⟨-, heq | heq | heq | ⟨b, heq⟩⟩ | ⟨hw', -⟩
  · exact hnext (heq ▸ trivial)
  · exact hnext (heq ▸ trivial)
  · exact hnext (heq ▸ trivial)
  · rw [heq] at h
    rcases h.start with ht | ⟨s, hs⟩
    · exact ht
    · cases hs
  · rw [hw] at hw'
    cases hw'

/-- If the first column found where a column is written is that one, it can be read back. -/
theorem safeColumn_of_columnsOf {column : String} {rest : List Char} {op : Comparator}
    (hrest : ∀ us, scan rest = .ok us → ∃ vs, us = .comparator op :: vs) {ts : List Token}
    {cols : List String} (hscan : scan (writeColumn column ++ ' ' :: rest) = .ok ts)
    (hcols : ColumnsOf ts (column :: cols)) : SafeColumn column.toList := by
  intro hplain
  rw [writeColumn, if_pos hplain] at hscan
  obtain ⟨hisName, hcases⟩ := plain_cases hplain
  generalize column.toList.takeWhile (· != '[') = name at hisName hcases ⊢
  rcases hcases with htext | ⟨inner, htext⟩
  · -- A keyword is scanned as such, and no column is found there.
    rw [htext, scan_word hisName (stops_cons rfl _), scan_space] at hscan
    obtain ⟨us, hus, rfl⟩ := map_eq_ok.1 hscan
    obtain ⟨vs, rfl⟩ := hrest us hus
    refine ⟨?_, fun hmem => not_mem_of_isName hisName ?_⟩
    · rw [← Bool.not_eq_true]
      exact fun hw => not_columnsOf_keyword hw id (fun s hs => by cases hs) hcols
    · rw [htext] at hmem
      exact List.mem_of_mem_dropLast hmem
  · have hassoc : column.toList ++ ' ' :: rest = name ++ '[' :: (inner ++ ']' :: ' ' :: rest) := by
      rw [htext]
      simp
    rw [hassoc, scan_word hisName (stops_cons rfl _)] at hscan
    obtain ⟨us, hus, rfl⟩ := map_eq_ok.1 hscan
    obtain ⟨b, us, hb, rfl⟩ := scan_brackets hus
    have hkeyword : isKeyword name = false := by
      rw [← Bool.not_eq_true]
      exact fun hw => not_columnsOf_keyword hw id (fun s hs => by cases hs) hcols
    refine ⟨hkeyword, ?_⟩
    -- The block that is scanned ends at the first bracket, so it is the one that was written.
    rw [ofWord_of_isKeyword_eq_false hkeyword] at hcols
    have hblock := congrArg String.toList hcols.of_block
    rw [toList_block, htext, List.append_cancel_left_eq, List.cons.injEq,
      List.append_cancel_right_eq] at hblock
    rw [htext, mem_dropLast_block hisName, hblock.2]
    exact hb

/-- If the columns of an expression are found where it is written, its leaves can be read back, and
what stands behind it is scanned with the columns that come next. -/
def FoundSafe (e : Expr) : Prop :=
  ∀ k ts cols, Boundary k → scan (write e ++ k) = .ok ts → ColumnsOf ts (columns e ++ cols) →
    SafeLeaves e ∧ ∃ us, scan k = .ok us ∧ ColumnsOf us cols

theorem foundSafe_comparison {c : Comparison} (hv : ReadableOperand c.operand) :
    FoundSafe (.compare c) := by
  intro k ts cols hk hscan hcols
  rw [write_compare_append] at hscan
  rw [columns_compare, List.singleton_append] at hcols
  have hrest := scan_symbol c.comparator (writeOperand c.operand ++ k)
  have hsafe : SafeColumn c.column.toList := by
    have hhead : ∀ us, scan ((Enumeration.symbol c.comparator).toList ++
        ' ' :: (writeOperand c.operand ++ k)) = .ok us →
          ∃ vs, us = .comparator c.comparator :: vs := by
      intro us hus
      rw [hrest] at hus
      obtain ⟨vs, -, rfl⟩ := map_eq_ok.1 hus
      exact ⟨vs, rfl⟩
    exact safeColumn_of_columnsOf hhead hscan hcols
  obtain ⟨cs, hcs, hcolumn⟩ := scan_column hsafe
  rw [hcolumn, hrest] at hscan
  obtain ⟨us, hus, rfl⟩ := map_eq_ok.1 hscan
  obtain ⟨vs, hvs, rfl⟩ := map_eq_ok.1 hus
  obtain ⟨t, v, ws, rfl, ht, hws⟩ := hcols.of_column hcs
  obtain ⟨hsafe', hk'⟩ := safeOperand_of_denotes hv hk hvs ht
  refine ⟨?_, ws, hk', hws⟩
  intro d hd
  rw [comparisons, List.mem_singleton] at hd
  rw [hd]
  exact ⟨hsafe, hsafe'⟩

/-! ### Written combinations -/

theorem isGlue_separatorToken (op : Connective) : IsGlue (separatorToken op) := by
  cases op <;> trivial

theorem foundSafe_rest {op : Connective} (hop : op ≠ .not) {es : List Expr}
    (h : ∀ e ∈ es, FoundSafe e) {k : List Char} {ts : List Token} {cols : List String}
    (hscan : scan (writeRest op es ++ k) = .ok ts)
    (hcols : ColumnsOf ts (columns (.combine op es) ++ cols)) :
    (∀ e ∈ es, SafeLeaves e) ∧ ∃ us, scan k = .ok us ∧ ColumnsOf us cols := by
  induction es generalizing ts with
  | nil =>
    rw [writeRest, List.singleton_append, scan_rightParen] at hscan
    obtain ⟨us, hus, rfl⟩ := map_eq_ok.1 hscan
    exact ⟨fun e he => absurd he List.not_mem_nil, us, hus, hcols.of_glue trivial⟩
  | cons e es ih =>
    rw [writeRest, List.append_assoc, scan_separator hop, List.append_assoc] at hscan
    obtain ⟨us, hus, rfl⟩ := map_eq_ok.1 hscan
    rw [columns_combine_cons, List.append_assoc] at hcols
    obtain ⟨hsafe, vs, hvs, hcols⟩ := h e List.mem_cons_self _ _ _
      (boundary_writeRest hop es k) hus (hcols.of_glue (isGlue_separatorToken op))
    obtain ⟨hsafes, hk⟩ := ih (fun e' he' => h e' (List.mem_cons_of_mem _ he')) hvs hcols
    refine ⟨?_, hk⟩
    intro e' he'
    rcases List.mem_cons.1 he' with rfl | he'
    · exact hsafe
    · exact hsafes e' he'

theorem foundSafe_chain {op : Connective} (hop : op ≠ .not) {es : List Expr}
    (hlen : 2 ≤ es.length) (h : ∀ e ∈ es, FoundSafe e) : FoundSafe (.combine op es) := by
  intro k ts cols _ hscan hcols
  cases es with
  | nil => simp at hlen
  | cons e es =>
    rw [write, opening_eq hop, List.append_assoc, List.append_assoc, List.singleton_append,
      scan_leftParen] at hscan
    obtain ⟨us, hus, rfl⟩ := map_eq_ok.1 hscan
    rw [columns_combine_cons, List.append_assoc] at hcols
    obtain ⟨hsafe, vs, hvs, hcols⟩ := h e List.mem_cons_self _ _ _
      (boundary_writeRest hop es k) hus (hcols.of_glue trivial)
    obtain ⟨hsafes, hk⟩ :=
      foundSafe_rest hop (fun e' he' => h e' (List.mem_cons_of_mem _ he')) hvs hcols
    refine ⟨?_, hk⟩
    intro c hc
    rw [comparisons, comparisonsOf, List.mem_append, mem_comparisonsOf] at hc
    rcases hc with hc | ⟨e', he', hc⟩
    · exact hsafe c hc
    · exact hsafes e' he' c hc

theorem foundSafe_not {e : Expr} (h : FoundSafe e) : FoundSafe (.combine .not [e]) := by
  intro k ts cols _ hscan hcols
  rw [write_not, scan_word rfl (stops_cons rfl _), scan_space, scan_leftParen] at hscan
  obtain ⟨us, hus, rfl⟩ := map_eq_ok.1 hscan
  obtain ⟨vs, hvs, rfl⟩ := map_eq_ok.1 hus
  rw [columns_combine_cons, columns_combine_nil, List.append_nil] at hcols
  obtain ⟨hsafe, ws, hws, hcols⟩ := h _ _ _ (boundary_rightParen k) hvs
    ((hcols.of_glue trivial).of_glue trivial)
  rw [scan_rightParen] at hws
  obtain ⟨xs, hxs, rfl⟩ := map_eq_ok.1 hws
  refine ⟨?_, xs, hxs, hcols.of_glue trivial⟩
  intro c hc
  exact hsafe c (by simpa [comparisons, comparisonsOf] using hc)

theorem foundSafe {e : Expr} (h : Shaped e)
    (hoperands : ∀ c ∈ e.comparisons, ReadableOperand c.operand) : FoundSafe e := by
  induction h with
  | compare c => exact foundSafe_comparison (hoperands c (by simp [comparisons]))
  | chain hop hlen _ ih =>
    refine foundSafe_chain hop hlen fun e he => ih e he fun c hc => hoperands c ?_
    rw [comparisons, mem_comparisonsOf]
    exact ⟨e, he, hc⟩
  | not _ ih =>
    refine foundSafe_not (ih fun c hc => hoperands c ?_)
    simpa [comparisons, comparisonsOf] using hc

/-! ### Equal expressions -/

/-- Every operand of an expression can stand in a text, but for doubles that have none. -/
def Readable (e : Expr) : Prop := ∀ c ∈ e.comparisons, ReadableOperand c.operand

/-- What an expression that is equal to a read one has in common with it. -/
structure Alike (e f : Expr) : Prop where
  /-- The same shape. -/
  shaped : Shaped e → Shaped f
  /-- The same columns. -/
  columns : e.columns = f.columns
  /-- Operands of the same kind. -/
  readable : Readable e → Readable f

theorem Alike.refl (e : Expr) : Alike e e := ⟨id, rfl, id⟩

theorem readableOperand_of_beq {v w : Operand} (h : (v == w) = true) (hv : ReadableOperand v) :
    ReadableOperand w := by
  cases v with
  | binding name =>
    cases w with
    | binding name' =>
      obtain rfl : name = name' := eq_of_beq h
      exact hv
    | literal w => cases h
  | literal v =>
    cases w with
    | binding name => cases h
    | literal w =>
      cases w with
      | binary bs =>
        cases v with
        | binary bs' =>
          rcases hv with hv | ⟨x, hx⟩
          · exact hv.elim
          · cases hx
        | _ => cases h
      | double x => exact .inr ⟨x, rfl⟩
      | _ => exact .inl trivial

theorem alike_compare {c d : Comparison} (h : (c == d) = true) :
    Alike (.compare c) (.compare d) := by
  obtain ⟨op, column, v⟩ := c
  obtain ⟨op', column', w⟩ := d
  have h' : (op == op' && (column == column' && v == w)) = true := h
  rw [Bool.and_eq_true, Bool.and_eq_true] at h'
  obtain rfl : column = column' := eq_of_beq h'.2.1
  refine ⟨fun _ => .compare _, rfl, fun hv d hd => ?_⟩
  rw [comparisons, List.mem_singleton] at hd
  rw [hd]
  exact readableOperand_of_beq h'.2.2 (hv _ (List.mem_singleton.2 rfl))

theorem exists_of_mem_of_forall₂ {r : Expr → Expr → Prop} {es fs : List Expr}
    (h : List.Forall₂ r es fs) {f : Expr} (hf : f ∈ fs) : ∃ e ∈ es, r e f := by
  induction h with
  | nil => cases hf
  | cons hr _ ih =>
    rcases List.mem_cons.1 hf with rfl | hf
    · exact ⟨_, List.mem_cons_self, hr⟩
    · obtain ⟨e, he, hr⟩ := ih hf
      exact ⟨e, List.mem_cons_of_mem _ he, hr⟩

theorem alike_combine (op : Connective) {es fs : List Expr} (h : List.Forall₂ Alike es fs) :
    Alike (.combine op es) (.combine op fs) := by
  refine ⟨fun hs => ?_, ?_, fun hr c hc => ?_⟩
  · cases hs with
    | chain hop hlen hes =>
      refine .chain hop (h.length_eq ▸ hlen) fun f hf => ?_
      obtain ⟨e, he, hef⟩ := exists_of_mem_of_forall₂ h hf
      exact hef.shaped (hes e he)
    | not hs =>
      cases h with
      | cons hef hnil =>
        cases hnil
        exact .not (hef.shaped hs)
  · induction h with
    | nil => rfl
    | cons hef _ ih => rw [columns_combine_cons, columns_combine_cons, hef.columns, ih]
  · rw [comparisons, mem_comparisonsOf] at hc
    obtain ⟨f, hf, hc⟩ := hc
    obtain ⟨e, he, hef⟩ := exists_of_mem_of_forall₂ h hf
    refine hef.readable (fun d hd => hr d ?_) c hc
    rw [comparisons, mem_comparisonsOf]
    exact ⟨e, he, hd⟩

mutual

theorem alike_of_equal : ∀ {e f : Expr}, equal e f = true → Alike e f
  | .compare _, .compare _, h => alike_compare h
  | .combine p es, .combine q fs, h => by
    rw [equal, Bool.and_eq_true] at h
    obtain rfl : p = q := eq_of_beq h.1
    exact alike_combine p (alike_of_equalParts h.2)
  | .compare _, .combine .., h => by cases h
  | .combine .., .compare _, h => by cases h

theorem alike_of_equalParts : ∀ {es fs : List Expr}, equalParts es fs = true →
    List.Forall₂ Alike es fs
  | [], [], _ => .nil
  | e :: es, f :: fs, h => by
    rw [equalParts, Bool.and_eq_true] at h
    exact .cons (alike_of_equal h.1) (alike_of_equalParts h.2)
  | [], _ :: _, h => by cases h
  | _ :: _, [], h => by cases h

end

theorem beq_self_of_safeOperand {v : Operand} (h : SafeOperand v) : (v == v) = true := by
  cases v with
  | binding name => exact beq_self_eq_true name
  | literal v =>
    cases v with
    | string s => exact beq_self_eq_true s
    | integer n => exact beq_self_eq_true n
    | double x => exact beq_self_of_isFinite h
    | boolean b => exact beq_self_eq_true b
    | binary bs => exact h.elim

mutual

theorem equal_self : ∀ {e : Expr}, SafeLeaves e → equal e e = true
  | .compare c, h => by
    have hv := beq_self_of_safeOperand (h c (by simp [comparisons])).2
    have h' : (c.comparator == c.comparator && (c.column == c.column && c.operand == c.operand)) =
        true := by
      rw [hv, beq_self_eq_true, beq_self_eq_true]
      rfl
    exact h'
  | .combine p es, h => by
    rw [equal, beq_self_eq_true, Bool.true_and]
    exact equalParts_self fun c hc => h c (by rwa [comparisons])

theorem equalParts_self : ∀ {es : List Expr},
    (∀ c ∈ comparisonsOf es, SafeColumn c.column.toList ∧ SafeOperand c.operand) →
    equalParts es es = true
  | [], _ => rfl
  | e :: es, h => by
    rw [equalParts, Bool.and_eq_true]
    refine ⟨equal_self fun c hc => h c ?_, equalParts_self fun c hc => h c ?_⟩
    · exact List.mem_append.2 (.inl hc)
    · exact List.mem_append.2 (.inr hc)

end

/-! ### Operands of read expressions -/

theorem exists_denotes_joined {separator : Token} {parts : List (List Token × Expr)}
    (hparts : ∀ p ∈ parts, ∀ c ∈ p.2.comparisons, ∃ t ∈ p.1, Denotes t c.operand)
    {c : Comparison} (hc : c ∈ comparisonsOf (parts.map (·.2))) :
    ∃ t ∈ joined separator parts, Denotes t c.operand := by
  obtain ⟨e, he, hc⟩ := mem_comparisonsOf.1 hc
  obtain ⟨p, hp, rfl⟩ := List.mem_map.1 he
  obtain ⟨t, ht, hd⟩ := hparts p hp c hc
  exact ⟨t, List.mem_flatMap.2 ⟨p, hp, List.mem_cons_of_mem _ ht⟩, hd⟩

/-- Every operand of a read expression stands among the tokens. -/
theorem Derives.exists_denotes {p : Phrase} {ts : List Token} {e : Expr} (h : Derives p ts e) :
    ∀ c ∈ e.comparisons, ∃ t ∈ ts, Denotes t c.operand := by
  induction h with
  | comparison op hc hv =>
    intro c hmem
    rw [comparisons, List.mem_singleton] at hmem
    rw [hmem]
    exact ⟨_, by simp, hv⟩
  | group _ ih =>
    intro c hc
    obtain ⟨t, ht, hd⟩ := ih c hc
    exact ⟨t, by simp [ht], hd⟩
  | primary _ ih => exact ih
  | not _ ih =>
    intro c hc
    obtain ⟨t, ht, hd⟩ := ih c (by simpa [comparisons, comparisonsOf] using hc)
    exact ⟨t, List.mem_cons_of_mem _ ht, hd⟩
  | negation _ ih => exact ih
  | conjunction _ ih => exact ih
  | and _ _ _ ih ihs | or _ _ _ ih ihs =>
    intro c hc
    rw [comparisons, comparisonsOf, List.mem_append] at hc
    rcases hc with hc | hc
    · obtain ⟨t, ht, hd⟩ := ih c hc
      exact ⟨t, List.mem_append_left _ ht, hd⟩
    · obtain ⟨t, ht, hd⟩ := exists_denotes_joined ihs hc
      exact ⟨t, List.mem_append_right _ ht, hd⟩

theorem safeOperand_of_wellFormed {t : Token} {v : Operand} (h : Denotes t v) (ht : t.WellFormed)
    (hinf : ∀ x, v = .literal (.double x) → x.isInf = false) : SafeOperand v := by
  cases h with
  | double x => exact ht (hinf x rfl)
  | identifier s => exact ht
  | _ => trivial

theorem readableOperand_of_wellFormed {t : Token} {v : Operand} (h : Denotes t v)
    (ht : t.WellFormed) : ReadableOperand v := by
  cases h with
  | double x => exact .inr ⟨x, rfl⟩
  | identifier s => exact .inl ht
  | _ => exact .inl trivial

/-! ### Texts of expressions -/

theorem Canonical.safeLeaves {e : Expr} (h : Canonical e) : SafeLeaves e :=
  fun c hc => ⟨h.columns c hc, h.operands c hc⟩

theorem parse_text_of_canonical {e : Expr} (h : Canonical e) : parse e.text = .ok e := by
  obtain ⟨ts, hts, hscan⟩ := exists_written h.shaped h.safeLeaves
  have hall := hscan [] nofun
  rw [List.append_nil] at hall
  refine parse_eq_ok_iff.2 ⟨ts, ?_, .conjunction (.negation hts)⟩
  rw [text, String.toList_ofList, hall, scan]
  simp [Except.map]

/-- An expression whose text is read as one alike is canonical. -/
theorem canonical_of_alike {e e' : Expr} (h : parse e.text = .ok e') (ha : Alike e' e) :
    Canonical e := by
  obtain ⟨ts, hscan, hts⟩ := parse_eq_ok_iff.1 h
  rw [text, String.toList_ofList] at hscan
  have hreadable : Readable e := ha.readable fun c hc => by
    obtain ⟨t, ht, hd⟩ := hts.exists_denotes c hc
    exact readableOperand_of_wellFormed hd (wellFormed_of_scan hscan t ht)
  have hshaped := ha.shaped hts.shaped
  have hcols := hts.columnsOf [] [] .nil
  rw [List.append_nil, ha.columns] at hcols
  have hscan' : scan (write e ++ []) = .ok ts := by rwa [List.append_nil]
  obtain ⟨hsafe, -⟩ := foundSafe hshaped hreadable [] ts [] nofun hscan' hcols
  exact ⟨hshaped, fun c hc => (hsafe c hc).1, fun c hc => (hsafe c hc).2⟩

/-- **Exactly canonical expressions are read back.**  The text of an expression is read as an
expression that is equal to it if and only if it is canonical, and then as the expression itself. -/
theorem ofText_text_iff (e : Expr) :
    ((∃ e', ofText e.text = .ok e' ∧ (e' == e) = true) ↔ Canonical e) ∧
      (ofText e.text = .ok e ↔ Canonical e) := by
  have hself : Canonical e → ofText e.text = .ok e :=
    fun h => ofText_eq_ok_iff.2 (parse_text_of_canonical h)
  refine ⟨⟨?_, fun h => ⟨e, hself h, equal_self h.safeLeaves⟩⟩, ⟨fun h => ?_, hself⟩⟩
  · rintro ⟨e', h, heq⟩
    exact canonical_of_alike (ofText_eq_ok_iff.1 h) (alike_of_equal heq)
  · exact canonical_of_alike (ofText_eq_ok_iff.1 h) (.refl e)

/-- **Which read expressions are read back.**  An expression that was read from a text and has no
infinite double is read back from its own text if and only if every column token is safe. Tokens
that are not come from quoted names: a keyword, or a name with a block in which a bracket closes too
early, both of which are written without quotes. -/
theorem ofText_text_of_ofText {t : String} {e : Expr} (h : ofText t = .ok e)
    (hinf : ∀ c ∈ e.comparisons, ∀ x, c.operand = .literal (.double x) → x.isInf = false) :
    ofText e.text = .ok e ↔ ∀ c ∈ e.comparisons, SafeColumn c.column.toList := by
  obtain ⟨ts, hscan, hts⟩ := parse_eq_ok_iff.1 (ofText_eq_ok_iff.1 h)
  constructor
  · intro hback
    exact (canonical_of_alike (ofText_eq_ok_iff.1 hback) (.refl e)).columns
  · intro hcols
    refine ofText_eq_ok_iff.2 (parse_text_of_canonical ⟨hts.shaped, hcols, fun c hc => ?_⟩)
    obtain ⟨t, ht, hd⟩ := hts.exists_denotes c hc
    exact safeOperand_of_wellFormed hd (wellFormed_of_scan hscan t ht) (hinf c hc)

/-- A name with a space in it and a name with a block. -/
def spacedName : Expr :=
  .combine .and [.compare ⟨.equal, "first name", .binding "name"⟩,
    notAll [.compare ⟨.less, "size[a: 1]", .literal (.integer 15)⟩]]

theorem ofText_text_spacedName :
    ofText "'first name' == name AND NOT size[a: 1] < 15" = .ok spacedName ∧
      (ofText spacedName.text = .ok spacedName ↔
        ∀ c ∈ spacedName.comparisons, SafeColumn c.column.toList) := by
  have h : ofText "'first name' == name AND NOT size[a: 1] < 15" = .ok spacedName := by cbv
  refine ⟨h, ofText_text_of_ofText h ?_⟩
  simp [spacedName, notAll, comparisons, comparisonsOf]

/-- A comparison with a column whose name is a keyword. -/
def keywordColumn : Expr := .compare ⟨.equal, "and", .literal (.integer 1)⟩

/-- The text of a read expression is not always read back. -/
theorem not_read_back_of_read :
    ¬ ∀ (t : String) (e : Expr), ofText t = .ok e →
      (∀ c ∈ e.comparisons, ∀ x, c.operand = .literal (.double x) → x.isInf = false) →
      ofText e.text = .ok e := by
  intro h
  have hread : ofText "\"and\" == 1" = .ok keywordColumn := by cbv
  have hback : ofText keywordColumn.text =
      .error (.invalidExpression (.unexpected .column (some .and))) := by cbv
  have := h _ _ hread (by simp [keywordColumn, comparisons])
  rw [hback] at this
  cases this

end Expr

end WideColumn
