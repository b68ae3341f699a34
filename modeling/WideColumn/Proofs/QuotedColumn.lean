import WideColumn.Proofs.ColumnOptions
import WideColumn.Proofs.Parentheses
import WideColumn.Store.Match

/-!
# Quoted columns

A column may stand in quotes (`Expr.QuotedComparison`), with any text in them. The quoted text is
still a column token: it is read once more by `ColumnRef.parse`, which drops the blanks at either
end. Without brackets in it nothing else of it is lost (`ColumnRef.parse_of_no_bracket`), so the
comparison is about the column whose name is the text without the blanks around it
(`Expr.resolve_quoted`); it is the text itself exactly if there are none.
-/

namespace WideColumn

namespace Text

/-! ### What trimming leaves -/

theorem stops_dropWhile (p : Char → Bool) (cs : List Char) : Stops p (cs.dropWhile p) := by
  intro c hc
  have hnot := List.head?_dropWhile_not p cs
  rw [hc] at hnot
  simpa using hnot

theorem trimEnd_trim (cs : List Char) : trimEnd (trim cs) = trim cs := by
  have hlast : Stops isBlank (trim cs).reverse := by
    rw [trim, trimEnd, List.reverse_reverse]
    exact stops_dropWhile _ _
  exact trimEnd_eq_self hlast

theorem mem_of_mem_trim {cs : List Char} {c : Char} (h : c ∈ trim cs) : c ∈ cs := by
  rw [trim, trimEnd, List.mem_reverse] at h
  have hstart := List.mem_reverse.1 ((List.dropWhile_sublist _).mem h)
  exact (List.dropWhile_sublist _).mem hstart

/-- Trimming changes nothing exactly if there is no blank at either end. -/
theorem trim_eq_self_iff {cs : List Char} :
    trim cs = cs ↔ Stops isBlank cs ∧ Stops isBlank cs.reverse := by
  constructor
  · intro h
    -- Nothing is dropped at the start, for what is dropped there does not come back at the end.
    have hlen : cs.length ≤ (trimStart cs).length := by
      calc cs.length = (trim cs).length := by rw [h]
        _ = ((trimStart cs).reverse.dropWhile isBlank).length := List.length_reverse
        _ ≤ (trimStart cs).reverse.length := (List.dropWhile_sublist _).length_le
        _ = (trimStart cs).length := List.length_reverse
    have hstart : cs.dropWhile isBlank = cs := (List.dropWhile_sublist _).eq_of_length_le hlen
    have hend : cs.reverse.dropWhile isBlank = cs.reverse := by
      rw [trim, trimStart, hstart, trimEnd] at h
      rw [← List.reverse_reverse (cs.reverse.dropWhile isBlank), h]
    exact ⟨hstart ▸ stops_dropWhile _ _, hend ▸ stops_dropWhile _ _⟩
  · rintro ⟨hhead, hlast⟩
    have hstart : trimStart cs = cs := dropWhile_append blank_nil hhead
    rw [trim, hstart, trimEnd_eq_self hlast]

end Text

namespace ColumnRef

open Text

/-- A token without brackets is a name between blanks. -/
theorem parse_of_no_bracket {token : String} (h : ∀ c ∈ token.toList, isBracket c = false) :
    parse token =
      if (trim token.toList).isEmpty then .error .missingName
      else .ok ⟨String.ofList (trim token.toList), none⟩ := by
  have hall : ∀ c ∈ trim token.toList, (!isBracket c) = true := by
    intro c hc
    rw [h c (mem_of_mem_trim hc)]
    rfl
  have hsplit : splitToken token.toList = .ok (trim token.toList, none) := by
    simp only [splitToken, List.takeWhile_eq_self_iff.2 hall, List.dropWhile_eq_nil_iff.2 hall,
      trimEnd_trim]
  rw [parse, hsplit]
  rfl

end ColumnRef

namespace Token

open Text

/-- All characters are blanks between tokens. -/
def Spaces (cs : List Char) : Prop := ∀ c ∈ cs, isSpace c = true

theorem scan_spaces {bs : List Char} (h : Spaces bs) (k : List Char) : scan (bs ++ k) = scan k := by
  induction bs with
  | nil => rfl
  | cons c bs ih =>
    obtain ⟨hc, hbs⟩ := List.forall_mem_cons.1 h
    rw [List.cons_append, scan_cons, hc, if_pos rfl, ih hbs]

theorem scan_of_spaces {bs : List Char} (h : Spaces bs) : scan bs = .ok [] := by
  rw [← List.append_nil bs, scan_spaces h, scan]

theorem Spaces.ends {bs : List Char} (h : Spaces bs) : Ends bs :=
  fun c hc => .inl (h c (List.mem_of_mem_head? hc))

end Token

namespace Expr

open Text Token

/-! ### Comparisons of a quoted column with an integer -/

/-- A comparison of a column in quotes with an integer as it is written. -/
structure QuotedComparison where
  /-- What stands in the quotes. -/
  column : String
  /-- How to compare. -/
  comparator : Comparator
  /-- The integer. -/
  value : Int64
  /-- The kind of quote. -/
  quote : Char
  /-- Blanks in front of the column. -/
  before : List Char
  /-- Blanks between the column and the operator. -/
  between : List Char
  /-- Blanks between the operator and the integer. -/
  behind : List Char
  /-- Blanks behind the integer. -/
  after : List Char
  /-- There is no bracket in the quotes. -/
  brackets : ∀ c ∈ column.toList, ColumnRef.isBracket c = false
  /-- Quotes are single or double. -/
  quote_cases : quote = '"' ∨ quote = '\''
  /-- Only blanks stand around the parts. -/
  spaces : Spaces before ∧ Spaces between ∧ Spaces behind ∧ Spaces after

namespace QuotedComparison

variable (w : QuotedComparison)

/-- The column as a string literal: its quote and backslashes are escaped. -/
def literal : List Char := w.quote :: (w.column.toList.flatMap (escaped w.quote) ++ [w.quote])

/-- The text. -/
def text : String :=
  String.ofList (w.before ++ (w.literal ++ (w.between ++ ((Enumeration.symbol w.comparator).toList ++
    (w.behind ++ (Decimal.intText w.value.toInt ++ w.after))))))

/-- What the text stands for. -/
def comparison : Comparison := ⟨w.comparator, w.column, .literal (.integer w.value)⟩

/-- What stands in the quotes without the blanks around it. -/
def name : String := String.ofList (trim w.column.toList)

/-- The operator does not go on into what stands behind it. -/
theorem stops_integer :
    Stops isOperatorPart (w.behind ++ (Decimal.intText w.value.toInt ++ w.after)) := by
  cases hbehind : w.behind with
  | nil =>
    obtain ⟨c, cs, hcs, hc⟩ := Decimal.intText_eq_cons w.value.toInt
    rw [List.nil_append, hcs]
    refine stops_cons ?_ _
    rcases hc with hc | rfl
    · simp only [isOperatorPart, isDigit_ne hc (d := '=') rfl, isDigit_ne hc (d := '!') rfl,
        isDigit_ne hc (d := '<') rfl, isDigit_ne hc (d := '>') rfl, isDigit_ne hc (d := '~') rfl,
        Bool.or_self]
    · rfl
  | cons c bs =>
    have hc : isSpace c = true := w.spaces.2.2.1 c (by rw [hbehind]; exact List.mem_cons_self)
    exact stops_cons (isOperatorPart_of_isSpace hc) _

theorem scan_text :
    scan w.text.toList = .ok [.string w.column, .comparator w.comparator, .integer w.value] := by
  obtain ⟨hbefore, hbetween, hbehind, hafter⟩ := w.spaces
  have hliteral (k : List Char) : scan (w.literal ++ k) = (scan k).map (.string w.column :: ·) := by
    rw [← scan_quotedIn w.quote_cases, literal]
    simp
  have hdigits : scan (Decimal.intText w.value.toInt) = .ok [.integer w.value] := by
    simpa [scan, Except.map] using scan_integer w.value boundary_nil
  rw [text, String.toList_ofList, scan_spaces hbefore, hliteral, scan_spaces hbetween,
    scan_operator _ w.stops_integer, scan_spaces hbehind, scan_append hafter.ends hdigits,
    scan_of_spaces hafter]
  rfl

theorem ofText_text : ofText w.text = .ok (.compare w.comparison) := by
  refine ofText_eq_ok_iff.2 (parse_eq_ok_iff.2 ⟨_, w.scan_text, ?_⟩)
  exact .conjunction (.negation (.primary (.comparison w.comparator (.name (.string w.column)) (.integer w.value))))

/-- The filter of the comparison. -/
def filter : ColumnFilter where
  comparator := w.comparator
  column := w.name
  value := .integer w.value
  ignoreIfMissing := none
  latestVersionOnly := true
  extra := .empty

theorem resolve_eq (b : Bindings) :
    resolve b (.compare w.comparison) =
      if w.name = "" then .error (.invalidColumn w.column .missingName)
      else .ok (.single w.filter) := by
  have hparse := ColumnRef.parse_of_no_bracket w.brackets
  rw [resolve, resolveComparison, show w.comparison.column = w.column from rfl, hparse]
  by_cases hname : w.name = ""
  · have hnil : trim w.column.toList = [] := String.ofList_injective hname
    rw [if_pos hname, hnil]
    rfl
  · have hne : (trim w.column.toList).isEmpty = false := by
      rw [List.isEmpty_eq_false_iff]
      intro hnil
      exact hname (congrArg String.ofList hnil)
    rw [if_neg hname, hne]
    rfl

theorem accepts_filter (row : Row) :
    (Filter.single w.filter).accepts row =
      (row.value? w.name).all fun u => w.comparator.test u (.integer w.value) := by
  rw [Filter.accepts, ColumnFilter.accepts]
  cases h : row.value? w.name with
  | none => rw [show w.filter.column = w.name from rfl, h]; rfl
  | some u => rw [show w.filter.column = w.name from rfl, h]; rfl

/-- Of a row without other columns the latest cell of all is compared. -/
theorem accepts_of_only {row : Row} (hne : row.cells ≠ []) (h : ∀ c ∈ row.cells, c.column = w.name) :
    ∃ cell, Cell.latest? row.cells = some cell ∧
      (Filter.single w.filter).accepts row = w.comparator.test cell.value (.integer w.value) := by
  obtain ⟨c, cs, hcells⟩ := List.exists_cons_of_ne_nil hne
  have hfilter : row.cells.filter (·.column == w.name) = row.cells :=
    List.filter_eq_self.2 fun c hc => by rw [h c hc, beq_self_eq_true]
  refine ⟨cs.foldl Cell.later c, by rw [hcells, Cell.latest?], ?_⟩
  rw [w.accepts_filter, Row.value?, Row.cell?, hfilter, hcells, Cell.latest?]
  rfl

end QuotedComparison

/-- **A quoted column is named by what stands in the quotes, without the blanks around it.**  The
text of a comparison of a quoted column without brackets with an integer is accepted. If there is
more than blanks in the quotes, it resolves to a comparison with the column of that name, whatever
quotes, backslashes, line breaks or keywords are in it, and the name is all that stands in the
quotes exactly if there is no blank at either end. Otherwise the column is refused. -/
theorem resolve_quoted (w : QuotedComparison) :
    ofText w.text = .ok (.compare w.comparison) ∧
    (w.name = w.column ↔ Stops isBlank w.column.toList ∧ Stops isBlank w.column.toList.reverse) ∧
    (w.name = "" → ∀ b, resolve b (.compare w.comparison) =
      .error (.invalidColumn w.column .missingName)) ∧
    (w.name ≠ "" → ∃ f : ColumnFilter,
      (∀ b, resolve b (.compare w.comparison) = .ok (.single f)) ∧ f.column = w.name ∧
      (∀ row, (Filter.single f).accepts row =
        (row.value? w.name).all fun u => w.comparator.test u (.integer w.value)) ∧
      ∀ row : Row, row.cells ≠ [] → (∀ c ∈ row.cells, c.column = w.name) →
        ∃ cell, Cell.latest? row.cells = some cell ∧
          (Filter.single f).accepts row = w.comparator.test cell.value (.integer w.value)) := by
  refine ⟨w.ofText_text, ?_, fun hname b => ?_, fun hname => ?_⟩
  · rw [← trim_eq_self_iff, ← String.toList_inj, QuotedComparison.name, String.toList_ofList]
  · rw [w.resolve_eq, if_pos hname]
  · refine ⟨w.filter, fun b => ?_, rfl, w.accepts_filter, fun row => w.accepts_of_only⟩
    rw [w.resolve_eq, if_neg hname]

/-- A name with both kinds of quotes, a backslash and a line break in it. -/
def curious : QuotedComparison where
  column := "it's \"a\\b\"\nand"
  comparator := .less
  value := -5
  quote := '\''
  before := ['\n']
  between := []
  behind := []
  after := [' ']
  brackets := by simp [ColumnRef.isBracket]
  quote_cases := .inr rfl
  spaces := by simp [Spaces, isSpace]

theorem resolve_quoted_curious :
    curious.name ≠ "" ∧ curious.name = curious.column ∧
      ∃ f : ColumnFilter, (∀ b, resolve b (.compare curious.comparison) = .ok (.single f)) ∧
        f.column = curious.column := by
  obtain ⟨-, hname, -, hresolve⟩ := resolve_quoted curious
  have hself : curious.name = curious.column := hname.2 ⟨stops_cons rfl _, stops_cons rfl _⟩
  have hne : curious.name ≠ "" := by
    rw [hself]
    decide
  obtain ⟨f, hf, hcolumn, -⟩ := hresolve hne
  exact ⟨hne, hself, f, hf, hcolumn.trans hself⟩

/-- A name with a blank in front. -/
def padded : QuotedComparison where
  column := " a"
  comparator := .equal
  value := 1
  quote := '"'
  before := []
  between := [' ']
  behind := [' ']
  after := []
  brackets := by simp [ColumnRef.isBracket]
  quote_cases := .inl rfl
  spaces := by simp [Spaces, isSpace]

/-- Not every text in quotes is the name of the column that is compared. -/
theorem not_named_as_quoted :
    padded.text = "\" a\" == 1" ∧
    ¬ ∀ w : QuotedComparison, w.column ≠ "" → ∀ b, ∃ e f, ofText w.text = .ok e ∧
      e.resolve b = .ok (.single f) ∧ f.column = w.column := by
  refine ⟨rfl, fun h => ?_⟩
  obtain ⟨e, f, he, hf, hcolumn⟩ := h padded (by decide) .empty
  obtain rfl : .compare padded.comparison = e := Except.ok.inj (padded.ofText_text.symm.trans he)
  have hname : padded.name = "a" := rfl
  rw [padded.resolve_eq, hname, if_neg (by decide)] at hf
  cases hf
  exact absurd hcolumn (by decide)

end Expr

end WideColumn
