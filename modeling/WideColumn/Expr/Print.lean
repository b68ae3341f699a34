import WideColumn.Expr.Basic

/-!
# Writing filter text

The text of an expression. Combinations stand in parentheses, so that reading the text needs no
precedence; a column token is quoted unless it is a name with at most an option block behind it.
Binary values and doubles that are no numbers have no literal and are shown in angle brackets.
-/

namespace WideColumn.Expr

/-- Whether some characters are a name. -/
def isName : List Char → Bool
  | [] => false
  | c :: cs => (c.isAlpha || c == '_') && cs.all fun d => d.isAlphanum || d == '_'

/-- Whether a column token can stand unquoted: a name, and behind it nothing or an option block
that reaches to the end. -/
def isPlainColumn (cs : List Char) : Bool :=
  isName (cs.takeWhile (· != '[')) &&
    ((cs.dropWhile (· != '[')).isEmpty || cs.getLast? == some ']')

/-- A string literal: quotes and backslashes are escaped, all else stands for itself. -/
def quoted (s : String) : List Char :=
  '"' :: (s.toList.flatMap fun c => if c == '"' || c == '\\' then ['\\', c] else [c]) ++ ['"']

/-- The characters of a column token. -/
def writeColumn (column : String) : List Char :=
  if isPlainColumn column.toList then column.toList else quoted column

/-- The characters of an operand. -/
def writeOperand : Operand → List Char
  | .binding name => name.toList
  | .literal (.string s) => quoted s
  | .literal (.integer n) => Decimal.intText n.toInt
  | .literal (.boolean b) => (if b then "true" else "false").toList
  | .literal (.double x) =>
    if Decimal.isFinite x then (Decimal.plain.text x).toList
    else '<' :: (Decimal.plain.text x).toList ++ ['>']
  | .literal (.binary bs) => s!"<binary {bs.length} bytes>".toList

/-- The characters of a comparison. -/
def writeComparison (c : Comparison) : List Char :=
  writeColumn c.column ++ ' ' :: (Enumeration.symbol c.comparator).toList ++
    ' ' :: writeOperand c.operand

/-- What stands before the parts of a combination. -/
def opening : Connective → List Char
  | .not => "not (".toList
  | _ => ['(']

/-- What stands between the parts of a combination. -/
def separator : Connective → List Char
  | .and => " and ".toList
  | .or => " or ".toList
  | .not => ", ".toList

mutual
/-- The characters of an expression. -/
def write : Expr → List Char
  | .compare c => writeComparison c
  | .combine op [] => opening op ++ [')']
  | .combine op (e :: es) => opening op ++ (write e ++ writeRest op es)

/-- The parts of a combination after the first, and its end. -/
def writeRest (op : Connective) : List Expr → List Char
  | [] => [')']
  | e :: es => separator op ++ (write e ++ writeRest op es)
end

/-- The text of an expression. -/
def text (e : Expr) : String := String.ofList e.write

/-- The text of a comparison. -/
def comparisonText (c : Comparison) : String := String.ofList (writeComparison c)

end WideColumn.Expr
