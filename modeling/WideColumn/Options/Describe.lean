import WideColumn.Options.Basic
import WideColumn.Json.Write

/-!
# Option values in messages

A message about an option that does not fit shows its value in full: a constructor with its
arguments in parentheses, a record with its fields in braces, lists in brackets.
-/

namespace WideColumn.Describe

/-! ### Shapes -/

/-- A constructor with arguments. -/
def tuple (name : String) (args : List String) : String :=
  name ++ "(" ++ ", ".intercalate args ++ ")"

/-- A record with its fields in order. -/
def record (name : String) (fields : List (String × String)) : String :=
  name ++ " \x7b " ++ ", ".intercalate (fields.map fun (k, v) => k ++ ": " ++ v) ++ " \x7d"

/-- A list. -/
def list (items : List String) : String := "[" ++ ", ".intercalate items ++ "]"

/-- A map; its keys are quoted. -/
def map (entries : List (String × String)) : String :=
  "\x7b" ++ ", ".intercalate (entries.map fun (k, v) => Text.quote k ++ ": " ++ v) ++ "\x7d"

/-- An optional value. -/
def optional (shown : α → String) : Option α → String
  | none => "None"
  | some a => tuple "Some" [shown a]

/-- A truth value. -/
def bool (b : Bool) : String := if b then "true" else "false"

/-- An integer. -/
def integer (n : Int64) : String := String.ofList (Decimal.intText n.toInt)

/-! ### Values -/

/-- A cell value. -/
def value : Value → String
  | .string s => tuple "String" [Text.quote s]
  | .integer n => tuple "Integer" [integer n]
  | .double x => tuple "Double" [Decimal.plain.text x]
  | .boolean b => tuple "Boolean" [bool b]
  | .binary bs => tuple "Binary" [Text.quoteBytes bs]

/-- A key value. -/
def keyValue : KeyValue → String
  | .string s => tuple "String" [Text.quote s]
  | .integer n => tuple "Integer" [integer n]
  | .binary bs => tuple "Binary" [Text.quoteBytes bs]
  | .infMin => "InfMin"
  | .infMax => "InfMax"
  | .autoIncrement => "AutoIncrement"

/-- A column of a primary key. -/
def keyColumn (c : KeyColumn) : String :=
  record "PrimaryKeyColumn" [("name", Text.quote c.name), ("value", keyValue c.value)]

/-- A primary key. -/
def key (k : Key) : String := list (k.map keyColumn)

/-- An operand of an update. -/
def operand (o : ColumnOperand) : String :=
  record "ColumnOperand" [("name", Text.quote o.column), ("value", optional value o.value),
    ("timestamp", optional integer o.version)]

mutual
/-- A JSON value. -/
def json : Json → String
  | .null => "Null"
  | .bool b => tuple "Bool" [bool b]
  | .integer n => tuple "Number" [String.ofList (Decimal.intText n)]
  | .real x => tuple "Number" [Json.numbers.text x]
  | .string s => tuple "String" [Text.quote s]
  | .array items => "Array " ++ list (jsonItems items)
  | .object members => "Object " ++ map (jsonMembers members)

/-- Every item of an array. -/
def jsonItems : List Json → List String
  | [] => []
  | x :: xs => json x :: jsonItems xs

/-- Every member of an object. -/
def jsonMembers : List (String × Json) → List (String × String)
  | [] => []
  | (k, x) :: ms => (k, json x) :: jsonMembers ms
end

/-! ### Filters and conditions -/

/-- A comparator. -/
def comparator : Comparator → String
  | .equal => "Equal"
  | .notEqual => "NotEqual"
  | .greater => "GreaterThan"
  | .greaterEqual => "GreaterEqual"
  | .less => "LessThan"
  | .lessEqual => "LessEqual"

/-- A connective. -/
def connective : Connective → String
  | .and => "And"
  | .or => "Or"
  | .not => "Not"

/-- An expectation on the existence of a row. -/
def rowExistence : RowExistence → String
  | .ignore => "Ignore"
  | .expectExist => "ExpectExist"
  | .expectNotExist => "ExpectNotExist"

/-- The comparison of a column. -/
def columnFilter (f : ColumnFilter) : String :=
  record "SingleColumnValueFilter" [("comparator", comparator f.comparator),
    ("column_name", Text.quote f.column), ("column_value", value f.value),
    ("ignore_if_missing", optional bool f.ignoreIfMissing),
    ("latest_version_only", bool f.latestVersionOnly),
    ("extra_options", map (f.extra.entries.map fun (k, v) => (k, value v)))]

mutual
/-- A filter. -/
def filter : Filter → String
  | .single f => tuple "Single" [columnFilter f]
  | .composite op parts =>
    tuple "Composite" [record "CompositeColumnValueFilter"
      [("combinator", connective op), ("sub_filters", list (filters parts))]]

/-- Every part of a combination. -/
def filters : List Filter → List String
  | [] => []
  | f :: fs => filter f :: filters fs
end

/-- A write condition. -/
def condition (c : Condition) : String :=
  record "Condition" [("row_existence", rowExistence c.existence),
    ("column_condition", optional filter c.filter)]

/-! ### Option values -/

mutual
/-- An option value. -/
def option : OptionValue → String
  | .absent => "Absent"
  | .bool b => tuple "Bool" [bool b]
  | .integer n => tuple "Integer" [integer n]
  | .double x => tuple "Double" [Decimal.plain.text x]
  | .string s => tuple "String" [Text.quote s]
  | .symbol s => tuple "Symbol" [Text.quote s]
  | .columns names => tuple "Columns" [list (names.map Text.quote)]
  | .pair a b => tuple "Pair" [integer a, integer b]
  | .list items => tuple "List" [list (options items)]
  | .map entries => tuple "Map" [map (optionEntries entries)]
  | .operands os => tuple "Operands" [list (os.map operand)]
  | .key k => tuple "PrimaryKey" [key k]
  | .condition c => tuple "Condition" [condition c]
  | .filter f => tuple "Filter" [filter f]
  | .bytes bs => tuple "Bytes" [Text.quoteBytes bs]
  | .json j => tuple "Json" [json j]

/-- Every item of a list. -/
def options : List OptionValue → List String
  | [] => []
  | x :: xs => option x :: options xs

/-- Every entry of a map. -/
def optionEntries : List (String × OptionValue) → List (String × String)
  | [] => []
  | (k, x) :: xs => (k, option x) :: optionEntries xs
end

/-- A value where a word was expected: the word itself, or the value in full. -/
def wordOrValue (v : OptionValue) : String := v.word?.getD (option v)

/-- A value with the name of its shape in front. -/
def kindAndValue (v : OptionValue) : String := v.kind ++ " " ++ option v

end WideColumn.Describe
