import WideColumn.Filter
import WideColumn.Update
import WideColumn.Json.Basic

/-!
# Request options

Callers hand options to a request as an ordered list of keys and loosely shaped values. The value
`absent` stands for an option that was mentioned without a value.
-/

namespace WideColumn

/-- The value of an option. -/
inductive OptionValue where
  /-- Mentioned without a value. -/
  | absent
  /-- A truth value. -/
  | bool (b : Bool)
  /-- An integer. -/
  | integer (n : Int64)
  /-- A double. -/
  | double (x : Float)
  /-- Text. -/
  | string (s : String)
  /-- One of a fixed set of words. -/
  | symbol (s : String)
  /-- Column names. -/
  | columns (names : List String)
  /-- A pair of integers. -/
  | pair (a b : Int64)
  /-- A list of values. -/
  | list (items : List OptionValue)
  /-- Values by key, in key order. -/
  | map (entries : List (String × OptionValue))
  /-- Operands of an update. -/
  | operands (os : List ColumnOperand)
  /-- A primary key. -/
  | key (k : Key)
  /-- A write condition. -/
  | condition (c : Condition)
  /-- A filter. -/
  | filter (f : Filter)
  /-- Bytes. -/
  | bytes (bs : Bytes)
  /-- JSON, handed on as it is. -/
  | json (j : Json)

namespace OptionValue

instance : Inhabited OptionValue := ⟨.absent⟩

mutual
/-- Equality of values; doubles are compared as numbers. -/
def equal : OptionValue → OptionValue → Bool
  | .absent, .absent => true
  | .bool a, .bool b => a == b
  | .integer m, .integer n => m == n
  | .double x, .double y => x == y
  | .string s, .string t => s == t
  | .symbol s, .symbol t => s == t
  | .columns xs, .columns ys => xs == ys
  | .pair a b, .pair c d => a == c && b == d
  | .list xs, .list ys => equalItems xs ys
  | .map xs, .map ys => equalEntries xs ys
  | .operands xs, .operands ys => xs == ys
  | .key j, .key k => j == k
  | .condition c, .condition d => c == d
  | .filter f, .filter g => f == g
  | .bytes xs, .bytes ys => xs == ys
  | .json i, .json j => i == j
  | _, _ => false

/-- Equality item by item. -/
def equalItems : List OptionValue → List OptionValue → Bool
  | [], [] => true
  | x :: xs, y :: ys => equal x y && equalItems xs ys
  | _, _ => false

/-- Equality entry by entry. -/
def equalEntries : List (String × OptionValue) → List (String × OptionValue) → Bool
  | [], [] => true
  | (j, x) :: xs, (k, y) :: ys => j == k && equal x y && equalEntries xs ys
  | _, _ => false
end

instance : BEq OptionValue := ⟨equal⟩

/-- The map of some entries; of entries with one key the last counts. -/
def ofEntries (entries : List (String × OptionValue)) : OptionValue :=
  .map (SortedMap.ofList entries).entries

/-- Whether the value is absent. -/
def isAbsent : OptionValue → Bool
  | absent => true
  | _ => false

/-- The name of the value's shape. -/
def kind : OptionValue → String
  | absent => "absent"
  | bool _ => "bool"
  | integer _ => "integer"
  | double _ => "double"
  | string _ => "string"
  | symbol _ => "symbol"
  | columns _ => "columns"
  | pair .. => "pair"
  | list _ => "list"
  | map _ => "map"
  | operands _ => "operands"
  | key _ => "primary_key"
  | condition _ => "condition"
  | filter _ => "filter"
  | bytes _ => "bytes"
  | json _ => "json"

/-- The text of a symbol or a string. -/
def word? : OptionValue → Option String
  | symbol s => some s
  | string s => some s
  | _ => none

end OptionValue

/-- An ordered list of options. -/
structure OptionList where
  /-- The options in order; a key may occur several times. -/
  entries : List (String × OptionValue) := []
deriving BEq, Inhabited

namespace OptionList

/-- Number of options. -/
def size (os : OptionList) : Nat := os.entries.length

/-- Whether there is no option. -/
def isEmpty (os : OptionList) : Bool := os.entries.isEmpty

/-- Add an option at the end. -/
def push (os : OptionList) (key : String) (value : OptionValue) : OptionList :=
  ⟨os.entries ++ [(key, value)]⟩

/-- The last value given for a key. -/
def get? (os : OptionList) (key : String) : Option OptionValue :=
  (os.entries.reverse.find? fun e => e.1 == key).map (·.2)

end OptionList

end WideColumn
