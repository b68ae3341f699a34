import WideColumn.SortedMap

/-!
# JSON values

Integers and other numbers are kept apart. An object is the list of its members in the order in
which they were written, a name possibly written twice; `Json.sorted` is the form in which members
are in name order and the last of equal names stays.
-/

namespace WideColumn

/-- A JSON value. -/
inductive Json where
  /-- The null value. -/
  | null
  /-- A truth value. -/
  | bool (b : Bool)
  /-- A number written without fraction and exponent. -/
  | integer (n : Int)
  /-- Any other number. -/
  | real (x : Float)
  /-- A string. -/
  | string (s : String)
  /-- An array. -/
  | array (items : List Json)
  /-- An object. -/
  | object (members : List (String × Json))

namespace Json

instance : Inhabited Json := ⟨.null⟩

mutual
/-- Equality of values; numbers are compared as numbers, members in their order. -/
def equal : Json → Json → Bool
  | .null, .null => true
  | .bool a, .bool b => a == b
  | .integer m, .integer n => m == n
  | .real x, .real y => x == y
  | .string s, .string t => s == t
  | .array xs, .array ys => equalItems xs ys
  | .object ms, .object ns => equalMembers ms ns
  | _, _ => false

/-- Equality item by item. -/
def equalItems : List Json → List Json → Bool
  | [], [] => true
  | x :: xs, y :: ys => equal x y && equalItems xs ys
  | _, _ => false

/-- Equality member by member. -/
def equalMembers : List (String × Json) → List (String × Json) → Bool
  | [], [] => true
  | (j, x) :: ms, (k, y) :: ns => j == k && equal x y && equalMembers ms ns
  | _, _ => false
end

instance : BEq Json := ⟨equal⟩

mutual
/-- Members of all objects in name order, of equal names the last. -/
def sorted : Json → Json
  | .array items => .array (sortedItems items)
  | .object members => .object (sortedMembers members)
  | j => j

/-- Every item sorted. -/
def sortedItems : List Json → List Json
  | [] => []
  | x :: xs => sorted x :: sortedItems xs

/-- Every member sorted and put at its place, unless a later one has its name. -/
def sortedMembers : List (String × Json) → List (String × Json)
  | [] => []
  | (k, x) :: rest =>
    let later := sortedMembers rest
    if (SortedMap.lookup k later).isSome then later
    else SortedMap.insertEntry k (sorted x) later
end

/-- The members of an object; other values have none. -/
def members : Json → List (String × Json)
  | .object ms => ms
  | _ => []

/-- The value of a member of an object. -/
def member? (j : Json) (name : String) : Option Json := j.members.lookup name

/-- The text of a string value. -/
def text? : Json → Option String
  | .string s => some s
  | _ => none

end Json

end WideColumn
