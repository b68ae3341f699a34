/-!
# Enumerations with names

Records write a member of an enumeration as its name; callers write it as a symbol. Reading goes
through the list of members, so whatever is written can be read.
-/

namespace WideColumn

/-- A finite type whose members have a name in records and a symbol in options and filters. -/
class Enumeration (α : Type) where
  /-- All members in order. -/
  members : List α
  /-- The name used in records. -/
  name : α → String
  /-- The symbol used by callers. -/
  symbol : α → String := name

namespace Enumeration

variable {α : Type} [Enumeration α]

/-- The member of a name. -/
def ofName? (s : String) : Option α := members.find? fun a => name a == s

/-- The member of a symbol. -/
def ofSymbol? (s : String) : Option α := members.find? fun a => symbol a == s

end Enumeration

end WideColumn
