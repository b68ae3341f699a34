import WideColumn.Error
import WideColumn.Expr.Resolve
import WideColumn.Json.Read
import WideColumn.Record.Schema

/-!
# Shapes of option values

What the value of an option has to look like for the field that it sets, and what is made of it.
Each reader takes the key of the option too, which the error names.
-/

namespace WideColumn.Shape

/-- A text: a string or a symbol. -/
def text (key : String) (v : OptionValue) : Except Error String :=
  match v.word? with
  | some s => .ok s
  | none => .error (.invalidOption key v)

/-- An integer. -/
def integer (key : String) : OptionValue → Except Error Int64
  | .integer n => .ok n
  | v => .error (.invalidOption key v)

/-- A truth value. -/
def flag (key : String) : OptionValue → Except Error Bool
  | .bool b => .ok b
  | v => .error (.invalidOption key v)

/-- Column names: a list of names, a list of texts, or one text. -/
def columns (key : String) : OptionValue → Except Error (List String)
  | .columns names => .ok names
  | .list items => items.mapM (text key)
  | .string s => .ok [s]
  | .symbol s => .ok [s]
  | v => .error (.invalidOption key v)

/-- A filter. -/
def filter (key : String) : OptionValue → Except Error Filter
  | .filter f => .ok f
  | v => .error (.invalidOption key v)

/-- A write condition, or a word about the existence of the row. -/
def condition (key : String) : OptionValue → Except Error Condition
  | .condition c => .ok c
  | .string s => Condition.ofWord s
  | .symbol s => Condition.ofWord s
  | v => .error (.invalidOption key v)

/-- A primary key. -/
def primaryKey (key : String) : OptionValue → Except Error Key
  | .key k => .ok k
  | v => .error (.invalidOption key v)

/-- A list of primary keys, or one. -/
def primaryKeys (key : String) : OptionValue → Except Error (List Key)
  | .key k => .ok [k]
  | .list items => items.mapM (primaryKey key)
  | v => .error (.invalidOption key v)

/-- JSON, or a text that holds JSON. -/
def json (key : String) (v : OptionValue) : Except Error Json :=
  match v with
  | .json j => .ok j
  | .string s =>
    match Json.parse? s with
    | some j => .ok j.sorted
    | none => .error (.invalidOption key v)
  | _ => .error (.invalidOption key v)

/-- Records given as JSON. -/
def records {α : Type} [Wire α] (key : String) (v : OptionValue) : Except Error (List α) := do
  let j ← json key v
  (decode j : Except DecodeFault (List α)).mapError fun _ => .invalidOption key v

/-- The word for what a write returns. -/
def returnType (v : OptionValue) : Except Error ReturnType :=
  match v.word?.bind Enumeration.ofSymbol? with
  | some t => .ok t
  | none => .error (.invalidReturnType v)

/-- The word for a direction. -/
def direction (v : OptionValue) : Except Error Direction :=
  match v.word?.bind Enumeration.ofSymbol? with
  | some d => .ok d
  | none => .error (.invalidDirection v)

/-- The hours that a stream keeps its records, if said. -/
def expiration? : Option OptionValue → Option (Option Int64)
  | none => some none
  | some .absent => some none
  | some (.integer n) => some (some n)
  | some _ => none

/-- A change stream: a map with `is_enabled` and, possibly, `expiration_time`. -/
def streamSpec (key : String) (v : OptionValue) : Except Error StreamSpec :=
  match v with
  | .map entries =>
    if entries.any fun e => e.1 != "is_enabled" && e.1 != "expiration_time" then
      .error (.invalidOption key v)
    else
      match entries.lookup "is_enabled", expiration? (entries.lookup "expiration_time") with
      | some (.bool b), some hours => .ok ⟨b, hours⟩
      | _, _ => .error (.invalidOption key v)
  | _ => .error (.invalidOption key v)

/-- A time range: one instant, or a pair of them. -/
def timeRange (v : OptionValue) : Except Error TimeRange :=
  match v with
  | .integer t => .ok (.specific t)
  | .pair a b => .ok (.between a b)
  | .list [.integer a, .integer b] => .ok (.between a b)
  | _ => .error (.invalidTimeRange v)

end WideColumn.Shape
