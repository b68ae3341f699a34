import WideColumn.Enumeration
import WideColumn.Json.Basic
import WideColumn.Text.Base64
import WideColumn.Decimal.Layout
import WideColumn.Decimal.Nearest

/-!
# Reading and writing records

`Wire α` writes values of `α` as JSON and reads them back. A record is written as an object of its
fields. It is read from an object, whose other members are ignored, or from an array of all its
fields in order; `Fields` describes how its fields are read in either case.

A reader meets the members of an object one after the other, and the first that cannot be read is
the fault reported; a member that is missing is noticed at the end.
-/

namespace WideColumn

/-- Why JSON is not read as a record. -/
inductive DecodeFault where
  /-- A cell value without a type. -/
  | emptyValue
  /-- A key value without a type. -/
  | emptyKeyValue
  /-- JSON of another form. -/
  | mismatch
deriving DecidableEq, Inhabited

/-- The fault in words, where there are words for it. -/
def DecodeFault.text? : DecodeFault → Option String
  | emptyValue => some "column value must have exactly one key"
  | emptyKeyValue => some "primary key value must have exactly one key"
  | mismatch => none

/-- Types that are written as JSON and read back. -/
class Wire (α : Type) where
  /-- Write a value. -/
  encode : α → Json
  /-- Read a value. -/
  decode : Json → Except DecodeFault α

export Wire (encode decode)

/-! ### Plain values -/

/-- A result that is there, or a mismatch. -/
def DecodeFault.ofOption {α : Type} : Option α → Except DecodeFault α
  | some a => .ok a
  | none => .error .mismatch

instance : Wire Json where
  encode j := j
  decode j := .ok j.sorted

instance : Wire String where
  encode s := .string s
  decode
    | .string s => .ok s
    | _ => .error .mismatch

instance : Wire Bool where
  encode b := .bool b
  decode
    | .bool b => .ok b
    | _ => .error .mismatch

instance : Wire Int64 where
  encode n := .integer n.toInt
  decode
    | .integer n => DecodeFault.ofOption (Decimal.toInt64? n)
    | _ => .error .mismatch

instance : Wire UInt64 where
  encode n := .integer n.toNat
  decode
    | .integer n => if 0 ≤ n ∧ n < UInt64.size then .ok (UInt64.ofNat n.toNat) else .error .mismatch
    | _ => .error .mismatch

/-- A double that is no number is written as null and cannot be read back. -/
instance : Wire Float where
  encode x := if Decimal.isFinite x then .real x else .null
  decode
    | .real x => .ok x
    | .integer n => .ok (Decimal.nearest (n < 0) n.natAbs 1)
    | _ => .error .mismatch

/-- The byte of a number. -/
def byteOfJson : Json → Except DecodeFault UInt8
  | .integer n => if 0 ≤ n ∧ n < 256 then .ok (UInt8.ofNat n.toNat) else .error .mismatch
  | _ => .error .mismatch

/-- Bytes are written as numbers; a string is read as the bytes of its text. -/
instance : Wire Bytes where
  encode bs := .array (bs.map fun b => .integer b.toNat)
  decode
    | .array items => items.mapM byteOfJson
    | .string s => .ok s.toUTF8.toList
    | _ => .error .mismatch

/-- Read the items of an array. -/
def decodeItems {α : Type} (item : Json → Except DecodeFault α) : Json → Except DecodeFault (List α)
  | .array items => items.mapM item
  | _ => .error .mismatch

instance {α : Type} [Wire α] : Wire (List α) where
  encode xs := .array (xs.map encode)
  decode := decodeItems decode

/-- A member of an enumeration is written as its name; it is also read from an object that has
the name as its only member, with the value null. -/
def decodeName {α : Type} [Enumeration α] : Json → Except DecodeFault α
  | .string s => DecodeFault.ofOption (Enumeration.ofName? s)
  | .object [(s, .null)] => DecodeFault.ofOption (Enumeration.ofName? s)
  | _ => .error .mismatch

/-- The codec of an enumeration. -/
@[reducible] def Wire.ofEnumeration (α : Type) [Enumeration α] : Wire α where
  encode a := .string (Enumeration.name a)
  decode := decodeName

instance {α : Type} [Wire α] : Wire (SortedMap String α) where
  encode m := .object (m.entries.map fun e => (e.1, encode e.2))
  decode
    | .object members => do
      let entries ← members.mapM fun (k, j) => do return (k, ← decode j)
      return SortedMap.ofList entries
    | _ => .error .mismatch

/-! ### Writing fields -/

/-- A field that is always written. -/
def field {α : Type} [Wire α] (name : String) (a : α) : List (String × Json) := [(name, encode a)]

/-- A field that is written if it is set. -/
def optionalField {α : Type} [Wire α] (name : String) : Option α → List (String × Json)
  | some a => [(name, encode a)]
  | none => []

/-- A list that is written unless it is empty. -/
def listField {α : Type} [Wire (List α)] (name : String) (xs : List α) : List (String × Json) :=
  if xs.isEmpty then [] else [(name, encode xs)]

/-! ### Reading fields -/

/-- What fields are read from. -/
inductive FieldSource where
  /-- The members of an object. -/
  | members (ms : List (String × Json))
  /-- The items of an array, one per field. -/
  | items (xs : List Json)

/-- A fault and where a reader meets it. -/
structure FieldFault where
  /-- How many members come before it. -/
  position : Nat
  /-- The fault. -/
  fault : DecodeFault

/-- What a source has for a field. -/
inductive FieldSource.Found where
  /-- Nothing. -/
  | missing
  /-- A member of the same name for the second time. -/
  | twice (position : Nat)
  /-- A value. -/
  | present (position : Nat) (j : Json)

namespace FieldSource

/-- Number of members or items. -/
def size : FieldSource → Nat
  | members ms => ms.length
  | items xs => xs.length

/-- What there is for the field `name`, which is the `i`-th of its record. -/
def find (s : FieldSource) (name : String) (i : Nat) : Found :=
  match s with
  | items xs =>
    match xs[i]? with
    | none => .missing
    | some j => .present i j
  | members ms =>
    match ms.findIdx? fun m => m.1 == name with
    | none => .missing
    | some p =>
      match (ms.drop (p + 1)).findIdx? fun m => m.1 == name with
      | some q => .twice (p + 1 + q)
      | none => .present p ((ms.lookup name).getD .null)

end FieldSource

/-- How some fields of a record are read, and how many they are. -/
structure Fields (α : Type) where
  /-- Number of fields. -/
  count : Nat
  /-- Read them, the first being the `i`-th of the record. -/
  read : FieldSource → Nat → Except FieldFault α

namespace Fields

/-- Read fields one after the other; of two faults the one met first counts. -/
def seq {α β : Type} (f : Fields (α → β)) (x : Fields α) : Fields β where
  count := f.count + x.count
  read s i :=
    match f.read s i, x.read s (i + f.count) with
    | .ok g, .ok a => .ok (g a)
    | .error e, .ok _ => .error e
    | .ok _, .error e => .error e
    | .error e, .error e' => .error (if e'.position < e.position then e' else e)

instance : Applicative Fields where
  pure a := ⟨0, fun _ _ => .ok a⟩
  seq f x := seq f (x ())

/-- Read a value found for a field, or fall back where there is none. -/
def ofFound {α : Type} (s : FieldSource) (item : Json → Except DecodeFault α)
    (missing : Except DecodeFault α) : FieldSource.Found → Except FieldFault α
  | .missing => missing.mapError (⟨s.size, ·⟩)
  | .twice p => .error ⟨p, .mismatch⟩
  | .present p j => (item j).mapError (⟨p, ·⟩)

/-- A field that has to be there. -/
def required {α : Type} [Wire α] (name : String) : Fields α :=
  ⟨1, fun s i => ofFound s decode (.error .mismatch) (s.find name i)⟩

/-- A field that may be null, and in an object missing. -/
def optional {α : Type} [Wire α] (name : String) : Fields (Option α) :=
  let item : Json → Except DecodeFault (Option α)
    | .null => .ok none
    | j => (decode j).map some
  ⟨1, fun s i =>
    let missing := match s with
      | .members _ => .ok none
      | .items _ => .error .mismatch
    ofFound s item missing (s.find name i)⟩

/-- A field with a value that it has when it is missing. -/
def orElse {α : Type} [Wire α] (name : String) (default : α) : Fields α :=
  ⟨1, fun s i => ofFound s decode (.ok default) (s.find name i)⟩

/-- Read a record from an object, or from an array with no more items than fields. -/
def decode {α : Type} (f : Fields α) : Json → Except DecodeFault α
  | .object ms => (f.read (.members ms) 0).mapError (·.fault)
  | .array xs =>
    match f.read (.items xs) 0 with
    | .error e => .error e.fault
    | .ok a => if f.count < xs.length then .error .mismatch else .ok a
  | _ => .error .mismatch

end Fields

end WideColumn
