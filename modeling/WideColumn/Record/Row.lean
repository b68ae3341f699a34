import WideColumn.Record.Codec
import WideColumn.Filter
import WideColumn.Update

/-!
# Records of values, rows and filters

A value is an object whose only member names its type. Filters nest, and reading one is bounded
by the depth of its JSON.
-/

namespace WideColumn

/-! ### Values -/

/-- Read a value that is written as an object with one member; without any, `empty` is the fault. -/
def decodeTagged {α : Type} (empty : DecodeFault) (read : String → Json → Except DecodeFault α) :
    Json → Except DecodeFault α
  | .object [] => .error empty
  | .object [(tag, j)] => read tag j
  | .object ((tag, j) :: _) =>
    match read tag j with
    | .error e => .error e
    | .ok _ => .error .mismatch
  | _ => .error .mismatch

/-- Read bytes written in base 64. -/
def decodeBinary (j : Json) : Except DecodeFault Bytes := do
  let s : String ← decode j
  DecodeFault.ofOption (Base64.decode? s)

namespace Value

/-- Read a value of a named type. -/
def ofTag (tag : String) (j : Json) : Except DecodeFault Value :=
  match tag with
  | "STRING" => (decode j).map string
  | "INTEGER" => (decode j).map integer
  | "DOUBLE" => (decode j).map double
  | "BOOLEAN" => (decode j).map boolean
  | "BINARY" => (decodeBinary j).map binary
  | _ => .error .mismatch

/-- What a value holds. -/
def payload : Value → Json
  | string s => encode s
  | integer n => encode n
  | double x => encode x
  | boolean b => encode b
  | binary bs => encode (Base64.encode bs)

instance : Wire Value where
  encode v := .object [(v.typeName, v.payload)]
  decode := decodeTagged .emptyValue ofTag

end Value

namespace KeyValue

/-- Read a key value of a named type. What a sentinel holds is not looked at. -/
def ofTag (tag : String) (j : Json) : Except DecodeFault KeyValue :=
  match tag with
  | "STRING" => (decode j).map string
  | "INTEGER" => (decode j).map integer
  | "BINARY" => (decodeBinary j).map binary
  | "INF_MIN" => .ok infMin
  | "INF_MAX" => .ok infMax
  | "AUTO_INCREMENT" => .ok autoIncrement
  | _ => .error .mismatch

/-- The name of a key value's type and what it holds. -/
def tagged : KeyValue → String × Json
  | string s => ("STRING", encode s)
  | integer n => ("INTEGER", encode n)
  | binary bs => ("BINARY", encode (Base64.encode bs))
  | infMin => ("INF_MIN", encode true)
  | infMax => ("INF_MAX", encode true)
  | autoIncrement => ("AUTO_INCREMENT", encode true)

instance : Wire KeyValue where
  encode v := .object [v.tagged]
  decode := decodeTagged .emptyKeyValue ofTag

end KeyValue

/-! ### Rows -/

instance : Wire KeyColumn where
  encode c := .object (field "Name" c.name ++ field "Value" c.value)
  decode := (KeyColumn.mk <$> .required "Name" <*> .required "Value" : Fields KeyColumn).decode

instance : Wire Cell where
  encode c := .object (field "Name" c.column ++ field "Value" c.value ++
    optionalField "Timestamp" c.version)
  decode := (Cell.mk <$> .required "Name" <*> .required "Value" <*> .optional "Timestamp" :
    Fields Cell).decode

instance : Wire Row where
  encode r := .object (field "PrimaryKey" r.key ++ listField "Attributes" r.cells)
  decode := (Row.mk <$> .required "PrimaryKey" <*> .orElse "Attributes" [] : Fields Row).decode

/-! ### Updates -/

instance : Wire ColumnOperand where
  encode o := .object (field "Name" o.column ++ optionalField "Value" o.value ++
    optionalField "Timestamp" o.version)
  decode := (ColumnOperand.mk <$> .required "Name" <*> .optional "Value" <*>
    .optional "Timestamp" : Fields ColumnOperand).decode

namespace UpdateSet

/-- Add the operands of one member to an update set. -/
def addMember (u : UpdateSet) (m : String × Json) : Except DecodeFault UpdateSet := do
  let kind ← DecodeFault.ofOption (Enumeration.ofName? m.1)
  return u.set kind (← decode m.2)

instance : Wire UpdateSet where
  encode u := .object (u.toList.map fun e => (Enumeration.name e.1, encode e.2))
  decode
    | .object members => members.foldlM addMember {}
    | _ => .error .mismatch

end UpdateSet

/-! ### Filters -/

instance : Wire RowExistence := .ofEnumeration _
instance : Wire ReturnType := .ofEnumeration _
instance : Wire Direction := .ofEnumeration _
instance : Wire Comparator := .ofEnumeration _
instance : Wire Connective := .ofEnumeration _
instance : Wire WriteKind := .ofEnumeration _

instance : Wire ColumnFilter where
  encode f := .object (field "Comparator" f.comparator ++ field "ColumnName" f.column ++
    field "ColumnValue" f.value ++ optionalField "IgnoreIfMissing" f.ignoreIfMissing ++
    field "LatestVersionOnly" f.latestVersionOnly ++
    if f.extra.isEmpty then [] else field "ExtraOptions" f.extra)
  decode := (ColumnFilter.mk <$> .required "Comparator" <*> .required "ColumnName" <*>
    .required "ColumnValue" <*> .optional "IgnoreIfMissing" <*> .required "LatestVersionOnly" <*>
    .orElse "ExtraOptions" .empty : Fields ColumnFilter).decode

mutual
/-- How deep arrays and objects nest in a value. -/
def Json.depth : Json → Nat
  | .array items => depthOfItems items + 1
  | .object members => depthOfMembers members + 1
  | _ => 0

/-- The greatest depth of some items. -/
def Json.depthOfItems : List Json → Nat
  | [] => 0
  | x :: xs => max x.depth (depthOfItems xs)

/-- The greatest depth of some members. -/
def Json.depthOfMembers : List (String × Json) → Nat
  | [] => 0
  | (_, x) :: ms => max x.depth (depthOfMembers ms)
end

/-- A combination: its connective and its parts. -/
structure Combination (α : Type) where
  /-- The connective. -/
  op : Connective
  /-- The parts. -/
  parts : List α

/-- The codec of a combination, given that of its parts. -/
@[reducible] def Combination.wire {α : Type} [Wire α] : Wire (Combination α) where
  encode c := .object (field "Combinator" c.op ++ field "SubFilters" c.parts)
  decode := (Combination.mk <$> .required "Combinator" <*> .required "SubFilters" :
    Fields (Combination α)).decode

namespace Filter

mutual
/-- Write a filter: an object whose only member says which kind it is. -/
def toJson : Filter → Json
  | .single f => .object [("Single", encode f)]
  | .composite op parts =>
    .object [("Composite",
      .object (field "Combinator" op ++ [("SubFilters", .array (partsToJson parts))]))]

/-- Write the parts of a combination. -/
def partsToJson : List Filter → List Json
  | [] => []
  | f :: fs => toJson f :: partsToJson fs
end

/-- Read a filter whose JSON nests at most this deep. -/
def ofJson : Nat → Json → Except DecodeFault Filter
  | _, .object [("Single", j)] => (decode j).map single
  | n + 1, .object [("Composite", j)] =>
    let _ : Wire Filter := ⟨toJson, ofJson n⟩
    (Combination.wire.decode j).map fun c => composite c.op c.parts
  | _, _ => .error .mismatch

instance : Wire Filter where
  encode := toJson
  decode j := ofJson j.depth j

end Filter

/-- The comparison and the combination of a filter are records of their own. -/
instance : Wire (Combination Filter) := Combination.wire

instance : Wire Condition where
  encode c := .object (field "RowExistence" c.existence ++ optionalField "ColumnCondition" c.filter)
  decode := (Condition.mk <$> .required "RowExistence" <*> .optional "ColumnCondition" :
    Fields Condition).decode

end WideColumn
