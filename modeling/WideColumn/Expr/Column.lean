import WideColumn.SortedMap
import WideColumn.Value
import WideColumn.Decimal.Nearest
import WideColumn.Text.Blank

/-!
# Column tokens

A column token is a name with, possibly, a block of options in brackets behind it:
`name[key: value, ...]`. Values are strings in either kind of quotes, truth values, integers,
doubles with a point, or bare words. `ColumnRef.parse` reads a token; the options
`ignore_if_missing` and `latest_version_only` have to be truth values.
-/

namespace WideColumn

/-- A column with the options given for it. -/
structure ColumnRef where
  /-- Column name. -/
  name : String
  /-- The options, if there was a block. -/
  options : Option (SortedMap String Value)

/-- Why a column token is refused. -/
inductive ColumnFault where
  /-- The brackets do not form one block at the end. -/
  | unbalanced
  /-- There is no name. -/
  | missingName
  /-- An option without a colon. -/
  | noValue (entry : String)
  /-- An option key that is no name. -/
  | invalidKey (key : String)
  /-- An option without a value behind the colon. -/
  | emptyValue
  /-- An option value that cannot be read. -/
  | invalidValue (raw : String)
  /-- A flag that is no truth value. -/
  | notBoolean (key : String) (value : Value)
deriving BEq, Inhabited

/-- The fault as shown in messages. -/
def ColumnFault.text : ColumnFault → String
  | unbalanced => "unbalanced option block"
  | missingName => "missing column name"
  | noValue entry => s!"option '{entry}' has no value"
  | invalidKey key => s!"invalid option key '{key}'"
  | emptyValue => "empty option value"
  | invalidValue raw => s!"invalid option value '{raw}'"
  | notBoolean key value => s!"option '{key}' must be a boolean, got {value.text}"

namespace ColumnRef

/-- The option that says whether rows without the column pass. -/
def ignoreIfMissing : String := "ignore_if_missing"

/-- The option that says whether only the latest version is compared. -/
def latestVersionOnly : String := "latest_version_only"

/-- Whether an option is a flag. -/
def isFlag (key : String) : Bool := key == ignoreIfMissing || key == latestVersionOnly

/-- The value of a boolean option. -/
def flag? (c : ColumnRef) (key : String) : Option Bool := do
  (← (← c.options).get? key).boolean?

/-- The options that are no flags. -/
def extraOptions (c : ColumnRef) : SortedMap String Value :=
  match c.options with
  | none => .empty
  | some options => (options.erase ignoreIfMissing).erase latestVersionOnly

/-- Whether some characters are an option key. -/
def isKey : List Char → Bool
  | [] => false
  | c :: cs => (c.isAlpha || c == '_') && cs.all fun d => d.isAlphanum || d == '_'

/-! ### Option values -/

/-- What stands between a quote and the same quote at the end. -/
def unquote? (quote : Char) : List Char → Option (List Char)
  | [] => none
  | c :: cs => if c == quote && cs.getLast? == some quote then some cs.dropLast else none

/-- Without a colon in front. -/
def dropColon : List Char → List Char
  | ':' :: cs => cs
  | cs => cs

/-- A number: an integer, or a double if there is a point. -/
def readNumber? (raw : List Char) : Option Value :=
  match Decimal.readInt64? raw with
  | some n => some (.integer n)
  | none => if raw.contains '.' then (Decimal.readDouble? raw).map .double else none

/-- Read an option value. -/
def readValue (raw : List Char) : Except ColumnFault Value :=
  if raw.isEmpty then .error .emptyValue
  else
    match unquote? '"' raw <|> unquote? '\'' raw with
    | some s => .ok (.string (String.ofList s))
    | none =>
      if raw == "true".toList then .ok (.boolean true)
      else if raw == "false".toList then .ok (.boolean false)
      else
        match readNumber? raw with
        | some v => .ok v
        | none =>
          let bare := dropColon raw
          if isKey bare then .ok (.string (String.ofList bare))
          else .error (.invalidValue (String.ofList raw))

/-! ### Option blocks -/

/-- The quote that is open after a character. -/
def quoteAfter (quote : Option Char) (c : Char) : Option Char :=
  match quote with
  | none => if c == '"' || c == '\'' then some c else none
  | some q => if q == c then none else some q

/-- The entries of a block, the first apart: they end at commas outside quotes. -/
def splitEntries (quote : Option Char) : List Char → List Char × List (List Char)
  | [] => ([], [])
  | c :: cs =>
    if quote.isNone && c == ',' then
      let (e, es) := splitEntries none cs
      ([], e :: es)
    else
      let (e, es) := splitEntries (quoteAfter quote c) cs
      (c :: e, es)

/-- Read one entry: a key, a colon and a value. -/
def readEntry (entry : List Char) : Except ColumnFault (String × Value) :=
  match entry.dropWhile (· != ':') with
  | [] => .error (.noValue (String.ofList (Text.trim entry)))
  | _ :: value => do
    let key := Text.trim (entry.takeWhile (· != ':'))
    let name := String.ofList key
    if isKey key then
      let value ← readValue (Text.trim value)
      if isFlag name && value.boolean?.isNone then .error (.notBoolean name value)
      else return (name, value)
    else .error (.invalidKey name)

/-- Read a block. Of entries with one key the last counts. -/
def readBlock (block : List Char) : Except ColumnFault (SortedMap String Value) :=
  if (Text.trim block).isEmpty then .ok .empty
  else do
    let (e, es) := splitEntries none block
    return SortedMap.ofList (← (e :: es).mapM readEntry)

/-! ### Tokens -/

/-- Whether a character is a bracket. -/
def isBracket (c : Char) : Bool := c == '[' || c == ']'

/-- Split a token into its name and what stands in its brackets. -/
def splitToken (token : List Char) : Except ColumnFault (List Char × Option (List Char)) :=
  let cs := Text.trim token
  let name := Text.trimEnd (cs.takeWhile fun c => !isBracket c)
  match cs.dropWhile fun c => !isBracket c with
  | [] => .ok (name, none)
  | '[' :: rest =>
    match rest.dropWhile fun c => !isBracket c with
    | [']'] => .ok (name, some (rest.takeWhile fun c => !isBracket c))
    | _ => .error .unbalanced
  | _ => .error .unbalanced

/-- Read a column token. -/
def parse (token : String) : Except ColumnFault ColumnRef := do
  let (name, block) ← splitToken token.toList
  if name.isEmpty then throw .missingName
  match block with
  | none => return ⟨String.ofList name, none⟩
  | some block => return ⟨String.ofList name, some (← readBlock block)⟩

end ColumnRef

end WideColumn
