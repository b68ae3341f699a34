import WideColumn.Client.Basic

/-!
# Range scans

`Client.scan` asks for one page of a range, which starts at a key or resumes at a token.
`Client.scanAll` goes through a whole range, page by page, each starting where the one before
says, until a page says that it is the last or as many rows have come in as were asked for.

What a network answers may go on for ever. `scanAll` is therefore told how many pages to ask for
at most, and has no result if they do not suffice.
-/

namespace WideColumn

/-- Where a scan starts. -/
inductive ScanStart where
  /-- At a key. -/
  | key (k : Key)
  /-- Where an earlier scan broke off. -/
  | token (bytes : Bytes)
deriving DecidableEq, Inhabited

namespace Client

variable {τ σ : Type}

/-- Ask an instance for a page. -/
def page (c : Client τ) (net : Network τ σ) (instanceName : String) (r : GetRange)
    (token : Option Bytes) (s : σ) : Except Error RangePage × σ :=
  match c.transport instanceName with
  | .error e => (.error e, s)
  | .ok t => (net.scan t instanceName r token s).map (·.mapError .service) id

/-- Scan one page of a range. -/
def scan (c : Client τ) (net : Network τ σ) (instanceName table : String) (start : ScanStart)
    (stop : Key) (options : OptionList) (s : σ) : Except Error RangePage × σ :=
  match (merge { table, stop } options : Except Error GetRange) with
  | .error e => (.error e, s)
  | .ok r =>
    match start with
    | .key k => c.page net instanceName { r with start := k } none s
    | .token bytes => c.page net instanceName { r with token := some bytes } (some bytes) s

end Client

/-! ### Whole ranges -/

namespace RangePage

/-- Add a page to what has been collected. -/
def extend (all page : RangePage) : RangePage :=
  { all with
    rows := all.rows ++ page.rows
    consumed :=
      ⟨all.consumed.read + page.consumed.read, all.consumed.write + page.consumed.write⟩ }

/-- Keep as many rows as were asked for. -/
def truncate (all : RangePage) (limit : Nat) : RangePage :=
  { all with rows := all.rows.take limit }

end RangePage

/-- How many rows a scan asks for; none if it takes all. A negative limit counts as none. -/
def GetRange.rowLimit (r : GetRange) : Option Nat :=
  r.limit.bind fun n => if 0 ≤ n then some n.toNatClampNeg else none

/-- The request for a page that starts at a key, when some rows have been collected. -/
def GetRange.resume (r : GetRange) (start : Key) (collected : Nat) : GetRange :=
  { r with
    start
    limit :=
      match r.rowLimit with
      | some n => some (.ofNat (n - collected))
      | none => r.limit }

namespace Client

variable {τ σ : Type}

/-- Collect the pages of a scan from a key on, asking for `pages` of them at most. -/
def collect (c : Client τ) (net : Network τ σ) (instanceName : String) (r : GetRange) :
    (pages : Nat) → (all : RangePage) → (start : Key) → σ → Option (Except Error RangePage × σ)
  | 0, _, _, _ => none
  | pages + 1, all, start, s =>
    match c.page net instanceName (r.resume start all.rows.length) none s with
    | (.error e, s) => some (.error e, s)
    | (.ok page, s) =>
      let all := all.extend page
      match r.rowLimit.filter (· ≤ all.rows.length), page.nextStart with
      | some n, _ => some (.ok (all.truncate n), s)
      | none, some next => collect c net instanceName r pages all next s
      | none, none => some (.ok all, s)

/-- Scan a whole range. -/
def scanAll (c : Client τ) (net : Network τ σ) (pages : Nat) (instanceName table : String)
    (start stop : Key) (options : OptionList) (s : σ) : Option (Except Error RangePage × σ) :=
  match (merge { table, start, stop } options : Except Error GetRange) with
  | .error e => some (.error e, s)
  | .ok r => c.collect net instanceName r pages {} start s

end Client

end WideColumn
