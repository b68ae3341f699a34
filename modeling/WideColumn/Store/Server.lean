import WideColumn.Store.Basic

/-!
# Servers

A server puts a store behind a network: it keeps a log of what it was asked by whom, and can be
told to fail the next request, whatever that is.
-/

namespace WideColumn

/-- A store that serves instances. -/
structure Server where
  /-- The store. -/
  store : Store := {}
  /-- Most rows of a page. -/
  pageSize : Nat := 100
  /-- Who asked for what, in order. -/
  log : List (String × Operation) := []
  /-- The code with which the next request fails, if it is to fail. -/
  failNext : Option ErrorCode := none
deriving Inhabited

namespace Server

/-- A server with an empty store, whose transactions are numbered in a series of their own. Pages
have at least one row. -/
def new (series : String) (pageSize : Option Nat) : Server :=
  { store := { ids := Transaction.numbered series }, pageSize := (pageSize.map (max 1 ·)).getD 100 }

/-- Note a request, and fail it if that was asked for. -/
def receive (v : Server) (instanceName : String) (op : Operation) :
    Except ServiceError Unit × Server :=
  let noted := { v with log := v.log ++ [(instanceName, op)], failNext := none }
  match v.failNext with
  | none => (.ok (), noted)
  | some code => (.error ⟨code, "injected failure", none⟩, noted)

/-- Answer a request. -/
def submit (v : Server) (instanceName : String) (r : Request) :
    Except ServiceError Response × Server :=
  match v.receive instanceName r.operation with
  | (.error e, v) => (.error e, v)
  | (.ok _, v) => (v.store.answer r).map id fun store => { v with store }

/-- Answer with a page of a range. -/
def scan (v : Server) (instanceName : String) (r : GetRange) (token : Option Bytes) :
    Except ServiceError RangePage × Server :=
  match v.receive instanceName .getRange with
  | (.error e, v) => (.error e, v)
  | (.ok _, v) => (v.store.scan v.pageSize r token, v)

/-- The operations asked for so far. -/
def submitted (v : Server) : List Operation := v.log.map (·.2)

/-- The instances served so far, in the order of their first request. -/
def instancesSeen (v : Server) : List String := (v.log.map (·.1)).eraseDups

/-- Number of rows of a table. -/
def rowCount? (v : Server) (table : String) : Option Nat :=
  (v.store.tables.get? table).map (·.rows.size)

end Server

/-- Servers that are addressed by their number. -/
abbrev Cluster := List Server

namespace Cluster

/-- Let a server answer. A number without a server is not reached. -/
def ask {α : Type} (cl : Cluster) (i : Nat)
    (question : Server → Except ServiceError α × Server) : Except ServiceError α × Cluster :=
  match cl[i]? with
  | some v => let (answer, v) := question v; (answer, cl.set i v)
  | none => (.error (.ofCode .connectionError), cl)

end Cluster

end WideColumn
