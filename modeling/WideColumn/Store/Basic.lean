import WideColumn.Store.Query
import WideColumn.Store.Range
import WideColumn.Store.Write

/-!
# The store

A store keeps tables, and the transactions that are open on them. A write that belongs to a
transaction is held back: it changes nothing until the transaction is committed, and is then made
together with the others, in the order in which they came. Of these either all are made or, where
one is refused, none. The ids of transactions come from a supply; nothing is known of them but that,
in use, no id is supplied twice.

Every request is answered from the store as it is, and leaves the store that answers the next one
(`Store.answer`); scans leave it as it is (`Store.scan`).
-/

namespace WideColumn

/-- An open transaction. -/
structure Transaction where
  /-- The table that it is bound to. -/
  table : String
  /-- The writes held back, in order. -/
  staged : List Write := []
deriving Inhabited

/-- A supply of ids for transactions: those of a series, numbered. -/
def Transaction.numbered (series : String) (n : Nat) : String := s!"{series}:{n}:"

/-- Tables and open transactions. -/
structure Store where
  /-- The tables by name. -/
  tables : Tables := .empty
  /-- The open transactions by id. -/
  transactions : SortedMap String Transaction := .empty
  /-- The supply of ids: that of the `n`-th transaction that is opened. -/
  ids : Nat → String := Transaction.numbered ""
  /-- How many transactions have been opened. -/
  opened : Nat := 0
deriving Inhabited

namespace Store

/-! ### Tables -/

/-- Create a table. -/
def createTable (s : Store) (r : CreateTable) : Except ServiceError TableCreated × Store :=
  if s.tables.contains r.table then
    (.error (.objectAlreadyExist s!"table {r.table} already exists"), s)
  else (.ok {}, { s with tables := s.tables.insert r.table { tableMeta := r.tableMeta } })

/-- Delete a table with its rows. -/
def deleteTable (s : Store) (r : DeleteTable) : Except ServiceError TableDeleted × Store :=
  if s.tables.contains r.table then (.ok {}, { s with tables := s.tables.erase r.table })
  else (.error (.noTable r.table), s)

/-- Change the settings of a table. -/
def updateTable (s : Store) (r : UpdateTable) : Except ServiceError TableUpdated × Store :=
  (s.tables.act r.table fun t =>
    let tableMeta := t.tableMeta.updated r
    (.ok ⟨some tableMeta⟩, { t with tableMeta })).map id fun tables => { s with tables }

/-- The settings of a table. -/
def describeTable (s : Store) (r : DescribeTable) : Except ServiceError TableDescription :=
  (s.tables.find r.table).map fun t => ⟨t.tableMeta⟩

/-! ### Reading -/

/-- Read a row. What a transaction holds back is not seen, but the transaction has to be open. -/
def getRow (s : Store) (r : GetRow) : Except ServiceError RowRead := do
  if let some id := r.transaction then
    unless s.transactions.contains id do
      throw (.noTransaction id)
  let t ← s.tables.find r.table
  let row ← t.read r.key r.columns r.filter
  return { row, consumed := { read := 1 } }

/-- What becomes of the rows of a query. -/
def readAll (s : Store) (q : RowsQuery) : TableOutcomes where
  table := q.table
  rows := q.keys.map fun key =>
    .ofResult ((s.tables.find q.table).bind fun t => t.read key q.columns q.filter)

/-- Read rows of several tables. -/
def batchGet (s : Store) (r : BatchGet) : BatchRead := ⟨r.tables.map s.readAll⟩

/-- Search a table. -/
def search (s : Store) (r : Search) : Except ServiceError SearchHits :=
  (s.tables.find r.table).bind (·.search r)

/-- One page of a range. -/
def scan (s : Store) (pageSize : Nat) (r : GetRange) (token : Option Bytes) :
    Except ServiceError RangePage :=
  (s.tables.find r.table).bind fun t => t.page pageSize r token

/-! ### Transactions -/

/-- Open a transaction on a table. -/
def startTransaction (s : Store) (r : StartTransaction) :
    Except ServiceError TransactionStarted × Store :=
  if s.tables.contains r.table then
    let id := s.ids s.opened
    (.ok ⟨id⟩, { s with
      transactions := s.transactions.insert id { table := r.table }
      opened := s.opened + 1 })
  else (.error (.noTable r.table), s)

/-- Hold a write back until its transaction is committed. A write that names another table than
the transaction's is refused. -/
def stage (s : Store) (id : String) (w : Write) : Except ServiceError Response × Store :=
  match s.transactions.get? id with
  | none => (.error (.noTransaction id), s)
  | some t =>
    if w.table?.any (· != t.table) then
      (.error (.parameterInvalid s!"transaction {id} is bound to table {t.table}"), s)
    else
      (.ok w.promised,
        { s with transactions := s.transactions.insert id { t with staged := t.staged ++ [w] } })

/-- Make a write, or hold it back if it belongs to a transaction. -/
def write (s : Store) (w : Write) : Except ServiceError Response × Store :=
  match w.transaction? with
  | some id => s.stage id w.detached
  | none => (w.run s.tables).map id fun tables => { s with tables }

/-- Close a transaction and make its writes, all or none. -/
def commit (s : Store) (r : CommitTransaction) : Except ServiceError TransactionCommitted × Store :=
  match s.transactions.get? r.transaction with
  | none => (.error (.noTransaction r.transaction), s)
  | some t =>
    let closed := { s with transactions := s.transactions.erase r.transaction }
    match Write.runAll t.staged s.tables with
    | .ok tables => (.ok {}, { closed with tables })
    | .error e => (.error e, closed)

/-- Close a transaction and forget its writes. -/
def abort (s : Store) (r : AbortTransaction) : Except ServiceError TransactionAborted × Store :=
  if s.transactions.contains r.transaction then
    (.ok {}, { s with transactions := s.transactions.erase r.transaction })
  else (.error (.noTransaction r.transaction), s)

/-! ### All requests -/

/-- Answer a request. -/
def answer (s : Store) : Request → Except ServiceError Response × Store
  | .createTable r => (s.createTable r).map (·.map .tableCreated) id
  | .deleteTable r => (s.deleteTable r).map (·.map .tableDeleted) id
  | .listTables _ => (.ok (.tableList ⟨s.tables.keys⟩), s)
  | .updateTable r => (s.updateTable r).map (·.map .tableUpdated) id
  | .describeTable r => ((s.describeTable r).map .tableDescription, s)
  | .getRow r => ((s.getRow r).map .rowRead, s)
  | .putRow r => s.write (.put r)
  | .updateRow r => s.write (.update r)
  | .deleteRow r => s.write (.delete r)
  | .batchGet r => (.ok (.batchRead (s.batchGet r)), s)
  | .batchWrite r => s.write (.batch r)
  | .search r => ((s.search r).map .searchHits, s)
  | .startTransaction r => (s.startTransaction r).map (·.map .transactionStarted) id
  | .commitTransaction r => (s.commit r).map (·.map .transactionCommitted) id
  | .abortTransaction r => (s.abort r).map (·.map .transactionAborted) id

end Store

end WideColumn
