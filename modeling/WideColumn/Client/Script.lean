import WideColumn.Client.Network

/-!
# Scripted transports

A script answers requests with replies laid down beforehand, whatever it is asked, and keeps what
it was sent.
-/

namespace WideColumn

/-- A request that was delivered, and for which instance. -/
inductive Delivery where
  /-- A request. -/
  | request (instanceName : String) (r : Request)
  /-- A request for a page of a range. -/
  | scan (instanceName : String) (r : GetRange) (token : Option Bytes)
deriving Inhabited

/-- Replies that are still to come, and what was delivered. -/
structure Script where
  /-- The replies to come. -/
  replies : List (Except ServiceError Response) := []
  /-- What was delivered, in order. -/
  sent : List Delivery := []
deriving Inhabited

namespace Script

/-- Note a delivery and take the next reply. -/
def next (s : Script) (d : Delivery) : Except ServiceError Response × Script :=
  let sent := s.sent ++ [d]
  match s.replies with
  | [] => (.error (.internalError "script exhausted"), { s with sent })
  | reply :: replies => (reply, { replies, sent })

/-- The page in a reply to a scan. -/
def page (reply : Except ServiceError Response) : Except ServiceError RangePage :=
  reply.bind fun r =>
    match r.rangePage? with
    | some p => .ok p
    | none => .error (.internalError s!"{r.kind} is no page of a range")

/-- The network with a script behind its only transport. -/
def network : Network Unit Script where
  submit _ instanceName r s := s.next (.request instanceName r)
  scan _ instanceName r token s := (s.next (.scan instanceName r token)).map page id

end Script

end WideColumn
