import WideColumn.Client.Call
import WideColumn.Client.Network
import WideColumn.Instance

/-!
# Clients

A client knows instances by name, each with its configuration and the transport that serves it,
and sends the requests of calls over the transport of the instance that is asked.
-/

namespace WideColumn

/-- An instance as a client knows it. -/
structure Binding (τ : Type) where
  /-- Its configuration. -/
  config : InstanceConfig
  /-- The transport that serves it. -/
  transport : τ

/-- A client of the instances behind the transports `τ`. -/
structure Client (τ : Type) where
  /-- Its configuration. -/
  config : ClientConfig := {}
  /-- The instances registered, by name. -/
  bindings : SortedMap String (Binding τ) := .empty

namespace Client

variable {τ σ α : Type}

/-! ### Instances -/

/-- What is registered for an instance. -/
def binding? (c : Client τ) (name : String) : Option (Binding τ) := c.bindings.get? name

/-- Register an instance under its name. What was registered there before comes along. -/
def register (c : Client τ) (config : InstanceConfig) (transport : τ) :
    Option (Binding τ) × Client τ :=
  (c.binding? config.name,
    { c with bindings := c.bindings.insert config.name ⟨config, transport⟩ })

/-- Forget an instance. What was registered for it comes along. -/
def deregister (c : Client τ) (name : String) : Option (Binding τ) × Client τ :=
  (c.binding? name, { c with bindings := c.bindings.erase name })

/-- The transport that serves an instance. -/
def transport (c : Client τ) (name : String) : Except Error τ :=
  match c.binding? name with
  | some b => .ok b.transport
  | none => .error (.unknownInstance name)

/-! ### Requests -/

/-- The answer that a call takes from a reply. -/
def reply (call : Call α) (op : Operation) : Except ServiceError Response → Except Error α
  | .error e => .error (.service e)
  | .ok response =>
    match call.answer? response with
    | some a => .ok a
    | none => .error (.unexpectedResponse op response.kind)

/-- Make a call to an instance. A call without request, or to an instance that is not registered,
sends nothing. -/
def run (c : Client τ) (net : Network τ σ) (instanceName : String) (call : Call α) (s : σ) :
    Except Error α × σ :=
  match call.request with
  | .error e => (.error e, s)
  | .ok request =>
    match c.transport instanceName with
    | .error e => (.error e, s)
    | .ok t => (net.submit t instanceName request s).map (reply call request.operation) id

end Client

end WideColumn
