import WideColumn.Request
import WideColumn.Response
import WideColumn.Store.Server

/-!
# Networks

A network delivers requests. Its transports are named by values of `τ`; whatever lies behind them
is one state `σ`, which every delivery may change. A range scan is delivered apart from the other
requests, with the token at which it resumes.
-/

namespace WideColumn

/-- How requests are delivered over the transports `τ` to what is behind them. -/
structure Network (τ σ : Type) where
  /-- Deliver a request for an instance over a transport. -/
  submit : τ → String → Request → σ → Except ServiceError Response × σ
  /-- Deliver a request for a page of a range. -/
  scan : τ → String → GetRange → Option Bytes → σ → Except ServiceError RangePage × σ

namespace Network

/-- The network of some servers. -/
def ofServers : Network Nat Cluster where
  submit i instanceName r c := c.ask i (·.submit instanceName r)
  scan i instanceName r token c := c.ask i (·.scan instanceName r token)

/-- Two networks side by side. -/
def beside {τ₁ σ₁ τ₂ σ₂ : Type} (m : Network τ₁ σ₁) (n : Network τ₂ σ₂) :
    Network (τ₁ ⊕ τ₂) (σ₁ × σ₂) where
  submit t instanceName r s :=
    match t with
    | .inl t => (m.submit t instanceName r s.1).map id fun s₁ => (s₁, s.2)
    | .inr t => (n.submit t instanceName r s.2).map id fun s₂ => (s.1, s₂)
  scan t instanceName r token s :=
    match t with
    | .inl t => (m.scan t instanceName r token s.1).map id fun s₁ => (s₁, s.2)
    | .inr t => (n.scan t instanceName r token s.2).map id fun s₂ => (s.1, s₂)

end Network

end WideColumn
