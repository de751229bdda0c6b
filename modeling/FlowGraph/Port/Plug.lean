import FlowGraph.Connector
import FlowGraph.Port.Type

/-! # Plugs

An output of a node, from which any number of connectors may leave.
-/

namespace FlowGraph
set_option autoImplicit false

structure Plug where
  type : PortType
  label : String
  /-- The style of connectors pulled out of this plug. -/
  style : ConnectorStyle
  /-- The connectors that leave here, in order of attachment. -/
  connected : List ConnectorId
  opacity : Float

namespace Plug

def new (type : PortType) (label : String) (style : ConnectorStyle) : Plug :=
  ⟨type, label, style, [], 1.0⟩

def flow (label : String) (style : ConnectorStyle) : Plug := new .connect label style

def isConnected (p : Plug) : Bool := !p.connected.isEmpty

def attach (p : Plug) (id : ConnectorId) : Plug := { p with connected := p.connected ++ [id] }

def detach (p : Plug) (id : ConnectorId) : Plug :=
  { p with connected := p.connected.filter (· ≠ id) }

end Plug
end FlowGraph
