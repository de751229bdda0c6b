import FlowGraph.Geometry
import FlowGraph.Port.Ref

/-! # Connectors

An edge from a plug to a socket, or the loose edge that follows the pointer during a drag. The
style only changes the curve that is drawn.
-/

namespace FlowGraph
set_option autoImplicit false

inductive ConnectorStyle where
  | bezier
  | line
  deriving DecidableEq, Repr, Inhabited

namespace ConnectorStyle

def name : ConnectorStyle → String
  | .bezier => "bezier"
  | .line => "line"

def ofName? (s : String) : Option ConnectorStyle := [bezier, line].find? (·.name == s)

def toggled : ConnectorStyle → ConnectorStyle
  | .bezier => .line
  | .line => .bezier

end ConnectorStyle

/-- Whether the free end of a connector follows the pointer. -/
inductive ConnectorState where
  | dragging
  | connected
  deriving DecidableEq, Repr

structure Curve where
  start : Point
  leave : Point
  arrive : Point
  stop : Point

structure Connector where
  plug : PlugRef
  connectedTo : Option SocketRef
  style : ConnectorStyle
  state : ConnectorState
  start : Point
  /-- The anchor of the socket, or the pointer during a drag. -/
  stop : Point

namespace Connector

/-- A connector that has just been pulled out of `plug`. -/
def drawnFrom (plug : PlugRef) (start stop : Point) (style : ConnectorStyle) : Connector :=
  ⟨plug, none, style, .dragging, start, stop⟩

def isConnected (c : Connector) : Bool := c.state == .connected && c.connectedTo.isSome

/-- The curve of the connector: bent half way between its ends, or straight. -/
def curve (c : Connector) : Curve :=
  match c.style with
  | .bezier =>
    let middle := c.start.x + (c.stop.x - c.start.x) / 2.0
    ⟨c.start, ⟨middle, c.start.y⟩, ⟨middle, c.stop.y⟩, c.stop⟩
  | .line => ⟨c.start, c.start, c.stop, c.stop⟩

end Connector
end FlowGraph
