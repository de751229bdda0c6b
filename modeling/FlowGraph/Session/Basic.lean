import FlowGraph.Node.Kind
import FlowGraph.Session.Settings

/-! # Sessions

A session owns the nodes and connectors of one graph while it is edited. Nodes and connectors are
kept in drawing order, from back to front. A connector is known in three places: in the session, on
its plug and its socket, and among the dependents of the nodes that it follows.

A session tells whoever draws it what changed. Nothing is read back, so the calls of a session can
be kept as a list, and a picture is what results from carrying them out.
-/

namespace FlowGraph
set_option autoImplicit false

/-! ## Drawing calls -/

inductive Drawable where
  | node (id : NodeId)
  | connector (id : ConnectorId)
  deriving DecidableEq, Repr

inductive DrawCall where
  /-- Something new is drawn above all others of its sort. -/
  | attach (target : Drawable)
  | position (target : Drawable) (position : Point)
  | scale (target : Drawable) (factor : Scalar)
  | path (id : ConnectorId) (style : ConnectorStyle) (curve : Curve)
  | raise (target : Drawable)
  | dispose (target : Drawable)

/-! ## The session -/

/-- A socket that the active drag may snap to. -/
structure Candidate where
  socket : SocketRef
  /-- The centre of the socket when the drag started. -/
  anchor : Point
  /-- The distance to the pointer at its last move. -/
  distance : Scalar

structure Drag where
  connector : ConnectorId
  plug : PlugRef
  /-- The sockets in reach; nearest first once the pointer has moved. -/
  candidates : List Candidate
  /-- The socket that a release would connect to. -/
  snap : Option SocketRef

structure Session where
  settings : Settings
  ids : IdSource
  /-- The nodes, from back to front. -/
  nodes : OrderedMap NodeId Node
  /-- The connectors, from back to front, with the one that is being dragged. -/
  connectors : OrderedMap ConnectorId Connector
  drag : Option Drag
  variableTypes : Variables
  /-- Every drawing call made, latest first. -/
  calls : List DrawCall

namespace Session

def new (settings : Settings) : Session :=
  ⟨settings, .fresh, .empty, .empty, none, .empty, []⟩

/-! ## Views -/

def node? (s : Session) (id : NodeId) : Option Node := s.nodes.get? id

def connector? (s : Session) (id : ConnectorId) : Option Connector := s.connectors.get? id

def plug? (s : Session) (p : PlugRef) : Option Plug :=
  (s.node? p.node).bind (·.frame.plug? p.kind p.index)

def socket? (s : Session) (r : SocketRef) : Option Socket :=
  (s.node? r.node).bind (·.frame.socket? r.kind r.index)

def plugAnchor? (s : Session) (p : PlugRef) : Option Point :=
  (s.node? p.node).bind (·.frame.plugAnchor? p.kind p.index)

def socketAnchor? (s : Session) (r : SocketRef) : Option Point :=
  (s.node? r.node).bind (·.frame.socketAnchor? r.kind r.index)

def draggedConnector? (s : Session) : Option ConnectorId := s.drag.map (·.connector)

def candidates (s : Session) : List Candidate := (s.drag.map (·.candidates)).getD []

def snapTarget? (s : Session) : Option SocketRef := s.drag.bind (·.snap)

/-! ## Single changes -/

def draw (s : Session) (call : DrawCall) : Session := { s with calls := call :: s.calls }

def modifyNode (s : Session) (id : NodeId) (f : Node → Node) : Session :=
  { s with nodes := s.nodes.modify id f }

def modifyFrame (s : Session) (id : NodeId) (f : Frame → Frame) : Session :=
  s.modifyNode id fun n => { n with frame := f n.frame }

def modifyConnector (s : Session) (id : ConnectorId) (f : Connector → Connector) : Session :=
  { s with connectors := s.connectors.modify id f }

def drawPath (s : Session) (id : ConnectorId) : Session :=
  match s.connector? id with
  | some c => s.draw (.path id c.style c.curve)
  | none => s

def setRadius (s : Session) (r : SocketRef) (radius : Float) : Session :=
  s.modifyFrame r.node fun f => f.modifySocket r.kind r.index fun t => { t with radius := radius }

def resetRadius (s : Session) (r : SocketRef) : Session :=
  s.modifyFrame r.node fun f => f.modifySocket r.kind r.index Socket.resetRadius

def resetRadius? (s : Session) (r : Option SocketRef) : Session :=
  match r with
  | some r => s.resetRadius r
  | none => s

end Session
end FlowGraph
