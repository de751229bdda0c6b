import FlowGraph.Session.Basic

/-! # Wiring

The rules of connection and the changes that make and unmake an edge. A plug may be connected to a
socket of its own collection on another node that accepts its type; not twice to the same socket,
and not to a data socket that another connector has reached.
-/

namespace FlowGraph
set_option autoImplicit false

/-- Which end of a connector an address names. -/
inductive PortSide where
  | plug
  | socket
  deriving DecidableEq, Repr

inductive ConnectionError where
  | unknownNode (node : NodeId)
  | unknownPort (node : NodeId) (side : PortSide) (index : Nat)
  | selfConnection (node : NodeId)
  | typeMismatch (socket plug : PortType)
  | duplicate
  | socketOccupied
  deriving DecidableEq, Repr

def ConnectionError.message : ConnectionError → String
  | .unknownNode node => "Node '" ++ node.text ++ "' does not exist in this session"
  | .unknownPort node side index =>
    "Node '" ++ node.text ++ "' has no " ++
      (match side with
        | .plug => "plug"
        | .socket => "socket") ++ " at index " ++ toString index
  | .selfConnection node => "Node '" ++ node.text ++ "' cannot connect to itself"
  | .typeMismatch socket plug =>
    "A '" ++ socket.name ++ "' socket does not accept a '" ++ plug.name ++ "' plug"
  | .duplicate => "The plug is already connected to this socket"
  | .socketOccupied => "The data socket is already connected"

/-! ## Ends of an edge -/

namespace Node

/-- Lets a connector arrive at a socket. -/
def receive (n : Node) (id : ConnectorId) (kind : PortKind) (index : Nat) (plugType : PortType) :
    Node :=
  let f := (n.frame.modifySocket kind index fun t => (t.attach id).resetRadius).subscribe id
  { n with frame := n.kind.socketConnected f kind index plugType }

/-- Lets a connector leave a socket. -/
def release (n : Node) (id : ConnectorId) (kind : PortKind) (index : Nat) : Node :=
  let f := (n.frame.modifySocket kind index (·.detach id)).unsubscribe id
  { n with frame := n.kind.socketDisconnected f kind index }

/-- Fastens a connector to a plug. -/
def send (n : Node) (id : ConnectorId) (kind : PortKind) (index : Nat) : Node :=
  { n with frame := (n.frame.modifyPlug kind index (·.attach id)).subscribe id }

/-- Takes a connector off a plug. -/
def withdraw (n : Node) (id : ConnectorId) (kind : PortKind) (index : Nat) : Node :=
  { n with frame := (n.frame.modifyPlug kind index (·.detach id)).unsubscribe id }

end Node

namespace Session

/-! ## Rules -/

def isLinked (s : Session) (plug : PlugRef) (socket : SocketRef) : Bool :=
  match s.plug? plug with
  | some p => p.connected.any fun id => ((s.connector? id).bind (·.connectedTo)) == some socket
  | none => false

def validate (s : Session) (plug : PlugRef) (socket : SocketRef) : Except ConnectionError Unit :=
  match s.node? plug.node, s.node? socket.node with
  | none, _ => throw (.unknownNode plug.node)
  | _, none => throw (.unknownNode socket.node)
  | some source, some target =>
    match source.frame.plug? plug.kind plug.index, target.frame.socket? socket.kind socket.index with
    | none, _ => throw (.unknownPort plug.node .plug plug.index)
    | _, none => throw (.unknownPort socket.node .socket socket.index)
    | some p, some t =>
      if plug.node = socket.node then throw (.selfConnection plug.node)
      else if plug.kind ≠ socket.kind || !t.accepts p.type then throw (.typeMismatch t.type p.type)
      else if s.isLinked plug socket then throw .duplicate
      else if socket.kind = .data && t.isConnected then throw .socketOccupied
      else return ()

def candidatesOn (s : Session) (plug : PlugRef) (type : PortType) (id : NodeId) (n : Node) :
    List SocketRef :=
  (n.frame.sockets plug.kind).zipIdx.filterMap fun (t, index) =>
    let socket : SocketRef := ⟨id, plug.kind, index⟩
    if plug.kind = .data && t.isConnected then none
    else if !t.accepts type || s.isLinked plug socket then none
    else some socket

/-- Every socket that the plug may be connected to, by nodes from back to front. -/
def candidateSockets (s : Session) (plug : PlugRef) : List SocketRef :=
  match s.plug? plug with
  | none => []
  | some p =>
    s.nodes.entries.flatMap fun (id, n) =>
      if id = plug.node then [] else s.candidatesOn plug p.type id n

/-- The candidates for a drag out of the plug, before the pointer moves. -/
def candidatesFor (s : Session) (plug : PlugRef) : List Candidate :=
  (s.candidateSockets plug).filterMap fun socket =>
    (s.socketAnchor? socket).map fun anchor => ⟨socket, anchor, .ofFloat (1.0 / 0.0)⟩

/-! ## Making and unmaking edges -/

/-- Takes a connector into the session, loose, and lets its plug's node carry it along. -/
def addConnector (s : Session) (plug : PlugRef) (start stop : Point) (style : ConnectorStyle) :
    ConnectorId × Session :=
  let (id, ids) := s.ids.connector
  let s := { s with ids := ids }
  let s := s.modifyFrame plug.node fun f => { f with dependents := f.dependents ++ [id] }
  let s := s.draw (.attach (.connector id))
  (id, { s with connectors := s.connectors.put id (.drawnFrom plug start stop style) })

/-- Binds a connector to a socket that its plug may be connected to, on both ends. -/
def link (s : Session) (id : ConnectorId) (socket : SocketRef) : Session :=
  match s.connector? id with
  | none => s
  | some c =>
    let plugType := ((s.plug? c.plug).map (·.type)).getD .any
    let stop := s.socketAnchor? socket
    let s := s.modifyNode socket.node (·.receive id socket.kind socket.index plugType)
    let s := s.modifyNode c.plug.node (·.send id c.plug.kind c.plug.index)
    let s := s.modifyConnector id fun c =>
      { c with connectedTo := some socket, state := .connected, stop := stop.getD c.stop }
    s.drawPath id

/-- Takes a connector off its socket; the plug keeps it. -/
def detachSocket (s : Session) (id : ConnectorId) : Session :=
  match (s.connector? id).bind (·.connectedTo) with
  | none => s
  | some socket =>
    let s := s.modifyConnector id fun c => { c with connectedTo := none, state := .dragging }
    s.modifyNode socket.node (·.release id socket.kind socket.index)

/-- Drops a connector that is on no socket. -/
def destroyConnector (s : Session) (id : ConnectorId) : Session :=
  match s.connector? id with
  | none => s
  | some c =>
    let s := { s with connectors := s.connectors.erase id }
    let s := s.modifyNode c.plug.node (·.withdraw id c.plug.kind c.plug.index)
    s.draw (.dispose (.connector id))

def connect (s : Session) (plug : PlugRef) (socket : SocketRef) :
    Except ConnectionError (ConnectorId × Session) :=
  match s.validate plug socket with
  | .error e => .error e
  | .ok () =>
    let style := ((s.plug? plug).map (·.style)).getD s.settings.connectorStyle
    let start := (s.plugAnchor? plug).getD .origin
    let (id, s) := s.addConnector plug start start style
    .ok (id, s.link id socket)

end Session
end FlowGraph
