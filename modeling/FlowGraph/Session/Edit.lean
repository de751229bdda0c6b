import FlowGraph.Session.Drag

/-! # Editing

Placing, moving and removing nodes, and the changes that touch many connectors at once.
-/

namespace FlowGraph
set_option autoImplicit false

namespace Session

/-! ## Adding and moving nodes -/

/-- Lays a prepared node on top; a node with the same identity gives way. -/
def addNode (s : Session) (id : NodeId) (n : Node) : Session :=
  let s := s.draw (.attach (.node id))
  let s := s.draw (.scale (.node id) n.frame.scale)
  let s := s.draw (.position (.node id) n.frame.position)
  { s with nodes := s.nodes.put id n }

def spawn (s : Session) (kind : NodeKind) (position : Point) (scale : Scalar) : NodeId × Session :=
  let (id, ids) := s.ids.node
  let f := kind.layPorts { kind.bareFrame with scale := scale } s.settings.connectorStyle
  let f := { f with position := position, positioned := true }
  (id, { s with ids := ids }.addNode id ⟨kind, f⟩)

/-- Moves the ends of a connector that are on the node to where their ports are now. -/
def followNode (s : Session) (id : NodeId) (f : Frame) (c : ConnectorId) : Session :=
  let s := s.modifyConnector c fun c =>
    let start :=
      if c.plug.node = id then (f.plugAnchor? c.plug.kind c.plug.index).getD c.start else c.start
    let stop :=
      match c.connectedTo with
      | some r => if r.node = id then (f.socketAnchor? r.kind r.index).getD c.stop else c.stop
      | none => c.stop
    { c with start := start, stop := stop }
  s.drawPath c

/-- Lets every dependent connector follow the node. -/
def emitMove (s : Session) (id : NodeId) : Session :=
  match s.node? id with
  | some n => n.frame.dependents.foldl (fun s c => s.followNode id n.frame c) s
  | none => s

def moveNode (s : Session) (id : NodeId) (position : Point) : Session :=
  if s.nodes.contains id then
    let s := s.modifyFrame id fun f => { f with position := position, positioned := true }
    (s.draw (.position (.node id) position)).emitMove id
  else s

def setScale (s : Session) (id : NodeId) (scale : Scalar) : Session :=
  if s.nodes.contains id then
    let s := s.modifyFrame id fun f => { f with scale := scale }
    (s.draw (.scale (.node id) scale)).emitMove id
  else s

def raiseConnector (s : Session) (id : ConnectorId) : Session :=
  { s with connectors := s.connectors.raise id }.draw (.raise (.connector id))

/-- Lays a node on top, with every connector on its ports and the one being dragged out of it. -/
def bringToFront (s : Session) (id : NodeId) : Session :=
  match s.node? id with
  | none => s
  | some n =>
    let attached := n.frame.attached
    let dragged := match s.drag with
      | some d => if d.plug.node = id && !attached.contains d.connector then [d.connector] else []
      | none => []
    let s := { s with nodes := s.nodes.raise id }.draw (.raise (.node id))
    (attached ++ dragged).foldl raiseConnector s

/-! ## Removing -/

def disconnectAll (s : Session) : List ConnectorId → Nat × Session
  | [] => (0, s)
  | id :: rest =>
    let (found, s) := s.disconnect id
    let (count, s) := s.disconnectAll rest
    ((if found then 1 else 0) + count, s)

/-- Whether the active drag starts at the node or would snap to it. -/
def dragTouches (s : Session) (id : NodeId) : Bool :=
  match s.drag with
  | some d => d.plug.node = id || (d.snap.map (·.node)) == some id
  | none => false

/-- Drops every connector on a node, and counts them. A drag that touches the node is abandoned
first and does not count. -/
def clearConnections (s : Session) (id : NodeId) : Nat × Session :=
  let s := if s.dragTouches id then s.cancelDrag else s
  match s.node? id with
  | some n => s.disconnectAll n.frame.attached
  | none => (0, s)

def removeNode (s : Session) (id : NodeId) : Bool × Session :=
  if s.nodes.contains id then
    let s := (s.clearConnections id).2
    let drag := s.drag.map fun d =>
      { d with candidates := d.candidates.filter (·.socket.node ≠ id) }
    (true, { s with drag := drag, nodes := s.nodes.erase id }.draw (.dispose (.node id)))
  else (false, s)

/-- Removes every node, from back to front, and every connector that is left. -/
def removeAll (s : Session) : Session :=
  let s := s.cancelDrag
  let s := s.nodes.keys.foldl (fun s id => (s.removeNode id).2) s
  let s := s.connectors.keys.foldl (fun s id => s.draw (.dispose (.connector id))) s
  { s with connectors := .empty }

/-! ## Ports and constants -/

/-- Chooses the operation of a node that offers several. Its data ports are laid out anew, so every
connector on the node is dropped; the answer counts them. -/
def selectVariant (s : Session) (id : NodeId) (variant : Variant) : Option Nat × Session :=
  match (s.node? id).bind (·.frame.variant) with
  | none => (none, s)
  | some _ =>
    let (dropped, s) := s.clearConnections id
    let s := s.modifyFrame id fun f =>
      { f.layVariantPorts variant s.settings.connectorStyle with
        variant := some variant
        name := variant.title }
    (some dropped, s.emitMove id)

def setValue (s : Session) (r : SocketRef) (value : Option Literal) : Bool × Session :=
  if r.kind = .data && (s.socket? r).isSome then
    (true, s.modifyNode r.node fun n =>
      let f := n.frame.modifySocket .data r.index fun t => { t with value := value }
      { n with frame := n.kind.valueChanged f r.index value s.variableTypes })
  else (false, s)

/-- Gives a variable its type. A name that is taken keeps the type it has. -/
def registerVariable (s : Session) (name : String) (type : PortType) : Bool × Session :=
  if s.variableTypes.contains name then (false, s)
  else (true, { s with variableTypes := s.variableTypes.insert name type })

/-! ## Style -/

def restyle (style : ConnectorStyle) (n : Node) : Node :=
  let plugs := List.map fun (p : Plug) => { p with style := style }
  { n with frame :=
    { n.frame with flowPlugs := plugs n.frame.flowPlugs, dataPlugs := plugs n.frame.dataPlugs } }

/-- Draws every connector, old and new, in a style. -/
def setStyle (s : Session) (style : ConnectorStyle) : Session :=
  let s := { s with
    settings := { s.settings with connectorStyle := style }
    nodes := s.nodes.mapValues (restyle style)
    connectors := s.connectors.mapValues fun c => { c with style := style } }
  s.connectors.keys.foldl drawPath s

def toggleStyle (s : Session) : ConnectorStyle × Session :=
  let style := s.settings.connectorStyle.toggled
  (style, s.setStyle style)

end Session
end FlowGraph
