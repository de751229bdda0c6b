import FlowGraph.Program.Restore
import FlowGraph.Session.Edit

/-! # Operations

Everything that a host can do to a session, as data. A session is reached by a list of operations;
what holds of a new session and is kept by `apply` holds of every session that is reached.
-/

namespace FlowGraph
set_option autoImplicit false

/-- A change that a host asks for. -/
inductive Operation where
  | spawn (kind : NodeKind) (position : Point) (scale : Scalar)
  | addNode (id : NodeId) (node : Node)
  | moveNode (id : NodeId) (position : Point)
  | setScale (id : NodeId) (scale : Scalar)
  | emitMove (id : NodeId)
  | bringToFront (id : NodeId)
  | clearConnections (id : NodeId)
  | removeNode (id : NodeId)
  | removeAll
  | selectVariant (id : NodeId) (variant : Variant)
  | setValue (socket : SocketRef) (value : Option Literal)
  | registerVariable (name : String) (type : PortType)
  | setStyle (style : ConnectorStyle)
  | toggleStyle
  | connect (plug : PlugRef) (socket : SocketRef)
  | disconnect (id : ConnectorId)
  | reconnect (id : ConnectorId) (position : Point)
  | beginDrag (plug : PlugRef) (position : Point)
  | updateDrag (position : Point)
  | endDrag
  | cancelDrag
  | pointer (event : PointerEvent)
  | restore (palette : Palette) (program : Program)

inductive Reply where
  | none
  | flag (value : Bool)
  | count (value : Option Nat)
  | node (id : NodeId)
  | connector (id : Option ConnectorId)
  | style (style : ConnectorStyle)
  | refused (error : ConnectionError)
  | dragEnded (outcome : Option DragOutcome)
  | restored (report : RestoreReport)

namespace Session

def perform (s : Session) : Operation → Reply × Session
  | .spawn kind position scale =>
    let (id, s) := s.spawn kind position scale
    (.node id, s)
  | .addNode id node => (.node id, s.addNode id node)
  | .moveNode id position => (.none, s.moveNode id position)
  | .setScale id scale => (.none, s.setScale id scale)
  | .emitMove id => (.none, s.emitMove id)
  | .bringToFront id => (.none, s.bringToFront id)
  | .clearConnections id =>
    let (count, s) := s.clearConnections id
    (.count (some count), s)
  | .removeNode id =>
    let (removed, s) := s.removeNode id
    (.flag removed, s)
  | .removeAll => (.none, s.removeAll)
  | .selectVariant id variant =>
    let (count, s) := s.selectVariant id variant
    (.count count, s)
  | .setValue socket value =>
    let (stored, s) := s.setValue socket value
    (.flag stored, s)
  | .registerVariable name type =>
    let (registered, s) := s.registerVariable name type
    (.flag registered, s)
  | .setStyle style => (.none, s.setStyle style)
  | .toggleStyle =>
    let (style, s) := s.toggleStyle
    (.style style, s)
  | .connect plug socket =>
    match s.connect plug socket with
    | .ok (id, s) => (.connector (some id), s)
    | .error e => (.refused e, s)
  | .disconnect id =>
    let (found, s) := s.disconnect id
    (.flag found, s)
  | .reconnect id position =>
    let (picked, s) := s.reconnect id position
    (.flag picked, s)
  | .beginDrag plug position =>
    let (id, s) := s.beginDrag plug position
    (.connector id, s)
  | .updateDrag position => (.none, s.updateDrag position)
  | .endDrag =>
    let (outcome, s) := s.endDrag
    (.dragEnded outcome, s)
  | .cancelDrag => (.none, s.cancelDrag)
  | .pointer event =>
    let (outcome, s) := s.pointer event
    (.dragEnded outcome, s)
  | .restore palette program =>
    let (report, s) := s.restore palette program
    (.restored report, s)

def apply (s : Session) (o : Operation) : Session := (s.perform o).2

def applyAll (s : Session) (os : List Operation) : Session := os.foldl apply s

end Session
end FlowGraph
