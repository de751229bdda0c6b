import FlowGraph.Session.Wiring

/-! # Dragging

A drag pulls a loose connector out of a plug, or picks up the socket end of an edge. While the
pointer moves, the nearest candidate within reach is the snap target and is drawn larger; a release
connects to it, or throws the connector away when there is none. At most one drag is active.
-/

namespace FlowGraph
set_option autoImplicit false

inductive PointerTarget where
  | plug (plug : PlugRef)
  | connector (id : ConnectorId)
  | canvas

inductive PointerEvent where
  | press (target : PointerTarget) (position : Point)
  | move (position : Point)
  | release

inductive DragOutcome where
  | connected (id : ConnectorId)
  | discarded (id : ConnectorId)
  deriving DecidableEq, Repr

/-- Measures the candidates anew from the pointer and puts the nearest first; candidates at the
same distance keep their order. -/
def Candidate.rankBy (pointer : Point) (cs : List Candidate) : List Candidate :=
  (cs.map fun c => { c with distance := c.anchor.distance pointer }).mergeSort fun a b =>
    a.distance.rank ≤ b.distance.rank

namespace Session

/-! ## Starting -/

/-- Starts to drag a new connector out of a plug. Nothing happens during another drag, without the
plug, and for a plug of type `any` if the settings do not allow it. -/
def beginDrag (s : Session) (plug : PlugRef) (pointer : Point) : Option ConnectorId × Session :=
  match s.drag, s.plug? plug, s.plugAnchor? plug with
  | none, some p, some start =>
    if p.type = .any && !s.settings.allowAnyPlugDrag then (none, s)
    else
      let (id, s) := s.addConnector plug start pointer p.style
      let s := s.drawPath id
      (some id, { s with drag := some ⟨id, plug, s.candidatesFor plug, none⟩ })
  | _, _, _ => (none, s)

/-- Picks up the socket end of a connector and drags it again. -/
def reconnect (s : Session) (id : ConnectorId) (pointer : Point) : Bool × Session :=
  match s.drag, s.connector? id with
  | none, some c =>
    let s := s.detachSocket id
    let s := s.modifyFrame c.plug.node fun f => f.modifyPlug c.plug.kind c.plug.index (·.detach id)
    let s := s.modifyConnector id fun c => { c with state := .dragging, stop := pointer }
    let s := s.drawPath id
    (true, { s with drag := some ⟨id, c.plug, s.candidatesFor c.plug, none⟩ })
  | _, _ => (false, s)

/-! ## Moving -/

/-- The socket to snap to: the first candidate, if it is within reach. -/
def snapFor (s : Session) (d : Drag) (candidates : List Candidate) : Option SocketRef :=
  let scale := ((s.node? d.plug.node).map (·.frame.scale)).getD 1.0
  let reach := s.settings.snapDistance * scale.value
  (candidates.head?.filter (·.distance.value ≤ reach)).map (·.socket)

/-- Moves the free end of the dragged connector, and chooses the snap target anew. -/
def updateDrag (s : Session) (pointer : Point) : Session :=
  match s.drag with
  | none => s
  | some d =>
    let s := (s.modifyConnector d.connector fun c => { c with stop := pointer }).drawPath d.connector
    let candidates := Candidate.rankBy pointer d.candidates
    let snap := s.snapFor d candidates
    let s :=
      if snap = d.snap then s
      else
        let s := s.resetRadius? d.snap
        match snap with
        | some r => s.setRadius r Measure.snapRadius
        | none => s
    { s with drag := some { d with candidates := candidates, snap := snap } }

/-! ## Ending -/

def discardDrag (s : Session) (d : Drag) : Session :=
  ({ s with drag := none }.resetRadius? d.snap).destroyConnector d.connector

def cancelDrag (s : Session) : Session :=
  match s.drag with
  | some d => s.discardDrag d
  | none => s

/-- Releases the pointer: connects to the snap target if that is still allowed, and otherwise
throws the connector away. -/
def endDrag (s : Session) : Option DragOutcome × Session :=
  match s.drag with
  | none => (none, s)
  | some d =>
    match d.snap with
    | none => (some (.discarded d.connector), s.discardDrag d)
    | some socket =>
      let released := { s with drag := none }.resetRadius socket
      match released.validate d.plug socket with
      | .ok () => (some (.connected d.connector), released.link d.connector socket)
      | .error _ => (some (.discarded d.connector), released.destroyConnector d.connector)

/-- Drops a connector with both its ends. Dropping the one that is being dragged ends the drag. -/
def disconnect (s : Session) (id : ConnectorId) : Bool × Session :=
  if s.draggedConnector? = some id then (true, s.cancelDrag)
  else if s.connectors.contains id then (true, (s.detachSocket id).destroyConnector id)
  else (false, s)

/-- Follows the pointer. What makes no sense in the current state is passed over. -/
def pointer (s : Session) : PointerEvent → Option DragOutcome × Session
  | .press (.plug plug) position => (none, (s.beginDrag plug position).2)
  | .press (.connector id) position => (none, (s.reconnect id position).2)
  | .press .canvas _ => (none, s)
  | .move position => (none, s.updateDrag position)
  | .release => s.endDrag

end Session
end FlowGraph
