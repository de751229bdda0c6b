import FlowGraph.Geometry
import FlowGraph.Port.Literal
import FlowGraph.Port.Ref
import FlowGraph.Port.Type

/-! # Sockets

An input of a node. A data socket holds at most one incoming connector, a flow socket any number.
The constant counts while no connector arrives.
-/

namespace FlowGraph
set_option autoImplicit false

structure Socket where
  type : PortType
  label : String
  /-- The connectors that arrive here, in order of arrival. -/
  incoming : List ConnectorId
  /-- The constant used while nothing arrives. -/
  value : Option Literal
  editable : Bool
  editorShown : Bool
  /-- Plug types accepted besides those of the own type. -/
  phantoms : List PortType
  radius : Float
  restRadius : Float

namespace Socket

/-- The radius at rest of a socket of type `t`: `any` sockets are drawn smaller. -/
def restRadiusOf (t : PortType) : Float :=
  if t = .any then Measure.socketRadius * 0.7 else Measure.socketRadius

def new (type : PortType) (label : String) : Socket where
  type := type
  label := label
  incoming := []
  value := none
  editable := type.isEditable
  editorShown := type.isEditable
  phantoms := []
  radius := restRadiusOf type
  restRadius := restRadiusOf type

def flow : Socket := new .connect ""

def isConnected (s : Socket) : Bool := !s.incoming.isEmpty

/-- The connector that arrived last. -/
def connector? (s : Socket) : Option ConnectorId := s.incoming.getLast?

/-- Whether a plug of type `plug` may be connected. A phantom type never lets a flow plug in. -/
def accepts (s : Socket) (plug : PortType) : Bool :=
  s.type.accepts plug || (plug != .connect && s.phantoms.contains plug)

/-- Changes the type, and with it both radii. -/
def setType (s : Socket) (type : PortType) : Socket :=
  { s with type := type, radius := restRadiusOf type, restRadius := restRadiusOf type }

def resetRadius (s : Socket) : Socket := { s with radius := s.restRadius }

def addPhantoms (s : Socket) (types : List PortType) : Socket :=
  { s with phantoms := s.phantoms ++ types }

def resetPhantoms (s : Socket) : Socket := { s with phantoms := [] }

def showEditor (s : Socket) (shown : Bool) : Socket :=
  if s.editable then { s with editorShown := shown } else s

def attach (s : Socket) (id : ConnectorId) : Socket := { s with incoming := s.incoming ++ [id] }

def detach (s : Socket) (id : ConnectorId) : Socket :=
  { s with incoming := s.incoming.filter (· ≠ id) }

end Socket
end FlowGraph
