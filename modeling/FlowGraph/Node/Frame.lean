import FlowGraph.Node.Class
import FlowGraph.Port.Plug
import FlowGraph.Port.Socket

/-! # Frames

What every node has, whatever its kind: a place and a scale, four lists of ports, a height that
follows the number of port rows, and the connectors that have to move with it. A row holds one
socket and one plug of the same collection, so a collection takes as many rows as its longer list.
-/

namespace FlowGraph
set_option autoImplicit false

/-- The ports and the geometry of a node. -/
structure Frame where
  /-- The stable name of the kind of node, used by palettes and snippets. -/
  identifier : String
  name : String
  nodeClass : NodeClass
  position : Point
  scale : Scalar
  positioned : Bool
  flowSockets : List Socket
  flowPlugs : List Plug
  dataSockets : List Socket
  dataPlugs : List Plug
  /-- The height of the body, before scaling. -/
  height : Float
  /-- The space kept free above the port rows. -/
  connectionOffset : Scalar
  /-- Whether every flow plug is a branch of its own, even a single connected one. -/
  forceBranch : Bool
  /-- The chosen operation of a node that offers several; other nodes have fixed ports. -/
  variant : Option Variant
  /-- The connectors whose ends follow this node. -/
  dependents : List ConnectorId
  /-- The truth value whose branch is previewed. -/
  simulated : Option Bool

namespace Frame

def new (identifier name : String) (nodeClass : NodeClass) : Frame where
  identifier := identifier
  name := name
  nodeClass := nodeClass
  position := .origin
  scale := 1.0
  positioned := false
  flowSockets := []
  flowPlugs := []
  dataSockets := []
  dataPlugs := []
  height := Measure.nodeHeight
  connectionOffset := 0.0
  forceBranch := false
  variant := none
  dependents := []
  simulated := none

/-! ## Ports -/

def sockets (f : Frame) : PortKind → List Socket
  | .flow => f.flowSockets
  | .data => f.dataSockets

def plugs (f : Frame) : PortKind → List Plug
  | .flow => f.flowPlugs
  | .data => f.dataPlugs

def socket? (f : Frame) (kind : PortKind) (index : Nat) : Option Socket := (f.sockets kind)[index]?

def plug? (f : Frame) (kind : PortKind) (index : Nat) : Option Plug := (f.plugs kind)[index]?

def modifySocket (f : Frame) (kind : PortKind) (index : Nat) (g : Socket → Socket) : Frame :=
  match kind with
  | .flow => { f with flowSockets := f.flowSockets.modify index g }
  | .data => { f with dataSockets := f.dataSockets.modify index g }

def modifyPlug (f : Frame) (kind : PortKind) (index : Nat) (g : Plug → Plug) : Frame :=
  match kind with
  | .flow => { f with flowPlugs := f.flowPlugs.modify index g }
  | .data => { f with dataPlugs := f.dataPlugs.modify index g }

def flowRows (f : Frame) : Nat := max f.flowSockets.length f.flowPlugs.length

def dataRows (f : Frame) : Nat := max f.dataSockets.length f.dataPlugs.length

/-- The connectors on any port: arriving before leaving, flow before data. -/
def attached (f : Frame) : List ConnectorId :=
  (f.flowSockets ++ f.dataSockets).flatMap (·.incoming) ++
    (f.flowPlugs ++ f.dataPlugs).flatMap (·.connected)

/-! ## Laying out ports -/

/-- The height after a list has grown to `length` where `rows` rows were in use. -/
def grown (height : Float) (rows length : Nat) (row : Float) : Float :=
  if rows < length then height + row * (length - rows).toFloat else height

def addFlowSocket (f : Frame) : Frame :=
  { f with
    flowSockets := f.flowSockets ++ [.flow]
    height := grown f.height f.flowRows (f.flowSockets.length + 1) Measure.flowRow }

def addFlowPlug (f : Frame) (label : String) (style : ConnectorStyle) : Frame :=
  { f with
    flowPlugs := f.flowPlugs ++ [.flow label style]
    height := grown f.height f.flowRows (f.flowPlugs.length + 1) Measure.flowRow }

def addDataSocket (f : Frame) (type : PortType) (label : String) : Frame :=
  { f with
    dataSockets := f.dataSockets ++ [.new type label]
    height := grown f.height f.dataRows (f.dataSockets.length + 1) Measure.dataRow }

def addDataPlug (f : Frame) (type : PortType) (label : String) (style : ConnectorStyle) : Frame :=
  { f with
    dataPlugs := f.dataPlugs ++ [.new type label style]
    height := grown f.height f.dataRows (f.dataPlugs.length + 1) Measure.dataRow }

/-- Drops every data port and gives back its rows. Connectors are not looked at. -/
def resetDataPorts (f : Frame) : Frame :=
  { f with
    height := f.height - Measure.dataRow * f.dataRows.toFloat
    dataSockets := []
    dataPlugs := [] }

/-- Keeps `space` free above the port rows. -/
def setConnectionOffset (f : Frame) (space : Scalar) : Frame :=
  { f with
    height := f.height + (space.value - f.connectionOffset.value)
    connectionOffset := space }

/-- The ports of an arithmetic node: two summands or factors, and what they make. -/
def layVariantPorts (f : Frame) (variant : Variant) (style : ConnectorStyle) : Frame :=
  let output := match variant with
    | .add => "Result"
    | .multiply => "Product"
  (((f.resetDataPorts).addDataSocket .num "A").addDataSocket .num "B").addDataPlug .num output style

/-! ## Geometry -/

def renderedHeight (f : Frame) : Float := f.height * f.scale.value

/-- Where the data rows start below the origin of the node, before scaling. -/
def bodyTop (f : Frame) : Scalar :=
  Measure.nodeHeight + Measure.flowRow * f.flowRows.toFloat + f.connectionOffset

def rowTop (f : Frame) (kind : PortKind) (index : Nat) : Scalar :=
  match kind with
  | .flow => Measure.flowRowsTop + f.connectionOffset + Measure.flowRow * index.toFloat
  | .data => f.bodyTop + Measure.dataRow * index.toFloat

def socketAnchor? (f : Frame) (kind : PortKind) (index : Nat) : Option Point :=
  (f.socket? kind index).map fun _ =>
    f.position.offset 0.0 ((f.rowTop kind index + Measure.socketRadius) * f.scale)

def plugAnchor? (f : Frame) (kind : PortKind) (index : Nat) : Option Point :=
  (f.plug? kind index).map fun _ =>
    let x : Scalar := Measure.nodeWidth - Measure.plugInset + Measure.socketRadius
    f.position.offset (x * f.scale) ((f.rowTop kind index + Measure.socketRadius) * f.scale)

/-! ## Dependents and preview -/

/-- Lets a connector follow this node, once. -/
def subscribe (f : Frame) (id : ConnectorId) : Frame :=
  if f.dependents.contains id then f else { f with dependents := f.dependents ++ [id] }

def unsubscribe (f : Frame) (id : ConnectorId) : Frame :=
  { f with dependents := f.dependents.filter (· ≠ id) }

/-- Previews the branch that a truth value takes: the first flow plug stands for true, the second
for false, and the other one is dimmed. -/
def simulate (f : Frame) (state : Bool) : Frame :=
  let f := { f with simulated := some state }
  if f.flowPlugs.length < 2 then f
  else
    let (active, dimmed) := if state then (0, 1) else (1, 0)
    (f.modifyPlug .flow active fun p => { p with opacity := 1.0 }).modifyPlug .flow dimmed
      fun p => { p with opacity := Measure.dimmedOpacity }

/-- Draws every flow plug at full strength, and remembers the previewed value. -/
def resetSimulation (f : Frame) : Frame :=
  { f with flowPlugs := f.flowPlugs.map fun p => { p with opacity := 1.0 } }

end Frame
end FlowGraph
