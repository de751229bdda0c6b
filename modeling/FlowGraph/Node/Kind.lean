import FlowGraph.Node.Frame
import FlowGraph.OrderedMap

/-! # Kinds of nodes

The closed set of nodes that a program is drawn with. A kind fixes the names and the ports of its
nodes, and how they react to connections and constants: a condition previews the branch it would
take, an adapting sum takes the types of its inputs, and a variable reader takes the type of the
variable it names.
-/

namespace FlowGraph
set_option autoImplicit false

inductive NodeKind where
  | startEvent
  | condition
  | consoleLog
  | isMobile
  | screenSize
  | addition
  | generalAddition
  | multiplication
  | math
  | variableWrite
  | variableRead
  deriving DecidableEq, Repr, Inhabited

/-- The variables of a session with their types, in the order of registration. -/
abbrev Variables := OrderedMap String PortType

namespace NodeKind

/-! ## Names -/

def all : List NodeKind :=
  [startEvent, condition, consoleLog, isMobile, screenSize, addition, generalAddition,
    multiplication, math, variableWrite, variableRead]

/-- The stable name in saved programs. One of them is misspelled, and saved programs hold it so. -/
def identifier : NodeKind → String
  | .startEvent => "OpenVS-Base-Event-Start"
  | .condition => "OpenVS-Base-Basic-Condition"
  | .consoleLog => "OpenVS-Base-Console-Log"
  | .isMobile => "OpenVS-Base-DInfo-Mobile"
  | .screenSize => "OpenVS-Base-DInfo-SSize"
  | .addition => "OpenVS-Base-Basic-Add"
  | .generalAddition => "OpenVS-Base-Baisc-GAdd"
  | .multiplication => "OpenVS-Base-Basic-Multiply"
  | .math => "OpenVS-Base-Basic-Math"
  | .variableWrite => "OpenVS-Base-Variable-Write"
  | .variableRead => "OpenVS-Base-Variable-Read"

def ofIdentifier? (s : String) : Option NodeKind := all.find? (·.identifier == s)

def title : NodeKind → String
  | .startEvent => "Start"
  | .condition => "If"
  | .consoleLog => "Log"
  | .isMobile => "Is Mobile"
  | .screenSize => "Screen Size"
  | .addition => "Add (Math)"
  | .generalAddition => "Add"
  | .multiplication => "Multiply (Math)"
  | .math => "Math"
  | .variableWrite => "Write Variable"
  | .variableRead => "Read Variable"

def nodeClass : NodeKind → NodeClass
  | .startEvent => .event
  | .consoleLog => .console
  | .isMobile | .screenSize => .deviceInfo
  | _ => .basic

def typeName : NodeKind → String
  | .startEvent => "StartEventNode"
  | .condition => "ConditionNode"
  | .consoleLog => "ConsoleLogNode"
  | .isMobile => "IsMobileNode"
  | .screenSize => "ScreenSizeNode"
  | .addition => "AdditionNode"
  | .generalAddition => "GeneralAdditionNode"
  | .multiplication => "MultiplicationNode"
  | .math => "MathNode"
  | .variableWrite => "VariableWriteNode"
  | .variableRead => "VariableReadNode"

def ofTypeName? (s : String) : Option NodeKind := all.find? (·.typeName == s)

/-! ## Ports -/

def layPorts (kind : NodeKind) (f : Frame) (style : ConnectorStyle) : Frame :=
  match kind with
  | .startEvent => f.addFlowPlug "Start" style
  | .condition =>
    let f := ((f.addFlowSocket.addFlowPlug "Met" style).addFlowPlug "Not met" style).addDataSocket
      .bool "Condition"
    { f with forceBranch := true }
  | .consoleLog => (f.addFlowSocket.addFlowPlug "" style).addDataSocket .any "Object"
  | .isMobile => f.addDataPlug .bool "Is Mobile" style
  | .screenSize => (f.addDataPlug .int "Pixels X" style).addDataPlug .int "Pixels Y" style
  | .addition => f.layVariantPorts .add style
  | .multiplication => f.layVariantPorts .multiply style
  | .generalAddition =>
    ((f.addDataSocket .any "A").addDataSocket .any "B").addDataPlug .any "Result" style
  | .math =>
    -- The selector of the operation stands above the ports.
    let f := f.setConnectionOffset 28.0
    { f with variant := some .add, name := Variant.add.title }.layVariantPorts .add style
  | .variableWrite =>
    ((f.addFlowSocket.addFlowPlug "" style).addDataSocket .str "Name").addDataSocket .str "Value"
  | .variableRead => (f.addDataSocket .str "Name").addDataPlug .any "Value" style

def bareFrame (kind : NodeKind) : Frame := .new kind.identifier kind.title kind.nodeClass

/-! ## Reactions -/

/-- Gives the output of an adapting sum the highest type among its inputs. -/
def settleSum (f : Frame) : Frame :=
  match PortType.highest? (f.dataSockets.map (·.type)) with
  | some type => f.modifyPlug .data 0 fun p => { p with type := type }
  | none => f

/-- Whether a socket of the node takes the type of the plug connected to it. -/
def adapts (kind : NodeKind) (port : PortKind) : Bool := kind == .generalAddition && port == .data

/-- What a connection to a socket does to its node: the editor is hidden, a preview that hangs on
the socket ends, and an adapting sum takes the type of the plug. -/
def socketConnected (kind : NodeKind) (f : Frame) (port : PortKind) (index : Nat)
    (plugType : PortType) : Frame :=
  match f.socket? port index with
  | none => f
  | some socket =>
    let f := f.modifySocket port index (·.showEditor false)
    let f := if socket.type = .bool then f.resetSimulation else f
    if kind.adapts port then settleSum (f.modifySocket port index (·.setType plugType)) else f

/-- What the loss of a connection does to the node: an adapting sum forgets the type, the editor
is shown again, and the preview that hangs on the socket returns. -/
def socketDisconnected (kind : NodeKind) (f : Frame) (port : PortKind) (index : Nat) : Frame :=
  let f :=
    if kind.adapts port then settleSum (f.modifySocket port index (·.setType .any)) else f
  match f.socket? port index with
  | none => f
  | some socket =>
    let f := f.modifySocket port index (·.showEditor true)
    match socket.type, f.simulated with
    | .bool, some state => f.simulate state
    | _, _ => f

/-- What a new constant on a data socket does to the node: a condition previews it, and a variable
reader takes the type of the variable it names, or `any`. -/
def valueChanged (kind : NodeKind) (f : Frame) (index : Nat) (value : Option Literal)
    (variableTypes : Variables) : Frame :=
  match kind with
  | .condition =>
    match value.bind Literal.bool? with
    | some state => f.simulate state
    | none => f
  | .variableRead =>
    if index = 0 then
      let type := ((value.bind Literal.text?).bind variableTypes.get?).getD .any
      f.modifyPlug .data 0 fun p => { p with type := type }
    else f
  | _ => f

end NodeKind

structure Node where
  kind : NodeKind
  frame : Frame

end FlowGraph
