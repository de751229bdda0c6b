import FlowGraph.Program.Basic
import FlowGraph.Session.Basic

/-! # Saving a session as a program

One flow is written per start node, in the order of identities. A flow follows the flow edges, and
an edge back to a node that the flow is coming from is cut. The nodes outside the flows that feed
them, directly or through others, are added in the order in which they are met.
-/

namespace FlowGraph
set_option autoImplicit false

namespace Session

/-! ## Records -/

def linksOf (s : Session) (p : Plug) : List PortLink :=
  p.connected.filterMap fun id =>
    ((s.connector? id).bind (·.connectedTo)).map fun socket =>
      ⟨id.text, socket.node.text, socket.index⟩

/-- The plug that feeds a data socket. -/
def feeder? (s : Session) (t : Socket) : Option PlugRef :=
  (t.connector?.bind s.connector?).map (·.plug)

def inputOf (s : Session) (t : Socket) : InputRecord :=
  match s.feeder? t with
  | some plug => ⟨some plug.node.text, some plug.index, t.type, false, none⟩
  | none => ⟨none, none, t.type, true, t.value⟩

def recordOf (s : Session) (id : NodeId) (n : Node) : NodeRecord where
  uid := id.text
  identifier := n.frame.identifier
  node := n.kind.typeName
  x := n.frame.position.x
  y := n.frame.position.y
  scale := n.frame.scale
  variant := n.frame.variant
  flowPlugs := n.frame.flowPlugs.map s.linksOf
  dataPlugs := n.frame.dataPlugs.map s.linksOf
  inputs := n.frame.dataSockets.map s.inputOf

/-! ## Flows -/

/-- The nodes that a flow plug leads to; a plug without connectors leads to none. -/
def waysOut (s : Session) (p : Plug) : List (Option NodeId) :=
  if p.connected.isEmpty then [none]
  else p.connected.filterMap fun id =>
    ((s.connector? id).bind (·.connectedTo)).map fun socket => some socket.node

/-- The flow from a node that is reached along `path`. No node joins a path twice, so the number
`room` of nodes that may still join it bounds the way. -/
def flowFrom (s : Session) : (room : Nat) → (path : List NodeId) → NodeId → Flow NodeId
  | 0, _, _ => []
  | room + 1, path, id =>
    match s.node? id with
    | none => []
    | some n =>
      let path := id :: path
      let follow (next : Option NodeId) : Flow NodeId :=
        match next with
        | some next => if path.contains next then [] else flowFrom s room path next
        | none => []
      let ways := n.frame.flowPlugs.flatMap s.waysOut
      if ways.all Option.isNone then [.node id]
      else
        match ways, n.frame.forceBranch with
        | [way], false => .node id :: follow way
        | ways, _ =>
          let branches := ways.map follow
          let announced : Flow NodeId :=
            if n.frame.identifier = NodeKind.condition.identifier then []
            else [.split branches.length]
          .node id :: announced ++ [.branch branches]

/-- The start nodes, in the order of their identities. -/
def startNodes (s : Session) : List NodeId :=
  let starts := s.nodes.entries.filter fun (_, n) => n.kind = .startEvent
  (starts.map (·.1)).mergeSort fun a b => a.number ≤ b.number

def flows (s : Session) : List (Flow NodeId) := s.startNodes.map (s.flowFrom s.nodes.size [])

/-! ## Nodes outside the flows -/

/-- The nodes that feed a node, in the order of its data sockets. -/
def dataSources (s : Session) (n : Node) : List NodeId :=
  n.frame.dataSockets.filterMap fun t => (s.feeder? t).map (·.node)

/-- The nodes met so far, and then those met on the way back from `id` along data edges. A node is
met once, so the way is no longer than the number of nodes. -/
def meetSources (s : Session) : (room : Nat) → (met : List NodeId) → NodeId → List NodeId
  | 0, met, _ => met
  | room + 1, met, id =>
    if met.contains id then met
    else
      match s.node? id with
      | none => met ++ [id]
      | some n => (s.dataSources n).foldl (meetSources s room) (met ++ [id])

/-- The nodes that feed some others, directly or through others, in the order in which they are
met. -/
def sourcesOf (s : Session) (ids : List NodeId) : List NodeId :=
  let sources := (ids.filterMap s.node?).flatMap s.dataSources
  sources.foldl (s.meetSources (s.nodes.size + 1)) []

/-! ## The program -/

def record? (s : Session) (id : NodeId) : Option NodeRecord := (s.node? id).map (s.recordOf id)

/-- A record that stands for no node. -/
def noRecord : NodeRecord := ⟨"", "", "", 0.0, 0.0, 1.0, none, [], [], []⟩

def toProgram (s : Session) : Program where
  flows := Entry.mapFlows (fun id => (s.record? id).getD noRecord) s.flows
  additional :=
    let inFlows := Entry.branchNodes s.flows
    ((s.sourcesOf inFlows).filter (!inFlows.contains ·)).filterMap s.record?
  variableTypes := .ofList s.variableTypes.entries

end Session
end FlowGraph
