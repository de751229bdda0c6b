import FlowGraph.Palette
import FlowGraph.Program.Basic
import FlowGraph.Session.Edit

/-! # Restoring a session from a program

All nodes come first, then all edges. A record whose identifier the palette does not know and an
edge that cannot be made are left out and reported. Of several records with one uid the first
counts.
-/

namespace FlowGraph
set_option autoImplicit false

structure RestoreReport where
  /-- The node that stands for each restored uid. -/
  nodes : OrderedMap String NodeId
  /-- The uids of records that the palette does not know. -/
  skippedNodes : List String
  skippedEdges : Nat

structure PendingEdge where
  plug : PlugRef
  socket : SocketRef

namespace Restore

def firstRecords : List NodeRecord → List NodeRecord
  | [] => []
  | r :: rest => r :: (firstRecords rest).filter (·.uid ≠ r.uid)

/-! ## Nodes -/

/-- Registers variables; a name that is taken keeps its type. -/
def registerVariables (s : Session) (types : SortedMap PortType) : Session :=
  types.entries.foldl (fun s e => (s.registerVariable e.1 e.2).2) s

def setConstants (s : Session) (id : NodeId) (r : NodeRecord) : Session :=
  r.inputs.zipIdx.foldl
    (fun s (input, index) =>
      match input.constant, input.value with
      | true, some value => (s.setValue ⟨id, .data, index⟩ (some value)).2
      | _, _ => s) s

def spawnRecord (s : Session) (kind : NodeKind) (r : NodeRecord) : NodeId × Session :=
  let (id, s) := s.spawn kind ⟨r.x, r.y⟩ r.scale
  let s := match r.variant with
    | some variant => (s.selectVariant id variant).2
    | none => s
  (id, setConstants s id r)

def spawnAll (palette : Palette) (s : Session) (report : RestoreReport) :
    List NodeRecord → Session × RestoreReport
  | [] => (s, report)
  | r :: rest =>
    match palette.kind? r.identifier with
    | none => spawnAll palette s { report with skippedNodes := report.skippedNodes ++ [r.uid] } rest
    | some kind =>
      let (id, s) := spawnRecord s kind r
      spawnAll palette s { report with nodes := report.nodes.insert r.uid id } rest

/-! ## Edges -/

/-- The edges of a plug, each with its target if that was restored. -/
def plugEdges (nodes : OrderedMap String NodeId) (plug : PlugRef) (links : List PortLink) :
    List (Option PendingEdge) :=
  links.map fun l => (nodes.get? l.target).map fun target => ⟨plug, ⟨target, plug.kind, l.socket⟩⟩

def edgesOf (nodes : OrderedMap String NodeId) (id : NodeId) (kind : PortKind)
    (plugs : List (List PortLink)) : List (Option PendingEdge) :=
  plugs.zipIdx.flatMap fun (links, index) => plugEdges nodes ⟨id, kind, index⟩ links

/-- The edges of the restored records: flow before data for each. -/
def edges (nodes : OrderedMap String NodeId) (records : List NodeRecord) :
    List (Option PendingEdge) :=
  records.flatMap fun r =>
    match nodes.get? r.uid with
    | some id => edgesOf nodes id .flow r.flowPlugs ++ edgesOf nodes id .data r.dataPlugs
    | none => []

structure Round where
  session : Session
  /-- The edges whose types did not match. -/
  deferred : List PendingEdge
  /-- The number of edges refused for another reason. -/
  refused : Nat

def connectEach (s : Session) : List PendingEdge → Round
  | [] => ⟨s, [], 0⟩
  | e :: rest =>
    match s.connect e.plug e.socket with
    | .ok (_, s) => connectEach s rest
    | .error (.typeMismatch ..) =>
      let r := connectEach s rest
      { r with deferred := e :: r.deferred }
    | .error _ =>
      let r := connectEach s rest
      { r with refused := r.refused + 1 }

/-- Makes edges in rounds and counts those that cannot be made. The type of a plug may follow an
edge that is made later, so edges whose types do not match are tried again as long as a round
makes or refuses another one. The edges grow fewer from round to round. -/
def connectAll : (rounds : Nat) → Session → List PendingEdge → Nat × Session
  | 0, s, edges => (edges.length, s)
  | rounds + 1, s, edges =>
    let r := connectEach s edges
    if r.deferred.isEmpty || r.deferred.length == edges.length then
      (r.refused + r.deferred.length, r.session)
    else
      let (skipped, s) := connectAll rounds r.session r.deferred
      (r.refused + skipped, s)

end Restore

/-- Replaces the graph of a session by that of a program. Identities are given anew. -/
def Session.restore (s : Session) (palette : Palette) (program : Program) :
    RestoreReport × Session :=
  let s := Restore.registerVariables s.removeAll program.variableTypes
  let records := Restore.firstRecords program.records
  let (s, report) := Restore.spawnAll palette s ⟨.empty, [], 0⟩ records
  let edges := Restore.edges report.nodes records
  let pending := edges.filterMap id
  let (skipped, s) := Restore.connectAll pending.length s pending
  ({ report with skippedEdges := (edges.length - pending.length) + skipped }, s)

end FlowGraph
