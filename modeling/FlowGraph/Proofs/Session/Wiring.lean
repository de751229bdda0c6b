import FlowGraph.Proofs.Node.Ports
import FlowGraph.Session.Edit

/-! # The wiring of a session

`Session.wiring` is what a session knows of its edges: the lists on its ports, the followers of its
nodes, and the two ends of each connector. Each operation changes the wiring at single points, or not
at all; the equations of this module say which.
-/

namespace FlowGraph
set_option autoImplicit false

/-- The ends of a connector. -/
structure Edge where
  plug : PlugRef
  connectedTo : Option SocketRef
  state : ConnectorState

def Connector.edge (c : Connector) : Edge := ⟨c.plug, c.connectedTo, c.state⟩

/-- Where the edges of a session are noted. -/
@[ext] structure Wiring where
  arrivals : SocketRef → Option (List ConnectorId)
  departures : PlugRef → Option (List ConnectorId)
  followers : NodeId → Option (List ConnectorId)
  edge : ConnectorId → Option Edge

def addOnce (c : ConnectorId) (l : List ConnectorId) : List ConnectorId :=
  if l.contains c then l else l ++ [c]

def without (c : ConnectorId) (l : List ConnectorId) : List ConnectorId := l.filter (· ≠ c)

namespace Wiring

def atSocket (w : Wiring) (r : SocketRef) (g : List ConnectorId → List ConnectorId) : Wiring :=
  { w with arrivals := fun q => if q = r then (w.arrivals r).map g else w.arrivals q }

def atPlug (w : Wiring) (p : PlugRef) (g : List ConnectorId → List ConnectorId) : Wiring :=
  { w with departures := fun q => if q = p then (w.departures p).map g else w.departures q }

def atNode (w : Wiring) (id : NodeId) (g : List ConnectorId → List ConnectorId) : Wiring :=
  { w with followers := fun n => if n = id then (w.followers id).map g else w.followers n }

def atEdge (w : Wiring) (c : ConnectorId) (e : Option Edge) : Wiring :=
  { w with edge := fun d => if d = c then e else w.edge d }

theorem atNode_self (w : Wiring) (id : NodeId) : w.atNode id (fun l => l) = w := by
  refine Wiring.ext rfl rfl (funext fun n => ?_) rfl
  show (if n = id then (w.followers id).map fun l => l else w.followers n) = w.followers n
  split
  · rename_i hn
    rw [hn, Option.map_id']
  · rfl

theorem atEdge_self {w : Wiring} {c : ConnectorId} {e : Option Edge} (h : w.edge c = e) :
    w.atEdge c e = w := by
  refine Wiring.ext rfl rfl rfl (funext fun d => ?_)
  show (if d = c then e else w.edge d) = w.edge d
  split
  · rename_i hd
    rw [hd, h]
  · rfl

/-- The wiring with a new loose connector. -/
def opened (w : Wiring) (c : ConnectorId) (p : PlugRef) : Wiring :=
  (w.atNode p.node (· ++ [c])).atEdge c (some ⟨p, none, .dragging⟩)

/-- The wiring after a loose connector has reached a socket. -/
def linkedTo (w : Wiring) (c : ConnectorId) (p : PlugRef) (r : SocketRef) : Wiring :=
  ((((w.atSocket r (· ++ [c])).atNode r.node (addOnce c)).atPlug p (· ++ [c])).atNode p.node
    (addOnce c)).atEdge c (some ⟨p, some r, .connected⟩)

/-- The wiring after an edge has been picked up at its socket. -/
def loosened (w : Wiring) (c : ConnectorId) (p : PlugRef) (r : SocketRef) : Wiring :=
  (((w.atEdge c (some ⟨p, none, .dragging⟩)).atSocket r (without c)).atNode r.node
    (without c)).atPlug p (without c)

/-- The wiring after a loose connector has been thrown away. -/
def dropped (w : Wiring) (c : ConnectorId) (p : PlugRef) : Wiring :=
  ((w.atEdge c none).atPlug p (without c)).atNode p.node (without c)

/-- Puts a node in the place of another one, or of none. -/
def placed (w : Wiring) (id : NodeId) (node : Option Wires) : Wiring where
  arrivals r := if r.node = id then node.bind fun n => n.arrivals r.kind r.index else w.arrivals r
  departures p := if p.node = id then node.bind fun n => n.departures p.kind p.index else w.departures p
  followers n := if n = id then node.map (·.dependents) else w.followers n
  edge := w.edge

end Wiring

namespace Session

/-- Where the edges of the session are noted. -/
def wiring (s : Session) : Wiring where
  arrivals r := (s.socket? r).map (·.incoming)
  departures p := (s.plug? p).map (·.connected)
  followers id := (s.node? id).map (·.frame.dependents)
  edge c := (s.connector? c).map (·.edge)

def wires? (s : Session) (id : NodeId) : Option Wires := (s.node? id).map (·.frame.wires)

theorem arrivals_eq (s : Session) (r : SocketRef) :
    s.wiring.arrivals r = (s.wires? r.node).bind fun w => w.arrivals r.kind r.index := by
  simp only [wiring, socket?, wires?, Frame.wires, Option.map_bind, Option.bind_map, Function.comp_def]

theorem departures_eq (s : Session) (p : PlugRef) :
    s.wiring.departures p = (s.wires? p.node).bind fun w => w.departures p.kind p.index := by
  simp only [wiring, plug?, wires?, Frame.wires, Option.map_bind, Option.bind_map, Function.comp_def]

theorem followers_eq (s : Session) (id : NodeId) :
    s.wiring.followers id = (s.wires? id).map (·.dependents) := by
  simp only [wiring, wires?, Frame.wires, Option.map_map, Function.comp_def]

section Views
variable {s t : Session}

/-- Two sessions note the same edges when their nodes have the same wires and their connectors the
same ends. -/
theorem wiring_congr (hnode : ∀ id, t.wires? id = s.wires? id)
    (hedge : t.wiring.edge = s.wiring.edge) : t.wiring = s.wiring := by
  refine Wiring.ext ?_ ?_ ?_ hedge
  · funext r
    rw [arrivals_eq, arrivals_eq, hnode]
  · funext p
    rw [departures_eq, departures_eq, hnode]
  · funext id
    rw [followers_eq, followers_eq, hnode]

theorem wiring_placed (id : NodeId) (node : Option Wires)
    (hnode : ∀ n, t.wires? n = if n = id then node else s.wires? n)
    (hedge : t.wiring.edge = s.wiring.edge) : t.wiring = s.wiring.placed id node := by
  refine Wiring.ext ?_ ?_ ?_ hedge
  · funext r
    show t.wiring.arrivals r =
      if r.node = id then node.bind fun n => n.arrivals r.kind r.index else s.wiring.arrivals r
    rw [arrivals_eq, arrivals_eq, hnode]
    split <;> rfl
  · funext p
    show t.wiring.departures p =
      if p.node = id then node.bind fun n => n.departures p.kind p.index else s.wiring.departures p
    rw [departures_eq, departures_eq, hnode]
    split <;> rfl
  · funext n
    show t.wiring.followers n = if n = id then node.map (·.dependents) else s.wiring.followers n
    rw [followers_eq, followers_eq, hnode]
    split <;> rfl

theorem wiring_atNode (id : NodeId) (h : List ConnectorId → List ConnectorId)
    (hnode : ∀ n, t.wires? n = if n = id then (s.wires? n).map fun w =>
      { w with dependents := h w.dependents } else s.wires? n)
    (hedge : t.wiring.edge = s.wiring.edge) : t.wiring = s.wiring.atNode id h := by
  refine Wiring.ext ?_ ?_ ?_ hedge
  · funext r
    show t.wiring.arrivals r = s.wiring.arrivals r
    rw [arrivals_eq, arrivals_eq, hnode]
    split
    · simp only [Option.bind_map, Function.comp_def]
    · rfl
  · funext p
    show t.wiring.departures p = s.wiring.departures p
    rw [departures_eq, departures_eq, hnode]
    split
    · simp only [Option.bind_map, Function.comp_def]
    · rfl
  · funext n
    show t.wiring.followers n = if n = id then (s.wiring.followers id).map h else s.wiring.followers n
    rw [followers_eq, followers_eq, followers_eq, hnode]
    split
    · rename_i e
      simp only [Option.map_map, Function.comp_def, e]
    · rfl

theorem wiring_atSocket (r : SocketRef) (g h : List ConnectorId → List ConnectorId)
    (hnode : ∀ id, t.wires? id = if id = r.node then (s.wires? id).map fun w =>
      { w.atSocket r.kind r.index g with dependents := h w.dependents } else s.wires? id)
    (hedge : t.wiring.edge = s.wiring.edge) :
    t.wiring = (s.wiring.atSocket r g).atNode r.node h := by
  refine Wiring.ext ?_ ?_ ?_ hedge
  · funext q
    show t.wiring.arrivals q = if q = r then (s.wiring.arrivals r).map g else s.wiring.arrivals q
    obtain ⟨node, kind, index⟩ := q
    rw [arrivals_eq, arrivals_eq, arrivals_eq, hnode]
    by_cases hn : node = r.node
    · subst hn
      cases s.wires? r.node with
      | none => simp
      | some w => simp [Wires.atSocket, SocketRef.ext_iff]
    · have hq : (⟨node, kind, index⟩ : SocketRef) ≠ r := fun e => hn (e ▸ rfl)
      rw [if_neg hn, if_neg hq]
  · funext p
    show t.wiring.departures p = s.wiring.departures p
    rw [departures_eq, departures_eq, hnode]
    split
    · simp only [Option.bind_map, Function.comp_def, Wires.atSocket]
    · rfl
  · funext id
    show t.wiring.followers id =
      if id = r.node then (s.wiring.followers r.node).map h else s.wiring.followers id
    rw [followers_eq, followers_eq, followers_eq, hnode]
    split
    · rename_i e
      simp only [Option.map_map, Function.comp_def, e]
    · rfl

theorem wiring_atPlug (p : PlugRef) (g h : List ConnectorId → List ConnectorId)
    (hnode : ∀ id, t.wires? id = if id = p.node then (s.wires? id).map fun w =>
      { w.atPlug p.kind p.index g with dependents := h w.dependents } else s.wires? id)
    (hedge : t.wiring.edge = s.wiring.edge) :
    t.wiring = (s.wiring.atPlug p g).atNode p.node h := by
  refine Wiring.ext ?_ ?_ ?_ hedge
  · funext r
    show t.wiring.arrivals r = s.wiring.arrivals r
    rw [arrivals_eq, arrivals_eq, hnode]
    split
    · simp only [Option.bind_map, Function.comp_def, Wires.atPlug]
    · rfl
  · funext q
    show t.wiring.departures q = if q = p then (s.wiring.departures p).map g else s.wiring.departures q
    obtain ⟨node, kind, index⟩ := q
    rw [departures_eq, departures_eq, departures_eq, hnode]
    by_cases hn : node = p.node
    · subst hn
      cases s.wires? p.node with
      | none => simp
      | some w => simp [Wires.atPlug, PlugRef.ext_iff]
    · have hq : (⟨node, kind, index⟩ : PlugRef) ≠ p := fun e => hn (e ▸ rfl)
      rw [if_neg hn, if_neg hq]
  · funext id
    show t.wiring.followers id =
      if id = p.node then (s.wiring.followers p.node).map h else s.wiring.followers id
    rw [followers_eq, followers_eq, followers_eq, hnode]
    split
    · rename_i e
      simp only [Option.map_map, Function.comp_def, e]
    · rfl

end Views

/-! ## Single changes -/

section Changes
variable (s : Session)

theorem node?_modifyNode (id n : NodeId) (f : Node → Node) :
    (s.modifyNode id f).node? n = if n = id then (s.node? n).map f else s.node? n :=
  s.nodes.get?_modify id n f

theorem connector?_modifyConnector (c d : ConnectorId) (f : Connector → Connector) :
    (s.modifyConnector c f).connector? d =
      if d = c then (s.connector? d).map f else s.connector? d :=
  s.connectors.get?_modify c d f

@[simp] theorem connector?_modifyNode (id : NodeId) (f : Node → Node) (c : ConnectorId) :
    (s.modifyNode id f).connector? c = s.connector? c := rfl

@[simp] theorem node?_modifyConnector (c : ConnectorId) (f : Connector → Connector) (id : NodeId) :
    (s.modifyConnector c f).node? id = s.node? id := rfl

/-- A path that is drawn leaves everything as it was but the drawing. -/
theorem drawPath_eq (c : ConnectorId) : ∃ calls, s.drawPath c = { s with calls := calls } := by
  unfold drawPath
  split <;> exact ⟨_, rfl⟩

@[simp] theorem connector?_drawPath (c d : ConnectorId) : (s.drawPath c).connector? d = s.connector? d := by
  unfold drawPath
  split <;> rfl

@[simp] theorem node?_drawPath (c : ConnectorId) (id : NodeId) : (s.drawPath c).node? id = s.node? id := by
  unfold drawPath
  split <;> rfl

@[simp] theorem wiring_draw (call : DrawCall) : (s.draw call).wiring = s.wiring := rfl

@[simp] theorem wiring_drawPath (c : ConnectorId) : (s.drawPath c).wiring = s.wiring := by
  unfold drawPath
  split <;> rfl

theorem wires?_modifyNode (id n : NodeId) (f : Node → Node) (g : Wires → Wires)
    (h : ∀ n, (f n).frame.wires = g n.frame.wires) :
    (s.modifyNode id f).wires? n = if n = id then (s.wires? n).map g else s.wires? n := by
  rw [wires?, node?_modifyNode]
  split
  · simp only [wires?, Option.map_map, Function.comp_def, h]
  · rfl

/-- Changes of a node that leave its wires alone. -/
theorem wiring_modifyNode (id : NodeId) (f : Node → Node) (h : ∀ n, (f n).frame.wires = n.frame.wires) :
    (s.modifyNode id f).wiring = s.wiring := by
  refine wiring_congr (fun n => ?_) rfl
  rw [s.wires?_modifyNode id n f (fun w => w) h]
  simp

theorem wiring_modifyFrame (id : NodeId) (f : Frame → Frame) (h : ∀ g, (f g).wires = g.wires) :
    (s.modifyFrame id f).wiring = s.wiring :=
  s.wiring_modifyNode id _ fun n => h n.frame

theorem wiring_modifyConnector (c : ConnectorId) (f : Connector → Connector) (g : Edge → Edge)
    (h : ∀ k, (f k).edge = g k.edge) :
    (s.modifyConnector c f).wiring = s.wiring.atEdge c ((s.wiring.edge c).map g) := by
  refine Wiring.ext rfl rfl rfl (funext fun d => ?_)
  show ((s.modifyConnector c f).connector? d).map (·.edge) =
    if d = c then (s.wiring.edge c).map g else s.wiring.edge d
  rw [connector?_modifyConnector]
  split
  · rename_i hd
    simp only [wiring, Option.map_map, Function.comp_def, h, hd]
  · rfl

/-- Changes of a connector that leave its ends alone. -/
theorem wiring_modifyConnector_eq (c : ConnectorId) (f : Connector → Connector)
    (h : ∀ k, (f k).edge = k.edge) : (s.modifyConnector c f).wiring = s.wiring := by
  rw [s.wiring_modifyConnector c f id h, Option.map_id_fun]
  exact Wiring.atEdge_self rfl

@[simp] theorem wiring_setRadius (r : SocketRef) (radius : Float) :
    (s.setRadius r radius).wiring = s.wiring :=
  s.wiring_modifyFrame _ _ fun f => f.wires_modifySocket_eq _ _ _ fun _ => rfl

@[simp] theorem wiring_resetRadius (r : SocketRef) : (s.resetRadius r).wiring = s.wiring :=
  s.wiring_modifyFrame _ _ fun f => f.wires_modifySocket_eq _ _ _ fun _ => rfl

@[simp] theorem wiring_resetRadius? (r : Option SocketRef) : (s.resetRadius? r).wiring = s.wiring := by
  cases r with
  | none => rfl
  | some r => exact s.wiring_resetRadius r

/-! ## Edges -/

theorem wiring_receive (id : ConnectorId) (r : SocketRef) (type : PortType) :
    (s.modifyNode r.node (·.receive id r.kind r.index type)).wiring =
      (s.wiring.atSocket r (· ++ [id])).atNode r.node (addOnce id) :=
  wiring_atSocket r _ _ (fun n => s.wires?_modifyNode r.node n _ _ fun m => m.wires_receive ..) rfl

theorem wiring_release (id : ConnectorId) (r : SocketRef) :
    (s.modifyNode r.node (·.release id r.kind r.index)).wiring =
      (s.wiring.atSocket r (without id)).atNode r.node (without id) :=
  wiring_atSocket r _ _ (fun n => s.wires?_modifyNode r.node n _ _ fun m => m.wires_release ..) rfl

theorem wiring_send (id : ConnectorId) (p : PlugRef) :
    (s.modifyNode p.node (·.send id p.kind p.index)).wiring =
      (s.wiring.atPlug p (· ++ [id])).atNode p.node (addOnce id) :=
  wiring_atPlug p _ _ (fun n => s.wires?_modifyNode p.node n _ _ fun m => m.wires_send ..) rfl

theorem wiring_withdraw (id : ConnectorId) (p : PlugRef) :
    (s.modifyNode p.node (·.withdraw id p.kind p.index)).wiring =
      (s.wiring.atPlug p (without id)).atNode p.node (without id) :=
  wiring_atPlug p _ _ (fun n => s.wires?_modifyNode p.node n _ _ fun m => m.wires_withdraw ..) rfl

theorem wiring_detachPlug (id : ConnectorId) (p : PlugRef) :
    (s.modifyFrame p.node fun f => f.modifyPlug p.kind p.index (·.detach id)).wiring =
      s.wiring.atPlug p (without id) := by
  have hplug := wiring_atPlug (s := s) (t := s.modifyFrame p.node fun f =>
    f.modifyPlug p.kind p.index (·.detach id)) p (without id) (fun l => l)
    (fun n => s.wires?_modifyNode p.node n _ _ fun m =>
      m.frame.wires_modifyPlug p.kind p.index _ (without id) fun _ => rfl) rfl
  rw [hplug, Wiring.atNode_self]

theorem wiring_addConnector (plug : PlugRef) (start stop : Point) (style : ConnectorStyle) :
    (s.addConnector plug start stop style).2.wiring = s.wiring.opened s.ids.connector.1 plug := by
  have hfollow (t : Session) (c : ConnectorId) :
      (t.modifyFrame plug.node fun f => { f with dependents := f.dependents ++ [c] }).wiring =
        t.wiring.atNode plug.node (· ++ [c]) :=
    wiring_atNode plug.node _ (fun n => t.wires?_modifyNode plug.node n _ _ fun _ => rfl) rfl
  have hf := hfollow { s with ids := s.ids.connector.2 } s.ids.connector.1
  have harrivals := congrArg Wiring.arrivals hf
  have hdepartures := congrArg Wiring.departures hf
  have hfollowers := congrArg Wiring.followers hf
  refine Wiring.ext harrivals hdepartures hfollowers (funext fun d => ?_)
  show ((s.connectors.put s.ids.connector.1 _).get? d).map (·.edge) =
    if d = s.ids.connector.1 then some ⟨plug, none, .dragging⟩ else s.wiring.edge d
  rw [OrderedMap.get?_put]
  split <;> rfl

theorem edge_addConnector (plug : PlugRef) (start stop : Point) (style : ConnectorStyle) :
    (s.addConnector plug start stop style).2.wiring.edge s.ids.connector.1 =
      some ⟨plug, none, .dragging⟩ := by
  rw [wiring_addConnector]
  exact if_pos rfl

theorem edge_eq_some {s : Session} {id : ConnectorId} {e : Edge} (h : s.wiring.edge id = some e) :
    ∃ c, s.connector? id = some c ∧ c.edge = e := Option.map_eq_some_iff.1 h

theorem wiring_link {s : Session} {id : ConnectorId} {e : Edge} (h : s.wiring.edge id = some e)
    (socket : SocketRef) : (s.link id socket).wiring = s.wiring.linkedTo id e.plug socket := by
  obtain ⟨c, hc, rfl⟩ := edge_eq_some h
  unfold link
  simp only [hc, wiring_drawPath]
  rw [wiring_modifyConnector _ _ _ (fun e => ⟨e.plug, some socket, .connected⟩) fun _ => rfl,
    wiring_send, wiring_receive, Wiring.linkedTo]
  congr 1
  show (s.wiring.edge id).map _ = _
  rw [h]
  rfl

theorem wiring_detachSocket {s : Session} {id : ConnectorId} {e : Edge} {socket : SocketRef}
    (h : s.wiring.edge id = some e) (hto : e.connectedTo = some socket) :
    (s.detachSocket id).wiring =
      ((s.wiring.atEdge id (some ⟨e.plug, none, .dragging⟩)).atSocket socket (without id)).atNode
        socket.node (without id) := by
  obtain ⟨c, hc, rfl⟩ := edge_eq_some h
  have hsocket : c.connectedTo = some socket := hto
  unfold detachSocket
  simp only [hc, Option.bind_some, hsocket]
  rw [wiring_release, wiring_modifyConnector _ _ _ (fun e => ⟨e.plug, none, .dragging⟩) fun _ => rfl, h]
  rfl

theorem wiring_eraseConnector (id : ConnectorId) :
    { s with connectors := s.connectors.erase id }.wiring = s.wiring.atEdge id none := by
  refine Wiring.ext rfl rfl rfl (funext fun d => ?_)
  show ((s.connectors.erase id).get? d).map (·.edge) = if d = id then none else s.wiring.edge d
  rw [OrderedMap.get?_erase]
  split <;> rfl

theorem wiring_destroyConnector {s : Session} {id : ConnectorId} {e : Edge}
    (h : s.wiring.edge id = some e) :
    (s.destroyConnector id).wiring = s.wiring.dropped id e.plug := by
  obtain ⟨c, hc, rfl⟩ := edge_eq_some h
  unfold destroyConnector
  simp only [hc, wiring_draw]
  rw [wiring_withdraw, wiring_eraseConnector]
  rfl

theorem wiring_detach {s : Session} {id : ConnectorId} {e : Edge} {socket : SocketRef}
    (h : s.wiring.edge id = some e) (hto : e.connectedTo = some socket) :
    ((s.detachSocket id).modifyFrame e.plug.node fun f =>
      f.modifyPlug e.plug.kind e.plug.index (·.detach id)).wiring =
        s.wiring.loosened id e.plug socket := by
  rw [wiring_detachPlug, wiring_detachSocket h hto]
  rfl

/-- Dropping an edge is loosening it and throwing the connector away. -/
theorem wiring_detach_destroy {s : Session} {id : ConnectorId} {e : Edge} {socket : SocketRef}
    (h : s.wiring.edge id = some e) (hto : e.connectedTo = some socket) :
    ((s.detachSocket id).destroyConnector id).wiring =
      (s.wiring.loosened id e.plug socket).dropped id e.plug := by
  have hedge : (s.detachSocket id).wiring.edge id = some ⟨e.plug, none, .dragging⟩ := by
    rw [wiring_detachSocket h hto]
    exact if_pos rfl
  rw [wiring_destroyConnector hedge, wiring_detachSocket h hto]
  refine Wiring.ext rfl (funext fun q => ?_) rfl rfl
  show (if q = e.plug then (s.wiring.departures e.plug).map (without id) else s.wiring.departures q) =
    if q = e.plug then (if e.plug = e.plug then (s.wiring.departures e.plug).map (without id)
      else s.wiring.departures e.plug).map (without id)
    else if q = e.plug then (s.wiring.departures e.plug).map (without id) else s.wiring.departures q
  split
  · rw [if_pos rfl, Option.map_map]
    congr 1
    funext l
    simp only [Function.comp_apply, without, List.filter_filter, Bool.and_self]
  · rfl

end Changes

end Session
end FlowGraph
