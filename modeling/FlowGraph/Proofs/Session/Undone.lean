import FlowGraph.Proofs.Node.Undone
import FlowGraph.Proofs.Session.Anchors
import FlowGraph.Proofs.Session.Dragging
import FlowGraph.Proofs.Session.Evolving
import FlowGraph.Proofs.Session.Picture

/-! # Connections undone

A session to which an edge has been added, and from which the edge has been dropped at once, is the session
that it was. Only the identity of the connector is gone for good.
-/

namespace FlowGraph
set_option autoImplicit false

/-! ## Entries that come and go -/

namespace OrderedMap
variable {κ α : Type} [DecidableEq κ]

theorem modify_modify (m : OrderedMap κ α) (k : κ) (f g : α → α) :
    (m.modify k f).modify k g = m.modify k (g ∘ f) := by
  simp only [modify, List.map_map, mk.injEq]
  refine List.map_congr_left fun e _ => ?_
  by_cases he : e.1 = k <;> simp [he]

/-- A change of one entry that does nothing to it. -/
theorem modify_eq_self {m : OrderedMap κ α} (honce : m.keys.Nodup) {k : κ} {f : α → α}
    (h : ∀ a, m.get? k = some a → f a = a) : m.modify k f = m := by
  refine eq_of_get? (m.keys_modify k f) honce fun l => ?_
  rw [get?_modify]
  split
  · rename_i hl
    subst hl
    cases ha : m.get? l with
    | none => rfl
    | some a => exact congrArg some (h a ha)
  · rfl

theorem erase_modify (m : OrderedMap κ α) (k : κ) (f : α → α) : (m.modify k f).erase k = m.erase k := by
  refine congrArg mk ?_
  show (m.entries.map _).filter _ = m.entries.filter _
  induction m.entries with
  | nil => rfl
  | cons e es ih => by_cases he : e.1 = k <;> simp_all

theorem erase_put {m : OrderedMap κ α} {k : κ} (hk : k ∉ m.keys) (a : α) : (m.put k a).erase k = m := by
  have hall : ∀ e ∈ m.entries, decide (e.1 ≠ k) = true := by
    intro e he
    refine decide_eq_true ?_
    rintro rfl
    exact hk (List.mem_map_of_mem he)
  refine congrArg mk ?_
  show (m.entries.filter _ ++ [(k, a)]).filter _ = m.entries
  rw [List.filter_eq_self.2 hall, List.filter_append, List.filter_eq_self.2 hall]
  simp

end OrderedMap

namespace Session

/-- The session is the same again, but for the next connector identity, which has been handed out, and for
what has been drawn. -/
def Returned (s t : Session) : Prop :=
  ∃ calls, t = { s with ids := ⟨s.ids.nextNode, s.ids.nextConnector + 1⟩, calls := calls }

/-! ## Single changes in one piece -/

section Pieces
variable {s : Session} {c : ConnectorId} {k : Connector} {r : SocketRef}

theorem addConnector_eq (p : PlugRef) (start stop : Point) (style : ConnectorStyle) :
    (s.addConnector p start stop style).2 = { s with
      ids := s.ids.connector.2
      nodes := s.nodes.modify p.node (·.follow s.ids.connector.1)
      connectors := s.connectors.put s.ids.connector.1 (.drawnFrom p start stop style)
      calls := .attach (.connector s.ids.connector.1) :: s.calls } := rfl

theorem link_eq (hk : s.connector? c = some k) (r : SocketRef) : ∃ (type : PortType) (stop : Option Point)
    (calls : List DrawCall), s.link c r = { s with
    nodes := (s.nodes.modify r.node (·.receive c r.kind r.index type)).modify k.plug.node
      (·.send c k.plug.kind k.plug.index)
    connectors := s.connectors.modify c fun k =>
      { k with connectedTo := some r, state := .connected, stop := stop.getD k.stop }
    calls := calls } := by
  unfold link
  rw [hk]
  dsimp only
  generalize ((s.plug? k.plug).map (·.type)).getD .any = type
  obtain ⟨calls, hdrawn⟩ := drawPath_eq (((s.modifyNode r.node (·.receive c r.kind r.index type)).modifyNode
    k.plug.node (·.send c k.plug.kind k.plug.index)).modifyConnector c fun k =>
      { k with connectedTo := some r, state := .connected, stop := (s.socketAnchor? r).getD k.stop }) c
  exact ⟨type, _, calls, hdrawn⟩

theorem detachSocket_eq (hk : s.connector? c = some k) (hto : k.connectedTo = some r) :
    s.detachSocket c = { s with
      nodes := s.nodes.modify r.node (·.release c r.kind r.index)
      connectors := s.connectors.modify c fun k => { k with connectedTo := none, state := .dragging } } := by
  unfold detachSocket
  rw [hk, Option.bind_some, hto]
  rfl

theorem destroyConnector_eq (hk : s.connector? c = some k) : s.destroyConnector c = { s with
    nodes := s.nodes.modify k.plug.node (·.withdraw c k.plug.kind k.plug.index)
    connectors := s.connectors.erase c
    calls := .dispose (.connector c) :: s.calls } := by
  unfold destroyConnector
  rw [hk]
  rfl

/-- An edge is dropped with both its ends. -/
theorem disconnect_eq (hc : s.draggedConnector? ≠ some c) (hk : s.connector? c = some k)
    (hto : k.connectedTo = some r) : s.disconnect c = (true, { s with
      nodes := (s.nodes.modify r.node (·.release c r.kind r.index)).modify k.plug.node
        (·.withdraw c k.plug.kind k.plug.index)
      connectors := s.connectors.erase c
      calls := .dispose (.connector c) :: s.calls }) := by
  have hin : s.connectors.contains c = true := by
    rw [← OrderedMap.get?_isSome]
    exact Option.isSome_of_eq_some hk
  have hloose : (s.detachSocket c).connector? c = some { k with connectedTo := none, state := .dragging } := by
    rw [detachSocket_eq hk hto, connector?, OrderedMap.get?_modify, if_pos rfl]
    exact congrArg (Option.map _) hk
  unfold disconnect
  rw [if_neg hc, if_pos hin, destroyConnector_eq hloose, detachSocket_eq hk hto]
  dsimp only
  rw [OrderedMap.erase_modify]

end Pieces

/-! ## Disconnecting -/

section Listed
variable {s : Session} {loose : ConnectorId → Prop} (h : s.Tied loose) {id : NodeId} {n : Node}
  (hn : s.node? id = some n) {port : PortKind} {index : Nat}

include h hn

/-- The lists of a node hold the connectors with that end. -/
theorem mem_incoming_iff {t : Socket} (ht : n.frame.socket? port index = some t) (c : ConnectorId) :
    c ∈ t.incoming ↔ s.wiring.Joined (·.connectedTo = some ⟨id, port, index⟩) c := by
  have hsocket : s.socket? ⟨id, port, index⟩ = some t := Option.bind_eq_some_iff.2 ⟨n, hn, ht⟩
  exact (h.sound.arrivals _ _ (arrivals_of_socket? hsocket)).2 c

theorem mem_connected_iff {q : Plug} (hq : n.frame.plug? port index = some q) (c : ConnectorId) :
    c ∈ q.connected ↔ s.wiring.Joined (·.Leaves ⟨id, port, index⟩) c := by
  have hplug : s.plug? ⟨id, port, index⟩ = some q := Option.bind_eq_some_iff.2 ⟨n, hn, hq⟩
  exact (h.sound.departures _ _ (departures_of_plug? hplug)).2 c

theorem mem_dependents_iff (c : ConnectorId) :
    c ∈ n.frame.dependents ↔ s.wiring.Joined (·.Touches id) c :=
  (h.sound.followers id _ (followers_of_node? hn)).2 c

end Listed

section Fresh
variable {s : Session} (h : s.Intact) {id : NodeId} {n : Node} (hn : s.node? id = some n)

include h

/-- A connector that is still to be handed out is nowhere. -/
theorem connector_fresh : s.ids.connector.1 ∉ s.connectors.keys := by
  rw [← edge_isSome, h.tied.edge_fresh]
  exact Bool.false_ne_true

theorem not_joined_fresh (P : Edge → Prop) : ¬s.wiring.Joined P s.ids.connector.1 :=
  Wiring.Sound.not_joined h.tied.edge_fresh P

include hn

theorem unfollowed : s.ids.connector.1 ∉ n.frame.dependents := fun hmem =>
  not_joined_fresh h _ ((mem_dependents_iff h.tied hn _).1 hmem)

theorem unfastened (port : PortKind) (index : Nat) (q : Plug) (hq : n.frame.plug? port index = some q) :
    s.ids.connector.1 ∉ q.connected := fun hmem =>
  not_joined_fresh h _ ((mem_connected_iff h.tied hn hq _).1 hmem)

theorem unreceived (port : PortKind) (index : Nat) (t : Socket) (ht : n.frame.socket? port index = some t) :
    s.ids.connector.1 ∉ t.incoming := fun hmem =>
  not_joined_fresh h _ ((mem_incoming_iff h.tied hn ht _).1 hmem)

end Fresh

/-- An edge that is made and dropped again leaves the nodes as they were. -/
theorem nodes_back {s : Session} (h : s.Reached) (hd : s.drag = none) {p : PlugRef} {r : SocketRef}
    (hv : s.validate p r = .ok ()) (type : PortType) :
    ((((s.nodes.modify p.node (·.follow s.ids.connector.1)).modify r.node
      (·.receive s.ids.connector.1 r.kind r.index type)).modify p.node
        (·.send s.ids.connector.1 p.kind p.index)).modify r.node
          (·.release s.ids.connector.1 r.kind r.index)).modify p.node
            (·.withdraw s.ids.connector.1 p.kind p.index) = s.nodes := by
  have hi := h.intact
  obtain ⟨q, t, hq, ht, hnode, hkind, -, -, hfree⟩ := validate_eq_ok.1 hv
  refine OrderedMap.eq_of_get? (by simp only [OrderedMap.keys_modify]) hi.tied.nodesOnce fun id => ?_
  simp only [OrderedMap.get?_modify]
  cases hn : s.nodes.get? id with
  | none => split <;> split <;> rfl
  | some n =>
    by_cases hp : id = p.node
    · subst hp
      have hback : ((n.follow s.ids.connector.1).send s.ids.connector.1 p.kind p.index).withdraw
          s.ids.connector.1 p.kind p.index = n :=
        Node.withdraw_send_follow (fun q hq => unfastened hi hn p.kind p.index q hq) (unfollowed hi hn)
      simp only [if_true, if_neg hnode, Option.map_some, hback]
    · by_cases hr : id = r.node
      · subst hr
        have hsocket : n.frame.socket? r.kind r.index = some t := by
          rw [socket?, show s.node? r.node = some n from hn] at ht
          exact ht
        have hidle : r.kind = .data → t.incoming = [] := by
          intro hdata
          have hempty := hfree hdata
          rw [Socket.isConnected, Bool.not_eq_false'] at hempty
          exact List.isEmpty_iff.1 hempty
        have hrest : t.radius = t.restRadius := by
          by_contra hlarge
          exact h.aimed.not_enlarged_of_idle hd r ⟨t, ht, hlarge⟩
        have hback := (h.settled hn).release_receive (h.shaped r.node n hn) hsocket hidle type hrest
          (unreceived hi hn r.kind r.index t hsocket) (unfollowed hi hn)
        simp only [if_neg hp, if_true, Option.map_some, hback]
      · simp only [if_neg hp, if_neg hr]

/-- Disconnecting undoes connecting. -/
theorem Reached.disconnect_connect {s t : Session} (h : s.Reached) (hd : s.drag = none) {p : PlugRef}
    {r : SocketRef} {c : ConnectorId} (hc : s.connect p r = .ok (c, t)) :
    ∃ u, t.disconnect c = (true, u) ∧ s.Returned u := by
  obtain ⟨hv, rfl, style, rfl⟩ := Intact.connect_at_plug hc
  generalize (s.plugAnchor? p).getD .origin = start
  have hk : (s.addConnector p start start style).2.connector? s.ids.connector.1 =
      some (.drawnFrom p start start style) := by
    rw [connector?_addConnector, if_pos rfl]
  obtain ⟨type, stop, calls, hlink⟩ := link_eq hk r
  have hlinked := connector?_link hk r s.ids.connector.1
  rw [if_pos rfl] at hlinked
  refine ⟨_, disconnect_eq ?_ hlinked rfl, .dispose (.connector s.ids.connector.1) :: calls, ?_⟩
  · rw [hlink]
    exact Intact.idle_of_no_drag hd _
  · have hnodes := nodes_back h hd hv type
    have hconnectors := OrderedMap.erase_put (connector_fresh h.intact) (Connector.drawnFrom p start start style)
    rw [hlink, addConnector_eq]
    dsimp only
    rw [OrderedMap.erase_modify, hconnectors]
    exact congrArg (fun nodes => { s with
      ids := s.ids.connector.2, nodes := nodes, calls := .dispose (.connector s.ids.connector.1) :: calls }) hnodes

/-- A condition previews a constant, and a sum has adapted to its other input. -/
theorem disconnect_connect_amid_previews : ∃ s t, s = (new .standard).applyAll
    [.spawn .isMobile .origin 1.0, .spawn .condition .origin 1.0, .spawn .generalAddition .origin 1.0,
      .setValue ⟨⟨1⟩, .data, 0⟩ (some (.bool false)), .connect ⟨⟨0⟩, .data, 0⟩ ⟨⟨2⟩, .data, 1⟩] ∧
    s.drag = none ∧ s.connect ⟨⟨0⟩, .data, 0⟩ ⟨⟨1⟩, .data, 0⟩ = .ok (⟨1⟩, t) ∧
    ∃ u, t.disconnect ⟨1⟩ = (true, u) ∧ s.Returned u := by
  refine ⟨_, _, rfl, rfl, rfl, ?_⟩
  exact Reached.disconnect_connect ⟨.standard, _, by simp [Operation.Public], rfl⟩ rfl
    (p := ⟨⟨0⟩, .data, 0⟩) (r := ⟨⟨1⟩, .data, 0⟩) rfl

/-! ## One socket changed -/

/-- A change of one socket, as the radii of snap targets are changed. -/
def withSocket (s : Session) (q : SocketRef) (g : Socket → Socket) : Session :=
  s.modifyFrame q.node fun f => f.modifySocket q.kind q.index g

theorem socket?_withSocket (s : Session) (q : SocketRef) (g : Socket → Socket) (r : SocketRef) :
    (s.withSocket q g).socket? r = if q = r then (s.socket? r).map g else s.socket? r := by
  rw [socket?, withSocket, modifyFrame, node?_modifyNode, socket?]
  by_cases hnode : r.node = q.node
  · rw [if_pos hnode, hnode]
    cases s.node? q.node with
    | none => exact (ite_self _).symm
    | some n =>
      have hat := n.frame.socket?_modifySocket q.kind r.kind q.index r.index g
      by_cases hq : q = r
      · subst hq
        rw [if_pos ⟨rfl, rfl⟩] at hat
        rw [if_pos rfl]
        exact hat
      · rw [if_neg fun h => hq (SocketRef.ext hnode.symm h.1.symm h.2.symm)] at hat
        rw [if_neg hq]
        exact hat
  · rw [if_neg hnode, if_neg fun hq => hnode (congrArg SocketRef.node hq).symm]

/-! ## Abandoning a drag -/

section Radii
variable {s t : Session}

/-- A socket at rest that is enlarged and put to rest again is as it was. -/
theorem resetRadius_setRadius {r : SocketRef} (hn : s.nodes.keys.Nodup) (hr : ¬s.Enlarged r) (radius : Float) :
    (s.setRadius r radius).resetRadius r = s := by
  have hnodes : ((s.setRadius r radius).resetRadius r).nodes = s.nodes := by
    simp only [setRadius, resetRadius, modifyFrame, modifyNode, OrderedMap.modify_modify]
    refine OrderedMap.modify_eq_self hn fun n hnode => ?_
    have hsame : n.frame.modifySocket r.kind r.index
        (Socket.resetRadius ∘ fun t => { t with radius := radius }) = n.frame := by
      refine n.frame.modifySocket_eq_self r.kind r.index fun t ht => ?_
      have hrest : t.radius = t.restRadius := by
        by_contra hlarge
        exact hr (enlarged_iff.2 ⟨n, hnode, t, ht, hlarge⟩)
      exact congrArg (fun x => { t with radius := x }) hrest.symm
    rw [Function.comp_apply, Frame.modifySocket_modifySocket, hsame]
  exact congrArg (fun nodes => { s with nodes := nodes }) hnodes

/-- Draws another snap target larger in place of the old one. -/
def retarget (s : Session) (old new : Option SocketRef) : Session :=
  if new = old then s
  else
    match new with
    | some r => (s.resetRadius? old).setRadius r Measure.snapRadius
    | none => s.resetRadius? old

/-- Another snap target makes no difference once it is put to rest. -/
theorem resetRadius?_retarget {old new : Option SocketRef} (hs : s.resetRadius? old = t)
    (hn : t.nodes.keys.Nodup) (hrest : ∀ r, ¬t.Enlarged r) : (s.retarget old new).resetRadius? new = t := by
  unfold retarget
  split
  · rename_i hsame
    rw [hsame, hs]
  · cases new with
    | none => exact hs
    | some r =>
      rw [hs]
      exact resetRadius_setRadius hn (hrest r) _

/-- The drawing call for a connector that ends at the pointer. -/
def pathTo (s : Session) (c : ConnectorId) (pointer : Point) : List DrawCall :=
  ((s.connector? c).map fun k => .path c k.style { k with stop := pointer }.curve).toList

/-- The dragged connector follows the pointer, and the snap target is chosen anew. -/
theorem updateDrag_eq {d : Drag} (hd : s.drag = some d) (pointer : Point) :
    let candidates := Candidate.rankBy pointer d.candidates
    let snap := s.snapFor d candidates
    s.updateDrag pointer = { { s with
      connectors := s.connectors.modify d.connector fun k => { k with stop := pointer }
      calls := s.pathTo d.connector pointer ++ s.calls }.retarget d.snap snap with
      drag := some { d with candidates := candidates, snap := snap } } := by
  have hdrawn : (s.modifyConnector d.connector fun k => { k with stop := pointer }).drawPath d.connector = { s with
      connectors := s.connectors.modify d.connector fun k => { k with stop := pointer }
      calls := s.pathTo d.connector pointer ++ s.calls } := by
    rw [drawPath, connector?_modifyConnector, if_pos rfl, pathTo]
    cases s.connector? d.connector <;> rfl
  have hsnap (connectors : OrderedMap ConnectorId Connector) (calls : List DrawCall) (cs : List Candidate) :
      { s with connectors := connectors, calls := calls }.snapFor d cs = s.snapFor d cs := rfl
  unfold updateDrag
  rw [hd]
  dsimp only
  rw [hdrawn, hsnap]
  generalize s.snapFor d (Candidate.rankBy pointer d.candidates) = snap
  unfold retarget
  by_cases h : snap = d.snap
  · rw [if_pos h, if_pos h]
  · rw [if_neg h, if_neg h]
    generalize d.snap = old
    cases snap <;> cases old <;> rfl

theorem resetRadius?_setDrag (s : Session) (r : Option SocketRef) (drag : Option Drag) :
    { s with drag := drag }.resetRadius? r = { s.resetRadius? r with drag := drag } := by
  cases r <;> rfl

theorem resetRadius?_setConnectors (s : Session) (r : Option SocketRef)
    (connectors : OrderedMap ConnectorId Connector) (calls : List DrawCall) :
    { s with connectors := connectors, calls := calls }.resetRadius? r =
      { s.resetRadius? r with connectors := connectors, calls := calls } := by
  cases r <;> rfl

end Radii

/-- While a connector is dragged out of a plug, the session is the one before but for the connector, the node
that carries it along, and the radius of the snap target. -/
structure Pulled (s : Session) (p : PlugRef) (d : Drag) (u : Session) : Prop where
  drag : u.drag = some d
  connector : d.connector = s.ids.connector.1
  rest : ∃ k calls, k.plug = p ∧ u.resetRadius? d.snap = { s with
    ids := s.ids.connector.2
    nodes := s.nodes.modify p.node (·.follow s.ids.connector.1)
    connectors := s.connectors.put s.ids.connector.1 k
    drag := some d
    calls := calls }

namespace Pulled
variable {s u : Session} {p : PlugRef} {d : Drag}

/-- Whatever the snap target becomes, putting it to rest leaves nothing of the way it came about. -/
theorem updateDrag (h : s.Pulled p d u) (hn : s.nodes.keys.Nodup) (hrest : ∀ r, ¬s.Enlarged r)
    (pointer : Point) : ∃ e, s.Pulled p e (u.updateDrag pointer) := by
  obtain ⟨hd, hc, k, _, hk, hu⟩ := h
  have hconnectors : u.connectors = s.connectors.put d.connector k := by
    have hsame := congrArg Session.connectors hu
    rw [hc]
    cases hsnap : d.snap with
    | none => rwa [hsnap] at hsame
    | some r => rwa [hsnap] at hsame
  rw [updateDrag_eq hd pointer]
  generalize Candidate.rankBy pointer d.candidates = candidates
  generalize u.snapFor d candidates = snap
  generalize u.pathTo d.connector pointer ++ u.calls = calls
  refine ⟨{ d with candidates := candidates, snap := snap }, rfl, hc, { k with stop := pointer }, calls, hk, ?_⟩
  have hmoved : { u with
      connectors := u.connectors.modify d.connector fun k => { k with stop := pointer }
      calls := calls }.resetRadius? d.snap = { s with
        ids := s.ids.connector.2
        nodes := s.nodes.modify p.node (·.follow s.ids.connector.1)
        connectors := s.connectors.put s.ids.connector.1 { k with stop := pointer }
        drag := some d
        calls := calls } := by
    rw [resetRadius?_setConnectors, hu, hconnectors, hc, OrderedMap.modify_put]
  rw [resetRadius?_setDrag, resetRadius?_retarget hmoved]
  · exact (OrderedMap.keys_modify s.nodes p.node _).symm ▸ hn
  · intro r hr
    have hfollow : (s.modifyNode p.node (·.follow s.ids.connector.1)).Enlarged r :=
      (enlarged_of_nodes fun _ => rfl).1 hr
    refine hrest r (enlarged_of_modifyNode (fun n _ hlarge => ?_) hfollow)
    exact (Frame.enlarged_of_sockets rfl).1 hlarge

theorem moves (h : s.Pulled p d u) (hn : s.nodes.keys.Nodup) (hrest : ∀ r, ¬s.Enlarged r)
    (pointers : List Point) : ∃ e, s.Pulled p e (pointers.foldl Session.updateDrag u) := by
  induction pointers generalizing d u with
  | nil => exact ⟨d, h⟩
  | cons pointer rest ih =>
    obtain ⟨e, he⟩ := h.updateDrag hn hrest pointer
    exact ih he

/-- Throwing the connector away takes it from the map and from the node that carried it along. -/
theorem discardDrag (h : s.Pulled p d u) (hi : s.Intact) (hd : s.drag = none) : s.Returned (u.discardDrag d) := by
  obtain ⟨-, hc, k, calls, hk, hu⟩ := h
  have hnodes : (s.nodes.modify p.node (·.follow s.ids.connector.1)).modify p.node
      (·.withdraw s.ids.connector.1 p.kind p.index) = s.nodes := by
    rw [OrderedMap.modify_modify]
    refine OrderedMap.modify_eq_self hi.tied.nodesOnce fun n hn => ?_
    exact Node.withdraw_follow (fun q hq => unfastened hi hn p.kind p.index q hq) (unfollowed hi hn)
  have hconnector : ({ s with
      ids := s.ids.connector.2
      nodes := s.nodes.modify p.node (·.follow s.ids.connector.1)
      connectors := s.connectors.put s.ids.connector.1 k
      drag := none
      calls := calls } : Session).connector? s.ids.connector.1 = some k := by
    rw [connector?, OrderedMap.get?_put, if_pos rfl]
  unfold Session.discardDrag
  rw [resetRadius?_setDrag, hu, hc, destroyConnector_eq hconnector, hk]
  refine ⟨.dispose (.connector s.ids.connector.1) :: calls, ?_⟩
  dsimp only
  rw [hnodes, OrderedMap.erase_put (connector_fresh hi), hd]
  rfl

end Pulled

/-- A drag that begins has only pulled its connector out. -/
theorem pulled_beginDrag {s t : Session} {p : PlugRef} {pointer : Point} {c : ConnectorId}
    (ht : s.beginDrag p pointer = (some c, t)) : ∃ d, d.connector = c ∧ s.Pulled p d t := by
  obtain ⟨-, q, start, -, rfl, rfl⟩ := Intact.beginDrag_eq ht
  obtain ⟨calls, hdrawn⟩ := drawPath_eq (s.addConnector p start pointer q.style).2 s.ids.connector.1
  refine ⟨_, rfl, rfl, rfl, .drawnFrom p start pointer q.style, calls, rfl, ?_⟩
  rw [hdrawn]
  rfl

/-- An abandoned drag leaves no trace: however the pointer has moved, the session is the one before when
the drag is cancelled, and when it ends without a snap target. -/
theorem Reached.drag_undone {s : Session} (h : s.Reached) (hd : s.drag = none) (p : PlugRef) (pointer : Point) :
    (∀ t, s.beginDrag p pointer = (none, t) → t = s) ∧
    ∀ c t, s.beginDrag p pointer = (some c, t) → ∀ pointers : List Point,
      let u := pointers.foldl updateDrag t
      s.Returned u.cancelDrag ∧
        (u.snapTarget? = none → ∃ v, u.endDrag = (some (.discarded c), v) ∧ s.Returned v) := by
  refine ⟨fun t ht => eq_of_beginDrag_none ht, fun c t ht pointers => ?_⟩
  obtain ⟨d, rfl, hpulled⟩ := pulled_beginDrag ht
  obtain ⟨e, he⟩ := hpulled.moves h.intact.tied.nodesOnce (h.aimed.not_enlarged_of_idle hd) pointers
  have hback := he.discardDrag h.intact hd
  dsimp only
  refine ⟨?_, fun hsnap => ⟨_, ?_, hback⟩⟩
  · rw [cancelDrag, he.drag]
    exact hback
  · rw [snapTarget?, he.drag, Option.bind_some] at hsnap
    have hsame : e.connector = d.connector := he.connector.trans hpulled.connector.symm
    rw [endDrag, he.drag]
    dsimp only
    rw [hsnap]
    dsimp only
    rw [hsame]

/-- A second connector is dragged out of a plug past the sockets of a condition and a sum. -/
theorem drag_undone_past_sockets : ∃ s t u, s = (new .standard).applyAll
    [.spawn .isMobile .origin 1.0, .spawn .condition .origin 1.0, .spawn .generalAddition ⟨0.0, 300.0⟩ 1.0,
      .connect ⟨⟨0⟩, .data, 0⟩ ⟨⟨2⟩, .data, 0⟩] ∧
    s.drag = none ∧ s.beginDrag ⟨⟨0⟩, .data, 0⟩ .origin = (some ⟨1⟩, t) ∧
    u = [⟨0.0, 117.5⟩, ⟨5.0, 420.0⟩, ⟨900.0, 900.0⟩].foldl updateDrag t ∧ s.Returned u.cancelDrag := by
  refine ⟨_, _, _, rfl, rfl, rfl, rfl, ?_⟩
  exact ((Reached.drag_undone ⟨.standard, _, by simp [Operation.Public], rfl⟩ rfl ⟨⟨0⟩, .data, 0⟩ .origin).2
    ⟨1⟩ _ rfl _).1

end Session
end FlowGraph
