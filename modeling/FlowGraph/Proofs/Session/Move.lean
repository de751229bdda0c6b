import FlowGraph.Proofs.Session.Intact

/-! # Moves

A move is one change of a session that takes effect: what a host asks for is carried out in moves, and
what is refused takes none. Larger operations drop edges one by one before they touch a node, so a node
goes, or gets other ports, only when nothing hangs on it. Every move keeps a session intact.
-/

namespace FlowGraph
set_option autoImplicit false

namespace Session

/-- Takes a node away on which nothing hangs. -/
def eraseNode (s : Session) (id : NodeId) : Session :=
  let drag := s.drag.map fun d => { d with candidates := d.candidates.filter (·.socket.node ≠ id) }
  { s with drag := drag, nodes := s.nodes.erase id }.draw (.dispose (.node id))

/-- Gives a node the data ports of a variant. -/
def relayPorts (s : Session) (id : NodeId) (variant : Variant) : Session :=
  s.modifyFrame id fun f =>
    { f.layVariantPorts variant s.settings.connectorStyle with
      variant := some variant
      name := variant.title }

theorem removeNode_eq (s : Session) (id : NodeId) : s.removeNode id =
    if s.nodes.contains id then (true, (s.clearConnections id).2.eraseNode id) else (false, s) := rfl

/-- One change that takes effect. -/
inductive Move : Session → Session → Prop
  | spawn (s : Session) (kind : NodeKind) (position : Point) (scale : Scalar) :
    Move s (s.spawn kind position scale).2
  | moveNode (s : Session) (id : NodeId) (position : Point) : Move s (s.moveNode id position)
  | setScale (s : Session) (id : NodeId) (scale : Scalar) : Move s (s.setScale id scale)
  | emitMove (s : Session) (id : NodeId) : Move s (s.emitMove id)
  | bringToFront (s : Session) (id : NodeId) : Move s (s.bringToFront id)
  | setStyle (s : Session) (style : ConnectorStyle) : Move s (s.setStyle style)
  | setValue (s : Session) (r : SocketRef) (value : Option Literal) : Move s (s.setValue r value).2
  | registerVariable (s : Session) (name : String) (type : PortType) :
    Move s (s.registerVariable name type).2
  | updateDrag (s : Session) (pointer : Point) : Move s (s.updateDrag pointer)
  | connect {s t : Session} {p : PlugRef} {r : SocketRef} {c : ConnectorId}
    (h : s.connect p r = .ok (c, t)) : Move s t
  | beginDrag {s t : Session} {p : PlugRef} {pointer : Point} {c : ConnectorId}
    (h : s.beginDrag p pointer = (some c, t)) : Move s t
  | reconnect {s t : Session} {c : ConnectorId} {pointer : Point}
    (h : s.reconnect c pointer = (true, t)) : Move s t
  | release {s : Session} {d : Drag} {r : SocketRef} (hd : s.drag = some d) (hr : d.snap = some r)
    (hok : ({ s with drag := none }.resetRadius r).validate d.plug r = .ok ()) :
    Move s (({ s with drag := none }.resetRadius r).link d.connector r)
  | discard {s : Session} {d : Drag} (hd : s.drag = some d) : Move s (s.discardDrag d)
  | disconnect {s : Session} {c : ConnectorId} {k : Connector} (hk : s.connector? c = some k)
    (hc : s.draggedConnector? ≠ some c) : Move s ((s.detachSocket c).destroyConnector c)
  | eraseNode {s : Session} {id : NodeId} {n : Node} (hn : s.node? id = some n)
    (hfree : n.frame.dependents = []) (hdrag : s.dragTouches id = false) : Move s (s.eraseNode id)
  | relayPorts {s : Session} {id : NodeId} {n : Node} {old : Variant} (hn : s.node? id = some n)
    (hold : n.frame.variant = some old) (hfree : n.frame.dependents = [])
    (hdrag : s.dragTouches id = false) (variant : Variant) : Move s (s.relayPorts id variant)

/-! ## Nodes that come and go -/

/-- A node on which nothing hangs may come, go, or be exchanged for another one. -/
theorem Tied.placed {s t : Session} {loose : ConnectorId → Prop} {id : NodeId} {node : Option Wires}
    (h : s.Tied loose) (hnodes : t.nodes.keys.Nodup) (hconnectors : t.connectors.keys.Nodup)
    (hwiring : t.wiring = s.wiring.placed id node)
    (hnext : s.ids.nextNode ≤ t.ids.nextNode) (hsame : t.ids.nextConnector = s.ids.nextConnector)
    (hid : id.number < t.ids.nextNode) (hfree : ∀ c, ¬s.wiring.Joined (·.Touches id) c)
    (hbare : ∀ n, node = some n → n.Bare) : t.Tied loose := by
  refine ⟨hnodes, hconnectors, fun n hn => ?_, fun c hc => ?_, ?_⟩
  · rw [hwiring] at hn
    change (if n = id then node.map (·.dependents) else s.wiring.followers n).isSome at hn
    split at hn
    · rename_i e
      rw [e]
      exact hid
    · exact Nat.lt_of_lt_of_le (h.nodesKnown n hn) hnext
  · rw [hsame]
    rw [hwiring] at hc
    exact h.connectorsKnown c hc
  · rw [hwiring]
    exact h.sound.placed hfree hbare

namespace Intact
variable {s : Session}

theorem untouched_of_absent (h : s.Intact) {id : NodeId} (hid : s.node? id = none) (c : ConnectorId) :
    ¬s.wiring.Joined (·.Touches id) c := by
  have hwires : s.wires? id = none := by
    rw [wires?, hid]
    rfl
  refine h.tied.sound.untouched_of_absent (fun r hr => ?_) (fun p hp => ?_) c
  · rw [arrivals_eq, hr, hwires]
    rfl
  · rw [departures_eq, hp, hwires]
    rfl

theorem untouched (h : s.Intact) {id : NodeId} {n : Node} (hn : s.node? id = some n)
    (hfree : n.frame.dependents = []) (c : ConnectorId) : ¬s.wiring.Joined (·.Touches id) c := by
  refine h.tied.sound.untouched ?_ c
  rw [followers_of_node? hn, hfree]

theorem bare (h : s.Intact) {id : NodeId} {n : Node} (hn : s.node? id = some n)
    (hfree : n.frame.dependents = []) : n.frame.wires.Bare := by
  have hwires : s.wires? id = some n.frame.wires := by
    rw [wires?, hn]
    rfl
  have hnone := h.untouched hn hfree
  refine ⟨fun kind index l hl => ?_, fun kind index l hl => ?_, hfree⟩
  · have harrive : s.wiring.arrivals ⟨id, kind, index⟩ = some l := by
      rw [arrivals_eq, hwires]
      exact hl
    refine (h.tied.sound.arrivals _ l harrive).eq_nil ?_
    rintro c ⟨e, he, hr⟩
    exact hnone c ⟨e, he, Or.inr ⟨_, hr, rfl⟩⟩
  · have hleave : s.wiring.departures ⟨id, kind, index⟩ = some l := by
      rw [departures_eq, hwires]
      exact hl
    refine (h.tied.sound.departures _ l hleave).eq_nil ?_
    rintro c ⟨e, he, hp, -⟩
    exact hnone c ⟨e, he, Or.inl (congrArg PlugRef.node hp)⟩

theorem known_of_node? (h : s.Intact) {id : NodeId} {n : Node} (hn : s.node? id = some n) :
    id.number < s.ids.nextNode := by
  refine h.tied.nodesKnown id ?_
  rw [followers_of_node? hn]
  rfl

theorem spawn (h : s.Intact) (kind : NodeKind) (position : Point) (scale : Scalar) :
    (s.spawn kind position scale).2.Intact := by
  have hfresh : s.node? s.ids.node.1 = none := Option.map_eq_none_iff.1 h.tied.followers_fresh
  have hwiring : (s.spawn kind position scale).2.wiring = s.wiring.placed s.ids.node.1
      (some (kind.freshFrame position scale s.settings.connectorStyle).wires) := by
    refine wiring_placed _ _ (fun n => ?_) rfl
    show ((s.nodes.put s.ids.node.1 _).get? n).map _ = _
    rw [OrderedMap.get?_put]
    split <;> rfl
  have htied : (s.spawn kind position scale).2.Tied fun c => s.draggedConnector? = some c := by
    refine h.tied.placed (OrderedMap.nodup_keys_put h.tied.nodesOnce _ _) h.tied.connectorsOnce
      hwiring (Nat.le_succ _) rfl (Nat.lt_succ_self _) (h.untouched_of_absent hfresh) fun n hn => ?_
    cases hn
    exact Frame.Unwired.iff_bare.1 (Frame.Unwired.freshFrame kind position scale _)
  refine of_drag htied rfl fun d hd => ?_
  rw [hwiring]
  exact h.drag d hd

theorem eraseNode (h : s.Intact) {id : NodeId} {n : Node} (hn : s.node? id = some n)
    (hfree : n.frame.dependents = []) : (s.eraseNode id).Intact := by
  have hwiring : (s.eraseNode id).wiring = s.wiring.placed id none := by
    refine wiring_placed _ _ (fun n => ?_) rfl
    show ((s.nodes.erase id).get? n).map _ = _
    rw [OrderedMap.get?_erase]
    split <;> rfl
  have htied : (s.eraseNode id).Tied fun c => s.draggedConnector? = some c := by
    refine h.tied.placed (OrderedMap.nodup_keys_erase h.tied.nodesOnce _) h.tied.connectorsOnce hwiring
      (Nat.le_refl _) rfl (h.known_of_node? hn) (h.untouched hn hfree) fun v hv => ?_
    cases hv
  refine of_drag htied ?_ fun d hd => ?_
  · show (s.drag.map _).map Drag.ends = s.drag.map Drag.ends
    rw [Option.map_map]
    rfl
  · rw [hwiring]
    exact h.drag d hd

theorem relayPorts (h : s.Intact) {id : NodeId} {n : Node} (hn : s.node? id = some n)
    (hfree : n.frame.dependents = []) (variant : Variant) : (s.relayPorts id variant).Intact := by
  have hold := Frame.Unwired.iff_bare.2 (h.bare hn hfree)
  have hwiring : (s.relayPorts id variant).wiring = s.wiring.placed id
      (some (n.frame.layVariantPorts variant s.settings.connectorStyle).wires) := by
    refine wiring_placed _ _ (fun m => ?_) rfl
    rw [Session.relayPorts, wires?, modifyFrame, node?_modifyNode]
    split
    · rename_i hm
      rw [hm, hn]
      rfl
    · rfl
  have htied : (s.relayPorts id variant).Tied fun c => s.draggedConnector? = some c := by
    refine h.tied.placed ((s.steady_modifyFrame id _).nodesOnce h.tied.nodesOnce)
      h.tied.connectorsOnce hwiring (Nat.le_refl _) rfl (h.known_of_node? hn) (h.untouched hn hfree)
      fun v hv => ?_
    cases hv
    exact Frame.Unwired.iff_bare.1 (hold.layVariantPorts variant _)
  refine of_drag htied rfl fun d hd => ?_
  rw [hwiring]
  exact h.drag d hd

/-- Every move keeps a session intact. -/
theorem move {t : Session} (h : s.Intact) (hm : s.Move t) : t.Intact := by
  cases hm with
  | spawn kind position scale => exact h.spawn kind position scale
  | moveNode id position => exact h.quiet (s.quiet_moveNode id position)
  | setScale id scale => exact h.quiet (s.quiet_setScale id scale)
  | emitMove id => exact h.quiet (s.quiet_emitMove id)
  | bringToFront id => exact h.quiet (s.quiet_bringToFront id)
  | setStyle style => exact h.quiet (s.quiet_setStyle style)
  | setValue r value => exact h.quiet (s.quiet_setValue r value)
  | registerVariable name type => exact h.quiet (s.quiet_registerVariable name type)
  | updateDrag pointer => exact h.quiet (s.quiet_updateDrag pointer)
  | connect ht => exact h.connect ht
  | beginDrag ht => exact h.beginDrag ht
  | reconnect ht => exact h.reconnect ht
  | release hd hr hok => exact h.release hd hok
  | discard hd => exact h.discardDrag hd
  | disconnect hk hc => exact h.disconnect (edge_of_connector? hk) hc
  | eraseNode hn hfree hdrag => exact h.eraseNode hn hfree
  | relayPorts hn hold hfree hdrag variant => exact h.relayPorts hn hfree variant

end Intact
end Session
end FlowGraph
