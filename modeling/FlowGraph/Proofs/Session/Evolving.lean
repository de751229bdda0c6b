import FlowGraph.Proofs.Node.Settled
import FlowGraph.Proofs.Session.Rules
import FlowGraph.Proofs.Session.Shape

/-! # What happens to the nodes

A move stores a constant, or it leaves a node as it is, changes it step by step, or makes a new one. What holds
of new nodes, and is kept by each change and by new constants, therefore holds of every node in every session
that is reached, whichever move it was that changed the node. The operations of a host are made of moves, and
all but two of them store nothing.
-/

namespace FlowGraph
set_option autoImplicit false

/-- The node has just been made. -/
def Node.Fresh (n : Node) : Prop :=
  ∃ (kind : NodeKind) (position : Point) (scale : Scalar) (style : ConnectorStyle),
    n = ⟨kind, kind.freshFrame position scale style⟩

namespace Session

/-- Every node of the second session has come about by changes, from a node of the first or a new one. -/
def Evolves (s t : Session) : Prop :=
  ∀ id m, t.node? id = some m → ∃ n : Node, (s.node? id = some n ∨ n.Fresh) ∧ n.Changes m

namespace Evolves
variable {s t u : Session}

theorem of_nodes (h : ∀ id, t.node? id = s.node? id) : s.Evolves t := by
  intro id m hm
  rw [h] at hm
  exact ⟨m, Or.inl hm, .refl⟩

theorem refl (s : Session) : s.Evolves s := of_nodes fun _ => rfl

theorem trans (h : s.Evolves t) (h' : t.Evolves u) : s.Evolves u := by
  intro id m hm
  obtain ⟨n, hn | hfresh, hchanges⟩ := h' id m hm
  · obtain ⟨k, hk, hearlier⟩ := h id n hn
    exact ⟨k, hk, hearlier.trans hchanges⟩
  · exact ⟨n, Or.inr hfresh, hchanges⟩

theorem modifyNode (s : Session) (id : NodeId) (f : Node → Node)
    (hf : ∀ n, s.node? id = some n → n.Change (f n)) : s.Evolves (s.modifyNode id f) := by
  intro i m hm
  rw [node?_modifyNode] at hm
  split at hm
  · rename_i hi
    obtain ⟨n, hn, rfl⟩ := Option.map_eq_some_iff.1 hm
    exact ⟨n, Or.inl hn, .single (hf n (hi ▸ hn))⟩
  · exact ⟨m, Or.inl hm, .refl⟩

theorem modifyFrame (s : Session) (id : NodeId) (f : Frame → Frame)
    (hf : ∀ n : Node, n.Change { n with frame := f n.frame }) : s.Evolves (s.modifyFrame id f) :=
  modifyNode s id _ fun n _ => hf n

/-! ## Quiet changes -/

theorem emitMove (s : Session) (id : NodeId) : s.Evolves (s.emitMove id) := of_nodes (s.node?_emitMove id)

theorem drawPath (s : Session) (c : ConnectorId) : s.Evolves (s.drawPath c) := of_nodes (s.node?_drawPath c)

theorem setRadius (s : Session) (r : SocketRef) (radius : Float) : s.Evolves (s.setRadius r radius) :=
  modifyFrame s r.node _ fun n => .resize n r.kind r.index fun _ => ⟨radius, rfl⟩

theorem resetRadius (s : Session) (r : SocketRef) : s.Evolves (s.resetRadius r) :=
  modifyFrame s r.node _ fun n => .resize n r.kind r.index fun t => ⟨t.restRadius, rfl⟩

theorem resetRadius? (s : Session) (r : Option SocketRef) : s.Evolves (s.resetRadius? r) := by
  cases r with
  | none => exact refl s
  | some r => exact resetRadius s r

theorem moveNode (s : Session) (id : NodeId) (position : Point) : s.Evolves (s.moveNode id position) := by
  unfold Session.moveNode
  split
  · refine trans ?_ (of_nodes (node?_emitMove _ id))
    exact modifyFrame s id (fun f => { f with position := position, positioned := true })
      fun n => .carry n rfl rfl rfl rfl rfl rfl
  · exact refl s

theorem setScale (s : Session) (id : NodeId) (scale : Scalar) : s.Evolves (s.setScale id scale) := by
  unfold Session.setScale
  split
  · refine trans ?_ (of_nodes (node?_emitMove _ id))
    exact modifyFrame s id (fun f => { f with scale := scale }) fun n => .carry n rfl rfl rfl rfl rfl rfl
  · exact refl s

theorem bringToFront (s : Session) (id : NodeId) : s.Evolves (s.bringToFront id) := by
  unfold Session.bringToFront
  split
  · exact refl s
  · refine of_nodes fun n => ?_
    rw [node?_foldl _ raiseConnector fun _ _ _ => rfl]
    exact s.nodes.get?_raise id n

theorem setStyle (s : Session) (style : ConnectorStyle) : s.Evolves (s.setStyle style) := by
  unfold Session.setStyle
  refine trans (t := { s with
    settings := { s.settings with connectorStyle := style }
    nodes := s.nodes.mapValues (restyle style)
    connectors := s.connectors.mapValues fun c => { c with style := style } }) ?_
    (of_nodes (node?_foldl _ Session.drawPath (fun s c n => s.node?_drawPath c n) _))
  intro id m hm
  change (s.nodes.mapValues (restyle style)).get? id = some m at hm
  rw [OrderedMap.get?_mapValues] at hm
  obtain ⟨n, hn, rfl⟩ := Option.map_eq_some_iff.1 hm
  exact ⟨n, Or.inl hn, .single (.restyle n style)⟩

theorem registerVariable (s : Session) (name : String) (type : PortType) :
    s.Evolves (s.registerVariable name type).2 := by
  unfold Session.registerVariable
  split
  · exact refl s
  · exact of_nodes fun _ => rfl

theorem updateDrag (s : Session) (pointer : Point) : s.Evolves (s.updateDrag pointer) := by
  refine updateDrag_induction (P := s.Evolves) pointer (refl s) (fun d _ => ?_) (fun t r ht => ?_)
    (fun t r x ht => ?_) fun _ _ ht => ht
  · exact drawPath (s.modifyConnector d.connector _) d.connector
  · exact ht.trans (resetRadius? t r)
  · exact ht.trans (setRadius t r x)

/-! ## Nodes -/

theorem spawn (s : Session) (kind : NodeKind) (position : Point) (scale : Scalar) :
    s.Evolves (s.spawn kind position scale).2 := by
  intro id m hm
  change (s.nodes.put s.ids.node.1 _).get? id = some m at hm
  rw [OrderedMap.get?_put] at hm
  split at hm
  · exact ⟨m, Or.inr ⟨kind, position, scale, _, (Option.some.inj hm).symm⟩, .refl⟩
  · exact ⟨m, Or.inl hm, .refl⟩

theorem eraseNode (s : Session) (id : NodeId) : s.Evolves (s.eraseNode id) := by
  intro i m hm
  change (s.nodes.erase id).get? i = some m at hm
  rw [OrderedMap.get?_erase] at hm
  split at hm
  · cases hm
  · exact ⟨m, Or.inl hm, .refl⟩

theorem relayPorts {s : Session} {id : NodeId} {n : Node} (hn : s.node? id = some n)
    (hv : n.frame.variant.isSome) (variant : Variant) : s.Evolves (s.relayPorts id variant) := by
  refine modifyNode s id _ fun m hm => ?_
  rw [hn] at hm
  obtain rfl := Option.some.inj hm
  exact .relay n hv variant _ _

/-! ## Edges -/

theorem addConnector (s : Session) (p : PlugRef) (start stop : Point) (style : ConnectorStyle) :
    s.Evolves (s.addConnector p start stop style).2 := by
  refine trans (t := { s with ids := s.ids.connector.2 }) (of_nodes fun _ => rfl) ?_
  exact modifyFrame { s with ids := s.ids.connector.2 } p.node
    (fun f => { f with dependents := f.dependents ++ [s.ids.connector.1] })
    fun n => .carry n rfl rfl rfl rfl rfl rfl

theorem socket_of_arrivals {s : Session} {r : SocketRef} {l : List ConnectorId}
    (h : s.wiring.arrivals r = some l) {n : Node} (hn : s.node? r.node = some n) :
    ∃ t, n.frame.socket? r.kind r.index = some t ∧ t.incoming = l := by
  obtain ⟨t, ht, rfl⟩ := Option.map_eq_some_iff.1 h
  rw [socket?, hn] at ht
  exact ⟨t, ht, rfl⟩

theorem link {s : Session} {r : SocketRef} {l : List ConnectorId} (harrive : s.wiring.arrivals r = some l)
    (hfree : r.kind = .data → l = []) (c : ConnectorId) : s.Evolves (s.link c r) := by
  unfold Session.link
  split
  · exact refl s
  · refine trans ?_ (drawPath _ c)
    refine trans (modifyNode s r.node _ fun n hn => ?_) (modifyNode _ _ _ fun n _ => .send n c _ _)
    obtain ⟨t, ht, rfl⟩ := socket_of_arrivals harrive hn
    exact .receive n c ht hfree _

theorem detachSocket {s : Session} (h : s.Intact) {c : ConnectorId} {p : PlugRef} {r : SocketRef}
    (he : s.wiring.edge c = some ⟨p, some r, .connected⟩) : s.Evolves (s.detachSocket c) := by
  obtain ⟨k, hk, hedge⟩ := edge_eq_some he
  have hto : k.connectedTo = some r := congrArg Edge.connectedTo hedge
  unfold Session.detachSocket
  rw [hk, Option.bind_some, hto]
  refine modifyNode (s.modifyConnector c _) r.node _ fun n hn => ?_
  obtain ⟨l, hl⟩ := Option.isSome_iff_exists.1 (h.tied.sound.socket c _ r he rfl)
  obtain ⟨t, ht, rfl⟩ := socket_of_arrivals hl hn
  refine .release n c ht fun hdata => ?_
  have hsocket : s.socket? r = some t := by
    rw [socket?, show s.node? r.node = some n from hn]
    exact ht
  have hone := length_incoming_le_one h hsocket hdata
  have hmem : c ∈ t.incoming := ((h.tied.sound.arrivals r _ hl).2 c).2 ⟨_, he, rfl⟩
  obtain ⟨d, hd⟩ := List.length_eq_one_iff.1 (Nat.le_antisymm hone (List.length_pos_of_mem hmem))
  rw [hd] at hmem ⊢
  rw [List.mem_singleton.1 hmem]

theorem destroyConnector (s : Session) (c : ConnectorId) : s.Evolves (s.destroyConnector c) := by
  unfold Session.destroyConnector
  split
  · exact refl s
  · rename_i k _
    exact modifyNode { s with connectors := s.connectors.erase c } k.plug.node _
      fun n _ => .withdraw n c _ _

theorem pickUp {s : Session} (h : s.Intact) {c : ConnectorId} {p : PlugRef} {r : SocketRef}
    (he : s.wiring.edge c = some ⟨p, some r, .connected⟩) (pointer : Point) :
    s.Evolves (s.pickUp c p pointer) := by
  refine (detachSocket h he).trans (trans ?_ (drawPath _ c))
  exact modifyFrame _ p.node (fun f => f.modifyPlug p.kind p.index (·.detach c))
    fun n => .loosen n c p.kind p.index

end Evolves

theorem arrivals_of_validate {s : Session} {p : PlugRef} {r : SocketRef} (hv : s.validate p r = .ok ()) :
    ∃ l, s.wiring.arrivals r = some l ∧ (r.kind = .data → l = []) := by
  obtain ⟨q, t, -, ht, -, -, -, -, hfree⟩ := validate_eq_ok.1 hv
  refine ⟨t.incoming, arrivals_of_socket? ht, fun hdata => ?_⟩
  have hempty := hfree hdata
  rw [Socket.isConnected, Bool.not_eq_false'] at hempty
  exact List.isEmpty_iff.1 hempty

namespace Evolves
variable {s t : Session}

theorem connect {p : PlugRef} {r : SocketRef} {c : ConnectorId} (ht : s.connect p r = .ok (c, t)) :
    s.Evolves t := by
  obtain ⟨hok, -, start, style, rfl⟩ := Intact.connect_eq ht
  obtain ⟨l, hl, hfree⟩ := arrivals_of_validate hok
  refine (addConnector s _ start start style).trans (link (l := l) ?_ hfree _)
  rw [wiring_addConnector]
  exact hl

theorem beginDrag (s : Session) (p : PlugRef) (pointer : Point) : s.Evolves (s.beginDrag p pointer).2 := by
  cases ht : s.beginDrag p pointer with
  | mk c t =>
    cases c with
    | none =>
      rw [eq_of_beginDrag_none ht]
      exact refl s
    | some c =>
      obtain ⟨-, q, start, -, -, rfl⟩ := Intact.beginDrag_eq ht
      exact (addConnector s _ start _ q.style).trans (drawPath _ _)

theorem reconnect (h : s.Intact) (c : ConnectorId) (pointer : Point) :
    s.Evolves (s.reconnect c pointer).2 := by
  cases ht : s.reconnect c pointer with
  | mk picked t =>
    cases picked with
    | false =>
      rw [eq_of_reconnect_false ht]
      exact refl s
    | true =>
      obtain ⟨hd, k, hk, rfl⟩ := reconnect_eq ht
      obtain ⟨r, he⟩ := h.edge_idle hk (Intact.idle_of_no_drag hd c)
      exact pickUp h he pointer

theorem release {d : Drag} {r : SocketRef}
    (hok : ({ s with drag := none }.resetRadius r).validate d.plug r = .ok ()) :
    s.Evolves (({ s with drag := none }.resetRadius r).link d.connector r) := by
  obtain ⟨l, hl, hfree⟩ := arrivals_of_validate hok
  exact (resetRadius { s with drag := none } r).trans (link hl hfree d.connector)

theorem discardDrag (s : Session) (d : Drag) : s.Evolves (s.discardDrag d) :=
  (resetRadius? { s with drag := none } d.snap).trans (destroyConnector _ d.connector)

theorem dropConnector (h : s.Intact) {c : ConnectorId} {k : Connector} (hk : s.connector? c = some k)
    (hc : s.draggedConnector? ≠ some c) : s.Evolves ((s.detachSocket c).destroyConnector c) := by
  obtain ⟨r, he⟩ := h.edge_idle hk hc
  exact (detachSocket h he).trans (destroyConnector _ c)

end Evolves

/-! ## Moves -/

theorem node?_setValue (s : Session) (r : SocketRef) (value : Option Literal) (id : NodeId) :
    (s.setValue r value).2.node? id = if r.node = id ∧ r.kind = .data ∧ (s.socket? r).isSome then
      (s.node? id).map (·.hold r.index value s.variableTypes) else s.node? id := by
  unfold setValue
  by_cases hset : r.kind = .data ∧ (s.socket? r).isSome
  · rw [if_pos (by simpa using hset)]
    show (s.modifyNode r.node (·.hold r.index value s.variableTypes)).node? id = _
    rw [node?_modifyNode]
    simp only [hset, and_self, and_true, eq_comm]
  · rw [if_neg (by simpa using hset), if_neg fun hall => hset hall.2]

/-- A node with one data socket holds every constant that is stored on it, and keeps what it holds otherwise. -/
theorem lone_setValue {s : Session} (hs : s.Shaped) {r : SocketRef} {value : Option Literal} {id : NodeId} {m : Node}
    (hm : (s.setValue r value).2.node? id = some m) (hone : (m.kind.socketTypes .data).length = 1) :
    ∃ n, s.node? id = some n ∧ m.kind = n.kind ∧
      (m = n ∧ r ≠ ⟨id, .data, 0⟩ ∨ r = ⟨id, .data, 0⟩ ∧ m = n.hold 0 value s.variableTypes) := by
  have hlength {n : Node} (hn : s.node? id = some n) (hk : m.kind = n.kind) : (n.frame.sockets .data).length = 1 :=
    ((hs id n hn).length_sockets .data).trans (hk ▸ hone)
  rw [node?_setValue] at hm
  split at hm
  · rename_i hat
    obtain ⟨n, hn, rfl⟩ := Option.map_eq_some_iff.1 hm
    obtain ⟨node, port, index⟩ := r
    obtain ⟨rfl, rfl, hin⟩ := hat
    rw [socket?, hn] at hin
    obtain ⟨t, ht⟩ := Option.isSome_iff_exists.1 hin
    have hindex : index < 1 := hlength hn rfl ▸ (List.getElem?_eq_some_iff.1 ht).1
    obtain rfl := Nat.lt_one_iff.1 hindex
    exact ⟨n, hn, rfl, Or.inr ⟨rfl, rfl⟩⟩
  · rename_i hrefused
    refine ⟨m, hm, rfl, Or.inl ⟨rfl, ?_⟩⟩
    -- The socket is there, so a constant for it is not refused.
    rintro rfl
    obtain ⟨t, ht⟩ := List.length_eq_one_iff.1 (hlength hm rfl)
    refine hrefused ⟨rfl, rfl, ?_⟩
    rw [socket?, hm, Option.bind_some, Frame.socket?, ht]
    rfl

/-- Every move stores a constant or changes the nodes in the ways that are listed. -/
theorem Move.evolves {s t : Session} (h : s.Intact) (hm : s.Move t) :
    s.Evolves t ∨ ∃ r value, t = (s.setValue r value).2 := by
  cases hm with
  | setValue r value => exact Or.inr ⟨r, value, rfl⟩
  | spawn kind position scale => exact Or.inl (.spawn s kind position scale)
  | moveNode id position => exact Or.inl (.moveNode s id position)
  | setScale id scale => exact Or.inl (.setScale s id scale)
  | emitMove id => exact Or.inl (.emitMove s id)
  | bringToFront id => exact Or.inl (.bringToFront s id)
  | setStyle style => exact Or.inl (.setStyle s style)
  | registerVariable name type => exact Or.inl (.registerVariable s name type)
  | updateDrag pointer => exact Or.inl (.updateDrag s pointer)
  | connect ht => exact Or.inl (.connect ht)
  | @beginDrag _ p pointer c ht =>
    have hbegun := Evolves.beginDrag s p pointer
    rw [ht] at hbegun
    exact Or.inl hbegun
  | @reconnect _ c pointer ht =>
    have hpicked := Evolves.reconnect h c pointer
    rw [ht] at hpicked
    exact Or.inl hpicked
  | release _ _ hok => exact Or.inl (.release hok)
  | @discard d _ => exact Or.inl (.discardDrag s d)
  | disconnect hk hc => exact Or.inl (.dropConnector h hk hc)
  | eraseNode _ _ _ => exact Or.inl (.eraseNode s _)
  | relayPorts hn hold _ _ variant => exact Or.inl (.relayPorts hn (by rw [hold]; rfl) variant)

/-- What holds of new nodes, and is kept by each change and by each constant that is stored, holds of every
node of every session that is reached. -/
theorem Reached.of_changes {P : Node → Prop} {s : Session} (h : s.Reached) (hfresh : ∀ n : Node, n.Fresh → P n)
    (hchange : ∀ n m : Node, P n → n.Change m → P m)
    (hhold : ∀ (n : Node) (index : Nat) (value : Option Literal) (types : Variables), P n →
      (n.frame.socket? .data index).isSome → P (n.hold index value types)) {id : NodeId} {n : Node}
    (hn : s.node? id = some n) : P n := by
  refine Reached.induction (P := fun s => ∀ id n, s.node? id = some n → P n) h ?_ ?_ id n hn
  · intro settings id n hn
    cases hn
  · intro s t hi hs hm id m hm'
    obtain hevolves | ⟨r, value, rfl⟩ := hm.evolves hi
    · obtain ⟨n, hn, hchanges⟩ := hevolves id m hm'
      have hstart : P n := hn.elim (hs id n) (hfresh n)
      clear hm'
      induction hchanges with
      | refl => exact hstart
      | tail _ hstep ih => exact hchange _ _ ih hstep
    · rw [node?_setValue] at hm'
      split at hm'
      · rename_i hset
        obtain ⟨rfl, hdata, hin⟩ := hset
        obtain ⟨n, hn, rfl⟩ := Option.map_eq_some_iff.1 hm'
        refine hhold n r.index value s.variableTypes (hs r.node n hn) ?_
        rw [socket?, hn, hdata] at hin
        exact hin
      · exact hs id m hm'

/-- Every node of a session that is reached is settled. -/
theorem Reached.settled {s : Session} (h : s.Reached) {id : NodeId} {n : Node} (hn : s.node? id = some n) :
    n.Settled := by
  have hboth : n.Shaped ∧ n.Settled := by
    refine h.of_changes (P := fun n => n.Shaped ∧ n.Settled) ?_ ?_ ?_ hn
    · rintro n ⟨kind, position, scale, style, rfl⟩
      exact ⟨.fresh kind position scale style, .fresh kind position scale style⟩
    · exact fun n m h hc => ⟨h.1.change hc, h.2.change h.1 hc⟩
    · exact fun n index value types h hin => ⟨h.1.hold index value types, h.2.hold h.1 hin value types⟩
  exact hboth.2

/-! ## Operations -/

namespace Evolves
variable {s t : Session}

theorem removeAll (h : s.Intact) : s.Evolves s.removeAll := by
  intro id m hm
  have hnone := (moves_removeAll h).2 id
  rw [body?, hm] at hnone
  cases hnone

theorem cancelDrag (s : Session) : s.Evolves s.cancelDrag := by
  unfold Session.cancelDrag
  split
  · exact discardDrag s _
  · exact refl s

theorem endDrag (s : Session) : s.Evolves s.endDrag.2 := by
  unfold Session.endDrag
  split
  · exact refl s
  · rename_i d hd
    have hdiscard := discardDrag s d
    split
    · exact hdiscard
    · rename_i r hr
      dsimp only
      split
      · rename_i hok
        exact release hok
      · rw [Session.discardDrag, hr] at hdiscard
        exact hdiscard

theorem disconnect (h : s.Intact) (c : ConnectorId) : s.Evolves (s.disconnect c).2 := by
  unfold Session.disconnect
  split
  · exact cancelDrag s
  · rename_i hc
    split
    · rename_i hin
      obtain ⟨k, hk⟩ := Option.isSome_iff_exists.1 ((s.connectors.get?_isSome c).trans hin)
      exact dropConnector h hk hc
    · exact refl s

theorem clearConnections (h : s.Intact) (id : NodeId) : s.Evolves (s.clearConnections id).2 :=
  clearConnections_stepwise refl trans (fun _ c h => disconnect h c) h (cancelDrag s) id

theorem removeNode (h : s.Intact) (id : NodeId) : s.Evolves (s.removeNode id).2 := by
  rw [removeNode_eq]
  split
  · exact (clearConnections h id).trans (eraseNode _ id)
  · exact refl s

theorem selectVariant (h : s.Intact) (id : NodeId) (variant : Variant) :
    s.Evolves (s.selectVariant id variant).2 := by
  unfold Session.selectVariant
  split
  · exact refl s
  · rename_i old hold
    refine (clearConnections h id).trans (trans (t := (s.clearConnections id).2.relayPorts id variant) ?_
      (emitMove _ id))
    obtain ⟨n, hn, hv⟩ := Option.bind_eq_some_iff.1 hold
    obtain ⟨ids, hclear, -⟩ := cleared_clearConnections h id
    have hbody : (s.clearConnections id).2.body? id = some n.body := by
      rw [hclear.body, body?, hn]
      rfl
    obtain ⟨m, hm, hsame⟩ := Option.map_eq_some_iff.1 hbody
    have hvariant : m.frame.variant = n.frame.variant :=
      congrArg (fun b : NodeKind × Frame => b.2.variant) hsame
    exact relayPorts hm (by rw [hvariant, hv]; rfl) variant

theorem applyConnect (s : Session) (p : PlugRef) (r : SocketRef) : s.Evolves (s.apply (.connect p r)) := by
  unfold apply perform
  dsimp only
  split
  · rename_i hok
    exact connect hok
  · exact refl s

/-- What a host asks for stores no constant, unless it is to store one or to restore a program. -/
theorem apply (h : s.Intact) {o : Operation} (ho : o.Public) (hset : ∀ r value, o ≠ .setValue r value)
    (hrestore : ∀ palette program, o ≠ .restore palette program) : s.Evolves (s.apply o) := by
  cases o with
  | spawn kind position scale => exact spawn s kind position scale
  | addNode id node => cases ho
  | moveNode id position => exact moveNode s id position
  | setScale id scale => exact setScale s id scale
  | emitMove id => exact emitMove s id
  | bringToFront id => exact bringToFront s id
  | clearConnections id => exact clearConnections h id
  | removeNode id => exact removeNode h id
  | removeAll => exact removeAll h
  | selectVariant id variant => exact selectVariant h id variant
  | setValue r value => exact (hset r value rfl).elim
  | registerVariable name type => exact registerVariable s name type
  | setStyle style => exact setStyle s style
  | toggleStyle => exact setStyle s _
  | connect p r => exact applyConnect s p r
  | disconnect c => exact disconnect h c
  | reconnect c position => exact reconnect h c position
  | beginDrag p position => exact beginDrag s p position
  | updateDrag position => exact updateDrag s position
  | endDrag => exact endDrag s
  | cancelDrag => exact cancelDrag s
  | pointer event =>
    cases event with
    | press target position =>
      cases target with
      | plug p => exact beginDrag s p position
      | connector c => exact reconnect h c position
      | canvas => exact refl s
    | move position => exact updateDrag s position
    | release => exact endDrag s
  | restore palette program => exact (hrestore palette program rfl).elim

end Evolves

end Session
end FlowGraph
