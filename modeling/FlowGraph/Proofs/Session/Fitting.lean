import FlowGraph.Proofs.Session.Shape

/-! # Fitting edges

An edge is made only if its socket accepts its plug. Types change later where a node lets them follow its
inputs; where the kinds of both nodes fix the types, the edge goes on fitting.
-/

namespace FlowGraph
set_option autoImplicit false

/-- An edge between nodes of the two kinds fits, as far as the kinds fix the types of its ports. -/
def NodeKind.Fit (a b : NodeKind) (p : PlugRef) (r : SocketRef) : Prop :=
  a.derives p.kind = true ∨ b.adapts r.kind = true ∨
    ∃ t u, (a.plugTypes p.kind)[p.index]? = some t ∧ (b.socketTypes r.kind)[r.index]? = some u ∧
      u.accepts t = true

namespace Session

def kindOf (s : Session) (id : NodeId) : Option NodeKind := (s.node? id).map (·.kind)

/-- Every edge fits the kinds of its nodes. -/
def Fitting (s : Session) : Prop := ∀ c e r a b, s.wiring.edge c = some e → e.connectedTo = some r →
  s.kindOf e.plug.node = some a → s.kindOf r.node = some b → a.Fit b e.plug r

section Types
variable {s : Session} {n : Node}

/-- Unless its type follows the inputs, a plug has the type that the kind gives it. -/
theorem type_of_plug? (hs : s.Shaped) {p : PlugRef} {q : Plug} (hn : s.node? p.node = some n)
    (hq : s.plug? p = some q) (hfixed : n.kind.derives p.kind = false) :
    (n.kind.plugTypes p.kind)[p.index]? = some q.type := by
  rw [plug?, hn] at hq
  have hplug : (n.frame.plugs p.kind)[p.index]? = some q := hq
  rw [← (hs _ n hn).plugs p.kind, List.getElem?_map, hplug, Option.map_some, NodeKind.fixedType, hfixed,
    if_neg Bool.false_ne_true]

/-- Unless it takes the type of what arrives, a socket has the type that the kind gives it. -/
theorem type_of_socket? (hs : s.Shaped) {r : SocketRef} {t : Socket} (hn : s.node? r.node = some n)
    (ht : s.socket? r = some t) (hfixed : n.kind.adapts r.kind = false) :
    (n.kind.socketTypes r.kind)[r.index]? = some t.type := by
  rw [socket?, hn] at ht
  have hsocket : (n.frame.sockets r.kind)[r.index]? = some t := ht
  rw [← (hs _ n hn).sockets r.kind, List.getElem?_map, hsocket, Option.map_some, NodeKind.bareType, hfixed,
    if_neg Bool.false_ne_true]

theorem accepts_of_shaped (hs : s.Shaped) {r : SocketRef} {t : Socket} (ht : s.socket? r = some t)
    (type : PortType) : t.accepts type = t.type.accepts type := by
  obtain ⟨n, hn, hsocket⟩ := Option.bind_eq_some_iff.1 ht
  rw [Socket.accepts, (hs _ n hn).plain r.kind t (List.mem_of_getElem? hsocket), List.contains_nil,
    Bool.and_false, Bool.or_false]

/-- An edge that may be made fits. -/
theorem fit_of_validate (hs : s.Shaped) {p : PlugRef} {r : SocketRef} {a b : NodeKind}
    (hok : s.validate p r = .ok ()) (ha : s.kindOf p.node = some a) (hb : s.kindOf r.node = some b) :
    a.Fit b p r := by
  obtain ⟨q, t, hq, ht, -, -, haccepts, -⟩ := validate_eq_ok.1 hok
  obtain ⟨n, hn, rfl⟩ := Option.map_eq_some_iff.1 ha
  obtain ⟨m, hm, rfl⟩ := Option.map_eq_some_iff.1 hb
  cases hderives : n.kind.derives p.kind with
  | true => exact Or.inl hderives
  | false =>
    cases hadapts : m.kind.adapts r.kind with
    | true => exact Or.inr (Or.inl hadapts)
    | false =>
      refine Or.inr (Or.inr ⟨q.type, t.type, type_of_plug? hs hn hq hderives,
        type_of_socket? hs hm ht hadapts, ?_⟩)
      rw [← accepts_of_shaped hs ht]
      exact haccepts

end Types

namespace Fitting
variable {s t : Session}

/-- Edges may go and be picked up, and nodes may come and go. -/
theorem fewer (h : s.Fitting) (hi : s.Intact)
    (hedge : ∀ c e r, t.wiring.edge c = some e → e.connectedTo = some r → s.wiring.edge c = some e)
    (hkind : ∀ id k, (s.node? id).isSome → t.kindOf id = some k → s.kindOf id = some k) : t.Fitting := by
  intro c e r a b he hr ha hb
  have hold := hedge c e r he hr
  obtain ⟨k, hk, rfl⟩ := edge_eq_some hold
  exact h c _ r a b hold hr (hkind _ a (live_of_edge hi hk) ha) (hkind _ b (live_of_arrival hi hk hr) hb)

theorem quiet (h : s.Fitting) (hq : s.Quiet t) : t.Fitting := by
  intro c e r a b he hr ha hb
  rw [hq.wiring] at he
  rw [kindOf, hq.kinds] at ha hb
  exact h c e r a b he hr ha hb

/-- A loose connector is bound to a socket that accepts its plug. -/
theorem link (h : s.Fitting) {c : ConnectorId} {p : PlugRef} {r : SocketRef}
    (he : s.wiring.edge c = some ⟨p, none, .dragging⟩)
    (hfit : ∀ a b, s.kindOf p.node = some a → s.kindOf r.node = some b → a.Fit b p r) :
    (s.link c r).Fitting := by
  have hkinds (id : NodeId) : (s.link c r).kindOf id = s.kindOf id := (s.steady_link c r).kinds id
  intro d e r' a b hd hr ha hb
  rw [hkinds] at ha hb
  rw [wiring_link he r] at hd
  change (if d = c then some _ else s.wiring.edge d) = some e at hd
  split at hd
  · obtain rfl := Option.some.inj hd
    obtain rfl := Option.some.inj hr
    exact hfit a b ha hb
  · exact h d e r' a b hd hr ha hb

theorem kinds_addConnector (s : Session) (p : PlugRef) (start stop : Point) (style : ConnectorStyle)
    (id : NodeId) : (s.addConnector p start stop style).2.kindOf id = s.kindOf id :=
  (steady_modifyFrame { s with ids := s.ids.connector.2 } p.node fun f =>
    { f with dependents := f.dependents ++ [s.ids.connector.1] }).kinds id

/-- A new connector joins nothing yet. -/
theorem addConnector (h : s.Fitting) (hi : s.Intact) (p : PlugRef) (start stop : Point)
    (style : ConnectorStyle) : (s.addConnector p start stop style).2.Fitting := by
  refine h.fewer hi (fun d e r hd hr => ?_) fun id k _ hk =>
    (kinds_addConnector s p start stop style id).symm.trans hk
  rw [wiring_addConnector] at hd
  change (if d = s.ids.connector.1 then some _ else s.wiring.edge d) = some e at hd
  split at hd
  · obtain rfl := Option.some.inj hd
    cases hr
  · exact hd

theorem connect (h : s.Fitting) (hi : s.Intact) (hs : s.Shaped) {p : PlugRef} {r : SocketRef}
    {c : ConnectorId} (ht : s.connect p r = .ok (c, t)) : t.Fitting := by
  obtain ⟨hok, -, start, style, rfl⟩ := Intact.connect_eq ht
  have hedge := s.edge_addConnector p start start style
  refine (h.addConnector hi p start start style).link hedge fun a b ha hb => ?_
  rw [kinds_addConnector] at ha hb
  exact fit_of_validate hs hok ha hb

theorem beginDrag (h : s.Fitting) (hi : s.Intact) {p : PlugRef} {pointer : Point} {c : ConnectorId}
    (ht : s.beginDrag p pointer = (some c, t)) : t.Fitting := by
  obtain ⟨-, q, start, -, rfl, rfl⟩ := Intact.beginDrag_eq ht
  have hdrawn : ((s.addConnector p start pointer q.style).2.drawPath s.ids.connector.1).Fitting :=
    (h.addConnector hi p start pointer q.style).quiet (quiet_drawPath _ _)
  exact hdrawn

theorem reconnect (h : s.Fitting) (hi : s.Intact) {c : ConnectorId} {pointer : Point}
    (ht : s.reconnect c pointer = (true, t)) : t.Fitting := by
  obtain ⟨hd, k, hk, rfl⟩ := reconnect_eq ht
  obtain ⟨r, hedge⟩ := hi.edge_idle hk (Intact.idle_of_no_drag hd c)
  refine h.fewer hi (fun d e r' hd hr' => ?_) fun id a _ ha => ?_
  · change (s.pickUp c k.plug pointer).wiring.edge d = some e at hd
    rw [wiring_pickUp hedge pointer] at hd
    change (if d = c then some _ else s.wiring.edge d) = some e at hd
    split at hd
    · obtain rfl := Option.some.inj hd
      cases hr'
    · exact hd
  · exact ((s.steady_pickUp c k.plug pointer).kinds id).symm.trans ha

theorem release (h : s.Fitting) (hi : s.Intact) (hs : s.Shaped) {d : Drag} {r : SocketRef}
    (hd : s.drag = some d)
    (hok : ({ s with drag := none }.resetRadius r).validate d.plug r = .ok ()) :
    (({ s with drag := none }.resetRadius r).link d.connector r).Fitting := by
  have hquiet := quiet_resetRadius { s with drag := none } r
  have hidle : Fitting { s with drag := none } := h
  have hshaped : Shaped { s with drag := none } := hs
  exact (hidle.quiet hquiet).link (hi.edge_released hd (some r)) fun a b ha hb =>
    fit_of_validate (hshaped.resetRadius r) hok ha hb

theorem discardDrag (h : s.Fitting) (hi : s.Intact) {d : Drag} (hd : s.drag = some d) :
    (s.discardDrag d).Fitting := by
  have hquiet := quiet_resetRadius? { s with drag := none } d.snap
  have hedge := hi.edge_released hd d.snap
  refine h.fewer hi (fun c e r hc hr => ?_) fun id a _ ha => ?_
  · rw [Session.discardDrag, wiring_destroyConnector hedge, hquiet.wiring] at hc
    change (if c = d.connector then none else s.wiring.edge c) = some e at hc
    split at hc
    · cases hc
    · exact hc
  · exact ((hquiet.toSteady.trans (steady_destroyConnector _ d.connector)).kinds id).symm.trans ha

theorem disconnect (h : s.Fitting) (hi : s.Intact) {c : ConnectorId} {k : Connector}
    (hk : s.connector? c = some k) (hc : s.draggedConnector? ≠ some c) :
    ((s.detachSocket c).destroyConnector c).Fitting := by
  obtain ⟨r, hedge⟩ := hi.edge_idle hk hc
  have hsteady := (s.steady_detachSocket c).trans (steady_destroyConnector _ c)
  refine h.fewer hi (fun d e r' hd hr' => ?_) fun id a _ ha => (hsteady.kinds id).symm.trans ha
  rw [Tied.edge_disconnect hedge] at hd
  split at hd
  · cases hd
  · exact hd

theorem spawn (h : s.Fitting) (hi : s.Intact) (kind : NodeKind) (position : Point) (scale : Scalar) :
    (s.spawn kind position scale).2.Fitting := by
  refine h.fewer hi (fun _ _ _ hc _ => hc) fun id a hlive ha => ?_
  have hne : id ≠ s.ids.node.1 := by
    rintro rfl
    have hfresh : s.node? s.ids.node.1 = none := Option.map_eq_none_iff.1 hi.tied.followers_fresh
    rw [hfresh] at hlive
    cases hlive
  change ((s.nodes.put s.ids.node.1 _).get? id).map _ = some a at ha
  rw [OrderedMap.get?_put, if_neg hne] at ha
  exact ha

theorem eraseNode (h : s.Fitting) (hi : s.Intact) (id : NodeId) : (s.eraseNode id).Fitting := by
  refine h.fewer hi (fun _ _ _ hc _ => hc) fun m a _ ha => ?_
  change ((s.nodes.erase id).get? m).map _ = some a at ha
  rw [OrderedMap.get?_erase] at ha
  split at ha
  · cases ha
  · exact ha

theorem relayPorts (h : s.Fitting) (hi : s.Intact) (id : NodeId) (variant : Variant) :
    (s.relayPorts id variant).Fitting :=
  h.fewer hi (fun _ _ _ hc _ => hc) fun m _ _ ha =>
    ((s.steady_modifyFrame id _).kinds m).symm.trans ha

/-- Every move keeps the edges fitting. -/
theorem move (h : s.Fitting) (hi : s.Intact) (hs : s.Shaped) (hm : s.Move t) : t.Fitting := by
  cases hm with
  | spawn kind position scale => exact h.spawn hi kind position scale
  | moveNode id position => exact h.quiet (s.quiet_moveNode id position)
  | setScale id scale => exact h.quiet (s.quiet_setScale id scale)
  | emitMove id => exact h.quiet (s.quiet_emitMove id)
  | bringToFront id => exact h.quiet (s.quiet_bringToFront id)
  | setStyle style => exact h.quiet (s.quiet_setStyle style)
  | setValue r value => exact h.quiet (s.quiet_setValue r value)
  | registerVariable name type => exact h.quiet (s.quiet_registerVariable name type)
  | updateDrag pointer => exact h.quiet (s.quiet_updateDrag pointer)
  | connect ht => exact h.connect hi hs ht
  | beginDrag ht => exact h.beginDrag hi ht
  | reconnect ht => exact h.reconnect hi ht
  | release hd hr hok => exact h.release hi hs hd hok
  | discard hd => exact h.discardDrag hi hd
  | disconnect hk hc => exact h.disconnect hi hk hc
  | eraseNode hn hfree hdrag => exact h.eraseNode hi _
  | relayPorts hn hold hfree hdrag variant => exact h.relayPorts hi _ variant

end Fitting

/-- In every session that is reached the edges fit. -/
theorem Reached.fitting {s : Session} (h : s.Reached) : s.Fitting := by
  have hboth : s.Shaped ∧ s.Fitting := by
    refine Reached.induction (P := fun s => s.Shaped ∧ s.Fitting) h ?_ ?_
    · exact fun settings => ⟨shaped_new settings, fun _ _ _ _ _ hc => by cases hc⟩
    · exact fun _ _ hi hboth hm => ⟨hboth.1.move hm, hboth.2.move hi hboth.1 hm⟩
  exact hboth.2

end Session
end FlowGraph
