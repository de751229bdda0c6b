import FlowGraph.Proofs.Session.Candidates
import FlowGraph.Proofs.Session.Shape

/-! # Connectors end at their ports

A connector keeps the points where it starts and ends. They are worked out anew only when its node says so,
through the followers of that node, or when the connector is made. Yet each one is the place that its port
has now.
-/

namespace FlowGraph
set_option autoImplicit false

/-! ## Places of ports -/

theorem Frame.place_of_body {f g : Frame} (h : g.body = f.body) :
    g.position = f.position ∧ g.scale = f.scale ∧ g.connectionOffset = f.connectionOffset := by
  simp only [body, Frame.mk.injEq] at h
  obtain ⟨-, -, -, hposition, hscale, -, -, -, -, -, -, hoffset, -⟩ := h
  exact ⟨hposition, hscale, hoffset⟩

/-- What does not look at the entry depends on the length only. -/
theorem map_const_getElem? {α β : Type} {l m : List α} (h : m.length = l.length) (index : Nat) (b : β) :
    m[index]?.map (fun _ => b) = l[index]?.map fun _ => b := by
  by_cases hl : index < l.length
  · rw [List.getElem?_eq_getElem hl, List.getElem?_eq_getElem (h ▸ hl)]
    rfl
  · rw [List.getElem?_eq_none (Nat.le_of_not_lt hl), List.getElem?_eq_none (h ▸ Nat.le_of_not_lt hl)]

namespace Frame.Fitted
variable {kind : NodeKind} {f g : Frame}

theorem flowRows_eq (hf : f.Fitted kind) (hg : g.Fitted kind) : g.flowRows = f.flowRows := by
  have hsockets := (hg.length_sockets .flow).trans (hf.length_sockets .flow).symm
  have hplugs := (hg.length_plugs .flow).trans (hf.length_plugs .flow).symm
  exact congrArg₂ max hsockets hplugs

theorem rowTop_eq (hf : f.Fitted kind) (hg : g.Fitted kind) (hbody : g.body = f.body) (port : PortKind)
    (index : Nat) : g.rowTop port index = f.rowTop port index := by
  obtain ⟨-, -, hoffset⟩ := place_of_body hbody
  cases port with
  | flow => rw [rowTop, rowTop, hoffset]
  | data => rw [rowTop, rowTop, bodyTop, bodyTop, hoffset, flowRows_eq hf hg]

/-- Where a plug is depends on the kind and the body of its node. -/
theorem plugAnchor?_eq (hf : f.Fitted kind) (hg : g.Fitted kind) (hbody : g.body = f.body) (port : PortKind)
    (index : Nat) : g.plugAnchor? port index = f.plugAnchor? port index := by
  obtain ⟨hposition, hscale, -⟩ := place_of_body hbody
  unfold plugAnchor? plug?
  rw [hposition, hscale, rowTop_eq hf hg hbody]
  exact map_const_getElem? ((hg.length_plugs port).trans (hf.length_plugs port).symm) index _

theorem socketAnchor?_eq (hf : f.Fitted kind) (hg : g.Fitted kind) (hbody : g.body = f.body)
    (port : PortKind) (index : Nat) : g.socketAnchor? port index = f.socketAnchor? port index := by
  obtain ⟨hposition, hscale, -⟩ := place_of_body hbody
  unfold socketAnchor? socket?
  rw [hposition, hscale, rowTop_eq hf hg hbody]
  exact map_const_getElem? ((hg.length_sockets port).trans (hf.length_sockets port).symm) index _

end Frame.Fitted

namespace Session

section Places
variable {s t : Session}

theorem plugAnchor?_isSome (s : Session) (p : PlugRef) : (s.plugAnchor? p).isSome = (s.plug? p).isSome := by
  rw [plugAnchor?, plug?]
  cases s.node? p.node with
  | none => rfl
  | some n => exact Option.isSome_map

/-- Nodes with the same kind and body that are fitted. -/
theorem fitted_of_body {id : NodeId} (hs : s.Shaped) (ht : t.Shaped) (h : t.body? id = s.body? id) :
    (t.node? id = none ∧ s.node? id = none) ∨ ∃ m n, t.node? id = some m ∧ s.node? id = some n ∧
      m.frame.body = n.frame.body ∧ m.frame.Fitted n.kind ∧ n.frame.Fitted n.kind := by
  cases hn : s.node? id with
  | none =>
    rw [body?, body?, hn] at h
    exact Or.inl ⟨Option.map_eq_none_iff.1 h, rfl⟩
  | some n =>
    rw [body?, body?, hn] at h
    obtain ⟨m, hm, hbody⟩ := Option.map_eq_some_iff.1 h
    have hkind : m.kind = n.kind := congrArg Prod.fst hbody
    exact Or.inr ⟨m, n, hm, rfl, congrArg Prod.snd hbody, hkind ▸ (ht id m hm).toFitted, (hs id n hn).toFitted⟩

theorem plugAnchor?_congr (hs : s.Shaped) (ht : t.Shaped) {p : PlugRef}
    (h : t.body? p.node = s.body? p.node) : t.plugAnchor? p = s.plugAnchor? p := by
  unfold plugAnchor?
  obtain ⟨hm, hn⟩ | ⟨m, n, hm, hn, hbody, hfm, hfn⟩ := fitted_of_body hs ht h
  · rw [hm, hn]
  · rw [hm, hn]
    exact hfn.plugAnchor?_eq hfm hbody p.kind p.index

theorem socketAnchor?_congr (hs : s.Shaped) (ht : t.Shaped) {r : SocketRef}
    (h : t.body? r.node = s.body? r.node) : t.socketAnchor? r = s.socketAnchor? r := by
  unfold socketAnchor?
  obtain ⟨hm, hn⟩ | ⟨m, n, hm, hn, hbody, hfm, hfn⟩ := fitted_of_body hs ht h
  · rw [hm, hn]
  · rw [hm, hn]
    exact hfn.socketAnchor?_eq hfm hbody r.kind r.index

end Places

/-! ## Connectors at their ports -/

/-- The connector starts where its plug is now, and ends where its socket is now, if it has one. -/
def AtPorts (s : Session) (k : Connector) : Prop :=
  s.plugAnchor? k.plug = some k.start ∧ ∀ r, k.connectedTo = some r → s.socketAnchor? r = some k.stop

/-- Every connector is at its ports. -/
def Homed (s : Session) : Prop := ∀ c k, s.connector? c = some k → s.AtPorts k

/-- Every connector is at its ports, but for the ends on a node that has just moved. -/
def HomedOff (s : Session) (id : NodeId) : Prop := ∀ c k, s.connector? c = some k →
  (k.plug.node ≠ id → s.plugAnchor? k.plug = some k.start) ∧
    ∀ r, k.connectedTo = some r → r.node ≠ id → s.socketAnchor? r = some k.stop

namespace HomedOff
variable {s : Session} {id : NodeId}

theorem atPorts (h : s.HomedOff id) {c : ConnectorId} {k : Connector} (hk : s.connector? c = some k)
    (hfree : ¬s.wiring.Joined (·.Touches id) c) : s.AtPorts k := by
  rw [s.wiring.joined_iff (edge_of_connector? hk), Edge.Touches, not_or] at hfree
  obtain ⟨hplug, hsocket⟩ := h c k hk
  exact ⟨hplug hfree.1, fun r hr => hsocket r hr fun hnode => hfree.2 ⟨r, hr, hnode⟩⟩

theorem homed (h : s.HomedOff id) (hfree : ∀ c, ¬s.wiring.Joined (·.Touches id) c) : s.Homed :=
  fun c _ hk => h.atPorts hk (hfree c)

end HomedOff

/-! ## Following a node -/

end Session

/-- The connector with its ends on the node where their ports are now. -/
def Connector.follow (k : Connector) (id : NodeId) (f : Frame) : Connector :=
  { k with
    start := if k.plug.node = id then (f.plugAnchor? k.plug.kind k.plug.index).getD k.start else k.start
    stop := match k.connectedTo with
      | some r => if r.node = id then (f.socketAnchor? r.kind r.index).getD k.stop else k.stop
      | none => k.stop }

theorem Connector.follow_follow (k : Connector) (id : NodeId) (f : Frame) :
    (k.follow id f).follow id f = k.follow id f := by
  have hagain (o : Option Point) (a : Point) : o.getD (o.getD a) = o.getD a := by cases o <;> rfl
  obtain ⟨plug, connectedTo, style, state, start, stop⟩ := k
  cases connectedTo with
  | none => by_cases hp : plug.node = id <;> simp [follow, hp, hagain]
  | some r => by_cases hp : plug.node = id <;> by_cases hr : r.node = id <;> simp [follow, hp, hr, hagain]

namespace Session

section Following
variable {s : Session} {id : NodeId}

theorem connector?_followNode (s : Session) (id : NodeId) (f : Frame) (c d : ConnectorId) :
    (s.followNode id f c).connector? d =
      if d = c then (s.connector? d).map (·.follow id f) else s.connector? d := by
  show ((s.modifyConnector c (·.follow id f)).drawPath c).connector? d = _
  rw [connector?_drawPath, connector?_modifyConnector]

/-- Following a node twice is following it once, so it does not matter how often a connector is listed. -/
theorem connector?_followers (s : Session) (id : NodeId) (f : Frame) (l : List ConnectorId) (d : ConnectorId) :
    (l.foldl (fun s c => s.followNode id f c) s).connector? d =
      if d ∈ l then (s.connector? d).map (·.follow id f) else s.connector? d := by
  induction l generalizing s with
  | nil => rw [if_neg List.not_mem_nil, List.foldl_nil]
  | cons c rest ih =>
    rw [List.foldl_cons, ih, connector?_followNode]
    by_cases hc : d = c <;> by_cases hr : d ∈ rest <;>
      simp [hc, hr, Function.comp_def, Connector.follow_follow]

/-- A connector that follows the node is at its ports. -/
theorem HomedOff.atPorts_follow (h : s.HomedOff id) (hi : s.Intact) {n : Node} (hn : s.node? id = some n)
    {c : ConnectorId} {k : Connector} (hk : s.connector? c = some k) : s.AtPorts (k.follow id n.frame) := by
  obtain ⟨hstart, hstop⟩ := h c k hk
  constructor
  · show s.plugAnchor? k.plug = some (if k.plug.node = id then _ else k.start)
    split
    · rename_i hnode
      obtain ⟨a, ha⟩ : ∃ a, s.plugAnchor? k.plug = some a := by
        rw [← Option.isSome_iff_exists, plugAnchor?_isSome]
        exact live_plug hi hk
      have hframe : n.frame.plugAnchor? k.plug.kind k.plug.index = some a := by
        rw [← ha, plugAnchor?, hnode, hn, Option.bind_some]
      rw [ha, hframe, Option.getD_some]
    · rename_i hnode
      exact hstart hnode
  · intro r hr
    have hto : k.connectedTo = some r := hr
    obtain ⟨a, ha⟩ : ∃ a, s.socketAnchor? r = some a := by
      rw [← Option.isSome_iff_exists, socketAnchor?_isSome]
      exact live_socket hi hk hto
    rw [Connector.follow, hto]
    show s.socketAnchor? r = some (if r.node = id then _ else k.stop)
    split
    · rename_i hnode
      have hframe : n.frame.socketAnchor? r.kind r.index = some a := by
        rw [← ha, socketAnchor?, hnode, hn, Option.bind_some]
      rw [ha, hframe, Option.getD_some]
    · rename_i hnode
      exact hstop r hto hnode

/-- When the followers of a node have followed it, every connector is at its ports. -/
theorem HomedOff.emitMove (h : s.HomedOff id) (hi : s.Intact) : (s.emitMove id).Homed := by
  have hplace (k : Connector) (hk : s.AtPorts k) : (s.emitMove id).AtPorts k := by
    unfold AtPorts plugAnchor? socketAnchor? at hk ⊢
    simp only [node?_emitMove]
    exact hk
  intro c k hk
  refine hplace k ?_
  unfold Session.emitMove at hk
  split at hk
  · rename_i n hn
    rw [connector?_followers] at hk
    split at hk
    · obtain ⟨k₀, hk₀, rfl⟩ := Option.map_eq_some_iff.1 hk
      exact h.atPorts_follow hi hn hk₀
    · rename_i hc
      have hfollow := hi.tied.sound.followers id _ (followers_of_node? hn)
      exact h.atPorts hk fun htouch => hc ((hfollow.2 c).2 htouch)
  · rename_i hn
    exact h.atPorts hk (hi.untouched_of_absent hn c)

end Following

/-! ## Changes that move nothing -/

end Session

/-- The second connector leaves its plug as the first one does, and is on no socket or on the same one. -/
structure Connector.Stays (k l : Connector) : Prop where
  plug : l.plug = k.plug
  start : l.start = k.start
  stop : ∀ r, l.connectedTo = some r → k.connectedTo = some r ∧ l.stop = k.stop

theorem Connector.Stays.refl (k : Connector) : k.Stays k := ⟨rfl, rfl, fun _ hr => ⟨hr, rfl⟩⟩

theorem Connector.Stays.trans {k l m : Connector} (h : k.Stays l) (h' : l.Stays m) : k.Stays m := by
  refine ⟨h'.plug.trans h.plug, h'.start.trans h.start, fun r hr => ?_⟩
  obtain ⟨hl, hstop⟩ := h'.stop r hr
  obtain ⟨hk, hstop'⟩ := h.stop r hl
  exact ⟨hk, hstop.trans hstop'⟩

namespace Session

/-- No node has moved, and every connector that is left stays. -/
structure Still (s t : Session) : Prop where
  bodies : ∀ id, t.body? id = s.body? id
  connectors : ∀ c l, t.connector? c = some l → ∃ k, s.connector? c = some k ∧ k.Stays l

namespace Still
variable {s t u : Session}

theorem of_views (hn : ∀ id, t.body? id = s.body? id) (hc : ∀ c, t.connector? c = s.connector? c) :
    s.Still t := by
  refine ⟨hn, fun c l hl => ⟨l, ?_, .refl l⟩⟩
  rw [← hc]
  exact hl

theorem refl (s : Session) : s.Still s := of_views (fun _ => rfl) fun _ => rfl

theorem trans (h : s.Still t) (h' : t.Still u) : s.Still u := by
  refine ⟨fun id => (h'.bodies id).trans (h.bodies id), fun c m hm => ?_⟩
  obtain ⟨l, hl, hlm⟩ := h'.connectors c m hm
  obtain ⟨k, hk, hkl⟩ := h.connectors c l hl
  exact ⟨k, hk, hkl.trans hlm⟩

theorem setDrag (h : s.Still t) (drag : Option Drag) : s.Still { t with drag := drag } :=
  ⟨h.bodies, h.connectors⟩

theorem foldl {α : Type} (f : Session → α → Session) (hf : ∀ (s : Session) a, s.Still (f s a)) (l : List α)
    (s : Session) : s.Still (l.foldl f s) :=
  List.foldlRecOn (motive := s.Still) l f (refl s) fun t ht a _ => ht.trans (hf t a)

end Still

section Changes
variable (s : Session)

theorem still_modifyNode (id : NodeId) (f : Node → Node) (hf : ∀ n, (f n).body = n.body) :
    s.Still (s.modifyNode id f) :=
  .of_views (fun n => s.body?_modifyNode id n f hf) fun _ => rfl

theorem still_modifyConnector (c : ConnectorId) (f : Connector → Connector)
    (hf : ∀ k, s.connector? c = some k → k.Stays (f k)) : s.Still (s.modifyConnector c f) := by
  refine ⟨fun _ => rfl, fun d l hl => ?_⟩
  rw [connector?_modifyConnector] at hl
  split at hl
  · rename_i hd
    obtain ⟨k, hk, rfl⟩ := Option.map_eq_some_iff.1 hl
    exact ⟨k, hk, hf k (hd ▸ hk)⟩
  · exact ⟨l, hl, .refl l⟩

theorem still_drawPath (c : ConnectorId) : s.Still (s.drawPath c) := by
  unfold drawPath
  split
  · exact .of_views (fun _ => rfl) fun _ => rfl
  · exact .refl s

theorem still_setRadius (r : SocketRef) (radius : Float) : s.Still (s.setRadius r radius) :=
  s.still_modifyNode r.node _ fun n => Prod.ext rfl (n.frame.body_modifySocket r.kind r.index _)

theorem still_resetRadius? (r : Option SocketRef) : s.Still (s.resetRadius? r) := by
  refine .of_views (s.body?_resetRadius? r) fun _ => ?_
  cases r <;> rfl

theorem still_raiseConnector (c : ConnectorId) : s.Still (s.raiseConnector c) :=
  .of_views (fun _ => rfl) (s.connectors.get?_raise c)

theorem still_bringToFront (id : NodeId) : s.Still (s.bringToFront id) := by
  unfold bringToFront
  split
  · exact .refl s
  · refine Still.trans (t := { s with nodes := s.nodes.raise id }.draw (.raise (.node id)))
      (.of_views (fun n => ?_) fun _ => rfl) (.foldl _ still_raiseConnector _ _)
    exact congrArg (Option.map Node.body) (s.nodes.get?_raise id n)

theorem still_setStyle (style : ConnectorStyle) : s.Still (s.setStyle style) := by
  unfold setStyle
  refine Still.trans ⟨fun n => ?_, fun c l hl => ?_⟩ (.foldl _ still_drawPath _ _)
  · show ((s.nodes.mapValues _).get? n).map _ = (s.nodes.get? n).map _
    rw [OrderedMap.get?_mapValues, Option.map_map]
    rfl
  · change (s.connectors.mapValues _).get? c = some l at hl
    rw [OrderedMap.get?_mapValues] at hl
    obtain ⟨k, hk, rfl⟩ := Option.map_eq_some_iff.1 hl
    exact ⟨k, hk, rfl, rfl, fun r hr => ⟨hr, rfl⟩⟩

theorem still_setValue (r : SocketRef) (value : Option Literal) : s.Still (s.setValue r value).2 := by
  unfold setValue
  split
  · refine s.still_modifyNode r.node _ fun n => Prod.ext rfl ?_
    simp [Node.body]
  · exact .refl s

theorem still_registerVariable (name : String) (type : PortType) :
    s.Still (s.registerVariable name type).2 := by
  unfold registerVariable
  split
  · exact .refl s
  · exact .of_views (fun _ => rfl) fun _ => rfl

theorem still_detachSocket (c : ConnectorId) : s.Still (s.detachSocket c) := by
  unfold detachSocket
  split
  · exact .refl s
  · refine (s.still_modifyConnector c _ fun k _ => ?_).trans (still_modifyNode _ _ _ fun n => n.body_release c _ _)
    exact ⟨rfl, rfl, nofun⟩

theorem still_destroyConnector (c : ConnectorId) : s.Still (s.destroyConnector c) := by
  refine ⟨s.body?_destroyConnector c, fun d l hl => ⟨l, ?_, .refl l⟩⟩
  unfold destroyConnector at hl
  split at hl
  · exact hl
  · change (s.connectors.erase c).get? d = some l at hl
    rw [OrderedMap.get?_erase] at hl
    split at hl
    · cases hl
    · exact hl

theorem loose_detachSocket {c : ConnectorId} {k : Connector} (hk : (s.detachSocket c).connector? c = some k) :
    k.connectedTo = none := by
  unfold detachSocket at hk
  split at hk
  · rename_i hloose
    rw [hk] at hloose
    exact hloose
  · rw [connector?_modifyNode, connector?_modifyConnector, if_pos rfl] at hk
    obtain ⟨k, -, rfl⟩ := Option.map_eq_some_iff.1 hk
    rfl

theorem still_pickUp (c : ConnectorId) (p : PlugRef) (pointer : Point) : s.Still (s.pickUp c p pointer) := by
  refine Still.trans ?_ (still_drawPath _ c)
  refine ((s.still_detachSocket c).trans (still_modifyNode _ p.node _ fun n => ?_)).trans
    (still_modifyConnector _ c _ fun k hk => ⟨rfl, rfl, fun r hr => ?_⟩)
  · exact Prod.ext rfl (n.frame.body_modifyPlug p.kind p.index _)
  · have hloose := s.loose_detachSocket hk
    exact absurd (hloose.symm.trans hr) nofun

theorem still_updateDrag {s : Session} (h : s.Intact) (pointer : Point) : s.Still (s.updateDrag pointer) := by
  refine updateDrag_induction pointer (.refl s) (fun d hd => ?_)
    (fun t r ht => ht.trans (t.still_resetRadius? r)) (fun t r x ht => ht.trans (t.still_setRadius r x))
    fun _ e ht => ht.setDrag e
  refine (s.still_modifyConnector _ _ fun k hk => ?_).trans (still_drawPath _ d.connector)
  refine ⟨rfl, rfl, fun r hr => ?_⟩
  have hedge := (edge_of_connector? hk).symm.trans (h.drag d hd)
  have hloose : k.connectedTo = none := congrArg Edge.connectedTo (Option.some.inj hedge)
  exact absurd (hloose.symm.trans hr) nofun

end Changes

/-! ## Making connectors -/

section Making
variable {s t : Session}

theorem body?_addConnector (s : Session) (p : PlugRef) (start stop : Point) (style : ConnectorStyle)
    (id : NodeId) : (s.addConnector p start stop style).2.body? id = s.body? id :=
  body?_modifyNode { s with ids := s.ids.connector.2 } p.node id
    (fun n => { n with frame := { n.frame with dependents := n.frame.dependents ++ [s.ids.connector.1] } })
    fun _ => rfl

theorem connector?_addConnector (s : Session) (p : PlugRef) (start stop : Point) (style : ConnectorStyle)
    (c : ConnectorId) : (s.addConnector p start stop style).2.connector? c =
      if c = s.ids.connector.1 then some (.drawnFrom p start stop style) else s.connector? c :=
  s.connectors.get?_put s.ids.connector.1 c _

theorem body?_link (s : Session) (c : ConnectorId) (r : SocketRef) (id : NodeId) :
    (s.link c r).body? id = s.body? id := by
  unfold link
  split
  · rfl
  · rw [body?, node?_drawPath, node?_modifyConnector]
    refine (body?_modifyNode _ _ id _ fun n => ?_).trans (s.body?_modifyNode r.node id _ fun n => ?_)
    · exact n.body_send c _ _
    · exact n.body_receive c _ _ _

theorem connector?_link {c : ConnectorId} {k : Connector} (hk : s.connector? c = some k) (r : SocketRef)
    (d : ConnectorId) : (s.link c r).connector? d = if d = c then
      some { k with connectedTo := some r, state := .connected, stop := (s.socketAnchor? r).getD k.stop }
    else s.connector? d := by
  unfold link
  simp only [hk, connector?_drawPath, connector?_modifyConnector, connector?_modifyNode]
  split
  · rename_i hd
    rw [hd, hk]
    rfl
  · rfl

end Making

namespace Homed
variable {s t : Session}

theorem of_bodies (hs : s.Shaped) (ht : t.Shaped) (hbody : ∀ id, t.body? id = s.body? id) {k : Connector}
    (hk : s.AtPorts k) : t.AtPorts k :=
  ⟨(plugAnchor?_congr hs ht (hbody _)).trans hk.1,
    fun r hr => (socketAnchor?_congr hs ht (hbody _)).trans (hk.2 r hr)⟩

theorem still (h : s.Homed) (hs : s.Shaped) (ht : t.Shaped) (hst : s.Still t) : t.Homed := by
  intro c l hl
  obtain ⟨k, hk, hplug, hstart, hstop⟩ := hst.connectors c l hl
  refine of_bodies hs ht hst.bodies ⟨?_, fun r hr => ?_⟩
  · rw [hplug, hstart]
    exact (h c k hk).1
  · rw [(hstop r hr).2]
    exact (h c k hk).2 r (hstop r hr).1

/-- A connector that is made starts at its plug. -/
theorem addConnector (h : s.Homed) (hs : s.Shaped) {p : PlugRef} {start : Point}
    (hstart : s.plugAnchor? p = some start) (stop : Point) (style : ConnectorStyle) :
    (s.addConnector p start stop style).2.Homed := by
  intro c k hk
  refine of_bodies hs (hs.addConnector p start stop style) (s.body?_addConnector p start stop style) ?_
  rw [connector?_addConnector] at hk
  split at hk
  · obtain rfl := Option.some.inj hk
    exact ⟨hstart, nofun⟩
  · exact h c k hk

/-- A connector that is bound to a socket ends there. -/
theorem link (h : s.Homed) (hs : s.Shaped) {c : ConnectorId} {k : Connector} (hk : s.connector? c = some k)
    {r : SocketRef} (hr : (s.socketAnchor? r).isSome) : (s.link c r).Homed := by
  intro d l hl
  refine of_bodies hs (hs.link c r) (s.body?_link c r) ?_
  rw [connector?_link hk] at hl
  split at hl
  · obtain rfl := Option.some.inj hl
    refine ⟨(h c k hk).1, fun q hq => ?_⟩
    obtain rfl := Option.some.inj hq
    obtain ⟨a, ha⟩ := Option.isSome_iff_exists.1 hr
    show s.socketAnchor? r = some ((s.socketAnchor? r).getD k.stop)
    rw [ha, Option.getD_some]
  · exact h d l hl

/-! ## Every move -/

/-- When all other nodes stay as they are, only the ends on this one can be out of place. -/
theorem elsewhere (h : s.Homed) {id : NodeId} (hc : ∀ c, t.connector? c = s.connector? c)
    (hn : ∀ m, m ≠ id → t.node? m = s.node? m) : t.HomedOff id := by
  intro c k hk
  rw [hc] at hk
  obtain ⟨hplug, hsocket⟩ := h c k hk
  refine ⟨fun hnode => ?_, fun r hr hnode => ?_⟩
  · rw [plugAnchor?, hn _ hnode]
    exact hplug
  · rw [socketAnchor?, hn _ hnode]
    exact hsocket r hr

/-- A node that is given another place takes the ends on it along. -/
theorem place (h : s.Homed) (hi : s.Intact) (id : NodeId) (f : Frame → Frame) (hf : ∀ g, (f g).wires = g.wires)
    (call : DrawCall) : (((s.modifyFrame id f).draw call).emitMove id).Homed := by
  have hquiet := (s.quiet_modifyFrame id f hf).trans (quiet_draw _ call)
  refine HomedOff.emitMove (h.elsewhere (fun _ => rfl) fun m hne => ?_) (hi.quiet hquiet)
  exact (s.node?_modifyNode id m _).trans (if_neg hne)

theorem connect (h : s.Homed) (hs : s.Shaped) {p : PlugRef} {r : SocketRef} {c : ConnectorId}
    (ht : s.connect p r = .ok (c, t)) : t.Homed := by
  obtain ⟨hok, -, style, rfl⟩ := Intact.connect_at_plug ht
  obtain ⟨q, u, hq, hu, -⟩ := validate_eq_ok.1 hok
  obtain ⟨a, ha⟩ : ∃ a, s.plugAnchor? p = some a := by
    rw [← Option.isSome_iff_exists, plugAnchor?_isSome, hq]
    rfl
  have hshaped := hs.addConnector p a a style
  rw [ha, Option.getD_some]
  refine (h.addConnector hs ha a style).link hshaped (k := .drawnFrom p a a style) ?_ ?_
  · rw [connector?_addConnector, if_pos rfl]
  · rw [socketAnchor?_congr hs hshaped (s.body?_addConnector p a a style _), socketAnchor?_isSome, hu]
    rfl

theorem beginDrag (h : s.Homed) (hs : s.Shaped) (ht : t.Shaped) {p : PlugRef} {pointer : Point}
    {c : ConnectorId} (hc : s.beginDrag p pointer = (some c, t)) : t.Homed := by
  obtain ⟨-, q, start, -, hstart, rfl, rfl⟩ := Intact.beginDrag_at_plug hc
  have hadd := h.addConnector hs hstart pointer q.style
  exact hadd.still (hs.addConnector p start pointer q.style) ht ((still_drawPath _ _).setDrag _)

theorem release (h : s.Homed) (hi : s.Intact) (hs : s.Shaped) {d : Drag} {r : SocketRef}
    (hd : s.drag = some d) (hok : ({ s with drag := none }.resetRadius r).validate d.plug r = .ok ()) :
    (({ s with drag := none }.resetRadius r).link d.connector r).Homed := by
  have hidle : Shaped { s with drag := none } := hs
  have hreset := ((Still.refl s).setDrag none).trans (still_resetRadius? { s with drag := none } (some r))
  obtain ⟨k, hk, -⟩ := edge_eq_some (hi.edge_released hd (some r))
  obtain ⟨-, u, -, hu, -⟩ := validate_eq_ok.1 hok
  refine (h.still hs (hidle.resetRadius r) hreset).link (hidle.resetRadius r) hk ?_
  exact (socketAnchor?_isSome _ r).trans (Option.isSome_of_eq_some hu)

theorem move (h : s.Homed) (hi : s.Intact) (hs : s.Shaped) (hm : s.Move t) : t.Homed := by
  have ht := hs.move hm
  cases hm with
  | spawn kind position scale =>
    have hfresh : s.node? s.ids.node.1 = none := Option.map_eq_none_iff.1 hi.tied.followers_fresh
    have hoff : (s.spawn kind position scale).2.HomedOff s.ids.node.1 :=
      h.elsewhere (fun _ => rfl) fun m hne => (s.nodes.get?_put _ m _).trans (if_neg hne)
    exact hoff.homed (hi.untouched_of_absent hfresh)
  | moveNode id position =>
    unfold Session.moveNode
    split
    · exact h.place hi id (fun f => { f with position := position, positioned := true }) (fun _ => rfl) _
    · exact h
  | setScale id scale =>
    unfold Session.setScale
    split
    · exact h.place hi id (fun f => { f with scale := scale }) (fun _ => rfl) _
    · exact h
  | emitMove id => exact HomedOff.emitMove (h.elsewhere (fun _ => rfl) fun _ _ => rfl) hi
  | bringToFront id => exact h.still hs ht (s.still_bringToFront id)
  | setStyle style => exact h.still hs ht (s.still_setStyle style)
  | setValue r value => exact h.still hs ht (s.still_setValue r value)
  | registerVariable name type => exact h.still hs ht (s.still_registerVariable name type)
  | updateDrag pointer => exact h.still hs ht (still_updateDrag hi pointer)
  | connect hc => exact h.connect hs hc
  | beginDrag hc => exact h.beginDrag hs ht hc
  | reconnect hc =>
    obtain ⟨-, k, -, rfl⟩ := reconnect_eq hc
    exact h.still hs ht ((s.still_pickUp _ k.plug _).setDrag _)
  | release hd hr hok => exact h.release hi hs hd hok
  | @discard d hd =>
    have hreset := still_resetRadius? { s with drag := none } d.snap
    have hdestroy := still_destroyConnector ({ s with drag := none }.resetRadius? d.snap) d.connector
    exact h.still hs ht (((Still.refl s).setDrag none).trans (hreset.trans hdestroy))
  | @disconnect c k hk hc =>
    exact h.still hs ht ((s.still_detachSocket c).trans (still_destroyConnector _ c))
  | @eraseNode id n hn hfree hdrag =>
    have hoff : (s.eraseNode id).HomedOff id :=
      h.elsewhere (fun _ => rfl) fun m hne => (s.nodes.get?_erase id m).trans (if_neg hne)
    exact hoff.homed (hi.untouched hn hfree)
  | @relayPorts id n old hn hold hfree hdrag variant =>
    have hoff : (s.relayPorts id variant).HomedOff id :=
      h.elsewhere (fun _ => rfl) fun m hne => (s.node?_modifyNode id m _).trans (if_neg hne)
    exact hoff.homed (hi.untouched hn hfree)

end Homed

/-- In every session that is reached each connector starts exactly where its plug is, dragged or not, and if
it is connected it ends exactly where its socket is. -/
theorem Reached.endpoints_at_ports {s : Session} (h : s.Reached) {c : ConnectorId} {k : Connector}
    (hk : s.connector? c = some k) : s.plugAnchor? k.plug = some k.start ∧
      ∀ r, k.connectedTo = some r → s.socketAnchor? r = some k.stop := by
  have hboth : s.Shaped ∧ s.Homed := by
    refine Reached.induction (P := fun s => s.Shaped ∧ s.Homed) h ?_ ?_
    · exact fun settings => ⟨shaped_new settings, fun _ _ hc => nomatch hc⟩
    · exact fun _ _ hi hboth hm => ⟨hboth.1.move hm, hboth.2.move hi hboth.1 hm⟩
  exact hboth.2 c k hk

/-- A node moves while a connector is being dragged out of it, and both its connectors go along. -/
theorem endpoints_at_ports_amid_drag : ∃ s k, s = (new .standard).applyAll
    [.spawn .isMobile .origin 1.0, .spawn .condition .origin 1.0, .spawn .condition .origin 1.0,
      .connect ⟨⟨0⟩, .data, 0⟩ ⟨⟨1⟩, .data, 0⟩, .beginDrag ⟨⟨0⟩, .data, 0⟩ .origin,
      .moveNode ⟨0⟩ ⟨7.0, 5.0⟩, .setScale ⟨1⟩ 2.0] ∧
    s.connector? ⟨1⟩ = some k ∧ s.draggedConnector? = some ⟨1⟩ ∧ k.plug = ⟨⟨0⟩, .data, 0⟩ ∧
    s.plugAnchor? k.plug = some k.start := by
  refine ⟨_, _, rfl, rfl, rfl, rfl, ?_⟩
  exact (Reached.endpoints_at_ports (c := ⟨1⟩) ⟨.standard, _, by simp [Operation.Public], rfl⟩ rfl).1

end Session
end FlowGraph
