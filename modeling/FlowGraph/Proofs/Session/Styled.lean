import FlowGraph.Proofs.Node.Style
import FlowGraph.Proofs.Session.Reached
import FlowGraph.Proofs.Session.Shape

/-! # One style

The style in the settings is copied to a plug when the plug is laid, and from the plug to every connector that
leaves it. A change of the style reaches every copy and nothing else, so the copies never differ.
-/

namespace FlowGraph
set_option autoImplicit false

namespace Session

/-- The settings, every plug and every connector have the style. -/
structure Styled (s : Session) (style : ConnectorStyle) : Prop where
  settings : s.settings.connectorStyle = style
  node : ∀ id n, s.node? id = some n → n.frame.Styled style
  connector : ∀ c k, s.connector? c = some k → k.style = style

theorem styled_new (settings : Settings) : (new settings).Styled settings.connectorStyle where
  settings := rfl
  node _ _ hn := nomatch hn
  connector _ _ hk := nomatch hk

/-- Connectors that are drawn leave everything as it was but the drawing. -/
theorem drawPaths_eq (s : Session) (l : List ConnectorId) :
    ∃ calls, l.foldl drawPath s = { s with calls := calls } := by
  induction l generalizing s with
  | nil => exact ⟨s.calls, rfl⟩
  | cons c rest ih =>
    obtain ⟨calls, hdraw⟩ := s.drawPath_eq c
    obtain ⟨later, hrest⟩ := ih (s.drawPath c)
    rw [List.foldl_cons, hrest, hdraw]
    exact ⟨later, rfl⟩

theorem setStyle_eq (s : Session) (style : ConnectorStyle) : ∃ calls, s.setStyle style = { s with
    settings := { s.settings with connectorStyle := style }
    nodes := s.nodes.mapValues (restyle style)
    connectors := s.connectors.mapValues fun k => { k with style := style }
    calls := calls } := by
  unfold setStyle
  obtain ⟨calls, hdraw⟩ := drawPaths_eq { s with
    settings := { s.settings with connectorStyle := style }
    nodes := s.nodes.mapValues (restyle style)
    connectors := s.connectors.mapValues fun k => { k with style := style } }
    (s.connectors.mapValues fun k => { k with style := style }).keys
  exact ⟨calls, hdraw⟩

namespace Styled
variable {s t : Session} {style : ConnectorStyle}

theorem of_views (h : s.Styled style) (hsettings : t.settings = s.settings) (hnode : ∀ id, t.node? id = s.node? id)
    (hconnector : ∀ c, t.connector? c = s.connector? c) : t.Styled style where
  settings := hsettings ▸ h.settings
  node id n hn := h.node id n (hnode id ▸ hn)
  connector c k hk := h.connector c k (hconnector c ▸ hk)

theorem setDrag (h : s.Styled style) (d : Option Drag) : Styled { s with drag := d } style :=
  h.of_views rfl (fun _ => rfl) fun _ => rfl

theorem draw (h : s.Styled style) (call : DrawCall) : (s.draw call).Styled style :=
  h.of_views rfl (fun _ => rfl) fun _ => rfl

theorem modifyNode (h : s.Styled style) (id : NodeId) (f : Node → Node)
    (hf : ∀ n, n.frame.Styled style → (f n).frame.Styled style) : (s.modifyNode id f).Styled style where
  settings := h.settings
  node i n hn := by
    rw [node?_modifyNode] at hn
    split at hn
    · obtain ⟨m, hm, rfl⟩ := Option.map_eq_some_iff.1 hn
      exact hf m (h.node i m hm)
    · exact h.node i n hn
  connector := h.connector

theorem modifyFrame (h : s.Styled style) (id : NodeId) (f : Frame → Frame)
    (hf : ∀ g : Frame, ∀ k, (f g).styles k = g.styles k) : (s.modifyFrame id f).Styled style :=
  h.modifyNode id _ fun n hn => hn.of_styles (hf n.frame)

theorem modifyConnector (h : s.Styled style) (c : ConnectorId) (f : Connector → Connector)
    (hf : ∀ k, (f k).style = k.style) : (s.modifyConnector c f).Styled style where
  settings := h.settings
  node := h.node
  connector d k hk := by
    have hmodified := OrderedMap.get?_modify s.connectors c d f
    rw [connector?, Session.modifyConnector, hmodified] at hk
    split at hk
    · obtain ⟨l, hl, rfl⟩ := Option.map_eq_some_iff.1 hk
      exact (hf l).trans (h.connector d l hl)
    · exact h.connector d k hk

theorem foldl {α : Type} (f : Session → α → Session) (hf : ∀ (t : Session) a, t.Styled style → (f t a).Styled style)
    (l : List α) (h : s.Styled style) : (l.foldl f s).Styled style :=
  List.foldlRecOn (motive := fun t : Session => t.Styled style) l f h fun t ht a _ => hf t a ht

/-! ## Quiet changes -/

theorem drawPath (h : s.Styled style) (c : ConnectorId) : (s.drawPath c).Styled style := by
  obtain ⟨calls, hdraw⟩ := s.drawPath_eq c
  rw [hdraw]
  exact h.of_views rfl (fun _ => rfl) fun _ => rfl

theorem setRadius (h : s.Styled style) (r : SocketRef) (radius : Float) : (s.setRadius r radius).Styled style :=
  h.modifyFrame _ _ fun g k => g.styles_modifySocket _ k _ _

theorem resetRadius (h : s.Styled style) (r : SocketRef) : (s.resetRadius r).Styled style :=
  h.modifyFrame _ _ fun g k => g.styles_modifySocket _ k _ _

theorem resetRadius? (h : s.Styled style) (r : Option SocketRef) : (s.resetRadius? r).Styled style := by
  cases r with
  | none => exact h
  | some r => exact h.resetRadius r

theorem emitMove (h : s.Styled style) (id : NodeId) : (s.emitMove id).Styled style := by
  unfold Session.emitMove
  split
  · exact foldl _ (fun t c ht => (ht.modifyConnector c _ fun _ => by rfl).drawPath c) _ h
  · exact h

theorem moveNode (h : s.Styled style) (id : NodeId) (position : Point) : (s.moveNode id position).Styled style := by
  unfold Session.moveNode
  split
  · refine emitMove (draw ?_ _) id
    exact h.modifyFrame id (fun f => { f with position := position, positioned := true }) fun g k => by
      cases k <;> rfl
  · exact h

theorem setScale (h : s.Styled style) (id : NodeId) (scale : Scalar) : (s.setScale id scale).Styled style := by
  unfold Session.setScale
  split
  · refine emitMove (draw ?_ _) id
    exact h.modifyFrame id (fun f => { f with scale := scale }) fun g k => by cases k <;> rfl
  · exact h

theorem raiseConnector (h : s.Styled style) (c : ConnectorId) : (s.raiseConnector c).Styled style :=
  h.of_views rfl (fun _ => rfl) fun d => s.connectors.get?_raise c d

theorem bringToFront (h : s.Styled style) (id : NodeId) : (s.bringToFront id).Styled style := by
  unfold Session.bringToFront
  split
  · exact h
  · refine foldl _ (fun t c ht => ht.raiseConnector c) _ (draw ?_ _)
    exact h.of_views rfl (fun m => s.nodes.get?_raise id m) fun _ => rfl

theorem registerVariable (h : s.Styled style) (name : String) (type : PortType) :
    (s.registerVariable name type).2.Styled style := by
  unfold Session.registerVariable
  split
  · exact h
  · exact h.of_views rfl (fun _ => rfl) fun _ => rfl

theorem setValue (h : s.Styled style) (r : SocketRef) (value : Option Literal) :
    (s.setValue r value).2.Styled style := by
  unfold Session.setValue
  split
  · exact h.modifyNode r.node (·.hold r.index value s.variableTypes) fun n hn =>
      hn.of_styles fun k => n.styles_hold k r.index value s.variableTypes
  · exact h

theorem updateDrag (h : s.Styled style) (pointer : Point) : (s.updateDrag pointer).Styled style := by
  refine updateDrag_induction (P := fun t : Session => t.Styled style) pointer h (fun d _ => ?_)
    (fun _ r ht => ht.resetRadius? r) (fun _ r x ht => ht.setRadius r x) fun _ e ht => ht.setDrag e
  exact (h.modifyConnector d.connector _ fun _ => by rfl).drawPath d.connector

/-! ## Nodes -/

/-- New plugs are laid in the style of the settings. -/
theorem spawn (h : s.Styled style) (kind : NodeKind) (position : Point) (scale : Scalar) :
    (s.spawn kind position scale).2.Styled style where
  settings := h.settings
  node id n hn := by
    change (s.nodes.put s.ids.node.1 _).get? id = some n at hn
    rw [OrderedMap.get?_put] at hn
    split at hn
    · obtain rfl := Option.some.inj hn
      have hbare : Frame.Styled { kind.bareFrame with scale := scale } style :=
        (Frame.Styled.bareFrame kind style).of_styles fun k => by cases k <;> rfl
      -- The ports are laid in the style of the settings, which is the style of all the others.
      rw [h.settings]
      exact (hbare.layPorts kind).of_styles fun k => by cases k <;> rfl
    · exact h.node id n hn
  connector := h.connector

theorem relayPorts (h : s.Styled style) (id : NodeId) (variant : Variant) : (s.relayPorts id variant).Styled style := by
  refine h.modifyNode id _ fun n hn => ?_
  rw [h.settings]
  exact (hn.layVariantPorts variant).of_styles fun k => by cases k <;> rfl

theorem eraseNode (h : s.Styled style) (id : NodeId) : (s.eraseNode id).Styled style where
  settings := h.settings
  node i n hn := by
    change (s.nodes.erase id).get? i = some n at hn
    rw [OrderedMap.get?_erase] at hn
    split at hn
    · cases hn
    · exact h.node i n hn
  connector := h.connector

/-! ## Edges -/

theorem addConnector (h : s.Styled style) (p : PlugRef) (start stop : Point) :
    (s.addConnector p start stop style).2.Styled style := by
  have hfollow := (h.of_views (t := { s with ids := s.ids.connector.2 }) rfl (fun _ => rfl) fun _ => rfl).modifyFrame
    p.node (fun f => { f with dependents := f.dependents ++ [s.ids.connector.1] }) fun g k => by cases k <;> rfl
  refine ⟨hfollow.settings, hfollow.node, fun c k hk => ?_⟩
  change (s.connectors.put s.ids.connector.1 (.drawnFrom p start stop style)).get? c = some k at hk
  rw [OrderedMap.get?_put] at hk
  split at hk
  · rw [← Option.some.inj hk]
    rfl
  · exact h.connector c k hk

theorem link (h : s.Styled style) (c : ConnectorId) (r : SocketRef) : (s.link c r).Styled style := by
  unfold Session.link
  split
  · exact h
  · refine drawPath (modifyConnector ?_ c _ fun _ => by rfl) c
    refine modifyNode ?_ _ _ fun n hn => hn.of_styles fun k => n.styles_send c _ k _
    exact h.modifyNode _ _ fun n hn => hn.of_styles fun k => n.styles_receive c _ k _ _

theorem detachSocket (h : s.Styled style) (c : ConnectorId) : (s.detachSocket c).Styled style := by
  unfold Session.detachSocket
  split
  · exact h
  · refine (h.modifyConnector c _ fun _ => by rfl).modifyNode _ _ fun n hn => ?_
    exact hn.of_styles fun k => n.styles_release c _ k _

theorem destroyConnector (h : s.Styled style) (c : ConnectorId) : (s.destroyConnector c).Styled style := by
  unfold Session.destroyConnector
  split
  · exact h
  · have herase : Styled { s with connectors := s.connectors.erase c } style := by
      refine ⟨h.settings, h.node, fun d k hk => ?_⟩
      change (s.connectors.erase c).get? d = some k at hk
      rw [OrderedMap.get?_erase] at hk
      split at hk
      · cases hk
      · exact h.connector d k hk
    exact draw (herase.modifyNode _ _ fun n hn => hn.of_styles fun k => n.styles_withdraw c _ k _) _

theorem pickUp (h : s.Styled style) (c : ConnectorId) (p : PlugRef) (pointer : Point) :
    (s.pickUp c p pointer).Styled style := by
  refine drawPath (modifyConnector ?_ c _ fun _ => by rfl) c
  exact (h.detachSocket c).modifyFrame p.node _ fun g k => g.styles_modifyPlug _ k _ fun _ => rfl

/-- A connector takes its style from its plug. -/
theorem plug (h : s.Styled style) {p : PlugRef} {q : Plug} (hq : s.plug? p = some q) : q.style = style := by
  obtain ⟨n, hn, hplug⟩ := Option.bind_eq_some_iff.1 hq
  exact h.node p.node n hn p.kind q (List.mem_of_getElem? hplug)

theorem connect (h : s.Styled style) {p : PlugRef} {r : SocketRef} {c : ConnectorId}
    (ht : s.connect p r = .ok (c, t)) : t.Styled style := by
  have hstyle : ((s.plug? p).map (·.style)).getD s.settings.connectorStyle = style := by
    cases hq : s.plug? p with
    | none => exact h.settings
    | some q => exact h.plug hq
  unfold Session.connect at ht
  split at ht
  · cases ht
  · rw [hstyle] at ht
    obtain ⟨rfl, rfl⟩ := Prod.mk.inj (Except.ok.inj ht)
    exact (h.addConnector p _ _).link _ r

/-! ## Every move -/

/-- Whatever the style was before. -/
theorem setStyle (s : Session) (style : ConnectorStyle) : (s.setStyle style).Styled style := by
  obtain ⟨calls, hset⟩ := s.setStyle_eq style
  rw [hset]
  refine ⟨rfl, fun id n hn => ?_, fun c k hk => ?_⟩
  · change (s.nodes.mapValues (restyle style)).get? id = some n at hn
    rw [OrderedMap.get?_mapValues] at hn
    obtain ⟨m, -, rfl⟩ := Option.map_eq_some_iff.1 hn
    intro port p hp
    cases port <;> obtain ⟨q, -, rfl⟩ := List.mem_map.1 hp <;> rfl
  · change (s.connectors.mapValues fun l => { l with style := style }).get? c = some k at hk
    rw [OrderedMap.get?_mapValues] at hk
    obtain ⟨l, -, rfl⟩ := Option.map_eq_some_iff.1 hk
    rfl

/-- A move keeps all of one style, though it may be another one. -/
theorem move (h : s.Styled style) (hm : s.Move t) : t.Styled t.settings.connectorStyle := by
  -- All moves but one keep the style itself.
  have hkept {u : Session} (hu : u.Styled style) : u.Styled u.settings.connectorStyle := hu.settings.symm ▸ hu
  cases hm with
  | spawn kind position scale => exact hkept (h.spawn kind position scale)
  | moveNode id position => exact hkept (h.moveNode id position)
  | setScale id scale => exact hkept (h.setScale id scale)
  | emitMove id => exact hkept (h.emitMove id)
  | bringToFront id => exact hkept (h.bringToFront id)
  | setStyle other => exact (setStyle s other).settings.symm ▸ setStyle s other
  | setValue r value => exact hkept (h.setValue r value)
  | registerVariable name type => exact hkept (h.registerVariable name type)
  | updateDrag pointer => exact hkept (h.updateDrag pointer)
  | connect ht => exact hkept (h.connect ht)
  | beginDrag ht =>
    obtain ⟨-, q, start, hq, -, rfl⟩ := Intact.beginDrag_eq ht
    rw [h.plug hq]
    exact hkept (((h.addConnector _ start _).drawPath _).setDrag _)
  | reconnect ht =>
    obtain ⟨-, k, -, rfl⟩ := reconnect_eq ht
    exact hkept ((h.pickUp _ _ _).setDrag _)
  | release hd hr hok => exact hkept (((h.setDrag none).resetRadius _).link _ _)
  | discard hd => exact hkept (((h.setDrag none).resetRadius? _).destroyConnector _)
  | disconnect hk hc => exact hkept ((h.detachSocket _).destroyConnector _)
  | eraseNode hn hfree hdrag => exact hkept (h.eraseNode _)
  | relayPorts hn hold hfree hdrag variant => exact hkept (h.relayPorts _ variant)

end Styled

/-- Every session that is reached has one style. -/
theorem Reached.styled {s : Session} (h : s.Reached) : s.Styled s.settings.connectorStyle :=
  h.induction (P := fun s => s.Styled s.settings.connectorStyle) styled_new fun _ _ _ hs hm => hs.move hm

/-! ## A change of the style -/

/-- The second session is the first one in another style. -/
structure Restyled (s : Session) (style : ConnectorStyle) (t : Session) : Prop where
  settings : t.settings = { s.settings with connectorStyle := style }
  connector : ∀ c, t.connector? c = (s.connector? c).map fun k =>
    ⟨k.plug, k.connectedTo, style, k.state, k.start, k.stop⟩
  sockets : ∀ id port, (t.node? id).map (·.frame.sockets port) = (s.node? id).map (·.frame.sockets port)
  plugs : ∀ id port, (t.node? id).map (·.frame.plugs port) =
    (s.node? id).map fun n => (n.frame.plugs port).map fun p => ⟨p.type, p.label, style, p.connected, p.opacity⟩
  node : ∀ id, (t.node? id).map (fun n => (n.body, n.frame.dependents, n.frame.simulated)) =
    (s.node? id).map fun n => (n.body, n.frame.dependents, n.frame.simulated)
  order : t.nodes.keys = s.nodes.keys ∧ t.connectors.keys = s.connectors.keys
  rest : t.drag = s.drag ∧ t.ids = s.ids ∧ t.variableTypes = s.variableTypes

theorem restyled_setStyle (s : Session) (style : ConnectorStyle) : s.Restyled style (s.setStyle style) := by
  obtain ⟨calls, hset⟩ := s.setStyle_eq style
  have hnode (id : NodeId) : (s.setStyle style).node? id = (s.node? id).map (restyle style) := by
    rw [hset]
    exact s.nodes.get?_mapValues id _
  refine ⟨?_, fun c => ?_, fun id port => ?_, fun id port => ?_, fun id => ?_, ⟨?_, ?_⟩, ?_⟩
  · rw [hset]
  · rw [hset]
    exact s.connectors.get?_mapValues c _
  · rw [hnode, Option.map_map]
    cases port <;> rfl
  · rw [hnode, Option.map_map]
    cases port <;> rfl
  · rw [hnode, Option.map_map]
    rfl
  · rw [hset]
    exact s.nodes.keys_mapValues _
  · rw [hset]
    exact s.connectors.keys_mapValues _
  · rw [hset]
    exact ⟨rfl, rfl, rfl⟩

/-- All plugs and all connectors have the style of the settings, also a connector that is being dragged, and a
change of the style changes nothing else. -/
theorem Reached.one_style {s : Session} (h : s.Reached) : s.Styled s.settings.connectorStyle ∧
    (∀ d, s.drag = some d → ∃ k, s.connector? d.connector = some k ∧ k.state = .dragging ∧
      k.style = s.settings.connectorStyle) ∧
    ∀ style, s.Restyled style (s.setStyle style) := by
  refine ⟨h.styled, fun d hd => ?_, s.restyled_setStyle⟩
  obtain ⟨k, hk, hedge⟩ := edge_eq_some (h.intact.drag d hd)
  exact ⟨k, hk, congrArg Edge.state hedge, h.styled.connector d.connector k hk⟩

/-- The style has changed before the ports of a node are laid again, and another connector is pulled out of it. -/
def pulledAnew : Session := (new .standard).applyAll
  [.spawn .startEvent .origin 1.0, .spawn .math .origin 1.0, .spawn .consoleLog .origin 1.0,
    .connect ⟨⟨0⟩, .flow, 0⟩ ⟨⟨2⟩, .flow, 0⟩, .connect ⟨⟨1⟩, .data, 0⟩ ⟨⟨2⟩, .data, 0⟩, .toggleStyle,
    .spawn .isMobile .origin 1.0, .selectVariant ⟨1⟩ .multiply, .beginDrag ⟨⟨1⟩, .data, 0⟩ .origin]

theorem one_style_pulledAnew : pulledAnew.settings.connectorStyle = .line ∧
    pulledAnew.connectors.keys = [⟨0⟩, ⟨2⟩] ∧ pulledAnew.draggedConnector? = some ⟨2⟩ ∧ pulledAnew.Styled .line ∧
    pulledAnew.Restyled .bezier (pulledAnew.setStyle .bezier) := by
  obtain ⟨hstyled, -, hrestyled⟩ := Reached.one_style (s := pulledAnew) ⟨.standard, _, by simp [Operation.Public], rfl⟩
  exact ⟨rfl, rfl, rfl, hstyled, hrestyled .bezier⟩

end Session
end FlowGraph
