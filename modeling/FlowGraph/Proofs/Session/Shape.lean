import FlowGraph.Proofs.Node.Shape
import FlowGraph.Proofs.Session.Reached

/-! # Shaped sessions

Every node of a session that is reached has the shape of its kind. A move changes a node through one of
the changes that keep the shape, or does not touch it.
-/

namespace FlowGraph
set_option autoImplicit false

namespace Session

/-- Every node has the shape of its kind. -/
def Shaped (s : Session) : Prop := ∀ id n, s.node? id = some n → n.Shaped

/-! ## Changes that leave the nodes alone -/

section Views
variable (s : Session)

theorem node?_foldl {α : Type} (f : Session → α → Session)
    (hf : ∀ (s : Session) a id, (f s a).node? id = s.node? id) (l : List α) (id : NodeId) :
    (l.foldl f s).node? id = s.node? id :=
  List.foldlRecOn (motive := fun t => t.node? id = s.node? id) l f rfl fun t ht a _ => (hf t a id).trans ht

@[simp] theorem node?_followNode (id n : NodeId) (f : Frame) (c : ConnectorId) :
    (s.followNode id f c).node? n = s.node? n := by
  unfold followNode
  rw [node?_drawPath, node?_modifyConnector]

@[simp] theorem node?_emitMove (id n : NodeId) : (s.emitMove id).node? n = s.node? n := by
  unfold emitMove
  split
  · exact s.node?_foldl _ (fun s c m => s.node?_followNode id m _ c) _ n
  · rfl

end Views

namespace Shaped
variable {s t : Session}

theorem of_nodes (h : s.Shaped) (hn : ∀ id, t.node? id = s.node? id) : t.Shaped := by
  intro id n ht
  rw [hn] at ht
  exact h id n ht

theorem modifyNode (h : s.Shaped) (id : NodeId) (f : Node → Node) (hf : ∀ n, n.Shaped → (f n).Shaped) :
    (s.modifyNode id f).Shaped := by
  intro i n hn
  rw [node?_modifyNode] at hn
  split at hn
  · obtain ⟨m, hm, rfl⟩ := Option.map_eq_some_iff.1 hn
    exact hf m (h i m hm)
  · exact h i n hn

theorem modifyFrame (h : s.Shaped) (id : NodeId) (f : Frame → Frame)
    (hf : ∀ kind g, Frame.Shaped kind g → (f g).Shaped kind) : (s.modifyFrame id f).Shaped :=
  h.modifyNode id _ fun n hn => hf n.kind n.frame hn

theorem draw (h : s.Shaped) (call : DrawCall) : (s.draw call).Shaped := h

theorem drawPath (h : s.Shaped) (c : ConnectorId) : (s.drawPath c).Shaped :=
  h.of_nodes (s.node?_drawPath c)

theorem modifyConnector (h : s.Shaped) (c : ConnectorId) (f : Connector → Connector) :
    (s.modifyConnector c f).Shaped := h

theorem setRadius (h : s.Shaped) (r : SocketRef) (radius : Float) : (s.setRadius r radius).Shaped :=
  h.modifyFrame _ _ fun _ _ hg => hg.modifySocket _ _ _ fun _ => ⟨rfl, rfl, fun hnone => hnone⟩

theorem resetRadius (h : s.Shaped) (r : SocketRef) : (s.resetRadius r).Shaped :=
  h.modifyFrame _ _ fun _ _ hg => hg.modifySocket _ _ _ fun _ => ⟨rfl, rfl, fun hnone => hnone⟩

theorem resetRadius? (h : s.Shaped) (r : Option SocketRef) : (s.resetRadius? r).Shaped := by
  cases r with
  | none => exact h
  | some r => exact h.resetRadius r

/-! ## Nodes -/

theorem spawn (h : s.Shaped) (kind : NodeKind) (position : Point) (scale : Scalar) :
    (s.spawn kind position scale).2.Shaped := by
  intro id n hn
  change (s.nodes.put s.ids.node.1 _).get? id = some n at hn
  rw [OrderedMap.get?_put] at hn
  split at hn
  · rw [← Option.some.inj hn]
    exact Node.Shaped.fresh kind position scale _
  · exact h id n hn

theorem eraseNode (h : s.Shaped) (id : NodeId) : (s.eraseNode id).Shaped := by
  intro i n hn
  change (s.nodes.erase id).get? i = some n at hn
  rw [OrderedMap.get?_erase] at hn
  split at hn
  · cases hn
  · exact h i n hn

theorem relayPorts (h : s.Shaped) {id : NodeId} {n : Node} (hn : s.node? id = some n)
    (hv : n.frame.variant.isSome) (variant : Variant) : (s.relayPorts id variant).Shaped := by
  intro i m hm
  rw [Session.relayPorts, Session.modifyFrame, node?_modifyNode] at hm
  split at hm
  · rename_i hi
    rw [hi, hn] at hm
    rw [← Option.some.inj hm]
    exact (h id n hn).relay hv variant _ _
  · exact h i m hm

theorem moveNode (h : s.Shaped) (id : NodeId) (position : Point) : (s.moveNode id position).Shaped := by
  unfold Session.moveNode
  split
  · refine Shaped.of_nodes ?_ (node?_emitMove _ id)
    exact h.modifyFrame id (fun f => { f with position := position, positioned := true })
      fun _ _ hg => hg.of_ports rfl rfl rfl rfl rfl
  · exact h

theorem setScale (h : s.Shaped) (id : NodeId) (scale : Scalar) : (s.setScale id scale).Shaped := by
  unfold Session.setScale
  split
  · refine Shaped.of_nodes ?_ (node?_emitMove _ id)
    exact h.modifyFrame id (fun f => { f with scale := scale }) fun _ _ hg =>
      hg.of_ports rfl rfl rfl rfl rfl
  · exact h

theorem bringToFront (h : s.Shaped) (id : NodeId) : (s.bringToFront id).Shaped := by
  unfold Session.bringToFront
  split
  · exact h
  · refine Shaped.of_nodes ?_ (node?_foldl _ raiseConnector (fun _ _ _ => rfl) _)
    refine Shaped.draw (h.of_nodes fun n => ?_) _
    exact s.nodes.get?_raise id n

theorem setStyle (h : s.Shaped) (style : ConnectorStyle) : (s.setStyle style).Shaped := by
  unfold Session.setStyle
  refine Shaped.of_nodes ?_ (node?_foldl _ Session.drawPath (fun s c n => s.node?_drawPath c n) _)
  intro id n hn
  change (s.nodes.mapValues (restyle style)).get? id = some n at hn
  rw [OrderedMap.get?_mapValues] at hn
  obtain ⟨m, hm, rfl⟩ := Option.map_eq_some_iff.1 hn
  refine (h id m hm).mapPlugs (fun p => { p with style := style }) (fun _ => rfl) rfl rfl rfl rfl
    fun port => ?_
  cases port <;> exact Or.inl rfl

theorem setValue (h : s.Shaped) (r : SocketRef) (value : Option Literal) : (s.setValue r value).2.Shaped := by
  unfold Session.setValue
  split
  · refine h.modifyNode r.node _ fun n hn => ?_
    refine NodeKind.shaped_valueChanged ?_ r.index value s.variableTypes
    exact Frame.Shaped.modifySocket hn .data r.index _ fun _ => ⟨rfl, rfl, fun hnone => hnone⟩
  · exact h

theorem registerVariable (h : s.Shaped) (name : String) (type : PortType) :
    (s.registerVariable name type).2.Shaped := by
  unfold Session.registerVariable
  split <;> exact h

/-! ## Edges -/

theorem addConnector (h : s.Shaped) (p : PlugRef) (start stop : Point) (style : ConnectorStyle) :
    (s.addConnector p start stop style).2.Shaped := by
  have hids : Shaped { s with ids := s.ids.connector.2 } := h
  exact hids.modifyFrame p.node (fun f => { f with dependents := f.dependents ++ [s.ids.connector.1] })
    fun _ _ hg => hg.of_ports rfl rfl rfl rfl rfl

theorem link (h : s.Shaped) (c : ConnectorId) (r : SocketRef) : (s.link c r).Shaped := by
  unfold Session.link
  split
  · exact h
  · refine Shaped.drawPath (Shaped.modifyConnector ?_ c _) c
    refine Shaped.modifyNode ?_ _ _ fun n hn => hn.send c _ _
    exact h.modifyNode _ _ fun n hn => hn.receive c _ _ _

theorem detachSocket (h : s.Shaped) (c : ConnectorId) : (s.detachSocket c).Shaped := by
  unfold Session.detachSocket
  split
  · exact h
  · exact Shaped.modifyNode (h.modifyConnector c _) _ _ fun n hn => hn.release c _ _

theorem destroyConnector (h : s.Shaped) (c : ConnectorId) : (s.destroyConnector c).Shaped := by
  unfold Session.destroyConnector
  split
  · exact h
  · have herase : Shaped { s with connectors := s.connectors.erase c } := h
    exact herase.modifyNode _ _ fun n hn => hn.withdraw c _ _

theorem pickUp (h : s.Shaped) (c : ConnectorId) (p : PlugRef) (pointer : Point) :
    (s.pickUp c p pointer).Shaped := by
  refine Shaped.drawPath (Shaped.modifyConnector ?_ c _) c
  exact (h.detachSocket c).modifyFrame p.node _ fun _ _ hg => hg.modifyPlug_type _ _ _ fun _ => rfl

theorem updateDrag (h : s.Shaped) (pointer : Point) : (s.updateDrag pointer).Shaped := by
  refine updateDrag_induction pointer h (fun d _ => ?_) (fun _ r ht => ht.resetRadius? r)
    (fun _ r x ht => ht.setRadius r x) fun _ _ ht => ht
  exact (h.modifyConnector d.connector _).drawPath d.connector

/-- Every move keeps the shape of the nodes. -/
theorem move (h : s.Shaped) (hm : s.Move t) : t.Shaped := by
  cases hm with
  | spawn kind position scale => exact h.spawn kind position scale
  | moveNode id position => exact h.moveNode id position
  | setScale id scale => exact h.setScale id scale
  | emitMove id => exact h.of_nodes (s.node?_emitMove id)
  | bringToFront id => exact h.bringToFront id
  | setStyle style => exact h.setStyle style
  | setValue r value => exact h.setValue r value
  | registerVariable name type => exact h.registerVariable name type
  | updateDrag pointer => exact h.updateDrag pointer
  | connect ht =>
    obtain ⟨-, -, start, style, rfl⟩ := Intact.connect_eq ht
    exact (h.addConnector _ _ _ _).link _ _
  | beginDrag ht =>
    obtain ⟨-, p, start, -, -, rfl⟩ := Intact.beginDrag_eq ht
    exact (h.addConnector _ _ _ _).drawPath _
  | reconnect ht =>
    obtain ⟨-, k, -, rfl⟩ := reconnect_eq ht
    exact h.pickUp _ _ _
  | release hd hr hok =>
    have hidle : Shaped { s with drag := none } := h
    exact (hidle.resetRadius _).link _ _
  | discard hd =>
    have hidle : Shaped { s with drag := none } := h
    exact (hidle.resetRadius? _).destroyConnector _
  | disconnect hk hc => exact (h.detachSocket _).destroyConnector _
  | eraseNode hn hfree hdrag => exact h.eraseNode _
  | relayPorts hn hold hfree hdrag variant =>
    exact h.relayPorts hn (by rw [hold]; rfl) variant

theorem moves (h : s.Shaped) (hm : s.Moves t) : t.Shaped := by
  induction hm with
  | refl => exact h
  | tail _ hstep ih => exact ih.move hstep

end Shaped

theorem shaped_new (settings : Settings) : (new settings).Shaped := by
  intro id n hn
  cases hn

/-- Every session that is reached is in shape. -/
theorem Reached.shaped {s : Session} (h : s.Reached) : s.Shaped := by
  obtain ⟨settings, hm⟩ := h.moves
  exact (shaped_new settings).moves hm

end Session
end FlowGraph
