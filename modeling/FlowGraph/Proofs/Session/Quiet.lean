import FlowGraph.Proofs.Session.Wiring

/-! # Quiet changes

A change is steady when it hands out no identity, keeps the kinds of the nodes and leaves the dragged
connector alone, and quiet when it leaves the wiring alone too. Moving, scaling, raising, restyling,
setting constants and following the pointer are all quiet.
-/

namespace FlowGraph
set_option autoImplicit false

def Drag.ends (d : Drag) : ConnectorId × PlugRef := (d.connector, d.plug)

namespace Session

/-- The second session has handed out no more than the first, has nodes of the same kinds, and drags the
same connector. -/
structure Steady (s t : Session) : Prop where
  nodesOnce : s.nodes.keys.Nodup → t.nodes.keys.Nodup
  connectorsOnce : s.connectors.keys.Nodup → t.connectors.keys.Nodup
  ids : t.ids = s.ids
  drag : t.drag.map Drag.ends = s.drag.map Drag.ends
  kinds : ∀ id, (t.node? id).map (·.kind) = (s.node? id).map (·.kind)

/-- The second session also has the edges of the first. -/
structure Quiet (s t : Session) : Prop extends s.Steady t where
  wiring : t.wiring = s.wiring

namespace Steady
variable {s t u : Session}

theorem refl (s : Session) : s.Steady s := ⟨id, id, rfl, rfl, fun _ => rfl⟩

theorem trans (h : s.Steady t) (h' : t.Steady u) : s.Steady u where
  nodesOnce hs := h'.nodesOnce (h.nodesOnce hs)
  connectorsOnce hs := h'.connectorsOnce (h.connectorsOnce hs)
  ids := h'.ids.trans h.ids
  drag := h'.drag.trans h.drag
  kinds id := (h'.kinds id).trans (h.kinds id)

end Steady

namespace Quiet
variable {s t u : Session}

theorem refl (s : Session) : s.Quiet s := ⟨Steady.refl s, rfl⟩

theorem trans (h : s.Quiet t) (h' : t.Quiet u) : s.Quiet u :=
  ⟨h.toSteady.trans h'.toSteady, h'.wiring.trans h.wiring⟩

theorem foldl {α : Type} (f : Session → α → Session) (hf : ∀ (s : Session) a, s.Quiet (f s a)) (l : List α)
    (s : Session) : s.Quiet (l.foldl f s) :=
  List.foldlRecOn (motive := s.Quiet) l f (refl s) fun t ht a _ => ht.trans (hf t a)

theorem setDrag {d e : Drag} (h : s.Quiet t) (hd : s.drag = some d) (he : e.ends = d.ends) :
    s.Quiet { t with drag := some e } :=
  { h with
    drag := by
      rw [hd, Option.map_some, Option.map_some, he] }

end Quiet

section Single
variable (s : Session)

theorem kinds_modifyNode (id : NodeId) (f : Node → Node) (hf : ∀ n, (f n).kind = n.kind) (m : NodeId) :
    ((s.modifyNode id f).node? m).map (·.kind) = (s.node? m).map (·.kind) := by
  rw [node?_modifyNode]
  split
  · rw [Option.map_map]
    exact congrArg (Option.map · _) (funext hf)
  · rfl

theorem steady_modifyNode (id : NodeId) (f : Node → Node) (hf : ∀ n, (f n).kind = n.kind) :
    s.Steady (s.modifyNode id f) where
  nodesOnce hs := by
    rw [modifyNode, OrderedMap.keys_modify]
    exact hs
  connectorsOnce hs := hs
  ids := rfl
  drag := rfl
  kinds := s.kinds_modifyNode id f hf

theorem steady_modifyConnector (c : ConnectorId) (f : Connector → Connector) :
    s.Steady (s.modifyConnector c f) where
  nodesOnce hs := hs
  connectorsOnce hs := by
    rw [modifyConnector, OrderedMap.keys_modify]
    exact hs
  ids := rfl
  drag := rfl
  kinds _ := rfl

theorem quiet_draw (call : DrawCall) : s.Quiet (s.draw call) :=
  ⟨⟨id, id, rfl, rfl, fun _ => rfl⟩, rfl⟩

theorem quiet_drawPath (c : ConnectorId) : s.Quiet (s.drawPath c) := by
  unfold drawPath
  split
  · exact s.quiet_draw _
  · exact Quiet.refl s

theorem quiet_modifyNode (id : NodeId) (f : Node → Node) (hf : ∀ n, (f n).kind = n.kind)
    (h : ∀ n, (f n).frame.wires = n.frame.wires) : s.Quiet (s.modifyNode id f) :=
  ⟨s.steady_modifyNode id f hf, s.wiring_modifyNode id f h⟩

theorem quiet_modifyFrame (id : NodeId) (f : Frame → Frame) (h : ∀ g, (f g).wires = g.wires) :
    s.Quiet (s.modifyFrame id f) :=
  s.quiet_modifyNode id _ (fun _ => rfl) fun n => h n.frame

theorem quiet_modifyConnector (c : ConnectorId) (f : Connector → Connector)
    (h : ∀ k, (f k).edge = k.edge) : s.Quiet (s.modifyConnector c f) :=
  ⟨s.steady_modifyConnector c f, s.wiring_modifyConnector_eq c f h⟩

theorem quiet_setRadius (r : SocketRef) (radius : Float) : s.Quiet (s.setRadius r radius) :=
  s.quiet_modifyFrame _ _ fun f => f.wires_modifySocket_eq _ _ _ fun _ => rfl

theorem quiet_resetRadius (r : SocketRef) : s.Quiet (s.resetRadius r) :=
  s.quiet_modifyFrame _ _ fun f => f.wires_modifySocket_eq _ _ _ fun _ => rfl

theorem quiet_resetRadius? (r : Option SocketRef) : s.Quiet (s.resetRadius? r) := by
  cases r with
  | none => exact Quiet.refl s
  | some r => exact s.quiet_resetRadius r

/-! ## Moving and raising -/

theorem quiet_followNode (id : NodeId) (f : Frame) (c : ConnectorId) : s.Quiet (s.followNode id f c) := by
  unfold followNode
  refine Quiet.trans ?_ (quiet_drawPath _ c)
  exact s.quiet_modifyConnector c _ fun _ => rfl

theorem quiet_emitMove (id : NodeId) : s.Quiet (s.emitMove id) := by
  unfold emitMove
  split
  · exact Quiet.foldl _ (fun s c => s.quiet_followNode id _ c) _ s
  · exact Quiet.refl s

theorem quiet_moveNode (id : NodeId) (position : Point) : s.Quiet (s.moveNode id position) := by
  unfold moveNode
  split
  · have hplace := s.quiet_modifyFrame id
      (fun f => { f with position := position, positioned := true }) fun _ => rfl
    exact hplace.trans ((quiet_draw _ _).trans (quiet_emitMove _ id))
  · exact Quiet.refl s

theorem quiet_setScale (id : NodeId) (scale : Scalar) : s.Quiet (s.setScale id scale) := by
  unfold setScale
  split
  · have hscale := s.quiet_modifyFrame id (fun f => { f with scale := scale }) fun _ => rfl
    exact hscale.trans ((quiet_draw _ _).trans (quiet_emitMove _ id))
  · exact Quiet.refl s

theorem quiet_raiseConnector (c : ConnectorId) : s.Quiet (s.raiseConnector c) where
  nodesOnce hs := hs
  connectorsOnce hs := OrderedMap.nodup_keys_raise hs c
  ids := rfl
  wiring := by
    refine wiring_congr (fun _ => rfl) (funext fun d => ?_)
    show ((s.connectors.raise c).get? d).map (·.edge) = (s.connectors.get? d).map (·.edge)
    rw [OrderedMap.get?_raise]
  drag := rfl
  kinds _ := rfl

theorem quiet_raiseNode (id : NodeId) : s.Quiet { s with nodes := s.nodes.raise id } where
  nodesOnce hs := OrderedMap.nodup_keys_raise hs id
  connectorsOnce hs := hs
  ids := rfl
  wiring := by
    refine wiring_congr (fun n => ?_) rfl
    show ((s.nodes.raise id).get? n).map _ = (s.nodes.get? n).map _
    rw [OrderedMap.get?_raise]
  drag := rfl
  kinds n := by
    show ((s.nodes.raise id).get? n).map _ = (s.nodes.get? n).map _
    rw [OrderedMap.get?_raise]

theorem quiet_bringToFront (id : NodeId) : s.Quiet (s.bringToFront id) := by
  unfold bringToFront
  split
  · exact Quiet.refl s
  · have hraise := (s.quiet_raiseNode id).trans (quiet_draw _ (.raise (.node id)))
    exact hraise.trans (Quiet.foldl _ quiet_raiseConnector _ _)

/-! ## Values and style -/

theorem quiet_setValue (r : SocketRef) (value : Option Literal) : s.Quiet (s.setValue r value).2 := by
  unfold setValue
  split
  · refine s.quiet_modifyNode r.node _ (fun _ => rfl) fun n => ?_
    dsimp only
    rw [NodeKind.wires_valueChanged]
    exact n.frame.wires_modifySocket_eq _ _ _ fun _ => rfl
  · exact Quiet.refl s

theorem quiet_registerVariable (name : String) (type : PortType) :
    s.Quiet (s.registerVariable name type).2 := by
  unfold registerVariable
  split
  · exact Quiet.refl s
  · exact ⟨⟨id, id, rfl, rfl, fun _ => rfl⟩, rfl⟩

theorem wires_restyle (style : ConnectorStyle) (n : Node) :
    (restyle style n).frame.wires = n.frame.wires := by
  refine Wires.ext rfl ?_ rfl
  funext kind index
  cases kind <;> simp [restyle, Frame.wires, Frame.plug?, Frame.plugs, Function.comp_def]

theorem quiet_setStyle (style : ConnectorStyle) : s.Quiet (s.setStyle style) := by
  unfold setStyle
  refine Quiet.trans (t := { s with
    settings := { s.settings with connectorStyle := style }
    nodes := s.nodes.mapValues (restyle style)
    connectors := s.connectors.mapValues fun c => { c with style := style } })
    ⟨⟨fun hs => ?_, fun hs => ?_, rfl, rfl, fun n => ?_⟩, ?_⟩ (Quiet.foldl _ quiet_drawPath _ _)
  · rw [OrderedMap.keys_mapValues]
    exact hs
  · rw [OrderedMap.keys_mapValues]
    exact hs
  · show ((s.nodes.mapValues _).get? n).map _ = (s.nodes.get? n).map _
    rw [OrderedMap.get?_mapValues, Option.map_map]
    rfl
  · refine wiring_congr (fun n => ?_) (funext fun d => ?_)
    · show ((s.nodes.mapValues _).get? n).map _ = (s.nodes.get? n).map _
      simp only [OrderedMap.get?_mapValues, Option.map_map, Function.comp_def, wires_restyle]
    · show ((s.connectors.mapValues _).get? d).map _ = (s.connectors.get? d).map _
      simp only [OrderedMap.get?_mapValues, Option.map_map, Function.comp_def]
      rfl

/-! ## The pointer -/

/-- A pointer that moves pulls the end of the dragged connector along and sets a few radii anew. -/
theorem updateDrag_induction {s : Session} {P : Session → Prop} (pointer : Point) (h : P s)
    (hmove : ∀ d, s.drag = some d →
      P ((s.modifyConnector d.connector fun c => { c with stop := pointer }).drawPath d.connector))
    (hreset : ∀ t r, P t → P (t.resetRadius? r)) (hset : ∀ t r x, P t → P (t.setRadius r x))
    (hdrag : ∀ t e, P t → P { t with drag := e }) : P (s.updateDrag pointer) := by
  unfold updateDrag
  split
  · exact h
  · rename_i d hd
    refine hdrag _ _ ?_
    dsimp only
    split
    · exact hmove d hd
    · split
      · exact hset _ _ _ (hreset _ _ (hmove d hd))
      · exact hreset _ _ (hmove d hd)

theorem quiet_updateDrag (pointer : Point) : s.Quiet (s.updateDrag pointer) := by
  unfold updateDrag
  split
  · exact Quiet.refl s
  · rename_i d hd
    have hstop := s.quiet_modifyConnector d.connector (fun c => { c with stop := pointer }) fun _ => rfl
    have hmove := hstop.trans (quiet_drawPath _ d.connector)
    refine Quiet.setDrag ?_ hd rfl
    dsimp only
    split
    · exact hmove
    · split
      · exact (hmove.trans (quiet_resetRadius? _ _)).trans (quiet_setRadius _ _ _)
      · exact hmove.trans (quiet_resetRadius? _ _)

/-! ## Edges -/

theorem steady_link (c : ConnectorId) (r : SocketRef) : s.Steady (s.link c r) := by
  unfold link
  split
  · exact Steady.refl s
  · refine Steady.trans ?_ (quiet_drawPath _ c).toSteady
    refine Steady.trans ?_ (steady_modifyConnector _ c _)
    refine (s.steady_modifyNode r.node _ ?_).trans (steady_modifyNode _ _ _ ?_) <;> exact fun _ => rfl

theorem steady_modifyFrame (id : NodeId) (f : Frame → Frame) : s.Steady (s.modifyFrame id f) :=
  s.steady_modifyNode id _ fun _ => rfl

theorem steady_detachSocket (c : ConnectorId) : s.Steady (s.detachSocket c) := by
  unfold detachSocket
  split
  · exact Steady.refl s
  · refine (s.steady_modifyConnector c _).trans (steady_modifyNode _ _ _ ?_)
    exact fun _ => rfl

theorem steady_destroyConnector (c : ConnectorId) : s.Steady (s.destroyConnector c) := by
  unfold destroyConnector
  split
  · exact Steady.refl s
  · have herase : s.Steady { s with connectors := s.connectors.erase c } :=
      ⟨id, fun hs => OrderedMap.nodup_keys_erase hs c, rfl, rfl, fun _ => rfl⟩
    refine (herase.trans (steady_modifyNode _ _ _ ?_)).trans (quiet_draw _ _).toSteady
    exact fun _ => rfl

end Single
end Session
end FlowGraph
