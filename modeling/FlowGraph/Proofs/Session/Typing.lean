import FlowGraph.Proofs.Node.Typing
import FlowGraph.Proofs.Program.Settling
import FlowGraph.Proofs.Session.Fitting
import FlowGraph.Proofs.Session.Rules

/-! # The types in a session

What a session says of the types of its ports, and what each change of it does to them. Most changes leave
all types alone. The rest touch one node: the end of an edge at a socket, a constant, new ports.
-/

namespace FlowGraph
set_option autoImplicit false

namespace Session

def typing? (s : Session) (id : NodeId) : Option (NodeKind × PortTypes) := (s.node? id).map Node.typing

def outputType? (s : Session) (p : PlugRef) : Option PortType := (s.plug? p).map (·.type)

def inputType? (s : Session) (r : SocketRef) : Option PortType := (s.socket? r).map (·.type)

/-- The socket accepts the plug, as they are now. -/
def Accepts (s : Session) (p : PlugRef) (r : SocketRef) : Prop :=
  ∃ q t, s.plug? p = some q ∧ s.socket? r = some t ∧ t.accepts q.type = true

section Views
variable {s t : Session} {p : PlugRef} {r : SocketRef} {id : NodeId}

theorem outputType?_eq (s : Session) (p : PlugRef) :
    s.outputType? p = (s.typing? p.node).bind fun n => (n.2.outputs p.kind)[p.index]? := by
  rw [outputType?, plug?, typing?, Option.map_bind, Option.bind_map]
  exact congrArg _ (funext fun n => (n.frame.outputs_getElem? p.kind p.index).symm)

theorem inputType?_eq (s : Session) (r : SocketRef) :
    s.inputType? r = (s.typing? r.node).bind fun n => (n.2.inputs r.kind)[r.index]? := by
  rw [inputType?, socket?, typing?, Option.map_bind, Option.bind_map]
  exact congrArg _ (funext fun n => (n.frame.inputs_getElem? r.kind r.index).symm)

theorem outputType?_congr (h : t.typing? p.node = s.typing? p.node) : t.outputType? p = s.outputType? p := by
  rw [outputType?_eq, outputType?_eq, h]

theorem inputType?_congr (h : t.typing? r.node = s.typing? r.node) : t.inputType? r = s.inputType? r := by
  rw [inputType?_eq, inputType?_eq, h]

theorem kindOf_congr (h : t.typing? id = s.typing? id) : t.kindOf id = s.kindOf id := by
  have hkind := congrArg (Option.map Prod.fst) h
  rw [typing?, typing?, Option.map_map, Option.map_map] at hkind
  exact hkind

theorem adaptive_eq (s : Session) (r : SocketRef) :
    s.adaptive r = ((s.kindOf r.node).map (·.adapts r.kind)).getD false := by
  rw [adaptive, kindOf, Option.map_map]
  rfl

theorem adaptive_congr (h : t.kindOf r.node = s.kindOf r.node) : t.adaptive r = s.adaptive r := by
  rw [adaptive_eq, adaptive_eq, h]

theorem accepts_iff (hs : s.Shaped) :
    s.Accepts p r ↔ ∃ a b, s.outputType? p = some a ∧ s.inputType? r = some b ∧ b.accepts a = true := by
  constructor
  · rintro ⟨q, u, hq, hu, haccepts⟩
    rw [accepts_of_shaped hs hu] at haccepts
    exact ⟨q.type, u.type, congrArg (Option.map Plug.type) hq, congrArg (Option.map Socket.type) hu, haccepts⟩
  · rintro ⟨a, b, ha, hb, haccepts⟩
    obtain ⟨q, hq, rfl⟩ := Option.map_eq_some_iff.1 ha
    obtain ⟨u, hu, rfl⟩ := Option.map_eq_some_iff.1 hb
    exact ⟨q, u, hq, hu, (accepts_of_shaped hs hu _).trans haccepts⟩

theorem Accepts.congr (hs : s.Shaped) (ht : t.Shaped) (hout : t.outputType? p = s.outputType? p)
    (hin : t.inputType? r = s.inputType? r) (h : s.Accepts p r) : t.Accepts p r := by
  obtain ⟨a, b, ha, hb, haccepts⟩ := (accepts_iff hs).1 h
  exact (accepts_iff ht).2 ⟨a, b, hout.trans ha, hin.trans hb, haccepts⟩

end Views

/-! ## Changes that leave the types alone -/

section Kept
variable (s : Session)

theorem typing?_modifyNode (id m : NodeId) (f : Node → Node)
    (hf : ∀ n, s.node? id = some n → (f n).typing = n.typing) :
    (s.modifyNode id f).typing? m = s.typing? m := by
  rw [typing?, node?_modifyNode]
  split
  · rename_i hm
    rw [hm, Option.map_map, typing?]
    exact Option.map_congr hf
  · rfl

theorem typing?_modifyNode_of_ne {id m : NodeId} (h : m ≠ id) (f : Node → Node) :
    (s.modifyNode id f).typing? m = s.typing? m := by
  rw [typing?, node?_modifyNode, if_neg h]
  rfl

theorem typing?_modifyFrame (id m : NodeId) (f : Frame → Frame)
    (hf : ∀ g, (f g).portTypes = g.portTypes) : (s.modifyFrame id f).typing? m = s.typing? m :=
  s.typing?_modifyNode id m _ fun n _ => congrArg (Prod.mk n.kind) (hf n.frame)

@[simp] theorem typing?_modifyConnector (c : ConnectorId) (f : Connector → Connector) (m : NodeId) :
    (s.modifyConnector c f).typing? m = s.typing? m := rfl

@[simp] theorem typing?_draw (call : DrawCall) (m : NodeId) : (s.draw call).typing? m = s.typing? m := rfl

@[simp] theorem typing?_drawPath (c : ConnectorId) (m : NodeId) : (s.drawPath c).typing? m = s.typing? m :=
  congrArg (Option.map Node.typing) (s.node?_drawPath c m)

@[simp] theorem typing?_setRadius (r : SocketRef) (radius : Float) (m : NodeId) :
    (s.setRadius r radius).typing? m = s.typing? m :=
  s.typing?_modifyFrame r.node m _ fun f => f.portTypes_modifySocket _ _ _ fun _ => rfl

@[simp] theorem typing?_resetRadius (r : SocketRef) (m : NodeId) :
    (s.resetRadius r).typing? m = s.typing? m :=
  s.typing?_modifyFrame r.node m _ fun f => f.portTypes_modifySocket _ _ _ fun _ => rfl

@[simp] theorem typing?_resetRadius? (r : Option SocketRef) (m : NodeId) :
    (s.resetRadius? r).typing? m = s.typing? m := by
  cases r with
  | none => rfl
  | some r => exact s.typing?_resetRadius r m

@[simp] theorem typing?_emitMove (id m : NodeId) : (s.emitMove id).typing? m = s.typing? m :=
  congrArg (Option.map Node.typing) (s.node?_emitMove id m)

theorem typing?_moveNode (id : NodeId) (position : Point) (m : NodeId) :
    (s.moveNode id position).typing? m = s.typing? m := by
  unfold moveNode
  split
  · rw [typing?_emitMove, typing?_draw]
    exact s.typing?_modifyFrame id m _ fun _ => rfl
  · rfl

theorem typing?_setScale (id : NodeId) (scale : Scalar) (m : NodeId) :
    (s.setScale id scale).typing? m = s.typing? m := by
  unfold setScale
  split
  · rw [typing?_emitMove, typing?_draw]
    exact s.typing?_modifyFrame id m _ fun _ => rfl
  · rfl

theorem typing?_bringToFront (id m : NodeId) : (s.bringToFront id).typing? m = s.typing? m := by
  unfold bringToFront
  split
  · rfl
  · rw [typing?, node?_foldl _ raiseConnector fun _ _ _ => rfl]
    exact congrArg (Option.map Node.typing) (s.nodes.get?_raise id m)

theorem typing_restyle (style : ConnectorStyle) (n : Node) : (restyle style n).typing = n.typing := by
  refine Prod.ext rfl (n.frame.portTypes_mapPlugs (fun p => { p with style := style }) (fun _ => rfl) rfl ?_)
  intro k
  cases k <;> exact Or.inl rfl

theorem typing?_setStyle (style : ConnectorStyle) (m : NodeId) :
    (s.setStyle style).typing? m = s.typing? m := by
  unfold setStyle
  rw [typing?, node?_foldl _ drawPath fun s c n => s.node?_drawPath c n]
  show ((s.nodes.mapValues (restyle style)).get? m).map Node.typing = (s.nodes.get? m).map Node.typing
  rw [OrderedMap.get?_mapValues, Option.map_map]
  exact congrArg (Option.map · _) (funext (typing_restyle style))

theorem typing?_registerVariable (name : String) (type : PortType) (m : NodeId) :
    (s.registerVariable name type).2.typing? m = s.typing? m := by
  unfold registerVariable
  split <;> rfl

theorem typing?_updateDrag (pointer : Point) (m : NodeId) :
    (s.updateDrag pointer).typing? m = s.typing? m := by
  refine updateDrag_induction (P := fun t => t.typing? m = s.typing? m) pointer rfl (fun d _ => ?_)
    (fun t r ht => (t.typing?_resetRadius? r m).trans ht) (fun t r x ht => (t.typing?_setRadius r x m).trans ht)
    fun _ _ ht => ht
  exact typing?_drawPath _ d.connector m

theorem typing?_addConnector (p : PlugRef) (start stop : Point) (style : ConnectorStyle) (m : NodeId) :
    (s.addConnector p start stop style).2.typing? m = s.typing? m :=
  typing?_modifyFrame { s with ids := s.ids.connector.2 } p.node m
    (fun f => { f with dependents := f.dependents ++ [s.ids.connector.1] }) fun _ => rfl

theorem typing?_destroyConnector (c : ConnectorId) (m : NodeId) :
    (s.destroyConnector c).typing? m = s.typing? m := by
  unfold destroyConnector
  split
  · rfl
  · exact typing?_modifyNode { s with connectors := s.connectors.erase c } _ m _
      fun n _ => n.typing_withdraw c _ _

theorem typing?_discardDrag (d : Drag) (m : NodeId) : (s.discardDrag d).typing? m = s.typing? m := by
  rw [discardDrag, typing?_destroyConnector, typing?_resetRadius?]
  rfl

variable {s}

theorem typing?_beginDrag {t : Session} {p : PlugRef} {pointer : Point} {c : ConnectorId}
    (ht : s.beginDrag p pointer = (some c, t)) (m : NodeId) : t.typing? m = s.typing? m := by
  obtain ⟨-, q, start, -, rfl, rfl⟩ := Intact.beginDrag_eq ht
  exact (typing?_drawPath _ _ m).trans (s.typing?_addConnector p start pointer q.style m)

end Kept

/-! ## Changes of one node -/

section Changed
variable (s : Session)

theorem typing?_spawn (kind : NodeKind) (position : Point) (scale : Scalar) (m : NodeId) :
    (s.spawn kind position scale).2.typing? m =
      if m = s.ids.node.1 then
        some (Node.typing ⟨kind, kind.freshFrame position scale s.settings.connectorStyle⟩)
      else s.typing? m := by
  show ((s.nodes.put s.ids.node.1 _).get? m).map Node.typing = _
  rw [OrderedMap.get?_put]
  split <;> rfl

theorem typing?_eraseNode (id m : NodeId) :
    (s.eraseNode id).typing? m = if m = id then none else s.typing? m := by
  show ((s.nodes.erase id).get? m).map Node.typing = _
  rw [OrderedMap.get?_erase]
  split <;> rfl

theorem typing?_relayPorts_of_ne {id m : NodeId} (h : m ≠ id) (variant : Variant) :
    (s.relayPorts id variant).typing? m = s.typing? m := s.typing?_modifyNode_of_ne h _

theorem typing?_setValue_of_ne {r : SocketRef} {m : NodeId} (h : m ≠ r.node) (value : Option Literal) :
    (s.setValue r value).2.typing? m = s.typing? m := by
  unfold setValue
  split
  · exact s.typing?_modifyNode_of_ne h _
  · rfl

variable {s} {c : ConnectorId} {r : SocketRef}

theorem typing?_link {k : Connector} (hk : s.connector? c = some k) (r : SocketRef) (m : NodeId) :
    (s.link c r).typing? m = (s.modifyNode r.node
      (·.receive c r.kind r.index ((s.outputType? k.plug).getD .any))).typing? m := by
  unfold link
  rw [hk]
  dsimp only
  rw [typing?_drawPath, typing?_modifyConnector]
  exact typing?_modifyNode _ _ m _ fun n _ => n.typing_send c _ _

theorem typing?_detachSocket (h : (s.connector? c).bind (·.connectedTo) = some r) (m : NodeId) :
    (s.detachSocket c).typing? m = (s.modifyNode r.node (·.release c r.kind r.index)).typing? m := by
  unfold detachSocket
  rw [h]
  rfl

theorem typing?_pickUp (c : ConnectorId) (p : PlugRef) (pointer : Point) (m : NodeId) :
    (s.pickUp c p pointer).typing? m = (s.detachSocket c).typing? m := by
  rw [pickUp, typing?_drawPath, typing?_modifyConnector]
  exact typing?_modifyFrame _ p.node m _ fun f => f.portTypes_modifyPlug _ _ _ fun _ => rfl

/-- Something that leaves a socket changes types only if the socket adapts, and then only on its node. -/
theorem typing?_release {m : NodeId} (h : m ≠ r.node ∨ s.adaptive r = false) (c : ConnectorId) :
    (s.modifyNode r.node (·.release c r.kind r.index)).typing? m = s.typing? m := by
  obtain hm | hfixed := h
  · exact s.typing?_modifyNode_of_ne hm _
  · refine s.typing?_modifyNode r.node m _ fun n hn => ?_
    rw [adaptive_of_node? hn] at hfixed
    exact Node.typing_release c r.index hfixed

theorem typing?_receive {m : NodeId} (h : m ≠ r.node ∨ s.adaptive r = false) (c : ConnectorId)
    (type : PortType) :
    (s.modifyNode r.node (·.receive c r.kind r.index type)).typing? m = s.typing? m := by
  obtain hm | hfixed := h
  · exact s.typing?_modifyNode_of_ne hm _
  · refine s.typing?_modifyNode r.node m _ fun n hn => ?_
    rw [adaptive_of_node? hn] at hfixed
    exact Node.typing_receive c r.index hfixed type

/-- A change at one socket that gives it a type if it adapts, and leaves the other inputs alone. -/
theorem inputType?_modifyNode (r : SocketRef) (f : Node → Node) (type : PortType)
    (hf : ∀ n k j, ((f n).frame.portTypes.inputs k)[j]? =
      if (k = r.kind ∧ j = r.index) ∧ n.kind.adapts r.kind then
        ((n.frame.portTypes.inputs k)[j]?).map fun _ => type
      else (n.frame.portTypes.inputs k)[j]?) (a : SocketRef) :
    (s.modifyNode r.node f).inputType? a =
      if a = r ∧ s.adaptive r then (s.inputType? a).map fun _ => type else s.inputType? a := by
  by_cases hnode : a.node = r.node
  · have hat : a = r ↔ a.kind = r.kind ∧ a.index = r.index := by
      rw [SocketRef.ext_iff]
      exact and_iff_right hnode
    rw [inputType?_eq, inputType?_eq, typing?, typing?, node?_modifyNode, if_pos hnode]
    cases hn : s.node? a.node with
    | none => split <;> rfl
    | some n =>
      have hinput := hf n a.kind a.index
      rw [← adaptive_of_node? (hnode ▸ hn)] at hinput
      simp only [← hat] at hinput
      exact hinput
  · have hat : ¬(a = r ∧ s.adaptive r = true) := fun h => hnode (congrArg SocketRef.node h.1)
    rw [if_neg hat]
    exact inputType?_congr (s.typing?_modifyNode_of_ne hnode f)

theorem inputType?_release (s : Session) (c : ConnectorId) (r a : SocketRef) :
    (s.modifyNode r.node (·.release c r.kind r.index)).inputType? a =
      if a = r ∧ s.adaptive r then (s.inputType? a).map fun _ => .any else s.inputType? a :=
  inputType?_modifyNode r _ .any (fun n k j => n.inputs_release c r.kind r.index k j) a

theorem inputType?_receive (s : Session) (c : ConnectorId) (r a : SocketRef) (type : PortType) :
    (s.modifyNode r.node (·.receive c r.kind r.index type)).inputType? a =
      if a = r ∧ s.adaptive r then (s.inputType? a).map fun _ => type else s.inputType? a :=
  inputType?_modifyNode r _ type (fun n k j => n.inputs_receive c r.kind r.index type k j) a

/-- A new constant leaves the inputs alone, and all types unless it is the name of a reader. -/
theorem typing?_setValue (hname : s.kindOf r.node ≠ some .variableRead ∨ r.kind ≠ .data ∨ r.index ≠ 0)
    (value : Option Literal) (m : NodeId) : (s.setValue r value).2.typing? m = s.typing? m := by
  by_cases hm : m = r.node
  · unfold setValue
    split
    · rename_i hsocket
      rw [typing?, node?_modifyNode, if_pos hm, typing?]
      cases hn : s.node? m with
      | none => rfl
      | some n =>
        have hother : n.kind ≠ .variableRead ∨ r.index ≠ 0 := by
          obtain hkind | hport | hindex := hname
          · rw [kindOf, ← hm, hn] at hkind
            exact Or.inl fun h => hkind (congrArg some h)
          · simp only [Bool.and_eq_true, decide_eq_true_eq] at hsocket
            exact absurd hsocket.1 hport
          · exact Or.inr hindex
        refine congrArg some (Prod.ext rfl ?_)
        show (n.kind.valueChanged _ r.index value s.variableTypes).portTypes = _
        rw [NodeKind.portTypes_valueChanged _ _ hother]
        exact n.frame.portTypes_modifySocket _ _ _ fun _ => rfl
    · rfl
  · exact s.typing?_setValue_of_ne hm value

theorem inputType?_setValue (s : Session) (r : SocketRef) (value : Option Literal) (a : SocketRef) :
    (s.setValue r value).2.inputType? a = s.inputType? a := by
  by_cases hnode : a.node = r.node
  · unfold setValue
    split
    · rw [inputType?_eq, inputType?_eq, typing?, node?_modifyNode, if_pos hnode, typing?]
      cases hn : s.node? a.node with
      | none => rfl
      | some n =>
        show ((n.kind.valueChanged _ r.index value s.variableTypes).portTypes.inputs a.kind)[a.index]? = _
        have hvalue : (n.frame.modifySocket .data r.index fun t =>
            { t with value := value }).portTypes = n.frame.portTypes :=
          n.frame.portTypes_modifySocket _ _ _ fun _ => rfl
        rw [NodeKind.inputs_valueChanged, hvalue]
        rfl
    · rfl
  · exact inputType?_congr (s.typing?_setValue_of_ne hnode value)

end Changed
end Session
end FlowGraph
