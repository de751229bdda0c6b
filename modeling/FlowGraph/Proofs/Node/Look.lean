import FlowGraph.Proofs.Node.Shape

/-! # The look of a node

What a record tells of a node besides its kind and its connections: its place and size, the operation that
is chosen, and the constants on its data sockets. Connections come and go without changing the look.
-/

namespace FlowGraph
set_option autoImplicit false

structure Look where
  position : Point
  scale : Scalar
  variant : Option Variant
  values : List (Option Literal)

namespace Frame

def values (f : Frame) : List (Option Literal) := f.dataSockets.map (·.value)

def look (f : Frame) : Look := ⟨f.position, f.scale, f.variant, f.values⟩

theorem values_getElem? (f : Frame) (index : Nat) :
    f.values[index]? = (f.socket? .data index).map (·.value) := List.getElem?_map

theorem look_eq {f g : Frame} (hbody : g.body = f.body) (hvalues : g.values = f.values) :
    g.look = f.look := by
  show (⟨g.body.position, g.body.scale, g.body.variant, g.values⟩ : Look) =
    ⟨f.body.position, f.body.scale, f.body.variant, f.values⟩
  rw [hbody, hvalues]

section Values
variable (f : Frame) (port : PortKind) (index : Nat)

theorem values_modifySocket (g : Socket → Socket) (hg : ∀ t, (g t).value = t.value) :
    (f.modifySocket port index g).values = f.values := by
  cases port with
  | flow => rfl
  | data => exact map_modify f.dataSockets index g (·.value) hg

@[simp] theorem values_modifyPlug (g : Plug → Plug) : (f.modifyPlug port index g).values = f.values := by
  cases port <;> rfl

@[simp] theorem values_subscribe (c : ConnectorId) : (f.subscribe c).values = f.values := by
  unfold subscribe
  split <;> rfl

@[simp] theorem values_simulate (state : Bool) : (f.simulate state).values = f.values := by
  unfold simulate
  dsimp only
  split
  · rfl
  · rw [values_modifyPlug, values_modifyPlug]
    rfl

@[simp] theorem values_resetSimulation : f.resetSimulation.values = f.values := rfl

theorem values_setValue (value : Option Literal) :
    (f.modifySocket .data index fun t => { t with value := value }).values = f.values.set index value := by
  refine List.ext_getElem? fun j => ?_
  rw [values, values, modifySocket, List.getElem?_set, List.getElem?_map, List.getElem?_map,
    List.getElem?_modify, List.length_map]
  by_cases hj : index = j
  · subst hj
    by_cases hin : index < f.dataSockets.length
    · simp [hin]
    · simp [hin]
  · simp [hj]

end Values
end Frame

namespace NodeKind
variable (kind : NodeKind) (f : Frame) (port : PortKind) (index : Nat)

@[simp] theorem values_settleSum : (settleSum f).values = f.values := by
  unfold settleSum
  split
  · exact f.values_modifyPlug _ _ _
  · rfl

@[simp] theorem values_socketConnected (plugType : PortType) :
    (kind.socketConnected f port index plugType).values = f.values := by
  have hset (g : Frame) : (g.modifySocket port index (·.setType plugType)).values = g.values :=
    g.values_modifySocket _ _ _ fun _ => rfl
  have hshow : (f.modifySocket port index (·.showEditor false)).values = f.values := by
    refine f.values_modifySocket _ _ _ fun t => ?_
    unfold Socket.showEditor
    split <;> rfl
  unfold socketConnected
  split
  · rfl
  · dsimp only
    split <;> split <;> simp [hset, hshow]

@[simp] theorem values_valueChanged (value : Option Literal) (types : Variables) :
    (kind.valueChanged f index value types).values = f.values := by
  unfold valueChanged
  split
  · split <;> simp
  · split
    · exact f.values_modifyPlug _ _ _
    · rfl
  · rfl

end NodeKind

namespace Node
variable (n : Node) (c : ConnectorId) (port : PortKind) (index : Nat)

theorem look_receive (plugType : PortType) : (n.receive c port index plugType).frame.look = n.frame.look := by
  refine Frame.look_eq (congrArg Prod.snd (n.body_receive c port index plugType)) ?_
  rw [receive, NodeKind.values_socketConnected, Frame.values_subscribe]
  exact n.frame.values_modifySocket _ _ _ fun _ => rfl

theorem look_send : (n.send c port index).frame.look = n.frame.look := by
  refine Frame.look_eq (congrArg Prod.snd (n.body_send c port index)) ?_
  rw [send, Frame.values_subscribe, Frame.values_modifyPlug]

end Node

/-! ## New nodes -/

theorem NodeKind.look_freshFrame (kind : NodeKind) (position : Point) (scale : Scalar)
    (style : ConnectorStyle) : (kind.freshFrame position scale style).look = ⟨position, scale,
      if kind = .math then some .add else none, (kind.socketTypes .data).map fun _ => none⟩ := by
  cases kind <;> rfl

end FlowGraph
