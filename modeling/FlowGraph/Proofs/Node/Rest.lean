import FlowGraph.Proofs.Node.Layout

/-! # Sockets at rest

A socket is drawn larger while a drag would snap to it, and otherwise with its radius at rest. Nothing that
happens to a node enlarges a socket: what arrives and leaves, previews, types and constants leave it as it
is or put it to rest.
-/

namespace FlowGraph
set_option autoImplicit false

namespace Frame

/-- The socket is there, and its radius is not the one at rest. -/
def Enlarged (f : Frame) (port : PortKind) (index : Nat) : Prop :=
  ∃ t, f.socket? port index = some t ∧ t.radius ≠ t.restRadius

section Enlarging
variable {f g : Frame} {port port' : PortKind} {index index' : Nat}

theorem enlarged_congr (h : g.socket? port index = f.socket? port index) :
    g.Enlarged port index ↔ f.Enlarged port index := by
  rw [Enlarged, Enlarged, h]

theorem enlarged_of_sockets (h : g.sockets = f.sockets) : g.Enlarged port index ↔ f.Enlarged port index :=
  enlarged_congr (by rw [socket?, socket?, h])

@[simp] theorem enlarged_modifyPlug (k : PortKind) (i : Nat) (G : Plug → Plug) :
    (f.modifyPlug k i G).Enlarged port index ↔ f.Enlarged port index :=
  enlarged_congr (f.socket?_modifyPlug k port i index G)

/-- A socket that changes is enlarged afterwards only if it is so in itself. -/
theorem enlarged_modifySocket {G : Socket → Socket} (h : (f.modifySocket port index G).Enlarged port' index') :
    (port' = port ∧ index' = index ∧ ∃ t, f.socket? port index = some t ∧ (G t).radius ≠ (G t).restRadius) ∨
      ¬(port' = port ∧ index' = index) ∧ f.Enlarged port' index' := by
  obtain ⟨t, ht, hradius⟩ := h
  rw [socket?_modifySocket] at ht
  split at ht
  · rename_i hat
    obtain ⟨u, hu, rfl⟩ := Option.map_eq_some_iff.1 ht
    exact Or.inl ⟨hat.1, hat.2, u, hu, hradius⟩
  · rename_i hat
    exact Or.inr ⟨hat, t, ht, hradius⟩

theorem enlarged_of_modifySocket {G : Socket → Socket}
    (hG : ∀ t, (G t).radius ≠ (G t).restRadius → t.radius ≠ t.restRadius)
    (h : (f.modifySocket port index G).Enlarged port' index') : f.Enlarged port' index' := by
  obtain ⟨rfl, rfl, t, ht, hradius⟩ | ⟨-, hold⟩ := enlarged_modifySocket h
  · exact ⟨t, ht, hG t hradius⟩
  · exact hold

@[simp] theorem enlarged_subscribe (c : ConnectorId) :
    (f.subscribe c).Enlarged port index ↔ f.Enlarged port index := by
  unfold subscribe
  split
  · rfl
  · exact enlarged_of_sockets rfl

@[simp] theorem enlarged_unsubscribe (c : ConnectorId) :
    (f.unsubscribe c).Enlarged port index ↔ f.Enlarged port index := enlarged_of_sockets rfl

@[simp] theorem enlarged_resetSimulation :
    f.resetSimulation.Enlarged port index ↔ f.Enlarged port index := enlarged_of_sockets rfl

@[simp] theorem enlarged_simulate (state : Bool) :
    (f.simulate state).Enlarged port index ↔ f.Enlarged port index := by
  unfold simulate
  dsimp only
  split
  · exact enlarged_of_sockets rfl
  · rw [enlarged_modifyPlug, enlarged_modifyPlug]
    exact enlarged_of_sockets rfl

end Enlarging
end Frame

namespace NodeKind
variable {kind : NodeKind} {f : Frame} {port port' : PortKind} {index index' : Nat}

@[simp] theorem enlarged_settleSum : (settleSum f).Enlarged port index ↔ f.Enlarged port index := by
  unfold settleSum
  split
  · exact Frame.enlarged_modifyPlug _ _ _
  · rfl

theorem enlarged_showEditor {shown : Bool}
    (h : (f.modifySocket port index (·.showEditor shown)).Enlarged port' index') : f.Enlarged port' index' := by
  refine Frame.enlarged_of_modifySocket (fun t ht => ?_) h
  unfold Socket.showEditor at ht
  split at ht <;> exact ht

/-- A sum that gives a type to a socket puts it to rest. -/
theorem enlarged_adapt {type : PortType} (h : (if kind.adapts port then
      settleSum (f.modifySocket port index (·.setType type)) else f).Enlarged port' index') :
    f.Enlarged port' index' := by
  split at h
  · exact Frame.enlarged_of_modifySocket (fun _ ht => absurd rfl ht) (enlarged_settleSum.1 h)
  · exact h

theorem enlarged_socketConnected {type : PortType}
    (h : (kind.socketConnected f port index type).Enlarged port' index') : f.Enlarged port' index' := by
  unfold socketConnected at h
  split at h
  · exact h
  · have hreset := enlarged_adapt h
    split at hreset
    · exact enlarged_showEditor (Frame.enlarged_resetSimulation.1 hreset)
    · exact enlarged_showEditor hreset

theorem enlarged_socketDisconnected (h : (kind.socketDisconnected f port index).Enlarged port' index') :
    f.Enlarged port' index' := by
  unfold socketDisconnected at h
  dsimp only at h
  split at h
  · exact enlarged_adapt h
  · split at h
    · exact enlarged_adapt (enlarged_showEditor ((Frame.enlarged_simulate _).1 h))
    · exact enlarged_adapt (enlarged_showEditor h)

@[simp] theorem enlarged_valueChanged (value : Option Literal) (types : Variables) :
    (kind.valueChanged f index value types).Enlarged port' index' ↔ f.Enlarged port' index' := by
  unfold valueChanged
  split
  · split
    · exact Frame.enlarged_simulate _
    · rfl
  · split
    · exact Frame.enlarged_modifyPlug _ _ _
    · rfl
  · rfl

end NodeKind

/-! ## The ends of an edge -/

namespace Node
variable {n : Node} {c : ConnectorId} {port port' : PortKind} {index index' : Nat}

theorem enlarged_receive {type : PortType} (h : (n.receive c port index type).frame.Enlarged port' index') :
    n.frame.Enlarged port' index' := by
  have harrived := (Frame.enlarged_subscribe c).1 (NodeKind.enlarged_socketConnected h)
  exact Frame.enlarged_of_modifySocket (fun _ ht => absurd rfl ht) harrived

theorem enlarged_release (h : (n.release c port index).frame.Enlarged port' index') :
    n.frame.Enlarged port' index' := by
  have hgone := (Frame.enlarged_unsubscribe c).1 (NodeKind.enlarged_socketDisconnected h)
  refine Frame.enlarged_of_modifySocket (fun t ht => ?_) hgone
  exact ht

@[simp] theorem enlarged_send :
    (n.send c port index).frame.Enlarged port' index' ↔ n.frame.Enlarged port' index' := by
  rw [send, Frame.enlarged_subscribe, Frame.enlarged_modifyPlug]

@[simp] theorem enlarged_withdraw :
    (n.withdraw c port index).frame.Enlarged port' index' ↔ n.frame.Enlarged port' index' := by
  rw [withdraw, Frame.enlarged_unsubscribe, Frame.enlarged_modifyPlug]

end Node

/-! ## New ports -/

theorem Frame.not_enlarged_of_radii {f : Frame} {port : PortKind}
    (h : (f.sockets port).map (·.radius) = (f.sockets port).map (·.restRadius)) (index : Nat) :
    ¬f.Enlarged port index := by
  rintro ⟨t, ht, hradius⟩
  have hget := congrArg (·[index]?) h
  have ht : (f.sockets port)[index]? = some t := ht
  simp only [List.getElem?_map, ht, Option.map_some, Option.some.injEq] at hget
  exact hradius hget

theorem NodeKind.not_enlarged_freshFrame (kind : NodeKind) (position : Point) (scale : Scalar)
    (style : ConnectorStyle) (port : PortKind) (index : Nat) :
    ¬(kind.freshFrame position scale style).Enlarged port index := by
  refine Frame.not_enlarged_of_radii ?_ index
  cases kind <;> cases port <;> rfl

theorem Frame.enlarged_layVariantPorts {f : Frame} {variant : Variant} {style : ConnectorStyle}
    {port : PortKind} {index : Nat} (h : (f.layVariantPorts variant style).Enlarged port index) :
    f.Enlarged port index := by
  cases port with
  | flow => exact h
  | data => exact absurd h (Frame.not_enlarged_of_radii rfl index)

end FlowGraph
