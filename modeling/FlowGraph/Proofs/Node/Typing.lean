import FlowGraph.Proofs.Node.Shape

/-! # The types on a node

What a node says of the types of its ports. Only two kinds of nodes ever change it: a sum, when something
arrives at one of its inputs or leaves it, and a reader, when it is given a name.
-/

namespace FlowGraph
set_option autoImplicit false

@[ext] structure PortTypes where
  inputs : PortKind → List PortType
  outputs : PortKind → List PortType

namespace Frame

def portTypes (f : Frame) : PortTypes where
  inputs port := (f.sockets port).map (·.type)
  outputs port := (f.plugs port).map (·.type)

section Keeping
variable (f : Frame) (port : PortKind) (index : Nat)

theorem inputs_getElem? (k : PortKind) (j : Nat) :
    (f.portTypes.inputs k)[j]? = (f.socket? k j).map (·.type) := List.getElem?_map

theorem outputs_getElem? (k : PortKind) (j : Nat) :
    (f.portTypes.outputs k)[j]? = (f.plug? k j).map (·.type) := List.getElem?_map

theorem portTypes_modifySocket (g : Socket → Socket) (hg : ∀ t, (g t).type = t.type) :
    (f.modifySocket port index g).portTypes = f.portTypes := by
  refine PortTypes.ext (funext fun k => ?_) (funext fun k => ?_)
  · cases port <;> cases k <;> first | rfl | exact map_modify _ _ _ _ hg
  · cases port <;> cases k <;> rfl

theorem portTypes_modifyPlug (g : Plug → Plug) (hg : ∀ p, (g p).type = p.type) :
    (f.modifyPlug port index g).portTypes = f.portTypes := by
  refine PortTypes.ext (funext fun k => ?_) (funext fun k => ?_)
  · cases port <;> cases k <;> rfl
  · cases port <;> cases k <;> first | rfl | exact map_modify _ _ _ _ hg

theorem inputs_setType (type : PortType) (k : PortKind) (j : Nat) :
    ((f.modifySocket port index (·.setType type)).portTypes.inputs k)[j]? =
      if k = port ∧ j = index then ((f.portTypes.inputs k)[j]?).map fun _ => type
      else (f.portTypes.inputs k)[j]? := by
  rw [inputs_getElem?, inputs_getElem?, socket?_modifySocket]
  split
  · rename_i hat
    rw [hat.1, hat.2, Option.map_map, Option.map_map]
    rfl
  · rfl

theorem inputs_modifyPlug (g : Plug → Plug) :
    (f.modifyPlug port index g).portTypes.inputs = f.portTypes.inputs := by
  funext k
  cases port <;> cases k <;> rfl

theorem portTypes_mapPlugs (g : Plug → Plug) (hg : ∀ p, (g p).type = p.type) {f' : Frame}
    (hs : f'.sockets = f.sockets)
    (hp : ∀ k, f'.plugs k = (f.plugs k).map g ∨ f'.plugs k = f.plugs k) : f'.portTypes = f.portTypes := by
  refine PortTypes.ext (funext fun k => ?_) (funext fun k => ?_)
  · exact congrArg (List.map (·.type)) (congrFun hs k)
  · obtain hk | hk := hp k
    · have hmap : ((f.plugs k).map g).map (·.type) = (f.plugs k).map (·.type) := by
        rw [List.map_map]
        exact List.map_congr_left fun p _ => hg p
      exact (congrArg (List.map (·.type)) hk).trans hmap
    · exact congrArg (List.map (·.type)) hk

@[simp] theorem portTypes_subscribe (c : ConnectorId) : (f.subscribe c).portTypes = f.portTypes := by
  unfold subscribe
  split <;> rfl

@[simp] theorem portTypes_unsubscribe (c : ConnectorId) : (f.unsubscribe c).portTypes = f.portTypes := rfl

@[simp] theorem portTypes_resetSimulation : f.resetSimulation.portTypes = f.portTypes := by
  refine f.portTypes_mapPlugs (fun p => { p with opacity := 1.0 }) (fun _ => rfl) rfl fun k => ?_
  cases k with
  | flow => exact Or.inl rfl
  | data => exact Or.inr rfl

@[simp] theorem portTypes_simulate (state : Bool) : (f.simulate state).portTypes = f.portTypes := by
  unfold simulate
  dsimp only
  split
  · rfl
  · refine (portTypes_modifyPlug _ _ _ _ ?_).trans (portTypes_modifyPlug _ _ _ _ ?_) <;>
      exact fun _ => rfl

end Keeping
end Frame

namespace NodeKind
variable (kind : NodeKind) (f : Frame) (port : PortKind) (index : Nat)

theorem type_showEditor (t : Socket) (shown : Bool) : (t.showEditor shown).type = t.type := by
  unfold Socket.showEditor
  split <;> rfl

@[simp] theorem portTypes_showEditor (shown : Bool) :
    (f.modifySocket port index (·.showEditor shown)).portTypes = f.portTypes :=
  f.portTypes_modifySocket port index _ fun t => type_showEditor t shown

theorem inputs_settleSum : (settleSum f).portTypes.inputs = f.portTypes.inputs := by
  unfold settleSum
  split
  · exact f.inputs_modifyPlug _ _ _
  · rfl

/-- What becomes of the inputs when a sum gives a type to one of them and settles. -/
theorem inputs_adapt (type : PortType) (k : PortKind) (j : Nat) :
    ((if kind.adapts port then settleSum (f.modifySocket port index (·.setType type)) else
      f).portTypes.inputs k)[j]? =
        if (k = port ∧ j = index) ∧ kind.adapts port then ((f.portTypes.inputs k)[j]?).map fun _ => type
        else (f.portTypes.inputs k)[j]? := by
  by_cases hadapts : kind.adapts port = true
  · simp only [hadapts, if_true, and_true]
    rw [inputs_settleSum, f.inputs_setType]
  · rw [if_neg hadapts, if_neg fun h => hadapts h.2]

/-- Only an adapting socket takes the type of what has arrived. -/
theorem inputs_socketConnected (plugType : PortType) (k : PortKind) (j : Nat) :
    ((kind.socketConnected f port index plugType).portTypes.inputs k)[j]? =
      if (k = port ∧ j = index) ∧ kind.adapts port then
        ((f.portTypes.inputs k)[j]?).map fun _ => plugType
      else (f.portTypes.inputs k)[j]? := by
  unfold socketConnected
  split
  · rename_i hnone
    split
    · rename_i hat
      rw [f.inputs_getElem?, hat.1.1, hat.1.2, hnone]
      rfl
    · rfl
  · rename_i socket _
    have hkept : (if socket.type = .bool then
        (f.modifySocket port index (·.showEditor false)).resetSimulation
        else f.modifySocket port index (·.showEditor false)).portTypes = f.portTypes := by
      split <;> simp
    dsimp only
    rw [inputs_adapt, hkept]

/-- Only an adapting socket forgets its type when something leaves. -/
theorem inputs_socketDisconnected (k : PortKind) (j : Nat) :
    ((kind.socketDisconnected f port index).portTypes.inputs k)[j]? =
      if (k = port ∧ j = index) ∧ kind.adapts port then ((f.portTypes.inputs k)[j]?).map fun _ => .any
      else (f.portTypes.inputs k)[j]? := by
  rw [← inputs_adapt]
  unfold socketDisconnected
  dsimp only
  split
  · rfl
  · split <;> simp

variable {kind}

/-- A node that does not adapt keeps its types when something arrives. -/
theorem portTypes_socketConnected (h : kind.adapts port = false) (plugType : PortType) :
    (kind.socketConnected f port index plugType).portTypes = f.portTypes := by
  unfold socketConnected
  split
  · rfl
  · dsimp only
    rw [h, if_neg Bool.false_ne_true]
    split <;> simp

/-- A node that does not adapt keeps its types when something leaves. -/
theorem portTypes_socketDisconnected (h : kind.adapts port = false) :
    (kind.socketDisconnected f port index).portTypes = f.portTypes := by
  unfold socketDisconnected
  rw [h, if_neg Bool.false_ne_true]
  dsimp only
  split
  · rfl
  · split <;> simp

/-- A constant changes the types on a reader only, and there only if it is the name. -/
theorem portTypes_valueChanged (h : kind ≠ .variableRead ∨ index ≠ 0) (value : Option Literal)
    (types : Variables) : (kind.valueChanged f index value types).portTypes = f.portTypes := by
  unfold valueChanged
  split
  · split
    · exact f.portTypes_simulate _
    · rfl
  · obtain hkind | hindex := h
    · exact absurd rfl hkind
    · rw [if_neg hindex]
  · rfl

theorem inputs_valueChanged (value : Option Literal) (types : Variables) :
    (kind.valueChanged f index value types).portTypes.inputs = f.portTypes.inputs := by
  unfold valueChanged
  split
  · split
    · exact congrArg PortTypes.inputs (f.portTypes_simulate _)
    · rfl
  · split
    · exact f.inputs_modifyPlug _ _ _
    · rfl
  · rfl

end NodeKind

namespace Node
variable (n : Node) (c : ConnectorId) (port : PortKind) (index : Nat)

/-- The kind of the node, with the types of its ports. -/
def typing (n : Node) : NodeKind × PortTypes := (n.kind, n.frame.portTypes)

theorem typing_send : (n.send c port index).typing = n.typing := by
  refine Prod.ext rfl ?_
  rw [typing, send, Frame.portTypes_subscribe]
  exact n.frame.portTypes_modifyPlug _ _ _ fun _ => rfl

theorem typing_withdraw : (n.withdraw c port index).typing = n.typing := by
  refine Prod.ext rfl ?_
  rw [typing, withdraw, Frame.portTypes_unsubscribe]
  exact n.frame.portTypes_modifyPlug _ _ _ fun _ => rfl

variable {n port}

theorem typing_receive (h : n.kind.adapts port = false) (plugType : PortType) :
    (n.receive c port index plugType).typing = n.typing := by
  refine Prod.ext rfl ?_
  rw [typing, receive, NodeKind.portTypes_socketConnected _ _ _ h, Frame.portTypes_subscribe]
  exact n.frame.portTypes_modifySocket _ _ _ fun _ => rfl

theorem typing_release (h : n.kind.adapts port = false) :
    (n.release c port index).typing = n.typing := by
  refine Prod.ext rfl ?_
  rw [typing, release, NodeKind.portTypes_socketDisconnected _ _ _ h, Frame.portTypes_unsubscribe]
  exact n.frame.portTypes_modifySocket _ _ _ fun _ => rfl

variable (n port)

theorem inputs_receive (plugType : PortType) (k : PortKind) (j : Nat) :
    ((n.receive c port index plugType).frame.portTypes.inputs k)[j]? =
      if (k = port ∧ j = index) ∧ n.kind.adapts port then
        ((n.frame.portTypes.inputs k)[j]?).map fun _ => plugType
      else (n.frame.portTypes.inputs k)[j]? := by
  have hattach : (n.frame.modifySocket port index fun t => (t.attach c).resetRadius).portTypes =
      n.frame.portTypes := n.frame.portTypes_modifySocket _ _ _ fun _ => rfl
  rw [receive, NodeKind.inputs_socketConnected, Frame.portTypes_subscribe, hattach]

theorem inputs_release (k : PortKind) (j : Nat) :
    ((n.release c port index).frame.portTypes.inputs k)[j]? =
      if (k = port ∧ j = index) ∧ n.kind.adapts port then
        ((n.frame.portTypes.inputs k)[j]?).map fun _ => .any
      else (n.frame.portTypes.inputs k)[j]? := by
  have hdetach : (n.frame.modifySocket port index (·.detach c)).portTypes = n.frame.portTypes :=
    n.frame.portTypes_modifySocket _ _ _ fun _ => rfl
  rw [release, NodeKind.inputs_socketDisconnected, Frame.portTypes_unsubscribe, hdetach]

end Node
end FlowGraph
