import FlowGraph.Proofs.Node.Typing

/-! # An end of an edge, port by port

What it does to a node when a connector arrives at one of its sockets, leaves the socket again, or is
fastened to a plug and taken off: one equation for each list of ports. The reactions of the kinds come down
to three changes. The socket shows or hides its editor and may take a type, the flow plugs are drawn for the
branch that is previewed, and the output of a sum takes the highest type of the inputs.
-/

namespace FlowGraph
set_option autoImplicit false

/-! ## Lists of ports -/

namespace Frame
variable (f : Frame) (port k : PortKind) (index : Nat)

theorem sockets_modifySocket (g : Socket → Socket) : (f.modifySocket port index g).sockets k =
    if k = port then (f.sockets k).modify index g else f.sockets k := by
  cases port <;> cases k <;> rfl

theorem plugs_modifyPlug (g : Plug → Plug) : (f.modifyPlug port index g).plugs k =
    if k = port then (f.plugs k).modify index g else f.plugs k := by
  cases port <;> cases k <;> rfl

@[simp] theorem plugs_modifySocket (g : Socket → Socket) :
    (f.modifySocket port index g).plugs k = f.plugs k := by
  cases port <;> cases k <;> rfl

@[simp] theorem sockets_modifyPlug (g : Plug → Plug) :
    (f.modifyPlug port index g).sockets k = f.sockets k := by
  cases port <;> cases k <;> rfl

@[simp] theorem simulated_modifySocket (g : Socket → Socket) :
    (f.modifySocket port index g).simulated = f.simulated := by
  cases port <;> rfl

@[simp] theorem simulated_modifyPlug (g : Plug → Plug) :
    (f.modifyPlug port index g).simulated = f.simulated := by
  cases port <;> rfl

@[simp] theorem sockets_subscribe (c : ConnectorId) : (f.subscribe c).sockets k = f.sockets k := by
  unfold subscribe
  split
  · rfl
  · cases k <;> rfl

@[simp] theorem plugs_subscribe (c : ConnectorId) : (f.subscribe c).plugs k = f.plugs k := by
  unfold subscribe
  split
  · rfl
  · cases k <;> rfl

@[simp] theorem simulated_subscribe (c : ConnectorId) : (f.subscribe c).simulated = f.simulated := by
  unfold subscribe
  split <;> rfl

@[simp] theorem sockets_unsubscribe (c : ConnectorId) : (f.unsubscribe c).sockets k = f.sockets k := by
  cases k <;> rfl

@[simp] theorem plugs_unsubscribe (c : ConnectorId) : (f.unsubscribe c).plugs k = f.plugs k := by
  cases k <;> rfl

@[simp] theorem simulated_unsubscribe (c : ConnectorId) : (f.unsubscribe c).simulated = f.simulated := rfl

theorem socket?_of_modified {f g : Frame} {port : PortKind} {index : Nat} {F : Socket → Socket}
    (h : ∀ k, g.sockets k = if k = port then (f.sockets k).modify index F else f.sockets k)
    (k : PortKind) (i : Nat) : g.socket? k i =
      if k = port ∧ i = index then (f.socket? port index).map F else f.socket? k i := by
  rw [← f.socket?_modifySocket port k index i F, socket?, socket?, h, sockets_modifySocket]

/-- A frame is what the kind keeps, its ports, its followers and its preview. -/
theorem eq_of_parts {f g : Frame} (hbody : g.body = f.body) (hsockets : ∀ k, g.sockets k = f.sockets k)
    (hplugs : ∀ k, g.plugs k = f.plugs k) (hdependents : g.dependents = f.dependents)
    (hsimulated : g.simulated = f.simulated) : g = f := by
  have hin := hsockets .flow
  have hdata := hsockets .data
  have hout := hplugs .flow
  have hresult := hplugs .data
  cases f
  cases g
  simp_all [body, sockets, plugs]

end Frame

/-! ## The preview of a branch -/

namespace Plug

/-- The plug drawn at full strength. -/
def full (p : Plug) : Plug := { p with opacity := 1.0 }

def dimmed (p : Plug) : Plug := { p with opacity := Measure.dimmedOpacity }

/-- The branches with the one that a truth value takes at full strength, and the other one dimmed. -/
def shaded (state : Bool) (plugs : List Plug) : List Plug :=
  if plugs.length < 2 then plugs
  else (plugs.modify (if state then 0 else 1) full).modify (if state then 1 else 0) dimmed

/-- The branches drawn for the truth value that is remembered, if there is one. -/
def previewed : Option Bool → List Plug → List Plug
  | some state, plugs => shaded state plugs
  | none, plugs => plugs

end Plug

namespace Frame
variable (f : Frame) (state : Bool) (k : PortKind)

theorem simulate_eq : f.simulate state =
    { f with flowPlugs := Plug.shaded state f.flowPlugs, simulated := some state } := by
  unfold simulate Plug.shaded
  cases state <;> dsimp only <;> split <;> rfl

@[simp] theorem sockets_simulate : (f.simulate state).sockets k = f.sockets k := by
  rw [simulate_eq]
  cases k <;> rfl

@[simp] theorem plugs_simulate : (f.simulate state).plugs k =
    if k = .flow then Plug.shaded state (f.plugs k) else f.plugs k := by
  rw [simulate_eq]
  cases k <;> rfl

@[simp] theorem simulated_simulate : (f.simulate state).simulated = some state := by
  rw [simulate_eq]

/-- The branches drawn for the truth value that is remembered, if there is one. -/
def restored : Frame :=
  match f.simulated with
  | some state => f.simulate state
  | none => f

@[simp] theorem sockets_restored : f.restored.sockets k = f.sockets k := by
  unfold restored
  split
  · exact f.sockets_simulate _ k
  · rfl

@[simp] theorem plugs_restored : f.restored.plugs k =
    if k = .flow then Plug.previewed f.simulated (f.plugs k) else f.plugs k := by
  unfold restored
  split
  · rename_i state hsim
    rw [plugs_simulate, hsim]
    rfl
  · rename_i hsim
    rw [hsim]
    exact (ite_self _).symm

@[simp] theorem simulated_restored : f.restored.simulated = f.simulated := by
  unfold restored
  split
  · rename_i state hsim
    rw [simulated_simulate, hsim]
  · rfl

@[simp] theorem sockets_resetSimulation : f.resetSimulation.sockets k = f.sockets k := by
  cases k <;> rfl

@[simp] theorem plugs_resetSimulation : f.resetSimulation.plugs k =
    if k = .flow then (f.plugs k).map Plug.full else f.plugs k := by
  cases k <;> rfl

end Frame

/-! ## The output of a sum -/

/-- The outputs of a sum over inputs of some types. -/
def Plug.summed (types : List PortType) (plugs : List Plug) : List Plug :=
  match PortType.highest? types with
  | some type => plugs.modify 0 fun p => { p with type := type }
  | none => plugs

namespace NodeKind
variable (f : Frame) (k : PortKind)

@[simp] theorem sockets_settleSum : (settleSum f).sockets k = f.sockets k := by
  unfold settleSum
  split
  · exact f.sockets_modifyPlug _ _ _ _
  · rfl

@[simp] theorem plugs_settleSum : (settleSum f).plugs k =
    if k = .data then Plug.summed ((f.sockets .data).map (·.type)) (f.plugs k) else f.plugs k := by
  show (settleSum f).plugs k = if k = .data then Plug.summed (f.dataSockets.map (·.type)) (f.plugs k) else _
  unfold settleSum Plug.summed
  cases PortType.highest? (f.dataSockets.map (·.type)) <;> cases k <;> rfl

@[simp] theorem simulated_settleSum : (settleSum f).simulated = f.simulated := by
  unfold settleSum
  split
  · exact f.simulated_modifyPlug _ _ _
  · rfl

end NodeKind

/-! ## Sockets that gain and lose a connector -/

namespace Socket

/-- The socket with another type, if it is one that adapts. -/
def adapted (adapts : Bool) (type : PortType) (t : Socket) : Socket := if adapts then t.setType type else t

/-- A socket at which a connector has arrived from a plug of a type. -/
def gain (adapts : Bool) (c : ConnectorId) (type : PortType) (t : Socket) : Socket :=
  ((t.attach c).resetRadius.showEditor false).adapted adapts type

/-- A socket that a connector has left. -/
def lose (adapts : Bool) (c : ConnectorId) (t : Socket) : Socket :=
  ((t.detach c).adapted adapts .any).showEditor true

section Views
variable (adapts : Bool) (c : ConnectorId) (type : PortType) (t : Socket)

@[simp] theorem incoming_gain : (t.gain adapts c type).incoming = t.incoming ++ [c] := by
  have hshown := NodeKind.incoming_showEditor (t.attach c).resetRadius false
  unfold gain adapted
  split <;> exact hshown

@[simp] theorem incoming_lose : (t.lose adapts c).incoming = t.incoming.filter (· ≠ c) := by
  rw [lose, NodeKind.incoming_showEditor]
  unfold adapted
  split <;> rfl

theorem value_showEditor (shown : Bool) : (t.showEditor shown).value = t.value := by
  unfold showEditor
  split <;> rfl

@[simp] theorem value_gain : (t.gain adapts c type).value = t.value := by
  have hshown := value_showEditor (t.attach c).resetRadius false
  unfold gain adapted
  split <;> exact hshown

@[simp] theorem value_lose : (t.lose adapts c).value = t.value := by
  rw [lose, value_showEditor]
  unfold adapted
  split <;> rfl

end Views

end Socket

namespace NodeKind
variable {kind : NodeKind} {f : Frame} {port : PortKind} {index : Nat} {t : Socket}

@[simp] theorem adapts_flow (kind : NodeKind) : kind.adapts .flow = false := Bool.and_false _

section Bare
variable (kind : NodeKind) (port : PortKind) (c : ConnectorId) (type : PortType) (t : Socket)

theorem type_adapted_any : (t.adapted (kind.adapts port) .any).type = kind.bareType port t := by
  unfold Socket.adapted bareType
  split <;> rfl

theorem bareType_gain : kind.bareType port (t.gain (kind.adapts port) c type) = kind.bareType port t := by
  unfold bareType Socket.gain Socket.adapted
  split
  · rfl
  · exact type_showEditor _ _

theorem bareType_lose : kind.bareType port (t.lose (kind.adapts port) c) = kind.bareType port t := by
  unfold bareType Socket.lose Socket.adapted
  split
  · rfl
  · exact type_showEditor _ _

end Bare

/-- The frame after an adapting socket has taken a type. -/
def typed (kind : NodeKind) (f : Frame) (port : PortKind) (index : Nat) (type : PortType) : Frame :=
  if kind.adapts port then settleSum (f.modifySocket port index (·.setType type)) else f

section Typed
variable (type : PortType) (k : PortKind)

theorem sockets_typed : (kind.typed f port index type).sockets k =
    if k = port then (f.sockets k).modify index (Socket.adapted (kind.adapts port) type)
    else f.sockets k := by
  unfold typed
  cases kind.adapts port with
  | false => exact (ite_eq_right_iff.2 fun _ => List.modify_id index _).symm
  | true =>
    rw [if_pos rfl, sockets_settleSum, Frame.sockets_modifySocket]
    rfl

theorem plugs_typed : (kind.typed f port index type).plugs k =
    if k = .data ∧ kind.adapts port then
      Plug.summed (((kind.typed f port index type).sockets .data).map (·.type)) (f.plugs k)
    else f.plugs k := by
  unfold typed
  cases k <;> cases kind.adapts port <;> simp

@[simp] theorem simulated_typed : (kind.typed f port index type).simulated = f.simulated := by
  unfold typed
  split <;> simp

end Typed

/-! ## Connections that come -/

section Connected
variable (ht : f.socket? port index = some t) (type : PortType) (k : PortKind)

include ht

theorem socketConnected_eq : kind.socketConnected f port index type =
    let g := f.modifySocket port index (·.showEditor false)
    kind.typed (if t.type = .bool then g.resetSimulation else g) port index type := by
  unfold socketConnected
  rw [ht]
  rfl

theorem sockets_socketConnected : (kind.socketConnected f port index type).sockets k =
    if k = port then
      (f.sockets k).modify index fun t => (t.showEditor false).adapted (kind.adapts port) type
    else f.sockets k := by
  rw [socketConnected_eq ht, sockets_typed]
  have hreset (g : Frame) : (if t.type = .bool then g.resetSimulation else g).sockets k = g.sockets k := by
    split
    · exact g.sockets_resetSimulation k
    · rfl
  rw [hreset, Frame.sockets_modifySocket]
  split
  · exact List.modify_modify_eq _ _ _ _
  · rfl

/-- The preview ends that hangs on the socket. -/
theorem flowPlugs_socketConnected : (kind.socketConnected f port index type).plugs .flow =
    if t.type = .bool then (f.plugs .flow).map Plug.full else f.plugs .flow := by
  rw [socketConnected_eq ht, plugs_typed, if_neg (by simp)]
  split <;> simp

/-- An adapting sum settles its output anew. -/
theorem dataPlugs_socketConnected : (kind.socketConnected f port index type).plugs .data =
    if kind.adapts port then
      Plug.summed (((kind.socketConnected f port index type).sockets .data).map (·.type)) (f.plugs .data)
    else f.plugs .data := by
  have hsame (g : Frame) : (if t.type = .bool then g.resetSimulation else g).plugs .data = g.plugs .data := by
    split <;> rfl
  rw [socketConnected_eq ht, plugs_typed, hsame, Frame.plugs_modifySocket]
  simp only [true_and]

theorem simulated_socketConnected : (kind.socketConnected f port index type).simulated = f.simulated := by
  rw [socketConnected_eq ht, simulated_typed]
  split <;> simp [Frame.resetSimulation]

end Connected

/-! ## Connections that go -/

section Disconnected
variable (ht : f.socket? port index = some t) (k : PortKind)

include ht

theorem socketDisconnected_eq : kind.socketDisconnected f port index =
    let g := (kind.typed f port index .any).modifySocket port index (·.showEditor true)
    if (t.adapted (kind.adapts port) .any).type = .bool then g.restored else g := by
  have hat : (kind.typed f port index .any).socket? port index = some (t.adapted (kind.adapts port) .any) := by
    have hmodified := congrArg (Option.map (Socket.adapted (kind.adapts port) .any)) ht
    rw [Frame.socket?, sockets_typed, if_pos rfl, List.getElem?_modify_eq]
    exact hmodified
  unfold typed at hat ⊢
  unfold socketDisconnected
  dsimp only
  generalize (if kind.adapts port then settleSum (f.modifySocket port index (·.setType .any)) else f) = g at hat ⊢
  rw [hat]
  dsimp only
  unfold Frame.restored
  split
  · rename_i state htruth hsim
    rw [if_pos htruth, hsim]
  · rename_i hother
    split
    · rename_i htruth
      split
      · rename_i state hsim
        exact (hother state htruth hsim).elim
      · rfl
    · rfl

theorem sockets_socketDisconnected : (kind.socketDisconnected f port index).sockets k =
    if k = port then
      (f.sockets k).modify index fun t => (t.adapted (kind.adapts port) .any).showEditor true
    else f.sockets k := by
  have hshown : ((kind.typed f port index .any).modifySocket port index (·.showEditor true)).sockets k =
      if k = port then
        (f.sockets k).modify index fun t => (t.adapted (kind.adapts port) .any).showEditor true
      else f.sockets k := by
    rw [Frame.sockets_modifySocket, sockets_typed]
    split
    · exact List.modify_modify_eq _ _ _ _
    · rfl
  rw [socketDisconnected_eq ht]
  dsimp only
  split
  · rw [Frame.sockets_restored, hshown]
  · exact hshown

/-- The preview returns that hangs on the socket. -/
theorem flowPlugs_socketDisconnected : (kind.socketDisconnected f port index).plugs .flow =
    if (t.adapted (kind.adapts port) .any).type = .bool then Plug.previewed f.simulated (f.plugs .flow)
    else f.plugs .flow := by
  rw [socketDisconnected_eq ht]
  dsimp only
  split <;> simp [plugs_typed]

theorem dataPlugs_socketDisconnected : (kind.socketDisconnected f port index).plugs .data =
    if kind.adapts port then
      Plug.summed (((kind.socketDisconnected f port index).sockets .data).map (·.type)) (f.plugs .data)
    else f.plugs .data := by
  have hplugs : (kind.socketDisconnected f port index).plugs .data =
      (kind.typed f port index .any).plugs .data := by
    rw [socketDisconnected_eq ht]
    dsimp only
    split <;> simp
  have htypes : ((kind.socketDisconnected f port index).sockets .data).map (·.type) =
      ((kind.typed f port index .any).sockets .data).map (·.type) := by
    have hshown (g : Frame) : ((g.modifySocket port index (·.showEditor true)).sockets .data).map (·.type) =
        (g.sockets .data).map (·.type) := by
      rw [Frame.sockets_modifySocket]
      split
      · exact map_modify _ _ _ _ fun t => type_showEditor t true
      · rfl
    rw [socketDisconnected_eq ht]
    dsimp only
    split <;> simp [hshown]
  rw [hplugs, plugs_typed, htypes]
  simp only [true_and]

theorem simulated_socketDisconnected : (kind.socketDisconnected f port index).simulated = f.simulated := by
  rw [socketDisconnected_eq ht]
  dsimp only
  split <;> simp

end Disconnected

/-! ## Constants -/

section Value
variable (kind : NodeKind) (f : Frame) (index : Nat) (value : Option Literal) (types : Variables) (k : PortKind)

@[simp] theorem sockets_valueChanged : (kind.valueChanged f index value types).sockets k = f.sockets k := by
  unfold valueChanged
  split
  · split
    · exact f.sockets_simulate _ k
    · rfl
  · split
    · exact f.sockets_modifyPlug _ _ _ _
    · rfl
  · rfl

/-- Only a condition previews a constant, and only one that is a truth value. -/
theorem flowPlugs_valueChanged : (kind.valueChanged f index value types).plugs .flow =
    if kind = .condition then Plug.previewed (value.bind Literal.bool?) (f.plugs .flow)
    else f.plugs .flow := by
  unfold valueChanged
  split
  · split
    · rename_i state hvalue
      rw [if_pos rfl, hvalue, Frame.plugs_simulate, if_pos rfl]
      rfl
    · rename_i hvalue
      rw [if_pos rfl, hvalue]
      rfl
  · split <;> rfl
  · rename_i hcondition _
    rw [if_neg hcondition]

theorem simulated_valueChanged : (kind.valueChanged f index value types).simulated =
    if kind = .condition then (value.bind Literal.bool?).or f.simulated else f.simulated := by
  unfold valueChanged
  split
  · split
    · rename_i state hvalue
      rw [if_pos rfl, hvalue, Frame.simulated_simulate]
      rfl
    · rename_i hvalue
      rw [if_pos rfl, hvalue]
      rfl
  · split <;> rfl
  · rename_i hcondition _
    rw [if_neg hcondition]

end Value
end NodeKind

/-! ## The ends of an edge -/

namespace Node
variable {n : Node} {port : PortKind} {index : Nat} {t : Socket} (c : ConnectorId)

@[simp] theorem kind_receive (type : PortType) : (n.receive c port index type).kind = n.kind := rfl

section Receive
variable (ht : n.frame.socket? port index = some t) (type : PortType) (k : PortKind)

include ht

theorem socket?_received : ((n.frame.modifySocket port index fun t => (t.attach c).resetRadius).subscribe
    c).socket? port index = some (t.attach c).resetRadius := by
  rw [Frame.socket?, Frame.sockets_subscribe, ← Frame.socket?, Frame.socket?_modifySocket,
    if_pos ⟨rfl, rfl⟩, ht, Option.map_some]

theorem sockets_receive : (n.receive c port index type).frame.sockets k =
    if k = port then (n.frame.sockets k).modify index (Socket.gain (n.kind.adapts port) c type)
    else n.frame.sockets k := by
  rw [receive]
  dsimp only
  rw [NodeKind.sockets_socketConnected (socket?_received c ht), Frame.sockets_subscribe,
    Frame.sockets_modifySocket]
  split
  · exact List.modify_modify_eq _ _ _ _
  · rfl

theorem flowPlugs_receive : (n.receive c port index type).frame.plugs .flow =
    if t.type = .bool then (n.frame.plugs .flow).map Plug.full else n.frame.plugs .flow := by
  rw [receive]
  dsimp only
  rw [NodeKind.flowPlugs_socketConnected (socket?_received c ht), Frame.plugs_subscribe,
    Frame.plugs_modifySocket]
  rfl

theorem dataPlugs_receive : (n.receive c port index type).frame.plugs .data =
    if n.kind.adapts port then
      Plug.summed (((n.receive c port index type).frame.sockets .data).map (·.type)) (n.frame.plugs .data)
    else n.frame.plugs .data := by
  rw [receive]
  dsimp only
  rw [NodeKind.dataPlugs_socketConnected (socket?_received c ht), Frame.plugs_subscribe,
    Frame.plugs_modifySocket]

theorem simulated_receive : (n.receive c port index type).frame.simulated = n.frame.simulated := by
  rw [receive]
  dsimp only
  rw [NodeKind.simulated_socketConnected (socket?_received c ht), Frame.simulated_subscribe,
    Frame.simulated_modifySocket]

end Receive

section Release
variable (ht : n.frame.socket? port index = some t) (k : PortKind)

include ht

theorem socket?_released : ((n.frame.modifySocket port index (·.detach c)).unsubscribe c).socket? port index =
    some (t.detach c) := by
  rw [Frame.socket?, Frame.sockets_unsubscribe, ← Frame.socket?, Frame.socket?_modifySocket,
    if_pos ⟨rfl, rfl⟩, ht, Option.map_some]

theorem sockets_release : (n.release c port index).frame.sockets k =
    if k = port then (n.frame.sockets k).modify index (Socket.lose (n.kind.adapts port) c)
    else n.frame.sockets k := by
  rw [release]
  dsimp only
  rw [NodeKind.sockets_socketDisconnected (socket?_released c ht), Frame.sockets_unsubscribe,
    Frame.sockets_modifySocket]
  split
  · exact List.modify_modify_eq _ _ _ _
  · rfl

theorem flowPlugs_release : (n.release c port index).frame.plugs .flow =
    if (t.adapted (n.kind.adapts port) .any).type = .bool then
      Plug.previewed n.frame.simulated (n.frame.plugs .flow)
    else n.frame.plugs .flow := by
  have htype : ((t.detach c).adapted (n.kind.adapts port) .any).type =
      (t.adapted (n.kind.adapts port) .any).type := by
    cases n.kind.adapts port <;> rfl
  rw [release]
  dsimp only
  rw [NodeKind.flowPlugs_socketDisconnected (socket?_released c ht), htype, Frame.plugs_unsubscribe,
    Frame.plugs_modifySocket, Frame.simulated_unsubscribe, Frame.simulated_modifySocket]

theorem dataPlugs_release : (n.release c port index).frame.plugs .data =
    if n.kind.adapts port then
      Plug.summed (((n.release c port index).frame.sockets .data).map (·.type)) (n.frame.plugs .data)
    else n.frame.plugs .data := by
  rw [release]
  dsimp only
  rw [NodeKind.dataPlugs_socketDisconnected (socket?_released c ht), Frame.plugs_unsubscribe,
    Frame.plugs_modifySocket]

theorem simulated_release : (n.release c port index).frame.simulated = n.frame.simulated := by
  rw [release]
  dsimp only
  rw [NodeKind.simulated_socketDisconnected (socket?_released c ht), Frame.simulated_unsubscribe,
    Frame.simulated_modifySocket]

end Release

section Plugs
variable (n port index) (k : PortKind)

@[simp] theorem sockets_send : (n.send c port index).frame.sockets k = n.frame.sockets k := by
  rw [send, Frame.sockets_subscribe, Frame.sockets_modifyPlug]

theorem plugs_send : (n.send c port index).frame.plugs k =
    if k = port then (n.frame.plugs k).modify index (·.attach c) else n.frame.plugs k := by
  rw [send, Frame.plugs_subscribe, Frame.plugs_modifyPlug]

@[simp] theorem simulated_send : (n.send c port index).frame.simulated = n.frame.simulated := by
  rw [send, Frame.simulated_subscribe, Frame.simulated_modifyPlug]

@[simp] theorem sockets_withdraw : (n.withdraw c port index).frame.sockets k = n.frame.sockets k := by
  rw [withdraw, Frame.sockets_unsubscribe, Frame.sockets_modifyPlug]

theorem plugs_withdraw : (n.withdraw c port index).frame.plugs k =
    if k = port then (n.frame.plugs k).modify index (·.detach c) else n.frame.plugs k := by
  rw [withdraw, Frame.plugs_unsubscribe, Frame.plugs_modifyPlug]

@[simp] theorem simulated_withdraw : (n.withdraw c port index).frame.simulated = n.frame.simulated := by
  rw [withdraw, Frame.simulated_unsubscribe, Frame.simulated_modifyPlug]

end Plugs

/-! ### Followers -/

section Dependents
variable (n port index) (type : PortType)

theorem dependents_receive : (n.receive c port index type).frame.dependents =
    if n.frame.dependents.contains c then n.frame.dependents else n.frame.dependents ++ [c] :=
  congrArg Wires.dependents (n.wires_receive c port index type)

theorem dependents_release :
    (n.release c port index).frame.dependents = n.frame.dependents.filter (· ≠ c) :=
  congrArg Wires.dependents (n.wires_release c port index)

theorem dependents_withdraw :
    (n.withdraw c port index).frame.dependents = n.frame.dependents.filter (· ≠ c) :=
  congrArg Wires.dependents (n.wires_withdraw c port index)

end Dependents
end Node
end FlowGraph
