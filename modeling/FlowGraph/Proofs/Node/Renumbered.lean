import FlowGraph.Proofs.Node.Shape
import Mathlib.Data.List.Basic

/-! # Nodes with other connectors

A node holds the identities of its connectors, on its ports and among its dependents, and nothing that it
does depends on which they are. Every change of a node can therefore be made before its connectors get other
identities or afterwards.
-/

namespace FlowGraph
set_option autoImplicit false

theorem modify_map {α β : Type} {f : α → β} {h : α → α} {h' : β → β} (hh : ∀ a, f (h a) = h' (f a))
    (l : List α) (i : Nat) : (l.modify i h).map f = (l.map f).modify i h' := by
  refine List.ext_getElem? fun j => ?_
  rw [List.getElem?_map, List.getElem?_modify, List.getElem?_modify, List.getElem?_map]
  by_cases hj : i = j
  · simp only [hj, if_true, Option.map_eq_map, Option.map_map, Function.comp_def, hh]
  · simp only [hj, if_false, Option.map_eq_map, Option.map_id']

theorem contains_map_of_injective {α β : Type} [BEq α] [LawfulBEq α] [BEq β] [LawfulBEq β] {f : α → β}
    (hf : Function.Injective f) (l : List α) (a : α) : (l.map f).contains (f a) = l.contains a := by
  rw [Bool.eq_iff_iff, List.contains_iff_mem, List.contains_iff_mem, List.mem_map_of_injective hf]

def Socket.renumber (g : ConnectorId → ConnectorId) (t : Socket) : Socket :=
  { t with incoming := t.incoming.map g }

def Plug.renumber (g : ConnectorId → ConnectorId) (p : Plug) : Plug :=
  { p with connected := p.connected.map g }

def Frame.renumber (g : ConnectorId → ConnectorId) (f : Frame) : Frame :=
  { f with
    flowSockets := f.flowSockets.map (Socket.renumber g)
    flowPlugs := f.flowPlugs.map (Plug.renumber g)
    dataSockets := f.dataSockets.map (Socket.renumber g)
    dataPlugs := f.dataPlugs.map (Plug.renumber g)
    dependents := f.dependents.map g }

def Node.renumber (g : ConnectorId → ConnectorId) (n : Node) : Node := { n with frame := n.frame.renumber g }

namespace Socket
variable (g : ConnectorId → ConnectorId) (t : Socket)

theorem isConnected_renumber : (t.renumber g).isConnected = t.isConnected :=
  congrArg not List.isEmpty_map

theorem renumber_attach (c : ConnectorId) : (t.attach c).renumber g = (t.renumber g).attach (g c) := by
  simp only [attach, renumber, List.map_append, List.map_cons, List.map_nil]

theorem renumber_showEditor (shown : Bool) :
    (t.showEditor shown).renumber g = (t.renumber g).showEditor shown := by
  unfold showEditor
  show (if t.editable then _ else _ : Socket).renumber g = if t.editable then _ else _
  split <;> rfl

end Socket

theorem Plug.renumber_attach (g : ConnectorId → ConnectorId) (p : Plug) (c : ConnectorId) :
    (p.attach c).renumber g = (p.renumber g).attach (g c) := by
  simp only [attach, renumber, List.map_append, List.map_cons, List.map_nil]

namespace Frame
variable (g : ConnectorId → ConnectorId) (f : Frame) (port : PortKind) (index : Nat)

/-! ## Ports -/

theorem socket?_renumber : (f.renumber g).socket? port index = (f.socket? port index).map (Socket.renumber g) := by
  cases port <;> exact List.getElem?_map

theorem plug?_renumber : (f.renumber g).plug? port index = (f.plug? port index).map (Plug.renumber g) := by
  cases port <;> exact List.getElem?_map

theorem renumber_modifySocket (h h' : Socket → Socket) (hh : ∀ t, (h t).renumber g = h' (t.renumber g)) :
    (f.modifySocket port index h).renumber g = (f.renumber g).modifySocket port index h' := by
  cases port <;> simp only [modifySocket, renumber, modify_map hh]

theorem renumber_modifyPlug (h h' : Plug → Plug) (hh : ∀ p, (h p).renumber g = h' (p.renumber g)) :
    (f.modifyPlug port index h).renumber g = (f.renumber g).modifyPlug port index h' := by
  cases port <;> simp only [modifyPlug, renumber, modify_map hh]

theorem renumber_subscribe {g : ConnectorId → ConnectorId} (hg : Function.Injective g) (c : ConnectorId) :
    (f.subscribe c).renumber g = (f.renumber g).subscribe (g c) := by
  unfold subscribe
  show _ = if (f.dependents.map g).contains (g c) then _ else _
  rw [contains_map_of_injective hg]
  split
  · rfl
  · simp only [renumber, List.map_append, List.map_cons, List.map_nil]

theorem renumber_layVariantPorts (variant : Variant) (style : ConnectorStyle) :
    (f.layVariantPorts variant style).renumber g = (f.renumber g).layVariantPorts variant style := by
  simp only [layVariantPorts, resetDataPorts, addDataSocket, addDataPlug, renumber, dataRows, List.length_map]
  rfl

theorem renumber_resetSimulation : f.resetSimulation.renumber g = (f.renumber g).resetSimulation := by
  simp only [resetSimulation, renumber, List.map_map]
  rfl

theorem renumber_simulate (state : Bool) : (f.simulate state).renumber g = (f.renumber g).simulate state := by
  have hlength : (f.renumber g).flowPlugs.length = f.flowPlugs.length := List.length_map _
  have hshade (f : Frame) (index : Nat) (opacity : Float) :
      (f.modifyPlug .flow index fun p => { p with opacity := opacity }).renumber g =
        (f.renumber g).modifyPlug .flow index fun p => { p with opacity := opacity } :=
    f.renumber_modifyPlug g _ _ _ _ fun _ => rfl
  unfold simulate
  dsimp only
  rw [hlength]
  split
  · rfl
  · rw [hshade, hshade]
    rfl

/-! ## Places -/

theorem rowTop_renumber : (f.renumber g).rowTop port index = f.rowTop port index := by
  cases port with
  | flow => rfl
  | data => simp only [rowTop, bodyTop, flowRows, renumber, List.length_map]

theorem socketAnchor?_renumber : (f.renumber g).socketAnchor? port index = f.socketAnchor? port index := by
  rw [socketAnchor?, socket?_renumber, rowTop_renumber, Option.map_map]
  rfl

theorem plugAnchor?_renumber : (f.renumber g).plugAnchor? port index = f.plugAnchor? port index := by
  rw [plugAnchor?, plug?_renumber, rowTop_renumber, Option.map_map]
  rfl

end Frame

namespace NodeKind
variable (g : ConnectorId → ConnectorId) (kind : NodeKind) (f : Frame) (port : PortKind) (index : Nat)

theorem renumber_freshFrame (position : Point) (scale : Scalar) (style : ConnectorStyle) :
    (kind.freshFrame position scale style).renumber g = kind.freshFrame position scale style := by
  cases kind <;> rfl

theorem renumber_settleSum : (settleSum f).renumber g = settleSum (f.renumber g) := by
  have htypes : (f.renumber g).dataSockets.map (·.type) = f.dataSockets.map (·.type) := by
    show (f.dataSockets.map (Socket.renumber g)).map (·.type) = _
    rw [List.map_map]
    rfl
  unfold settleSum
  rw [htypes]
  split
  · exact f.renumber_modifyPlug g _ _ _ _ fun _ => rfl
  · rfl

theorem renumber_socketConnected (plugType : PortType) : (kind.socketConnected f port index plugType).renumber g =
    kind.socketConnected (f.renumber g) port index plugType := by
  have hshow := f.renumber_modifySocket g port index (·.showEditor false) (·.showEditor false)
    fun t => t.renumber_showEditor g false
  have hadapt (f : Frame) : (f.modifySocket port index (·.setType plugType)).renumber g =
      (f.renumber g).modifySocket port index (·.setType plugType) :=
    f.renumber_modifySocket g _ _ _ _ fun _ => rfl
  unfold socketConnected
  rw [Frame.socket?_renumber]
  cases f.socket? port index with
  | none => rfl
  | some t =>
    have htype : (t.renumber g).type = t.type := rfl
    rw [Option.map_some]
    dsimp only
    rw [← hshow, htype]
    split <;> split
    · rw [renumber_settleSum, hadapt, Frame.renumber_resetSimulation]
    · rw [renumber_settleSum, hadapt]
    · exact Frame.renumber_resetSimulation g _
    · rfl

theorem renumber_valueChanged (value : Option Literal) {types types' : Variables}
    (htypes : types'.get? = types.get?) :
    (kind.valueChanged f index value types).renumber g = kind.valueChanged (f.renumber g) index value types' := by
  unfold valueChanged
  rw [htypes]
  split
  · split
    · exact f.renumber_simulate g _
    · rfl
  · split
    · exact f.renumber_modifyPlug g _ _ _ _ fun _ => rfl
    · rfl
  · rfl

end NodeKind

namespace Node
variable {g : ConnectorId → ConnectorId} (n : Node) (c : ConnectorId) (port : PortKind) (index : Nat)

theorem renumber_receive (hg : Function.Injective g) (plugType : PortType) :
    (n.receive c port index plugType).renumber g = (n.renumber g).receive (g c) port index plugType := by
  have harrive := n.frame.renumber_modifySocket g port index (fun t => (t.attach c).resetRadius)
    (fun t => (t.attach (g c)).resetRadius) fun t => congrArg Socket.resetRadius (t.renumber_attach g c)
  rw [receive, receive, renumber]
  dsimp only
  rw [NodeKind.renumber_socketConnected, Frame.renumber_subscribe _ hg, harrive]
  rfl

theorem renumber_send (hg : Function.Injective g) :
    (n.send c port index).renumber g = (n.renumber g).send (g c) port index := by
  have hleave := n.frame.renumber_modifyPlug g port index (·.attach c) (·.attach (g c))
    fun p => p.renumber_attach g c
  rw [send, send, renumber]
  dsimp only
  rw [Frame.renumber_subscribe _ hg, hleave]
  rfl

theorem renumber_renumber (g' : ConnectorId → ConnectorId) :
    (n.renumber g).renumber g' = n.renumber (g' ∘ g) := by
  have hsocket : Socket.renumber g' ∘ Socket.renumber g = Socket.renumber (g' ∘ g) := by
    funext t
    simp only [Function.comp_apply, Socket.renumber, List.map_map]
  have hplug : Plug.renumber g' ∘ Plug.renumber g = Plug.renumber (g' ∘ g) := by
    funext p
    simp only [Function.comp_apply, Plug.renumber, List.map_map]
  simp only [renumber, Frame.renumber, List.map_map, hsocket, hplug]

end Node
end FlowGraph
