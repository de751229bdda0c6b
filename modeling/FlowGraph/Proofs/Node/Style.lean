import FlowGraph.Proofs.Node.Change

/-! # The styles of the plugs

A plug takes its style when it is laid. Whatever happens at the ports of the node afterwards, its style stays,
unless all plugs are given another one.
-/

namespace FlowGraph
set_option autoImplicit false

namespace Frame

/-- The styles of the plugs of a collection, in order. -/
def styles (f : Frame) (k : PortKind) : List ConnectorStyle := (f.plugs k).map (·.style)

/-- Every plug has the style. -/
def Styled (f : Frame) (style : ConnectorStyle) : Prop := ∀ k, ∀ p ∈ f.plugs k, p.style = style

section Kept
variable (f : Frame) (port k : PortKind) (index : Nat)

@[simp] theorem styles_modifySocket (g : Socket → Socket) : (f.modifySocket port index g).styles k = f.styles k :=
  congrArg (List.map Plug.style) (f.plugs_modifySocket port k index g)

theorem styles_modifyPlug {g : Plug → Plug} (hg : ∀ p, (g p).style = p.style) :
    (f.modifyPlug port index g).styles k = f.styles k := by
  rw [styles, plugs_modifyPlug]
  split
  · exact map_modify _ _ _ _ hg
  · rfl

@[simp] theorem styles_subscribe (c : ConnectorId) : (f.subscribe c).styles k = f.styles k :=
  congrArg (List.map Plug.style) (f.plugs_subscribe k c)

@[simp] theorem styles_unsubscribe (c : ConnectorId) : (f.unsubscribe c).styles k = f.styles k :=
  congrArg (List.map Plug.style) (f.plugs_unsubscribe k c)

@[simp] theorem styles_simulate (state : Bool) : (f.simulate state).styles k = f.styles k := by
  rw [styles, plugs_simulate]
  split
  · unfold Plug.shaded
    split
    · rfl
    · exact (map_modify _ _ Plug.dimmed _ fun _ => rfl).trans (map_modify _ _ Plug.full _ fun _ => rfl)
  · rfl

@[simp] theorem styles_resetSimulation : f.resetSimulation.styles k = f.styles k := by
  rw [styles, plugs_resetSimulation]
  split
  · rw [List.map_map]
    rfl
  · rfl

end Kept
end Frame

/-! ## Reactions -/

namespace NodeKind
variable (kind : NodeKind) (f : Frame) (port k : PortKind) (index : Nat)

@[simp] theorem styles_settleSum : (settleSum f).styles k = f.styles k := by
  unfold settleSum
  split
  · exact f.styles_modifyPlug _ _ _ fun _ => rfl
  · rfl

@[simp] theorem styles_typed (type : PortType) : (kind.typed f port index type).styles k = f.styles k := by
  unfold typed
  split <;> simp

@[simp] theorem styles_restored : f.restored.styles k = f.styles k := by
  unfold Frame.restored
  split <;> simp

@[simp] theorem styles_socketConnected (type : PortType) :
    (kind.socketConnected f port index type).styles k = f.styles k := by
  cases ht : f.socket? port index with
  | none =>
    unfold socketConnected
    rw [ht]
  | some t =>
    rw [socketConnected_eq ht, styles_typed]
    split <;> simp

@[simp] theorem styles_socketDisconnected : (kind.socketDisconnected f port index).styles k = f.styles k := by
  cases ht : f.socket? port index with
  | none =>
    have hnone : (kind.typed f port index .any).socket? port index = none := by
      rw [Frame.socket?, sockets_typed, if_pos rfl, List.getElem?_modify_eq]
      exact congrArg (Option.map _) ht
    have hsame : kind.socketDisconnected f port index = kind.typed f port index .any := by
      unfold typed at hnone ⊢
      unfold socketDisconnected
      dsimp only
      rw [hnone]
    rw [hsame, styles_typed]
  | some t =>
    rw [socketDisconnected_eq ht]
    dsimp only
    split <;> simp

@[simp] theorem styles_valueChanged (value : Option Literal) (types : Variables) :
    (kind.valueChanged f index value types).styles k = f.styles k := by
  unfold valueChanged
  split
  · split
    · exact f.styles_simulate k _
    · rfl
  · split
    · exact f.styles_modifyPlug _ _ _ fun _ => rfl
    · rfl
  · rfl

end NodeKind

namespace Node
variable (n : Node) (c : ConnectorId) (port k : PortKind) (index : Nat)

@[simp] theorem styles_receive (type : PortType) : (n.receive c port index type).frame.styles k = n.frame.styles k := by
  simp [receive]

@[simp] theorem styles_release : (n.release c port index).frame.styles k = n.frame.styles k := by
  simp [release]

@[simp] theorem styles_send : (n.send c port index).frame.styles k = n.frame.styles k := by
  rw [send, Frame.styles_subscribe]
  exact n.frame.styles_modifyPlug _ _ _ fun _ => rfl

@[simp] theorem styles_withdraw : (n.withdraw c port index).frame.styles k = n.frame.styles k := by
  rw [withdraw, Frame.styles_unsubscribe]
  exact n.frame.styles_modifyPlug _ _ _ fun _ => rfl

@[simp] theorem styles_hold (value : Option Literal) (types : Variables) :
    (n.hold index value types).frame.styles k = n.frame.styles k := by
  simp [hold]

end Node

/-! ## Plugs of one style -/

namespace Frame.Styled
variable {f g : Frame} {style : ConnectorStyle}

theorem of_styles (h : f.Styled style) (hsame : ∀ k, g.styles k = f.styles k) : g.Styled style := by
  intro k p hp
  have hstyle : p.style ∈ g.styles k := List.mem_map_of_mem hp
  rw [hsame] at hstyle
  obtain ⟨q, hq, heq⟩ := List.mem_map.1 hstyle
  exact heq ▸ h k q hq

/-- One plug more, of the same style. -/
theorem of_append (h : f.Styled style) (port : PortKind) {q : Plug} (hq : q.style = style)
    (hplugs : ∀ k, g.plugs k = if k = port then f.plugs k ++ [q] else f.plugs k) : g.Styled style := by
  intro k p hp
  rw [hplugs] at hp
  split at hp
  · obtain hp | hp := List.mem_append.1 hp
    · exact h k p hp
    · exact List.mem_singleton.1 hp ▸ hq
  · exact h k p hp

theorem addFlowSocket (h : f.Styled style) : f.addFlowSocket.Styled style :=
  h.of_styles fun k => by cases k <;> rfl

theorem addDataSocket (h : f.Styled style) (type : PortType) (label : String) :
    (f.addDataSocket type label).Styled style :=
  h.of_styles fun k => by cases k <;> rfl

theorem addFlowPlug (h : f.Styled style) (label : String) : (f.addFlowPlug label style).Styled style :=
  h.of_append .flow (q := .flow label style) rfl fun k => by cases k <;> rfl

theorem addDataPlug (h : f.Styled style) (type : PortType) (label : String) :
    (f.addDataPlug type label style).Styled style :=
  h.of_append .data (q := .new type label style) rfl fun k => by cases k <;> rfl

theorem resetDataPorts (h : f.Styled style) : f.resetDataPorts.Styled style
  | .flow, p, hp => h .flow p hp
  | .data, _, hp => nomatch hp

theorem layVariantPorts (h : f.Styled style) (variant : Variant) : (f.layVariantPorts variant style).Styled style :=
  ((h.resetDataPorts.addDataSocket .num "A").addDataSocket .num "B").addDataPlug .num _

/-- The plugs of a kind are laid in the style that is asked for. -/
theorem layPorts (h : f.Styled style) (kind : NodeKind) : (kind.layPorts f style).Styled style := by
  cases kind with
  | startEvent => exact h.addFlowPlug _
  | condition => exact ((h.addFlowSocket.addFlowPlug "Met").addFlowPlug "Not met").addDataSocket .bool "Condition"
  | consoleLog => exact (h.addFlowSocket.addFlowPlug _).addDataSocket _ _
  | isMobile => exact h.addDataPlug _ _
  | screenSize => exact (h.addDataPlug .int "Pixels X").addDataPlug .int "Pixels Y"
  | addition => exact h.layVariantPorts _
  | multiplication => exact h.layVariantPorts _
  | generalAddition => exact ((h.addDataSocket .any "A").addDataSocket .any "B").addDataPlug .any "Result"
  | math => exact layVariantPorts (f := { f.setConnectionOffset 28.0 with
      variant := some .add, name := Variant.add.title }) h _
  | variableWrite => exact ((h.addFlowSocket.addFlowPlug _).addDataSocket _ _).addDataSocket _ _
  | variableRead => exact (h.addDataSocket _ _).addDataPlug _ _

theorem bareFrame (kind : NodeKind) (style : ConnectorStyle) : kind.bareFrame.Styled style
  | .flow, _, hp => nomatch hp
  | .data, _, hp => nomatch hp

end Frame.Styled
end FlowGraph
