import FlowGraph.Proofs.Node.Ports

/-! # Laid-out ports

Ports are laid out without connectors. A frame on which nothing hangs stays so when ports are added,
and a node of every kind starts out so.
-/

namespace FlowGraph
set_option autoImplicit false

/-- No connector is on a port, and none follows. -/
structure Wires.Bare (w : Wires) : Prop where
  arrivals : ∀ kind index l, w.arrivals kind index = some l → l = []
  departures : ∀ kind index l, w.departures kind index = some l → l = []
  dependents : w.dependents = []

/-- Nothing hangs on the frame, port by port. -/
structure Frame.Unwired (f : Frame) : Prop where
  sockets : ∀ kind, ∀ t ∈ f.sockets kind, t.incoming = []
  plugs : ∀ kind, ∀ p ∈ f.plugs kind, p.connected = []
  dependents : f.dependents = []

namespace Frame.Unwired
variable {f : Frame}

theorem iff_bare : f.Unwired ↔ f.wires.Bare := by
  constructor
  · intro h
    refine ⟨fun kind index l hl => ?_, fun kind index l hl => ?_, h.dependents⟩
    · obtain ⟨t, ht, rfl⟩ := Option.map_eq_some_iff.1 hl
      exact h.sockets kind t (List.mem_of_getElem? ht)
    · obtain ⟨p, hp, rfl⟩ := Option.map_eq_some_iff.1 hl
      exact h.plugs kind p (List.mem_of_getElem? hp)
  · intro h
    refine ⟨fun kind t ht => ?_, fun kind p hp => ?_, h.dependents⟩
    · obtain ⟨index, hi⟩ := List.getElem?_of_mem ht
      exact h.arrivals kind index t.incoming (Option.map_eq_some_iff.2 ⟨t, hi, rfl⟩)
    · obtain ⟨index, hi⟩ := List.getElem?_of_mem hp
      exact h.departures kind index p.connected (Option.map_eq_some_iff.2 ⟨p, hi, rfl⟩)

theorem addFlowSocket (h : f.Unwired) : f.addFlowSocket.Unwired := by
  refine ⟨fun kind t ht => ?_, h.plugs, h.dependents⟩
  cases kind with
  | flow =>
    obtain ht | ht := List.mem_append.1 ht
    · exact h.sockets .flow t ht
    · rw [List.mem_singleton.1 ht]
      rfl
  | data => exact h.sockets .data t ht

theorem addDataSocket (h : f.Unwired) (type : PortType) (label : String) :
    (f.addDataSocket type label).Unwired := by
  refine ⟨fun kind t ht => ?_, h.plugs, h.dependents⟩
  cases kind with
  | flow => exact h.sockets .flow t ht
  | data =>
    obtain ht | ht := List.mem_append.1 ht
    · exact h.sockets .data t ht
    · rw [List.mem_singleton.1 ht]
      rfl

theorem addFlowPlug (h : f.Unwired) (label : String) (style : ConnectorStyle) :
    (f.addFlowPlug label style).Unwired := by
  refine ⟨h.sockets, fun kind p hp => ?_, h.dependents⟩
  cases kind with
  | flow =>
    obtain hp | hp := List.mem_append.1 hp
    · exact h.plugs .flow p hp
    · rw [List.mem_singleton.1 hp]
      rfl
  | data => exact h.plugs .data p hp

theorem addDataPlug (h : f.Unwired) (type : PortType) (label : String) (style : ConnectorStyle) :
    (f.addDataPlug type label style).Unwired := by
  refine ⟨h.sockets, fun kind p hp => ?_, h.dependents⟩
  cases kind with
  | flow => exact h.plugs .flow p hp
  | data =>
    obtain hp | hp := List.mem_append.1 hp
    · exact h.plugs .data p hp
    · rw [List.mem_singleton.1 hp]
      rfl

theorem of_ports {g : Frame} (h : f.Unwired) (hs : g.sockets = f.sockets) (hp : g.plugs = f.plugs)
    (hd : g.dependents = f.dependents) : g.Unwired :=
  ⟨fun kind t ht => h.sockets kind t (by rw [← hs]; exact ht),
    fun kind p hp' => h.plugs kind p (by rw [← hp]; exact hp'), hd.trans h.dependents⟩

theorem resetDataPorts (h : f.Unwired) : f.resetDataPorts.Unwired := by
  refine ⟨fun kind t ht => ?_, fun kind p hp => ?_, h.dependents⟩
  · cases kind with
    | flow => exact h.sockets .flow t ht
    | data => cases ht
  · cases kind with
    | flow => exact h.plugs .flow p hp
    | data => cases hp

theorem layVariantPorts (h : f.Unwired) (variant : Variant) (style : ConnectorStyle) :
    (f.layVariantPorts variant style).Unwired :=
  ((h.resetDataPorts.addDataSocket .num "A").addDataSocket .num "B").addDataPlug .num _ style

theorem layPorts (h : f.Unwired) (kind : NodeKind) (style : ConnectorStyle) :
    (kind.layPorts f style).Unwired := by
  cases kind with
  | startEvent => exact h.addFlowPlug _ _
  | condition =>
    exact (((h.addFlowSocket.addFlowPlug _ _).addFlowPlug _ _).addDataSocket _ _).of_ports rfl rfl rfl
  | consoleLog => exact (h.addFlowSocket.addFlowPlug _ _).addDataSocket _ _
  | isMobile => exact h.addDataPlug _ _ _
  | screenSize => exact (h.addDataPlug _ _ _).addDataPlug _ _ _
  | addition => exact h.layVariantPorts .add style
  | generalAddition => exact ((h.addDataSocket _ _).addDataSocket _ _).addDataPlug _ _ _
  | multiplication => exact h.layVariantPorts .multiply style
  | math =>
    have hoffset : Frame.Unwired { f.setConnectionOffset 28.0 with
        variant := some .add, name := Variant.add.title } := h.of_ports rfl rfl rfl
    exact hoffset.layVariantPorts .add style
  | variableWrite => exact ((h.addFlowSocket.addFlowPlug _ _).addDataSocket _ _).addDataSocket _ _
  | variableRead => exact (h.addDataSocket _ _).addDataPlug _ _ _

theorem bareFrame (kind : NodeKind) : kind.bareFrame.Unwired := by
  refine ⟨fun kind t ht => ?_, fun kind p hp => ?_, rfl⟩
  · cases kind <;> cases ht
  · cases kind <;> cases hp

end Frame.Unwired

/-- The frame of a new node. -/
def NodeKind.freshFrame (kind : NodeKind) (position : Point) (scale : Scalar) (style : ConnectorStyle) :
    Frame :=
  { kind.layPorts { kind.bareFrame with scale := scale } style with
    position := position, positioned := true }

theorem Frame.Unwired.freshFrame (kind : NodeKind) (position : Point) (scale : Scalar)
    (style : ConnectorStyle) : (kind.freshFrame position scale style).Unwired := by
  have hbare : Frame.Unwired { kind.bareFrame with scale := scale } :=
    (Frame.Unwired.bareFrame kind).of_ports rfl rfl rfl
  exact (hbare.layPorts kind style).of_ports rfl rfl rfl

end FlowGraph
