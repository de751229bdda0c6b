import FlowGraph.Session.Wiring

/-! # Which connectors the ports of a node hold

`Frame.wires` is what a frame knows of connectors: those that arrive at each socket, those that leave
each plug, and those that follow the node. Layout, previews, types and constants do not touch it; the
four ends of an edge (`Node.receive`, `release`, `send`, `withdraw`) change one list each.
-/

namespace FlowGraph
set_option autoImplicit false

namespace Frame
variable (f : Frame) (kind kind' : PortKind) (index index' : Nat)

/-! ## A port after a change -/

theorem socket?_modifySocket (g : Socket → Socket) :
    (f.modifySocket kind index g).socket? kind' index' =
      if kind' = kind ∧ index' = index then (f.socket? kind index).map g
      else f.socket? kind' index' := by
  by_cases h : index = index'
  · subst h
    cases kind <;> cases kind' <;> simp [socket?, sockets, modifySocket]
  · have h' : ¬index' = index := fun e => h e.symm
    cases kind <;> cases kind' <;> simp [socket?, sockets, modifySocket, h, h']

theorem plug?_modifyPlug (g : Plug → Plug) :
    (f.modifyPlug kind index g).plug? kind' index' =
      if kind' = kind ∧ index' = index then (f.plug? kind index).map g
      else f.plug? kind' index' := by
  by_cases h : index = index'
  · subst h
    cases kind <;> cases kind' <;> simp [plug?, plugs, modifyPlug]
  · have h' : ¬index' = index := fun e => h e.symm
    cases kind <;> cases kind' <;> simp [plug?, plugs, modifyPlug, h, h']

@[simp] theorem plug?_modifySocket (g : Socket → Socket) :
    (f.modifySocket kind index g).plug? kind' index' = f.plug? kind' index' := by
  cases kind <;> cases kind' <;> rfl

@[simp] theorem socket?_modifyPlug (g : Plug → Plug) :
    (f.modifyPlug kind index g).socket? kind' index' = f.socket? kind' index' := by
  cases kind <;> cases kind' <;> rfl

@[simp] theorem dependents_modifySocket (g : Socket → Socket) :
    (f.modifySocket kind index g).dependents = f.dependents := by
  cases kind <;> rfl

@[simp] theorem dependents_modifyPlug (g : Plug → Plug) :
    (f.modifyPlug kind index g).dependents = f.dependents := by
  cases kind <;> rfl

end Frame

/-! ## Wires -/

/-- What a frame knows of connectors. -/
@[ext] structure Wires where
  arrivals : PortKind → Nat → Option (List ConnectorId)
  departures : PortKind → Nat → Option (List ConnectorId)
  dependents : List ConnectorId

def Frame.wires (f : Frame) : Wires where
  arrivals kind index := (f.socket? kind index).map (·.incoming)
  departures kind index := (f.plug? kind index).map (·.connected)
  dependents := f.dependents

namespace Wires

def atSocket (w : Wires) (kind : PortKind) (index : Nat) (g : List ConnectorId → List ConnectorId) :
    Wires :=
  { w with arrivals := fun k i =>
      if k = kind ∧ i = index then (w.arrivals kind index).map g else w.arrivals k i }

def atPlug (w : Wires) (kind : PortKind) (index : Nat) (g : List ConnectorId → List ConnectorId) :
    Wires :=
  { w with departures := fun k i =>
      if k = kind ∧ i = index then (w.departures kind index).map g else w.departures k i }

def subscribe (w : Wires) (id : ConnectorId) : Wires :=
  { w with dependents := if w.dependents.contains id then w.dependents else w.dependents ++ [id] }

def unsubscribe (w : Wires) (id : ConnectorId) : Wires :=
  { w with dependents := w.dependents.filter (· ≠ id) }

end Wires

namespace Frame
variable (f : Frame) (kind : PortKind) (index : Nat)

theorem wires_modifySocket (g : Socket → Socket) (h : List ConnectorId → List ConnectorId)
    (hg : ∀ t, (g t).incoming = h t.incoming) :
    (f.modifySocket kind index g).wires = f.wires.atSocket kind index h := by
  refine Wires.ext ?_ ?_ ?_
  · funext k i
    simp only [wires, Wires.atSocket, socket?_modifySocket]
    split
    · simp only [Option.map_map, Function.comp_def, hg]
    · rfl
  · funext k i
    simp [wires, Wires.atSocket]
  · simp [wires, Wires.atSocket]

theorem wires_modifyPlug (g : Plug → Plug) (h : List ConnectorId → List ConnectorId)
    (hg : ∀ p, (g p).connected = h p.connected) :
    (f.modifyPlug kind index g).wires = f.wires.atPlug kind index h := by
  refine Wires.ext ?_ ?_ ?_
  · funext k i
    simp [wires, Wires.atPlug]
  · funext k i
    simp only [wires, Wires.atPlug, plug?_modifyPlug]
    split
    · simp only [Option.map_map, Function.comp_def, hg]
    · rfl
  · simp [wires, Wires.atPlug]

/-! ## Changes that leave the wires alone -/

theorem wires_modifySocket_eq (g : Socket → Socket) (hg : ∀ t, (g t).incoming = t.incoming) :
    (f.modifySocket kind index g).wires = f.wires := by
  rw [wires_modifySocket f kind index g id hg]
  refine Wires.ext ?_ rfl rfl
  funext k i
  simp only [Wires.atSocket, Option.map_id_fun, id_eq]
  split
  · rename_i h
    rw [h.1, h.2]
  · rfl

theorem wires_modifyPlug_eq (g : Plug → Plug) (hg : ∀ p, (g p).connected = p.connected) :
    (f.modifyPlug kind index g).wires = f.wires := by
  rw [wires_modifyPlug f kind index g id hg]
  refine Wires.ext rfl ?_ rfl
  funext k i
  simp only [Wires.atPlug, Option.map_id_fun, id_eq]
  split
  · rename_i h
    rw [h.1, h.2]
  · rfl

@[simp] theorem wires_simulate (state : Bool) : (f.simulate state).wires = f.wires := by
  unfold simulate
  dsimp only
  split
  · rfl
  · refine (wires_modifyPlug_eq _ _ _ _ ?_).trans (wires_modifyPlug_eq _ _ _ _ ?_) <;> intro p <;> rfl

@[simp] theorem wires_resetSimulation : f.resetSimulation.wires = f.wires := by
  refine Wires.ext rfl ?_ rfl
  funext k i
  cases k <;> simp [wires, plug?, plugs, resetSimulation, Function.comp_def]

theorem wires_subscribe (id : ConnectorId) : (f.subscribe id).wires = f.wires.subscribe id := by
  unfold subscribe
  split <;> simp_all [wires, Wires.subscribe, socket?, plug?, sockets, plugs]

theorem wires_unsubscribe (id : ConnectorId) : (f.unsubscribe id).wires = f.wires.unsubscribe id := rfl

end Frame

namespace NodeKind
variable (kind : NodeKind) (f : Frame) (port : PortKind) (index : Nat)

@[simp] theorem wires_settleSum : (settleSum f).wires = f.wires := by
  unfold settleSum
  split
  · exact f.wires_modifyPlug_eq _ _ _ fun _ => rfl
  · rfl

theorem incoming_showEditor (t : Socket) (shown : Bool) : (t.showEditor shown).incoming = t.incoming := by
  unfold Socket.showEditor
  split <;> rfl

@[simp] theorem wires_socketConnected (plugType : PortType) :
    (kind.socketConnected f port index plugType).wires = f.wires := by
  have hset (g : Frame) : (g.modifySocket port index (·.setType plugType)).wires = g.wires :=
    g.wires_modifySocket_eq _ _ _ fun _ => rfl
  have hshow : (f.modifySocket port index (·.showEditor false)).wires = f.wires :=
    f.wires_modifySocket_eq _ _ _ fun t => incoming_showEditor t false
  unfold socketConnected
  split
  · rfl
  · dsimp only
    split <;> split <;> simp [hset, hshow]

@[simp] theorem wires_socketDisconnected :
    (kind.socketDisconnected f port index).wires = f.wires := by
  have hshow (g : Frame) : (g.modifySocket port index (·.showEditor true)).wires = g.wires :=
    g.wires_modifySocket_eq _ _ _ fun t => incoming_showEditor t true
  have hset : (f.modifySocket port index (·.setType .any)).wires = f.wires :=
    f.wires_modifySocket_eq _ _ _ fun _ => rfl
  have hadapt : (if kind.adapts port then settleSum (f.modifySocket port index (·.setType .any))
      else f).wires = f.wires := by
    split
    · rw [wires_settleSum, hset]
    · rfl
  unfold socketDisconnected
  dsimp only
  split
  · exact hadapt
  · split
    · rw [Frame.wires_simulate, hshow, hadapt]
    · rw [hshow, hadapt]

@[simp] theorem wires_valueChanged (value : Option Literal) (types : Variables) :
    (kind.valueChanged f index value types).wires = f.wires := by
  unfold valueChanged
  split
  · split <;> simp
  · split
    · exact f.wires_modifyPlug_eq _ _ _ fun _ => rfl
    · rfl
  · rfl

end NodeKind

/-! ## The ends of an edge -/

namespace Node
variable (n : Node) (id : ConnectorId) (kind : PortKind) (index : Nat)

theorem wires_receive (plugType : PortType) : (n.receive id kind index plugType).frame.wires =
    (n.frame.wires.atSocket kind index (· ++ [id])).subscribe id := by
  simp only [receive, NodeKind.wires_socketConnected, Frame.wires_subscribe]
  rw [n.frame.wires_modifySocket kind index _ (· ++ [id]) fun _ => rfl]

theorem wires_release : (n.release id kind index).frame.wires =
    (n.frame.wires.atSocket kind index (·.filter (· ≠ id))).unsubscribe id := by
  simp only [release, NodeKind.wires_socketDisconnected, Frame.wires_unsubscribe]
  rw [n.frame.wires_modifySocket kind index _ (·.filter (· ≠ id)) fun _ => rfl]

theorem wires_send : (n.send id kind index).frame.wires =
    (n.frame.wires.atPlug kind index (· ++ [id])).subscribe id := by
  simp only [send, Frame.wires_subscribe]
  rw [n.frame.wires_modifyPlug kind index _ (· ++ [id]) fun _ => rfl]

theorem wires_withdraw : (n.withdraw id kind index).frame.wires =
    (n.frame.wires.atPlug kind index (·.filter (· ≠ id))).unsubscribe id := by
  simp only [withdraw, Frame.wires_unsubscribe]
  rw [n.frame.wires_modifyPlug kind index _ (·.filter (· ≠ id)) fun _ => rfl]

end Node

/-! ## The body of a frame -/

/-- A frame without its ports, its followers and its preview. -/
def Frame.body (f : Frame) : Frame :=
  { f with
    flowSockets := []
    flowPlugs := []
    dataSockets := []
    dataPlugs := []
    dependents := []
    simulated := none }

/-- What a node keeps whatever is connected to it. -/
def Node.body (n : Node) : NodeKind × Frame := (n.kind, n.frame.body)

namespace Frame
variable (f : Frame) (kind : PortKind) (index : Nat)

@[simp] theorem body_modifySocket (g : Socket → Socket) : (f.modifySocket kind index g).body = f.body := by
  cases kind <;> rfl

@[simp] theorem body_modifyPlug (g : Plug → Plug) : (f.modifyPlug kind index g).body = f.body := by
  cases kind <;> rfl

@[simp] theorem body_subscribe (id : ConnectorId) : (f.subscribe id).body = f.body := by
  unfold subscribe
  split <;> rfl

@[simp] theorem body_unsubscribe (id : ConnectorId) : (f.unsubscribe id).body = f.body := rfl

@[simp] theorem body_simulate (state : Bool) : (f.simulate state).body = f.body := by
  unfold simulate
  dsimp only
  split
  · rfl
  · rw [body_modifyPlug, body_modifyPlug]
    rfl

@[simp] theorem body_resetSimulation : f.resetSimulation.body = f.body := rfl

end Frame

namespace NodeKind
variable (kind : NodeKind) (f : Frame) (port : PortKind) (index : Nat)

@[simp] theorem body_settleSum : (settleSum f).body = f.body := by
  unfold settleSum
  split
  · exact f.body_modifyPlug _ _ _
  · rfl

@[simp] theorem body_socketConnected (plugType : PortType) :
    (kind.socketConnected f port index plugType).body = f.body := by
  unfold socketConnected
  split
  · rfl
  · dsimp only
    split <;> split <;> simp

@[simp] theorem body_socketDisconnected : (kind.socketDisconnected f port index).body = f.body := by
  have hadapt : (if kind.adapts port then settleSum (f.modifySocket port index (·.setType .any))
      else f).body = f.body := by
    split
    · rw [body_settleSum, Frame.body_modifySocket]
    · rfl
  unfold socketDisconnected
  dsimp only
  split
  · exact hadapt
  · split
    · rw [Frame.body_simulate, Frame.body_modifySocket, hadapt]
    · rw [Frame.body_modifySocket, hadapt]

@[simp] theorem body_valueChanged (value : Option Literal) (types : Variables) :
    (kind.valueChanged f index value types).body = f.body := by
  unfold valueChanged
  split
  · split <;> simp
  · split
    · exact f.body_modifyPlug _ _ _
    · rfl
  · rfl

end NodeKind

namespace Node
variable (n : Node) (id : ConnectorId) (kind : PortKind) (index : Nat)

@[simp] theorem body_receive (plugType : PortType) : (n.receive id kind index plugType).body = n.body := by
  simp [body, receive]

@[simp] theorem body_release : (n.release id kind index).body = n.body := by
  simp [body, release]

@[simp] theorem body_send : (n.send id kind index).body = n.body := by
  simp [body, send]

@[simp] theorem body_withdraw : (n.withdraw id kind index).body = n.body := by
  simp [body, withdraw]

end Node
end FlowGraph
