import FlowGraph.Proofs.Node.Layout

/-! # The shape of a node

The kind of a node fixes how many ports it has and what they carry. Two types are left open: a socket of
an adapting sum carries what is connected to it, and the output of a sum or of a variable reader follows
the inputs. Whatever happens to a node, it keeps the shape of its kind.
-/

namespace FlowGraph
set_option autoImplicit false

namespace PortType

theorem highest?_isSome {l : List PortType} (h : l ≠ []) : (highest? l).isSome := by
  cases l with
  | nil => exact absurd rfl h
  | cons t ts =>
    rw [highest?]
    split <;> rfl

end PortType

theorem map_modify {α β : Type} (l : List α) (i : Nat) (g : α → α) (f : α → β)
    (h : ∀ a, f (g a) = f a) : (l.modify i g).map f = l.map f := by
  refine List.ext_getElem? fun j => ?_
  rw [List.getElem?_map, List.getElem?_map, List.getElem?_modify]
  by_cases hj : i = j
  · simp only [hj, if_true, Option.map_eq_map, Option.map_map, Function.comp_def, h]
  · simp only [hj, if_false, Option.map_eq_map, Option.map_id']

namespace NodeKind

/-! ## What a kind fixes -/

/-- Whether the type of the plugs follows the inputs of the node. -/
def derives (kind : NodeKind) (port : PortKind) : Bool :=
  (kind == .generalAddition || kind == .variableRead) && port == .data

/-- The type of a socket while nothing is connected to it. -/
def bareType (kind : NodeKind) (port : PortKind) (t : Socket) : PortType :=
  if kind.adapts port then .any else t.type

/-- The type of a plug before the inputs of the node are known. -/
def fixedType (kind : NodeKind) (port : PortKind) (p : Plug) : PortType :=
  if kind.derives port then .any else p.type

/-- The types of the sockets of a new node. -/
def socketTypes (kind : NodeKind) (port : PortKind) : List PortType :=
  ((kind.freshFrame .origin 1.0 .bezier).sockets port).map (·.type)

/-- The types of the plugs of a new node. -/
def plugTypes (kind : NodeKind) (port : PortKind) : List PortType :=
  ((kind.freshFrame .origin 1.0 .bezier).plugs port).map (·.type)

end NodeKind

namespace Frame

/-- The frame has the name and the ports of the kind. -/
structure Fitted (kind : NodeKind) (f : Frame) : Prop where
  identifier : f.identifier = kind.identifier
  variant : f.variant.isSome = (kind == .math)
  forceBranch : f.forceBranch = (kind == .condition)
  sockets : ∀ port, (f.sockets port).map (kind.bareType port) = kind.socketTypes port
  plugs : ∀ port, (f.plugs port).map (kind.fixedType port) = kind.plugTypes port
  plain : ∀ port, ∀ t ∈ f.sockets port, t.phantoms = []

/-- The types that are left open are those that the inputs determine. -/
structure Shaped (kind : NodeKind) (f : Frame) : Prop extends f.Fitted kind where
  idle : ∀ port index t, f.socket? port index = some t → kind.adapts port → t.incoming = [] →
    t.type = .any
  sum : kind = .generalAddition →
    f.dataPlugs.map (·.type) = (PortType.highest? (f.dataSockets.map (·.type))).toList

namespace Fitted
variable {kind : NodeKind} {f g : Frame}

theorem length_sockets (h : f.Fitted kind) (port : PortKind) :
    (f.sockets port).length = (kind.socketTypes port).length := by
  rw [← h.sockets port, List.length_map]

theorem length_plugs (h : f.Fitted kind) (port : PortKind) :
    (f.plugs port).length = (kind.plugTypes port).length := by
  rw [← h.plugs port, List.length_map]

theorem of_ports (h : f.Fitted kind) (hi : g.identifier = f.identifier) (hv : g.variant = f.variant)
    (hb : g.forceBranch = f.forceBranch) (hs : g.sockets = f.sockets) (hp : g.plugs = f.plugs) :
    g.Fitted kind := by
  refine ⟨hi.trans h.identifier, ?_, hb.trans h.forceBranch, ?_, ?_, ?_⟩
  · rw [hv]
    exact h.variant
  · rw [hs]
    exact h.sockets
  · rw [hp]
    exact h.plugs
  · rw [hs]
    exact h.plain

theorem modifySocket (h : f.Fitted kind) (port : PortKind) (index : Nat) (g : Socket → Socket)
    (hg : ∀ t, kind.bareType port (g t) = kind.bareType port t ∧ (g t).phantoms = t.phantoms) :
    (f.modifySocket port index g).Fitted kind := by
  have hsockets : (f.modifySocket port index g).sockets port = (f.sockets port).modify index g := by
    cases port <;> rfl
  have hother (k : PortKind) (hk : k ≠ port) : (f.modifySocket port index g).sockets k = f.sockets k := by
    cases k <;> cases port <;> first | rfl | exact absurd rfl hk
  refine ⟨?_, ?_, ?_, fun k => ?_, fun k => ?_, fun k t ht => ?_⟩
  · cases port <;> exact h.identifier
  · cases port <;> exact h.variant
  · cases port <;> exact h.forceBranch
  · by_cases hk : k = port
    · subst hk
      rw [hsockets, map_modify _ _ _ _ fun t => (hg t).1]
      exact h.sockets k
    · rw [hother k hk]
      exact h.sockets k
  · have hplugs : (f.modifySocket port index g).plugs k = f.plugs k := by
      cases port <;> cases k <;> rfl
    rw [hplugs]
    exact h.plugs k
  · by_cases hk : k = port
    · subst hk
      have hnone : ∀ t ∈ (f.sockets k).map (·.phantoms), t = [] := by
        intro l hl
        obtain ⟨u, hu, rfl⟩ := List.mem_map.1 hl
        exact h.plain k u hu
      refine hnone _ ?_
      rw [← map_modify (f.sockets k) index g (·.phantoms) fun t => (hg t).2, ← hsockets]
      exact List.mem_map_of_mem ht
    · rw [hother k hk] at ht
      exact h.plain k t ht

theorem modifyPlug (h : f.Fitted kind) (port : PortKind) (index : Nat) (g : Plug → Plug)
    (hg : ∀ p, kind.fixedType port (g p) = kind.fixedType port p) :
    (f.modifyPlug port index g).Fitted kind := by
  have hsockets (k : PortKind) : (f.modifyPlug port index g).sockets k = f.sockets k := by
    cases port <;> cases k <;> rfl
  refine ⟨?_, ?_, ?_, fun k => ?_, fun k => ?_, fun k t ht => ?_⟩
  · cases port <;> exact h.identifier
  · cases port <;> exact h.variant
  · cases port <;> exact h.forceBranch
  · rw [hsockets]
    exact h.sockets k
  · by_cases hk : k = port
    · subst hk
      have hplugs : (f.modifyPlug k index g).plugs k = (f.plugs k).modify index g := by
        cases k <;> rfl
      rw [hplugs, map_modify _ _ _ _ hg]
      exact h.plugs k
    · have hplugs : (f.modifyPlug port index g).plugs k = f.plugs k := by
        cases k <;> cases port <;> first | rfl | exact absurd rfl hk
      rw [hplugs]
      exact h.plugs k
  · rw [hsockets] at ht
    exact h.plain k t ht

end Fitted

namespace Shaped
variable {kind : NodeKind} {f g : Frame}

theorem of_ports (h : f.Shaped kind) (hi : g.identifier = f.identifier) (hv : g.variant = f.variant)
    (hb : g.forceBranch = f.forceBranch) (hs : g.sockets = f.sockets) (hp : g.plugs = f.plugs) :
    g.Shaped kind := by
  have hin : g.dataSockets = f.dataSockets := congrFun hs .data
  have hout : g.dataPlugs = f.dataPlugs := congrFun hp .data
  refine ⟨h.toFitted.of_ports hi hv hb hs hp, ?_, ?_⟩
  · intro port index t ht
    rw [socket?, hs] at ht
    exact h.idle port index t ht
  · rw [hin, hout]
    exact h.sum

theorem modifySocket (h : f.Shaped kind) (port : PortKind) (index : Nat) (g : Socket → Socket)
    (hg : ∀ t, (g t).type = t.type ∧ (g t).phantoms = t.phantoms ∧
      ((g t).incoming = [] → t.incoming = [])) : (f.modifySocket port index g).Shaped kind := by
  have hbare (t : Socket) : kind.bareType port (g t) = kind.bareType port t := by
    rw [NodeKind.bareType, NodeKind.bareType, (hg t).1]
  refine ⟨h.toFitted.modifySocket port index g fun t => ⟨hbare t, (hg t).2.1⟩, ?_, fun hk => ?_⟩
  · intro p i t ht hadapts hnone
    rw [socket?_modifySocket] at ht
    split at ht
    · rename_i hat
      obtain ⟨u, hu, rfl⟩ := Option.map_eq_some_iff.1 ht
      rw [(hg u).1]
      rw [hat.1] at hadapts
      exact h.idle port index u hu hadapts ((hg u).2.2 hnone)
    · exact h.idle p i t ht hadapts hnone
  · have hsum := h.sum hk
    cases port with
    | flow => exact hsum
    | data =>
      have htypes := map_modify f.dataSockets index g (·.type) fun t => (hg t).1
      exact hsum.trans (congrArg (fun l => (PortType.highest? l).toList) htypes.symm)

/-- A plug may change its type only where the kind leaves it open. -/
theorem modifyPlug (h : f.Shaped kind) (port : PortKind) (index : Nat) (g : Plug → Plug)
    (hg : ∀ p, kind.fixedType port (g p) = kind.fixedType port p)
    (hsum : kind = .generalAddition → ∀ p, (g p).type = p.type) :
    (f.modifyPlug port index g).Shaped kind := by
  refine ⟨h.toFitted.modifyPlug port index g hg, ?_, fun hk => ?_⟩
  · intro p i t ht
    rw [socket?_modifyPlug] at ht
    exact h.idle p i t ht
  · have hold := h.sum hk
    cases port with
    | flow => exact hold
    | data => exact (map_modify f.dataPlugs index g (·.type) (hsum hk)).trans hold

theorem modifyPlug_type (h : f.Shaped kind) (port : PortKind) (index : Nat) (g : Plug → Plug)
    (hg : ∀ p, (g p).type = p.type) : (f.modifyPlug port index g).Shaped kind := by
  refine h.modifyPlug port index g (fun p => ?_) fun _ => hg
  rw [NodeKind.fixedType, NodeKind.fixedType, hg]

theorem subscribe (h : f.Shaped kind) (id : ConnectorId) : (f.subscribe id).Shaped kind := by
  unfold Frame.subscribe
  split
  · exact h
  · exact h.of_ports rfl rfl rfl rfl rfl

theorem unsubscribe (h : f.Shaped kind) (id : ConnectorId) : (f.unsubscribe id).Shaped kind :=
  h.of_ports rfl rfl rfl rfl rfl

theorem simulate (h : f.Shaped kind) (state : Bool) : (f.simulate state).Shaped kind := by
  have hstate : Frame.Shaped kind { f with simulated := some state } := h.of_ports rfl rfl rfl rfl rfl
  unfold Frame.simulate
  dsimp only
  split
  · exact hstate
  · refine Shaped.modifyPlug_type (Shaped.modifyPlug_type hstate _ _ _ ?_) _ _ _ ?_ <;> intro p <;> rfl

theorem mapPlugs (h : f.Shaped kind) (G : Plug → Plug) (hG : ∀ p, (G p).type = p.type)
    (hi : g.identifier = f.identifier) (hv : g.variant = f.variant)
    (hb : g.forceBranch = f.forceBranch) (hs : g.sockets = f.sockets)
    (hp : ∀ port, g.plugs port = (f.plugs port).map G ∨ g.plugs port = f.plugs port) :
    g.Shaped kind := by
  have hview {α : Type} (view : Plug → α) (hview : ∀ p, view (G p) = view p) (port : PortKind) :
      (g.plugs port).map view = (f.plugs port).map view := by
    obtain hport | hport := hp port
    · rw [hport, List.map_map]
      exact List.map_congr_left fun p _ => hview p
    · rw [hport]
  refine ⟨⟨hi.trans h.identifier, ?_, hb.trans h.forceBranch, ?_, fun port => ?_, ?_⟩, ?_, fun hk => ?_⟩
  · rw [hv]
    exact h.variant
  · rw [hs]
    exact h.sockets
  · rw [hview (kind.fixedType port) (fun p => by rw [NodeKind.fixedType, NodeKind.fixedType, hG])]
    exact h.plugs port
  · rw [hs]
    exact h.plain
  · intro port index t ht
    rw [socket?, hs] at ht
    exact h.idle port index t ht
  · have hin : g.dataSockets = f.dataSockets := congrFun hs .data
    have hout := hview (·.type) hG .data
    rw [hin]
    exact hout.trans (h.sum hk)

theorem resetSimulation (h : f.Shaped kind) : f.resetSimulation.Shaped kind := by
  refine h.mapPlugs (fun p => { p with opacity := 1.0 }) (fun _ => rfl) rfl rfl rfl rfl fun port => ?_
  cases port with
  | flow => exact Or.inl rfl
  | data => exact Or.inr rfl

/-- An adapting sum that has settled is in shape. -/
theorem settleSum (h : f.Fitted .generalAddition) (hidle : ∀ index t,
    f.socket? .data index = some t → t.incoming = [] → t.type = .any) :
    (NodeKind.settleSum f).Shaped .generalAddition := by
  have hin : f.dataSockets.length = 2 := h.length_sockets .data
  have hout : f.dataPlugs.length = 1 := h.length_plugs .data
  obtain ⟨p, hp⟩ := List.length_eq_one_iff.1 hout
  have hsome : (PortType.highest? (f.dataSockets.map (·.type))).isSome := by
    refine PortType.highest?_isSome fun hnil => ?_
    rw [List.map_eq_nil_iff.1 hnil] at hin
    cases hin
  obtain ⟨type, htype⟩ := Option.isSome_iff_exists.1 hsome
  have heq : NodeKind.settleSum f = f.modifyPlug .data 0 fun p => { p with type := type } := by
    rw [NodeKind.settleSum, htype]
  rw [heq]
  refine ⟨h.modifyPlug .data 0 _ fun _ => rfl, fun port index t ht hadapts hnone => ?_, fun _ => ?_⟩
  · rw [socket?_modifyPlug] at ht
    cases port with
    | flow => cases hadapts
    | data => exact hidle index t ht hnone
  · show (f.dataPlugs.modify 0 fun p => { p with type := type }).map (·.type) =
      (PortType.highest? (f.dataSockets.map (·.type))).toList
    rw [htype, hp]
    rfl

end Shaped

end Frame

/-! ## What happens to a node -/

namespace NodeKind
variable {kind : NodeKind} {f : Frame}

theorem adapts_iff {port : PortKind} :
    kind.adapts port = true ↔ kind = .generalAddition ∧ port = .data := by
  simp [adapts]

/-- A node sends either control or data. -/
theorem one_sided (kind : NodeKind) : kind.plugTypes .flow = [] ∨ kind.plugTypes .data = [] := by
  cases kind <;> first | exact Or.inl rfl | exact Or.inr rfl

theorem shaped_showEditor (h : f.Shaped kind) (port : PortKind) (index : Nat) (shown : Bool) :
    (f.modifySocket port index (·.showEditor shown)).Shaped kind := by
  refine h.modifySocket port index _ fun t => ?_
  unfold Socket.showEditor
  split <;> exact ⟨rfl, rfl, fun hnone => hnone⟩

/-- A connection that has arrived gives an adapting socket its type. -/
theorem shaped_socketConnected (h : f.Shaped kind) (port : PortKind) (index : Nat)
    (hbusy : ∀ t, f.socket? port index = some t → t.incoming ≠ []) (plugType : PortType) :
    (kind.socketConnected f port index plugType).Shaped kind := by
  unfold socketConnected
  split
  · exact h
  · rename_i socket hsocket
    dsimp only
    have hshow := shaped_showEditor h port index false
    have hreset : (if socket.type = .bool then
        (f.modifySocket port index (·.showEditor false)).resetSimulation
        else f.modifySocket port index (·.showEditor false)).Shaped kind := by
      split
      · exact hshow.resetSimulation
      · exact hshow
    have hsockets (k : PortKind) (i : Nat) : (if socket.type = .bool then
        (f.modifySocket port index (·.showEditor false)).resetSimulation
        else f.modifySocket port index (·.showEditor false)).socket? k i =
          (f.modifySocket port index (·.showEditor false)).socket? k i := by
      split <;> cases k <;> rfl
    generalize (if socket.type = .bool then
      (f.modifySocket port index (·.showEditor false)).resetSimulation
      else f.modifySocket port index (·.showEditor false)) = m at hreset hsockets
    split
    · rename_i hadapts
      obtain ⟨rfl, rfl⟩ := adapts_iff.1 hadapts
      refine Frame.Shaped.settleSum (hreset.toFitted.modifySocket _ _ _ fun t => ⟨rfl, rfl⟩) ?_
      intro i t ht hnone
      rw [Frame.socket?_modifySocket] at ht
      split at ht
      · rw [hsockets, Frame.socket?_modifySocket, if_pos ⟨rfl, rfl⟩, hsocket] at ht
        obtain rfl := Option.some.inj ht
        exact absurd ((incoming_showEditor socket false).symm.trans hnone) (hbusy socket hsocket)
      · rename_i hat
        rw [hsockets, Frame.socket?_modifySocket, if_neg hat] at ht
        exact h.idle .data i t ht hadapts hnone
    · exact hreset

/-- A connection that has gone leaves an adapting socket without a type. -/
theorem shaped_socketDisconnected (h : f.Fitted kind) (port : PortKind) (index : Nat)
    (hidle : ∀ k i t, f.socket? k i = some t → kind.adapts k → t.incoming = [] →
      k = port ∧ i = index ∨ t.type = .any)
    (hsum : kind.adapts port = false → f.Shaped kind) :
    (kind.socketDisconnected f port index).Shaped kind := by
  have hadapt : (if kind.adapts port then settleSum (f.modifySocket port index (·.setType .any))
      else f).Shaped kind := by
    split
    · rename_i hadapts
      obtain ⟨rfl, rfl⟩ := adapts_iff.1 hadapts
      refine Frame.Shaped.settleSum (h.modifySocket _ _ _ fun t => ⟨rfl, rfl⟩) fun i t ht hnone => ?_
      rw [Frame.socket?_modifySocket] at ht
      split at ht
      · obtain ⟨u, -, rfl⟩ := Option.map_eq_some_iff.1 ht
        rfl
      · rename_i hat
        obtain hsame | hany := hidle .data i t ht hadapts hnone
        · exact absurd hsame hat
        · exact hany
    · rename_i hadapts
      exact hsum (Bool.eq_false_iff.2 hadapts)
  unfold socketDisconnected
  dsimp only
  split
  · exact hadapt
  · have hshow := shaped_showEditor hadapt port index true
    split
    · exact hshow.simulate _
    · exact hshow

theorem shaped_valueChanged (h : f.Shaped kind) (index : Nat) (value : Option Literal)
    (types : Variables) : (kind.valueChanged f index value types).Shaped kind := by
  unfold valueChanged
  split
  · split
    · exact h.simulate _
    · exact h
  · split
    · exact h.modifyPlug .data 0 _ (fun _ => rfl) fun hk => by cases hk
    · exact h
  · exact h

end NodeKind

/-- The node has the shape of its kind. -/
abbrev Node.Shaped (n : Node) : Prop := n.frame.Shaped n.kind

namespace Node.Shaped
variable {n : Node}

theorem receive (h : n.Shaped) (id : ConnectorId) (port : PortKind) (index : Nat)
    (plugType : PortType) : (n.receive id port index plugType).Shaped := by
  have hattach : (n.frame.modifySocket port index fun t => (t.attach id).resetRadius).Shaped n.kind :=
    Frame.Shaped.modifySocket h port index _ fun t => ⟨rfl, rfl, fun hnone => by
      cases (List.append_eq_nil_iff.1 hnone).2⟩
  refine NodeKind.shaped_socketConnected (hattach.subscribe id) port index (fun t ht => ?_) plugType
  have hports : ((n.frame.modifySocket port index fun t => (t.attach id).resetRadius).subscribe
      id).socket? port index = (n.frame.socket? port index).map fun t => (t.attach id).resetRadius := by
    have hsame (f : Frame) : (f.subscribe id).socket? port index = f.socket? port index := by
      unfold Frame.subscribe
      split
      · rfl
      · cases port <;> rfl
    rw [hsame, Frame.socket?_modifySocket, if_pos ⟨rfl, rfl⟩]
  rw [hports] at ht
  obtain ⟨u, -, rfl⟩ := Option.map_eq_some_iff.1 ht
  exact fun hnone => by cases (List.append_eq_nil_iff.1 hnone).2

theorem release (h : n.Shaped) (id : ConnectorId) (port : PortKind) (index : Nat) :
    (n.release id port index).Shaped := by
  have hdetach : (n.frame.modifySocket port index (·.detach id)).Fitted n.kind :=
    h.toFitted.modifySocket port index _ fun t => ⟨rfl, rfl⟩
  have hgone : ((n.frame.modifySocket port index (·.detach id)).unsubscribe id).Fitted n.kind :=
    hdetach.of_ports rfl rfl rfl rfl rfl
  refine NodeKind.shaped_socketDisconnected hgone port index ?_ ?_
  · intro k i t ht hadapts hnone
    change (n.frame.modifySocket port index (·.detach id)).socket? k i = some t at ht
    rw [Frame.socket?_modifySocket] at ht
    split at ht
    · rename_i hat
      exact Or.inl hat
    · exact Or.inr (h.idle k i t ht hadapts hnone)
  · intro hadapts
    refine ⟨hgone, fun k i t ht hk hnone => ?_, fun hsum => ?_⟩
    · change (n.frame.modifySocket port index (·.detach id)).socket? k i = some t at ht
      rw [Frame.socket?_modifySocket] at ht
      split at ht
      · rename_i hat
        rw [hat.1, hadapts] at hk
        cases hk
      · exact h.idle k i t ht hk hnone
    · cases port with
      | flow => exact h.sum hsum
      | data =>
        rw [hsum] at hadapts
        cases hadapts

theorem send (h : n.Shaped) (id : ConnectorId) (port : PortKind) (index : Nat) :
    (n.send id port index).Shaped := by
  have hattach : (n.frame.modifyPlug port index (·.attach id)).Shaped n.kind :=
    Frame.Shaped.modifyPlug_type h port index _ fun _ => rfl
  exact hattach.subscribe id

theorem withdraw (h : n.Shaped) (id : ConnectorId) (port : PortKind) (index : Nat) :
    (n.withdraw id port index).Shaped := by
  have hdetach : (n.frame.modifyPlug port index (·.detach id)).Shaped n.kind :=
    Frame.Shaped.modifyPlug_type h port index _ fun _ => rfl
  exact hdetach.unsubscribe id

theorem fresh (kind : NodeKind) (position : Point) (scale : Scalar) (style : ConnectorStyle) :
    Node.Shaped ⟨kind, kind.freshFrame position scale style⟩ := by
  refine ⟨⟨?_, ?_, ?_, fun port => ?_, fun port => ?_, fun port t ht => ?_⟩,
    fun port i t ht ha _ => ?_, ?_⟩
  · cases kind <;> rfl
  · cases kind <;> rfl
  · cases kind <;> rfl
  · cases kind <;> cases port <;> rfl
  · cases kind <;> cases port <;> rfl
  · have hplain : ((kind.freshFrame position scale style).sockets port).map (·.phantoms) =
        (kind.socketTypes port).map fun _ => [] := by
      cases kind <;> cases port <;> rfl
    have hmem := List.mem_map_of_mem (f := fun t : Socket => t.phantoms) ht
    rw [hplain] at hmem
    obtain ⟨-, -, hnil⟩ := List.mem_map.1 hmem
    exact hnil.symm
  · obtain ⟨rfl, rfl⟩ := NodeKind.adapts_iff.1 ha
    have hmem : ∀ type ∈ ((NodeKind.generalAddition.freshFrame position scale style).sockets
        .data).map (·.type), type = .any := by
      show ∀ type ∈ [PortType.any, PortType.any], type = .any
      simp
    exact hmem _ (List.mem_map_of_mem (List.mem_of_getElem? ht))
  · rintro rfl
    rfl

/-- A node with several operations keeps its shape when its data ports are laid out anew. -/
theorem relay (h : n.Shaped) (hv : n.frame.variant.isSome) (variant : Variant) (style : ConnectorStyle)
    (name : String) : Node.Shaped { n with frame :=
      { n.frame.layVariantPorts variant style with variant := some variant, name := name } } := by
  have hk : n.kind = .math := eq_of_beq (h.variant.symm.trans hv)
  obtain ⟨kind, f⟩ := n
  dsimp only at hk
  subst hk
  refine ⟨⟨h.identifier, rfl, h.forceBranch, fun port => ?_, fun port => ?_, fun port t ht => ?_⟩,
    ?_, ?_⟩
  · cases port with
    | flow => exact h.sockets .flow
    | data => rfl
  · cases port with
    | flow => exact h.plugs .flow
    | data => rfl
  · cases port with
    | flow => exact h.plain .flow t ht
    | data =>
      change t ∈ [Socket.new .num "A", Socket.new .num "B"] at ht
      obtain ht | ht := List.mem_cons.1 ht
      · rw [ht]
        rfl
      · rw [List.mem_singleton.1 ht]
        rfl
  · intro port i t ht ha
    cases ha
  · intro hk
    cases hk

end Node.Shaped

end FlowGraph
