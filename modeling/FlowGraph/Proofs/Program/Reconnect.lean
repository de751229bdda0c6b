import FlowGraph.Proofs.Program.Carried
import FlowGraph.Proofs.Program.Respawn
import FlowGraph.Proofs.Session.Typing

/-! # Making the saved edges again

The restored session mirrors the saved one: its nodes stand for the saved nodes, and the inputs of its
sums have the types that the process of settling gives them. An edge that is tried is made when these
types admit it, and otherwise refused for its type; either way the sessions go on mirroring each other.
-/

namespace FlowGraph
set_option autoImplicit false

namespace Session

/-! ## One connection -/

section Connecting
variable {s t : Session} {p : PlugRef} {r : SocketRef} {c : ConnectorId} {q : Plug}

theorem node?_connect (hne : p.node ≠ r.node) (hq : s.plug? p = some q)
    (ht : s.connect p r = .ok (c, t)) (id : NodeId) :
    t.node? id =
      if id = r.node then (s.node? id).map (·.receive c r.kind r.index q.type)
      else if id = p.node then (s.node? id).map fun n =>
        Node.send { n with frame := { n.frame with dependents := n.frame.dependents ++ [c] } }
          c p.kind p.index
      else s.node? id := by
  obtain ⟨-, rfl, start, style, rfl⟩ := Intact.connect_eq ht
  have hopened (id : NodeId) : (s.addConnector p start start style).2.node? id =
      if id = p.node then (s.node? id).map fun n =>
        { n with frame := { n.frame with dependents := n.frame.dependents ++ [s.ids.connector.1] } }
      else s.node? id := by
    have hfollow := node?_modifyNode { s with ids := s.ids.connector.2 } p.node id fun n =>
      { n with frame := { n.frame with dependents := n.frame.dependents ++ [s.ids.connector.1] } }
    exact hfollow
  have hplug : (s.addConnector p start start style).2.plug? p = some q := by
    obtain ⟨n, hn, hq⟩ := Option.bind_eq_some_iff.1 hq
    rw [plug?, hopened, if_pos rfl, hn]
    obtain ⟨node, kind, index⟩ := p
    cases kind <;> exact hq
  have hconnector : (s.addConnector p start start style).2.connector? s.ids.connector.1 =
      some (.drawnFrom p start start style) := by
    show (s.connectors.put s.ids.connector.1 _).get? s.ids.connector.1 = _
    rw [OrderedMap.get?_put, if_pos rfl]
  unfold link
  rw [hconnector]
  dsimp only
  have hdrawn : (Connector.drawnFrom p start start style).plug = p := rfl
  rw [node?_drawPath, node?_modifyConnector, node?_modifyNode, node?_modifyNode, hdrawn, hplug, hopened]
  by_cases hr : id = r.node
  · have hp : id ≠ p.node := fun hp => hne (hp.symm.trans hr)
    rw [if_neg hp, if_pos hr, if_pos hr, if_neg hp]
    rfl
  · rw [if_neg hr, if_neg hr]
    by_cases hp : id = p.node
    · rw [if_pos hp, if_pos hp, if_pos hp, Option.map_map]
      rfl
    · rw [if_neg hp, if_neg hp, if_neg hp]

/-- What neither end of an edge changes stays as it is. -/
theorem view_connect {α : Type} (view : Node → α) (hne : p.node ≠ r.node) (hq : s.plug? p = some q)
    (ht : s.connect p r = .ok (c, t))
    (hreceive : ∀ n : Node, view (n.receive c r.kind r.index q.type) = view n)
    (hsend : ∀ n : Node, view (Node.send { n with frame :=
      { n.frame with dependents := n.frame.dependents ++ [c] } } c p.kind p.index) = view n)
    (id : NodeId) : (t.node? id).map view = (s.node? id).map view := by
  rw [node?_connect hne hq ht]
  split
  · rw [Option.map_map]
    exact congrArg (Option.map · _) (funext hreceive)
  · split
    · rw [Option.map_map]
      exact congrArg (Option.map · _) (funext hsend)
    · rfl

theorem kind_connect (hne : p.node ≠ r.node) (hq : s.plug? p = some q)
    (ht : s.connect p r = .ok (c, t)) (id : NodeId) :
    (t.node? id).map (·.kind) = (s.node? id).map (·.kind) :=
  view_connect (·.kind) hne hq ht (fun _ => rfl) (fun _ => rfl) id

theorem look_connect (hne : p.node ≠ r.node) (hq : s.plug? p = some q)
    (ht : s.connect p r = .ok (c, t)) (id : NodeId) :
    (t.node? id).map (·.frame.look) = (s.node? id).map (·.frame.look) :=
  view_connect (·.frame.look) hne hq ht (fun n => n.look_receive c _ _ _) (fun _ => Node.look_send _ c _ _) id

/-- The types that a connection changes are those that its arrival changes. -/
theorem typing?_connect (hne : p.node ≠ r.node) (hq : s.plug? p = some q)
    (ht : s.connect p r = .ok (c, t)) (id : NodeId) :
    t.typing? id = (s.modifyNode r.node (·.receive c r.kind r.index q.type)).typing? id := by
  rw [typing?, node?_connect hne hq ht, typing?, node?_modifyNode]
  split
  · rfl
  · split
    · rw [Option.map_map]
      exact congrArg (Option.map · _) (funext fun n => Node.typing_send _ c _ _)
    · rfl

theorem outputs_connect (hne : p.node ≠ r.node) (hq : s.plug? p = some q)
    (ht : s.connect p r = .ok (c, t)) {id : NodeId} {n : Node} (hn : s.node? id = some n)
    (hk : n.kind ≠ .generalAddition) :
    (t.node? id).map (fun m => m.frame.dataPlugs.map (·.type)) =
      some (n.frame.dataPlugs.map (·.type)) := by
  have hfixed : id ≠ r.node ∨ s.adaptive r = false := by
    refine Decidable.or_iff_not_imp_left.2 fun hid => ?_
    rw [adaptive_of_node? (Decidable.not_not.1 hid ▸ hn), NodeKind.adapts, beq_false_of_ne hk,
      Bool.false_and]
  have htyping := (typing?_connect hne hq ht id).trans (typing?_receive hfixed c q.type)
  have hout := congrArg (Option.map fun n : NodeKind × PortTypes => n.2.outputs .data) htyping
  rw [typing?, typing?, hn, Option.map_map] at hout
  exact hout

/-- The socket of a sum takes the type of the plug, and no other socket changes its type. -/
theorem inputs_connect (hne : p.node ≠ r.node) (hq : s.plug? p = some q)
    (ht : s.connect p r = .ok (c, t)) (a : SocketRef) :
    (t.socket? a).map (·.type) =
      if a = r ∧ s.adaptive r then (s.socket? a).map fun _ => q.type else (s.socket? a).map (·.type) := by
  have hin := (inputType?_congr (typing?_connect hne hq ht a.node)).trans
    (inputType?_receive s c r a q.type)
  rw [inputType?, inputType?, Option.map_map] at hin
  exact hin

/-! ## Free sockets -/

/-- Nothing but its type may keep a plug from a free socket. -/
theorem validate_of_free {loose : ConnectorId → Prop} (h : s.wiring.Sound loose) {u : Socket}
    (hq : s.plug? p = some q) (hu : s.socket? r = some u) (hfree : s.wiring.Free p r) :
    s.validate p r = if u.accepts q.type then .ok () else .error (.typeMismatch u.type q.type) := by
  have hlinked : s.isLinked p r = false := by
    rw [isLinked, hq]
    refine List.any_eq_false.2 fun d hd hto => ?_
    obtain ⟨e, he, hplug, -⟩ := ((h.departures p _ (departures_of_plug? hq)).2 d).1 hd
    obtain ⟨k, hk, rfl⟩ := edge_eq_some he
    rw [hk, Option.bind_some] at hto
    have hto' : k.edge.connectedTo = some r := eq_of_beq hto
    exact (hfree.alone d k.edge he hto').2 hplug.symm
  have hidle : (r.kind = .data && u.isConnected) = false := by
    by_cases hk : r.kind = .data
    · have hnone : u.incoming = [] := by
        refine (h.arrivals r _ (arrivals_of_socket? hu)).eq_nil ?_
        rintro d ⟨e, he, hto⟩
        exact (hfree.alone d e he hto).1 hk
      rw [Socket.isConnected, hnone, List.isEmpty_nil, Bool.not_true, Bool.and_false]
    · rw [decide_eq_false hk, Bool.false_and]
  rw [validate_of_ports hq hu, if_neg hfree.node, hlinked, hidle, if_neg Bool.false_ne_true]
  simp only [hfree.kind, ne_eq, not_true_eq_false, decide_false, Bool.false_or]
  cases u.accepts q.type <;> rfl

theorem wiring_connect (ht : s.connect p r = .ok (c, t)) :
    t.wiring = (s.wiring.opened c p).linkedTo c p r := by
  obtain ⟨-, rfl, start, style, rfl⟩ := Intact.connect_eq ht
  have hwiring := s.wiring_addConnector p start start style
  have hedge := s.edge_addConnector p start start style
  rw [wiring_link hedge, hwiring]

/-- An edge that excludes none stays in nobody's way. -/
theorem free_connect (ht : s.connect p r = .ok (c, t)) {p' : PlugRef} {r' : SocketRef}
    (hfree : s.wiring.Free p' r') (hapart : r' = r → r'.kind ≠ .data ∧ p' ≠ p) :
    t.wiring.Free p' r' := by
  rw [wiring_connect ht]
  refine ⟨Wiring.point_isSome.trans hfree.socket, hfree.kind, hfree.node, fun d f hf hr => ?_⟩
  change (if d = c then some _ else if d = c then some _ else s.wiring.edge d) = some f at hf
  by_cases hd : d = c
  · rw [if_pos hd] at hf
    obtain rfl := Option.some.inj hf
    exact hapart (Option.some.inj hr).symm
  · rw [if_neg hd, if_neg hd] at hf
    exact hfree.alone d f hf hr

end Connecting

/-! ## The restored session beside the saved one -/

/-- The nodes of `t` stand for the saved nodes of `s`, and the inputs of its sums have given types. -/
structure Mirrors (s t : Session) (place : NodeId → NodeId) (types : SocketRef → PortType) : Prop where
  intact : t.Intact
  shaped : t.Shaped
  nodes : ∀ id ∈ s.savedNodes, s.Respawned t id (place id)
  inputs : ∀ r u, r.node ∈ s.savedNodes → s.adaptive r = true →
    t.socket? { r with node := place r.node } = some u → u.type = types r

namespace Mirrors
variable {s t : Session} {place : NodeId → NodeId} {types : SocketRef → PortType}

theorem node (h : s.Mirrors t place types) {id : NodeId} {n : Node} (hid : id ∈ s.savedNodes)
    (hn : s.node? id = some n) : ∃ m, t.node? (place id) = some m ∧ m.kind = n.kind := by
  have hkind := (h.nodes id hid).kind
  rw [hn] at hkind
  exact Option.map_eq_some_iff.1 hkind

theorem inputs_eq (h : s.Mirrors t place types) (hs : s.Shaped) {id : NodeId} {n m : Node}
    (hid : id ∈ s.savedNodes) (hn : s.node? id = some n) (hm : t.node? (place id) = some m)
    (hkind : m.kind = n.kind) (hk : n.kind = .generalAddition) :
    m.frame.dataSockets.map (·.type) =
      ((List.range n.frame.dataSockets.length).map fun i => ⟨id, .data, i⟩).map types := by
  have hlength : m.frame.dataSockets.length = n.frame.dataSockets.length := by
    have hnew := (h.shaped _ m hm).length_sockets .data
    rw [hkind, ← (hs id n hn).length_sockets .data] at hnew
    exact hnew
  refine List.ext_getElem ?_ fun i hi hi' => ?_
  · rw [List.length_map, List.length_map, List.length_map, List.length_range, hlength]
  · rw [List.getElem_map, List.getElem_map, List.getElem_map, List.getElem_range]
    have hadaptive : s.adaptive ⟨id, .data, i⟩ = true := by
      rw [adaptive_of_node? hn, hk]
      rfl
    refine h.inputs ⟨id, .data, i⟩ _ hid hadaptive ?_
    rw [socket?, hm]
    exact List.getElem?_eq_getElem _

/-- A restored plug has the type that the process of settling gives it. -/
theorem plug (h : s.Mirrors t place types) (hs : s.Shaped) {p : PlugRef} {q : Plug}
    (hp : p.node ∈ s.savedNodes) (hq : s.plug? p = some q) :
    ∃ q', t.plug? { p with node := place p.node } = some q' ∧ q'.type = s.restoredType types p := by
  obtain ⟨n, hn, hq⟩ := Option.bind_eq_some_iff.1 hq
  obtain ⟨m, hm, hkind⟩ := h.node hp hn
  have hfixed : (m.frame.plugs p.kind)[p.index]?.map (n.kind.fixedType p.kind) =
      some (n.kind.fixedType p.kind q) := by
    have hnew := (h.shaped _ m hm).plugs p.kind
    have hold := (hs _ n hn).plugs p.kind
    rw [hkind] at hnew
    rw [← List.getElem?_map, hnew, ← hold, List.getElem?_map]
    exact congrArg (Option.map _) hq
  obtain ⟨q', hq', htype⟩ := Option.map_eq_some_iff.1 hfixed
  refine ⟨q', ?_, ?_⟩
  · rw [plug?, hm]
    exact hq'
  · unfold restoredType
    rw [hn]
    dsimp only
    have hin := List.mem_of_getElem? hq'
    split
    · rename_i hk hport
      have hsum := (h.shaped _ m hm).sum (hkind.trans hk)
      have htypes := h.inputs_eq hs hp hn hm hkind hk
      rw [hport] at hin
      have hmem : q'.type ∈ (PortType.highest? (m.frame.dataSockets.map (·.type))).toList := by
        rw [← hsum]
        exact List.mem_map_of_mem hin
      rw [htypes, Option.mem_toList] at hmem
      rw [hmem]
      rfl
    · rename_i hk hport
      have hreader := (h.nodes _ hp).reader n hn hk
      rw [hm] at hreader
      have hlist : m.frame.dataPlugs.map (·.type) = [s.namedType n] := Option.some.inj hreader
      rw [hport] at hin
      have hmem := List.mem_map_of_mem (f := fun p : Plug => p.type) hin
      rw [show (m.frame.plugs .data).map (·.type) = [s.namedType n] from hlist] at hmem
      exact List.mem_singleton.1 hmem
    · rename_i hsum hread
      have hderives : n.kind.derives p.kind = false := by
        unfold NodeKind.derives
        cases hport : p.kind with
        | flow => rw [Bool.and_comm]; rfl
        | data =>
          rw [beq_false_of_ne fun hk => hsum hk hport, beq_false_of_ne fun hk => hread hk hport]
          rfl
      rw [NodeKind.fixedType, NodeKind.fixedType, hderives, if_neg Bool.false_ne_true,
        if_neg Bool.false_ne_true] at htype
      rw [Frame.plug?, show (n.frame.plugs p.kind)[p.index]? = some q from hq]
      exact htype

/-- A restored socket to which nothing is connected has the type that its kind gives it. -/
theorem socket (h : s.Mirrors t place types) (hs : s.Shaped) {r : SocketRef} {u : Socket}
    (hr : r.node ∈ s.savedNodes) (hu : s.socket? r = some u) :
    ∃ u', t.socket? { r with node := place r.node } = some u' ∧
      ((r.kind = .data → u'.incoming = []) → ∀ type, u'.accepts type = (s.openType r).accepts type) := by
  obtain ⟨n, hn, hu⟩ := Option.bind_eq_some_iff.1 hu
  obtain ⟨m, hm, hkind⟩ := h.node hr hn
  have hshape := h.shaped _ m hm
  have hbare : (m.frame.sockets r.kind)[r.index]?.map (n.kind.bareType r.kind) =
      some (n.kind.bareType r.kind u) := by
    have hnew := hshape.sockets r.kind
    have hold := (hs _ n hn).sockets r.kind
    rw [hkind] at hnew
    rw [← List.getElem?_map, hnew, ← hold, List.getElem?_map]
    exact congrArg (Option.map _) hu
  obtain ⟨u', hu', htype⟩ := Option.map_eq_some_iff.1 hbare
  have hopen : s.openType r = n.kind.bareType r.kind u' := by
    rw [openType, hn, Option.bind_some, hu, Option.map_some, htype]
    rfl
  refine ⟨u', ?_, fun hidle type => ?_⟩
  · rw [socket?, hm]
    exact hu'
  · have hown : u'.type = n.kind.bareType r.kind u' := by
      unfold NodeKind.bareType
      split
      · rename_i hadapts
        rw [← hkind] at hadapts
        exact hshape.idle r.kind r.index u' hu' hadapts (hidle (NodeKind.adapts_iff.1 hadapts).2)
      · rfl
    have hplain := hshape.plain r.kind u' (List.mem_of_getElem? hu')
    rw [Socket.accepts, hplain, hopen, ← hown, List.contains_nil, Bool.and_false, Bool.or_false]

end Mirrors

/-! ## Trying one edge -/

/-- An edge between ports of saved nodes. -/
structure Saves (s : Session) (e : PendingEdge) : Prop where
  source : e.plug.node ∈ s.savedNodes
  target : e.socket.node ∈ s.savedNodes
  plug : (s.plug? e.plug).isSome
  socket : (s.socket? e.socket).isSome

theorem saves_of_target {s : Session} (h : s.Intact) {e : PendingEdge} (he : e ∈ s.savedEdges)
    (htarget : e.socket.node ∈ s.savedNodes) : s.Saves e := by
  obtain ⟨hsource, c, k, hk, hplug, hsocket⟩ := (mem_savedEdges h).1 he
  exact ⟨hsource, htarget, hplug ▸ live_plug h hk, live_socket h hk hsocket⟩

theorem saves_of_saved {s : Session} (h : s.Intact)
    (hall : ∀ id, (s.node? id).isSome → id ∈ s.savedNodes) {e : PendingEdge} (he : e ∈ s.savedEdges) :
    s.Saves e :=
  saves_of_target h he (hall _ (target_of_saved h he))

theorem connect_of_validate {s : Session} {p : PlugRef} {r : SocketRef} (h : s.validate p r = .ok ()) :
    ∃ c t, s.connect p r = .ok (c, t) := by
  unfold connect
  rw [h]
  exact ⟨_, _, rfl⟩

theorem connect_of_refused {s : Session} {p : PlugRef} {r : SocketRef} {e : ConnectionError}
    (h : s.validate p r = .error e) : s.connect p r = .error e := by
  unfold connect
  rw [h]

section Trying
variable {s t : Session} {place : NodeId → NodeId} {types : SocketRef → PortType}

/-- The saved edge is tried between ports that nothing but their types keeps apart. -/
theorem Mirrors.validate (h : s.Mirrors t place types) (hs : s.Shaped) {e : PendingEdge} (he : s.Saves e)
    (hfree : t.wiring.Free (e.carry place).plug (e.carry place).socket) :
    ∃ q u, t.plug? (e.carry place).plug = some q ∧ q.type = s.restoredType types e.plug ∧
      t.validate (e.carry place).plug (e.carry place).socket =
        if s.takes types e then .ok () else .error (.typeMismatch u q.type) := by
  obtain ⟨p, hp⟩ := Option.isSome_iff_exists.1 he.plug
  obtain ⟨r, hr⟩ := Option.isSome_iff_exists.1 he.socket
  obtain ⟨q, hq, htype⟩ := h.plug hs he.source hp
  obtain ⟨u, hu, haccepts⟩ := h.socket hs he.target hr
  have hidle : e.socket.kind = .data → u.incoming = [] := by
    intro hdata
    refine (h.intact.tied.sound.arrivals _ _ (arrivals_of_socket? hu)).eq_nil ?_
    rintro d ⟨f, hf, hto⟩
    exact (hfree.alone d f hf hto).1 hdata
  have hvalid := validate_of_free h.intact.tied.sound hq hu hfree
  rw [haccepts hidle, htype] at hvalid
  refine ⟨q, u.type, hq, htype, ?_⟩
  rw [htype]
  exact hvalid

/-- An edge that can be made is made, and settles the types of its sum. -/
theorem Mirrors.made (h : s.Mirrors t place types)
    (hplace : ∀ id ∈ s.savedNodes, ∀ id' ∈ s.savedNodes, place id = place id' → id = id')
    {e : PendingEdge} (he : s.Saves e) (htakes : s.takes types e = true) {q : Plug}
    (hq : t.plug? (e.carry place).plug = some q) (htype : q.type = s.restoredType types e.plug)
    {c : ConnectorId} {t' : Session}
    (ht : t.connect (e.carry place).plug (e.carry place).socket = .ok (c, t')) :
    s.Mirrors t' place (s.settle types e) := by
  have hvalid := (Intact.connect_eq ht).1
  have hne := (free_of_validate h.intact.tied.sound hvalid).2.node
  refine ⟨h.intact.connect ht, h.shaped.move (.connect ht), fun id hid => ?_, fun r u hr ha hu => ?_⟩
  · refine ⟨(kind_connect hne hq ht _).trans (h.nodes id hid).kind, fun n hn hk => ?_,
      (look_connect hne hq ht _).trans (h.nodes id hid).look⟩
    obtain ⟨m, hm, hkind⟩ := h.node hid hn
    have hread : m.kind ≠ .generalAddition := by
      rw [hkind, hk]
      exact fun h => by cases h
    have hreader := (h.nodes id hid).reader n hn hk
    rw [hm] at hreader
    rw [outputs_connect hne hq ht hm hread]
    exact hreader
  · have hsame : t.adaptive (e.carry place).socket = s.adaptive e.socket :=
      (h.nodes _ he.target).adaptive
    have hnew := inputs_connect hne hq ht { r with node := place r.node }
    rw [hu, hsame] at hnew
    by_cases hat : r = e.socket
    · subst hat
      rw [if_pos ⟨rfl, ha⟩] at hnew
      obtain ⟨-, -, hold⟩ := Option.map_eq_some_iff.1 hnew.symm
      unfold settle
      rw [htakes, ha, Bool.and_self, if_pos rfl, if_pos rfl, ← htype]
      exact hold.symm
    · have hmoved : ({ r with node := place r.node } : SocketRef) ≠ (e.carry place).socket :=
        fun hcarry => hat (SocketRef.eq_of_moved (hplace _ hr _ he.target) hcarry)
      rw [if_neg fun h => hmoved h.1] at hnew
      obtain ⟨v, hv, hold⟩ := Option.map_eq_some_iff.1 hnew.symm
      have hkept : s.settle types e r = types r := by
        unfold settle
        split
        · exact if_neg hat
        · rfl
      have hv' : v.type = types r := h.inputs r v hr ha hv
      rw [hkept, ← hv']
      exact hold.symm

/-- What is made leaves the way free for the edges that it does not exclude. -/
theorem free_carry (hplace : ∀ id ∈ s.savedNodes, ∀ id' ∈ s.savedNodes, place id = place id' → id = id')
    {e f : PendingEdge} (he : s.Saves e) (hf : s.Saves f) (ha : e.Apart f) {c : ConnectorId} {t' : Session}
    (ht : t.connect (e.carry place).plug (e.carry place).socket = .ok (c, t'))
    (hfree : t.wiring.Free (f.carry place).plug (f.carry place).socket) :
    t'.wiring.Free (f.carry place).plug (f.carry place).socket := by
  refine free_connect ht hfree fun hsocket => ?_
  have hsame := SocketRef.eq_of_moved (hplace _ hf.target _ he.target) hsocket
  obtain ⟨hkind, hplug⟩ := ha.symm hsame
  exact ⟨hkind, fun hcarry => hplug (PlugRef.eq_of_moved (hplace _ hf.source _ he.source) hcarry)⟩

/-! ## Trying all edges -/

/-- A round makes the edges that can be made and refuses the others for their types. -/
theorem Mirrors.round (hs : s.Shaped)
    (hplace : ∀ id ∈ s.savedNodes, ∀ id' ∈ s.savedNodes, place id = place id' → id = id')
    {es : List PendingEdge} (h : s.Mirrors t place types) (hsaves : ∀ e ∈ es, s.Saves e)
    (hfree : ∀ e ∈ es, t.wiring.Free (e.carry place).plug (e.carry place).socket)
    (hapart : es.Pairwise PendingEdge.Apart) :
    ∃ t', Restore.connectEach t (es.map (·.carry place)) =
        ⟨t', (s.refusedBy types es).map (·.carry place), 0⟩ ∧
      s.Mirrors t' place (s.settleAll types es) ∧
      ∀ f, s.Saves f → (∀ e ∈ es, e.Apart f) ∨ f ∈ s.refusedBy types es →
        t.wiring.Free (f.carry place).plug (f.carry place).socket →
          t'.wiring.Free (f.carry place).plug (f.carry place).socket := by
  induction es generalizing t types with
  | nil => exact ⟨t, rfl, h, fun f _ _ hf => hf⟩
  | cons e rest ih =>
    obtain ⟨hhead, htail⟩ := List.pairwise_cons.1 hapart
    have he := hsaves e List.mem_cons_self
    have hrest (f : PendingEdge) (hf : f ∈ rest) : s.Saves f := hsaves f (List.mem_cons_of_mem _ hf)
    obtain ⟨q, u, hq, htype, hvalid⟩ := h.validate hs he (hfree e List.mem_cons_self)
    cases htakes : s.takes types e with
    | true =>
      rw [htakes, if_pos rfl] at hvalid
      obtain ⟨c, t₁, ht⟩ := connect_of_validate hvalid
      have hmade := h.made hplace he htakes hq htype ht
      have hstill (f : PendingEdge) (hf : f ∈ rest) :
          t₁.wiring.Free (f.carry place).plug (f.carry place).socket :=
        free_carry hplace he (hrest f hf) (hhead f hf) ht (hfree f (List.mem_cons_of_mem _ hf))
      obtain ⟨t', hround, hmirror, hfrees⟩ := ih hmade hrest hstill htail
      have hrefused : s.refusedBy types (e :: rest) = s.refusedBy (s.settle types e) rest := by
        rw [refusedBy, if_pos htakes]
      refine ⟨t', ?_, hmirror, fun f hf hout hold => ?_⟩
      · rw [List.map_cons, Restore.connectEach, ht, hrefused]
        exact hround
      · rw [hrefused] at hout
        have ha : e.Apart f := by
          obtain ha | hin := hout
          · exact ha e List.mem_cons_self
          · exact hhead f ((refusedBy_sublist s _ rest).subset hin)
        refine hfrees f hf ?_ (free_carry hplace he hf ha ht hold)
        exact hout.imp_left fun ha e he => ha e (List.mem_cons_of_mem _ he)
    | false =>
      rw [htakes, if_neg Bool.false_ne_true] at hvalid
      have hrefuse := connect_of_refused hvalid
      have hsame := settle_of_refused htakes
      obtain ⟨t', hround, hmirror, hfrees⟩ := ih h hrest
        (fun f hf => hfree f (List.mem_cons_of_mem _ hf)) htail
      have hrefused : s.refusedBy types (e :: rest) = e :: s.refusedBy types rest := by
        rw [refusedBy, htakes, if_neg Bool.false_ne_true]
      have hfinal : s.settleAll types (e :: rest) = s.settleAll types rest :=
        congrArg (s.settleAll · rest) hsame
      refine ⟨t', ?_, ?_, fun f hf hout hold => ?_⟩
      · rw [List.map_cons, Restore.connectEach, hrefuse, hround, hrefused]
        rfl
      · rw [hfinal]
        exact hmirror
      · refine hfrees f hf ?_ hold
        rw [hrefused] at hout
        obtain ha | hin := hout
        · exact Or.inl fun g hg => ha g (List.mem_cons_of_mem _ hg)
        · obtain rfl | hin := List.mem_cons.1 hin
          · exact Or.inl fun g hg => (hhead g hg).symm
          · exact Or.inr hin

end Trying
end Session
end FlowGraph
