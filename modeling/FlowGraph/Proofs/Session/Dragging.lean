import FlowGraph.Proofs.Node.Rest
import FlowGraph.Proofs.Session.Candidates
import FlowGraph.Proofs.Session.Fitting

/-! # What a drag refers to

A drag remembers the sockets in reach when it started, while nodes go, get other ports and are connected
under it. It nevertheless refers only to sockets that are there, and the only socket drawn larger is the one
that it would snap to.
-/

namespace FlowGraph
set_option autoImplicit false

def Drag.sockets (d : Drag) : List SocketRef := d.candidates.map (·.socket)

/-- The drag refers only to sockets that its plug might be connected to, and to each of them once. -/
structure Drag.Aims (d : Drag) (s : Session) : Prop where
  reach : ∀ r ∈ d.sockets, (s.socket? r).isSome ∧ r.kind = d.plug.kind ∧ r.node ≠ d.plug.node
  once : d.sockets.Nodup
  snap : ∀ r, d.snap = some r → r ∈ d.sockets

theorem Drag.Aims.of_sockets {d : Drag} {s t : Session} (h : d.Aims s)
    (hlive : ∀ r ∈ d.sockets, (s.socket? r).isSome → (t.socket? r).isSome) : d.Aims t :=
  ⟨fun r hr => ⟨hlive r hr (h.reach r hr).1, (h.reach r hr).2⟩, h.once, h.snap⟩

/-- The drag is up to date: its connector is loose on its plug, and every socket that it remembers is
there. -/
structure Drag.Current (d : Drag) (s : Session) : Prop where
  connector : ∃ k, s.connector? d.connector = some k ∧ k.state = .dragging ∧ k.connectedTo = none ∧
    k.plug = d.plug
  plug : (s.node? d.plug.node).isSome
  candidates : ∀ c ∈ d.candidates, (s.node? c.socket.node).isSome ∧ (s.socket? c.socket).isSome ∧
    c.socket.kind = d.plug.kind ∧ c.socket.node ≠ d.plug.node
  once : (d.candidates.map (·.socket)).Nodup
  snap : ∀ r, d.snap = some r → ∃ c ∈ d.candidates, c.socket = r

namespace Session

/-! ## Enlarged sockets -/

/-- The socket is there, and it is not drawn with its radius at rest. -/
def Enlarged (s : Session) (r : SocketRef) : Prop := ∃ t, s.socket? r = some t ∧ t.radius ≠ t.restRadius

section Enlarging
variable {s t : Session} {q r : SocketRef}

theorem enlarged_iff : s.Enlarged r ↔ ∃ n, s.node? r.node = some n ∧ n.frame.Enlarged r.kind r.index := by
  constructor
  · rintro ⟨t, ht, hradius⟩
    obtain ⟨n, hn, ht⟩ := Option.bind_eq_some_iff.1 ht
    exact ⟨n, hn, t, ht, hradius⟩
  · rintro ⟨n, hn, t, ht, hradius⟩
    exact ⟨t, Option.bind_eq_some_iff.2 ⟨n, hn, ht⟩, hradius⟩

theorem enlarged_of_nodes (h : ∀ id, t.node? id = s.node? id) : t.Enlarged r ↔ s.Enlarged r := by
  rw [enlarged_iff, enlarged_iff, h]

/-- An enlarged socket was enlarged before, unless its node has changed. -/
theorem enlarged_modifyNode {id : NodeId} {f : Node → Node} (h : (s.modifyNode id f).Enlarged r) :
    (r.node = id ∧ ∃ n, s.node? id = some n ∧ (f n).frame.Enlarged r.kind r.index) ∨
      r.node ≠ id ∧ s.Enlarged r := by
  obtain ⟨m, hm, hlarge⟩ := enlarged_iff.1 h
  rw [node?_modifyNode] at hm
  split at hm
  · rename_i hid
    obtain ⟨n, hn, rfl⟩ := Option.map_eq_some_iff.1 hm
    exact Or.inl ⟨hid, n, hid ▸ hn, hlarge⟩
  · rename_i hid
    exact Or.inr ⟨hid, enlarged_iff.2 ⟨m, hm, hlarge⟩⟩

theorem enlarged_of_modifyNode {id : NodeId} {f : Node → Node}
    (hf : ∀ n, s.node? id = some n → (f n).frame.Enlarged r.kind r.index → n.frame.Enlarged r.kind r.index)
    (h : (s.modifyNode id f).Enlarged r) : s.Enlarged r := by
  obtain ⟨rfl, n, hn, hlarge⟩ | ⟨-, hold⟩ := enlarged_modifyNode h
  · exact enlarged_iff.2 ⟨n, hn, hf n hn hlarge⟩
  · exact hold

/-- A change of one socket leaves the others as they were. -/
theorem enlarged_elsewhere {G : Socket → Socket}
    (h : (s.modifyFrame q.node fun f => f.modifySocket q.kind q.index G).Enlarged r) (hne : r ≠ q) :
    s.Enlarged r := by
  obtain ⟨hnode, n, hn, hlarge⟩ | ⟨-, hold⟩ := enlarged_modifyNode h
  · obtain ⟨hkind, hindex, -⟩ | ⟨-, hold⟩ := Frame.enlarged_modifySocket hlarge
    · exact absurd (SocketRef.ext hnode hkind hindex) hne
    · exact enlarged_iff.2 ⟨n, hnode ▸ hn, hold⟩
  · exact hold

theorem enlarged_setRadius {radius : Float} (h : (s.setRadius q radius).Enlarged r) :
    r = q ∨ s.Enlarged r :=
  Decidable.or_iff_not_imp_left.2 (enlarged_elsewhere h)

theorem enlarged_resetRadius (h : (s.resetRadius q).Enlarged r) : r ≠ q ∧ s.Enlarged r := by
  have hne : r ≠ q := by
    intro heq
    rw [heq] at h
    obtain ⟨-, n, -, hlarge⟩ | ⟨hnode, -⟩ := enlarged_modifyNode h
    · obtain ⟨-, -, t, -, hradius⟩ | ⟨hother, -⟩ := Frame.enlarged_modifySocket hlarge
      · exact hradius rfl
      · exact hother ⟨rfl, rfl⟩
    · exact hnode rfl
  exact ⟨hne, enlarged_elsewhere h hne⟩

theorem enlarged_resetRadius? {q : Option SocketRef} (h : (s.resetRadius? q).Enlarged r) :
    q ≠ some r ∧ s.Enlarged r := by
  cases q with
  | none => exact ⟨nofun, h⟩
  | some q =>
    obtain ⟨hne, hold⟩ := enlarged_resetRadius h
    exact ⟨fun heq => hne (Option.some.inj heq).symm, hold⟩

end Enlarging

/-! ## Calm changes -/

/-- The second session drags as the first one does, still has its nodes, and has enlarged no socket. -/
structure Calm (s t : Session) : Prop where
  drag : t.drag = s.drag
  kinds : ∀ id k, s.kindOf id = some k → t.kindOf id = some k
  rest : ∀ r, t.Enlarged r → s.Enlarged r

namespace Calm
variable {s t u : Session}

theorem trans (h : s.Calm t) (h' : t.Calm u) : s.Calm u :=
  ⟨h'.drag.trans h.drag, fun id k hk => h'.kinds id k (h.kinds id k hk), fun r hr => h.rest r (h'.rest r hr)⟩

theorem of_nodes (hd : t.drag = s.drag) (hn : ∀ id, t.node? id = s.node? id) : s.Calm t := by
  refine ⟨hd, fun id k hk => ?_, fun r => (enlarged_of_nodes hn).1⟩
  rw [kindOf, hn]
  exact hk

theorem refl (s : Session) : s.Calm s := of_nodes rfl fun _ => rfl

end Calm

section Changes
variable (s : Session)

theorem calm_modifyNode (id : NodeId) (f : Node → Node) (hkind : ∀ n, (f n).kind = n.kind)
    (hf : ∀ n port index, (f n).frame.Enlarged port index → n.frame.Enlarged port index) :
    s.Calm (s.modifyNode id f) :=
  ⟨rfl, fun m _ hk => (s.kinds_modifyNode id f hkind m).trans hk,
    fun _ => enlarged_of_modifyNode fun n _ => hf n _ _⟩

theorem calm_modifyFrame (id : NodeId) (f : Frame → Frame)
    (hf : ∀ g port index, (f g).Enlarged port index → g.Enlarged port index) : s.Calm (s.modifyFrame id f) :=
  s.calm_modifyNode id _ (fun _ => rfl) fun n => hf n.frame

theorem calm_modifyConnector (c : ConnectorId) (f : Connector → Connector) :
    s.Calm (s.modifyConnector c f) := .of_nodes rfl fun _ => rfl

theorem calm_draw (call : DrawCall) : s.Calm (s.draw call) := .of_nodes rfl fun _ => rfl

theorem calm_drawPath (c : ConnectorId) : s.Calm (s.drawPath c) := by
  refine .of_nodes ?_ (s.node?_drawPath c)
  unfold drawPath
  split <;> rfl

theorem drag_foldl {α : Type} (f : Session → α → Session) (hf : ∀ s a, (f s a).drag = s.drag) (l : List α) :
    (l.foldl f s).drag = s.drag :=
  List.foldlRecOn (motive := fun t => t.drag = s.drag) l f rfl fun t ht a _ => (hf t a).trans ht

theorem calm_emitMove (id : NodeId) : s.Calm (s.emitMove id) := by
  refine .of_nodes ?_ (s.node?_emitMove id)
  unfold emitMove
  split
  · refine s.drag_foldl _ (fun s c => ?_) _
    exact (s.modifyConnector c _).calm_drawPath c |>.drag
  · rfl

theorem calm_moveNode (id : NodeId) (position : Point) : s.Calm (s.moveNode id position) := by
  unfold moveNode
  split
  · have hplace := s.calm_modifyFrame id
      (fun f => { f with position := position, positioned := true })
      fun _ _ _ => (Frame.enlarged_of_sockets rfl).1
    exact hplace.trans ((calm_draw _ _).trans (calm_emitMove _ id))
  · exact .refl s

theorem calm_setScale (id : NodeId) (scale : Scalar) : s.Calm (s.setScale id scale) := by
  unfold setScale
  split
  · have hscale := s.calm_modifyFrame id (fun f => { f with scale := scale })
      fun _ _ _ => (Frame.enlarged_of_sockets rfl).1
    exact hscale.trans ((calm_draw _ _).trans (calm_emitMove _ id))
  · exact .refl s

theorem calm_bringToFront (id : NodeId) : s.Calm (s.bringToFront id) := by
  unfold bringToFront
  split
  · exact .refl s
  · refine .of_nodes (drag_foldl _ raiseConnector (fun _ _ => rfl) _) fun n => ?_
    rw [node?_foldl _ raiseConnector fun _ _ _ => rfl]
    exact s.nodes.get?_raise id n

theorem calm_setStyle (style : ConnectorStyle) : s.Calm (s.setStyle style) := by
  unfold setStyle
  refine Calm.trans (t := { s with
    settings := { s.settings with connectorStyle := style }
    nodes := s.nodes.mapValues (restyle style)
    connectors := s.connectors.mapValues fun c => { c with style := style } }) ⟨rfl, ?_, ?_⟩ ?_
  · intro id k hk
    obtain ⟨n, hn, rfl⟩ := Option.map_eq_some_iff.1 hk
    show ((s.nodes.mapValues (restyle style)).get? id).map (·.kind) = some n.kind
    rw [OrderedMap.get?_mapValues, show s.nodes.get? id = some n from hn]
    rfl
  · intro r hr
    obtain ⟨n, hn, hlarge⟩ := enlarged_iff.1 hr
    change (s.nodes.mapValues (restyle style)).get? r.node = some n at hn
    rw [OrderedMap.get?_mapValues] at hn
    obtain ⟨m, hm, rfl⟩ := Option.map_eq_some_iff.1 hn
    refine enlarged_iff.2 ⟨m, hm, (Frame.enlarged_of_sockets ?_).1 hlarge⟩
    rfl
  · exact .of_nodes (drag_foldl _ drawPath (fun s c => (s.calm_drawPath c).drag) _)
      (node?_foldl _ drawPath (fun s c n => s.node?_drawPath c n) _)

theorem calm_setValue (r : SocketRef) (value : Option Literal) : s.Calm (s.setValue r value).2 := by
  unfold setValue
  split
  · refine s.calm_modifyNode r.node _ (fun _ => rfl) fun n port index h => ?_
    have hset := (NodeKind.enlarged_valueChanged _ _).1 h
    refine Frame.enlarged_of_modifySocket (fun t ht => ?_) hset
    exact ht
  · exact .refl s

theorem calm_registerVariable (name : String) (type : PortType) : s.Calm (s.registerVariable name type).2 := by
  unfold registerVariable
  split
  · exact .refl s
  · exact .of_nodes rfl fun _ => rfl

theorem calm_addConnector (p : PlugRef) (start stop : Point) (style : ConnectorStyle) :
    s.Calm (s.addConnector p start stop style).2 := by
  refine Calm.trans (t := { s with ids := s.ids.connector.2 }) (.of_nodes rfl fun _ => rfl) ?_
  have hdepend := calm_modifyFrame { s with ids := s.ids.connector.2 } p.node
    (fun f => { f with dependents := f.dependents ++ [s.ids.connector.1] })
    fun _ _ _ => (Frame.enlarged_of_sockets rfl).1
  exact hdepend.trans (.of_nodes rfl fun _ => rfl)

theorem calm_link (c : ConnectorId) (r : SocketRef) : s.Calm (s.link c r) := by
  unfold link
  split
  · exact .refl s
  · refine Calm.trans ?_ (calm_drawPath _ c)
    refine Calm.trans ?_ (calm_modifyConnector _ c _)
    refine (s.calm_modifyNode r.node _ ?_ ?_).trans (calm_modifyNode _ _ _ ?_ ?_)
    · exact fun _ => rfl
    · exact fun _ _ _ => Node.enlarged_receive
    · exact fun _ => rfl
    · exact fun _ _ _ => Node.enlarged_send.1

theorem calm_detachSocket (c : ConnectorId) : s.Calm (s.detachSocket c) := by
  unfold detachSocket
  split
  · exact .refl s
  · refine (s.calm_modifyConnector c _).trans (calm_modifyNode _ _ _ ?_ ?_)
    · exact fun _ => rfl
    · exact fun _ _ _ => Node.enlarged_release

theorem calm_destroyConnector (c : ConnectorId) : s.Calm (s.destroyConnector c) := by
  unfold destroyConnector
  split
  · exact .refl s
  · refine Calm.trans (t := { s with connectors := s.connectors.erase c }) (.of_nodes rfl fun _ => rfl) ?_
    refine (calm_modifyNode _ _ _ ?_ ?_).trans (calm_draw _ _)
    · exact fun _ => rfl
    · exact fun _ _ _ => Node.enlarged_withdraw.1

theorem calm_pickUp (c : ConnectorId) (p : PlugRef) (pointer : Point) : s.Calm (s.pickUp c p pointer) := by
  refine Calm.trans ?_ (calm_drawPath _ c)
  refine Calm.trans ?_ (calm_modifyConnector _ c _)
  exact (s.calm_detachSocket c).trans
    (calm_modifyFrame _ p.node _ fun _ _ _ => (Frame.enlarged_modifyPlug _ _ _).1)

theorem calm_relayPorts (id : NodeId) (variant : Variant) : s.Calm (s.relayPorts id variant) :=
  s.calm_modifyFrame id _ fun f port index h =>
    have hlaid : (f.layVariantPorts variant s.settings.connectorStyle).Enlarged port index :=
      (Frame.enlarged_of_sockets rfl).1 h
    Frame.enlarged_layVariantPorts hlaid

variable {s}

theorem calm_spawn (h : s.Intact) (kind : NodeKind) (position : Point) (scale : Scalar) :
    s.Calm (s.spawn kind position scale).2 := by
  have hfresh : s.node? s.ids.node.1 = none := Option.map_eq_none_iff.1 h.tied.followers_fresh
  have hnode (id : NodeId) : (s.spawn kind position scale).2.node? id = if id = s.ids.node.1 then
      some ⟨kind, kind.freshFrame position scale s.settings.connectorStyle⟩ else s.node? id :=
    s.nodes.get?_put s.ids.node.1 id _
  refine ⟨rfl, fun id k hk => ?_, fun r hr => ?_⟩
  · rw [kindOf, hnode, if_neg]
    · exact hk
    · rintro rfl
      rw [kindOf, hfresh] at hk
      cases hk
  · obtain ⟨n, hn, hlarge⟩ := enlarged_iff.1 hr
    rw [hnode] at hn
    split at hn
    · obtain rfl := Option.some.inj hn
      exact absurd hlarge (kind.not_enlarged_freshFrame _ _ _ _ _)
    · exact enlarged_iff.2 ⟨n, hn, hlarge⟩

end Changes

/-! ## The sockets of a drag -/

/-- Whether a socket is there depends on the kind of its node only. -/
theorem socket?_isSome_iff {s : Session} (hs : s.Shaped) {r : SocketRef} : (s.socket? r).isSome ↔
    ∃ k, s.kindOf r.node = some k ∧ r.index < (k.socketTypes r.kind).length := by
  rw [socket?, kindOf]
  cases hn : s.node? r.node with
  | none => simp
  | some n => simp [Frame.socket?, (hs _ n hn).length_sockets]

/-! ## Starting and ending a drag -/

/-- The drag is aimed at sockets that are there, and only the one it would snap to is enlarged. -/
structure Aimed (s : Session) : Prop where
  aims : ∀ d, s.drag = some d → d.Aims s
  rest : ∀ r, s.Enlarged r → s.snapTarget? = some r

theorem aimed_of_idle {s : Session} (hd : s.drag = none) (hrest : ∀ r, ¬s.Enlarged r) : s.Aimed :=
  ⟨fun _ h => (nomatch hd.symm.trans h), fun r h => absurd h (hrest r)⟩

namespace Aimed
variable {s t : Session}

theorem not_enlarged_of_idle (h : s.Aimed) (hd : s.drag = none) (r : SocketRef) : ¬s.Enlarged r := by
  intro hlarge
  have htarget := h.rest r hlarge
  rw [snapTarget?, hd] at htarget
  cases htarget

theorem calm (h : s.Aimed) (hs : s.Shaped) (ht : t.Shaped) (hc : s.Calm t) : t.Aimed := by
  refine ⟨fun d hd => ?_, fun r hr => ?_⟩
  · rw [hc.drag] at hd
    refine (h.aims d hd).of_sockets fun r _ hr => ?_
    obtain ⟨k, hk, hindex⟩ := (socket?_isSome_iff hs).1 hr
    exact (socket?_isSome_iff ht).2 ⟨k, hc.kinds _ k hk, hindex⟩
  · rw [snapTarget?, hc.drag]
    exact h.rest r (hc.rest r hr)

/-- A drag that starts is aimed at what its plug may be connected to now. -/
theorem start (h : s.Aimed) (hd : s.drag = none) (hc : s.Calm t) (hn : t.nodes.keys.Nodup)
    (c : ConnectorId) (p : PlugRef) : Aimed { t with drag := some ⟨c, p, t.candidatesFor p, none⟩ } := by
  refine ⟨fun d hd => ?_, fun r hr => absurd (hc.rest r hr) (h.not_enlarged_of_idle hd r)⟩
  obtain rfl := Option.some.inj hd
  have hsockets : Drag.sockets ⟨c, p, t.candidatesFor p, none⟩ = t.candidateSockets p :=
    sockets_candidatesFor hn p
  refine ⟨fun r hr => ?_, ?_, nofun⟩
  · rw [hsockets, mem_candidateSockets hn, validate_eq_ok] at hr
    obtain ⟨-, u, -, hu, hnode, hkind, -⟩ := hr
    exact ⟨Option.isSome_of_eq_some hu, hkind.symm, hnode.symm⟩
  · rw [hsockets]
    exact nodup_candidateSockets hn p

/-- At the end of a drag its target is put to rest, and with it the last enlarged socket. -/
theorem at_rest (h : s.Aimed) {d : Drag} (hd : s.drag = some d) (r : SocketRef) :
    ¬({ s with drag := none }.resetRadius? d.snap).Enlarged r := by
  intro hlarge
  obtain ⟨hne, hold⟩ := enlarged_resetRadius? hlarge
  have htarget := h.rest r hold
  rw [snapTarget?, hd] at htarget
  exact hne htarget

theorem discardDrag (h : s.Aimed) {d : Drag} (hd : s.drag = some d) : (s.discardDrag d).Aimed := by
  have hcalm := calm_destroyConnector ({ s with drag := none }.resetRadius? d.snap) d.connector
  refine aimed_of_idle (hcalm.drag.trans ?_) fun r hr => h.at_rest hd r (hcalm.rest r hr)
  cases d.snap <;> rfl

theorem release (h : s.Aimed) {d : Drag} {r : SocketRef} (hd : s.drag = some d) (hr : d.snap = some r) :
    (({ s with drag := none }.resetRadius r).link d.connector r).Aimed := by
  have hcalm := calm_link ({ s with drag := none }.resetRadius r) d.connector r
  refine aimed_of_idle hcalm.drag fun q hq => h.at_rest hd q ?_
  rw [hr]
  exact hcalm.rest q hq

/-! ## Moving the pointer -/

theorem perm_rankBy (pointer : Point) (cs : List Candidate) :
    ((Candidate.rankBy pointer cs).map (·.socket)).Perm (cs.map (·.socket)) := by
  refine ((List.mergeSort_perm _ _).map _).trans ?_
  rw [List.map_map]
  exact .refl _

theorem mem_of_snapFor {d : Drag} {cs : List Candidate} {r : SocketRef} (h : s.snapFor d cs = some r) :
    r ∈ cs.map (·.socket) := by
  obtain ⟨c, hc, rfl⟩ := Option.map_eq_some_iff.1 h
  exact List.mem_map_of_mem (List.mem_of_mem_head? (Option.filter_eq_some_iff.1 hc).1)

/-- Besides the new target nothing is enlarged, as the old one has been put to rest. -/
theorem enlarged_retarget {old new : Option SocketRef} (hold : ∀ r, s.Enlarged r → old = some r)
    {r : SocketRef} (h : (if new = old then s else
      match new with
      | some q => (s.resetRadius? old).setRadius q Measure.snapRadius
      | none => s.resetRadius? old).Enlarged r) : new = some r := by
  have hreset (hr : (s.resetRadius? old).Enlarged r) : False := by
    obtain ⟨hne, hlarge⟩ := enlarged_resetRadius? hr
    exact hne (hold r hlarge)
  split at h
  · rename_i heq
    exact heq.trans (hold r h)
  · cases new with
    | none => exact (hreset h).elim
    | some q =>
      obtain rfl | hr := enlarged_setRadius h
      · rfl
      · exact (hreset hr).elim

theorem updateDrag (h : s.Aimed) (hs : s.Shaped) (pointer : Point) : (s.updateDrag pointer).Aimed := by
  have hkinds := (s.quiet_updateDrag pointer).kinds
  have hshaped := hs.updateDrag pointer
  unfold Session.updateDrag at hkinds hshaped ⊢
  split
  · exact h
  · rename_i d hd
    rw [hd] at hkinds hshaped
    have hmove := (s.calm_modifyConnector d.connector fun c => { c with stop := pointer }).trans
      (calm_drawPath _ d.connector)
    have hperm := perm_rankBy pointer d.candidates
    have haims := h.aims d hd
    refine ⟨fun e he => ?_, fun r hr => ?_⟩
    · obtain rfl := Option.some.inj he
      refine ⟨fun r hr => ?_, hperm.nodup_iff.2 haims.once, fun r hr => mem_of_snapFor hr⟩
      obtain ⟨hlive, hrest⟩ := haims.reach r (hperm.mem_iff.1 hr)
      obtain ⟨k, hk, hindex⟩ := (socket?_isSome_iff hs).1 hlive
      exact ⟨(socket?_isSome_iff hshaped).2 ⟨k, (hkinds r.node).trans hk, hindex⟩, hrest⟩
    · refine enlarged_retarget (fun q hq => ?_) hr
      have htarget := h.rest q (hmove.rest q hq)
      rw [snapTarget?, hd] at htarget
      exact htarget

/-- A node that the drag does not touch may go; its sockets are no longer in reach then. -/
theorem eraseNode (h : s.Aimed) {id : NodeId} (hdrag : s.dragTouches id = false) :
    (s.eraseNode id).Aimed := by
  have hnode (m : NodeId) : (s.eraseNode id).node? m = if m = id then none else s.node? m :=
    s.nodes.get?_erase id m
  refine ⟨fun e he => ?_, fun r hr => ?_⟩
  · obtain ⟨d, hd, rfl⟩ := Option.map_eq_some_iff.1 he
    have hsockets : Drag.sockets { d with candidates := d.candidates.filter (·.socket.node ≠ id) } =
        d.sockets.filter (·.node ≠ id) := by
      rw [Drag.sockets, Drag.sockets, List.filter_map]
      rfl
    have haims := h.aims d hd
    refine ⟨fun r hr => ?_, ?_, fun r hr => ?_⟩
    · rw [hsockets, List.mem_filter, decide_eq_true_eq] at hr
      obtain ⟨hlive, hrest⟩ := haims.reach r hr.1
      refine ⟨?_, hrest⟩
      rw [socket?, hnode, if_neg hr.2]
      exact hlive
    · rw [hsockets]
      exact haims.once.filter _
    · rw [hsockets, List.mem_filter, decide_eq_true_eq]
      refine ⟨haims.snap r hr, ?_⟩
      rintro rfl
      have hsnap : d.snap = some r := hr
      rw [dragTouches, hd] at hdrag
      simp [hsnap] at hdrag
  · obtain ⟨n, hn, hlarge⟩ := enlarged_iff.1 hr
    rw [hnode] at hn
    split at hn
    · cases hn
    · have htarget := h.rest r (enlarged_iff.2 ⟨n, hn, hlarge⟩)
      rw [snapTarget?] at htarget ⊢
      obtain ⟨d, hd, hsnap⟩ := Option.bind_eq_some_iff.1 htarget
      show (s.drag.map _).bind _ = some r
      rw [hd]
      exact hsnap

/-! ## Every move -/

theorem move (h : s.Aimed) (hi : s.Intact) (hs : s.Shaped) (hm : s.Move t) : t.Aimed := by
  have ht := hs.move hm
  have hn := (hi.move hm).tied.nodesOnce
  cases hm with
  | spawn kind position scale => exact h.calm hs ht (calm_spawn hi kind position scale)
  | moveNode id position => exact h.calm hs ht (s.calm_moveNode id position)
  | setScale id scale => exact h.calm hs ht (s.calm_setScale id scale)
  | emitMove id => exact h.calm hs ht (s.calm_emitMove id)
  | bringToFront id => exact h.calm hs ht (s.calm_bringToFront id)
  | setStyle style => exact h.calm hs ht (s.calm_setStyle style)
  | setValue r value => exact h.calm hs ht (s.calm_setValue r value)
  | registerVariable name type => exact h.calm hs ht (s.calm_registerVariable name type)
  | updateDrag pointer => exact h.updateDrag hs pointer
  | connect hc =>
    obtain ⟨-, -, start, style, rfl⟩ := Intact.connect_eq hc
    exact h.calm hs ht ((s.calm_addConnector _ start start style).trans (calm_link _ _ _))
  | beginDrag hc =>
    obtain ⟨hd, q, start, -, rfl, rfl⟩ := Intact.beginDrag_eq hc
    exact h.start hd ((s.calm_addConnector _ start _ q.style).trans (calm_drawPath _ _)) hn _ _
  | reconnect hc =>
    obtain ⟨hd, k, -, rfl⟩ := reconnect_eq hc
    exact h.start hd (s.calm_pickUp _ k.plug _) hn _ _
  | release hd hr hok => exact h.release hd hr
  | discard hd => exact h.discardDrag hd
  | @disconnect c k hk hc =>
    exact h.calm hs ht ((s.calm_detachSocket c).trans (calm_destroyConnector _ c))
  | eraseNode _ _ hdrag => exact h.eraseNode hdrag
  | relayPorts _ _ _ _ variant => exact h.calm hs ht (s.calm_relayPorts _ variant)

end Aimed

theorem Reached.aimed {s : Session} (h : s.Reached) : s.Aimed := by
  have hboth : s.Shaped ∧ s.Aimed := by
    refine Reached.induction (P := fun s => s.Shaped ∧ s.Aimed) h ?_ ?_
    · exact fun settings => ⟨shaped_new settings, aimed_of_idle rfl fun _ hr => nomatch hr⟩
    · exact fun _ _ hi hboth hm => ⟨hboth.1.move hm, hboth.2.move hi hboth.1 hm⟩
  exact hboth.2

/-- In every session that is reached the drag is up to date, and a socket whose radius is not the one at
rest is its snap target, so without a drag all sockets are at rest. -/
theorem Reached.drag_current {s : Session} (h : s.Reached) :
    (∀ d, s.drag = some d → d.Current s) ∧
      (∀ r t, s.socket? r = some t → t.radius ≠ t.restRadius → s.snapTarget? = some r) ∧
      (s.drag = none → ∀ r t, s.socket? r = some t → t.radius = t.restRadius) := by
  have haimed := h.aimed
  refine ⟨fun d hd => ?_, fun r t ht hradius => haimed.rest r ⟨t, ht, hradius⟩, fun hd r t ht => ?_⟩
  · obtain ⟨k, hk, hedge⟩ := edge_eq_some (h.intact.drag d hd)
    have haims := haimed.aims d hd
    have hplug : k.plug = d.plug := congrArg Edge.plug hedge
    refine ⟨⟨k, hk, congrArg Edge.state hedge, congrArg Edge.connectedTo hedge, hplug⟩, ?_, ?_, haims.once, ?_⟩
    · rw [← hplug]
      exact live_of_edge h.intact hk
    · intro c hc
      obtain ⟨hlive, hkind, hnode⟩ := haims.reach c.socket (List.mem_map_of_mem hc)
      refine ⟨?_, hlive, hkind, hnode⟩
      obtain ⟨t, ht⟩ := Option.isSome_iff_exists.1 hlive
      obtain ⟨n, hn, -⟩ := Option.bind_eq_some_iff.1 ht
      exact Option.isSome_of_eq_some hn
    · exact fun r hr => List.mem_map.1 (haims.snap r hr)
  · exact Classical.byContradiction fun hradius => haimed.not_enlarged_of_idle hd r ⟨t, ht, hradius⟩

/-- While a truth value is being dragged the node of a condition in reach is removed, and a node with a
socket for it is added. The drag goes on and knows neither of the two. -/
theorem drag_current_amid_edits : ∃ s d, s = (new .standard).applyAll
    [.spawn .generalAddition .origin 1.0, .spawn .isMobile .origin 1.0, .spawn .condition .origin 1.0,
      .spawn .condition .origin 1.0, .connect ⟨⟨1⟩, .data, 0⟩ ⟨⟨0⟩, .data, 0⟩,
      .beginDrag ⟨⟨1⟩, .data, 0⟩ .origin, .removeNode ⟨2⟩, .spawn .condition .origin 1.0] ∧
    s.drag = some d ∧ d.sockets = [⟨⟨0⟩, .data, 1⟩, ⟨⟨3⟩, .data, 0⟩] ∧ d.Current s := by
  refine ⟨_, _, rfl, rfl, rfl, ?_⟩
  exact (Reached.drag_current ⟨.standard, _, by simp [Operation.Public], rfl⟩).1 _ rfl

end Session
end FlowGraph
