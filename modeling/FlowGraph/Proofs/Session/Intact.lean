import FlowGraph.Proofs.Session.Quiet
import FlowGraph.Proofs.Session.Sound

/-! # Intact sessions

A session is intact when its wiring is sound, its orders repeat nothing, no identity in it is yet to be
handed out, and the only loose connector is the one being dragged. Here every way in which a session
makes, picks up and drops a connector is shown to keep it intact, and so is the coming, going and
exchange of a node on which nothing hangs.
-/

namespace FlowGraph
set_option autoImplicit false

namespace Session

/-! ## What the rules of connection allow -/

theorem validate_of_ports {s : Session} {p : PlugRef} {r : SocketRef} {q : Plug} {t : Socket}
    (hq : s.plug? p = some q) (ht : s.socket? r = some t) :
    s.validate p r =
      if p.node = r.node then .error (.selfConnection p.node)
      else if p.kind ≠ r.kind || !t.accepts q.type then .error (.typeMismatch t.type q.type)
      else if s.isLinked p r then .error .duplicate
      else if r.kind = .data && t.isConnected then .error .socketOccupied
      else .ok () := by
  obtain ⟨source, hsource, hq⟩ := Option.bind_eq_some_iff.1 hq
  obtain ⟨target, htarget, ht⟩ := Option.bind_eq_some_iff.1 ht
  unfold validate
  simp only [hsource, htarget, hq, ht]
  rfl

theorem ports_of_validate {s : Session} {p : PlugRef} {r : SocketRef} (hv : s.validate p r = .ok ()) :
    ∃ q t, s.plug? p = some q ∧ s.socket? r = some t := by
  unfold validate at hv
  split at hv
  · cases hv
  · cases hv
  · rename_i source target hsource htarget
    split at hv
    · cases hv
    · cases hv
    · rename_i q t hq ht
      refine ⟨q, t, ?_, ?_⟩
      · rw [plug?, hsource, Option.bind_some, hq]
      · rw [socket?, htarget, Option.bind_some, ht]

theorem validate_eq_ok {s : Session} {p : PlugRef} {r : SocketRef} :
    s.validate p r = .ok () ↔ ∃ q t, s.plug? p = some q ∧ s.socket? r = some t ∧ p.node ≠ r.node ∧
      p.kind = r.kind ∧ t.accepts q.type ∧ s.isLinked p r = false ∧
        (r.kind = .data → t.isConnected = false) := by
  constructor
  · intro hv
    obtain ⟨q, t, hq, ht⟩ := ports_of_validate hv
    rw [validate_of_ports hq ht] at hv
    split at hv
    · cases hv
    · rename_i hnode
      split at hv
      · cases hv
      · rename_i htype
        split at hv
        · cases hv
        · rename_i hlink
          split at hv
          · cases hv
          · rename_i hfree
            simp only [ne_eq, Bool.or_eq_true, decide_eq_true_eq, Bool.not_eq_true', not_or,
              Decidable.not_not, Bool.not_eq_false] at htype
            simp only [Bool.and_eq_true, decide_eq_true_eq, not_and, Bool.not_eq_true] at hfree
            exact ⟨q, t, hq, ht, hnode, htype.1, htype.2, Bool.eq_false_iff.2 hlink, hfree⟩
  · rintro ⟨q, t, hq, ht, hnode, hkind, htype, hlink, hfree⟩
    rw [validate_of_ports hq ht, if_neg hnode]
    by_cases hr : r.kind = .data
    · simp [hkind, htype, hlink, hfree hr]
    · simp [hkind, htype, hlink, hr]

section Views
variable {s : Session}

theorem edge_of_connector? {c : ConnectorId} {k : Connector} (h : s.connector? c = some k) :
    s.wiring.edge c = some k.edge := congrArg (Option.map Connector.edge) h

theorem departures_of_plug? {p : PlugRef} {q : Plug} (h : s.plug? p = some q) :
    s.wiring.departures p = some q.connected := congrArg (Option.map Plug.connected) h

theorem arrivals_of_socket? {r : SocketRef} {t : Socket} (h : s.socket? r = some t) :
    s.wiring.arrivals r = some t.incoming := congrArg (Option.map Socket.incoming) h

theorem followers_of_node? {id : NodeId} {n : Node} (h : s.node? id = some n) :
    s.wiring.followers id = some n.frame.dependents :=
  congrArg (Option.map fun n : Node => n.frame.dependents) h

theorem edge_isSome (c : ConnectorId) : (s.wiring.edge c).isSome ↔ c ∈ s.connectors.keys := by
  rw [OrderedMap.mem_keys_iff]
  exact Iff.of_eq (congrArg (· = true) Option.isSome_map)

end Views

theorem isLinked_of_edge {s : Session} {loose : ConnectorId → Prop} (h : s.wiring.Sound loose)
    {c : ConnectorId} {e : Edge} {r : SocketRef} (he : s.wiring.edge c = some e)
    (hr : e.connectedTo = some r) : s.isLinked e.plug r = true := by
  obtain ⟨k, hk, rfl⟩ := edge_eq_some he
  have hto : k.connectedTo = some r := hr
  obtain ⟨l, hl⟩ := Option.isSome_iff_exists.1 (h.plug c _ he)
  obtain ⟨q, hq, rfl⟩ := Option.map_eq_some_iff.1 hl
  have hmem : c ∈ q.connected := ((h.departures _ _ hl).2 c).2 ⟨k.edge, he, rfl, by rw [hr]; rfl⟩
  have hplug : s.plug? k.edge.plug = some q := hq
  rw [isLinked, hplug]
  refine List.any_eq_true.2 ⟨c, hmem, ?_⟩
  rw [hk, Option.bind_some, hto, beq_self_eq_true]

/-- A plug reaches a socket only if nothing forbids the edge. -/
theorem free_of_validate {s : Session} {loose : ConnectorId → Prop} (h : s.wiring.Sound loose)
    {p : PlugRef} {r : SocketRef} (hv : s.validate p r = .ok ()) :
    (s.wiring.departures p).isSome ∧ s.wiring.Free p r := by
  obtain ⟨q, t, hq, ht, hnode, hkind, -, hlink, hfree⟩ := validate_eq_ok.1 hv
  have hdepart := departures_of_plug? hq
  have harrive := arrivals_of_socket? ht
  refine ⟨by rw [hdepart]; rfl, by rw [harrive]; rfl, hkind, hnode, fun d f hf hr => ⟨?_, ?_⟩⟩
  · intro hdata
    have hin : d ∈ t.incoming := ((h.arrivals r _ harrive).2 d).2 ⟨f, hf, hr⟩
    have hnone : t.incoming = [] := by
      have hempty := hfree hdata
      rw [Socket.isConnected, Bool.not_eq_false'] at hempty
      exact List.isEmpty_iff.1 hempty
    rw [hnone] at hin
    cases hin
  · rintro rfl
    rw [isLinked_of_edge h hf hr] at hlink
    cases hlink

/-! ## Picking up an edge -/

def pickUp (s : Session) (id : ConnectorId) (p : PlugRef) (pointer : Point) : Session :=
  (((s.detachSocket id).modifyFrame p.node fun f =>
    f.modifyPlug p.kind p.index (·.detach id)).modifyConnector id fun c =>
      { c with state := .dragging, stop := pointer }).drawPath id

theorem reconnect_eq {s t : Session} {id : ConnectorId} {pointer : Point}
    (h : s.reconnect id pointer = (true, t)) :
    s.drag = none ∧ ∃ c, s.connector? id = some c ∧ t = { s.pickUp id c.plug pointer with
      drag := some ⟨id, c.plug, (s.pickUp id c.plug pointer).candidatesFor c.plug, none⟩ } := by
  unfold reconnect at h
  split at h
  · rename_i c hd hc
    exact ⟨hd, c, hc, (congrArg Prod.snd h).symm⟩
  · cases h

theorem steady_pickUp (s : Session) (id : ConnectorId) (p : PlugRef) (pointer : Point) :
    s.Steady (s.pickUp id p pointer) := by
  refine Steady.trans ?_ (quiet_drawPath _ id).toSteady
  refine Steady.trans ?_ (steady_modifyConnector _ id _)
  exact (s.steady_detachSocket id).trans (steady_modifyFrame _ p.node _)

theorem wiring_pickUp {s : Session} {id : ConnectorId} {p : PlugRef} {r : SocketRef}
    (h : s.wiring.edge id = some ⟨p, some r, .connected⟩) (pointer : Point) :
    (s.pickUp id p pointer).wiring = s.wiring.loosened id p r := by
  have hdetach : ((s.detachSocket id).modifyFrame p.node fun f =>
      f.modifyPlug p.kind p.index (·.detach id)).wiring = s.wiring.loosened id p r :=
    wiring_detach (e := ⟨p, some r, .connected⟩) h rfl
  rw [pickUp, wiring_drawPath, wiring_modifyConnector _ id _
    (fun e => ⟨e.plug, e.connectedTo, .dragging⟩) fun _ => rfl, hdetach]
  have hloose : (s.wiring.loosened id p r).edge id = some ⟨p, none, .dragging⟩ := if_pos rfl
  refine Wiring.atEdge_self ?_
  rw [hloose, Option.map_some]

/-! ## Connectors and ports agree -/

/-- The wiring is sound, the orders repeat nothing, and what is there has been handed out. -/
structure Tied (s : Session) (loose : ConnectorId → Prop) : Prop where
  nodesOnce : s.nodes.keys.Nodup
  connectorsOnce : s.connectors.keys.Nodup
  nodesKnown : ∀ id, (s.wiring.followers id).isSome → id.number < s.ids.nextNode
  connectorsKnown : ∀ c, (s.wiring.edge c).isSome → c.number < s.ids.nextConnector
  sound : s.wiring.Sound loose

namespace Tied
variable {s t : Session} {loose loose' : ConnectorId → Prop} {id : ConnectorId} {p : PlugRef}
  {r : SocketRef}

theorem of_loose_iff (h : s.Tied loose) (hl : ∀ c, loose' c ↔ loose c) : s.Tied loose' :=
  { h with sound := h.sound.of_loose_iff hl }

theorem steady (h : s.Tied loose) (hs : s.Steady t)
    (hfollow : ∀ n, (t.wiring.followers n).isSome → (s.wiring.followers n).isSome)
    (hedge : ∀ c, (t.wiring.edge c).isSome → (s.wiring.edge c).isSome)
    (hsound : t.wiring.Sound loose') : t.Tied loose' where
  nodesOnce := hs.nodesOnce h.nodesOnce
  connectorsOnce := hs.connectorsOnce h.connectorsOnce
  nodesKnown n hn := by
    rw [hs.ids]
    exact h.nodesKnown n (hfollow n hn)
  connectorsKnown c hc := by
    rw [hs.ids]
    exact h.connectorsKnown c (hedge c hc)
  sound := hsound

theorem quiet (h : s.Tied loose) (hq : s.Quiet t) : t.Tied loose := by
  refine h.steady hq.toSteady (fun n hn => ?_) (fun c hc => ?_) ?_
  · rw [hq.wiring] at hn
    exact hn
  · rw [hq.wiring] at hc
    exact hc
  · rw [hq.wiring]
    exact h.sound

theorem setDrag (h : s.Tied loose) (drag : Option Drag) : { s with drag := drag }.Tied loose :=
  ⟨h.nodesOnce, h.connectorsOnce, h.nodesKnown, h.connectorsKnown, h.sound⟩

theorem edge_fresh (h : s.Tied loose) : s.wiring.edge s.ids.connector.1 = none := by
  cases he : s.wiring.edge s.ids.connector.1 with
  | none => rfl
  | some e =>
    have hlt := h.connectorsKnown s.ids.connector.1 (by rw [he]; rfl)
    exact absurd hlt (Nat.lt_irrefl _)

theorem ne_fresh (h : s.Tied loose) {c : ConnectorId} {e : Edge} (he : s.wiring.edge c = some e) :
    c ≠ s.ids.connector.1 := by
  rintro rfl
  rw [h.edge_fresh] at he
  cases he

theorem followers_fresh (h : s.Tied loose) : s.wiring.followers s.ids.node.1 = none := by
  cases hl : s.wiring.followers s.ids.node.1 with
  | none => rfl
  | some l =>
    have hlt := h.nodesKnown s.ids.node.1 (by rw [hl]; rfl)
    exact absurd hlt (Nat.lt_irrefl _)

/-! ## Making and unmaking edges -/

theorem addConnector (h : s.Tied loose) (hp : (s.wiring.departures p).isSome) (start stop : Point)
    (style : ConnectorStyle) : (s.addConnector p start stop style).2.Tied fun c =>
      loose c ∨ c = s.ids.connector.1 := by
  have hwiring := s.wiring_addConnector p start stop style
  refine ⟨?_, OrderedMap.nodup_keys_put h.connectorsOnce _ _, fun n hn => ?_, fun c hc => ?_, ?_⟩
  · show (s.nodes.modify p.node _).keys.Nodup
    rw [OrderedMap.keys_modify]
    exact h.nodesOnce
  · rw [hwiring, Wiring.isSome_followers_opened] at hn
    exact h.nodesKnown n hn
  · show c.number < s.ids.nextConnector + 1
    rw [hwiring] at hc
    change (if c = s.ids.connector.1 then some _ else s.wiring.edge c).isSome at hc
    split at hc
    · rename_i hnew
      rw [hnew]
      exact Nat.lt_succ_self _
    · exact Nat.lt_succ_of_lt (h.connectorsKnown c hc)
  · rw [hwiring]
    exact h.sound.opened h.edge_fresh hp

theorem link (h : s.Tied loose) (he : s.wiring.edge id = some ⟨p, none, .dragging⟩)
    (hfree : s.wiring.Free p r) : (s.link id r).Tied fun c => loose c ∧ c ≠ id := by
  have hwiring : (s.link id r).wiring = s.wiring.linkedTo id p r := wiring_link he r
  refine h.steady (s.steady_link id r) (fun n => ?_) (fun c => ?_) ?_
  · rw [hwiring, Wiring.isSome_followers_linkedTo]
    exact fun hn => hn
  · rw [hwiring]
    show (if c = id then some _ else s.wiring.edge c).isSome → _
    split
    · rename_i hc
      rw [hc, he]
      exact fun _ => rfl
    · exact fun hc => hc
  · rw [hwiring]
    exact h.sound.linkedTo he hfree

theorem destroyConnector (h : s.Tied loose) (he : s.wiring.edge id = some ⟨p, none, .dragging⟩) :
    (s.destroyConnector id).Tied fun c => loose c ∧ c ≠ id := by
  have hwiring : (s.destroyConnector id).wiring = s.wiring.dropped id p := wiring_destroyConnector he
  refine h.steady (s.steady_destroyConnector id) (fun n => ?_) (fun c => ?_) ?_
  · rw [hwiring, Wiring.isSome_followers_dropped]
    exact fun hn => hn
  · rw [hwiring]
    show (if c = id then none else s.wiring.edge c).isSome → _
    split
    · exact fun hc => by cases hc
    · exact fun hc => hc
  · rw [hwiring]
    exact h.sound.dropped he

theorem pickUp (h : s.Tied loose) (he : s.wiring.edge id = some ⟨p, some r, .connected⟩)
    (pointer : Point) : (s.pickUp id p pointer).Tied fun c => loose c ∨ c = id := by
  have hwiring := wiring_pickUp he pointer
  refine h.steady (s.steady_pickUp id p pointer) (fun n => ?_) (fun c => ?_) ?_
  · rw [hwiring, Wiring.isSome_followers_loosened]
    exact fun hn => hn
  · rw [hwiring]
    show (if c = id then some _ else s.wiring.edge c).isSome → _
    split
    · rename_i hc
      rw [hc, he]
      exact fun _ => rfl
    · exact fun hc => hc
  · rw [hwiring]
    exact h.sound.loosened he

theorem edge_disconnect (he : s.wiring.edge id = some ⟨p, some r, .connected⟩) (c : ConnectorId) :
    ((s.detachSocket id).destroyConnector id).wiring.edge c =
      if c = id then none else s.wiring.edge c := by
  rw [wiring_detach_destroy he rfl]
  show (if c = id then none else if c = id then some _ else s.wiring.edge c) = _
  split
  · rfl
  · rfl

theorem disconnect (h : s.Tied loose) (he : s.wiring.edge id = some ⟨p, some r, .connected⟩) :
    ((s.detachSocket id).destroyConnector id).Tied loose := by
  have hwiring : ((s.detachSocket id).destroyConnector id).wiring =
      (s.wiring.loosened id p r).dropped id p :=
    wiring_detach_destroy (e := ⟨p, some r, .connected⟩) he rfl
  have hsteady := (s.steady_detachSocket id).trans (steady_destroyConnector _ id)
  refine h.steady hsteady (fun n => ?_) (fun c => ?_) ?_
  · rw [hwiring, Wiring.isSome_followers_dropped, Wiring.isSome_followers_loosened]
    exact fun hn => hn
  · rw [edge_disconnect he]
    split
    · exact fun hc => by cases hc
    · exact fun hc => hc
  · rw [hwiring]
    refine ((h.sound.loosened he).dropped (if_pos rfl)).of_loose_iff fun c => ?_
    have hid : ¬loose id := fun hl => by
      obtain ⟨e, he', hn⟩ := (h.sound.loose id).1 hl
      rw [he] at he'
      cases he'
      cases hn
    constructor
    · intro hc
      refine ⟨Or.inl hc, ?_⟩
      rintro rfl
      exact hid hc
    · rintro ⟨hc | hc, hne⟩
      · exact hc
      · exact absurd hc hne

end Tied

/-! ## The invariant -/

/-- What holds of every session that is reached: the only loose connector is the dragged one. -/
structure Intact (s : Session) : Prop where
  tied : s.Tied fun c => s.draggedConnector? = some c
  drag : ∀ d, s.drag = some d → s.wiring.edge d.connector = some ⟨d.plug, none, .dragging⟩

theorem intact_new (settings : Settings) : (new settings).Intact := by
  refine ⟨⟨List.nodup_nil, List.nodup_nil, ?_, ?_, ?_⟩, ?_⟩
  · intro id h
    cases h
  · intro c h
    cases h
  · refine ⟨⟨?_, ?_, ?_, ?_, ?_⟩, ?_, ?_, ?_, fun c => ⟨?_, ?_⟩⟩
    · intro c e he
      cases he
    · intro c e r he
      cases he
    · intro c e r he
      cases he
    · intro c e he
      cases he
    · intro c d e f r he
      cases he
    · intro r l hl
      cases hl
    · intro p l hl
      cases hl
    · intro id l hl
      cases hl
    · intro hc
      cases hc
    · rintro ⟨e, he, -⟩
      cases he
  · intro d h
    cases h

namespace Intact
variable {s t : Session}

/-- A connector that is not being dragged is an edge. -/
theorem connected (h : s.Intact) {c : ConnectorId} {e : Edge} (he : s.wiring.edge c = some e)
    (hc : s.draggedConnector? ≠ some c) : ∃ r, e = ⟨e.plug, some r, .connected⟩ := by
  cases hr : e.connectedTo with
  | none => exact absurd ((h.tied.sound.loose c).2 ⟨e, he, hr⟩) hc
  | some r =>
    have hstate := (h.tied.sound.linked c e r he hr).1
    refine ⟨r, ?_⟩
    rw [← hr, ← hstate]

theorem edge_idle (h : s.Intact) {c : ConnectorId} {k : Connector} (hk : s.connector? c = some k)
    (hc : s.draggedConnector? ≠ some c) : ∃ r, s.wiring.edge c = some ⟨k.plug, some r, .connected⟩ := by
  obtain ⟨r, hr⟩ := h.connected (edge_of_connector? hk) hc
  exact ⟨r, (edge_of_connector? hk).trans (congrArg some hr)⟩

theorem of_drag (ht : t.Tied fun c => s.draggedConnector? = some c)
    (hends : t.drag.map Drag.ends = s.drag.map Drag.ends)
    (hedge : ∀ d, s.drag = some d → t.wiring.edge d.connector = some ⟨d.plug, none, .dragging⟩) :
    t.Intact := by
  have hdragged : t.draggedConnector? = s.draggedConnector? := by
    have hfst := congrArg (Option.map Prod.fst) hends
    rw [Option.map_map, Option.map_map] at hfst
    exact hfst
  refine ⟨?_, fun d hd => ?_⟩
  · rw [hdragged]
    exact ht
  · rw [hd, Option.map_some] at hends
    obtain ⟨d', hd', hsame⟩ := Option.map_eq_some_iff.1 hends.symm
    have hconnector : d'.connector = d.connector := congrArg Prod.fst hsame
    have hplug : d'.plug = d.plug := congrArg Prod.snd hsame
    rw [← hconnector, ← hplug]
    exact hedge d' hd'

theorem of_no_drag (ht : t.Tied fun c => none = some c) (hd : t.drag = none) : t.Intact := by
  refine ⟨?_, fun e he => ?_⟩
  · rw [draggedConnector?, hd]
    exact ht
  · rw [hd] at he
    cases he

theorem quiet (h : s.Intact) (hq : s.Quiet t) : t.Intact := by
  refine of_drag (h.tied.quiet hq) hq.drag fun d hd => ?_
  rw [hq.wiring]
  exact h.drag d hd

theorem dragged_of_drag {d : Drag} (hd : s.drag = some d) : s.draggedConnector? = some d.connector := by
  rw [draggedConnector?, hd]
  rfl

theorem dragged_of_no_drag (hd : s.drag = none) : s.draggedConnector? = none := by
  rw [draggedConnector?, hd]
  rfl

theorem idle_of_no_drag (hd : s.drag = none) (c : ConnectorId) : s.draggedConnector? ≠ some c := by
  rw [dragged_of_no_drag hd]
  exact fun hc => by cases hc

/-- No connector besides the dragged one is loose. -/
theorem dragged_elsewhere {d : Drag} (hd : s.drag = some d) (c : ConnectorId) :
    none = some c ↔ s.draggedConnector? = some c ∧ c ≠ d.connector := by
  rw [dragged_of_drag hd]
  constructor
  · intro hc
    cases hc
  · rintro ⟨hc, hne⟩
    exact absurd (Option.some.inj hc).symm hne

/-- The dragged connector stays loose when the drag is over. -/
theorem edge_released (h : s.Intact) {d : Drag} (hd : s.drag = some d) (r : Option SocketRef) :
    ({ s with drag := none }.resetRadius? r).wiring.edge d.connector = some ⟨d.plug, none, .dragging⟩ := by
  rw [wiring_resetRadius?]
  exact h.drag d hd

theorem discardDrag (h : s.Intact) {d : Drag} (hd : s.drag = some d) : (s.discardDrag d).Intact := by
  have hquiet := quiet_resetRadius? { s with drag := none } d.snap
  have hedge := h.edge_released hd d.snap
  have hnone : (s.discardDrag d).drag = none :=
    Option.map_eq_none_iff.1 (hquiet.toSteady.trans (steady_destroyConnector _ _)).drag
  have htied := ((h.tied.setDrag none).quiet hquiet).destroyConnector hedge
  exact of_no_drag (htied.of_loose_iff (dragged_elsewhere hd)) hnone

theorem release (h : s.Intact) {d : Drag} {r : SocketRef} (hd : s.drag = some d)
    (hok : ({ s with drag := none }.resetRadius r).validate d.plug r = .ok ()) :
    (({ s with drag := none }.resetRadius r).link d.connector r).Intact := by
  have hquiet := quiet_resetRadius { s with drag := none } r
  have htied := (h.tied.setDrag none).quiet hquiet
  have hedge := h.edge_released hd (some r)
  have hnone : (({ s with drag := none }.resetRadius r).link d.connector r).drag = none :=
    Option.map_eq_none_iff.1 (hquiet.toSteady.trans (steady_link _ _ _)).drag
  have hlinked := htied.link hedge (free_of_validate htied.sound hok).2
  exact of_no_drag (hlinked.of_loose_iff (dragged_elsewhere hd)) hnone

theorem reconnect (h : s.Intact) {id : ConnectorId} {pointer : Point}
    (ht : s.reconnect id pointer = (true, t)) : t.Intact := by
  obtain ⟨hd, k, hk, rfl⟩ := reconnect_eq ht
  have hnone := dragged_of_no_drag hd
  obtain ⟨r, hedge⟩ := h.edge_idle hk (idle_of_no_drag hd id)
  refine ⟨?_, fun d hd => ?_⟩
  · refine ((h.tied.pickUp hedge pointer).setDrag _).of_loose_iff fun c => ?_
    rw [hnone]
    show some id = some c ↔ none = some c ∨ c = id
    simp [eq_comm]
  · cases hd
    show (s.pickUp id k.plug pointer).wiring.edge id = _
    rw [wiring_pickUp hedge pointer]
    exact if_pos rfl

theorem disconnect (h : s.Intact) {id : ConnectorId} {e : Edge} (he : s.wiring.edge id = some e)
    (hid : s.draggedConnector? ≠ some id) : ((s.detachSocket id).destroyConnector id).Intact := by
  obtain ⟨r, hr⟩ := h.connected he hid
  have hedge : s.wiring.edge id = some ⟨e.plug, some r, .connected⟩ := he.trans (congrArg some hr)
  have hsteady := (s.steady_detachSocket id).trans (steady_destroyConnector _ id)
  refine of_drag (h.tied.disconnect hedge) hsteady.drag fun d hd => ?_
  have hne : d.connector ≠ id := by
    rintro rfl
    exact hid (dragged_of_drag hd)
  rw [Tied.edge_disconnect hedge, if_neg hne]
  exact h.drag d hd

/-- A connector is made with both ends at its plug, and then bound to its socket. -/
theorem connect_at_plug {plug : PlugRef} {socket : SocketRef} {id : ConnectorId}
    (ht : s.connect plug socket = .ok (id, t)) : s.validate plug socket = .ok () ∧
      id = s.ids.connector.1 ∧ ∃ style, t = (s.addConnector plug ((s.plugAnchor? plug).getD .origin)
        ((s.plugAnchor? plug).getD .origin) style).2.link s.ids.connector.1 socket := by
  unfold Session.connect at ht
  split at ht
  · cases ht
  · rename_i hok
    obtain ⟨rfl, rfl⟩ := Prod.mk.inj (Except.ok.inj ht)
    exact ⟨hok, rfl, _, rfl⟩

theorem connect_eq {plug : PlugRef} {socket : SocketRef} {id : ConnectorId}
    (ht : s.connect plug socket = .ok (id, t)) : s.validate plug socket = .ok () ∧
      id = s.ids.connector.1 ∧ ∃ start style,
        t = (s.addConnector plug start start style).2.link s.ids.connector.1 socket := by
  obtain ⟨hok, hid, style, ht⟩ := connect_at_plug ht
  exact ⟨hok, hid, _, style, ht⟩

theorem connect (h : s.Intact) {plug : PlugRef} {socket : SocketRef} {id : ConnectorId}
    (ht : s.connect plug socket = .ok (id, t)) : t.Intact := by
  obtain ⟨hok, rfl, start, style, rfl⟩ := connect_eq ht
  obtain ⟨hplug, hfree⟩ := free_of_validate h.tied.sound hok
  have hwiring := s.wiring_addConnector plug start start style
  have hedge := s.edge_addConnector plug start start style
  have hfree' : (s.addConnector plug start start style).2.wiring.Free plug socket := by
    rw [hwiring]
    exact hfree.opened
  have hlinked := (h.tied.addConnector hplug start start style).link hedge hfree'
  refine of_drag (hlinked.of_loose_iff fun c => ?_) (steady_link _ _ _).drag fun d hd => ?_
  · constructor
    · intro hc
      obtain ⟨e, he, -⟩ := (h.tied.sound.loose c).1 hc
      exact ⟨Or.inl hc, h.tied.ne_fresh he⟩
    · rintro ⟨hc | hc, hne⟩
      · exact hc
      · exact absurd hc hne
  · have he := h.drag d hd
    have hne := h.tied.ne_fresh he
    rw [wiring_link hedge, hwiring]
    show (if _ then _ else if _ then _ else s.wiring.edge d.connector) = _
    rw [if_neg hne, if_neg hne]
    exact he

/-- A drag starts with a connector from its plug to the pointer. -/
theorem beginDrag_at_plug {plug : PlugRef} {pointer : Point} {id : ConnectorId}
    (ht : s.beginDrag plug pointer = (some id, t)) : s.drag = none ∧ ∃ p start,
      s.plug? plug = some p ∧ s.plugAnchor? plug = some start ∧ id = s.ids.connector.1 ∧
        t = { (s.addConnector plug start pointer p.style).2.drawPath id with
          drag := some ⟨id, plug,
            ((s.addConnector plug start pointer p.style).2.drawPath id).candidatesFor plug, none⟩ } := by
  unfold Session.beginDrag at ht
  split at ht
  · rename_i p start hd hp hstart
    split at ht
    · cases ht
    · obtain ⟨hid, rfl⟩ := Prod.mk.inj ht
      cases hid
      exact ⟨hd, p, start, hp, hstart, rfl, rfl⟩
  · cases ht

theorem beginDrag_eq {plug : PlugRef} {pointer : Point} {id : ConnectorId}
    (ht : s.beginDrag plug pointer = (some id, t)) : s.drag = none ∧ ∃ p start,
      s.plug? plug = some p ∧ id = s.ids.connector.1 ∧
        t = { (s.addConnector plug start pointer p.style).2.drawPath id with
          drag := some ⟨id, plug,
            ((s.addConnector plug start pointer p.style).2.drawPath id).candidatesFor plug, none⟩ } := by
  obtain ⟨hd, p, start, hp, -, hid, ht⟩ := beginDrag_at_plug ht
  exact ⟨hd, p, start, hp, hid, ht⟩

theorem beginDrag (h : s.Intact) {plug : PlugRef} {pointer : Point} {id : ConnectorId}
    (ht : s.beginDrag plug pointer = (some id, t)) : t.Intact := by
  obtain ⟨hd, p, start, hp, rfl, rfl⟩ := beginDrag_eq ht
  have hplug : (s.wiring.departures plug).isSome := by
    rw [departures_of_plug? hp]
    rfl
  have htied := (h.tied.addConnector hplug start pointer p.style).quiet (quiet_drawPath _ s.ids.connector.1)
  refine ⟨(htied.setDrag _).of_loose_iff fun c => ?_, fun d hd => ?_⟩
  · show some s.ids.connector.1 = some c ↔ s.draggedConnector? = some c ∨ c = s.ids.connector.1
    rw [dragged_of_no_drag hd]
    simp [eq_comm]
  · cases hd
    show ((s.addConnector plug start pointer p.style).2.drawPath s.ids.connector.1).wiring.edge _ = _
    rw [wiring_drawPath, wiring_addConnector]
    exact if_pos rfl

end Intact

/-! ## Ends of edges -/

theorem live_plug {s : Session} (h : s.Intact) {c : ConnectorId} {k : Connector}
    (hk : s.connector? c = some k) : (s.plug? k.plug).isSome := by
  have hlive := h.tied.sound.plug c _ (edge_of_connector? hk)
  rw [← Option.isSome_map]
  exact hlive

theorem live_socket {s : Session} (h : s.Intact) {c : ConnectorId} {k : Connector} {r : SocketRef}
    (hk : s.connector? c = some k) (hr : k.connectedTo = some r) : (s.socket? r).isSome := by
  have hlive := h.tied.sound.socket c _ r (edge_of_connector? hk) hr
  rw [← Option.isSome_map]
  exact hlive

theorem live_of_edge {s : Session} (h : s.Intact) {c : ConnectorId} {k : Connector}
    (hk : s.connector? c = some k) : (s.node? k.plug.node).isSome := by
  obtain ⟨q, hq⟩ := Option.isSome_iff_exists.1 (live_plug h hk)
  obtain ⟨n, hn, -⟩ := Option.bind_eq_some_iff.1 hq
  exact Option.isSome_of_eq_some hn

theorem live_of_arrival {s : Session} (h : s.Intact) {c : ConnectorId} {k : Connector} {r : SocketRef}
    (hk : s.connector? c = some k) (hr : k.connectedTo = some r) : (s.node? r.node).isSome := by
  obtain ⟨t, ht⟩ := Option.isSome_iff_exists.1 (live_socket h hk hr)
  obtain ⟨n, hn, -⟩ := Option.bind_eq_some_iff.1 ht
  exact Option.isSome_of_eq_some hn

end Session
end FlowGraph
