import FlowGraph.Proofs.Node.Shed
import FlowGraph.Proofs.Session.Retyped
import FlowGraph.Proofs.Session.Undone

/-! # Removed nodes

A node goes with every connector that starts or ends there, and with the one that is being dragged if it
would snap to it. The connectors are dropped one after the other, each with both its ends. What is left is
the session without them: the other nodes and connectors in their order, and of the other ports only those
changed that have lost a connector, or that belong to a node which reacts to such a loss.
-/

namespace FlowGraph
set_option autoImplicit false

/-! ## Entries that are taken out together -/

namespace OrderedMap
variable {κ α : Type} [DecidableEq κ]

def eraseAll (m : OrderedMap κ α) (ks : List κ) : OrderedMap κ α := ⟨m.entries.filter (·.1 ∉ ks)⟩

theorem eraseAll_nil (m : OrderedMap κ α) : m.eraseAll [] = m := by
  refine congrArg mk (List.filter_eq_self.2 fun e _ => decide_eq_true ?_)
  exact List.not_mem_nil

theorem erase_eq_eraseAll (m : OrderedMap κ α) (k : κ) : m.erase k = m.eraseAll [k] := by
  refine congrArg mk (List.filter_congr fun e _ => ?_)
  simp

theorem eraseAll_eraseAll (m : OrderedMap κ α) (ks ls : List κ) :
    (m.eraseAll ks).eraseAll ls = m.eraseAll (ks ++ ls) := by
  refine congrArg mk (List.filter_filter.trans (List.filter_congr fun e _ => ?_))
  simp [Bool.and_comm]

theorem eraseAll_eq_self {m : OrderedMap κ α} {ks : List κ} (h : ∀ k ∈ ks, k ∉ m.keys) : m.eraseAll ks = m := by
  refine congrArg mk (List.filter_eq_self.2 fun e he => decide_eq_true fun hmem => ?_)
  exact h e.1 hmem (List.mem_map_of_mem he)

end OrderedMap

namespace Session

/-! ## Dropping connectors -/

/-- The session without some connectors, each of them taken off both its ends. -/
def Dropped (s : Session) (ids : List ConnectorId) (t : Session) : Prop :=
  ∃ calls, t = { s with
    nodes := s.nodes.mapValues (Node.shed ids)
    connectors := s.connectors.eraseAll ids
    calls := calls }

/-- Changes of single nodes that come to the same as a change of all. -/
theorem nodes_eq_mapValues {s : Session} (hn : s.nodes.keys.Nodup) {m : OrderedMap NodeId Node}
    (hkeys : m.keys = s.nodes.keys) {f : Node → Node} (hget : ∀ id, m.get? id = (s.node? id).map f) :
    m = s.nodes.mapValues f := by
  refine OrderedMap.eq_of_get? (hkeys.trans (s.nodes.keys_mapValues f).symm) ?_ fun id => ?_
  · rw [s.nodes.keys_mapValues]
    exact hn
  · rw [hget, OrderedMap.get?_mapValues]
    rfl

theorem Dropped.nil {s : Session} (h : s.Intact) : s.Dropped [] s := by
  refine ⟨s.calls, ?_⟩
  have hnodes : s.nodes = s.nodes.mapValues (Node.shed []) := by
    refine nodes_eq_mapValues h.tied.nodesOnce rfl fun id => ?_
    cases hn : s.node? id with
    | none => exact hn
    | some n =>
      have hsame : n.shed [] = n :=
        Node.shed_eq_self (fun _ _ _ _ _ _ => List.not_mem_nil) (fun _ _ _ _ _ _ => List.not_mem_nil)
          fun _ _ => List.not_mem_nil
      rw [Option.map_some, hsame]
      exact hn
  rw [OrderedMap.eraseAll_nil, ← hnodes]

theorem Dropped.trans {s t u : Session} {ids more : List ConnectorId} (hn : s.nodes.keys.Nodup) (hs : s.Shaped)
    (h : s.Dropped ids t) (h' : t.Dropped more u) : s.Dropped (ids ++ more) u := by
  obtain ⟨_, rfl⟩ := h
  obtain ⟨calls, rfl⟩ := h'
  refine ⟨calls, ?_⟩
  have hnodes : (s.nodes.mapValues (Node.shed ids)).mapValues (Node.shed more) =
      s.nodes.mapValues (Node.shed (ids ++ more)) := by
    refine nodes_eq_mapValues hn ?_ fun id => ?_
    · rw [OrderedMap.keys_mapValues, OrderedMap.keys_mapValues]
    · rw [OrderedMap.get?_mapValues, OrderedMap.get?_mapValues, Option.map_map]
      exact Option.map_congr fun n hn => Node.shed_shed ids more (hs id n hn)
  dsimp only
  rw [OrderedMap.eraseAll_eraseAll, hnodes]

theorem Dropped.congr {s t : Session} {ids more : List ConnectorId} (h : s.Dropped ids t)
    (hsame : ∀ c, c ∈ ids ↔ c ∈ more) : s.Dropped more t := by
  have hnodes : Node.shed ids = Node.shed more := funext fun n => n.shed_congr hsame
  have hconnectors : s.connectors.eraseAll ids = s.connectors.eraseAll more :=
    congrArg OrderedMap.mk (List.filter_congr fun e _ => decide_eq_decide.2 (not_congr (hsame e.1)))
  obtain ⟨calls, ht⟩ := h
  rw [hnodes, hconnectors] at ht
  exact ⟨calls, ht⟩

section Single
variable {s : Session} {loose : ConnectorId → Prop} {c : ConnectorId} {id : NodeId} {n : Node}

/-- A node that an edge does not touch lists it nowhere. -/
theorem shed_untouched (h : s.Tied loose) (hn : s.node? id = some n) (hc : ¬s.wiring.Joined (·.Touches id) c) :
    n.shed [c] = n := by
  have hnot (l : List ConnectorId) (hl : c ∈ l → s.wiring.Joined (·.Touches id) c) : ∀ d ∈ l, d ∉ [c] :=
    Node.not_mem_of_singleton fun hmem => hc (hl hmem)
  refine Node.shed_eq_self (fun port index t ht => ?_) (fun port index q hq => ?_) ?_
  · refine hnot _ fun hmem => ?_
    obtain ⟨e, he, hr⟩ := (mem_incoming_iff h hn ht c).1 hmem
    exact ⟨e, he, Or.inr ⟨_, hr, rfl⟩⟩
  · refine hnot _ fun hmem => ?_
    obtain ⟨e, he, hp, -⟩ := (mem_connected_iff h hn hq c).1 hmem
    exact ⟨e, he, Or.inl (congrArg PlugRef.node hp)⟩
  · exact hnot _ (mem_dependents_iff h hn c).1

variable {e : Edge} (h : s.Tied loose) (he : s.wiring.edge c = some e)

include h he

/-- On the node of its plug a connector is on that plug at most, and on no socket. -/
theorem withdraw_at_plug (hn : s.node? e.plug.node = some n) :
    n.withdraw c e.plug.kind e.plug.index = n.shed [c] := by
  refine Node.withdraw_eq_shed (fun k i t ht hmem => ?_) fun k i q hki hq hmem => ?_
  · obtain ⟨f, hf, hr⟩ := (mem_incoming_iff h hn ht c).1 hmem
    obtain rfl := Option.some.inj (he.symm.trans hf)
    exact (h.sound.linked c e _ he hr).2.2 rfl
  · obtain ⟨f, hf, hp, -⟩ := (mem_connected_iff h hn hq c).1 hmem
    obtain rfl := Option.some.inj (he.symm.trans hf)
    exact hki ⟨(congrArg PlugRef.kind hp).symm, (congrArg PlugRef.index hp).symm⟩

/-- On the node where it arrives a connector is on that socket only. -/
theorem release_at_socket (hs : s.Shaped) {r : SocketRef} (hr : e.connectedTo = some r)
    (hn : s.node? r.node = some n) : n.release c r.kind r.index = n.shed [c] := by
  obtain ⟨t, ht⟩ : ∃ t, n.frame.socket? r.kind r.index = some t := by
    obtain ⟨l, hl⟩ := Option.isSome_iff_exists.1 (h.sound.socket c e r he hr)
    obtain ⟨t, ht, -⟩ := Evolves.socket_of_arrivals hl hn
    exact ⟨t, ht⟩
  refine Node.release_eq_shed ht ?_ (fun k i u hki hu hmem => ?_) (hs _ n hn) fun k i q hq hmem => ?_
  · exact (mem_incoming_iff h hn ht c).2 ⟨e, he, hr⟩
  · obtain ⟨f, hf, hr'⟩ := (mem_incoming_iff h hn hu c).1 hmem
    obtain rfl := Option.some.inj (he.symm.trans hf)
    have hsame := Option.some.inj (hr.symm.trans hr')
    exact hki ⟨(congrArg SocketRef.kind hsame).symm, (congrArg SocketRef.index hsame).symm⟩
  · obtain ⟨f, hf, hp, -⟩ := (mem_connected_iff h hn hq c).1 hmem
    obtain rfl := Option.some.inj (he.symm.trans hf)
    exact (h.sound.linked c e r he hr).2.2 (congrArg PlugRef.node hp)

end Single

/-- A connector that is nowhere is no loss. -/
theorem Dropped.absent {s : Session} (h : s.Intact) {c : ConnectorId} (hc : s.connector? c = none) :
    s.Dropped [c] s := by
  have hedge : s.wiring.edge c = none := congrArg (Option.map Connector.edge) hc
  have hnodes : s.nodes = s.nodes.mapValues (Node.shed [c]) := by
    refine nodes_eq_mapValues h.tied.nodesOnce rfl fun id => ?_
    cases hn : s.node? id with
    | none => exact hn
    | some n =>
      rw [Option.map_some, shed_untouched h.tied hn (Wiring.Sound.not_joined hedge _)]
      exact hn
  have hconnectors : s.connectors.eraseAll [c] = s.connectors := by
    refine OrderedMap.eraseAll_eq_self fun d hd => ?_
    rw [List.mem_singleton.1 hd, ← OrderedMap.get?_eq_none_iff]
    exact hc
  refine ⟨s.calls, ?_⟩
  rw [hconnectors, ← hnodes]

/-- An edge that is dropped is taken off both its ends. -/
theorem dropped_edge {s : Session} (h : s.Intact) (hs : s.Shaped) {c : ConnectorId} {k : Connector}
    (hk : s.connector? c = some k) (hc : s.draggedConnector? ≠ some c) :
    s.Dropped [c] (s.disconnect c).2 := by
  obtain ⟨r, he⟩ := h.edge_idle hk hc
  have hto : k.connectedTo = some r := congrArg Edge.connectedTo
    (Option.some.inj ((edge_of_connector? hk).symm.trans he))
  have hnode : k.plug.node ≠ r.node := (h.tied.sound.linked c _ r he rfl).2.2
  have hnodes : (s.nodes.modify r.node (·.release c r.kind r.index)).modify k.plug.node
      (·.withdraw c k.plug.kind k.plug.index) = s.nodes.mapValues (Node.shed [c]) := by
    refine nodes_eq_mapValues h.tied.nodesOnce ?_ fun id => ?_
    · rw [OrderedMap.keys_modify, OrderedMap.keys_modify]
    rw [OrderedMap.get?_modify, OrderedMap.get?_modify, ← node?]
    cases hn : s.node? id with
    | none => split <;> split <;> rfl
    | some n =>
      by_cases hp : id = k.plug.node
      · subst hp
        rw [if_pos rfl, if_neg hnode, Option.map_some, withdraw_at_plug h.tied he hn]
        rfl
      · rw [if_neg hp]
        by_cases hr : id = r.node
        · subst hr
          rw [if_pos rfl, Option.map_some, release_at_socket h.tied he hs rfl hn]
          rfl
        · rw [if_neg hr, Option.map_some, shed_untouched h.tied hn]
          rw [s.wiring.joined_iff he]
          rintro (hsame | ⟨q, hq, hsame⟩)
          · exact hp hsame.symm
          · exact hr (Option.some.inj hq ▸ hsame.symm)
  rw [disconnect_eq hc hk hto]
  refine ⟨.dispose (.connector c) :: s.calls, ?_⟩
  dsimp only
  rw [hnodes, OrderedMap.erase_eq_eraseAll]

/-- A drag that is abandoned takes its connector off the node that carried it along. -/
theorem dropped_discard {s : Session} (h : s.Intact) {d : Drag} (hd : s.drag = some d) :
    ({ s with drag := none }.resetRadius? d.snap).Dropped [d.connector] (s.discardDrag d) := by
  have htied := (h.tied.setDrag none).quiet (quiet_resetRadius? { s with drag := none } d.snap)
  have he := h.edge_released hd d.snap
  unfold discardDrag
  generalize { s with drag := none }.resetRadius? d.snap = b at htied he ⊢
  obtain ⟨k, hk, hedge⟩ := edge_eq_some he
  have hplug : k.plug = d.plug := congrArg Edge.plug hedge
  have hnodes : b.nodes.modify d.plug.node (·.withdraw d.connector d.plug.kind d.plug.index) =
      b.nodes.mapValues (Node.shed [d.connector]) := by
    refine nodes_eq_mapValues htied.nodesOnce (OrderedMap.keys_modify _ _ _) fun id => ?_
    rw [OrderedMap.get?_modify, ← node?]
    cases hn : b.node? id with
    | none => split <;> rfl
    | some n =>
      by_cases hp : id = d.plug.node
      · subst hp
        rw [if_pos rfl, Option.map_some, withdraw_at_plug htied he hn]
        rfl
      · rw [if_neg hp, Option.map_some, shed_untouched htied hn]
        rw [b.wiring.joined_iff he]
        rintro (hsame | ⟨q, hq, -⟩)
        · exact hp hsame.symm
        · cases hq
  rw [destroyConnector_eq hk, hplug]
  refine ⟨.dispose (.connector d.connector) :: b.calls, ?_⟩
  rw [hnodes, OrderedMap.erase_eq_eraseAll]

theorem dropped_disconnectAll {s : Session} (h : s.Reached) (ids : List ConnectorId)
    (hids : ∀ c ∈ ids, s.draggedConnector? ≠ some c) : s.Dropped ids (s.disconnectAll ids).2 := by
  induction ids generalizing s with
  | nil => exact Dropped.nil h.intact
  | cons c rest ih =>
    have hidle := hids c List.mem_cons_self
    have hfirst : s.Dropped [c] (s.disconnect c).2 := by
      cases hk : s.connector? c with
      | some k => exact dropped_edge h.intact h.shaped hk hidle
      | none =>
        have hout : s.connectors.contains c = false := by
          rw [← OrderedMap.get?_isSome, ← connector?, hk]
          rfl
        rw [disconnect, if_neg hidle, hout, if_neg Bool.false_ne_true]
        exact Dropped.absent h.intact hk
    have hreached : (s.disconnect c).2.Reached := h.apply (o := .disconnect c) trivial
    have hdragged : (s.disconnect c).2.draggedConnector? = s.draggedConnector? := by
      obtain ⟨_, ht⟩ := hfirst
      rw [ht]
      rfl
    have hrest := ih hreached fun d hd => hdragged ▸ hids d (List.mem_cons_of_mem c hd)
    exact hfirst.trans h.intact.tied.nodesOnce h.shaped hrest

/-! ## Clearing a node -/

/-- What is attached to a node is every edge that starts or ends there. -/
theorem mem_attached_iff {s : Session} (h : s.Intact) {id : NodeId} {n : Node} (hn : s.node? id = some n)
    (c : ConnectorId) : c ∈ n.frame.attached ↔
      ∃ e, s.wiring.edge c = some e ∧ e.connectedTo.isSome ∧ e.Touches id := by
  constructor
  · intro hc
    obtain hc | hc := List.mem_append.1 hc
    · obtain ⟨t, ht, hc⟩ := List.mem_flatMap.1 hc
      obtain ⟨port, index, hport⟩ : ∃ port index, n.frame.socket? port index = some t := by
        obtain ht | ht := List.mem_append.1 ht
        · exact ⟨.flow, List.getElem?_of_mem ht⟩
        · exact ⟨.data, List.getElem?_of_mem ht⟩
      obtain ⟨e, he, hr⟩ := (mem_incoming_iff h.tied hn hport c).1 hc
      exact ⟨e, he, Option.isSome_of_eq_some hr, Or.inr ⟨_, hr, rfl⟩⟩
    · obtain ⟨q, hq, hc⟩ := List.mem_flatMap.1 hc
      obtain ⟨port, index, hport⟩ : ∃ port index, n.frame.plug? port index = some q := by
        obtain hq | hq := List.mem_append.1 hq
        · exact ⟨.flow, List.getElem?_of_mem hq⟩
        · exact ⟨.data, List.getElem?_of_mem hq⟩
      obtain ⟨e, he, hp, hto⟩ := (mem_connected_iff h.tied hn hport c).1 hc
      exact ⟨e, he, hto, Or.inl (congrArg PlugRef.node hp)⟩
  · rintro ⟨e, he, hto, htouch⟩
    exact attached_of_touches h hn he hto htouch

/-- Whether a connector goes with the node: it starts or ends there, or it is being dragged and would snap
to a socket there. -/
def hangsOn (s : Session) (id : NodeId) (e : ConnectorId × Connector) : Bool :=
  e.2.plug.node = id || e.2.connectedTo.any (·.node = id) ||
    (s.draggedConnector? = some e.1 && s.snapTarget?.any (·.node = id))

/-- The connectors that go with the node. -/
def fallen (s : Session) (id : NodeId) : List ConnectorId := (s.connectors.entries.filter (s.hangsOn id)).map (·.1)

/-- The session before the connectors on a node are dropped: a drag that touches the node is over, and its
target is at rest. -/
def rested (s : Session) (id : NodeId) : Session :=
  if s.dragTouches id then { s with drag := none }.resetRadius? s.snapTarget? else s

theorem hangsOn_iff {s : Session} {id : NodeId} {c : ConnectorId} {k : Connector} :
    s.hangsOn id (c, k) = true ↔ k.edge.Touches id ∨
      s.draggedConnector? = some c ∧ ∃ r, s.snapTarget? = some r ∧ r.node = id := by
  simp only [hangsOn, Bool.or_eq_true, Bool.and_eq_true, decide_eq_true_eq, Option.any_eq_true]
  rfl

theorem dragTouches_iff {s : Session} {id : NodeId} : s.dragTouches id = true ↔
    ∃ d, s.drag = some d ∧ (d.plug.node = id ∨ ∃ r, d.snap = some r ∧ r.node = id) := by
  unfold dragTouches
  cases s.drag with
  | none => simp
  | some d => simp [Option.map_eq_some_iff]

section Hanging
variable {s : Session} (h : s.Intact) {id : NodeId} {c : ConnectorId} {k : Connector}
  (hk : s.connector? c = some k)

include h hk

/-- The dragged connector goes with the node if the drag touches it. -/
theorem hangsOn_dragged (hc : s.draggedConnector? = some c) :
    s.hangsOn id (c, k) = true ↔ s.dragTouches id = true := by
  obtain ⟨d, hd, rfl⟩ := Option.map_eq_some_iff.1 hc
  have hedge := Option.some.inj ((edge_of_connector? hk).symm.trans (h.drag d hd))
  rw [hangsOn_iff, dragTouches_iff, hedge, snapTarget?, hd]
  constructor
  · rintro ((hp | ⟨r, hr, -⟩) | ⟨-, hsnap⟩)
    · exact ⟨d, rfl, Or.inl hp⟩
    · cases hr
    · exact ⟨d, rfl, Or.inr hsnap⟩
  · rintro ⟨e, he, hends⟩
    obtain rfl := Option.some.inj he
    obtain hp | hsnap := hends
    · exact Or.inl (Or.inl hp)
    · exact Or.inr ⟨hc, hsnap⟩

/-- Any other connector goes with the node if it is an edge there. -/
theorem hangsOn_idle (hc : s.draggedConnector? ≠ some c) : s.hangsOn id (c, k) = true ↔
    ∃ e, s.wiring.edge c = some e ∧ e.connectedTo.isSome ∧ e.Touches id := by
  have hedge := edge_of_connector? hk
  rw [hangsOn_iff]
  constructor
  · rintro (ht | ⟨hdragged, -⟩)
    · obtain ⟨r, hr⟩ := h.connected hedge hc
      exact ⟨_, hedge, Option.isSome_of_eq_some (congrArg Edge.connectedTo hr), ht⟩
    · exact absurd hdragged hc
  · rintro ⟨e, he, -, ht⟩
    obtain rfl := Option.some.inj (hedge.symm.trans he)
    exact Or.inl ht

end Hanging

theorem mem_fallen_iff {s : Session} (h : s.Intact) {id : NodeId} {c : ConnectorId} :
    c ∈ s.fallen id ↔ ∃ k, s.connector? c = some k ∧ s.hangsOn id (c, k) = true := by
  constructor
  · intro hc
    obtain ⟨⟨_, k⟩, he, rfl⟩ := List.mem_map.1 hc
    obtain ⟨hin, hangs⟩ := List.mem_filter.1 he
    exact ⟨k, OrderedMap.get?_of_mem h.tied.connectorsOnce hin, hangs⟩
  · rintro ⟨k, hk, hangs⟩
    exact List.mem_map.2 ⟨(c, k), List.mem_filter.2 ⟨OrderedMap.mem_of_get? hk, hangs⟩, rfl⟩

/-- The dragged connector is on no port. -/
theorem not_attached_of_dragged {s : Session} (h : s.Intact) {id : NodeId} {n : Node} (hn : s.node? id = some n)
    {c : ConnectorId} (hc : s.draggedConnector? = some c) : c ∉ n.frame.attached := by
  intro hmem
  obtain ⟨e, he, hto, -⟩ := (mem_attached_iff h hn c).1 hmem
  obtain ⟨f, hf, hloose⟩ := (h.tied.sound.loose c).1 hc
  obtain rfl := Option.some.inj (he.symm.trans hf)
  rw [hloose] at hto
  cases hto

/-- Without a drag that touches it, a node is cleared edge by edge. -/
theorem dropped_clear {s : Session} (h : s.Reached) {id : NodeId} {n : Node} (hn : s.node? id = some n)
    (htouch : s.dragTouches id = false) : s.Dropped (s.fallen id) (s.clearConnections id).2 := by
  have hi := h.intact
  have hdropped : s.Dropped n.frame.attached (s.clearConnections id).2 := by
    simp only [clearConnections, htouch, Bool.false_eq_true, if_false, hn]
    exact dropped_disconnectAll h _ fun c hmem hc => not_attached_of_dragged hi hn hc hmem
  refine hdropped.congr fun c => ?_
  rw [mem_fallen_iff hi]
  constructor
  · intro hmem
    have hidle : s.draggedConnector? ≠ some c := fun hc => not_attached_of_dragged hi hn hc hmem
    obtain ⟨e, he, hends⟩ := (mem_attached_iff hi hn c).1 hmem
    obtain ⟨k, hk, -⟩ := edge_eq_some he
    exact ⟨k, hk, (hangsOn_idle hi hk hidle).2 ⟨e, he, hends⟩⟩
  · rintro ⟨k, hk, hangs⟩
    have hidle : s.draggedConnector? ≠ some c := by
      intro hc
      rw [hangsOn_dragged hi hk hc, htouch] at hangs
      cases hangs
    exact (mem_attached_iff hi hn c).2 ((hangsOn_idle hi hk hidle).1 hangs)

/-- A drag that touches the node is abandoned first, and its connector goes too. -/
theorem dropped_clear_drag {s : Session} (h : s.Reached) {id : NodeId} (hn : (s.node? id).isSome) {d : Drag}
    (hd : s.drag = some d) (htouch : s.dragTouches id = true) :
    ({ s with drag := none }.resetRadius? d.snap).Dropped (s.fallen id) (s.clearConnections id).2 := by
  have hi := h.intact
  have hclear := cleared_discard hi hd
  have hfirst := dropped_discard hi hd
  have hcancel : s.cancelDrag = s.discardDrag d := by
    rw [cancelDrag, hd]
  have hlater : (s.discardDrag d).Reached := hcancel ▸ h.apply (o := .cancelDrag) trivial
  have hidle : (s.discardDrag d).drag = none := by
    obtain ⟨_, ht⟩ := hfirst
    rw [ht]
    cases d.snap <;> rfl
  obtain ⟨m, hm⟩ := Option.isSome_iff_exists.1 ((node?_isSome_of_body (hclear.body id)).trans hn)
  have hrest := dropped_disconnectAll hlater m.frame.attached fun c _ => Intact.idle_of_no_drag hidle c
  have hnodes := ((hi.tied.setDrag none).quiet (quiet_resetRadius? { s with drag := none } d.snap)).nodesOnce
  have hshaped := Shaped.resetRadius? (s := { s with drag := none }) h.shaped d.snap
  have hcleared : (s.clearConnections id).2 = ((s.discardDrag d).disconnectAll m.frame.attached).2 := by
    simp only [clearConnections, htouch, if_true, hcancel, hm]
  rw [hcleared]
  refine (hfirst.trans hnodes hshaped hrest).congr fun c => ?_
  rw [mem_fallen_iff hi, List.mem_append, List.mem_singleton, mem_attached_iff hlater.intact hm]
  simp only [hclear.edge, List.mem_singleton]
  by_cases hc : c = d.connector
  · subst hc
    obtain ⟨k, hk, -⟩ := edge_eq_some (hi.drag d hd)
    refine iff_of_true (Or.inl rfl) ⟨k, hk, ?_⟩
    rw [hangsOn_dragged hi hk (Intact.dragged_of_drag hd)]
    exact htouch
  · have hother : s.draggedConnector? ≠ some c := by
      rw [Intact.dragged_of_drag hd]
      exact fun hsame => hc (Option.some.inj hsame).symm
    simp only [hc, false_or, if_false]
    constructor
    · rintro ⟨e, he, hends⟩
      obtain ⟨k, hk, -⟩ := edge_eq_some he
      exact ⟨k, hk, (hangsOn_idle hi hk hother).2 ⟨e, he, hends⟩⟩
    · rintro ⟨k, hk, hangs⟩
      exact (hangsOn_idle hi hk hother).1 hangs

/-- When a node is cleared, what hangs on it is dropped and nothing else. -/
theorem dropped_clearConnections {s : Session} (h : s.Reached) {id : NodeId} (hn : (s.node? id).isSome) :
    (s.rested id).Dropped (s.fallen id) (s.clearConnections id).2 := by
  unfold rested
  cases htouch : s.dragTouches id with
  | false =>
    obtain ⟨n, hn⟩ := Option.isSome_iff_exists.1 hn
    exact dropped_clear h hn htouch
  | true =>
    obtain ⟨d, hd, -⟩ := dragTouches_iff.1 htouch
    rw [if_pos rfl, snapTarget?, hd]
    exact dropped_clear_drag h hn hd htouch

/-! ## The target of an abandoned drag -/

section Rested
variable (s : Session) (id : NodeId)

theorem rested_eq : s.rested id = { s with
    nodes := (s.rested id).nodes
    drag := if s.dragTouches id then none else s.drag } := by
  unfold rested
  split
  · cases s.snapTarget? <;> rfl
  · rfl

theorem keys_rested : (s.rested id).nodes.keys = s.nodes.keys := by
  unfold rested
  split
  · cases s.snapTarget? with
    | none => rfl
    | some r => exact s.nodes.keys_modify r.node _
  · rfl

theorem plug?_resetRadius (r : SocketRef) (p : PlugRef) : (s.resetRadius r).plug? p = s.plug? p := by
  rw [plug?, resetRadius, modifyFrame, node?_modifyNode, plug?]
  split
  · rename_i hp
    rw [hp]
    cases s.node? r.node with
    | none => rfl
    | some n => exact n.frame.plug?_modifySocket r.kind p.kind r.index p.index _
  · rfl

theorem socket?_resetRadius (q r : SocketRef) : (s.resetRadius q).socket? r =
    if q = r then (s.socket? r).map Socket.resetRadius else s.socket? r :=
  s.socket?_withSocket q Socket.resetRadius r

theorem plug?_rested (p : PlugRef) : (s.rested id).plug? p = s.plug? p := by
  unfold rested
  split
  · cases s.snapTarget? with
    | none => rfl
    | some r => exact plug?_resetRadius { s with drag := none } r p
  · rfl

theorem socket?_rested (r : SocketRef) : (s.rested id).socket? r = (s.socket? r).map fun u =>
    if s.dragTouches id = true ∧ s.snapTarget? = some r then u.resetRadius else u := by
  unfold rested
  split
  · rename_i htouch
    simp only [htouch, true_and]
    cases s.snapTarget? with
    | none => simp [resetRadius?, socket?, node?]
    | some q =>
      refine (socket?_resetRadius { s with drag := none } q r).trans ?_
      simp only [Option.some.injEq]
      split
      · rfl
      · exact Option.map_id'.symm
  · rename_i htouch
    simp only [htouch, Bool.false_eq_true, false_and, if_false]
    exact Option.map_id'.symm

end Rested

/-! ## Removing a node -/

/-- The second session is the first without the node, and without what hangs on it. -/
structure Removes (s : Session) (id : NodeId) (t : Session) : Prop where
  /-- The other connectors keep all their fields and their order. -/
  connectors : t.connectors.entries = s.connectors.entries.filter fun e => !s.hangsOn id e
  order : t.nodes.keys = s.nodes.keys.filter (· ≠ id)
  nodes : ∀ i n, i ≠ id → (s.rested id).node? i = some n → t.node? i = some (n.shed (s.fallen id))
  unmentioned : ∀ c ∈ s.fallen id, ∀ i n, t.node? i = some n → c ∉ n.frame.attached ∧ c ∉ n.frame.dependents
  /-- A socket that loses no connector stays as it is, but for the target of the abandoned drag. -/
  sockets : ∀ r u, r.node ≠ id → s.socket? r = some u → (∀ c ∈ u.incoming, c ∉ s.fallen id) →
    t.socket? r = some (if s.dragTouches id = true ∧ s.snapTarget? = some r then u.resetRadius else u)
  /-- A plug that loses no connector stays as it is, but for the branches of a condition and the output of a
  sum that have lost a connector at an input. -/
  plugs : ∀ p q, p.node ≠ id → s.plug? p = some q → (∀ c ∈ q.connected, c ∉ s.fallen id) →
    t.plug? p = some q ∨ ∃ n, (s.rested id).node? p.node = some n ∧ n.loses (s.fallen id) = true ∧
      (p.kind = .flow ∧ n.kind = .condition ∧ (∃ o, t.plug? p = some { q with opacity := o }) ∨
        p.kind = .data ∧ n.kind.adapts .data = true ∧ ∃ type, t.plug? p = some { q with type := type })
  drag : t.drag = if s.dragTouches id then none else
    s.drag.map fun d => { d with candidates := d.candidates.filter (·.socket.node ≠ id) }
  rest : t.settings = s.settings ∧ t.ids = s.ids ∧ t.variableTypes = s.variableTypes

/-- What is left when a node is removed. -/
theorem removeNode_dropped {s : Session} (h : s.Reached) {id : NodeId} (hn : (s.node? id).isSome) : ∃ calls,
    s.removeNode id = (true, { s with
      nodes := ((s.rested id).nodes.mapValues (Node.shed (s.fallen id))).erase id
      connectors := s.connectors.eraseAll (s.fallen id)
      drag := if s.dragTouches id then none else
        s.drag.map fun d => { d with candidates := d.candidates.filter (·.socket.node ≠ id) }
      calls := calls }) := by
  obtain ⟨calls, hclear⟩ := dropped_clearConnections h hn
  have hin : s.nodes.contains id = true := by
    rw [← OrderedMap.get?_isSome]
    exact hn
  refine ⟨.dispose (.node id) :: calls, ?_⟩
  rw [removeNode, if_pos hin, hclear, rested_eq]
  refine congrArg (Prod.mk true) ?_
  cases s.dragTouches id <;> rfl

section Left
variable {s t : Session} {id : NodeId} (hnodes : t.nodes =
  ((s.rested id).nodes.mapValues (Node.shed (s.fallen id))).erase id)

include hnodes

theorem node?_removed (i : NodeId) : t.node? i =
    if i = id then none else ((s.rested id).node? i).map (Node.shed (s.fallen id)) := by
  rw [node?, hnodes, OrderedMap.get?_erase, OrderedMap.get?_mapValues]
  rfl

theorem node?_of_removed {i : NodeId} {m : Node} (hm : t.node? i = some m) :
    ∃ n, (s.rested id).node? i = some n ∧ m = n.shed (s.fallen id) := by
  rw [node?_removed hnodes] at hm
  split at hm
  · cases hm
  · obtain ⟨n, hn, rfl⟩ := Option.map_eq_some_iff.1 hm
    exact ⟨n, hn, rfl⟩

theorem socket?_removed {r : SocketRef} {u : Socket} (hr : r.node ≠ id) (hu : s.socket? r = some u)
    (hkept : ∀ c ∈ u.incoming, c ∉ s.fallen id) : t.socket? r =
      some (if s.dragTouches id = true ∧ s.snapTarget? = some r then u.resetRadius else u) := by
  have hrested := s.socket?_rested id r
  rw [hu, Option.map_some] at hrested
  obtain ⟨n, hn, hsocket⟩ := Option.bind_eq_some_iff.1 hrested
  rw [socket?, node?_removed hnodes, if_neg hr, hn, Option.map_some, Option.bind_some]
  refine Node.socket?_shed hsocket fun c hc => hkept c ?_
  split at hc
  · exact hc
  · exact hc

theorem plug?_removed {p : PlugRef} {q : Plug} (hp : p.node ≠ id) (hq : s.plug? p = some q)
    (hkept : ∀ c ∈ q.connected, c ∉ s.fallen id) : t.plug? p = some q ∨
      ∃ n, (s.rested id).node? p.node = some n ∧ n.loses (s.fallen id) = true ∧
        (p.kind = .flow ∧ n.kind = .condition ∧ (∃ o, t.plug? p = some { q with opacity := o }) ∨
          p.kind = .data ∧ n.kind.adapts .data = true ∧ ∃ type, t.plug? p = some { q with type := type }) := by
  rw [← s.plug?_rested id] at hq
  obtain ⟨n, hn, hplug⟩ := Option.bind_eq_some_iff.1 hq
  have hleft : t.plug? p = (n.shed (s.fallen id)).frame.plug? p.kind p.index := by
    rw [plug?, node?_removed hnodes, if_neg hp, hn, Option.map_some, Option.bind_some]
  rw [hleft]
  obtain hsame | ⟨hloses, hport⟩ := Node.plug?_shed hplug hkept
  · exact Or.inl hsame
  · exact Or.inr ⟨n, hn, hloses, hport⟩

end Left

/-- Removing a node removes exactly what hangs on it, once. -/
theorem Reached.removeNode_exact {s : Session} (h : s.Reached) {id : NodeId} (hn : (s.node? id).isSome) :
    ∃ t, s.removeNode id = (true, t) ∧ s.Removes id t ∧ t.removeNode id = (false, t) := by
  have hi := h.intact
  obtain ⟨calls, ht⟩ := removeNode_dropped h hn
  have hout : (((s.rested id).nodes.mapValues (Node.shed (s.fallen id))).erase id).contains id = false := by
    rw [← OrderedMap.get?_isSome, OrderedMap.get?_erase, if_pos rfl]
    rfl
  refine ⟨_, ht, ⟨?_, ?_, ?_, ?_, ?_, ?_, rfl, rfl, rfl, rfl⟩, if_neg (Bool.eq_false_iff.1 hout)⟩
  · refine List.filter_congr fun e he => ?_
    have hk : s.connector? e.1 = some e.2 := OrderedMap.get?_of_mem hi.tied.connectorsOnce he
    have hfallen : e.1 ∈ s.fallen id ↔ s.hangsOn id e = true := by
      rw [mem_fallen_iff hi, hk]
      constructor
      · rintro ⟨k, hsame, hangs⟩
        obtain rfl := Option.some.inj hsame
        exact hangs
      · exact fun hangs => ⟨e.2, rfl, hangs⟩
    rw [Bool.eq_iff_iff, decide_eq_true_eq, hfallen, Bool.not_eq_true', Bool.not_eq_true]
  · rw [OrderedMap.keys_erase, OrderedMap.keys_mapValues, keys_rested]
  · intro i n hi hn
    rw [node?_removed rfl, if_neg hi, hn, Option.map_some]
  · intro c hc i m hm
    obtain ⟨n, -, rfl⟩ := node?_of_removed rfl hm
    exact n.unlisted_shed (s.fallen id) hc
  · exact fun r u hr hu hkept => socket?_removed rfl hr hu hkept
  · exact fun p q hp hq hkept => plug?_removed rfl hp hq hkept

/-- A node is removed that feeds a condition and a sum, and out of which a third connector is being dragged.
One edge is left, the other input of the sum. -/
theorem removeNode_exact_amid_drag : ∃ s t, s = (new .standard).applyAll
    [.spawn .condition .origin 1.0, .spawn .isMobile .origin 1.0, .spawn .generalAddition .origin 1.0,
      .spawn .screenSize .origin 1.0, .setValue ⟨⟨0⟩, .data, 0⟩ (some (.bool true)),
      .connect ⟨⟨1⟩, .data, 0⟩ ⟨⟨0⟩, .data, 0⟩, .connect ⟨⟨3⟩, .data, 0⟩ ⟨⟨2⟩, .data, 1⟩,
      .connect ⟨⟨1⟩, .data, 0⟩ ⟨⟨2⟩, .data, 0⟩, .beginDrag ⟨⟨1⟩, .data, 0⟩ .origin] ∧
    s.connectors.keys = [⟨0⟩, ⟨1⟩, ⟨2⟩, ⟨3⟩] ∧ s.fallen ⟨1⟩ = [⟨0⟩, ⟨2⟩, ⟨3⟩] ∧
    s.removeNode ⟨1⟩ = (true, t) ∧ s.Removes ⟨1⟩ t ∧ t.removeNode ⟨1⟩ = (false, t) := by
  obtain ⟨s, hs⟩ : ∃ s, s = (new .standard).applyAll
    [.spawn .condition .origin 1.0, .spawn .isMobile .origin 1.0, .spawn .generalAddition .origin 1.0,
      .spawn .screenSize .origin 1.0, .setValue ⟨⟨0⟩, .data, 0⟩ (some (.bool true)),
      .connect ⟨⟨1⟩, .data, 0⟩ ⟨⟨0⟩, .data, 0⟩, .connect ⟨⟨3⟩, .data, 0⟩ ⟨⟨2⟩, .data, 1⟩,
      .connect ⟨⟨1⟩, .data, 0⟩ ⟨⟨2⟩, .data, 0⟩, .beginDrag ⟨⟨1⟩, .data, 0⟩ .origin] := ⟨_, rfl⟩
  have hreached : s.Reached := ⟨.standard, _, by simp [Operation.Public], hs⟩
  have hlive : (s.node? ⟨1⟩).isSome := by
    rw [hs]
    rfl
  obtain ⟨t, hdone, hremoves, hagain⟩ := hreached.removeNode_exact hlive
  refine ⟨s, t, hs, ?_, ?_, hdone, hremoves, hagain⟩
  · rw [hs]
    rfl
  · rw [hs]
    rfl

end Session
end FlowGraph
