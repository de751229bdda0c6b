import FlowGraph.Proofs.Session.Reached

/-! # Referential integrity

The nodes, the connectors, the lists on the ports and the dependents of the nodes always tell the same
story about the edges of a session, also in the middle of a drag.
-/

namespace FlowGraph
set_option autoImplicit false

namespace Session

/-- The places where a session notes its edges agree. -/
structure Consistent (s : Session) : Prop where
  /-- The drawing orders list exactly what is live, each once. -/
  nodes : s.nodes.keys.Nodup ∧ ∀ id, id ∈ s.nodes.keys ↔ (s.node? id).isSome
  connectors : s.connectors.keys.Nodup ∧ ∀ c, c ∈ s.connectors.keys ↔ (s.connector? c).isSome
  /-- An edge is on its two ports, once on each, and on no other port. -/
  edge : ∀ c k r, s.connector? c = some k → k.connectedTo = some r →
    k.state = .connected ∧ ∃ p t, s.plug? k.plug = some p ∧ s.socket? r = some t ∧
      t.incoming.count c = 1 ∧ p.connected.count c = 1 ∧
        (∀ r' t', s.socket? r' = some t' → c ∈ t'.incoming → r' = r) ∧
          ∀ p' q, s.plug? p' = some q → c ∈ q.connected → p' = k.plug
  /-- The only connector that is not an edge is the dragged one, and it is on no port. -/
  loose : ∀ c k, s.connector? c = some k → k.connectedTo = none →
    s.draggedConnector? = some c ∧ (∀ r t, s.socket? r = some t → c ∉ t.incoming) ∧
      ∀ p q, s.plug? p = some q → c ∉ q.connected
  arriving : ∀ r t c, s.socket? r = some t → c ∈ t.incoming →
    ∃ k, s.connector? c = some k ∧ k.connectedTo = some r
  leaving : ∀ p q c, s.plug? p = some q → c ∈ q.connected →
    ∃ k, s.connector? c = some k ∧ k.plug = p ∧ k.connectedTo.isSome
  /-- A node is followed by exactly the connectors with an end on it, each once. -/
  following : ∀ id n, s.node? id = some n → n.frame.dependents.Nodup ∧
    ∀ c, c ∈ n.frame.dependents ↔ ∃ k, s.connector? c = some k ∧
      (k.plug.node = id ∨ ∃ r, k.connectedTo = some r ∧ r.node = id)
  /-- The dragged connector is live, loose, and hangs on the plug of the drag. -/
  dragged : ∀ d, s.drag = some d → ∃ k, s.connector? d.connector = some k ∧ k.plug = d.plug ∧
    k.connectedTo = none ∧ k.state = .dragging ∧ (s.plug? d.plug).isSome

theorem count_of_lists {l : List ConnectorId} {P : ConnectorId → Prop} (h : Lists l P) {c : ConnectorId}
    (hc : P c) : l.count c = 1 := by
  rw [h.1.count, if_pos ((h.2 c).2 hc)]

theorem joined_iff_connector? (s : Session) (P : Edge → Prop) (c : ConnectorId) :
    s.wiring.Joined P c ↔ ∃ k, s.connector? c = some k ∧ P k.edge := by
  constructor
  · rintro ⟨e, he, hP⟩
    obtain ⟨k, hk, rfl⟩ := edge_eq_some he
    exact ⟨k, hk, hP⟩
  · rintro ⟨k, hk, hP⟩
    exact ⟨_, edge_of_connector? hk, hP⟩

/-- Every session that is reached notes its edges consistently. -/
theorem Reached.consistent {s : Session} (h : s.Reached) : s.Consistent := by
  have hi := h.intact
  have hw := hi.tied.sound
  have harrive (r : SocketRef) (t : Socket) (ht : s.socket? r = some t) :
      Lists t.incoming fun c => ∃ k, s.connector? c = some k ∧ k.connectedTo = some r :=
    (hw.arrivals r _ (arrivals_of_socket? ht)).congr fun c =>
      (joined_iff_connector? s (·.connectedTo = some r) c).symm
  have hleave (p : PlugRef) (q : Plug) (hq : s.plug? p = some q) :
      Lists q.connected fun c => ∃ k, s.connector? c = some k ∧ k.plug = p ∧ k.connectedTo.isSome :=
    (hw.departures p _ (departures_of_plug? hq)).congr fun c =>
      (joined_iff_connector? s (·.Leaves p) c).symm
  have hplug (c : ConnectorId) (k : Connector) (hk : s.connector? c = some k) :
      ∃ q, s.plug? k.plug = some q := by
    obtain ⟨l, hl⟩ := Option.isSome_iff_exists.1 (hw.plug c _ (edge_of_connector? hk))
    obtain ⟨q, hq, -⟩ := Option.map_eq_some_iff.1 hl
    exact ⟨q, hq⟩
  have hsocket (c : ConnectorId) (k : Connector) (r : SocketRef) (hk : s.connector? c = some k)
      (hr : k.connectedTo = some r) : ∃ t, s.socket? r = some t := by
    obtain ⟨l, hl⟩ := Option.isSome_iff_exists.1 (hw.socket c _ r (edge_of_connector? hk) hr)
    obtain ⟨t, ht, -⟩ := Option.map_eq_some_iff.1 hl
    exact ⟨t, ht⟩
  refine ⟨⟨hi.tied.nodesOnce, s.nodes.mem_keys_iff⟩, ⟨hi.tied.connectorsOnce, s.connectors.mem_keys_iff⟩,
    ?_, ?_, fun r t c ht => ((harrive r t ht).2 c).1, fun p q c hq => ((hleave p q hq).2 c).1, ?_, ?_⟩
  · intro c k r hk hr
    obtain ⟨q, hq⟩ := hplug c k hk
    obtain ⟨t, ht⟩ := hsocket c k r hk hr
    have hstate := (hw.linked c _ r (edge_of_connector? hk) hr).1
    have hsome : k.connectedTo.isSome := by
      rw [hr]
      rfl
    refine ⟨hstate, q, t, hq, ht, count_of_lists (harrive r t ht) ⟨k, hk, hr⟩,
      count_of_lists (hleave _ q hq) ⟨k, hk, rfl, hsome⟩, fun r' t' ht' hc => ?_, fun p' q' hq' hc => ?_⟩
    · obtain ⟨k', hk', hr'⟩ := ((harrive r' t' ht').2 c).1 hc
      rw [hk] at hk'
      cases hk'
      exact Option.some.inj (hr'.symm.trans hr)
    · obtain ⟨k', hk', hp', -⟩ := ((hleave p' q' hq').2 c).1 hc
      rw [hk] at hk'
      cases hk'
      exact hp'.symm
  · intro c k hk hnone
    refine ⟨(hw.loose c).2 ⟨_, edge_of_connector? hk, hnone⟩, fun r t ht hc => ?_, fun p q hq hc => ?_⟩
    · obtain ⟨k', hk', hr⟩ := ((harrive r t ht).2 c).1 hc
      rw [hk] at hk'
      cases hk'
      rw [hnone] at hr
      cases hr
    · obtain ⟨k', hk', -, hsome⟩ := ((hleave p q hq).2 c).1 hc
      rw [hk] at hk'
      cases hk'
      rw [hnone] at hsome
      cases hsome
  · intro id n hn
    exact (hw.followers id _ (followers_of_node? hn)).congr fun c =>
      (joined_iff_connector? s (·.Touches id) c).symm
  · intro d hd
    obtain ⟨k, hk, he⟩ := edge_eq_some (hi.drag d hd)
    have hp : k.plug = d.plug := congrArg Edge.plug he
    obtain ⟨q, hq⟩ := hplug d.connector k hk
    rw [hp] at hq
    refine ⟨k, hk, hp, congrArg Edge.connectedTo he, congrArg Edge.state he, ?_⟩
    rw [hq]
    rfl

/-- An edge is picked up, and the node it led to is removed while the drag goes on. -/
theorem consistent_amid_drag : ((new .standard).applyAll
    [.spawn .condition .origin 1.0, .spawn .isMobile .origin 1.0,
      .connect ⟨⟨1⟩, .data, 0⟩ ⟨⟨0⟩, .data, 0⟩, .reconnect ⟨0⟩ .origin, .removeNode ⟨0⟩]).Consistent :=
  Reached.consistent ⟨.standard, _, by simp [Operation.Public], rfl⟩

end Session
end FlowGraph
