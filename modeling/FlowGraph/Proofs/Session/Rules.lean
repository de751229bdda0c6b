import FlowGraph.Proofs.Session.Reached

/-! # The rules of connection

What forbids an edge is looked at when it is made: at the end of a drag, that is, and not only where the
drag began. Since no later change breaks a rule either, the edges of a session obey the rules at all
times, and what is not an edge is the one connector that is being dragged.
-/

namespace FlowGraph
set_option autoImplicit false

/-- A list without repetition in which all items are the same is short. -/
theorem length_le_one_of_nodup {α : Type} {l : List α} (h : l.Nodup)
    (hsame : ∀ a ∈ l, ∀ b ∈ l, a = b) : l.length ≤ 1 := by
  match l with
  | [] => exact Nat.zero_le 1
  | [_] => exact Nat.le_refl 1
  | a :: b :: rest =>
    have hab : a = b := hsame a (by simp) b (by simp)
    exact absurd (hab ▸ List.mem_cons_self) (List.nodup_cons.1 h).1

namespace Session

/-- The connector is an edge from the plug to the socket. -/
def Joins (s : Session) (c : ConnectorId) (p : PlugRef) (r : SocketRef) : Prop :=
  ∃ k, s.connector? c = some k ∧ k.plug = p ∧ k.connectedTo = some r

/-- The edges of the session obey the rules of connection. -/
structure Regular (s : Session) : Prop where
  /-- An edge joins a plug and a socket of the same collection, on two different nodes. -/
  ends : ∀ c p r, s.Joins c p r →
    (s.plug? p).isSome ∧ (s.socket? r).isSome ∧ p.kind = r.kind ∧ p.node ≠ r.node
  once : ∀ c d p r, s.Joins c p r → s.Joins d p r → c = d
  /-- To a data socket there is at most one edge, and the socket lists no other connector. -/
  alone : ∀ c d p q r, s.Joins c p r → s.Joins d q r → r.kind = .data → c = d
  listed : ∀ r t, s.socket? r = some t → r.kind = .data → t.incoming.length ≤ 1
  loose : ∀ c d k l, s.connector? c = some k → s.connector? d = some l → k.isConnected = false →
    l.isConnected = false → c = d

section Rules
variable {s : Session} {c d : ConnectorId} {p q : PlugRef} {r : SocketRef}

theorem joins_iff : s.Joins c p r ↔ ∃ e, s.wiring.edge c = some e ∧ e.plug = p ∧ e.connectedTo = some r := by
  constructor
  · rintro ⟨k, hk, hp, hr⟩
    exact ⟨k.edge, edge_of_connector? hk, hp, hr⟩
  · rintro ⟨e, he, hp, hr⟩
    obtain ⟨k, hk, rfl⟩ := edge_eq_some he
    exact ⟨k, hk, hp, hr⟩

theorem Joins.ends (h : s.Intact) (hc : s.Joins c p r) :
    (s.plug? p).isSome ∧ (s.socket? r).isSome ∧ p.kind = r.kind ∧ p.node ≠ r.node := by
  obtain ⟨k, hk, rfl, hr⟩ := hc
  obtain ⟨-, hkind, hnode⟩ := h.tied.sound.linked c _ r (edge_of_connector? hk) hr
  exact ⟨live_plug h hk, live_socket h hk hr, hkind, hnode⟩

/-- Two edges to one socket are the same if they come from one plug, or if the socket takes data. -/
theorem Joins.unique (h : s.Intact) (hc : s.Joins c p r) (hd : s.Joins d q r)
    (hclash : r.kind = .data ∨ p = q) : c = d := by
  obtain ⟨k, hk, rfl, hr⟩ := hc
  obtain ⟨l, hl, rfl, hr'⟩ := hd
  exact h.tied.sound.single c d _ _ r (edge_of_connector? hk) (edge_of_connector? hl) hr hr' hclash

theorem mem_incoming (h : s.Intact) {t : Socket} (ht : s.socket? r = some t) :
    c ∈ t.incoming ↔ ∃ p, s.Joins c p r := by
  rw [(h.tied.sound.arrivals r _ (arrivals_of_socket? ht)).2 c]
  constructor
  · rintro ⟨e, he, hr⟩
    exact ⟨e.plug, joins_iff.2 ⟨e, he, rfl, hr⟩⟩
  · rintro ⟨p, hp⟩
    obtain ⟨e, he, -, hr⟩ := joins_iff.1 hp
    exact ⟨e, he, hr⟩

theorem length_incoming_le_one (h : s.Intact) {t : Socket} (ht : s.socket? r = some t)
    (hdata : r.kind = .data) : t.incoming.length ≤ 1 := by
  have hlist := h.tied.sound.arrivals r _ (arrivals_of_socket? ht)
  refine length_le_one_of_nodup hlist.1 fun c hc d hd => ?_
  obtain ⟨p, hp⟩ := (mem_incoming h ht).1 hc
  obtain ⟨q, hq⟩ := (mem_incoming h ht).1 hd
  exact hp.unique h hq (Or.inl hdata)

/-- What is not connected is being dragged. -/
theorem dragged_of_not_isConnected (h : s.Intact) {k : Connector} (hc : s.connector? c = some k)
    (hloose : k.isConnected = false) : s.draggedConnector? = some c := by
  refine Decidable.byContradiction fun hidle => ?_
  obtain ⟨r, hr⟩ := h.connected (edge_of_connector? hc) hidle
  have hstate : k.state = .connected := congrArg Edge.state hr
  have hto : k.connectedTo = some r := congrArg Edge.connectedTo hr
  rw [Connector.isConnected, hstate, hto] at hloose
  cases hloose

end Rules

/-- In every session that is reached the edges obey the rules of connection. -/
theorem Reached.regular {s : Session} (h : s.Reached) : s.Regular := by
  have hi := h.intact
  refine ⟨fun c p r hc => hc.ends hi, fun c d p r hc hd => hc.unique hi hd (Or.inr rfl),
    fun c d p q r hc hd hdata => hc.unique hi hd (Or.inl hdata),
    fun r t ht hdata => length_incoming_le_one hi ht hdata, fun c d k l hc hd hk hl => ?_⟩
  have hdragged := dragged_of_not_isConnected hi hc hk
  rw [dragged_of_not_isConnected hi hd hl] at hdragged
  exact (Option.some.inj hdragged).symm

/-- An edge is picked up, and before the drag ends its socket is taken by another plug. -/
theorem regular_rewired_amid_drag : ((new .standard).applyAll
    [.spawn .condition .origin 1.0, .spawn .isMobile .origin 1.0, .spawn .isMobile .origin 1.0,
      .connect ⟨⟨1⟩, .data, 0⟩ ⟨⟨0⟩, .data, 0⟩, .reconnect ⟨0⟩ .origin, .updateDrag ⟨0.0, 117.5⟩,
      .connect ⟨⟨2⟩, .data, 0⟩ ⟨⟨0⟩, .data, 0⟩, .endDrag]).Regular :=
  Reached.regular ⟨.standard, _, by simp [Operation.Public], rfl⟩

end Session
end FlowGraph
