import FlowGraph.Proofs.Session.Reached

/-! # Candidates of a plug

The sockets that a plug may be connected to are found by going through all nodes from back to front. A
connection looks at one pair only and asks its questions in another order. Both let in the same pairs.
-/

namespace FlowGraph
set_option autoImplicit false

namespace Session

section Search
variable {s : Session} {p : PlugRef} {r : SocketRef} {type : PortType} {id : NodeId} {n : Node}

/-! ## The candidates on one node -/

/-- What the search asks of a socket of the node. -/
theorem mem_candidatesOn : r ∈ s.candidatesOn p type id n ↔ r.node = id ∧ p.kind = r.kind ∧
    ∃ t, n.frame.socket? r.kind r.index = some t ∧ t.accepts type ∧ s.isLinked p r = false ∧
      (r.kind = .data → t.isConnected = false) := by
  rw [candidatesOn, List.mem_filterMap]
  constructor
  · rintro ⟨⟨t, index⟩, ht, hr⟩
    rw [List.mk_mem_zipIdx_iff_getElem?] at ht
    dsimp only at hr
    split at hr
    · cases hr
    · rename_i hfree
      split at hr
      · cases hr
      · rename_i haccepts
        obtain rfl := Option.some.inj hr
        simp only [Bool.and_eq_true, decide_eq_true_eq, not_and, Bool.not_eq_true] at hfree
        simp only [Bool.or_eq_true, Bool.not_eq_true', not_or, Bool.not_eq_false, Bool.not_eq_true]
          at haccepts
        exact ⟨rfl, rfl, t, ht, haccepts.1, haccepts.2, hfree⟩
  · rintro ⟨rfl, hkind, t, ht, haccepts, hlink, hfree⟩
    obtain ⟨node, kind, index⟩ := r
    obtain rfl : p.kind = kind := hkind
    refine ⟨(t, index), List.mk_mem_zipIdx_iff_getElem?.2 ht, ?_⟩
    have hidle : ¬(p.kind = .data && t.isConnected) = true := by
      simp only [Bool.and_eq_true, decide_eq_true_eq, not_and, Bool.not_eq_true]
      exact hfree
    dsimp only
    rw [if_neg hidle, haccepts, hlink]
    rfl

theorem nodup_candidatesOn (s : Session) (p : PlugRef) (type : PortType) (id : NodeId) (n : Node) :
    (s.candidatesOn p type id n).Nodup := by
  refine List.pairwise_filterMap.2 ?_
  have hindices : ((n.frame.sockets p.kind).zipIdx.map (·.2)).Nodup := by
    rw [List.zipIdx_map_snd]
    exact List.nodup_range'
  refine (List.pairwise_map.1 hindices).imp ?_
  -- Two sockets of the node differ in their index.
  have hindex (e : Socket × Nat) (q : SocketRef) (he : (if p.kind = .data && e.1.isConnected then none
      else if !e.1.accepts type || s.isLinked p ⟨id, p.kind, e.2⟩ then none
      else some (⟨id, p.kind, e.2⟩ : SocketRef)) = some q) : q.index = e.2 := by
    split at he
    · cases he
    · split at he
      · cases he
      · rw [← Option.some.inj he]
  intro a b hne q hq q' hq' heq
  exact hne ((hindex a q hq).symm.trans ((congrArg SocketRef.index heq).trans (hindex b q' hq')))

/-! ## All candidates -/

/-- The search finds exactly the sockets that pass the rules of connection. -/
theorem mem_candidateSockets (hn : s.nodes.keys.Nodup) :
    r ∈ s.candidateSockets p ↔ s.validate p r = .ok () := by
  rw [validate_eq_ok]
  unfold candidateSockets
  split
  · rename_i hnone
    simp [hnone]
  · rename_i q hq
    rw [List.mem_flatMap]
    constructor
    · rintro ⟨⟨id, n⟩, hentry, hr⟩
      dsimp only at hr
      split at hr
      · cases hr
      · rename_i hapart
        obtain ⟨rfl, hkind, t, ht, haccepts, hlink, hfree⟩ := mem_candidatesOn.1 hr
        have hlive : s.node? r.node = some n := OrderedMap.get?_of_mem hn hentry
        refine ⟨q, t, hq, ?_, fun heq => hapart heq.symm, hkind, haccepts, hlink, hfree⟩
        rw [socket?, hlive]
        exact ht
    · rintro ⟨q', t, hq', ht, hapart, hkind, haccepts, hlink, hfree⟩
      obtain rfl := Option.some.inj (hq.symm.trans hq')
      obtain ⟨n, hlive, ht⟩ := Option.bind_eq_some_iff.1 ht
      refine ⟨(r.node, n), OrderedMap.mem_of_get? hlive, ?_⟩
      dsimp only
      rw [if_neg fun heq => hapart heq.symm]
      exact mem_candidatesOn.2 ⟨rfl, hkind, t, ht, haccepts, hlink, hfree⟩

theorem nodup_candidateSockets (hn : s.nodes.keys.Nodup) (p : PlugRef) : (s.candidateSockets p).Nodup := by
  unfold candidateSockets
  split
  · exact List.nodup_nil
  · rename_i q hq
    refine List.pairwise_flatMap.2 ⟨fun e _ => ?_, ?_⟩
    · dsimp only
      split
      · exact List.nodup_nil
      · exact s.nodup_candidatesOn p q.type e.1 e.2
    · -- Candidates on two nodes differ in the node.
      have hnode (e : NodeId × Node) (r : SocketRef)
          (hr : r ∈ if e.1 = p.node then [] else s.candidatesOn p q.type e.1 e.2) : r.node = e.1 := by
        split at hr
        · cases hr
        · exact (mem_candidatesOn.1 hr).1
      refine (List.pairwise_map.1 hn).imp fun {a b} hne => ?_
      rintro r ha _ hb rfl
      exact hne ((hnode a r ha).symm.trans (hnode b r hb))

theorem connect_ok_iff : (∃ c t, s.connect p r = .ok (c, t)) ↔ s.validate p r = .ok () := by
  unfold connect
  split
  · rename_i e he
    simp [he]
  · rename_i hok
    exact ⟨fun _ => hok, fun _ => ⟨_, _, rfl⟩⟩

/-! ## The candidates of a drag -/

theorem socketAnchor?_isSome (s : Session) (r : SocketRef) :
    (s.socketAnchor? r).isSome = (s.socket? r).isSome := by
  rw [socketAnchor?, socket?]
  cases s.node? r.node with
  | none => rfl
  | some n => exact Option.isSome_map

/-- Every socket that is found has a place, so a drag starts with all of them. -/
theorem sockets_candidatesFor (hn : s.nodes.keys.Nodup) (p : PlugRef) :
    (s.candidatesFor p).map (·.socket) = s.candidateSockets p := by
  have hplaced (r : SocketRef) (hr : r ∈ s.candidateSockets p) : ∃ a, s.socketAnchor? r = some a := by
    obtain ⟨-, t, -, ht, -⟩ := validate_eq_ok.1 ((mem_candidateSockets hn).1 hr)
    refine Option.isSome_iff_exists.1 ?_
    rw [socketAnchor?_isSome, ht]
    rfl
  rw [candidatesFor]
  generalize s.candidateSockets p = l at hplaced
  induction l with
  | nil => rfl
  | cons r rest ih =>
    obtain ⟨a, ha⟩ := hplaced r List.mem_cons_self
    rw [List.filterMap_cons, ha, Option.map_some, List.map_cons,
      ih fun q hq => hplaced q (List.mem_cons_of_mem r hq)]

end Search

/-- In every session that is reached the search for candidates and the check of a connection agree: the
search lists, each once, the sockets that the plug can be connected to now. -/
theorem Reached.candidates_connect {s : Session} (h : s.Reached) (p : PlugRef) :
    (s.candidateSockets p).Nodup ∧ ∀ r, r ∈ s.candidateSockets p ↔ ∃ c t, s.connect p r = .ok (c, t) := by
  have hnodes := h.intact.tied.nodesOnce
  refine ⟨nodup_candidateSockets hnodes p, fun r => ?_⟩
  rw [mem_candidateSockets hnodes, connect_ok_iff]

/-- A truth value has been picked up from its condition and may go back there, or to either input of a sum,
but not to the log, which shows something else. -/
theorem candidates_connect_amid_drag : ∃ s, s = (new .standard).applyAll
    [.spawn .generalAddition .origin 1.0, .spawn .isMobile .origin 1.0, .spawn .condition .origin 1.0,
      .spawn .consoleLog .origin 1.0, .spawn .screenSize .origin 1.0,
      .connect ⟨⟨1⟩, .data, 0⟩ ⟨⟨2⟩, .data, 0⟩, .connect ⟨⟨4⟩, .data, 0⟩ ⟨⟨3⟩, .data, 0⟩,
      .reconnect ⟨0⟩ .origin] ∧
    s.candidateSockets ⟨⟨1⟩, .data, 0⟩ = [⟨⟨0⟩, .data, 0⟩, ⟨⟨0⟩, .data, 1⟩, ⟨⟨2⟩, .data, 0⟩] ∧
    (s.candidateSockets ⟨⟨1⟩, .data, 0⟩).Nodup ∧ ∀ r, r ∈ s.candidateSockets ⟨⟨1⟩, .data, 0⟩ ↔
      ∃ c t, s.connect ⟨⟨1⟩, .data, 0⟩ r = .ok (c, t) := by
  refine ⟨_, rfl, rfl, ?_⟩
  exact Reached.candidates_connect ⟨.standard, _, by simp [Operation.Public], rfl⟩ _

end Session
end FlowGraph
