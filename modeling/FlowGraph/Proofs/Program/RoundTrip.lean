import FlowGraph.Proofs.Program.Reconnect

/-! # Restoring what was saved

A session is saved and restored into a new one. All nodes come back, and so does every edge whose socket
accepts the type that its plug has once the inputs of the sums have settled. Settling goes by the order
of the saved edges and not by the types that the saved session had: an edge from one sum into another
that is made before the first sum knows its inputs hands on `any` for good.
-/

namespace FlowGraph
set_option autoImplicit false

namespace Session

/-! ## Counting -/

section Counting
variable {s t : Session}

theorem keys_link (s : Session) (c : ConnectorId) (r : SocketRef) :
    (s.link c r).connectors.keys = s.connectors.keys := by
  have hpath (u : Session) : (u.drawPath c).connectors = u.connectors := by
    unfold drawPath
    split <;> rfl
  unfold link
  split
  · rfl
  · dsimp only
    rw [hpath, modifyConnector, OrderedMap.keys_modify]
    rfl

theorem size_connect (h : s.Intact) {p : PlugRef} {r : SocketRef} {c : ConnectorId}
    (ht : s.connect p r = .ok (c, t)) : t.connectors.size = s.connectors.size + 1 := by
  obtain ⟨-, rfl, start, style, rfl⟩ := Intact.connect_eq ht
  have hfresh : s.ids.connector.1 ∉ s.connectors.keys := by
    intro hin
    have hsome := (edge_isSome s.ids.connector.1).2 hin
    rw [h.tied.edge_fresh] at hsome
    cases hsome
  have hopened : (s.addConnector p start start style).2.connectors.keys =
      s.connectors.keys ++ [s.ids.connector.1] := by
    show (s.connectors.put s.ids.connector.1 _).keys = _
    rw [OrderedMap.keys_put, List.filter_eq_self.2]
    intro d hd
    refine decide_eq_true fun hsame => ?_
    rw [hsame] at hd
    exact hfresh hd
  have hlength := congrArg List.length ((keys_link _ s.ids.connector.1 r).trans hopened)
  rw [List.length_append, OrderedMap.keys, OrderedMap.keys, List.length_map, List.length_map] at hlength
  exact hlength

/-- Every edge of a round is made, put off or refused. -/
theorem size_connectEach (h : s.Intact) (es : List PendingEdge) :
    (Restore.connectEach s es).session.connectors.size +
        ((Restore.connectEach s es).deferred.length + (Restore.connectEach s es).refused) =
      s.connectors.size + es.length := by
  induction es generalizing s with
  | nil => rfl
  | cons e rest ih =>
    unfold Restore.connectEach
    split
    · rename_i c t ht
      have hrest := ih (h.connect ht)
      have hone := size_connect h ht
      rw [List.length_cons]
      omega
    · have hrest := ih h
      dsimp only
      rw [List.length_cons, List.length_cons]
      omega
    · have hrest := ih h
      dsimp only
      rw [List.length_cons]
      omega

/-- Every edge is made or left out. -/
theorem size_connectAll (h : s.Intact) (rounds : Nat) (es : List PendingEdge) :
    (Restore.connectAll rounds s es).2.connectors.size + (Restore.connectAll rounds s es).1 =
      s.connectors.size + es.length := by
  induction rounds generalizing s es with
  | zero => rfl
  | succ rounds ih =>
    have hround := size_connectEach h es
    unfold Restore.connectAll
    dsimp only
    split
    · dsimp only
      omega
    · have hmore := ih (h.moves (moves_connectEach s es)) (Restore.connectEach s es).deferred
      dsimp only
      omega

end Counting

/-! ## Rounds -/

/-- What is left out are the edges that the settled types do not admit. -/
theorem Mirrors.rounds {s t : Session} {place : NodeId → NodeId} {types : SocketRef → PortType}
    (hs : s.Shaped)
    (hplace : ∀ id ∈ s.savedNodes, ∀ id' ∈ s.savedNodes, place id = place id' → id = id')
    (h : s.Mirrors t place types) (hdata : DataTypes types) {es : List PendingEdge}
    (hopen : s.Unsettled types es) (hsaves : ∀ e ∈ es, s.Saves e)
    (hfree : ∀ e ∈ es, t.wiring.Free (e.carry place).plug (e.carry place).socket)
    (hapart : es.Pairwise PendingEdge.Apart) {rounds : Nat} (hrounds : es.length ≤ rounds) :
    (Restore.connectAll rounds t (es.map (·.carry place))).1 =
      (es.filter (!s.takes (s.settleAll types es) ·)).length := by
  induction rounds generalizing t types es with
  | zero =>
    obtain rfl := List.length_eq_zero_iff.1 (Nat.le_zero.1 hrounds)
    rfl
  | succ rounds ih =>
    obtain ⟨t', hround, hmirror, hfrees⟩ := h.round hs hplace hsaves hfree hapart
    have hsub := refusedBy_sublist s types es
    have hfilter := filter_refusedBy hdata hopen hapart
    unfold Restore.connectAll
    rw [hround]
    dsimp only
    rw [List.length_map, List.length_map, List.isEmpty_map]
    split
    · rename_i hstop
      dsimp only
      rw [Nat.zero_add, ← hfilter]
      obtain hnil | hall := Bool.or_eq_true_iff.1 hstop
      · rw [List.isEmpty_iff.1 hnil]
        rfl
      · -- The round has changed nothing, so what it refused stays refused.
        obtain ⟨hsame, hrefused⟩ := refusedBy_all (eq_of_beq hall)
        rw [hsame, List.filter_eq_self.2]
        intro e he
        rw [hrefused e (hsub.subset he)]
        rfl
    · rename_i hgo
      have hless : (s.refusedBy types es).length < es.length := by
        refine Nat.lt_of_le_of_ne hsub.length_le fun heq => hgo ?_
        rw [heq, beq_self_eq_true, Bool.or_true]
      have hdata' : DataTypes (s.settleAll types es) := data_settleAll hdata es
      have hstable : s.settleAll (s.settleAll types es) (s.refusedBy types es) =
          s.settleAll types es :=
        settleAll_stable fun e he ha => refused_adaptive he ha hdata hdata'
      have hrest := ih hmirror hdata' (unsettled_refusedBy hopen hapart)
        (fun e he => hsaves e (hsub.subset he))
        (fun e he => hfrees e (hsaves e (hsub.subset he)) (Or.inr he) (hfree e (hsub.subset he)))
        (hapart.sublist hsub) (by omega)
      dsimp only
      rw [hrest, Nat.zero_add, hstable, hfilter]

/-! ## The restored session -/

def placeIn (report : RestoreReport) (id : NodeId) : NodeId := (report.nodes.get? id.text).getD id

namespace Spawned
variable {s t : Session} {report : RestoreReport} {out : Session × RestoreReport}

theorem get?_place (h : s.Spawned t report s.savedNodes out) {id : NodeId} (hid : id ∈ s.savedNodes) :
    out.2.nodes.get? id.text = some (placeIn out.2 id) := by
  obtain ⟨place, hplace, -⟩ := h.placed id hid
  rw [placeIn, hplace]
  rfl

theorem place_injective (h : s.Spawned t report s.savedNodes out) :
    ∀ id ∈ s.savedNodes, ∀ id' ∈ s.savedNodes, placeIn out.2 id = placeIn out.2 id' → id = id' := by
  intro id hid id' hid' hsame
  refine h.apart id hid id' hid' ?_
  rw [h.get?_place hid, h.get?_place hid', hsame]

/-- Before an edge is made, no sum knows its inputs. -/
theorem mirrors (h : s.Spawned t report s.savedNodes out) (hintact : out.1.Intact)
    (hshaped : out.1.Shaped) (hnone : ∀ c, out.1.wiring.edge c = none) :
    s.Mirrors out.1 (placeIn out.2) fun _ => .any := by
  have hnodes : ∀ id ∈ s.savedNodes, s.Respawned out.1 id (placeIn out.2 id) := by
    intro id hid
    obtain ⟨place, hplace, -, -, hstands⟩ := h.placed id hid
    rw [placeIn, hplace]
    exact hstands
  refine ⟨hintact, hshaped, hnodes, fun r u hr ha hu => ?_⟩
  have hidle : u.incoming = [] := by
    refine (hintact.tied.sound.arrivals _ _ (arrivals_of_socket? hu)).eq_nil ?_
    rintro c ⟨e, he, -⟩
    rw [hnone c] at he
    cases he
  obtain ⟨m, hm, hu⟩ := Option.bind_eq_some_iff.1 hu
  have hadapts : m.kind.adapts r.kind = true := by
    have hsame := (hnodes _ hr).adaptive
    rw [ha, adaptive_of_node? hm] at hsame
    exact hsame
  exact (hshaped _ m hm).idle r.kind r.index u hu hadapts hidle

end Spawned

/-- Nothing keeps the plugs from the sockets in the session whose edges are still to be made. -/
theorem Mirrors.free {s t : Session} {place : NodeId → NodeId} {types : SocketRef → PortType}
    (h : s.Mirrors t place types) (hs : s.Shaped) (hintact : s.Intact)
    (hplace : ∀ id ∈ s.savedNodes, ∀ id' ∈ s.savedNodes, place id = place id' → id = id')
    (hnone : ∀ c, t.wiring.edge c = none) {e : PendingEdge} (hsaved : e ∈ s.savedEdges)
    (he : s.Saves e) : t.wiring.Free (e.carry place).plug (e.carry place).socket := by
  obtain ⟨c, k, hk, hp, hr⟩ := connector_of_saved hsaved
  obtain ⟨u, hu⟩ := Option.isSome_iff_exists.1 he.socket
  obtain ⟨v, hv, -⟩ := h.socket hs he.target hu
  obtain ⟨-, hkind, hnode⟩ := hintact.tied.sound.linked c _ _ (edge_of_connector? hk) hr
  have hkind' : e.plug.kind = e.socket.kind := by
    rw [← hp]
    exact hkind
  have hnode' : e.plug.node ≠ e.socket.node := by
    rw [← hp]
    exact hnode
  refine ⟨?_, hkind', fun hsame => ?_, fun d f hf => ?_⟩
  · exact Option.isSome_of_eq_some (arrivals_of_socket? hv)
  · exact hnode' (hplace _ he.source _ he.target hsame)
  · rw [hnone d] at hf
    cases hf

/-- A new session with the variables of the saved one makes all its nodes, and then tries the edges that
find a node to lead to. -/
theorem restore_spawned {s : Session} (h : s.Intact) (hs : s.Shaped) :
    ∃ out, s.Spawned (Restore.registerVariables (new .standard) s.toProgram.variableTypes) ⟨.empty, [], 0⟩
        s.savedNodes out ∧ out.1.Intact ∧ out.1.Shaped ∧ out.1.connectors = .empty ∧
      let edges := s.savedEdges.map (·.carry? out.2.nodes (placeIn out.2))
      let pending := edges.filterMap id
      let made := Restore.connectAll pending.length out.1 pending
      (new .standard).restore .standard s.toProgram =
        ({ out.2 with skippedEdges := edges.length - pending.length + made.1 }, made.2) := by
  obtain ⟨known, hregister, hget⟩ := registerVariables_eq (new .standard) s.toProgram.variableTypes
  have hempty : (new .standard).removeAll = new .standard := rfl
  have hspawned := spawned_spawnAll (t := { new .standard with variableTypes := known }) hs
    (nodup_eachOnce s.recordedNodes) (fun id hid => live_saved h hid) rfl hget ⟨.empty, [], 0⟩
  have hregistered := moves_registerVariables (new .standard) s.toProgram.variableTypes
  rw [hregister] at hregistered
  have hmoves := hregistered.trans (moves_spawnAll ((intact_new .standard).moves hregistered) .standard
    ⟨.empty, [], 0⟩ (s.savedNodes.map s.recordAt))
  rw [hregister]
  refine ⟨_, hspawned, (intact_new .standard).moves hmoves, (shaped_new .standard).moves hmoves,
    hspawned.grows.connectors, ?_⟩
  have hedges := edges_asked h fun id hid => hspawned.get?_place hid
  unfold restore
  rw [hempty, hregister, firstRecords_toProgram h]
  dsimp only
  rw [savedNodes] at hedges ⊢
  rw [hedges]

/-- If all edges lead to saved nodes, all are tried. -/
theorem restore_of_targets {s : Session} (h : s.Intact) (hs : s.Shaped)
    (htargets : ∀ e ∈ s.savedEdges, e.socket.node ∈ s.savedNodes) :
    ∃ out, s.Spawned (Restore.registerVariables (new .standard) s.toProgram.variableTypes) ⟨.empty, [], 0⟩
        s.savedNodes out ∧ out.1.Intact ∧ out.1.Shaped ∧ out.1.connectors = .empty ∧
      let edges := s.savedEdges.map (·.carry (placeIn out.2))
      let made := Restore.connectAll s.savedEdges.length out.1 edges
      (new .standard).restore .standard s.toProgram = ({ out.2 with skippedEdges := made.1 }, made.2) := by
  obtain ⟨out, hspawned, hintact, hshaped, hempty, hrestore⟩ := restore_spawned h hs
  have hcarried := carry?_saved htargets fun id hid => hspawned.get?_place hid
  have hpending (place : NodeId → NodeId) :
      (s.savedEdges.map fun e => some (e.carry place)).filterMap id = s.savedEdges.map (·.carry place) := by
    rw [List.filterMap_map]
    exact congrFun List.filterMap_eq_map s.savedEdges
  refine ⟨out, hspawned, hintact, hshaped, hempty, ?_⟩
  dsimp only at hrestore ⊢
  rw [hrestore, hcarried, hpending, List.length_map, List.length_map, Nat.sub_self, Nat.zero_add]

theorem restore_eq {s : Session} (h : s.Intact) (hs : s.Shaped)
    (hall : ∀ id, (s.node? id).isSome → id ∈ s.savedNodes) :
    ∃ t out, s.Spawned t ⟨.empty, [], 0⟩ s.savedNodes out ∧ out.1.Intact ∧ out.1.Shaped ∧
      out.1.connectors = .empty ∧
      let edges := s.savedEdges.map (·.carry (placeIn out.2))
      let made := Restore.connectAll s.savedEdges.length out.1 edges
      (new .standard).restore .standard s.toProgram = ({ out.2 with skippedEdges := made.1 }, made.2) :=
  ⟨_, restore_of_targets h hs fun _ he => hall _ (target_of_saved h he)⟩

/-! ## Round trip -/

/-- The types that the inputs of the sums have after all saved edges have been tried once, in order. -/
def settledTypes (s : Session) : SocketRef → PortType := s.settleAll (fun _ => .any) s.savedEdges

/-- Every edge can be made with the types that settle. -/
def Restorable (s : Session) : Prop := ∀ e ∈ s.savedEdges, s.takes s.settledTypes e = true

/-- A new session restores every node, and exactly those edges that the types that settle admit. -/
theorem Reached.restore_toProgram {s : Session} (h : s.Reached) (hdrag : s.drag = none)
    (hall : ∀ id, (s.node? id).isSome → ∃ r ∈ s.toProgram.records, r.uid = id.text) :
    let out := (new .standard).restore .standard s.toProgram
    out.1.skippedNodes = [] ∧
      out.1.skippedEdges = (s.savedEdges.filter (!s.takes s.settledTypes ·)).length ∧
      (out.1.skippedEdges = 0 ↔ s.Restorable) ∧
      out.2.connectors.size + out.1.skippedEdges = s.connectors.size := by
  have hintact := h.intact
  have hshaped := h.shaped
  have hsaved : ∀ id, (s.node? id).isSome → id ∈ s.savedNodes :=
    fun id hid => (mem_savedNodes hintact).2 (hall id hid)
  obtain ⟨t, out, hspawned, hout, hshape, hempty, hrestore⟩ := restore_eq hintact hshaped hsaved
  have hnone (c : ConnectorId) : out.1.wiring.edge c = none := by
    show (out.1.connectors.get? c).map _ = none
    rw [hempty]
    rfl
  have hmirror := hspawned.mirrors hout hshape hnone
  have hplace := hspawned.place_injective
  have hsaves (e : PendingEdge) (he : e ∈ s.savedEdges) : s.Saves e := saves_of_saved hintact hsaved he
  have hfree (e : PendingEdge) (he : e ∈ s.savedEdges) :
      out.1.wiring.Free (e.carry (placeIn out.2)).plug (e.carry (placeIn out.2)).socket :=
    hmirror.free hshaped hintact hplace hnone he (hsaves e he)
  have hskipped := hmirror.rounds hshaped hplace (fun _ hc => by cases hc) (fun _ _ _ => rfl) hsaves
    hfree (apart_savedEdges hintact) (Nat.le_refl _)
  have hsize := size_connectAll hout s.savedEdges.length (s.savedEdges.map (·.carry (placeIn out.2)))
  have hnew : out.1.connectors.size = 0 := by
    rw [hempty]
    rfl
  have hlength := length_savedEdges hintact hdrag hsaved
  rw [List.length_map, hnew, Nat.zero_add] at hsize
  dsimp only
  rw [hrestore]
  refine ⟨hspawned.skipped, hskipped, ?_, hsize.trans hlength⟩
  dsimp only
  rw [hskipped, List.length_eq_zero_iff, List.filter_eq_nil_iff, Restorable]
  simp only [Bool.not_eq_true, Bool.not_eq_false']
  exact Iff.rfl

/-! ## Sums that feed one another -/

/-- Whether the edge that a connector is has live ends and fits the types that these have now. -/
def fits (s : Session) (k : Connector) : Bool :=
  match s.plug? k.plug, k.connectedTo.bind s.socket? with
  | some p, some t => t.accepts p.type
  | _, _ => false

/-- A size feeds a sum, that another sum, and this the product that is logged. Of the sums the one that
comes first in the program is the one that is fed by the other. -/
def nestedSums : Session := (new .standard).applyAll
  [.spawn .startEvent .origin 1.0, .spawn .consoleLog .origin 1.0, .spawn .multiplication .origin 1.0,
    .spawn .generalAddition .origin 1.0, .spawn .generalAddition .origin 1.0,
    .spawn .screenSize .origin 1.0,
    .connect ⟨⟨0⟩, .flow, 0⟩ ⟨⟨1⟩, .flow, 0⟩, .connect ⟨⟨2⟩, .data, 0⟩ ⟨⟨1⟩, .data, 0⟩,
    .connect ⟨⟨5⟩, .data, 0⟩ ⟨⟨4⟩, .data, 0⟩, .connect ⟨⟨5⟩, .data, 1⟩ ⟨⟨4⟩, .data, 1⟩,
    .connect ⟨⟨4⟩, .data, 0⟩ ⟨⟨3⟩, .data, 0⟩, .connect ⟨⟨5⟩, .data, 0⟩ ⟨⟨3⟩, .data, 1⟩,
    .connect ⟨⟨3⟩, .data, 0⟩ ⟨⟨2⟩, .data, 0⟩]

theorem reached_nestedSums : nestedSums.Reached := ⟨.standard, _, by simp [Operation.Public], rfl⟩

theorem savedNodes_nestedSums : nestedSums.savedNodes = nestedSums.nodes.keys := by
  have hstart : nestedSums.startNodes = List.mergeSort [⟨0⟩] fun a b => a.number ≤ b.number := rfl
  rw [List.mergeSort_singleton] at hstart
  unfold savedNodes recordedNodes flows
  rw [hstart]
  rfl

theorem savedEdges_nestedSums : nestedSums.savedEdges =
    [⟨⟨⟨0⟩, .flow, 0⟩, ⟨⟨1⟩, .flow, 0⟩⟩, ⟨⟨⟨2⟩, .data, 0⟩, ⟨⟨1⟩, .data, 0⟩⟩,
      ⟨⟨⟨3⟩, .data, 0⟩, ⟨⟨2⟩, .data, 0⟩⟩, ⟨⟨⟨4⟩, .data, 0⟩, ⟨⟨3⟩, .data, 0⟩⟩,
      ⟨⟨⟨5⟩, .data, 0⟩, ⟨⟨4⟩, .data, 0⟩⟩, ⟨⟨⟨5⟩, .data, 0⟩, ⟨⟨3⟩, .data, 1⟩⟩,
      ⟨⟨⟨5⟩, .data, 1⟩, ⟨⟨4⟩, .data, 1⟩⟩] := by
  unfold savedEdges savedPlugs
  rw [savedNodes_nestedSums]
  rfl

/-- Every node is saved and every edge fits, but the edge out of the second sum is left out. -/
theorem restore_nestedSums :
    nestedSums.drag = none ∧
      (∀ id, (nestedSums.node? id).isSome → ∃ r ∈ nestedSums.toProgram.records, r.uid = id.text) ∧
      (∀ e ∈ nestedSums.connectors.entries, nestedSums.fits e.2) ∧
      let out := (new .standard).restore .standard nestedSums.toProgram
      out.1.skippedNodes = [] ∧ out.1.skippedEdges = 1 ∧ ¬nestedSums.Restorable ∧
        nestedSums.connectors.size = 7 ∧ out.2.connectors.size = 6 := by
  have hall : ∀ id, (nestedSums.node? id).isSome →
      ∃ r ∈ nestedSums.toProgram.records, r.uid = id.text := by
    intro id hid
    refine (mem_savedNodes reached_nestedSums.intact).1 ?_
    rw [savedNodes_nestedSums, OrderedMap.mem_keys_iff]
    exact hid
  have hfits : nestedSums.connectors.entries.all (fun e => nestedSums.fits e.2) = true := rfl
  have hrefused : (nestedSums.savedEdges.filter
      (!nestedSums.takes nestedSums.settledTypes ·)).length = 1 := by
    unfold settledTypes
    rw [savedEdges_nestedSums]
    rfl
  have hsize : nestedSums.connectors.size = 7 := rfl
  obtain ⟨hnodes, hskipped, hcondition, hmade⟩ := reached_nestedSums.restore_toProgram rfl hall
  rw [hrefused] at hskipped
  refine ⟨rfl, hall, List.all_eq_true.1 hfits, hnodes, hskipped, fun hall => ?_, hsize, ?_⟩
  · rw [hcondition.2 hall] at hskipped
    cases hskipped
  · rw [hskipped, hsize] at hmade
    exact Nat.succ.inj hmade

end Session
end FlowGraph
