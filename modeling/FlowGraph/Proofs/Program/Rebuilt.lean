import FlowGraph.Proofs.Program.Links
import FlowGraph.Proofs.Session.Fitting

/-! # Sessions that are restored whole

Where the kinds of the nodes fix all types, every edge that finds its target is made again. The connectors
are numbered anew in the order in which they were saved, and each plug has its own in the old order.
-/

namespace FlowGraph
set_option autoImplicit false

namespace NodeKind
variable {kind : NodeKind}

theorem derives_of_fixed (hsum : kind ≠ .generalAddition) (hread : kind ≠ .variableRead) (port : PortKind) :
    kind.derives port = false := by
  rw [derives, beq_false_of_ne hsum, beq_false_of_ne hread]
  rfl

theorem adapts_of_fixed (hsum : kind ≠ .generalAddition) (port : PortKind) : kind.adapts port = false := by
  rw [adapts, beq_false_of_ne hsum]
  rfl

end NodeKind

namespace Session

/-! ## Fixed types -/

/-- No port of a node takes its type from elsewhere. -/
def FixedTypes (s : Session) : Prop :=
  ∀ id n, s.node? id = some n → n.kind ≠ .generalAddition ∧ n.kind ≠ .variableRead

section Types
variable {s : Session} {types : SocketRef → PortType} {n : Node}

theorem restoredType_of_fixed {p : PlugRef} {q : Plug} (hn : s.node? p.node = some n)
    (hsum : n.kind ≠ .generalAddition) (hread : n.kind ≠ .variableRead) (hq : s.plug? p = some q) :
    s.restoredType types p = q.type := by
  rw [plug?, hn] at hq
  have hplug : n.frame.plug? p.kind p.index = some q := hq
  unfold restoredType
  rw [hn]
  dsimp only
  split
  · rename_i hk _
    exact absurd hk hsum
  · rename_i hk _
    exact absurd hk hread
  · rw [hplug]
    rfl

theorem openType_of_fixed {r : SocketRef} {t : Socket} (hn : s.node? r.node = some n)
    (hsum : n.kind ≠ .generalAddition) (ht : s.socket? r = some t) : s.openType r = t.type := by
  rw [socket?, hn] at ht
  have hsocket : n.frame.socket? r.kind r.index = some t := ht
  rw [openType, hn, Option.bind_some, hsocket, Option.map_some, Option.getD_some, NodeKind.bareType,
    NodeKind.adapts_of_fixed hsum, if_neg Bool.false_ne_true]

/-- Whatever the inputs of sums carry, every saved edge can be made again. -/
theorem takes_of_fixed (h : s.Intact) (hs : s.Shaped) (hfit : s.Fitting) (hfixed : s.FixedTypes)
    {e : PendingEdge} (he : e ∈ s.savedEdges) : s.takes types e = true := by
  obtain ⟨-, c, k, hk, hplug, hr⟩ := (mem_savedEdges h).1 he
  obtain ⟨n, hn⟩ := Option.isSome_iff_exists.1 (live_of_edge h hk)
  obtain ⟨m, hm⟩ := Option.isSome_iff_exists.1 (live_of_arrival h hk hr)
  obtain ⟨q, hq⟩ := Option.isSome_iff_exists.1 (live_plug h hk)
  obtain ⟨t, ht⟩ := Option.isSome_iff_exists.1 (live_socket h hk hr)
  rw [hplug] at hn hq
  obtain ⟨hsum, hread⟩ := hfixed _ n hn
  obtain ⟨hsum', -⟩ := hfixed _ m hm
  have hderives := NodeKind.derives_of_fixed hsum hread e.plug.kind
  have hadapts := NodeKind.adapts_of_fixed hsum' e.socket.kind
  have hedge : s.wiring.edge c = some ⟨e.plug, some e.socket, k.state⟩ := by
    rw [edge_of_connector? hk, Connector.edge, hplug, hr]
  have hfits : n.kind.Fit m.kind e.plug e.socket :=
    hfit c _ e.socket _ _ hedge rfl (congrArg (Option.map _) hn) (congrArg (Option.map _) hm)
  obtain hopen | hopen | ⟨type, type', htype, htype', haccepts⟩ := hfits
  · rw [hderives] at hopen
    cases hopen
  · rw [hadapts] at hopen
    cases hopen
  · rw [type_of_plug? hs hn hq hderives] at htype
    rw [type_of_socket? hs hm ht hadapts] at htype'
    rw [takes, restoredType_of_fixed hn hsum hread hq, openType_of_fixed hm hsum' ht,
      Option.some.inj htype, Option.some.inj htype']
    exact haccepts

theorem refusedBy_eq_nil {es : List PendingEdge} (h : ∀ types, ∀ e ∈ es, s.takes types e = true) :
    s.refusedBy types es = [] := by
  induction es generalizing types with
  | nil => rfl
  | cons e rest ih =>
    rw [refusedBy, if_pos (h types e List.mem_cons_self)]
    exact ih fun types f hf => h types f (List.mem_cons_of_mem _ hf)

end Types

/-! ## Making edges -/

/-- The second session has some connectors more, each with its edge, fastened behind those that were on its
plug. -/
structure Made (t u : Session) (made : List (ConnectorId × PendingEdge)) : Prop where
  live : ∀ id, (u.node? id).isSome = (t.node? id).isSome
  variableTypes : u.variableTypes = t.variableTypes
  edge : ∀ c e, u.wiring.edge c = some e ↔ t.wiring.edge c = some e ∨
    ∃ m ∈ made, m.1 = c ∧ e = ⟨m.2.plug, some m.2.socket, .connected⟩
  leaving : ∀ p, u.leaving p = t.leaving p ++ made.filterMap fun m =>
    if m.2.plug = p then some m.1 else none

namespace Made
variable {t u v : Session}

theorem refl (t : Session) : t.Made t [] := by
  refine ⟨fun _ => rfl, rfl, fun c e => ?_, fun p => (List.append_nil _).symm⟩
  simp

theorem trans {made made' : List (ConnectorId × PendingEdge)} (h : t.Made u made) (h' : u.Made v made') :
    t.Made v (made ++ made') := by
  refine ⟨fun id => (h'.live id).trans (h.live id), h'.variableTypes.trans h.variableTypes,
    fun c e => ?_, fun p => ?_⟩
  · rw [h'.edge, h.edge, or_assoc]
    simp only [List.mem_append, or_and_right, exists_or]
  · rw [h'.leaving, h.leaving, List.append_assoc, List.filterMap_append]

theorem variableTypes_connect {p : PlugRef} {r : SocketRef} {c : ConnectorId}
    (hu : t.connect p r = .ok (c, u)) : u.variableTypes = t.variableTypes := by
  obtain ⟨-, rfl, start, style, rfl⟩ := Intact.connect_eq hu
  unfold link
  split
  · rfl
  · obtain ⟨calls, hdrawn⟩ := drawPath_eq _ t.ids.connector.1
    rw [hdrawn]
    rfl

theorem connect (h : t.Intact) {p : PlugRef} {r : SocketRef} {c : ConnectorId}
    (hu : t.connect p r = .ok (c, u)) : t.Made u [(c, ⟨p, r⟩)] := by
  obtain ⟨hok, hc, -⟩ := Intact.connect_eq hu
  obtain ⟨q, -, hq, -⟩ := validate_eq_ok.1 hok
  have hfree := (free_of_validate h.tied.sound hok).2
  have hfresh : t.wiring.edge c = none := hc ▸ h.tied.edge_fresh
  refine ⟨fun id => ?_, variableTypes_connect hu, fun d e => ?_, fun p' => ?_⟩
  · have hkind := congrArg Option.isSome (kind_connect hfree.node hq hu id)
    rw [Option.isSome_map, Option.isSome_map] at hkind
    exact hkind
  · rw [wiring_connect hu]
    show (if d = c then some (Edge.mk p (some r) .connected)
      else if d = c then some _ else t.wiring.edge d) = some e ↔ _
    by_cases hd : d = c
    · rw [if_pos hd, hd, hfresh]
      simp [eq_comm]
    · rw [if_neg hd, if_neg hd]
      simp [Ne.symm hd]
  · rw [leaving_eq, leaving_eq, wiring_connect hu]
    show (if p' = p then (t.wiring.departures p).map (· ++ [c]) else t.wiring.departures p').getD [] = _
    by_cases hp : p' = p
    · rw [if_pos hp, hp, departures_of_plug? hq]
      simp
    · rw [if_neg hp]
      simp [Ne.symm hp]

theorem ids_connect {p : PlugRef} {r : SocketRef} {c : ConnectorId} (hu : t.connect p r = .ok (c, u)) :
    c = ⟨t.ids.nextConnector⟩ ∧ u.ids.nextConnector = t.ids.nextConnector + 1 := by
  obtain ⟨-, rfl, start, style, rfl⟩ := Intact.connect_eq hu
  refine ⟨rfl, ?_⟩
  rw [(steady_link _ _ _).ids]
  rfl

/-- A round that refuses no edge makes them all, with fresh connectors in their order. -/
theorem each (h : t.Intact) {made : List (ConnectorId × PendingEdge)}
    (hround : Restore.connectEach t (made.map (·.2)) = ⟨u, [], 0⟩)
    (hnumbers : made.map (·.1) = (List.range' t.ids.nextConnector made.length).map ConnectorId.mk) :
    t.Made u made := by
  induction made generalizing t with
  | nil =>
    obtain rfl : t = u := congrArg Restore.Round.session hround
    exact refl t
  | cons m rest ih =>
    obtain ⟨d, p, r⟩ := m
    rw [List.map_cons, Restore.connectEach] at hround
    split at hround
    · rename_i c t' ht
      obtain ⟨hc, hnext⟩ := ids_connect ht
      rw [List.map_cons, List.length_cons, List.range'_succ, List.map_cons] at hnumbers
      obtain ⟨hd, hrest⟩ := List.cons.inj hnumbers
      rw [← hnext] at hrest
      have hfirst := connect h ht
      have hmore := ih (h.connect ht) hround hrest
      rw [hc, ← hd] at hfirst
      exact hfirst.trans hmore
    · cases congrArg Restore.Round.deferred hround
    · cases congrArg Restore.Round.refused hround

end Made

theorem connectAll_of_round {t u : Session} {es : List PendingEdge}
    (h : Restore.connectEach t es = ⟨u, [], 0⟩) : Restore.connectAll es.length t es = (0, u) := by
  cases es with
  | nil =>
    obtain rfl : t = u := congrArg Restore.Round.session h
    rfl
  | cons e rest =>
    rw [List.length_cons, Restore.connectAll, h]
    rfl

/-! ## The restored session -/

/-- `t` holds what is saved of `s` and nothing else, with other identities. -/
structure Rebuilt (s t : Session) (place : NodeId → NodeId) (renew : ConnectorId → ConnectorId) : Prop where
  targets : ∀ e ∈ s.savedEdges, e.socket.node ∈ s.savedNodes
  intact : t.Intact
  shaped : t.Shaped
  nodes : ∀ id ∈ s.savedNodes, s.Respawned t id (place id)
  only : ∀ n, (t.node? n).isSome → ∃ id ∈ s.savedNodes, n = place id
  ordered : s.savedNodes.Pairwise fun a b => (place a).number < (place b).number
  edge : ∀ c' e, t.wiring.edge c' = some e ↔ ∃ c ∈ s.savedConnectors, ∃ f, s.edge? c = some f ∧
    renew c = c' ∧ e = ⟨(f.carry place).plug, some (f.carry place).socket, .connected⟩
  leaving : ∀ p : PlugRef, p.node ∈ s.savedNodes →
    t.leaving { p with node := place p.node } = (s.leaving p).map renew
  renewed : ∀ c ∈ s.savedConnectors, ∀ d ∈ s.savedConnectors, renew c = renew d → c = d
  variableTypes : t.toProgram.variableTypes = s.toProgram.variableTypes

/-- What is found at one place of a list without repetition. -/
theorem flatMap_at {α β : Type} [DecidableEq α] {l : List α} (h : l.Nodup) (a : α) (b : List β) :
    (l.flatMap fun x => if x = a then b else []) = if a ∈ l then b else [] := by
  induction l with
  | nil => rfl
  | cons x rest ih =>
    obtain ⟨hnew, hrest⟩ := List.nodup_cons.1 h
    rw [List.flatMap_cons, ih hrest]
    by_cases hx : x = a
    · rw [if_pos hx, if_neg (hx ▸ hnew), if_pos (hx ▸ List.mem_cons_self), List.append_nil]
    · have hmem : a ∈ x :: rest ↔ a ∈ rest := by simp [Ne.symm hx]
      rw [if_neg hx, List.nil_append]
      simp only [hmem]

section Numbering
variable {s : Session} {place : NodeId → NodeId} {renew : ConnectorId → ConnectorId}

/-- The connectors that are made for the saved ones, with their edges. -/
def remade (s : Session) (place : NodeId → NodeId) (renew : ConnectorId → ConnectorId) :
    List (ConnectorId × PendingEdge) :=
  s.savedConnectors.filterMap fun c => (s.edge? c).map fun e => (renew c, e.carry place)

theorem edges_remade (s : Session) (place : NodeId → NodeId) (renew : ConnectorId → ConnectorId) :
    (s.remade place renew).map (·.2) = s.savedEdges.map (·.carry place) := by
  rw [remade, savedEdges_eq, List.map_filterMap, List.map_filterMap]
  exact List.filterMap_congr fun c _ => Option.map_map ..

theorem connectors_remade (h : s.Intact) :
    (s.remade place renew).map (·.1) = s.savedConnectors.map renew := by
  rw [remade, List.map_filterMap, ← List.filterMap_eq_map]
  refine List.filterMap_congr fun c hc => ?_
  obtain ⟨k, r, hk, hr, -⟩ := (mem_savedConnectors h).1 hc
  rw [edge?_of_connector? hk hr]
  rfl

/-- The new connectors of a plug are in the order of the old ones. -/
theorem leaving_remade (h : s.Intact)
    (hplace : ∀ id ∈ s.savedNodes, ∀ id' ∈ s.savedNodes, place id = place id' → id = id')
    {p : PlugRef} (hp : p.node ∈ s.savedNodes) :
    ((s.remade place renew).filterMap fun m =>
      if m.2.plug = { p with node := place p.node } then some m.1 else none) =
        (s.leaving p).map renew := by
  have hplug (p' : PlugRef) (hp' : p' ∈ s.savedPlugs) :
      ((s.leaving p').filterMap fun c => ((s.edge? c).map fun e => (renew c, e.carry place)).bind fun m =>
        if m.2.plug = { p with node := place p.node } then some m.1 else none) =
          if p' = p then (s.leaving p).map renew else [] := by
    obtain ⟨id, hid, hp'⟩ := List.mem_flatMap.1 hp'
    obtain ⟨rfl, -⟩ := mem_plugsOf.1 hp'
    have hone (c : ConnectorId) (hc : c ∈ s.leaving p') :
        (((s.edge? c).map fun e => (renew c, e.carry place)).bind fun m =>
          if m.2.plug = { p with node := place p.node } then some m.1 else none) =
            if p' = p then some (renew c) else none := by
      obtain ⟨k, r, hk, rfl, hr⟩ := (mem_leaving h).1 hc
      have hsame : ({ k.plug with node := place k.plug.node } : PlugRef) =
          { p with node := place p.node } ↔ k.plug = p := by
        refine ⟨PlugRef.eq_of_moved (hplace _ hid _ hp), fun heq => ?_⟩
        rw [heq]
      rw [edge?_of_connector? hk hr, Option.map_some, Option.bind_some]
      simp only [PendingEdge.carry, hsame]
    rw [List.filterMap_congr hone]
    by_cases heq : p' = p
    · simp only [heq, if_true]
      exact congrFun List.filterMap_eq_map _
    · simp [heq]
  rw [remade, List.filterMap_filterMap, savedConnectors, List.filterMap_flatMap,
    List.flatMap_congr hplug, flatMap_at s.nodup_savedPlugs]
  split
  · rfl
  · rename_i hout
    have hgone : s.plug? p = none := by
      refine Option.eq_none_iff_forall_ne_some.2 fun q hq => hout ?_
      exact List.mem_flatMap.2 ⟨p.node, hp, mem_plugsOf.2 ⟨rfl, Option.isSome_of_eq_some hq⟩⟩
    rw [leaving, hgone]
    rfl

/-- Saved connectors are numbered anew from the next number on. -/
def renumber (s : Session) (start : Nat) (c : ConnectorId) : ConnectorId :=
  ⟨start + s.savedConnectors.idxOf c⟩

theorem renumber_injective {start : Nat} {c d : ConnectorId} (hc : c ∈ s.savedConnectors)
    (h : s.renumber start c = s.renumber start d) : c = d :=
  (List.idxOf_inj hc).1 (Nat.add_left_cancel (congrArg ConnectorId.number h))

theorem numbers_remade (h : s.Intact) (start : Nat) :
    (s.remade place (s.renumber start)).map (·.1) =
      (List.range' start (s.remade place (s.renumber start)).length).map ConnectorId.mk := by
  have hlength : (s.remade place (s.renumber start)).length = s.savedConnectors.length := by
    rw [← List.length_map (·.1), connectors_remade h, List.length_map]
  rw [connectors_remade h, hlength]
  refine List.ext_getElem (by simp) fun i hi hi' => ?_
  rw [List.getElem_map, List.getElem_map, List.getElem_range', renumber,
    (nodup_savedConnectors h).idxOf_getElem, Nat.one_mul]

end Numbering

/-- Restoring what is saved of a session with fixed types rebuilds it, if no target is missing. -/
theorem rebuilt_restore {s : Session} (h : s.Intact) (hs : s.Shaped) (hfit : s.Fitting)
    (hfixed : s.FixedTypes) (htargets : ∀ e ∈ s.savedEdges, e.socket.node ∈ s.savedNodes) :
    let out := (new .standard).restore .standard s.toProgram
    out.1.skippedNodes = [] ∧ out.1.skippedEdges = 0 ∧
      (∀ id ∈ s.savedNodes, out.1.nodes.get? id.text = some (placeIn out.1 id)) ∧
        ∃ renew, s.Rebuilt out.2 (placeIn out.1) renew := by
  obtain ⟨out, hspawned, hintact, hshaped, hempty, hrestore⟩ := restore_of_targets h hs htargets
  have hnone (c : ConnectorId) : out.1.wiring.edge c = none := by
    show (out.1.connectors.get? c).map _ = none
    rw [hempty]
    rfl
  have hmirror := hspawned.mirrors hintact hshaped hnone
  have hplace := hspawned.place_injective
  have hsaves (e : PendingEdge) (he : e ∈ s.savedEdges) : s.Saves e := saves_of_target h he (htargets e he)
  obtain ⟨t, hround, hmirror', -⟩ := hmirror.round hs hplace hsaves
    (fun e he => hmirror.free hs h hplace hnone he (hsaves e he)) (apart_savedEdges h)
  rw [refusedBy_eq_nil fun types e he => takes_of_fixed h hs hfit hfixed he] at hround
  have hall := connectAll_of_round hround
  rw [List.length_map] at hall
  dsimp only at hrestore ⊢
  rw [hrestore, hall]
  have hmade : out.1.Made t (s.remade (placeIn out.2) (s.renumber out.1.ids.nextConnector)) := by
    refine Made.each hintact ?_ (numbers_remade h _)
    rw [edges_remade]
    exact hround
  refine ⟨hspawned.skipped, rfl, fun id hid => hspawned.get?_place hid, s.renumber out.1.ids.nextConnector,
    htargets, hmirror'.intact, hmirror'.shaped, hmirror'.nodes, fun n hn => ?_, ?_, fun c' e => ?_,
    fun p hp => ?_, fun c hc d _ hsame => renumber_injective hc hsame, ?_⟩
  · rw [hmade.live] at hn
    obtain hold | ⟨id, hid, hat⟩ := hspawned.only n hn
    · obtain ⟨known, hregister, -⟩ := registerVariables_eq (new .standard) s.toProgram.variableTypes
      rw [hregister] at hold
      cases hold
    · rw [hspawned.get?_place hid] at hat
      exact ⟨id, hid, (Option.some.inj hat).symm⟩
  · exact hspawned.ordered.imp_of_mem fun ha hb hless =>
      hless _ _ (hspawned.get?_place ha) (hspawned.get?_place hb)
  · rw [hmade.edge, hnone]
    simp only [reduceCtorEq, false_or, remade, List.mem_filterMap, Option.map_eq_some_iff]
    constructor
    · rintro ⟨_, ⟨c, hc, f, hf, rfl⟩, rfl, rfl⟩
      exact ⟨c, hc, f, hf, rfl, rfl⟩
    · rintro ⟨c, hc, f, hf, rfl, rfl⟩
      exact ⟨_, ⟨c, hc, f, hf, rfl⟩, rfl, rfl⟩
  · have hbefore : out.1.leaving { p with node := placeIn out.2 p.node } = [] := by
      refine List.eq_nil_iff_forall_not_mem.2 fun c hc => ?_
      obtain ⟨k, -, hk, -⟩ := (mem_leaving hintact).1 hc
      have hedge := edge_of_connector? hk
      rw [hnone] at hedge
      cases hedge
    have hafter := hmade.leaving { p with node := placeIn out.2 p.node }
    rw [leaving_remade h hplace hp, hbefore, List.nil_append] at hafter
    exact hafter
  · have hentries := entries_registerVariables (s := new .standard) rfl s.toProgram.variableTypes
    show SortedMap.ofList t.variableTypes.entries = _
    rw [hmade.variableTypes, hspawned.grows.variableTypes, hentries, SortedMap.ofList_entries]

end Session
end FlowGraph
