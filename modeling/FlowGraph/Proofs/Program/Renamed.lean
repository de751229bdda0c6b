import FlowGraph.Proofs.Program.Alike
import FlowGraph.Proofs.Program.Rebuilt

/-! # Saving what has been restored

A session with fixed types that is saved, restored and saved again gives the same program, but for the
names of its nodes and connectors.
-/

namespace FlowGraph
set_option autoImplicit false

namespace Session

/-- The renaming gives the nodes and connectors that are saved of `s` the names that they have in `t`. -/
structure Renames (s t : Session) (place : NodeId → NodeId) (renew : ConnectorId → ConnectorId)
    (f : Renaming) : Prop where
  node : ∀ id ∈ s.savedNodes, f.node id.text = (place id).text
  connector : ∀ c ∈ s.savedConnectors, f.connector c.text = (renew c).text

namespace Rebuilt
variable {s t : Session} {place : NodeId → NodeId} {renew : ConnectorId → ConnectorId} {f : Renaming}

/-! ## Nodes and connectors that stand for each other -/

theorem apart (h : s.Rebuilt t place renew) :
    ∀ a ∈ s.savedNodes, ∀ b ∈ s.savedNodes, place a = place b → a = b := by
  have honce : (s.savedNodes.map place).Nodup := by
    refine List.pairwise_map.2 (h.ordered.imp fun hless hsame => ?_)
    rw [hsame] at hless
    exact Nat.lt_irrefl _ hless
  exact fun a ha b hb => List.inj_on_of_nodup_map honce ha hb

theorem node (h : s.Rebuilt t place renew) {id : NodeId} {n : Node} (hid : id ∈ s.savedNodes)
    (hn : s.node? id = some n) :
    ∃ m, t.node? (place id) = some m ∧ m.kind = n.kind ∧ m.frame.look = s.savedLook n := by
  have hkind := (h.nodes id hid).kind
  have hlook := (h.nodes id hid).look
  rw [hn] at hkind hlook
  obtain ⟨m, hm, hkind⟩ := Option.map_eq_some_iff.1 hkind
  rw [hm] at hlook
  exact ⟨m, hm, hkind, Option.some.inj hlook⟩

theorem connector (h : s.Rebuilt t place renew) (hi : s.Intact) {c : ConnectorId} {k : Connector}
    {r : SocketRef} (hk : s.connector? c = some k) (hr : k.connectedTo = some r)
    (hsource : k.plug.node ∈ s.savedNodes) :
    ∃ k', t.connector? (renew c) = some k' ∧ k'.plug = { k.plug with node := place k.plug.node } ∧
      k'.connectedTo = some { r with node := place r.node } := by
  have hedge := (h.edge (renew c) _).2 ⟨c, (mem_savedConnectors hi).2 ⟨k, r, hk, hr, hsource⟩, _,
    edge?_of_connector? hk hr, rfl, rfl⟩
  obtain ⟨k', hk', hsame⟩ := edge_eq_some hedge
  exact ⟨k', hk', congrArg Edge.plug hsame, congrArg Edge.connectedTo hsame⟩

theorem startNodes (h : s.Rebuilt t place renew) (hi : s.Intact) (hs : s.Shaped) :
    t.startNodes = s.startNodes.map place := by
  have hsaved : s.startNodes.Sublist s.savedNodes := filter_savedNodes hi hs ▸ List.filter_sublist
  refine startNodes_eq h.intact (List.pairwise_map.2 (h.ordered.sublist hsaved)) fun x => ?_
  rw [List.mem_map]
  simp only [mem_startNodes hi]
  constructor
  · rintro ⟨id, ⟨n, hn, hstart⟩, rfl⟩
    obtain ⟨m, hm, hkind, -⟩ := h.node (hsaved.subset ((mem_startNodes hi).2 ⟨n, hn, hstart⟩)) hn
    exact ⟨m, hm, hkind.trans hstart⟩
  · rintro ⟨m, hm, hstart⟩
    obtain ⟨id, hid, rfl⟩ := h.only x (Option.isSome_of_eq_some hm)
    obtain ⟨n, hn⟩ := Option.isSome_iff_exists.1 (live_saved hi hid)
    obtain ⟨m', hm', hkind, -⟩ := h.node hid hn
    obtain rfl := Option.some.inj (hm.symm.trans hm')
    exact ⟨id, ⟨n, hn, hkind.symm.trans hstart⟩, rfl⟩

/-- With fixed types, all that is saved of the one session is found again in the other. -/
theorem alike (h : s.Rebuilt t place renew) (hi : s.Intact) (hs : s.Shaped) (hfixed : s.FixedTypes) :
    s.Alike t place renew where
  intact := h.intact
  shaped := h.shaped
  apart a b ha hb := h.apart a ((saved_iff hi).2 ha) b ((saved_iff hi).2 hb)
  starts := h.startNodes hi hs
  node id n hid hn := by
    obtain ⟨m, hm, hkind, hlook⟩ := h.node ((saved_iff hi).2 hid) hn
    exact ⟨m, hm, hkind, congrArg Look.position hlook, congrArg Look.scale hlook, congrArg Look.variant hlook⟩
  input r u u' hr hdata hu hu' := by
    obtain ⟨n, hn, hsocket⟩ := Option.bind_eq_some_iff.1 hu
    obtain ⟨m, hm, hsocket'⟩ := Option.bind_eq_some_iff.1 hu'
    obtain ⟨m', hm', hkind, hlook⟩ := h.node ((saved_iff hi).2 hr) hn
    obtain rfl := Option.some.inj (hm.symm.trans hm')
    have hadapts := NodeKind.adapts_of_fixed (hfixed r.node n hn).1 r.kind
    refine ⟨?_, fun hfeeder => ?_⟩
    · have hold := type_of_socket? hs hn hu hadapts
      have hnew := type_of_socket? h.shaped hm hu' (hkind ▸ hadapts)
      rw [hkind, hold] at hnew
      exact (Option.some.inj hnew).symm
    · rw [hdata] at hsocket hsocket'
      have hvalues : m.frame.dataSockets.map (·.value) =
          n.frame.dataSockets.map fun u => (s.inputOf u).value := congrArg Look.values hlook
      have hat := congrArg (·[r.index]?) hvalues
      have hat : (m.frame.socket? .data r.index).map (·.value) =
          (n.frame.socket? .data r.index).map fun u => (s.inputOf u).value := by
        rw [List.getElem?_map, List.getElem?_map] at hat
        exact hat
      rw [hsocket, hsocket', Option.map_some, Option.map_some, Session.inputOf, hfeeder] at hat
      exact Option.some.inj hat
  leaving p hp := h.leaving p ((saved_iff hi).2 hp)
  edge c k r hk hr hsource := h.connector hi hk hr ((saved_iff hi).2 hsource)
  arrival c' k' r hk' hr hr' := by
    obtain ⟨c, hc, e, he, -, hsame⟩ := (h.edge c' k'.edge).1 (edge_of_connector? hk')
    obtain ⟨k, hk, hplug, hsocket⟩ := edge?_eq_some he
    have htarget : e.socket.node ∈ s.savedNodes := by
      refine h.targets e ?_
      rw [savedEdges_eq]
      exact List.mem_filterMap.2 ⟨c, hc, he⟩
    have hat : (e.carry place).socket = { r with node := place r.node } :=
      Option.some.inj ((congrArg Edge.connectedTo hsame).symm.trans hr')
    have hsocket' := SocketRef.eq_of_moved (h.apart _ htarget _ ((saved_iff hi).2 hr)) hat
    refine ⟨c, k, hk, hsocket' ▸ hsocket, ?_⟩
    rw [hplug]
    exact congrArg Edge.plug hsame
  variableTypes := h.variableTypes

theorem relabels (h : s.Rebuilt t place renew) (hi : s.Intact) (hf : s.Renames t place renew f) :
    s.Relabels place renew f where
  node id hid := hf.node id ((saved_iff hi).2 hid)
  target e he := hf.node _ (h.targets e he)
  connector := hf.connector

/-- What is saved again is what was saved, renamed. -/
theorem toProgram (h : s.Rebuilt t place renew) (hi : s.Intact) (hs : s.Shaped) (hfixed : s.FixedTypes)
    (hf : s.Renames t place renew f) : t.toProgram = s.toProgram.rename f :=
  (h.alike hi hs hfixed).toProgram hi hs (h.relabels hi hf)

end Rebuilt
end Session

/-! ## Round trip -/

/-- The renaming goes along the report: a node is named as the one that stands for it, and a connector as
the one that joins the same ports of those. -/
structure Renaming.Follows (f : Renaming) (s : Session) (report : RestoreReport) (t : Session) : Prop where
  node : ∀ r ∈ s.toProgram.records, ∃ id, report.nodes.get? r.uid = some id ∧ f.node r.uid = id.text
  nodesApart : ∀ r ∈ s.toProgram.records, ∀ r' ∈ s.toProgram.records,
    f.node r.uid = f.node r'.uid → r.uid = r'.uid
  connector : ∀ c k r, s.connector? c = some k → k.connectedTo = some r →
    s.toProgram.Names k.plug.node.text → ∃ c' k' r', t.connector? c' = some k' ∧
      f.connector c.text = c'.text ∧ k'.connectedTo = some r' ∧
      f.node k.plug.node.text = k'.plug.node.text ∧ k'.plug = { k.plug with node := k'.plug.node } ∧
      f.node r.node.text = r'.node.text ∧ r' = { r with node := r'.node }
  connectorsApart : ∀ c d k l, s.connector? c = some k → s.connector? d = some l →
    k.connectedTo.isSome → l.connectedTo.isSome → s.toProgram.Names k.plug.node.text →
      s.toProgram.Names l.plug.node.text → f.connector c.text = f.connector d.text → c = d

/-- The renaming from what has been restored: names that are not saved stay as they are. -/
def Renaming.along (s : Session) (report : RestoreReport) (renew : ConnectorId → ConnectorId) : Renaming where
  node uid := ((report.nodes.get? uid).map (·.text)).getD uid
  connector name := ((s.savedConnectors.find? (·.text == name)).map fun c => (renew c).text).getD name

namespace Session

theorem renames_along {s t : Session} {report : RestoreReport} {renew : ConnectorId → ConnectorId}
    (hplace : ∀ id ∈ s.savedNodes, report.nodes.get? id.text = some (placeIn report id)) :
    s.Renames t (placeIn report) renew (.along s report renew) where
  node id hid := by
    show ((report.nodes.get? id.text).map (·.text)).getD id.text = _
    rw [hplace id hid]
    rfl
  connector c hc := by
    show ((s.savedConnectors.find? (·.text == c.text)).map fun c => (renew c).text).getD c.text = _
    rw [find?_name (fun _ _ => ConnectorId.text_injective) hc]
    rfl

theorem Rebuilt.follows {s t : Session} {report : RestoreReport} {renew : ConnectorId → ConnectorId}
    {f : Renaming} (h : s.Rebuilt t (placeIn report) renew) (hi : s.Intact)
    (hplace : ∀ id ∈ s.savedNodes, report.nodes.get? id.text = some (placeIn report id))
    (hf : s.Renames t (placeIn report) renew f) : f.Follows s report t := by
  have hrecord (r : NodeRecord) (hr : r ∈ s.toProgram.records) : ∃ id ∈ s.savedNodes, r.uid = id.text := by
    obtain ⟨id, n, hid, -, rfl⟩ := (mem_records hi).1 hr
    exact ⟨id, (saved_iff hi).2 hid, rfl⟩
  have hnamed (id : NodeId) (hid : s.toProgram.Names id.text) : id ∈ s.savedNodes := (mem_savedNodes hi).2 hid
  refine ⟨fun r hr => ?_, fun r hr r' hr' hsame => ?_, fun c k r hk hr hsource => ?_,
    fun c d k l hk hl hto hto' hsource hsource' hsame => ?_⟩
  · obtain ⟨id, hid, huid⟩ := hrecord r hr
    rw [huid]
    exact ⟨placeIn report id, hplace id hid, hf.node id hid⟩
  · obtain ⟨id, hid, huid⟩ := hrecord r hr
    obtain ⟨id', hid', huid'⟩ := hrecord r' hr'
    rw [huid, huid', hf.node id hid, hf.node id' hid'] at hsame
    rw [huid, huid', h.apart id hid id' hid' (NodeId.text_injective hsame)]
  · have hsaved := hnamed _ hsource
    have htarget : r.node ∈ s.savedNodes :=
      h.targets ⟨k.plug, r⟩ ((mem_savedEdges hi).2 ⟨hsaved, c, k, hk, rfl, hr⟩)
    obtain ⟨k', hk', hplug, hsocket⟩ := h.connector hi hk hr hsaved
    refine ⟨renew c, k', _, hk', hf.connector c ?_, hsocket, ?_, ?_, hf.node _ htarget, rfl⟩
    · exact (mem_savedConnectors hi).2 ⟨k, r, hk, hr, hsaved⟩
    · rw [hf.node _ hsaved, hplug]
    · rw [hplug]
  · obtain ⟨r, hr⟩ := Option.isSome_iff_exists.1 hto
    obtain ⟨r', hr'⟩ := Option.isSome_iff_exists.1 hto'
    have hc := (mem_savedConnectors hi).2 ⟨k, r, hk, hr, hnamed _ hsource⟩
    have hd := (mem_savedConnectors hi).2 ⟨l, r', hl, hr', hnamed _ hsource'⟩
    rw [hf.connector c hc, hf.connector d hd] at hsame
    exact h.renewed c hc d hd (ConnectorId.text_injective hsame)

/-- A session whose nodes fix the types of their ports, and of whose saved nodes every consumer is saved,
is restored without loss, and saved again it gives the same program under other names. -/
theorem Reached.restore_renamed {s : Session} (h : s.Reached) (hfixed : s.FixedTypes)
    (hconsumers : ∀ a b, s.toProgram.Names a.text → s.Leads .data a b → s.toProgram.Names b.text) :
    let out := (new .standard).restore .standard s.toProgram
    out.1.skippedNodes = [] ∧ out.1.skippedEdges = 0 ∧
      ∃ f : Renaming, f.Follows s out.1 out.2 ∧ out.2.toProgram = s.toProgram.rename f := by
  have hintact := h.intact
  have hshaped := h.shaped
  have htargets : ∀ e ∈ s.savedEdges, e.socket.node ∈ s.savedNodes := by
    refine (targets_saved_iff hintact hshaped).2 ((selfContained_iff hintact hshaped).2 fun a b ha hab => ?_)
    exact (names_iff hintact).1 (hconsumers a b ((names_iff hintact).2 ha) hab)
  obtain ⟨hnodes, hedges, hplace, renew, hrebuilt⟩ :=
    rebuilt_restore hintact hshaped h.fitting hfixed htargets
  have hf : s.Renames ((new .standard).restore .standard s.toProgram).2 _ renew (.along s _ renew) :=
    renames_along hplace
  exact ⟨hnodes, hedges, _, hrebuilt.follows hintact hplace hf,
    hrebuilt.toProgram hintact hshaped hfixed hf⟩

/-- The flow divides, both ways meet in the logging, and from there one comes back to where it divided. A
size feeds what is logged through a product, and the nodes were made in another order than they run. -/
def roundMerge : Session := (new .standard).applyAll
  [.spawn .screenSize .origin 1.0, .spawn .math .origin 2.0, .spawn .consoleLog .origin 1.0,
    .spawn .condition .origin 1.0, .spawn .startEvent .origin 1.0, .spawn .isMobile .origin 1.0,
    .selectVariant ⟨1⟩ .multiply, .setValue ⟨⟨1⟩, .data, 0⟩ (some (.bool true)),
    .registerVariable "speed" .num, .connect ⟨⟨0⟩, .data, 0⟩ ⟨⟨1⟩, .data, 1⟩,
    .connect ⟨⟨1⟩, .data, 0⟩ ⟨⟨2⟩, .data, 0⟩, .connect ⟨⟨2⟩, .flow, 0⟩ ⟨⟨3⟩, .flow, 0⟩,
    .connect ⟨⟨3⟩, .flow, 1⟩ ⟨⟨2⟩, .flow, 0⟩, .connect ⟨⟨3⟩, .flow, 0⟩ ⟨⟨2⟩, .flow, 0⟩,
    .connect ⟨⟨5⟩, .data, 0⟩ ⟨⟨3⟩, .data, 0⟩, .connect ⟨⟨4⟩, .flow, 0⟩ ⟨⟨3⟩, .flow, 0⟩]

theorem reached_roundMerge : roundMerge.Reached := ⟨.standard, _, by simp [Operation.Public], rfl⟩

theorem savedNodes_roundMerge : roundMerge.savedNodes = [⟨4⟩, ⟨3⟩, ⟨2⟩, ⟨5⟩, ⟨1⟩, ⟨0⟩] := by
  have hstart : roundMerge.startNodes = List.mergeSort [⟨4⟩] fun a b => a.number ≤ b.number := rfl
  rw [List.mergeSort_singleton] at hstart
  unfold savedNodes recordedNodes flows
  rw [hstart]
  rfl

theorem restore_roundMerge : roundMerge.FixedTypes ∧
    (∀ a b, roundMerge.toProgram.Names a.text → roundMerge.Leads .data a b →
      roundMerge.toProgram.Names b.text) ∧
    let out := (new .standard).restore .standard roundMerge.toProgram
    out.1.skippedEdges = 0 ∧ ∃ f : Renaming, f.Follows roundMerge out.1 out.2 ∧
      out.2.toProgram = roundMerge.toProgram.rename f := by
  have hkinds : roundMerge.nodes.entries.all
      (fun e => e.2.kind != .generalAddition && e.2.kind != .variableRead) = true := rfl
  have hfixed : roundMerge.FixedTypes := by
    intro id n hn
    have hkind := List.all_eq_true.1 hkinds _ (OrderedMap.mem_of_get? hn)
    obtain ⟨hsum, hread⟩ := Bool.and_eq_true_iff.1 hkind
    exact ⟨bne_iff_ne.1 hsum, bne_iff_ne.1 hread⟩
  have hkeys : ∀ id ∈ roundMerge.nodes.keys, id ∈ roundMerge.savedNodes := by
    rw [savedNodes_roundMerge]
    decide
  have hconsumers (a b : NodeId) (_ : roundMerge.toProgram.Names a.text) (hab : roundMerge.Leads .data a b) :
      roundMerge.toProgram.Names b.text := by
    have hlive := (hab.live reached_roundMerge.intact).2
    exact (mem_savedNodes reached_roundMerge.intact).1 (hkeys b ((OrderedMap.mem_keys_iff _ b).2 hlive))
  obtain ⟨-, hedges, hsame⟩ := Reached.restore_renamed reached_roundMerge hfixed hconsumers
  exact ⟨hfixed, hconsumers, hedges, hsame⟩

end Session
end FlowGraph
