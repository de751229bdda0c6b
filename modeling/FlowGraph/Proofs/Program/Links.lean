import FlowGraph.Proofs.Program.RoundTrip
import FlowGraph.Proofs.Program.Search

/-! # The links of a program

The records of a program name other nodes. Each source of an input and each flow link leads to a node that
has a record too, but a data link may lead to a node that is in no flow and feeds none. Restoring skips
such a link.
-/

namespace FlowGraph
set_option autoImplicit false

namespace Program

/-- The program has a record of the node. -/
def Names (p : Program) (uid : String) : Prop := ∃ r ∈ p.records, r.uid = uid

/-- Every node that a record of the program names has a record in it. -/
def SelfContained (p : Program) : Prop :=
  ∀ r ∈ p.records, (∀ links ∈ r.flowPlugs, ∀ link ∈ links, p.Names link.target) ∧
    (∀ links ∈ r.dataPlugs, ∀ link ∈ links, p.Names link.target) ∧
    ∀ input ∈ r.inputs, ∀ source, input.source = some source → p.Names source

end Program

namespace Session
section Links
variable {s : Session} {a b id : NodeId} {n : Node} {uid : String}

/-! ## What a record names -/

theorem names_iff (h : s.Intact) : s.toProgram.Names id.text ↔ s.FeedsFlow id := by
  rw [← saved_iff h]
  exact (mem_savedNodes h).symm

theorem mem_linksOf {p : Plug} : (∃ link ∈ s.linksOf p, link.target = uid) ↔
    ∃ c ∈ p.connected, ∃ k r, s.connector? c = some k ∧ k.connectedTo = some r ∧ r.node.text = uid := by
  simp only [linksOf, List.mem_filterMap, Option.map_eq_some_iff, Option.bind_eq_some_iff]
  constructor
  · rintro ⟨_, ⟨c, hc, r, ⟨k, hk, hr⟩, rfl⟩, htarget⟩
    exact ⟨c, hc, k, r, hk, hr, htarget⟩
  · rintro ⟨c, hc, k, r, hk, hr, htarget⟩
    exact ⟨_, ⟨c, hc, r, ⟨k, hk, hr⟩, rfl⟩, htarget⟩

/-- The links of a record are the edges out of its node. -/
theorem mem_links (h : s.Intact) (hn : s.node? id = some n) (kind : PortKind) :
    (∃ links ∈ (n.frame.plugs kind).map s.linksOf, ∃ link ∈ links, link.target = uid) ↔
      ∃ b, s.Leads kind id b ∧ b.text = uid := by
  simp only [leads_iff h hn, List.mem_map]
  constructor
  · rintro ⟨_, ⟨p, hp, rfl⟩, hlink⟩
    obtain ⟨c, hc, k, r, hk, hr, htarget⟩ := mem_linksOf.1 hlink
    exact ⟨r.node, ⟨p, hp, c, hc, k, r, hk, hr, rfl⟩, htarget⟩
  · rintro ⟨_, ⟨p, hp, c, hc, k, r, hk, hr, rfl⟩, htarget⟩
    exact ⟨_, ⟨p, hp, rfl⟩, mem_linksOf.2 ⟨c, hc, k, r, hk, hr, htarget⟩⟩

/-- The sources of a record are the data edges into its node. -/
theorem mem_inputs (h : s.Intact) (hn : s.node? id = some n) :
    (∃ input ∈ n.frame.dataSockets.map s.inputOf, input.source = some uid) ↔
      ∃ a, s.Leads .data a id ∧ a.text = uid := by
  have hinput (t : Socket) :
      (s.inputOf t).source = some uid ↔ ∃ a, (s.feeder? t).map (·.node) = some a ∧ a.text = uid := by
    rw [inputOf]
    cases s.feeder? t with
    | some p => simp
    | none => simp
  simp only [← mem_dataSources h hn, dataSources, List.mem_filterMap, List.mem_map]
  constructor
  · rintro ⟨_, ⟨t, ht, rfl⟩, hsource⟩
    obtain ⟨a, ha, htext⟩ := (hinput t).1 hsource
    exact ⟨a, ⟨t, ht, ha⟩, htext⟩
  · rintro ⟨a, ⟨t, ht, ha⟩, htext⟩
    exact ⟨_, ⟨t, ht, rfl⟩, (hinput t).2 ⟨a, ha, htext⟩⟩

/-! ## Self-contained programs -/

theorem mem_records (h : s.Intact) {r : NodeRecord} : r ∈ s.toProgram.records ↔
    ∃ id n, s.FeedsFlow id ∧ s.node? id = some n ∧ r = s.recordOf id n := by
  rw [records_toProgram h, List.mem_map]
  simp only [mem_recordedNodes h]
  constructor
  · rintro ⟨id, hid, rfl⟩
    obtain ⟨n, hn⟩ := Option.isSome_iff_exists.1 (live_recorded h id ((mem_recordedNodes h).2 hid))
    exact ⟨id, n, hid, hn, recordAt_of_node? hn⟩
  · rintro ⟨id, n, hid, hn, rfl⟩
    exact ⟨id, hid, recordAt_of_node? hn⟩

/-- Of the nodes that a record names only those behind data links may be without a record. -/
theorem named_of_record (h : s.Intact) (hs : s.Shaped) {r : NodeRecord} (hr : r ∈ s.toProgram.records) :
    (∀ links ∈ r.flowPlugs, ∀ link ∈ links, s.toProgram.Names link.target) ∧
      (∀ links ∈ r.dataPlugs, ∀ link ∈ links, ∃ id, (s.node? id).isSome ∧ link.target = id.text ∧
        (s.toProgram.Names link.target ↔ s.FeedsFlow id)) ∧
      ∀ input ∈ r.inputs, ∀ source, input.source = some source → s.toProgram.Names source := by
  obtain ⟨id, n, hid, hn, rfl⟩ := (mem_records h).1 hr
  refine ⟨fun links hlinks link hlink => ?_, fun links hlinks link hlink => ?_,
    fun input hinput source hsource => ?_⟩
  · obtain ⟨b, hb, htext⟩ := (mem_links h hn .flow).1 ⟨links, hlinks, link, hlink, rfl⟩
    rw [← htext, names_iff h]
    exact hid.flow h hs hb
  · obtain ⟨b, hb, htext⟩ := (mem_links h hn .data).1 ⟨links, hlinks, link, hlink, rfl⟩
    refine ⟨b, (hb.live h).2, htext.symm, ?_⟩
    rw [← htext]
    exact names_iff h
  · obtain ⟨a, ha, htext⟩ := (mem_inputs h hn).1 ⟨input, hinput, hsource⟩
    rw [← htext, names_iff h]
    exact hid.source ha

theorem selfContained_iff (h : s.Intact) (hs : s.Shaped) : s.toProgram.SelfContained ↔
    ∀ a b, s.FeedsFlow a → s.Leads .data a b → s.FeedsFlow b := by
  constructor
  · intro hself a b ha hab
    obtain ⟨n, hn⟩ := Option.isSome_iff_exists.1 (hab.live h).1
    obtain ⟨-, hdata, -⟩ := hself _ ((mem_records h).2 ⟨a, n, ha, hn, rfl⟩)
    obtain ⟨links, hlinks, link, hlink, htext⟩ := (mem_links h hn .data).2 ⟨b, hab, rfl⟩
    rw [← names_iff h, ← htext]
    exact hdata links hlinks link hlink
  · intro hclosed r hr
    obtain ⟨hflow, hdata, hinput⟩ := named_of_record h hs hr
    refine ⟨hflow, fun links hlinks link hlink => ?_, hinput⟩
    obtain ⟨id, n, hid, hn, rfl⟩ := (mem_records h).1 hr
    obtain ⟨b, hb, htext⟩ := (mem_links h hn .data).1 ⟨links, hlinks, link, hlink, rfl⟩
    rw [← htext, names_iff h]
    exact hclosed id b hid hb

theorem targets_saved_iff (h : s.Intact) (hs : s.Shaped) :
    (∀ e ∈ s.savedEdges, e.socket.node ∈ s.savedNodes) ↔ s.toProgram.SelfContained := by
  rw [selfContained_iff h hs]
  simp only [saved_iff h]
  constructor
  · rintro htargets a b ha ⟨c, k, r, hk, hr, -, rfl, rfl⟩
    exact htargets ⟨k.plug, r⟩ ((mem_savedEdges h).2 ⟨(saved_iff h).2 ha, c, k, hk, rfl, hr⟩)
  · intro hclosed e he
    obtain ⟨hsource, c, k, hk, hplug, hr⟩ := (mem_savedEdges h).1 he
    have hlead : s.Leads e.plug.kind e.plug.node e.socket.node :=
      ⟨c, k, e.socket, hk, hr, congrArg PlugRef.kind hplug, congrArg PlugRef.node hplug, rfl⟩
    cases hkind : e.plug.kind with
    | flow => exact ((saved_iff h).1 hsource).flow h hs (hkind ▸ hlead)
    | data => exact hclosed _ _ ((saved_iff h).1 hsource) (hkind ▸ hlead)

/-- Restoring misses a node for no edge exactly if all targets have been saved. -/
theorem edges_found_iff (h : s.Intact) (hs : s.Shaped) :
    let out := (new .standard).restore .standard s.toProgram
    (∀ e ∈ Restore.edges out.1.nodes (Restore.firstRecords s.toProgram.records), e.isSome) ↔
      ∀ e ∈ s.savedEdges, e.socket.node ∈ s.savedNodes := by
  obtain ⟨out, hspawned, -, -, -, hrestore⟩ := restore_spawned h hs
  have hfound (id : NodeId) : (out.2.nodes.get? id.text).isSome ↔ id ∈ s.savedNodes := by
    constructor
    · intro hget
      by_contra hout
      rw [hspawned.other id.text fun m hm hsame => hout (NodeId.text_injective hsame ▸ hm)] at hget
      cases hget
    · intro hid
      rw [hspawned.get?_place hid]
      rfl
  dsimp only at hrestore ⊢
  rw [hrestore, firstRecords_toProgram h]
  dsimp only
  rw [edges_asked h fun id hid => hspawned.get?_place hid]
  simp only [List.forall_mem_map, PendingEdge.carry?, Option.isSome_map, hfound]

end Links

/-! ## What is missing -/

/-- Two loggings show one size, but only the first one is in the flow. -/
def loggedAside : Session := (new .standard).applyAll
  [.spawn .startEvent .origin 1.0, .spawn .consoleLog .origin 1.0, .spawn .consoleLog .origin 1.0,
    .spawn .screenSize .origin 1.0, .connect ⟨⟨0⟩, .flow, 0⟩ ⟨⟨1⟩, .flow, 0⟩,
    .connect ⟨⟨3⟩, .data, 0⟩ ⟨⟨1⟩, .data, 0⟩, .connect ⟨⟨3⟩, .data, 0⟩ ⟨⟨2⟩, .data, 0⟩]

theorem reached_loggedAside : loggedAside.Reached := ⟨.standard, _, by simp [Operation.Public], rfl⟩

theorem savedNodes_loggedAside : loggedAside.savedNodes = [⟨0⟩, ⟨1⟩, ⟨3⟩] := by
  have hstart : loggedAside.startNodes = List.mergeSort [⟨0⟩] fun a b => a.number ≤ b.number := rfl
  rw [List.mergeSort_singleton] at hstart
  unfold savedNodes recordedNodes flows
  rw [hstart]
  rfl

theorem not_targets_loggedAside :
    ¬ ∀ e ∈ loggedAside.savedEdges, e.socket.node ∈ loggedAside.savedNodes := by
  intro htargets
  have hsize : (⟨⟨⟨3⟩, .data, 0⟩, ⟨⟨2⟩, .data, 0⟩⟩ : PendingEdge) ∈ loggedAside.savedEdges := by
    refine (mem_savedEdges reached_loggedAside.intact).2 ⟨?_, ⟨2⟩, _, rfl, rfl, rfl⟩
    rw [savedNodes_loggedAside]
    decide
  have hsaved := htargets _ hsize
  rw [savedNodes_loggedAside] at hsaved
  revert hsaved
  decide

/-- The program links the size to the second logging, of which it has no record. -/
theorem not_selfContained_loggedAside :
    loggedAside.Reached ∧ loggedAside.drag = none ∧ ¬ loggedAside.toProgram.SelfContained := by
  refine ⟨reached_loggedAside, rfl, fun hself => not_targets_loggedAside ?_⟩
  exact (targets_saved_iff reached_loggedAside.intact reached_loggedAside.shaped).2 hself

/-- In every program that is saved of a session, sources and flow links name nodes that have records. A data
link does so exactly if its target is in a flow or feeds one, so the program is self-contained exactly if
all consumers of its nodes are in it, and then restoring it misses no node. -/
theorem Reached.named {s : Session} (h : s.Reached) :
    (∀ r ∈ s.toProgram.records,
      (∀ links ∈ r.flowPlugs, ∀ link ∈ links, s.toProgram.Names link.target) ∧
      (∀ links ∈ r.dataPlugs, ∀ link ∈ links, ∃ id, (s.node? id).isSome ∧ link.target = id.text ∧
        (s.toProgram.Names link.target ↔ s.FeedsFlow id)) ∧
      ∀ input ∈ r.inputs, ∀ source, input.source = some source → s.toProgram.Names source) ∧
    (s.toProgram.SelfContained ↔ ∀ a b, s.FeedsFlow a → s.Leads .data a b → s.FeedsFlow b) ∧
    let out := (new .standard).restore .standard s.toProgram
    (∀ e ∈ Restore.edges out.1.nodes (Restore.firstRecords s.toProgram.records), e.isSome) ↔
      s.toProgram.SelfContained := by
  have hintact := h.intact
  have hshaped := h.shaped
  refine ⟨fun r hr => named_of_record hintact hshaped hr, selfContained_iff hintact hshaped, ?_⟩
  exact (edges_found_iff hintact hshaped).trans (targets_saved_iff hintact hshaped)

/-- Restored, the program asks for an edge to the second logging, which is missing. -/
theorem missing_loggedAside : loggedAside.Reached ∧
    ¬ ∀ e ∈ Restore.edges ((new .standard).restore .standard loggedAside.toProgram).1.nodes
        (Restore.firstRecords loggedAside.toProgram.records), e.isSome := by
  refine ⟨reached_loggedAside, fun hfound => not_targets_loggedAside ?_⟩
  refine (targets_saved_iff reached_loggedAside.intact reached_loggedAside.shaped).2 ?_
  exact (Reached.named reached_loggedAside).2.2.1 hfound

end Session
end FlowGraph
