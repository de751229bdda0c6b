import FlowGraph.Proofs.Program.Search
import FlowGraph.Proofs.Session.Reached

/-! # What a program covers

The two searches of saving find what the graph of the session says: the flows hold what the start nodes
reach, and besides them stands what feeds them.
-/

namespace FlowGraph
set_option autoImplicit false

namespace Session

/-- The program of a session holds the flows of the start nodes and what feeds them, and no more. -/
structure Covered (s : Session) : Prop where
  /-- One flow per start node, in the order of their identities, each beginning with its start node. -/
  starts : ∃ ids : List NodeId, ids.Pairwise (·.number < ·.number) ∧
    (∀ id, id ∈ ids ↔ ∃ n, s.node? id = some n ∧ n.kind = .startEvent) ∧
    List.Forall₂ (fun flow id => ∃ r rest, s.record? id = some r ∧ flow = .node r :: rest)
      s.toProgram.flows ids
  flows : ∀ r, r ∈ Entry.branchNodes s.toProgram.flows ↔ ∃ id, s.InFlow id ∧ s.record? id = some r
  additional : ∀ r, r ∈ s.toProgram.additional ↔
    ∃ id, ¬ s.InFlow id ∧ s.FeedsFlow id ∧ s.record? id = some r
  once : (s.toProgram.additional.map (·.uid)).Nodup

section Records
variable {s : Session} {id : NodeId} {n : Node} {r : NodeRecord}

/-- Lists of live nodes and of their records hold the same. -/
theorem mem_map_recordAt {l : List NodeId} (hlive : ∀ id ∈ l, (s.node? id).isSome) :
    r ∈ l.map s.recordAt ↔ ∃ id ∈ l, s.record? id = some r := by
  rw [← filterMap_record? hlive, List.mem_filterMap]

theorem mem_additionalNodes (h : s.Intact) :
    id ∈ s.additionalNodes ↔ ¬ s.InFlow id ∧ s.FeedsFlow id := by
  rw [← mem_recordedNodes h, ← mem_flows h]
  show id ∈ s.additionalNodes ↔ _ ∧ id ∈ _ ++ s.additionalNodes
  rw [List.mem_append, additionalNodes, List.mem_filter, Bool.not_eq_true', ← Bool.not_eq_true,
    List.contains_iff_mem]
  constructor
  · rintro ⟨hsource, hout⟩
    exact ⟨hout, Or.inr ⟨hsource, hout⟩⟩
  · rintro ⟨hout, hin | hsource⟩
    · exact absurd hin hout
    · exact hsource

/-- What is found for the start nodes is written down one by one. -/
theorem flows_begin (h : s.Intact) : List.Forall₂
    (fun flow id => ∃ r rest, s.record? id = some r ∧ flow = .node r :: rest)
    s.toProgram.flows s.startNodes := by
  rw [flows_toProgram, Session.flows, List.map_map, List.forall₂_map_left_iff, List.forall₂_same]
  intro id hid
  obtain ⟨n, hn, -⟩ := (mem_startNodes h).1 hid
  have hlive : (s.node? id).isSome := by
    rw [hn]
    rfl
  have hroom : 1 ≤ s.nodes.size := length_le_size (List.pairwise_singleton _ id) fun x hx => by
    rw [List.mem_singleton.1 hx]
    exact hlive
  obtain ⟨room, hroom⟩ := Nat.exists_eq_add_of_le' hroom
  obtain ⟨rest, hrest⟩ := Entry.nodeFlow_eq_cons id (n.frame.identifier = NodeKind.condition.identifier)
    n.frame.forceBranch ((s.waysFrom n).map (Option.map (s.onward room [id])))
  refine ⟨s.recordAt id, Entry.mapFlow s.recordAt rest, record?_of_live hlive, ?_⟩
  rw [Function.comp_apply, hroom, s.flowFrom_of_node? room [] hn, hrest]
  rfl

end Records

/-- Saving leaves nothing out and adds nothing. -/
theorem Reached.covered {s : Session} (h : s.Reached) : s.Covered := by
  have hintact := h.intact
  have hadditional : ∀ id ∈ s.additionalNodes, (s.node? id).isSome :=
    fun id hid => live_sourcesOf hintact _ id (List.mem_filter.1 hid).1
  refine ⟨⟨s.startNodes, sorted_startNodes hintact, fun id => mem_startNodes hintact,
    flows_begin hintact⟩, fun r => ?_, fun r => ?_, ?_⟩
  · have hrecords : Entry.branchNodes s.toProgram.flows = (Entry.branchNodes s.flows).map s.recordAt :=
      Entry.branchNodes_mapFlows s.recordAt s.flows
    rw [hrecords, mem_map_recordAt s.live_flows]
    simp only [mem_flows hintact]
  · rw [additional_toProgram hintact, mem_map_recordAt hadditional]
    simp only [mem_additionalNodes hintact, and_assoc]
  · have hids : s.additionalNodes.Nodup := (mem_sourcesOf hintact s.live_flows).1.filter _
    rw [additional_toProgram hintact, List.map_map, List.Nodup, List.pairwise_map]
    refine hids.imp_of_mem fun {a b} ha hb hne hsame => hne (NodeId.text_injective ?_)
    rw [← uid_recordAt (hadditional a ha), ← uid_recordAt (hadditional b hb)]
    exact hsame

/-- The flow divides, both ways meet in the logging, and from there one comes back to where it divided.
A size feeds what is logged through a product. -/
theorem covered_round_merge : ((new .standard).applyAll
    [.spawn .startEvent .origin 1.0, .spawn .condition .origin 1.0, .spawn .consoleLog .origin 1.0,
      .spawn .isMobile .origin 1.0, .spawn .multiplication .origin 1.0, .spawn .screenSize .origin 1.0,
      .connect ⟨⟨0⟩, .flow, 0⟩ ⟨⟨1⟩, .flow, 0⟩, .connect ⟨⟨1⟩, .flow, 0⟩ ⟨⟨2⟩, .flow, 0⟩,
      .connect ⟨⟨1⟩, .flow, 1⟩ ⟨⟨2⟩, .flow, 0⟩, .connect ⟨⟨2⟩, .flow, 0⟩ ⟨⟨1⟩, .flow, 0⟩,
      .connect ⟨⟨3⟩, .data, 0⟩ ⟨⟨1⟩, .data, 0⟩, .connect ⟨⟨4⟩, .data, 0⟩ ⟨⟨2⟩, .data, 0⟩,
      .connect ⟨⟨5⟩, .data, 0⟩ ⟨⟨4⟩, .data, 1⟩]).Covered :=
  Reached.covered ⟨.standard, _, by simp [Operation.Public], rfl⟩

end Session
end FlowGraph
