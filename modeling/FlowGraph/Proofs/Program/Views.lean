import FlowGraph.Proofs.Program.Links
import FlowGraph.Proofs.Session.Rules

/-! # Two views of the data edges

A record tells of the edges into its node by the sources of its inputs, and of the edges out of it by the
links of its plugs. Compiling follows the sources, restoring follows the links. Both are read off the
same connectors, the sources at their sockets and the links at their plugs, so they tell of the same
edges between the nodes that have records.
-/

namespace FlowGraph
set_option autoImplicit false

namespace NodeRecord

/-- Input `socket` of the record reads plug `port` of the node `source`. -/
def Reads (r : NodeRecord) (socket : Nat) (source : String) (port : Nat) : Prop :=
  ∃ input, r.inputs[socket]? = some input ∧ input.source = some source ∧ input.port = some port

/-- The links from data plug `port` of the record to socket `socket` of the node `target`. -/
def linksTo (r : NodeRecord) (port : Nat) (target : String) (socket : Nat) : List PortLink :=
  (r.dataPlugs.getD port []).filter fun l => l.target = target ∧ l.socket = socket

end NodeRecord

namespace InputRecord

/-- Either the input is fed by a plug and has no constant, or it stands for itself. -/
structure Proper (i : InputRecord) : Prop where
  constant : i.source.isSome ↔ i.constant = false
  port : i.source.isSome ↔ i.port.isSome
  value : i.source.isSome → i.value = none

end InputRecord

namespace Program
variable (p : Program) (source : String) (port : Nat) (target : String) (socket : Nat)

/-- The edge as it is followed by compiling. -/
def Reads : Prop := ∃ b ∈ p.records, b.uid = target ∧ b.Reads socket source port

/-- The edge as it is followed by restoring. -/
def Links : Prop :=
  p.Names target ∧ ∃ a ∈ p.records, a.uid = source ∧ a.linksTo port target socket ≠ []

/-- The inputs and the links of the records tell of the same data edges. -/
structure Aligned : Prop where
  reads : ∀ a ∈ p.records, ∀ b ∈ p.records, ∀ i j,
    b.Reads j a.uid i ↔ a.linksTo i b.uid j ≠ []
  once : ∀ a ∈ p.records, ∀ b ∈ p.records, ∀ i j,
    b.Reads j a.uid i → (a.linksTo i b.uid j).length = 1
  inputs : ∀ r ∈ p.records, ∀ input ∈ r.inputs, input.Proper
  graph : ∀ source port target socket,
    p.Reads source port target socket ↔ p.Links source port target socket

end Program

namespace Session
section Views
variable {s : Session} {a b : NodeId} {n : Node} {i j : Nat}

theorem proper_inputOf (s : Session) (t : Socket) : (s.inputOf t).Proper := by
  unfold inputOf
  split
  · exact ⟨iff_of_true rfl rfl, iff_of_true rfl rfl, fun _ => rfl⟩
  · exact ⟨iff_of_false nofun nofun, iff_of_false nofun nofun, nofun⟩

/-! ## Sources -/

/-- What an input reads is joined to its socket. -/
theorem reads_recordOf (h : s.Intact) (hn : s.node? b = some n) :
    (s.recordOf b n).Reads j a.text i ↔ ∃ c, s.Joins c ⟨a, .data, i⟩ ⟨b, .data, j⟩ := by
  have hsocket : s.socket? ⟨b, .data, j⟩ = n.frame.dataSockets[j]? := by
    rw [socket?, hn]
    rfl
  have hinput : (s.recordOf b n).inputs[j]? = (n.frame.dataSockets[j]?).map s.inputOf :=
    List.getElem?_map
  unfold NodeRecord.Reads
  rw [hinput]
  constructor
  · rintro ⟨input, hinput, hsource, hport⟩
    obtain ⟨t, ht, rfl⟩ := Option.map_eq_some_iff.1 hinput
    rw [inputOf] at hsource hport
    cases hfeed : s.feeder? t with
    | none =>
      rw [hfeed] at hsource
      cases hsource
    | some p =>
      rw [hfeed] at hsource hport
      obtain ⟨c, k, hk, rfl, hr⟩ := (feeder?_eq_some h (hsocket.trans ht) rfl).1 hfeed
      have hnode : k.plug.node = a := NodeId.text_injective (Option.some.inj hsource)
      have hkind : k.plug.kind = .data := (h.tied.sound.linked c _ _ (edge_of_connector? hk) hr).2.1
      exact ⟨c, k, hk, PlugRef.ext hnode hkind (Option.some.inj hport), hr⟩
  · rintro ⟨c, k, hk, hp, hr⟩
    obtain ⟨t, ht⟩ := Option.isSome_iff_exists.1 (live_socket h hk hr)
    have hfeed := (feeder?_eq_some h ht rfl).2 ⟨c, k, hk, hp, hr⟩
    rw [hsocket] at ht
    refine ⟨s.inputOf t, by rw [ht]; rfl, ?_, ?_⟩
    · rw [inputOf, hfeed]
    · rw [inputOf, hfeed]

/-! ## Links -/

theorem links_recordOf (hn : s.node? a = some n) : (s.recordOf a n).dataPlugs.getD i [] =
    (s.leaving ⟨a, .data, i⟩).filterMap fun c => ((s.connector? c).bind (·.connectedTo)).map fun r =>
      ⟨c.text, r.node.text, r.index⟩ := by
  have hplug : s.plug? ⟨a, .data, i⟩ = n.frame.dataPlugs[i]? := plug?_of_node? hn .data i
  rw [leaving, hplug, recordOf, List.getD_eq_getElem?_getD, List.getElem?_map]
  cases n.frame.dataPlugs[i]? with
  | none => rfl
  | some p => rfl

/-- What a link names is joined to its plug. -/
theorem mem_linksTo (h : s.Intact) (hn : s.node? a = some n) {l : PortLink} :
    l ∈ (s.recordOf a n).linksTo i b.text j ↔
      ∃ c, s.Joins c ⟨a, .data, i⟩ ⟨b, .data, j⟩ ∧ l = ⟨c.text, b.text, j⟩ := by
  rw [NodeRecord.linksTo, links_recordOf hn, List.mem_filter, List.mem_filterMap, decide_eq_true_eq]
  constructor
  · rintro ⟨⟨c, hc, hlink⟩, htarget, hindex⟩
    obtain ⟨k, r, hk, hp, hr⟩ := (mem_leaving h).1 hc
    rw [hk, Option.bind_some, hr] at hlink
    obtain rfl := Option.some.inj hlink
    have hnode : r.node = b := NodeId.text_injective htarget
    have hkind : r.kind = .data := by
      rw [← (h.tied.sound.linked c _ r (edge_of_connector? hk) hr).2.1]
      exact congrArg PlugRef.kind hp
    refine ⟨c, ⟨k, hk, hp, hr.trans (congrArg some (SocketRef.ext hnode hkind hindex))⟩, ?_⟩
    rw [← hnode, ← hindex]
  · rintro ⟨c, ⟨k, hk, hp, hr⟩, rfl⟩
    refine ⟨⟨c, (mem_leaving h).2 ⟨k, _, hk, hp, hr⟩, ?_⟩, rfl, rfl⟩
    rw [hk, Option.bind_some, hr]
    rfl

theorem nodup_linksTo (h : s.Intact) (hn : s.node? a = some n) :
    ((s.recordOf a n).linksTo i b.text j).Nodup := by
  rw [NodeRecord.linksTo, links_recordOf hn]
  refine ((nodup_leaving h _).filterMap fun c d l hc hd => ?_).filter _
  obtain ⟨r, -, rfl⟩ := Option.map_eq_some_iff.1 hc
  obtain ⟨r', -, hsame⟩ := Option.map_eq_some_iff.1 hd
  exact (ConnectorId.text_injective (congrArg PortLink.connector hsame)).symm

theorem length_linksTo_le_one (h : s.Intact) (hn : s.node? a = some n) :
    ((s.recordOf a n).linksTo i b.text j).length ≤ 1 := by
  refine length_le_one_of_nodup (nodup_linksTo h hn) fun l hl m hm => ?_
  obtain ⟨c, hc, rfl⟩ := (mem_linksTo h hn).1 hl
  obtain ⟨d, hd, rfl⟩ := (mem_linksTo h hn).1 hm
  rw [hc.unique h hd (Or.inr rfl)]

/-! ## Agreement -/

/-- Both views of an edge between two nodes are views of one connector. -/
theorem reads_iff_linksTo (h : s.Intact) {m : Node} (hn : s.node? a = some n) (hm : s.node? b = some m) :
    (s.recordOf b m).Reads j a.text i ↔ (s.recordOf a n).linksTo i b.text j ≠ [] := by
  rw [reads_recordOf h hm]
  constructor
  · rintro ⟨c, hc⟩
    exact List.ne_nil_of_mem ((mem_linksTo h hn).2 ⟨c, hc, rfl⟩)
  · intro hlinks
    obtain ⟨l, hl⟩ := List.exists_mem_of_ne_nil _ hlinks
    obtain ⟨c, hc, -⟩ := (mem_linksTo h hn).1 hl
    exact ⟨c, hc⟩

end Views

/-- In every program that is saved of a session, inputs and links tell of the same data edges. -/
theorem Reached.aligned {s : Session} (h : s.Reached) : s.toProgram.Aligned := by
  have hi := h.intact
  have hreads : ∀ a ∈ s.toProgram.records, ∀ b ∈ s.toProgram.records, ∀ i j,
      b.Reads j a.uid i ↔ a.linksTo i b.uid j ≠ [] := by
    intro a ha b hb i j
    obtain ⟨ida, n, -, hn, rfl⟩ := (mem_records hi).1 ha
    obtain ⟨idb, m, -, hm, rfl⟩ := (mem_records hi).1 hb
    exact reads_iff_linksTo hi hn hm
  refine ⟨hreads, fun a ha b hb i j hread => ?_, fun r hr input hinput => ?_,
    fun source port target socket => ⟨?_, ?_⟩⟩
  · have hpos := List.length_pos_of_ne_nil ((hreads a ha b hb i j).1 hread)
    obtain ⟨ida, n, -, hn, rfl⟩ := (mem_records hi).1 ha
    obtain ⟨idb, m, -, hm, rfl⟩ := (mem_records hi).1 hb
    have hle : ((s.recordOf ida n).linksTo i idb.text j).length ≤ 1 := length_linksTo_le_one hi hn
    exact Nat.le_antisymm hle hpos
  · obtain ⟨id, n, -, hn, rfl⟩ := (mem_records hi).1 hr
    obtain ⟨t, -, rfl⟩ := List.mem_map.1 hinput
    exact s.proper_inputOf t
  · rintro ⟨b, hb, rfl, hread⟩
    obtain ⟨input, hinput, hsource, -⟩ := id hread
    obtain ⟨-, -, hnamed⟩ := named_of_record hi h.shaped hb
    obtain ⟨a, ha, rfl⟩ := hnamed input (List.mem_of_getElem? hinput) source hsource
    exact ⟨⟨b, hb, rfl⟩, a, ha, rfl, (hreads a ha b hb port socket).1 hread⟩
  · rintro ⟨⟨b, hb, rfl⟩, a, ha, rfl, hlinks⟩
    exact ⟨b, hb, rfl, (hreads a ha b hb port socket).2 hlinks⟩

/-- A sum of two sizes is logged, one of them is plugged in twice, and another logging is left aside. -/
theorem aligned_sum_of_sizes : ((new .standard).applyAll
    [.spawn .startEvent .origin 1.0, .spawn .consoleLog .origin 1.0, .spawn .generalAddition .origin 1.0,
      .spawn .screenSize .origin 1.0, .spawn .consoleLog .origin 1.0,
      .connect ⟨⟨0⟩, .flow, 0⟩ ⟨⟨1⟩, .flow, 0⟩, .connect ⟨⟨3⟩, .data, 0⟩ ⟨⟨2⟩, .data, 0⟩,
      .connect ⟨⟨3⟩, .data, 0⟩ ⟨⟨2⟩, .data, 1⟩, .connect ⟨⟨2⟩, .data, 0⟩ ⟨⟨1⟩, .data, 0⟩,
      .connect ⟨⟨3⟩, .data, 1⟩ ⟨⟨4⟩, .data, 0⟩]).toProgram.Aligned :=
  Reached.aligned ⟨.standard, _, by simp [Operation.Public], rfl⟩

end Session
end FlowGraph
