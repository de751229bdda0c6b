import FlowGraph.Proofs.Program.Accounted
import FlowGraph.Proofs.Program.Links

/-! # The texts in a program

A program tells of nodes and connectors only by the texts of their identities. A text is a letter and a numeral,
the letter tells a node from a connector, and the numeral tells which one it is. So a text stands for the same
node or the same connector wherever it is written.
-/

namespace FlowGraph
set_option autoImplicit false

/-- The texts of nodes in a record: its own node and the nodes at the other ends of its edges. -/
def NodeRecord.nodeTexts (r : NodeRecord) : List String :=
  r.uid :: (r.links.map (·.target) ++ r.inputs.filterMap (·.source))

def NodeRecord.connectorTexts (r : NodeRecord) : List String := r.links.map (·.connector)

namespace Session

/-- The texts in the saved program identify nodes and connectors of the session. -/
structure Identified (s : Session) : Prop where
  node : ∀ r ∈ s.toProgram.records, ∀ uid ∈ r.nodeTexts, ∃! id, (s.node? id).isSome ∧ uid = id.text
  connector : ∀ r ∈ s.toProgram.records, ∀ uid ∈ r.connectorTexts, ∃! c, (s.connector? c).isSome ∧ uid = c.text
  apart : ∀ r ∈ s.toProgram.records, ∀ r' ∈ s.toProgram.records,
    ∀ a ∈ r.nodeTexts, ∀ b ∈ r'.connectorTexts, a ≠ b
  record : ∀ r ∈ s.toProgram.records, ∀ r' ∈ s.toProgram.records, r.uid = r'.uid → r = r'
  link : ∀ r ∈ s.toProgram.records, ∀ r' ∈ s.toProgram.records, ∀ l ∈ r.links, ∀ l' ∈ r'.links,
    l.connector = l'.connector → r = r' ∧ l = l'
  once : ∀ r ∈ s.toProgram.records, r.connectorTexts.Nodup

section Links
variable {s : Session} {id : NodeId} {n : Node}

theorem links_recordOf_eq (s : Session) (id : NodeId) (n : Node) :
    (s.recordOf id n).links = (n.frame.plugs .flow ++ n.frame.plugs .data).flatMap s.linksOf := by
  rw [NodeRecord.links, recordOf, ← List.map_append, List.flatMap_def]
  rfl

/-- A link is an edge out of the node. -/
theorem mem_links_recordOf (h : s.Intact) (hn : s.node? id = some n) {l : PortLink} :
    l ∈ (s.recordOf id n).links → ∃ c k r, s.connector? c = some k ∧ k.plug.node = id ∧
      k.connectedTo = some r ∧ l = ⟨c.text, r.node.text, r.index⟩ := by
  intro hl
  rw [links_recordOf_eq] at hl
  obtain ⟨p, hp, hl⟩ := List.mem_flatMap.1 hl
  obtain ⟨c, hc, hlink⟩ := List.mem_filterMap.1 hl
  have hedge : ∃ k r, s.connector? c = some k ∧ k.plug.node = id ∧ k.connectedTo = some r := by
    obtain hp | hp := List.mem_append.1 hp
    · obtain ⟨k, r, hk, -, hfrom, hr⟩ := edge_of_plug h hn .flow hp hc
      exact ⟨k, r, hk, hfrom, hr⟩
    · obtain ⟨k, r, hk, -, hfrom, hr⟩ := edge_of_plug h hn .data hp hc
      exact ⟨k, r, hk, hfrom, hr⟩
  obtain ⟨k, r, hk, hfrom, hr⟩ := hedge
  rw [hk, Option.bind_some, hr] at hlink
  exact ⟨c, k, r, hk, hfrom, hr, (Option.some.inj hlink).symm⟩

/-- No connector leaves from two plugs of a node. -/
theorem pairwise_plugs (h : s.Intact) (hn : s.node? id = some n) :
    (n.frame.plugs .flow ++ n.frame.plugs .data).Pairwise fun p q => ∀ c ∈ p.connected, c ∉ q.connected := by
  -- A connector leaves from the plug that it names, so two plugs that hold it are one.
  have hown (kind : PortKind) : (n.frame.plugs kind).Pairwise fun p q => ∀ c ∈ p.connected, c ∉ q.connected := by
    refine List.pairwise_iff_getElem.2 fun i j hi hj hij c hc hc' => Nat.ne_of_lt hij ?_
    rw [← leaving_of_plug? ((plug?_of_node? hn kind i).trans (List.getElem?_eq_getElem hi))] at hc
    rw [← leaving_of_plug? ((plug?_of_node? hn kind j).trans (List.getElem?_eq_getElem hj))] at hc'
    obtain ⟨k, -, hk, hplug, -⟩ := (mem_leaving h).1 hc
    obtain ⟨k', -, hk', hplug', -⟩ := (mem_leaving h).1 hc'
    obtain rfl := Option.some.inj (hk.symm.trans hk')
    exact congrArg PlugRef.index (hplug.symm.trans hplug')
  refine List.pairwise_append.2 ⟨hown .flow, hown .data, fun p hp q hq c hc hc' => ?_⟩
  obtain ⟨k, -, hk, hflow, -, -⟩ := edge_of_plug h hn .flow hp hc
  obtain ⟨k', -, hk', hdata, -, -⟩ := edge_of_plug h hn .data hq hc'
  obtain rfl := Option.some.inj (hk.symm.trans hk')
  exact absurd (hflow.symm.trans hdata) (by decide)

theorem connectors_linksOf (s : Session) (p : Plug) :
    ((s.linksOf p).map (·.connector)).Sublist (p.connected.map ConnectorId.text) := by
  rw [linksOf]
  induction p.connected with
  | nil => exact .slnil
  | cons c rest ih =>
    rw [List.filterMap_cons, List.map_cons]
    cases (s.connector? c).bind (·.connectedTo) with
    | none => exact ih.cons _
    | some r => exact ih.cons_cons _

theorem nodup_connected (h : s.Intact) (hn : s.node? id = some n) (kind : PortKind) {p : Plug}
    (hp : p ∈ n.frame.plugs kind) : p.connected.Nodup := by
  obtain ⟨i, hi⟩ := List.getElem?_of_mem hp
  exact leaving_of_plug? ((plug?_of_node? hn kind i).trans hi) ▸ nodup_leaving h _

/-- A record has one link for a connector. -/
theorem nodup_connectorTexts (h : s.Intact) (hn : s.node? id = some n) :
    (s.recordOf id n).connectorTexts.Nodup := by
  rw [NodeRecord.connectorTexts, links_recordOf_eq, List.map_flatMap, List.nodup_flatMap]
  constructor
  · intro p hp
    refine (connectors_linksOf s p).nodup (List.Nodup.map (fun _ _ => ConnectorId.text_injective) ?_)
    obtain hp | hp := List.mem_append.1 hp
    · exact nodup_connected h hn .flow hp
    · exact nodup_connected h hn .data hp
  · refine (pairwise_plugs h hn).imp fun {p q} hpq text hp hq => ?_
    obtain ⟨c, hc, rfl⟩ := List.mem_map.1 ((connectors_linksOf s p).subset hp)
    obtain ⟨c', hc', hsame⟩ := List.mem_map.1 ((connectors_linksOf s q).subset hq)
    obtain rfl := ConnectorId.text_injective hsame
    exact hpq _ hc hc'

/-- The nodes that a record tells of are live. -/
theorem live_of_nodeTexts (h : s.Intact) (hn : s.node? id = some n) {uid : String}
    (huid : uid ∈ (s.recordOf id n).nodeTexts) : ∃ a, (s.node? a).isSome ∧ uid = a.text := by
  obtain rfl | huid := List.mem_cons.1 huid
  · exact ⟨id, Option.isSome_of_eq_some hn, rfl⟩
  obtain huid | huid := List.mem_append.1 huid
  · obtain ⟨l, hl, rfl⟩ := List.mem_map.1 huid
    obtain ⟨c, k, r, hk, -, hr, rfl⟩ := mem_links_recordOf h hn hl
    exact ⟨r.node, live_of_arrival h hk hr, rfl⟩
  · obtain ⟨a, ha, rfl⟩ := (mem_inputs h hn).1 (List.mem_filterMap.1 huid)
    exact ⟨a, (ha.live h).1, rfl⟩

theorem live_of_connectorTexts (h : s.Intact) (hn : s.node? id = some n) {uid : String}
    (huid : uid ∈ (s.recordOf id n).connectorTexts) : ∃ c, (s.connector? c).isSome ∧ uid = c.text := by
  obtain ⟨l, hl, rfl⟩ := List.mem_map.1 huid
  obtain ⟨c, k, r, hk, -, -, rfl⟩ := mem_links_recordOf h hn hl
  exact ⟨c, Option.isSome_of_eq_some hk, rfl⟩

end Links

theorem Intact.identified {s : Session} (h : s.Intact) : s.Identified := by
  refine ⟨fun r hr uid huid => ?_, fun r hr uid huid => ?_, fun r hr r' hr' a ha b hb => ?_,
    fun r hr r' hr' hsame => ?_, fun r hr r' hr' l hl l' hl' hsame => ?_, fun r hr => ?_⟩
  all_goals obtain ⟨id, n, -, hn, rfl⟩ := (mem_records h).1 hr
  · obtain ⟨a, ha, rfl⟩ := live_of_nodeTexts h hn huid
    exact ⟨a, ⟨ha, rfl⟩, fun b hb => NodeId.text_injective hb.2.symm⟩
  · obtain ⟨c, hc, rfl⟩ := live_of_connectorTexts h hn huid
    exact ⟨c, ⟨hc, rfl⟩, fun b hb => ConnectorId.text_injective hb.2.symm⟩
  · obtain ⟨id', n', -, hn', rfl⟩ := (mem_records h).1 hr'
    obtain ⟨x, -, rfl⟩ := live_of_nodeTexts h hn ha
    obtain ⟨c, -, rfl⟩ := live_of_connectorTexts h hn' hb
    exact x.text_ne_text c
  · obtain ⟨id', n', -, hn', rfl⟩ := (mem_records h).1 hr'
    obtain rfl := NodeId.text_injective hsame
    obtain rfl := Option.some.inj (hn.symm.trans hn')
    rfl
  · obtain ⟨id', n', -, hn', rfl⟩ := (mem_records h).1 hr'
    obtain ⟨c, k, end₁, hk, rfl, hend, rfl⟩ := mem_links_recordOf h hn hl
    obtain ⟨c', k', end₂, hk', rfl, hend', rfl⟩ := mem_links_recordOf h hn' hl'
    obtain rfl := ConnectorId.text_injective hsame
    obtain rfl := Option.some.inj (hk.symm.trans hk')
    obtain rfl := Option.some.inj (hend.symm.trans hend')
    obtain rfl := Option.some.inj (hn.symm.trans hn')
    exact ⟨rfl, rfl⟩
  · exact nodup_connectorTexts h hn

/-- The numeral in a text is the only one for its number, its digits are complete after as many steps as it has
digits, and no two nodes or connectors that a program tells of have one text. -/
theorem texts_identify :
    (∀ (n : Nat) (cs : List Char), Text.Numeral36 cs ∧ Text.read36 cs = n ↔ cs = (Text.base36 n).toList) ∧
    (∀ n steps : Nat, 0 < steps → n < 36 ^ steps →
      Text.base36 n = String.ofList ((Text.radixDigits 36 steps n).map Text.digit36)) ∧
    Function.Injective NodeId.text ∧ Function.Injective ConnectorId.text ∧
    (∀ (a : NodeId) (c : ConnectorId), a.text ≠ c.text) ∧
    ∀ s : Session, s.Reached → s.Identified :=
  ⟨fun _ _ => Text.numeral36_iff, fun _ _ => Text.base36_eq, fun _ _ => NodeId.text_injective,
    fun _ _ => ConnectorId.text_injective, NodeId.text_ne_text, fun _ h => h.intact.identified⟩

/-- Both ways out of the condition meet in the logging, which is written down twice. -/
def meeting : Session := (new .standard).applyAll
  [.spawn .startEvent .origin 1.0, .spawn .condition .origin 1.0, .spawn .consoleLog .origin 1.0,
    .connect ⟨⟨0⟩, .flow, 0⟩ ⟨⟨1⟩, .flow, 0⟩, .connect ⟨⟨1⟩, .flow, 0⟩ ⟨⟨2⟩, .flow, 0⟩,
    .connect ⟨⟨1⟩, .flow, 1⟩ ⟨⟨2⟩, .flow, 0⟩]

/-- The largest number of a machine word has thirteen digits. -/
theorem texts_identify_meeting :
    Text.base36 18446744073709551615 =
      String.ofList ((Text.radixDigits 36 13 18446744073709551615).map Text.digit36) ∧
    Text.base36 18446744073709551615 = "3w5e11264sgsf" ∧
    meeting.toProgram.records.map (·.uid) = ["n0", "n1", "n2", "n2"] ∧
    meeting.toProgram.records.flatMap (·.connectorTexts) = ["c0", "c1", "c2"] ∧ meeting.Identified := by
  obtain ⟨-, hsteps, -, -, -, hidentified⟩ := texts_identify
  refine ⟨hsteps _ 13 (by decide) (by decide), by decide +kernel, by decide +kernel, by decide +kernel,
    hidentified _ ⟨.standard, _, by simp [Operation.Public], rfl⟩⟩

end Session
end FlowGraph
