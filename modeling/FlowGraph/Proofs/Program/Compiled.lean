import FlowGraph.Proofs.Program.Views
import FlowGraph.Proofs.Script.Wellformed

/-! # Compiling what was saved

The tables fit together: each kind of node has a snippet, with a placeholder for every data socket and an
expression for every data plug, and a saved program has a record of every source. So a saved session
fails to compile only for what its author has done: sources that feed each other in a circle, too many of
them in a row, or a constant that does not suit its socket.
-/

namespace FlowGraph
set_option autoImplicit false

/-! ## Where nodes stand -/

namespace Script.Compiler

theorem Stands.mem_flowNodes {record : NodeRecord} {last start : Option String} {flow : Flow NodeRecord}
    (h : Stands (.node record) last start flow) : record ∈ Entry.flowNodes flow := by
  induction h with
  | here => exact List.mem_append_left _ (List.mem_singleton.2 rfl)
  | later _ ih => exact List.mem_append_right _ ih
  | inside hb _ ih => exact List.mem_append_left _ (Entry.mem_branchNodes.2 ⟨_, hb, ih⟩)

mutual

theorem stands_of_mem_nodes {record : NodeRecord} : (entry : Entry NodeRecord) →
    ∀ (start : Option String), record ∈ entry.nodes → ∃ last, Stands (.node record) last start [entry]
  | .node r, start, h => by
    obtain rfl := List.mem_singleton.1 h
    exact ⟨start, .here⟩
  | .split _, _, h => by cases h
  | .branch branches, start, h => by
    obtain ⟨branch, hb, last, hs⟩ := stands_of_mem_branchNodes branches start h
    exact ⟨last, .inside hb hs⟩

theorem stands_of_mem_flowNodes {record : NodeRecord} : (flow : Flow NodeRecord) →
    ∀ (start : Option String), record ∈ Entry.flowNodes flow →
      ∃ last, Stands (.node record) last start flow
  | [], _, h => by cases h
  | entry :: rest, start, h => by
    obtain h | h := List.mem_append.1 h
    · obtain ⟨last, hs⟩ := stands_of_mem_nodes entry start h
      exact ⟨last, Stands.cons_iff.2 (Or.inl hs)⟩
    · obtain ⟨last, hs⟩ := stands_of_mem_flowNodes rest (lastAfter start entry) h
      exact ⟨last, .later hs⟩

theorem stands_of_mem_branchNodes {record : NodeRecord} : (flows : List (Flow NodeRecord)) →
    ∀ (start : Option String), record ∈ Entry.branchNodes flows →
      ∃ flow ∈ flows, ∃ last, Stands (.node record) last start flow
  | [], _, h => by cases h
  | flow :: rest, start, h => by
    obtain h | h := List.mem_append.1 h
    · exact ⟨flow, List.mem_cons_self, stands_of_mem_flowNodes flow start h⟩
    · obtain ⟨flow', hflow, hs⟩ := stands_of_mem_branchNodes rest start h
      exact ⟨flow', List.mem_cons_of_mem _ hflow, hs⟩

end

theorem occurs_iff {program : Program} {record : NodeRecord} :
    (∃ last, Occurs program last (.node record)) ↔ record ∈ Entry.branchNodes program.flows := by
  constructor
  · rintro ⟨last, flow, hflow, hs⟩
    exact Entry.mem_branchNodes.2 ⟨flow, hflow, hs.mem_flowNodes⟩
  · intro h
    obtain ⟨flow, hflow, last, hs⟩ := stands_of_mem_branchNodes program.flows none h
    exact ⟨last, flow, hflow, hs⟩

/-- Compiling comes to a halt at an entry that is a node or a split. -/
theorem halts_at {c : Compiler} {program : Program} {e : CompileError}
    (h : c.compile program = .error e) : ∃ last entry gs, Occurs program last entry ∧
      entry.isBranch = false ∧ (c.entryStep program last entry).run gs = .error e := by
  have hrun : (c.flowsSteps program none program.flows).run [] = .error e := by
    unfold compile at h
    cases hrun : (c.flowsSteps program none program.flows).run [] with
    | ok r =>
      rw [hrun] at h
      cases h
    | error e' =>
      rw [hrun] at h
      cases h
      rfl
  obtain ⟨flow, hflow, last, entry, gs, hs, hno, hstep⟩ := flowsSteps_error program.flows hrun
  exact ⟨last, entry, gs, ⟨flow, hflow, hs⟩, hno, hstep⟩

end Script.Compiler

/-! ## The tables -/

namespace Script.SnippetTable

theorem get?_browser (kind : NodeKind) : browser.get? kind.identifier = some (browserSnippet kind) := by
  cases kind <;> rfl

/-- Sums and products have two placeholders and one expression. -/
theorem get?_variantKey (variant : Variant) : ∃ snippet, browser.get? (variantKey variant) = some snippet ∧
    snippet.inputs.length = 2 ∧ snippet.outputs.length = 1 := by
  cases variant
  · exact ⟨addition, rfl, rfl, rfl⟩
  · exact ⟨multiplication, rfl, rfl, rfl⟩

theorem splits_browser : (browser.get? Program.splitIdentifier).isSome := rfl

/-- A snippet has a placeholder for each data socket of its kind, and an expression for each plug. -/
structure Serves (snippet : Snippet) (kind : NodeKind) : Prop where
  inputs : snippet.inputs.length = (kind.socketTypes .data).length
  outputs : snippet.outputs.length = (kind.plugTypes .data).length

theorem serves_browserSnippet (kind : NodeKind) : Serves (browserSnippet kind) kind := by
  cases kind <;> exact ⟨rfl, rfl⟩

/-- Every record that a node can have finds a snippet that serves its kind. -/
theorem lookup?_browser {r : NodeRecord} {kind : NodeKind} (hi : r.identifier = kind.identifier)
    (hv : r.variant.isSome = (kind == .math)) :
    ∃ key snippet, browser.lookup? r = some (key, snippet) ∧ Serves snippet kind := by
  cases hvariant : r.variant with
  | none =>
    have hkey : r.snippetKey = kind.identifier := by
      rw [NodeRecord.snippetKey, hvariant]
      exact hi
    refine ⟨r.snippetKey, browserSnippet kind, ?_, serves_browserSnippet kind⟩
    rw [lookup?, hkey, get?_browser]
  | some variant =>
    rw [hvariant] at hv
    obtain rfl : kind = .math := eq_of_beq hv.symm
    have hkey : r.snippetKey = variantKey variant := by
      rw [NodeRecord.snippetKey, hvariant]
      exact congrArg (· ++ ":" ++ variant.key) hi
    obtain ⟨snippet, hget, hin, hout⟩ := get?_variantKey variant
    refine ⟨r.snippetKey, snippet, ?_, hin, hout⟩
    rw [lookup?, hkey, hget]

end Script.SnippetTable

/-! ## What an author can do wrong -/

namespace Session

/-- The sources in the chain, the last one first, feed each other in a row, and the first of them feeds a
node of a flow. -/
inductive SourceChain (s : Session) : List NodeId → NodeId → Prop
  | start {id : NodeId} (h : s.InFlow id) : SourceChain s [] id
  | source {ids : List NodeId} {user id : NodeId} (h : SourceChain s ids user)
    (hlead : s.Leads .data id user) : SourceChain s (id :: ids) id

/-- What an error says of the session. -/
def Mistake (s : Session) : Script.CompileError → Prop
  | .dataCycle node =>
    ∃ id, node = id.text ∧ s.FeedsFlow id ∧ Relation.TransGen (s.Leads .data) id id
  | .recursionLimit node limit => limit = 64 ∧
    ∃ ids id, node = id.text ∧ s.SourceChain ids id ∧ ids.Nodup ∧ ids.length = 65
  | .invalidInput node index reason => ∃ id t value, node = id.text ∧ s.FeedsFlow id ∧
    s.socket? ⟨id, .data, index⟩ = some t ∧ t.incoming = [] ∧ t.value = some value ∧
      Script.WordTable.javascript.format value t.type = .error reason
  | _ => False

/-- Nothing that is saved of the session keeps it from being compiled. -/
structure Compilable (s : Session) : Prop where
  acyclic : ∀ id, s.FeedsFlow id → ¬Relation.TransGen (s.Leads .data) id id
  shallow : ∀ ids id, s.SourceChain ids id → ids.Nodup → ids.length ≤ 64
  /-- The constants that count suit their sockets. -/
  constants : ∀ id index t value, s.FeedsFlow id → s.socket? ⟨id, .data, index⟩ = some t →
    t.incoming = [] → t.value = some value →
      ∃ text, Script.WordTable.javascript.format value t.type = .ok text

theorem Compilable.not_mistake {s : Session} (h : s.Compilable) (e : Script.CompileError) :
    ¬s.Mistake e := by
  intro he
  cases e with
  | dataCycle node =>
    obtain ⟨id, -, hid, hcycle⟩ := he
    exact h.acyclic id hid hcycle
  | recursionLimit node limit =>
    obtain ⟨-, ids, id, -, hchain, honce, hlength⟩ := he
    have hle := h.shallow ids id hchain honce
    omega
  | invalidInput node index reason =>
    obtain ⟨id, t, value, -, hid, ht, hidle, hvalue, hrefused⟩ := he
    obtain ⟨text, htext⟩ := h.constants id index t value hid ht hidle hvalue
    rw [hrefused] at htext
    cases htext
  | unknownIdentifier node identifier => exact he
  | missingSource node index source => exact he
  | missingOutput node port => exact he
  | invalidProgram => exact he

section Chains
variable {s : Session} {ids : List NodeId} {user id : NodeId}

theorem SourceChain.feedsFlow (h : s.SourceChain ids id) : s.FeedsFlow id := by
  induction h with
  | start h => exact ⟨_, h, .refl⟩
  | source _ hlead ih => exact ih.source hlead

theorem FeedsFlow.chain (h : s.FeedsFlow id) : ∃ ids, s.SourceChain ids id := by
  obtain ⟨user, huser, hway⟩ := h
  induction hway using Relation.ReflTransGen.head_induction_on with
  | refl => exact ⟨[], .start huser⟩
  | head hlead _ ih =>
    obtain ⟨ids, hchain⟩ := ih
    exact ⟨_, .source hchain hlead⟩

theorem SourceChain.longer (h : s.SourceChain ids user)
    (hway : Relation.TransGen (s.Leads .data) id user) :
    ∃ more, s.SourceChain more id ∧ ids.length < more.length := by
  induction hway using Relation.TransGen.head_induction_on with
  | single hlead => exact ⟨_, .source h hlead, Nat.lt_succ_self _⟩
  | head hlead _ ih =>
    obtain ⟨more, hchain, hlt⟩ := ih
    exact ⟨_, .source hchain hlead, Nat.lt_succ_of_lt hlt⟩

/-- Around a cycle chains grow without bound. -/
theorem SourceChain.unbounded (h : s.SourceChain ids id)
    (hcycle : Relation.TransGen (s.Leads .data) id id) (k : Nat) :
    ∃ more, s.SourceChain more id ∧ k ≤ more.length := by
  induction k with
  | zero => exact ⟨ids, h, Nat.zero_le _⟩
  | succ k ih =>
    obtain ⟨more, hchain, hle⟩ := ih
    obtain ⟨most, hchain', hlt⟩ := hchain.longer hcycle
    exact ⟨most, hchain', by omega⟩

end Chains

/-! ## Programs and sessions -/

section Programs
open Script.Compiler
variable {s : Session} {a id : NodeId} {n : Node} {ids : List NodeId} {chain : List String}
  {record : NodeRecord} {uid : String} {input : InputRecord} {index port : Nat}

theorem Joins.leads {c : ConnectorId} {p : PlugRef} {r : SocketRef} (h : s.Joins c p r) :
    s.Leads p.kind p.node r.node := by
  obtain ⟨k, hk, rfl, hr⟩ := h
  exact ⟨c, k, r, hk, hr, rfl, rfl, rfl⟩

theorem length_inputs_recordOf (s : Session) (id : NodeId) (n : Node) :
    (s.recordOf id n).inputs.length = n.frame.dataSockets.length := List.length_map _

theorem lookup?_recordOf (s : Session) (id : NodeId) (hn : n.Shaped) :
    ∃ key snippet, standard.snippets.lookup? (s.recordOf id n) = some (key, snippet) ∧
      snippet.inputs.length = n.frame.dataSockets.length ∧
        snippet.outputs.length = n.frame.dataPlugs.length := by
  obtain ⟨key, snippet, hlook, hserves⟩ :=
    Script.SnippetTable.lookup?_browser (r := s.recordOf id n) hn.identifier hn.variant
  refine ⟨key, snippet, hlook, ?_, ?_⟩
  · rw [hserves.inputs]
    exact (hn.length_sockets .data).symm
  · rw [hserves.outputs]
    exact (hn.length_plugs .data).symm

theorem declares_iff (s : Session) (id : NodeId) (hn : n.Shaped) :
    Declares standard (s.recordOf id n) index input ↔ (s.recordOf id n).inputs[index]? = some input := by
  obtain ⟨key, snippet, hlook, hin, -⟩ := lookup?_recordOf s id hn
  constructor
  · rintro ⟨-, -, -, -, hinput⟩
    exact hinput
  · intro hinput
    refine ⟨key, snippet, hlook, ?_, hinput⟩
    obtain ⟨hlt, -⟩ := List.getElem?_eq_some_iff.1 hinput
    rw [hin]
    exact s.length_inputs_recordOf id n ▸ hlt

theorem node_of_find? (h : s.Intact) (hfind : s.toProgram.find? uid = some record) :
    ∃ id n, uid = id.text ∧ s.FeedsFlow id ∧ s.node? id = some n ∧ record = s.recordOf id n := by
  obtain ⟨id, n, hid, hn, rfl⟩ := (mem_records h).1 (List.mem_of_find?_eq_some hfind)
  exact ⟨id, n, (find?_uid hfind).symm, hid, hn, rfl⟩

/-- A source of an input is joined to the socket of the input. -/
theorem joined_of_source (h : s.Intact) (hn : s.node? id = some n)
    (hinput : (s.recordOf id n).inputs[index]? = some input) (hs : input.source = some uid)
    (hp : input.port = some port) :
    ∃ a c, uid = a.text ∧ s.Joins c ⟨a, .data, port⟩ ⟨id, .data, index⟩ := by
  obtain ⟨t, -, rfl⟩ := Option.map_eq_some_iff.1 (List.getElem?_map.symm.trans hinput)
  have hnode : ∃ a : NodeId, uid = a.text := by
    rw [inputOf] at hs
    cases hfeed : s.feeder? t with
    | none =>
      rw [hfeed] at hs
      cases hs
    | some p =>
      rw [hfeed] at hs
      exact ⟨p.node, (Option.some.inj hs).symm⟩
  obtain ⟨a, rfl⟩ := hnode
  obtain ⟨c, hc⟩ := (reads_recordOf h hn).1 ⟨_, hinput, hs, hp⟩
  exact ⟨a, c, rfl, hc⟩

theorem inputOf_idle (s : Session) {t : Socket} (h : t.incoming = []) :
    s.inputOf t = ⟨none, none, t.type, true, t.value⟩ := by
  have hnone : s.feeder? t = none := by
    rw [feeder?, Socket.connector?, h]
    rfl
  rw [inputOf, hnone]

/-- An input without a source belongs to a socket at which nothing arrives. -/
theorem idle_of_source (h : s.Intact) {t : Socket} (ht : s.socket? ⟨id, .data, index⟩ = some t)
    (hsource : (s.inputOf t).source = none) : t.incoming = [] := by
  refine List.eq_nil_iff_forall_not_mem.2 fun c hc => ?_
  obtain ⟨p, k, hk, hp, hr⟩ := (mem_incoming h ht).1 hc
  rw [inputOf, (feeder?_eq_some h ht rfl).2 ⟨c, k, hk, hp, hr⟩] at hsource
  cases hsource

/-- The nodes of the flows have records there. -/
theorem occurs_toProgram (h : s.Intact) : (∃ last, Occurs s.toProgram last (.node record)) ↔
    ∃ id n, s.InFlow id ∧ s.node? id = some n ∧ record = s.recordOf id n := by
  have hnodes : Entry.branchNodes s.toProgram.flows = (Entry.branchNodes s.flows).map s.recordAt :=
    Entry.branchNodes_mapFlows s.recordAt s.flows
  rw [occurs_iff, hnodes, List.mem_map]
  simp only [mem_flows h]
  constructor
  · rintro ⟨id, hid, rfl⟩
    obtain ⟨n, hn⟩ := Option.isSome_iff_exists.1 (hid.live h)
    exact ⟨id, n, hid, hn, recordAt_of_node? hn⟩
  · rintro ⟨id, n, hid, hn, rfl⟩
    exact ⟨id, hid, recordAt_of_node? hn⟩

/-! ## From defects to mistakes -/

/-- The trail that compiling has followed is a chain of sources. -/
theorem chain_of_trail (h : s.Intact) (hs : s.Shaped) (htrail : Trail standard s.toProgram chain record) :
    ∃ ids id n, s.node? id = some n ∧ record = s.recordOf id n ∧ chain = ids.map NodeId.text ∧
      ids.Nodup ∧ s.SourceChain ids id := by
  induction htrail with
  | start hoccurs =>
    obtain ⟨id, n, hid, hn, rfl⟩ := (occurs_toProgram h).1 ⟨_, hoccurs⟩
    exact ⟨[], id, n, hn, rfl, rfl, List.nodup_nil, .start hid⟩
  | source _ hdeclares hsource hport hfind hnew ih =>
    obtain ⟨ids, id, n, hn, rfl, rfl, honce, hchain⟩ := ih
    have hinput := (declares_iff s id (hs id n hn)).1 hdeclares
    obtain ⟨a, c, rfl, hc⟩ := joined_of_source h hn hinput hsource hport
    obtain ⟨b, m, htext, -, hm, rfl⟩ := node_of_find? h hfind
    obtain rfl : a = b := NodeId.text_injective htext
    have hfresh : a ∉ ids := fun ha => hnew (List.mem_map_of_mem ha)
    exact ⟨a :: ids, a, m, hm, rfl, rfl, List.nodup_cons.2 ⟨hfresh, honce⟩, .source hchain hc.leads⟩

theorem node_of_used (h : s.Intact) (hs : s.Shaped) (hused : Used standard s.toProgram record) :
    ∃ id n, s.node? id = some n ∧ record = s.recordOf id n ∧ s.FeedsFlow id := by
  obtain ⟨chain, htrail⟩ := hused
  obtain ⟨ids, id, n, hn, rfl, -, -, hchain⟩ := chain_of_trail h hs htrail
  exact ⟨id, n, hn, rfl, hchain.feedsFlow⟩

theorem leads_of_feeds (h : s.Intact) (hs : s.Shaped) (hn : s.node? id = some n) {source : NodeRecord}
    (hfeeds : Feeds standard s.toProgram source (s.recordOf id n)) :
    ∃ a m, s.node? a = some m ∧ source = s.recordOf a m ∧ s.Leads .data a id := by
  obtain ⟨index, input, uid, port, hdeclares, hsource, hport, hfind⟩ := hfeeds
  have hinput := (declares_iff s id (hs id n hn)).1 hdeclares
  obtain ⟨a, c, rfl, hc⟩ := joined_of_source h hn hinput hsource hport
  obtain ⟨b, m, htext, -, hm, rfl⟩ := node_of_find? h hfind
  obtain rfl : a = b := NodeId.text_injective htext
  exact ⟨a, m, hm, rfl, hc.leads⟩

theorem leads_of_feeds_chain (h : s.Intact) (hs : s.Shaped) (hn : s.node? id = some n)
    {source : NodeRecord}
    (hfeeds : Relation.TransGen (Feeds standard s.toProgram) source (s.recordOf id n)) :
    ∃ a m, s.node? a = some m ∧ source = s.recordOf a m ∧ Relation.TransGen (s.Leads .data) a id := by
  induction hfeeds using Relation.TransGen.head_induction_on with
  | single hfeed =>
    obtain ⟨a, m, hm, hrecord, hlead⟩ := leads_of_feeds h hs hn hfeed
    exact ⟨a, m, hm, hrecord, .single hlead⟩
  | head hfeed _ ih =>
    obtain ⟨b, m, hm, rfl, hway⟩ := ih
    obtain ⟨a, m', hm', hrecord, hlead⟩ := leads_of_feeds h hs hm hfeed
    exact ⟨a, m', hm', hrecord, .head hlead hway⟩

/-- What is wrong with a saved program has been done by its author. -/
theorem mistake_of_defect (h : s.Intact) (hs : s.Shaped) {e : Script.CompileError}
    (hdefect : Defect standard s.toProgram e) : s.Mistake e := by
  cases e with
  | unknownIdentifier node identifier =>
    obtain ⟨record, hused, -, -, hnone⟩ | ⟨last, count, -, -, -, hnone⟩ := hdefect
    · obtain ⟨id, n, hn, rfl, -⟩ := node_of_used h hs hused
      obtain ⟨key, snippet, hlook, -⟩ := lookup?_recordOf s id (hs id n hn)
      rw [hlook] at hnone
      cases hnone
    · have hsome := Script.SnippetTable.splits_browser
      rw [show Script.SnippetTable.browser.get? Program.splitIdentifier = none from hnone] at hsome
      cases hsome
  | missingSource node index source =>
    obtain ⟨record, input, hused, -, ⟨-, -, -, -, hinput⟩, hsource, hnone⟩ := hdefect
    obtain ⟨id, n, hn, rfl, hid⟩ := node_of_used h hs hused
    obtain ⟨-, -, hnamed⟩ := named_of_record h hs ((mem_records h).2 ⟨id, n, hid, hn, rfl⟩)
    obtain ⟨r, hr, hsame⟩ := hnamed input (List.mem_of_getElem? hinput) source hsource
    have habsent := List.find?_eq_none.1 hnone r hr
    exact absurd (beq_iff_eq.2 hsame) habsent
  | missingOutput node port =>
    obtain ⟨consumer, source, index, input, key, snippet, hused, ⟨-, -, -, -, hinput⟩, hsource, hport,
      hfind, hlook, hle⟩ := hdefect
    obtain ⟨id, n, hn, rfl, -⟩ := node_of_used h hs hused
    obtain ⟨a, c, rfl, hc⟩ := joined_of_source h hn hinput hsource hport
    obtain ⟨b, m, htext, -, hm, rfl⟩ := node_of_find? h hfind
    obtain rfl : a = b := NodeId.text_injective htext
    obtain ⟨key', snippet', hlook', -, hout⟩ := lookup?_recordOf s a (hs a m hm)
    obtain ⟨-, rfl⟩ := Prod.mk.inj (Option.some.inj (hlook.symm.trans hlook'))
    obtain ⟨q, hq⟩ := Option.isSome_iff_exists.1 (hc.ends h).1
    rw [plug?_of_node? hm] at hq
    obtain ⟨hlt, -⟩ := List.getElem?_eq_some_iff.1 hq
    exact absurd (hout ▸ hle) (Nat.not_le.2 hlt)
  | dataCycle node =>
    obtain ⟨record, hused, hfind, hcycle⟩ := hdefect
    obtain ⟨id, n, rfl, hid, hn, rfl⟩ := node_of_find? h hfind
    obtain ⟨a, m, hm, hsame, hway⟩ := leads_of_feeds_chain h hs hn hcycle
    obtain rfl : id = a := NodeId.text_injective (congrArg NodeRecord.uid hsame)
    exact ⟨id, rfl, hid, hway⟩
  | recursionLimit node limit =>
    obtain ⟨chain, consumer, source, rfl, htrail, hlength, hfeeds, hfind, hnew⟩ := hdefect
    obtain ⟨ids, id, n, hn, rfl, rfl, honce, hchain⟩ := chain_of_trail h hs htrail
    obtain ⟨a, m, hm, rfl, hlead⟩ := leads_of_feeds h hs hn hfeeds
    have hnode : node = a.text := (find?_uid hfind).symm
    have hfresh : a ∉ ids := fun ha => hnew (hnode ▸ List.mem_map_of_mem ha)
    refine ⟨rfl, a :: ids, a, hnode, .source hchain hlead, List.nodup_cons.2 ⟨hfresh, honce⟩, ?_⟩
    rw [List.length_map] at hlength
    rw [List.length_cons, hlength]
    rfl
  | invalidInput node index reason =>
    obtain ⟨record, input, hused, rfl, ⟨-, -, -, -, hinput⟩, hcase⟩ := hdefect
    obtain ⟨id, n, hn, rfl, hid⟩ := node_of_used h hs hused
    obtain ⟨t, ht, rfl⟩ := Option.map_eq_some_iff.1 (List.getElem?_map.symm.trans hinput)
    obtain ⟨source, hsource, hport, -⟩ | ⟨value, hsource, hvalue, hrefused⟩ := hcase
    · have hproper := (s.proper_inputOf t).port
      rw [hsource, hport] at hproper
      exact absurd (hproper.1 rfl) Bool.false_ne_true
    · have hsocket : s.socket? ⟨id, .data, index⟩ = some t := by
        rw [socket?, hn]
        exact ht
      have hidle := idle_of_source h hsocket hsource
      rw [inputOf_idle s hidle] at hvalue hrefused
      exact ⟨id, t, value, rfl, hid, hsocket, hidle, hvalue, hrefused⟩
  | invalidProgram => exact hdefect

theorem mistake_of_error (h : s.Intact) (hs : s.Shaped) {e : Script.CompileError}
    (he : standard.compile s.toProgram = .error e) : s.Mistake e := by
  obtain ⟨last, entry, gs, hoccurs, hno, hstep⟩ := halts_at he
  refine mistake_of_defect h hs ?_
  cases entry with
  | node record =>
    rw [entryStep] at hstep
    exact defect_of_node hoccurs hstep
  | split count =>
    rw [entryStep] at hstep
    exact defect_of_split hoccurs hstep
  | branch branches => cases hno

/-! ## What compiles has no mistakes -/

theorem entryOk_of_compile {program : Program} (hok : ∃ out, standard.compile program = .ok out)
    {last : Option String} {entry : Entry NodeRecord} (hoccurs : Occurs program last entry) :
    EntryOk standard program entry := by
  rw [compile_cases, flowsSteps_ok_iff] at hok
  obtain ⟨flow, hflow, hstands⟩ := hoccurs
  exact hok flow hflow last entry hstands

/-- Along every chain of sources, compiling resolves what it comes to. -/
theorem resolvable_of_chain (h : s.Intact) (hs : s.Shaped) (hok : ∃ out, standard.compile s.toProgram = .ok out)
    (hchain : s.SourceChain ids id) (hn : s.node? id = some n) : ids.length ≤ 64 ∧
      ∀ i, i < n.frame.dataSockets.length →
        Resolvable standard s.toProgram (ids.map NodeId.text) (s.recordOf id n) i := by
  induction hchain generalizing n with
  | start hin =>
    refine ⟨Nat.zero_le _, fun i hi => ?_⟩
    obtain ⟨last, hoccurs⟩ := (occurs_toProgram h).2 ⟨_, n, hin, hn, rfl⟩
    obtain ⟨key, snippet, hlook, hresolve⟩ := entryOk_of_compile hok hoccurs
    obtain ⟨key', snippet', hlook', hlength, -⟩ := lookup?_recordOf s _ (hs _ n hn)
    obtain ⟨-, rfl⟩ := Prod.mk.inj (Option.some.inj (hlook.symm.trans hlook'))
    exact hresolve i (by rw [hlength]; exact hi)
  | @source ids user a hchain hlead ih =>
    obtain ⟨m, hm⟩ := Option.isSome_iff_exists.1 (hlead.live h).2
    obtain ⟨c, k, r, hk, hr, hkind, rfl, rfl⟩ := hlead
    have hjoins : s.Joins c k.plug r := ⟨k, hk, rfl, hr⟩
    obtain ⟨-, hlive, hsame, -⟩ := hjoins.ends h
    have hplug : k.plug = ⟨k.plug.node, .data, k.plug.index⟩ := PlugRef.ext rfl hkind rfl
    have hsocket : r = ⟨r.node, .data, r.index⟩ := SocketRef.ext rfl (hsame ▸ hkind) rfl
    obtain ⟨input, hinput, hsource, hport⟩ := (reads_recordOf h hm (a := k.plug.node)
      (i := k.plug.index) (j := r.index)).2 ⟨c, by rw [← hplug, ← hsocket]; exact hjoins⟩
    have hlt : r.index < m.frame.dataSockets.length := by
      obtain ⟨hlt, -⟩ := List.getElem?_eq_some_iff.1 hinput
      exact s.length_inputs_recordOf r.node m ▸ hlt
    cases (ih hm).2 r.index hlt with
    | absent hnone =>
      rw [hinput] at hnone
      cases hnone
    | unset hinput' hnone =>
      obtain rfl := Option.some.inj (hinput.symm.trans hinput')
      rw [hsource] at hnone
      cases hnone
    | constant hinput' hnone =>
      obtain rfl := Option.some.inj (hinput.symm.trans hinput')
      rw [hsource] at hnone
      cases hnone
    | source hinput' hsource' hport' hfind hnew hroom hlook hout hin =>
      obtain rfl := Option.some.inj (hinput.symm.trans hinput')
      obtain rfl := Option.some.inj (hsource.symm.trans hsource')
      obtain ⟨b, n', htext, -, hn', rfl⟩ := node_of_find? h hfind
      obtain rfl : k.plug.node = b := NodeId.text_injective htext
      obtain rfl := Option.some.inj (hn.symm.trans hn')
      obtain ⟨key', snippet', hlook', hlength, -⟩ := lookup?_recordOf s _ (hs _ n hn)
      obtain ⟨-, rfl⟩ := Prod.mk.inj (Option.some.inj (hlook.symm.trans hlook'))
      rw [List.length_map] at hroom
      refine ⟨hroom, fun i hi => hin i (by rw [hlength]; exact hi)⟩

/-- What has been compiled leaves nothing to be desired. -/
theorem compilable_of_compile (h : s.Intact) (hs : s.Shaped)
    (hok : ∃ out, standard.compile s.toProgram = .ok out) : s.Compilable := by
  have hshallow : ∀ ids id, s.SourceChain ids id → ids.length ≤ 64 := by
    intro ids id hchain
    obtain ⟨n, hn⟩ := Option.isSome_iff_exists.1 (hchain.feedsFlow.live h)
    exact (resolvable_of_chain h hs hok hchain hn).1
  refine ⟨fun id hid hcycle => ?_, fun ids id hchain _ => hshallow ids id hchain,
    fun id index t value hid ht hidle hvalue => ?_⟩
  · obtain ⟨ids, hchain⟩ := hid.chain
    obtain ⟨more, hlong, hle⟩ := hchain.unbounded hcycle 65
    have hshort := hshallow more id hlong
    omega
  · obtain ⟨ids, hchain⟩ := hid.chain
    obtain ⟨n, hn, ht'⟩ := Option.bind_eq_some_iff.1 ht
    have hsocket : n.frame.dataSockets[index]? = some t := ht'
    obtain ⟨hlt, -⟩ := List.getElem?_eq_some_iff.1 hsocket
    have hinput : (s.recordOf id n).inputs[index]? = some ⟨none, none, t.type, true, t.value⟩ := by
      rw [← inputOf_idle s hidle]
      exact List.getElem?_map.trans (congrArg (Option.map s.inputOf) hsocket)
    cases (resolvable_of_chain h hs hok hchain hn).2 index hlt with
    | absent hnone =>
      rw [hinput] at hnone
      cases hnone
    | unset hinput' _ hnone =>
      obtain rfl := Option.some.inj (hinput.symm.trans hinput')
      rw [hvalue] at hnone
      cases hnone
    | constant hinput' _ hvalue' htext =>
      obtain rfl := Option.some.inj (hinput.symm.trans hinput')
      obtain rfl := Option.some.inj (hvalue.symm.trans hvalue')
      exact ⟨_, htext⟩
    | source hinput' hsource =>
      obtain rfl := Option.some.inj (hinput.symm.trans hinput')
      cases hsource

end Programs

/-- Compiling what was saved of a session fails only for a mistake of its author, and succeeds exactly if
there is none. -/
theorem Reached.compiled {s : Session} (h : s.Reached) :
    (∀ e, Script.Compiler.standard.compile s.toProgram = .error e → s.Mistake e) ∧
      ((∃ out, Script.Compiler.standard.compile s.toProgram = .ok out) ↔ s.Compilable) := by
  have hmistake (e : Script.CompileError)
      (he : Script.Compiler.standard.compile s.toProgram = .error e) : s.Mistake e :=
    mistake_of_error h.intact h.shaped he
  refine ⟨hmistake, compilable_of_compile h.intact h.shaped, fun hc => ?_⟩
  cases hrun : Script.Compiler.standard.compile s.toProgram with
  | ok out => exact ⟨out, rfl⟩
  | error e => exact absurd (hmistake e hrun) (hc.not_mistake e)

/-- Two products that feed each other are logged behind a split of the flow. -/
def loggedCycle : Session := (new .standard).applyAll
  [.spawn .startEvent .origin 1.0, .spawn .consoleLog .origin 1.0, .spawn .consoleLog .origin 1.0,
    .spawn .math .origin 1.0, .spawn .multiplication .origin 1.0, .selectVariant ⟨3⟩ .multiply,
    .connect ⟨⟨0⟩, .flow, 0⟩ ⟨⟨1⟩, .flow, 0⟩, .connect ⟨⟨0⟩, .flow, 0⟩ ⟨⟨2⟩, .flow, 0⟩,
    .connect ⟨⟨3⟩, .data, 0⟩ ⟨⟨1⟩, .data, 0⟩, .connect ⟨⟨4⟩, .data, 0⟩ ⟨⟨3⟩, .data, 0⟩,
    .connect ⟨⟨3⟩, .data, 0⟩ ⟨⟨4⟩, .data, 1⟩]

theorem not_compilable_loggedCycle : ¬loggedCycle.Compilable := by
  have hthere : loggedCycle.Leads .data ⟨3⟩ ⟨4⟩ := ⟨⟨4⟩, _, _, rfl, rfl, rfl, rfl, rfl⟩
  have hback : loggedCycle.Leads .data ⟨4⟩ ⟨3⟩ := ⟨⟨3⟩, _, _, rfl, rfl, rfl, rfl, rfl⟩
  have hflow : loggedCycle.InFlow ⟨1⟩ :=
    ⟨⟨0⟩, _, rfl, rfl, .single ⟨⟨0⟩, _, _, rfl, rfl, rfl, rfl, rfl⟩⟩
  have hfeeds : loggedCycle.FeedsFlow ⟨3⟩ :=
    ⟨⟨1⟩, hflow, .single ⟨⟨2⟩, _, _, rfl, rfl, rfl, rfl, rfl⟩⟩
  exact fun hc => hc.acyclic ⟨3⟩ hfeeds (.tail (.single hthere) hback)

/-- So compiling fails, with one of the mistakes. -/
theorem compiled_loggedCycle :
    (¬∃ out, Script.Compiler.standard.compile loggedCycle.toProgram = .ok out) ∧
      ∀ e, Script.Compiler.standard.compile loggedCycle.toProgram = .error e → loggedCycle.Mistake e := by
  have hreached : loggedCycle.Reached := ⟨.standard, _, by simp [Operation.Public], rfl⟩
  refine ⟨fun hok => not_compilable_loggedCycle ?_, (Reached.compiled hreached).1⟩
  exact (Reached.compiled hreached).2.1 hok

end Session
end FlowGraph
