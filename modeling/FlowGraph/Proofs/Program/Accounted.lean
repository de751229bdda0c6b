import FlowGraph.Proofs.Program.Rebuilt
import FlowGraph.Proofs.Session.Retyped
import Mathlib.Data.List.Nodup

/-! # What restoring leaves out

Of every program, well formed or not, each record and each link is accounted for: a uid stands for a new node
or is reported as unknown, a link becomes an edge or is counted. An edge that is left out cannot be made
afterwards either. Apart from the types of the ports everything that keeps a plug from a socket keeps it from
there for good, and for their types edges are refused only once nothing changes any more.
-/

namespace FlowGraph
set_option autoImplicit false

/-! ## Records -/

namespace Restore

theorem mem_firstRecords {r : NodeRecord} {l : List NodeRecord} :
    r ∈ firstRecords l ↔ l.find? (·.uid == r.uid) = some r := by
  induction l with
  | nil => exact ⟨fun h => (List.not_mem_nil h).elim, fun h => nomatch h⟩
  | cons a rest ih =>
    rw [firstRecords, List.mem_cons, List.mem_filter, ih, List.find?_cons]
    by_cases huid : a.uid = r.uid
    · simp [huid, eq_comm]
    · have hne : r ≠ a := fun hsame => huid (congrArg NodeRecord.uid hsame.symm)
      rw [beq_false_of_ne huid]
      simp [hne, Ne.symm huid]

theorem nodup_firstRecords (l : List NodeRecord) : ((firstRecords l).map (·.uid)).Nodup := by
  induction l with
  | nil => exact List.nodup_nil
  | cons a rest ih =>
    rw [firstRecords, List.map_cons]
    refine List.nodup_cons.2 ⟨fun hin => ?_, ih.sublist (List.filter_sublist.map _)⟩
    obtain ⟨r, hr, huid⟩ := List.mem_map.1 hin
    exact of_decide_eq_true (List.mem_filter.1 hr).2 huid

theorem mem_uids_firstRecords {uid : String} {l : List NodeRecord} :
    uid ∈ (firstRecords l).map (·.uid) ↔ ∃ r ∈ l, r.uid = uid := by
  rw [List.mem_map]
  constructor
  · rintro ⟨r, hr, huid⟩
    exact ⟨r, List.mem_of_find?_eq_some (mem_firstRecords.1 hr), huid⟩
  · rintro ⟨r, hr, rfl⟩
    have hfound : (l.find? (·.uid == r.uid)).isSome := List.find?_isSome.2 ⟨r, hr, beq_self_eq_true r.uid⟩
    obtain ⟨first, hfirst⟩ := Option.isSome_iff_exists.1 hfound
    have huid : (first.uid == r.uid) = true := List.find?_some (p := fun x : NodeRecord => x.uid == r.uid) hfirst
    refine ⟨first, mem_firstRecords.2 ?_, eq_of_beq huid⟩
    rw [eq_of_beq huid]
    exact hfirst

end Restore

/-! ## Links -/

def NodeRecord.plugs (r : NodeRecord) : PortKind → List (List PortLink)
  | .flow => r.flowPlugs
  | .data => r.dataPlugs

def NodeRecord.links (r : NodeRecord) : List PortLink := (r.flowPlugs ++ r.dataPlugs).flatten

/-- The links of the first record with a uid. -/
def Program.linksAt (p : Program) (uid : String) : List PortLink := ((p.find? uid).map NodeRecord.links).getD []

namespace Restore
variable (nodes : OrderedMap String NodeId)

theorem length_edgesOf (id : NodeId) (kind : PortKind) (plugs : List (List PortLink)) :
    (edgesOf nodes id kind plugs).length = plugs.flatten.length := by
  rw [edgesOf, List.length_flatMap, List.length_flatten]
  have hlength : (fun x : List PortLink × Nat => (plugEdges nodes ⟨id, kind, x.2⟩ x.1).length) =
      List.length ∘ Prod.fst := funext fun x => List.length_map _
  show (plugs.zipIdx.map fun x => (plugEdges nodes ⟨id, kind, x.2⟩ x.1).length).sum = _
  rw [hlength, ← List.map_map, List.zipIdx_map_fst]

theorem edges_cons_of_none {r : NodeRecord} (hnone : nodes.get? r.uid = none) (records : List NodeRecord) :
    edges nodes (r :: records) = edges nodes records := by
  rw [edges, List.flatMap_cons, hnone]
  rfl

theorem edges_cons_of_some {r : NodeRecord} {id : NodeId} (hid : nodes.get? r.uid = some id)
    (records : List NodeRecord) : edges nodes (r :: records) =
      (edgesOf nodes id .flow r.flowPlugs ++ edgesOf nodes id .data r.dataPlugs) ++ edges nodes records := by
  rw [edges, List.flatMap_cons, hid]
  rfl

/-- Every link of a restored record is an edge that is asked for. -/
theorem length_edges (records : List NodeRecord) : (edges nodes records).length =
    ((records.filter fun r => (nodes.get? r.uid).isSome).flatMap NodeRecord.links).length := by
  induction records with
  | nil => rfl
  | cons r rest ih =>
    cases hid : nodes.get? r.uid with
    | none => rw [edges_cons_of_none nodes hid, List.filter_cons_of_neg (by rw [hid]; exact Bool.false_ne_true), ih]
    | some id =>
      rw [edges_cons_of_some nodes hid, List.filter_cons_of_pos (by rw [hid]; rfl), List.flatMap_cons,
        List.length_append, List.length_append, List.length_append, ih, length_edgesOf, length_edgesOf,
        NodeRecord.links, List.flatten_append, List.length_append]

variable {nodes}

theorem mem_edges {records : List NodeRecord} {r : NodeRecord} (hr : r ∈ records) {id : NodeId}
    (hid : nodes.get? r.uid = some id) {kind : PortKind} {index : Nat} {links : List PortLink}
    (hlinks : (r.plugs kind)[index]? = some links) {l : PortLink} (hl : l ∈ links) :
    (nodes.get? l.target).map (fun target => (⟨⟨id, kind, index⟩, ⟨target, kind, l.socket⟩⟩ : PendingEdge)) ∈
      edges nodes records := by
  have hplug : ∀ plugs : List (List PortLink), plugs[index]? = some links →
      (nodes.get? l.target).map (fun target => (⟨⟨id, kind, index⟩, ⟨target, kind, l.socket⟩⟩ : PendingEdge)) ∈
        edgesOf nodes id kind plugs := by
    intro plugs hplugs
    refine List.mem_flatMap.2 ⟨(links, index), List.mem_zipIdx_iff_getElem?.2 hplugs, ?_⟩
    exact List.mem_map.2 ⟨l, hl, rfl⟩
  refine List.mem_flatMap.2 ⟨r, hr, ?_⟩
  rw [hid]
  cases kind with
  | flow => exact List.mem_append_left _ (hplug _ hlinks)
  | data => exact List.mem_append_right _ (hplug _ hlinks)

end Restore

/-! ## Nodes -/

/-- Every node that stands for a uid is live, no two uids have the same one, and there are no others. -/
structure RestoreReport.Stands (report : RestoreReport) (s : Session) : Prop where
  apart : report.nodes.values.Nodup
  live : ∀ id, id ∈ report.nodes.values ↔ (s.node? id).isSome

theorem OrderedMap.values_insert {κ α : Type} [DecidableEq κ] {m : OrderedMap κ α} {k : κ} (h : k ∉ m.keys)
    (a : α) : (m.insert k a).values = m.values ++ [a] := by
  rw [values, entries_insert h, List.map_append]
  rfl

namespace Session
variable {s t : Session}

theorem stands_spawnRecord {report : RestoreReport} (h : report.Stands s) (hi : s.Intact) (hd : s.drag = none)
    (kind : NodeKind) {r : NodeRecord} (hnew : r.uid ∉ report.nodes.keys) :
    ({ report with nodes := report.nodes.insert r.uid s.ids.node.1 } : RestoreReport).Stands
      (Restore.spawnRecord s kind r).2 := by
  obtain ⟨-, -, hkind, hothers⟩ := grows_spawnRecord hd kind r
  have hfresh : s.node? s.ids.node.1 = none := Option.map_eq_none_iff.1 hi.tied.followers_fresh
  have hvalues := OrderedMap.values_insert hnew s.ids.node.1
  refine ⟨?_, fun id => ?_⟩
  · rw [hvalues, List.nodup_append_comm]
    refine List.nodup_cons.2 ⟨fun hin => ?_, h.apart⟩
    have hlive := (h.live _).1 hin
    rw [hfresh] at hlive
    cases hlive
  · rw [hvalues, List.mem_append, List.mem_singleton, h.live]
    by_cases hid : id = s.ids.node.1
    · have hnode : ((Restore.spawnRecord s kind r).2.node? s.ids.node.1).isSome := by
        rw [← Option.isSome_map, hkind]
        rfl
      rw [hid]
      exact ⟨fun _ => hnode, fun _ => Or.inr rfl⟩
    · rw [hothers id hid]
      exact ⟨fun hin => hin.resolve_right hid, Or.inl⟩

/-- The uids of later records stay unreported when that of another record is reported. -/
theorem unreported {nodes : OrderedMap String NodeId} {uid : String} {rest : List NodeRecord}
    (hother : uid ∉ rest.map (·.uid)) (hnew : uid ∉ nodes.keys) (hrest : ∀ r ∈ rest, r.uid ∉ nodes.keys)
    (id : NodeId) : ∀ r ∈ rest, r.uid ∉ (nodes.insert uid id).keys := by
  intro r hr hin
  rw [OrderedMap.keys_insert, if_neg hnew, List.mem_append, List.mem_singleton] at hin
  obtain hin | huid := hin
  · exact hrest r hr hin
  · exact hother (List.mem_map.2 ⟨r, hr, huid⟩)

theorem stands_spawnAll (report : RestoreReport) (h : report.Stands s) (hi : s.Intact) (hd : s.drag = none)
    (palette : Palette) {records : List NodeRecord} (honce : (records.map (·.uid)).Nodup)
    (hnew : ∀ r ∈ records, r.uid ∉ report.nodes.keys) :
    (Restore.spawnAll palette s report records).2.Stands (Restore.spawnAll palette s report records).1 := by
  induction records generalizing s report with
  | nil => exact h
  | cons r rest ih =>
    obtain ⟨hother, honce⟩ := List.nodup_cons.1 honce
    obtain ⟨hfirst, hrest⟩ := List.forall_mem_cons.1 hnew
    unfold Restore.spawnAll
    split
    · exact ih { report with skippedNodes := report.skippedNodes ++ [r.uid] } ⟨h.apart, h.live⟩ hi hd honce hrest
    · rename_i kind _
      have hgrows := (grows_spawnRecord hd kind r).1
      exact ih _ (stands_spawnRecord h hi hd kind hfirst) (hi.moves (moves_spawnRecord hi kind r))
        (hgrows.drag.trans hd) honce (unreported hother hfirst hrest _)

/-- The uids of the records that the palette knows are reported with their nodes, in their order. -/
theorem keys_spawnAll (palette : Palette) (s : Session) (report : RestoreReport) {records : List NodeRecord}
    (honce : (records.map (·.uid)).Nodup) (hnew : ∀ r ∈ records, r.uid ∉ report.nodes.keys) :
    (Restore.spawnAll palette s report records).2.nodes.keys = report.nodes.keys ++
      (records.filter fun r => (palette.kind? r.identifier).isSome).map (·.uid) := by
  induction records generalizing s report with
  | nil => exact (List.append_nil _).symm
  | cons r rest ih =>
    obtain ⟨hother, honce⟩ := List.nodup_cons.1 honce
    obtain ⟨hfirst, hrest⟩ := List.forall_mem_cons.1 hnew
    unfold Restore.spawnAll
    split
    · rename_i hkind
      rw [List.filter_cons_of_neg (by rw [hkind]; exact Bool.false_ne_true)]
      exact ih s { report with skippedNodes := report.skippedNodes ++ [r.uid] } honce hrest
    · rename_i kind hkind
      have hmore := ih (Restore.spawnRecord s kind r).2
        { report with nodes := report.nodes.insert r.uid s.ids.node.1 } honce
        (unreported hother hfirst hrest _)
      rw [List.filter_cons_of_pos (by rw [hkind]; rfl), List.map_cons]
      refine hmore.trans ?_
      rw [OrderedMap.keys_insert, if_neg hfirst, List.append_assoc]
      rfl

/-- Those of the others are reported as skipped. -/
theorem skipped_spawnAll (palette : Palette) (s : Session) (report : RestoreReport) (records : List NodeRecord) :
    (Restore.spawnAll palette s report records).2.skippedNodes = report.skippedNodes ++
      (records.filter fun r => !(palette.kind? r.identifier).isSome).map (·.uid) := by
  induction records generalizing s report with
  | nil => exact (List.append_nil _).symm
  | cons r rest ih =>
    unfold Restore.spawnAll
    split
    · rename_i hkind
      rw [ih, List.filter_cons_of_pos (by rw [hkind]; rfl), List.map_cons, List.append_assoc]
      rfl
    · rename_i kind hkind
      rw [ih, List.filter_cons_of_neg (by rw [hkind]; exact Bool.false_ne_true)]

end Session

/-! ## Edges that cannot be made -/

/-- The edge joins ports that nothing keeps apart, unless their types do. -/
def Wiring.Feasible (w : Wiring) (e : PendingEdge) : Prop :=
  (w.departures e.plug).isSome ∧ w.Free e.plug e.socket

namespace Session
variable {s t : Session} {e : PendingEdge}

theorem feasible_of_connect (h : s.Intact) {c : ConnectorId} (ht : s.connect e.plug e.socket = .ok (c, t)) :
    s.wiring.Feasible e :=
  free_of_validate h.tied.sound (Intact.connect_eq ht).1

/-- What is refused for another reason than the types is not feasible. -/
theorem not_feasible_of_refused (h : s.Intact) {x : ConnectionError}
    (hx : s.connect e.plug e.socket = .error x) (hother : ∀ a b, x ≠ .typeMismatch a b) :
    ¬s.wiring.Feasible e := by
  rintro ⟨hplug, hfree⟩
  obtain ⟨l, hl⟩ := Option.isSome_iff_exists.1 hplug
  obtain ⟨q, hq, -⟩ := Option.map_eq_some_iff.1 hl
  obtain ⟨l', hl'⟩ := Option.isSome_iff_exists.1 hfree.socket
  obtain ⟨u, hu, -⟩ := Option.map_eq_some_iff.1 hl'
  have hvalid := validate_of_free h.tied.sound hq hu hfree
  split at hvalid
  · obtain ⟨c, t, ht⟩ := connect_of_validate hvalid
    rw [ht] at hx
    cases hx
  · rw [connect_of_refused hvalid] at hx
    exact hother _ _ (Except.error.inj hx).symm

theorem refused_of_not_feasible (h : s.Intact) (he : ¬s.wiring.Feasible e) :
    ∃ x, s.connect e.plug e.socket = .error x := by
  cases ht : s.connect e.plug e.socket with
  | error x => exact ⟨x, rfl⟩
  | ok made => exact absurd (feasible_of_connect h ht) he

/-- What is not feasible does not become so when another edge is made. -/
theorem feasible_before_connect (h : s.Intact) {p : PlugRef} {r : SocketRef} {c : ConnectorId}
    (ht : s.connect p r = .ok (c, t)) (he : t.wiring.Feasible e) : s.wiring.Feasible e := by
  obtain ⟨-, hc, -⟩ := Intact.connect_eq ht
  have hfresh : s.wiring.edge c = none := hc ▸ h.tied.edge_fresh
  rw [wiring_connect ht] at he
  obtain ⟨hplug, hfree⟩ := he
  refine ⟨?_, ?_, hfree.kind, hfree.node, fun d f hf hto => hfree.alone d f ?_ hto⟩
  · have hsome : ((s.wiring.opened c p).departures e.plug).isSome := (Wiring.point_isSome.symm.trans hplug)
    exact hsome
  · have hsome : ((s.wiring.opened c p).arrivals e.socket).isSome :=
      (Wiring.point_isSome.symm.trans hfree.socket)
    exact hsome
  · have hd : d ≠ c := by
      rintro rfl
      rw [hfresh] at hf
      cases hf
    show (if d = c then some _ else if d = c then some _ else s.wiring.edge d) = some f
    rw [if_neg hd, if_neg hd, hf]

/-- An edge that is there cannot be made once more. -/
theorem not_feasible_of_made {c : ConnectorId} (ht : s.connect e.plug e.socket = .ok (c, t)) :
    ¬t.wiring.Feasible e := by
  rintro ⟨-, hfree⟩
  rw [wiring_connect ht] at hfree
  have hedge : ((s.wiring.opened c e.plug).linkedTo c e.plug e.socket).edge c =
      some ⟨e.plug, some e.socket, .connected⟩ := if_pos rfl
  exact (hfree.alone c _ hedge rfl).2 rfl

/-! ## Rounds -/

theorem feasible_before_round (h : s.Intact) (es : List PendingEdge)
    (he : (Restore.connectEach s es).session.wiring.Feasible e) : s.wiring.Feasible e := by
  induction es generalizing s with
  | nil => exact he
  | cons e' rest ih =>
    rw [Restore.connectEach] at he
    split at he
    · rename_i c t ht
      exact feasible_before_connect h ht (ih (h.connect ht) he)
    · exact ih h he
    · exact ih h he

/-- After a round every edge that it has tried is put off or not feasible. -/
theorem tried_in_round (h : s.Intact) (es : List PendingEdge) (he : e ∈ es) :
    e ∈ (Restore.connectEach s es).deferred ∨ ¬(Restore.connectEach s es).session.wiring.Feasible e := by
  induction es generalizing s with
  | nil => cases he
  | cons e' rest ih =>
    rw [Restore.connectEach]
    split
    · rename_i c t ht
      obtain rfl | he := List.mem_cons.1 he
      · exact Or.inr fun hlater => not_feasible_of_made ht (feasible_before_round (h.connect ht) rest hlater)
      · exact ih (h.connect ht) he
    · obtain rfl | he := List.mem_cons.1 he
      · exact Or.inl List.mem_cons_self
      · exact (ih h he).imp_left (List.mem_cons_of_mem _)
    · rename_i x hother hx
      obtain rfl | he := List.mem_cons.1 he
      · refine Or.inr fun hlater => not_feasible_of_refused h hx (fun a b hsame => ?_)
          (feasible_before_round h rest hlater)
        exact hother a b hsame
      · exact ih h he

theorem length_deferred_le (s : Session) (es : List PendingEdge) :
    (Restore.connectEach s es).deferred.length ≤ es.length := by
  induction es generalizing s with
  | nil => exact Nat.le_refl _
  | cons e' rest ih =>
    rw [Restore.connectEach]
    split
    · exact Nat.le_succ_of_le (ih _)
    · exact Nat.succ_le_succ (ih _)
    · exact Nat.le_succ_of_le (ih _)

/-- A round that puts off everything changes nothing, so what it has refused is still refused. -/
theorem stuck_round (es : List PendingEdge) (hall : (Restore.connectEach s es).deferred.length = es.length) :
    (Restore.connectEach s es).session = s ∧ ∀ e ∈ es, ∃ x, s.connect e.plug e.socket = .error x := by
  induction es generalizing s with
  | nil => exact ⟨rfl, fun _ he => (List.not_mem_nil he).elim⟩
  | cons e' rest ih =>
    rw [Restore.connectEach] at hall ⊢
    split at hall
    · rename_i c t ht
      have hless := length_deferred_le t rest
      rw [List.length_cons] at hall
      omega
    · rename_i a b hx
      obtain ⟨hsame, hrefused⟩ := ih (Nat.succ.inj hall)
      exact ⟨hsame, List.forall_mem_cons.2 ⟨⟨_, hx⟩, hrefused⟩⟩
    · have hless := length_deferred_le s rest
      rw [List.length_cons] at hall
      dsimp only at hall
      omega

theorem feasible_before_rounds (h : s.Intact) (rounds : Nat) (es : List PendingEdge)
    (he : (Restore.connectAll rounds s es).2.wiring.Feasible e) : s.wiring.Feasible e := by
  induction rounds generalizing s es with
  | zero => exact he
  | succ rounds ih =>
    unfold Restore.connectAll at he
    dsimp only at he
    split at he
    · exact feasible_before_round h es he
    · exact feasible_before_round h es (ih (h.moves (moves_connectEach s es)) _ he)

/-- Whatever has been tried in enough rounds, made or left out, cannot be made afterwards. -/
theorem refused_after_rounds (h : s.Intact) {rounds : Nat} {es : List PendingEdge} (hrounds : es.length ≤ rounds)
    (he : e ∈ es) : ∃ x, (Restore.connectAll rounds s es).2.connect e.plug e.socket = .error x := by
  induction rounds generalizing s es with
  | zero =>
    obtain rfl := List.length_eq_zero_iff.1 (Nat.le_zero.1 hrounds)
    cases he
  | succ rounds ih =>
    have hmid := h.moves (moves_connectEach s es)
    have hless := length_deferred_le s es
    have htried := tried_in_round h es he
    unfold Restore.connectAll
    dsimp only
    split
    · rename_i hstop
      obtain hnone | hall := Bool.or_eq_true_iff.1 hstop
      · refine refused_of_not_feasible hmid (htried.resolve_left fun hin => ?_)
        rw [List.isEmpty_iff.1 hnone] at hin
        cases hin
      · obtain ⟨hsame, hrefused⟩ := stuck_round es (eq_of_beq hall)
        rw [hsame]
        exact hrefused e he
    · rename_i hgo
      have hshorter : (Restore.connectEach s es).deferred.length ≠ es.length := by
        intro heq
        rw [heq, beq_self_eq_true, Bool.or_true] at hgo
        exact hgo rfl
      obtain hin | hnot := htried
      · exact ih hmid (by omega) hin
      · have hfinal := hmid.moves (moves_connectAll rounds _ (Restore.connectEach s es).deferred)
        exact refused_of_not_feasible hfinal fun hlater => hnot (feasible_before_rounds hmid _ _ hlater)

end Session

/-! ## The account -/

/-- The report accounts for every record and every link of a program that has been restored into a session. -/
structure RestoreReport.Accounts (report : RestoreReport) (program : Program) (s : Session) : Prop where
  nodes : report.Stands s
  /-- No uid is reported twice, neither with a node nor as skipped. -/
  once : (report.nodes.keys ++ report.skippedNodes).Nodup
  uids : ∀ uid, uid ∈ report.nodes.keys ++ report.skippedNodes ↔ ∃ r ∈ program.records, r.uid = uid
  /-- Of the links in the first records of the restored uids each is an edge or is counted as left out. -/
  links : s.connectors.size + report.skippedEdges = (report.nodes.keys.flatMap program.linksAt).length
  /-- No link between restored uids, whether it has been made or left out, can be made another time. -/
  settled : ∀ uid id r, report.nodes.get? uid = some id → program.find? uid = some r →
    ∀ kind index links, (r.plugs kind)[index]? = some links → ∀ l ∈ links, ∀ target,
      report.nodes.get? l.target = some target →
        ∃ x, s.connect ⟨id, kind, index⟩ ⟨target, kind, l.socket⟩ = .error x

theorem Program.linksAt_of_first {program : Program} {r : NodeRecord}
    (hr : r ∈ Restore.firstRecords program.records) : program.linksAt r.uid = r.links := by
  rw [linksAt, find?, Restore.mem_firstRecords.1 hr]
  rfl

/-- The links of the restored records are those of the first records of the restored uids. -/
theorem Program.links_restored {program : Program} {nodes : OrderedMap String NodeId} {known : NodeRecord → Bool}
    (hkeys : nodes.keys = ((Restore.firstRecords program.records).filter known).map (·.uid)) :
    ((Restore.firstRecords program.records).filter fun r => (nodes.get? r.uid).isSome).flatMap NodeRecord.links =
      nodes.keys.flatMap program.linksAt := by
  have hknown (r : NodeRecord) (hr : r ∈ Restore.firstRecords program.records) :
      (nodes.get? r.uid).isSome = known r := by
    rw [Bool.eq_iff_iff, ← OrderedMap.mem_keys_iff, hkeys, List.mem_map]
    constructor
    · rintro ⟨r', hr', huid⟩
      obtain ⟨hin, hyes⟩ := List.mem_filter.1 hr'
      have hfirst := Restore.mem_firstRecords.1 hin
      rw [huid, Restore.mem_firstRecords.1 hr] at hfirst
      rw [Option.some.inj hfirst]
      exact hyes
    · exact fun hyes => ⟨r, List.mem_filter.2 ⟨hr, hyes⟩, rfl⟩
  rw [List.filter_congr hknown, hkeys, List.flatMap_map]
  refine List.flatMap_congr fun r hr => ?_
  exact (Program.linksAt_of_first (List.mem_filter.1 hr).1).symm

namespace Session
variable {s : Session}

theorem live_connectEach (h : s.Intact) (es : List PendingEdge) (id : NodeId) :
    ((Restore.connectEach s es).session.node? id).isSome = (s.node? id).isSome := by
  induction es generalizing s with
  | nil => rfl
  | cons e rest ih =>
    rw [Restore.connectEach]
    split
    · rename_i c t ht
      exact (ih (h.connect ht)).trans ((Made.connect h ht).live id)
    · exact ih h
    · exact ih h

theorem live_connectAll (h : s.Intact) (rounds : Nat) (es : List PendingEdge) (id : NodeId) :
    ((Restore.connectAll rounds s es).2.node? id).isSome = (s.node? id).isSome := by
  induction rounds generalizing s es with
  | zero => rfl
  | succ rounds ih =>
    have hround := live_connectEach h es id
    unfold Restore.connectAll
    dsimp only
    split
    · exact hround
    · exact (ih (h.moves (moves_connectEach s es)) _).trans hround

/-- Before the edges are made, the nodes are accounted for. -/
theorem spawned_restore (h : s.Intact) (palette : Palette) (program : Program) :
    let records := Restore.firstRecords program.records
    let known := fun r : NodeRecord => (palette.kind? r.identifier).isSome
    let out := Restore.spawnAll palette (Restore.registerVariables s.removeAll program.variableTypes)
      ⟨.empty, [], 0⟩ records
    out.1.Intact ∧ out.1.connectors = .empty ∧ out.2.Stands out.1 ∧
      out.2.nodes.keys = (records.filter known).map (·.uid) ∧
      out.2.skippedNodes = (records.filter (!known ·)).map (·.uid) := by
  obtain ⟨hnodes, hconnectors, hdrag⟩ := empty_removeAll h
  obtain ⟨types, heq, -⟩ := registerVariables_eq s.removeAll program.variableTypes
  have hblank := (h.moves (moves_removeAll h).1).moves (moves_registerVariables s.removeAll program.variableTypes)
  rw [heq] at hblank ⊢
  have hstands : (⟨.empty, [], 0⟩ : RestoreReport).Stands { s.removeAll with variableTypes := types } := by
    refine ⟨List.nodup_nil, fun id => ⟨fun hin => (List.not_mem_nil hin).elim, fun hlive => ?_⟩⟩
    change (s.removeAll.nodes.get? id).isSome at hlive
    rw [hnodes] at hlive
    cases hlive
  have honce := Restore.nodup_firstRecords program.records
  have hnew (r : NodeRecord) (_ : r ∈ Restore.firstRecords program.records) :
      r.uid ∉ (OrderedMap.empty : OrderedMap String NodeId).keys := List.not_mem_nil
  have hsame := connectors_spawnAll (s := { s.removeAll with variableTypes := types }) hdrag palette
    ⟨.empty, [], 0⟩ (Restore.firstRecords program.records)
  exact ⟨hblank.moves (moves_spawnAll hblank palette _ _), hsame.trans hconnectors,
    stands_spawnAll _ hstands hblank hdrag palette honce hnew, keys_spawnAll palette _ _ honce hnew,
    skipped_spawnAll palette _ _ _⟩

/-- Every program that is restored into a session that is reached is accounted for. -/
theorem Reached.restore_accounts (h : s.Reached) (palette : Palette) (program : Program) :
    (s.restore palette program).1.Accounts program (s.restore palette program).2 := by
  obtain ⟨hintact, hnone, hstands, hkeys, hskipped⟩ := spawned_restore h.intact palette program
  unfold Session.restore
  dsimp only
  generalize Restore.spawnAll palette (Restore.registerVariables s.removeAll program.variableTypes)
    ⟨.empty, [], 0⟩ (Restore.firstRecords program.records) = out at hintact hnone hstands hkeys hskipped ⊢
  obtain ⟨u, report⟩ := out
  dsimp only at hintact hnone hstands hkeys hskipped ⊢
  have hedges := (Restore.length_edges report.nodes (Restore.firstRecords program.records)).trans
    (congrArg List.length (Program.links_restored hkeys))
  have hsize := size_connectAll hintact
    ((Restore.edges report.nodes (Restore.firstRecords program.records)).filterMap id).length
    ((Restore.edges report.nodes (Restore.firstRecords program.records)).filterMap id)
  have hpending := List.length_filterMap_le id (Restore.edges report.nodes (Restore.firstRecords program.records))
  have hreported : (report.nodes.keys ++ report.skippedNodes).Perm
      ((Restore.firstRecords program.records).map (·.uid)) := by
    rw [hkeys, hskipped, ← List.map_append]
    exact (List.filter_append_perm _ _).map _
  refine ⟨⟨hstands.apart, fun id => ?_⟩, ?_, fun uid => ?_, ?_, ?_⟩
  · rw [live_connectAll hintact]
    exact hstands.live id
  · exact hreported.nodup_iff.2 (Restore.nodup_firstRecords _)
  · rw [hreported.mem_iff, Restore.mem_uids_firstRecords]
  · rw [hnone] at hsize
    show _ + (_ + _) = _
    rw [← hedges]
    have hzero : (OrderedMap.empty : OrderedMap ConnectorId Connector).size = 0 := rfl
    omega
  · intro uid id r hid hr kind index links hlinks l hl target htarget
    have huid : (r.uid == uid) = true := List.find?_some (p := fun x : NodeRecord => x.uid == uid) hr
    obtain rfl := eq_of_beq huid
    have hasked := Restore.mem_edges (Restore.mem_firstRecords.2 hr) hid hlinks hl
    rw [htarget] at hasked
    exact refused_after_rounds (e := ⟨⟨id, kind, index⟩, ⟨target, kind, l.socket⟩⟩) hintact (Nat.le_refl _)
      (List.mem_filterMap.2 ⟨_, hasked, rfl⟩)

/-- A program that no session has saved: a uid comes twice, one identifier is unknown, and links lead to
sockets that are not there, to a node that is not there, back to where they come from, to one socket twice and
from two plugs to one data socket. -/
def wildProgram : Program where
  flows := []
  additional :=
    let record (uid identifier : String) (flow data : List (List PortLink)) : NodeRecord :=
      ⟨uid, identifier, "", 0.0, 0.0, 1.0, none, flow, data, []⟩
    [record "start" NodeKind.startEvent.identifier
        [[⟨"c0", "log", 0⟩, ⟨"c1", "log", 0⟩, ⟨"c2", "log", 7⟩, ⟨"c3", "start", 0⟩]] [],
      record "log" NodeKind.consoleLog.identifier [[⟨"c4", "log", 0⟩]] [],
      record "start" NodeKind.consoleLog.identifier [[⟨"c5", "log", 0⟩]] [],
      record "lost" "unknown" [[⟨"c6", "log", 0⟩]] [],
      record "mobile" NodeKind.isMobile.identifier [] [[⟨"c7", "lost", 0⟩, ⟨"c8", "log", 0⟩]],
      record "size" NodeKind.screenSize.identifier [] [[⟨"c9", "log", 0⟩], [], [⟨"c0", "log", 0⟩]]]
  variableTypes := .empty

theorem restore_accounts_wild :
    let out := nestedSums.restore .standard wildProgram
    out.1.Accounts wildProgram out.2 ∧ out.1.skippedNodes = ["lost"] ∧ out.2.connectors.size = 2 ∧
      out.1.skippedEdges = 7 :=
  ⟨Reached.restore_accounts reached_nestedSums .standard wildProgram, rfl, rfl, rfl⟩

end Session
end FlowGraph
