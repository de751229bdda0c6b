import FlowGraph.Proofs.Program.Graph
import Mathlib.Data.List.Nodup
import Mathlib.Data.List.Perm.Subperm

/-! # The two searches of saving

A flow is followed along its path and cut where it would come back to it; still no node is lost, because a
node that can be reached at all can be reached without coming back. The sources are met once each, and
the list of those that were met is closed: it holds the sources of everything it has added.
-/

namespace FlowGraph
set_option autoImplicit false

/-! ## Ways that do not come back -/

section Clear
variable {α : Type} {R : α → α → Prop} {path : List α} {a b : α}

/-- There is a way from `a` to `b` that enters no node of `path`. -/
def Clear (R : α → α → Prop) (path : List α) : α → α → Prop :=
  Relation.ReflTransGen fun x y => R x y ∧ y ∉ path

theorem clear_nil : Clear R [] a b ↔ Relation.ReflTransGen R a b := by
  have hsame : (fun x y => R x y ∧ y ∉ ([] : List α)) = R := by
    funext x y
    simp
  rw [Clear, hsame]

theorem Clear.of_cons {x : α} (h : Clear R (x :: path) a b) : Clear R path a b := by
  have hstep (y z : α) (hyz : R y z ∧ z ∉ x :: path) : R y z ∧ z ∉ path :=
    ⟨hyz.1, fun hz => hyz.2 (List.mem_cons_of_mem x hz)⟩
  exact Relation.ReflTransGen.mono hstep _ _ h

/-- A way either avoids a node, or can be taken up where it leaves that node for the last time. -/
theorem Clear.split (h : Clear R path a b) (x : α) : Clear R (x :: path) a b ∨ b = x ∨
    ∃ y, R x y ∧ y ∉ x :: path ∧ Clear R (x :: path) y b := by
  induction h using Relation.ReflTransGen.head_induction_on with
  | refl => exact Or.inl .refl
  | @head c d hstep _ ih =>
    obtain hclear | hlater := ih
    · by_cases hd : d ∈ x :: path
      · have hx : d = x := (List.mem_cons.1 hd).resolve_right hstep.2
        subst hx
        -- The way enters `x` here; what follows avoids it from then on.
        obtain hb | ⟨y, hy, hrest⟩ := Relation.ReflTransGen.cases_head hclear
        · exact Or.inr (Or.inl hb.symm)
        · exact Or.inr (Or.inr ⟨y, hy.1, hy.2, hrest⟩)
      · exact Or.inl (.head ⟨hstep.1, hd⟩ hclear)
    · exact Or.inr hlater

/-- From a node the way goes on to another one without coming back. -/
theorem clear_iff : Clear R path a b ↔
    b = a ∨ ∃ c, R a c ∧ c ∉ a :: path ∧ Clear R (a :: path) c b := by
  constructor
  · intro h
    obtain hclear | hlater := h.split a
    · obtain hb | ⟨c, hc, hrest⟩ := Relation.ReflTransGen.cases_head hclear
      · exact Or.inl hb.symm
      · exact Or.inr ⟨c, hc.1, hc.2, hrest⟩
    · exact hlater
  · rintro (rfl | ⟨c, hc, hnew, hrest⟩)
    · exact .refl
    · exact .head ⟨hc, fun hin => hnew (List.mem_cons_of_mem a hin)⟩ hrest.of_cons

end Clear

namespace Session

/-! ## Following flows -/

section Flows
variable {s : Session}

theorem length_le_size {l : List NodeId} (h : l.Nodup) (hlive : ∀ id ∈ l, (s.node? id).isSome) :
    l.length ≤ s.nodes.size := by
  have hsub : l ⊆ s.nodes.keys := fun id hid => (s.nodes.mem_keys_iff id).2 (hlive id hid)
  have hle := (h.subperm hsub).length_le
  rw [OrderedMap.keys, List.length_map] at hle
  exact hle

/-- With room for all nodes, a flow holds what can be reached without entering its path. -/
theorem mem_flowFrom (h : s.Intact) {room : Nat} {path : List NodeId} {id m : NodeId}
    (hlive : ∀ x ∈ id :: path, (s.node? x).isSome) (hpath : (id :: path).Nodup)
    (hroom : s.nodes.size ≤ room + path.length) :
    m ∈ Entry.flowNodes (s.flowFrom room path id) ↔ Clear (s.Leads .flow) path id m := by
  induction room generalizing path id with
  | zero =>
    have hle := length_le_size hpath hlive
    rw [List.length_cons] at hle
    omega
  | succ room ih =>
    obtain ⟨n, hn⟩ := Option.isSome_iff_exists.1 (hlive id List.mem_cons_self)
    have honward (next : NodeId) (hnext : s.Leads .flow id next) :
        m ∈ Entry.flowNodes (s.onward room (id :: path) next) ↔
          next ∉ id :: path ∧ Clear (s.Leads .flow) (id :: path) next m := by
      rw [onward]
      by_cases hin : next ∈ id :: path
      · rw [if_pos (List.contains_iff_mem.2 hin)]
        exact ⟨fun hm => absurd hm List.not_mem_nil, fun hm => absurd hin hm.1⟩
      · rw [if_neg fun hc => hin (List.contains_iff_mem.1 hc)]
        have hlive' : ∀ x ∈ next :: id :: path, (s.node? x).isSome := by
          intro x hx
          obtain rfl | hx := List.mem_cons.1 hx
          · exact (hnext.live h).2
          · exact hlive x hx
        rw [ih hlive' (List.nodup_cons.2 ⟨hin, hpath⟩) (by rw [List.length_cons]; omega)]
        exact (and_iff_right hin).symm
    rw [s.flowFrom_of_node? room path hn, Entry.flowNodes_nodeFlow, List.mem_cons,
      Entry.mem_branchNodes, clear_iff]
    refine or_congr Iff.rfl ?_
    constructor
    · rintro ⟨flow, hflow, hm⟩
      rw [List.map_map] at hflow
      obtain ⟨way, hmem, rfl⟩ := List.mem_map.1 hflow
      cases way with
      | none => cases hm
      | some next =>
        have hnext := (mem_waysFrom h hn).1 hmem
        exact ⟨next, hnext, (honward next hnext).1 hm⟩
    · rintro ⟨next, hnext, hrest⟩
      refine ⟨_, ?_, (honward next hnext).2 hrest⟩
      rw [List.map_map]
      exact List.mem_map_of_mem (f := _ ∘ _) ((mem_waysFrom h hn).2 hnext)

/-! ## Start nodes -/

theorem mem_startNodes (h : s.Intact) {id : NodeId} :
    id ∈ s.startNodes ↔ ∃ n, s.node? id = some n ∧ n.kind = .startEvent := by
  simp only [startNodes, List.mem_mergeSort, List.mem_map, List.mem_filter, decide_eq_true_eq]
  constructor
  · rintro ⟨⟨id, n⟩, ⟨hmem, hk⟩, rfl⟩
    exact ⟨n, OrderedMap.get?_of_mem h.tied.nodesOnce hmem, hk⟩
  · rintro ⟨n, hn, hk⟩
    exact ⟨(id, n), ⟨OrderedMap.mem_of_get? hn, hk⟩, rfl⟩

theorem feedsFlow_of_mem_startNodes (h : s.Intact) {id : NodeId} (hid : id ∈ s.startNodes) : s.FeedsFlow id := by
  obtain ⟨n, hn, hk⟩ := (mem_startNodes h).1 hid
  exact ⟨id, ⟨id, n, hn, hk, .refl⟩, .refl⟩

theorem nodup_startNodes (h : s.Intact) : s.startNodes.Nodup := by
  have hsub : (s.nodes.entries.filter fun e => e.2.kind = .startEvent).map (·.1) |>.Sublist
      s.nodes.keys := List.filter_sublist.map _
  exact (List.mergeSort_perm _ _).nodup_iff.2 (h.tied.nodesOnce.sublist hsub)

/-- The start nodes come in the order of their identities. -/
theorem sorted_startNodes (h : s.Intact) : s.startNodes.Pairwise (·.number < ·.number) := by
  have hle : s.startNodes.Pairwise fun a b => decide (a.number ≤ b.number) = true := by
    refine List.pairwise_mergeSort (fun a b c hab hbc => ?_) (fun a b => ?_) _
    · simp only [decide_eq_true_eq] at hab hbc ⊢
      exact Nat.le_trans hab hbc
    · simp only [Bool.or_eq_true, decide_eq_true_eq]
      exact Nat.le_total a.number b.number
  refine (hle.and (nodup_startNodes h)).imp fun {a b} hab => ?_
  refine Nat.lt_of_le_of_ne (of_decide_eq_true hab.1) fun hsame => hab.2 ?_
  obtain ⟨number⟩ := a
  exact congrArg NodeId.mk hsame

/-- The flows hold exactly the nodes that a start node reaches. -/
theorem mem_flows (h : s.Intact) {id : NodeId} : id ∈ Entry.branchNodes s.flows ↔ s.InFlow id := by
  have hfrom (start : NodeId) (hstart : (s.node? start).isSome) :
      id ∈ Entry.flowNodes (s.flowFrom s.nodes.size [] start) ↔
        Relation.ReflTransGen (s.Leads .flow) start id := by
    rw [← clear_nil]
    refine mem_flowFrom h (fun x hx => ?_) (List.pairwise_singleton _ start) (Nat.le_refl _)
    rw [List.mem_singleton.1 hx]
    exact hstart
  rw [flows, Entry.mem_branchNodes]
  constructor
  · rintro ⟨flow, hflow, hid⟩
    obtain ⟨start, hstart, rfl⟩ := List.mem_map.1 hflow
    obtain ⟨n, hn, hk⟩ := (mem_startNodes h).1 hstart
    exact ⟨start, n, hn, hk, (hfrom start (by rw [hn]; rfl)).1 hid⟩
  · rintro ⟨start, n, hn, hk, hreach⟩
    refine ⟨_, List.mem_map_of_mem ((mem_startNodes h).2 ⟨n, hn, hk⟩), ?_⟩
    exact (hfrom start (by rw [hn]; rfl)).2 hreach

end Flows

/-! ## Meeting sources -/

/-- What a search for sources has done: it started from some nodes, went on from those that were met
before, and left none out. -/
structure Met (s : Session) (roots before after : List NodeId) : Prop where
  grows : before <+: after
  once : after.Nodup
  live : ∀ m ∈ after, (s.node? m).isSome
  started : ∀ m ∈ roots, m ∈ after
  feeds : ∀ m ∈ after, m ∈ before ∨ ∃ root ∈ roots, Relation.ReflTransGen (s.Leads .data) m root
  closed : ∀ m ∈ after, m ∉ before → ∀ source, s.Leads .data source m → source ∈ after

namespace Met
variable {s : Session} {roots roots' a b c : List NodeId}

theorem refl (hlive : ∀ m ∈ a, (s.node? m).isSome) (hnodup : a.Nodup) : s.Met [] a a where
  grows := List.prefix_rfl
  once := hnodup
  live := hlive
  started m hm := by cases hm
  feeds _ hm := Or.inl hm
  closed m hm hnew := absurd hm hnew

theorem trans (h : s.Met roots a b) (h' : s.Met roots' b c) : s.Met (roots ++ roots') a c where
  grows := h.grows.trans h'.grows
  once := h'.once
  live := h'.live
  started m hm := by
    obtain hm | hm := List.mem_append.1 hm
    · exact h'.grows.subset (h.started m hm)
    · exact h'.started m hm
  feeds m hm := by
    obtain hm | ⟨root, hroot, hreach⟩ := h'.feeds m hm
    · obtain hm | ⟨root, hroot, hreach⟩ := h.feeds m hm
      · exact Or.inl hm
      · exact Or.inr ⟨root, List.mem_append_left _ hroot, hreach⟩
    · exact Or.inr ⟨root, List.mem_append_right _ hroot, hreach⟩
  closed m hm hnew source hsource := by
    by_cases hb : m ∈ b
    · exact h'.grows.subset (h.closed m hb hnew source hsource)
    · exact h'.closed m hm hb source hsource

/-- All that is met is saved if this holds of what was met before and of the nodes to start from. -/
theorem feedsFlow (h : s.Met roots a b) (ha : ∀ m ∈ a, s.FeedsFlow m) (hroots : ∀ m ∈ roots, s.FeedsFlow m) :
    ∀ m ∈ b, s.FeedsFlow m := by
  intro m hm
  obtain hm | ⟨root, hroot, hreach⟩ := h.feeds m hm
  · exact ha m hm
  · obtain ⟨user, huser, hway⟩ := hroots root hroot
    exact ⟨user, huser, hreach.trans hway⟩

end Met

section Sources
variable {s : Session}

/-- Searches that are made one after the other meet what each of them meets. -/
theorem Met.foldl {room : Nat}
    (heach : ∀ met id, (∀ m ∈ met, (s.node? m).isSome) → met.Nodup → (s.node? id).isSome →
      s.nodes.size < room + met.length → s.Met [id] met (s.meetSources room met id))
    {sources seen : List NodeId} (hs : ∀ m ∈ sources, (s.node? m).isSome)
    (hseen : ∀ m ∈ seen, (s.node? m).isSome) (honce : seen.Nodup)
    (hroom : s.nodes.size < room + seen.length) :
    s.Met sources seen (sources.foldl (s.meetSources room) seen) := by
  induction sources generalizing seen with
  | nil => exact refl hseen honce
  | cons a rest ih =>
    have hfirst := heach seen a hseen honce (hs a List.mem_cons_self) hroom
    have hlonger := hfirst.grows.length_le
    exact hfirst.trans (ih (fun m hm => hs m (List.mem_cons_of_mem _ hm)) hfirst.live hfirst.once (by omega))

/-- With room for all nodes, one search meets its root and everything that feeds it. -/
theorem met_meetSources (h : s.Intact) {room : Nat} {met : List NodeId} {id : NodeId}
    (hlive : ∀ m ∈ met, (s.node? m).isSome) (hmet : met.Nodup) (hid : (s.node? id).isSome)
    (hroom : s.nodes.size < room + met.length) : s.Met [id] met (s.meetSources room met id) := by
  induction room generalizing met id with
  | zero =>
    have hle := length_le_size hmet hlive
    omega
  | succ room ih =>
    obtain ⟨n, hn⟩ := Option.isSome_iff_exists.1 hid
    unfold meetSources
    split
    · rename_i hin
      have hin := List.contains_iff_mem.1 hin
      refine { Met.refl hlive hmet with
        started := fun m hm => ?_
        feeds := fun m hm => Or.inl hm }
      rw [List.mem_singleton.1 hm]
      exact hin
    · rename_i hnew
      have hnew : id ∉ met := fun hin => hnew (List.contains_iff_mem.2 hin)
      rw [hn]
      dsimp only
      have hfresh : (met ++ [id]).Nodup := List.concat_eq_append ▸ hmet.concat hnew
      have hseen : ∀ m ∈ met ++ [id], (s.node? m).isSome := by
        intro m hm
        obtain hm | hm := List.mem_append.1 hm
        · exact hlive m hm
        · rw [List.mem_singleton.1 hm]
          exact hid
      have hrest : s.Met (s.dataSources n) (met ++ [id]) _ :=
        Met.foldl (fun _ _ hlive hmet hid hroom => ih hlive hmet hid hroom) (live_dataSources h n) hseen
          hfresh (by rw [List.length_append, List.length_singleton]; omega)
      have hat : id ∈ met ++ [id] := List.mem_append_right _ (List.mem_singleton.2 rfl)
      refine ⟨(List.prefix_append met [id]).trans hrest.grows, hrest.once, hrest.live, fun m hm => ?_,
        fun m hm => ?_, fun m hm hout source hsource => ?_⟩
      · rw [List.mem_singleton.1 hm]
        exact hrest.grows.subset hat
      · obtain hm | ⟨source, hsource, hreach⟩ := hrest.feeds m hm
        · obtain hm | hm := List.mem_append.1 hm
          · exact Or.inl hm
          · rw [List.mem_singleton.1 hm]
            exact Or.inr ⟨id, List.mem_singleton.2 rfl, .refl⟩
        · exact Or.inr ⟨id, List.mem_singleton.2 rfl, hreach.tail ((mem_dataSources h hn).1 hsource)⟩
      · by_cases hm' : m ∈ met ++ [id]
        · obtain hin | hin := List.mem_append.1 hm'
          · exact absurd hin hout
          · rw [List.mem_singleton.1 hin] at hsource
            exact hrest.started source ((mem_dataSources h hn).2 hsource)
        · exact hrest.closed m hm hm' source hsource

/-- The sources of some nodes, each once, are those from which data edges lead to one of them. -/
theorem mem_sourcesOf (h : s.Intact) {ids : List NodeId} (hids : ∀ id ∈ ids, (s.node? id).isSome) :
    (s.sourcesOf ids).Nodup ∧
      ∀ m, m ∈ s.sourcesOf ids ↔ ∃ id ∈ ids, Relation.TransGen (s.Leads .data) m id := by
  have hroots (m : NodeId) : m ∈ (ids.filterMap s.node?).flatMap s.dataSources ↔
      ∃ id ∈ ids, s.Leads .data m id := by
    rw [List.mem_flatMap]
    constructor
    · rintro ⟨n, hn, hm⟩
      obtain ⟨id, hid, hn⟩ := List.mem_filterMap.1 hn
      exact ⟨id, hid, (mem_dataSources h hn).1 hm⟩
    · rintro ⟨id, hid, hm⟩
      obtain ⟨n, hn⟩ := Option.isSome_iff_exists.1 (hids id hid)
      exact ⟨n, List.mem_filterMap.2 ⟨id, hid, hn⟩, (mem_dataSources h hn).2 hm⟩
  have hmet : s.Met ((ids.filterMap s.node?).flatMap s.dataSources) [] (s.sourcesOf ids) := by
    refine Met.foldl (fun _ _ hlive hmet hid hroom => met_meetSources h hlive hmet hid hroom) (fun m hm => ?_)
      (fun m hm => by cases hm) List.nodup_nil (Nat.lt_succ_self _)
    obtain ⟨id, -, hm⟩ := (hroots m).1 hm
    exact (hm.live h).1
  refine ⟨hmet.once, fun m => ⟨fun hm => ?_, ?_⟩⟩
  · obtain hm | ⟨root, hroot, hreach⟩ := hmet.feeds m hm
    · cases hm
    · obtain ⟨id, hid, hlast⟩ := (hroots root).1 hroot
      exact ⟨id, hid, Relation.TransGen.tail' hreach hlast⟩
  · rintro ⟨id, hid, hreach⟩
    induction hreach using Relation.TransGen.head_induction_on with
    | single hm => exact hmet.started _ ((hroots _).2 ⟨id, hid, hm⟩)
    | head hm _ ih => exact hmet.closed _ ih List.not_mem_nil _ hm

/-- The nodes that a program has records of besides the flows. -/
theorem mem_recordedNodes (h : s.Intact) {id : NodeId} : id ∈ s.recordedNodes ↔ s.FeedsFlow id := by
  obtain ⟨-, hsources⟩ := mem_sourcesOf h s.live_flows
  rw [recordedNodes, List.mem_append, List.mem_filter, hsources, Bool.not_eq_true',
    ← Bool.not_eq_true, List.contains_iff_mem, mem_flows h]
  constructor
  · rintro (hflow | ⟨⟨user, huser, hreach⟩, -⟩)
    · exact ⟨id, hflow, .refl⟩
    · exact ⟨user, (mem_flows h).1 huser, hreach.to_reflTransGen⟩
  · rintro ⟨user, huser, hreach⟩
    by_cases hflow : s.InFlow id
    · exact Or.inl hflow
    · refine Or.inr ⟨⟨user, (mem_flows h).2 huser, ?_⟩, hflow⟩
      obtain rfl | hreach := Relation.reflTransGen_iff_eq_or_transGen.1 hreach
      · exact absurd huser hflow
      · exact hreach

theorem saved_iff (h : s.Intact) {id : NodeId} : id ∈ s.savedNodes ↔ s.FeedsFlow id :=
  mem_eachOnce.trans (mem_recordedNodes h)

/-- What feeds a saved node is saved. -/
theorem saved_of_feeder (h : s.Intact) {r : SocketRef} {t : Socket} (hdata : r.kind = .data)
    (hr : r.node ∈ s.savedNodes) (ht : s.socket? r = some t) {p : PlugRef} (hp : s.feeder? t = some p) :
    p.node ∈ s.savedNodes := by
  obtain ⟨c, k, hk, rfl, hto⟩ := (feeder?_eq_some h ht hdata).1 hp
  have hkind := (h.tied.sound.linked c _ r (edge_of_connector? hk) hto).2.1
  have hlead : s.Leads .data k.plug.node r.node := ⟨c, k, r, hk, hto, hkind.trans hdata, rfl, rfl⟩
  exact (saved_iff h).2 (((saved_iff h).1 hr).source hlead)

end Sources

/-! ## Where start nodes occur -/

section Starts
variable {s : Session} {kind : PortKind} {a b id : NodeId}

def isStart (s : Session) (id : NodeId) : Bool := (s.node? id).any (·.kind = .startEvent)

theorem isStart_iff : s.isStart id = true ↔ ∃ n, s.node? id = some n ∧ n.kind = .startEvent := by
  simp [isStart, Option.any_eq_true]

theorem not_isStart_of_leads (h : s.Intact) (hs : s.Shaped) (hab : s.Leads kind a b) :
    s.isStart b = false := by
  obtain ⟨c, k, r, hk, hr, -, -, rfl⟩ := hab
  obtain ⟨t, ht⟩ := Option.isSome_iff_exists.1 (live_socket h hk hr)
  obtain ⟨n, hn, ht⟩ := Option.bind_eq_some_iff.1 ht
  refine Bool.eq_false_iff.2 fun hstart => ?_
  obtain ⟨m, hm, hkind⟩ := isStart_iff.1 hstart
  obtain rfl := Option.some.inj (hn.symm.trans hm)
  have hnone : n.frame.sockets r.kind = [] := by
    refine List.map_eq_nil_iff.1 (((hs _ n hn).sockets r.kind).trans ?_)
    rw [hkind]
    cases r.kind <;> rfl
  have hin := List.mem_of_getElem? ht
  rw [hnone] at hin
  cases hin

/-- To every node of a flow but the first one a flow edge leads. -/
theorem led_flowFrom (h : s.Intact) (room : Nat) (path : List NodeId) (hid : (s.node? id).isSome) :
    ∃ rest, Entry.flowNodes (s.flowFrom (room + 1) path id) = id :: rest ∧
      ∀ m ∈ rest, ∃ a, s.Leads .flow a m := by
  induction room generalizing path id with
  | zero =>
    obtain ⟨n, hn⟩ := Option.isSome_iff_exists.1 hid
    rw [s.flowFrom_of_node? 0 path hn, Entry.flowNodes_nodeFlow]
    exact ⟨_, rfl, forall_behind fun next _ m hm => by cases hm⟩
  | succ room ih =>
    obtain ⟨n, hn⟩ := Option.isSome_iff_exists.1 hid
    rw [s.flowFrom_of_node? (room + 1) path hn, Entry.flowNodes_nodeFlow]
    refine ⟨_, rfl, forall_behind fun next hnext m hm => ?_⟩
    have hlead := (mem_waysFrom h hn).1 hnext
    obtain ⟨rest, hrest, hled⟩ := ih (id :: path) (hlead.live h).2
    rw [hrest] at hm
    obtain rfl | hm := List.mem_cons.1 hm
    · exact ⟨id, hlead⟩
    · exact hled m hm

theorem filter_flow (h : s.Intact) (hs : s.Shaped) (hstart : s.isStart id = true) :
    (Entry.flowNodes (s.flowFrom s.nodes.size [] id)).filter s.isStart = [id] := by
  obtain ⟨n, hn, -⟩ := isStart_iff.1 hstart
  have hlive : ∀ x ∈ [id], (s.node? x).isSome := fun x hx => by
    rw [List.mem_singleton.1 hx, hn]
    rfl
  obtain ⟨room, hroom⟩ := Nat.exists_eq_add_of_le' (length_le_size (List.pairwise_singleton _ id) hlive)
  obtain ⟨rest, hrest, hled⟩ := led_flowFrom h room [] (hlive id (List.mem_singleton.2 rfl))
  rw [hroom, List.length_singleton, hrest, List.filter_cons_of_pos hstart, List.filter_eq_nil_iff.2]
  intro m hm
  obtain ⟨a, ha⟩ := hled m hm
  rw [not_isStart_of_leads h hs ha]
  exact Bool.false_ne_true

/-- The start nodes are saved in their order. -/
theorem filter_savedNodes (h : s.Intact) (hs : s.Shaped) : s.savedNodes.filter s.isStart = s.startNodes := by
  have hflows (starts : List NodeId) (hstarts : ∀ id ∈ starts, s.isStart id = true) :
      (Entry.branchNodes (starts.map (s.flowFrom s.nodes.size []))).filter s.isStart = starts := by
    induction starts with
    | nil => rfl
    | cons id rest ih =>
      have hfirst := filter_flow h hs (hstarts id List.mem_cons_self)
      rw [List.map_cons, Entry.branchNodes, List.filter_append, hfirst,
        ih fun m hm => hstarts m (List.mem_cons_of_mem _ hm)]
      rfl
  have hinFlows := hflows s.startNodes fun id hid => isStart_iff.2 ((mem_startNodes h).1 hid)
  have hothers : s.additionalNodes.filter s.isStart = [] := by
    refine List.filter_eq_nil_iff.2 fun id hid hstart => ?_
    obtain ⟨n, hn, hkind⟩ := isStart_iff.1 hstart
    have hflow := (mem_flows h).2 ⟨id, n, hn, hkind, .refl⟩
    have hout := (List.mem_filter.1 hid).2
    rw [List.contains_iff_mem.2 hflow] at hout
    cases hout
  have hrecorded : s.recordedNodes.filter s.isStart = s.startNodes := by
    show (Entry.branchNodes s.flows ++ s.additionalNodes).filter s.isStart = s.startNodes
    rw [List.filter_append, hothers, List.append_nil]
    exact hinFlows
  rw [savedNodes, filter_eachOnce, hrecorded, eachOnce_of_nodup (nodup_startNodes h)]

end Starts
end Session
end FlowGraph
