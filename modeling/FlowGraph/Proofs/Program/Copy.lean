import FlowGraph.Proofs.Program.Search

/-! # Copies of the saved part of a session

A session holds a copy of what is saved of another one if its nodes have the same ways out and the same
sources, under other identities. Both searches then do in the copy what they do in the original, provided
that they have room for it; how much more they have does not matter.
-/

namespace FlowGraph
set_option autoImplicit false

namespace Session

/-- The searches see no difference between two nodes but the identities of their neighbours. -/
structure Twins (s t : Session) (place : NodeId → NodeId) (n m : Node) : Prop where
  identifier : m.frame.identifier = n.frame.identifier
  forceBranch : m.frame.forceBranch = n.frame.forceBranch
  ways : t.waysFrom m = (s.waysFrom n).map (Option.map place)
  sources : t.dataSources m = (s.dataSources n).map place

/-- Every node that is saved of `s` has a twin in `t`, each its own. -/
structure Copies (s t : Session) (place : NodeId → NodeId) : Prop where
  apart : ∀ a b, s.FeedsFlow a → s.FeedsFlow b → place a = place b → a = b
  node : ∀ id n, s.FeedsFlow id → s.node? id = some n →
    ∃ m, t.node? (place id) = some m ∧ s.Twins t place n m

/-- No more than so many nodes are saved. -/
def SavesAtMost (s : Session) (bound : Nat) : Prop :=
  ∀ l : List NodeId, l.Nodup → (∀ x ∈ l, s.FeedsFlow x) → l.length ≤ bound

namespace Copies
variable {s t : Session} {place : NodeId → NodeId}

theorem refl (s : Session) : s.Copies s id where
  apart _ _ _ _ hsame := hsame
  node id n _ hn := by
    refine ⟨n, hn, rfl, rfl, ?_, ?_⟩
    · rw [Option.map_id, List.map_id]
    · rw [List.map_id]

theorem mem_map (h : s.Copies t place) {l : List NodeId} {id : NodeId}
    (hl : ∀ x ∈ l, s.FeedsFlow x) (hid : s.FeedsFlow id) : place id ∈ l.map place ↔ id ∈ l := by
  refine ⟨fun hin => ?_, List.mem_map_of_mem⟩
  obtain ⟨x, hx, hsame⟩ := List.mem_map.1 hin
  rw [← h.apart x id (hl x hx) hid hsame]
  exact hx

theorem contains_map (h : s.Copies t place) {l : List NodeId} {id : NodeId}
    (hl : ∀ x ∈ l, s.FeedsFlow x) (hid : s.FeedsFlow id) :
    (l.map place).contains (place id) = l.contains id := by
  rw [Bool.eq_iff_iff, List.contains_iff_mem, List.contains_iff_mem]
  exact h.mem_map hl hid

/-- A flow is followed in the copy as in the original. -/
theorem flowFrom (h : s.Copies t place) (hi : s.Intact) (hs : s.Shaped) {bound : Nat}
    (hbound : s.SavesAtMost bound)
    {room room' : Nat} {path : List NodeId} {id : NodeId} (hfeeds : ∀ x ∈ id :: path, s.FeedsFlow x)
    (hpath : (id :: path).Nodup) (hroom : bound ≤ room + path.length)
    (hroom' : bound ≤ room' + path.length) :
    t.flowFrom room' (path.map place) (place id) = Entry.mapFlow place (s.flowFrom room path id) := by
  induction room generalizing room' path id with
  | zero =>
    have hlength := hbound _ hpath hfeeds
    rw [List.length_cons] at hlength
    omega
  | succ room ih =>
    cases room' with
    | zero =>
      have hlength := hbound _ hpath hfeeds
      rw [List.length_cons] at hlength
      omega
    | succ room' =>
      have hid := hfeeds id List.mem_cons_self
      obtain ⟨n, hn⟩ := Option.isSome_iff_exists.1 (hid.live hi)
      obtain ⟨m, hm, htwin⟩ := h.node id n hid hn
      rw [t.flowFrom_of_node? room' _ hm, s.flowFrom_of_node? room path hn, Entry.mapFlow_nodeFlow,
        htwin.identifier, htwin.forceBranch, htwin.ways, List.map_map, List.map_map]
      refine congrArg _ (List.map_congr_left fun way hway => ?_)
      cases way with
      | none => rfl
      | some next =>
        have hnext := hid.flow hi hs ((mem_waysFrom hi hn).1 hway)
        have hcontains := h.contains_map hfeeds hnext
        show some (t.onward room' ((id :: path).map place) (place next)) =
          some (Entry.mapFlow place (s.onward room (id :: path) next))
        rw [onward, onward, hcontains]
        split
        · rfl
        · rename_i hnew
          have hnew : next ∉ id :: path := fun hin => hnew (List.contains_iff_mem.2 hin)
          refine congrArg some (ih (fun x hx => ?_) (List.nodup_cons.2 ⟨hnew, hpath⟩) ?_ ?_)
          · obtain rfl | hx := List.mem_cons.1 hx
            · exact hnext
            · exact hfeeds x hx
          · rw [List.length_cons]
            omega
          · rw [List.length_cons]
            omega

/-- Searches that are made one after the other do the same if each does. -/
theorem meetEach (hi : s.Intact) {bound room room' : Nat}
    (heach : ∀ met id, (∀ x ∈ met, s.FeedsFlow x) → met.Nodup → s.FeedsFlow id →
      s.nodes.size < room + met.length → bound < room' + met.length →
      t.meetSources room' (met.map place) (place id) = (s.meetSources room met id).map place)
    {sources seen : List NodeId} (hsources : ∀ x ∈ sources, s.FeedsFlow x)
    (hseen : ∀ x ∈ seen, s.FeedsFlow x) (honce : seen.Nodup) (hroom : s.nodes.size < room + seen.length)
    (hroom' : bound < room' + seen.length) :
    (sources.map place).foldl (t.meetSources room') (seen.map place) =
      (sources.foldl (s.meetSources room) seen).map place := by
  induction sources generalizing seen with
  | nil => rfl
  | cons a rest ih =>
    have ha := hsources a List.mem_cons_self
    have hmet := met_meetSources hi (fun x hx => (hseen x hx).live hi) honce (ha.live hi) hroom
    have hlonger := hmet.grows.length_le
    rw [List.map_cons, List.foldl_cons, List.foldl_cons, heach seen a hseen honce ha hroom hroom']
    refine ih (fun x hx => hsources x (List.mem_cons_of_mem _ hx)) (fun x hx => ?_) hmet.once
      (by omega) (by omega)
    exact hmet.feedsFlow hseen (fun y hy => List.mem_singleton.1 hy ▸ ha) x hx

/-- The sources of a node are met in the copy as in the original. -/
theorem meetSources (h : s.Copies t place) (hi : s.Intact) {bound : Nat}
    (hbound : s.SavesAtMost bound)
    {room room' : Nat} {met : List NodeId} {id : NodeId} (hmet : ∀ x ∈ met, s.FeedsFlow x)
    (honce : met.Nodup) (hid : s.FeedsFlow id) (hroom : s.nodes.size < room + met.length)
    (hroom' : bound < room' + met.length) :
    t.meetSources room' (met.map place) (place id) = (s.meetSources room met id).map place := by
  induction room generalizing room' met id with
  | zero =>
    have hlength := length_le_size honce fun x hx => (hmet x hx).live hi
    omega
  | succ room ih =>
    cases room' with
    | zero =>
      have hlength := hbound met honce hmet
      omega
    | succ room' =>
      obtain ⟨n, hn⟩ := Option.isSome_iff_exists.1 (hid.live hi)
      obtain ⟨m, hm, htwin⟩ := h.node id n hid hn
      unfold Session.meetSources
      rw [h.contains_map hmet hid, hm, hn]
      split
      · rfl
      · rename_i hnew
        have hnew : id ∉ met := fun hin => hnew (List.contains_iff_mem.2 hin)
        have hmore : (met ++ [id]).map place = met.map place ++ [place id] := List.map_append
        have hlength : (met ++ [id]).length = met.length + 1 := List.length_append
        dsimp only
        rw [htwin.sources, ← hmore]
        refine meetEach hi (fun _ _ hmet honce hid hroom hroom' => ih hmet honce hid hroom hroom')
          (fun x hx => ?_) (fun x hx => ?_) ?_ (by omega) (by omega)
        · exact hid.source ((mem_dataSources hi hn).1 hx)
        · obtain hx | hx := List.mem_append.1 hx
          · exact hmet x hx
          · rw [List.mem_singleton.1 hx]
            exact hid
        · exact List.concat_eq_append ▸ honce.concat hnew

/-! ## Whole searches -/

section Whole
variable {bound : Nat}

theorem flows (h : s.Copies t place) (hi : s.Intact) (hs : s.Shaped)
    (hbound : s.SavesAtMost bound)
    (hsize : bound ≤ s.nodes.size) (hsize' : bound ≤ t.nodes.size)
    (hstarts : t.startNodes = s.startNodes.map place) : t.flows = s.flows.map (Entry.mapFlow place) := by
  rw [Session.flows, Session.flows, hstarts, List.map_map, List.map_map]
  refine List.map_congr_left fun id hid => ?_
  have hfeeds : ∀ x ∈ [id], s.FeedsFlow x := List.forall_mem_singleton.2 (feedsFlow_of_mem_startNodes hi hid)
  exact h.flowFrom hi hs hbound hfeeds (List.pairwise_singleton _ id) hsize hsize'

theorem sourcesOf (h : s.Copies t place) (hi : s.Intact)
    (hbound : s.SavesAtMost bound)
    (hsize' : bound ≤ t.nodes.size) {ids : List NodeId} (hids : ∀ x ∈ ids, s.FeedsFlow x) :
    t.sourcesOf (ids.map place) = (s.sourcesOf ids).map place := by
  have hroots : ((ids.map place).filterMap t.node?).flatMap t.dataSources =
      ((ids.filterMap s.node?).flatMap s.dataSources).map place := by
    induction ids with
    | nil => rfl
    | cons id rest ih =>
      have hid := hids id List.mem_cons_self
      obtain ⟨n, hn⟩ := Option.isSome_iff_exists.1 (hid.live hi)
      obtain ⟨m, hm, htwin⟩ := h.node id n hid hn
      rw [List.map_cons, List.filterMap_cons_some hm, List.filterMap_cons_some hn, List.flatMap_cons,
        List.flatMap_cons, List.map_append, htwin.sources, ih fun x hx => hids x (List.mem_cons_of_mem _ hx)]
  have hfeeds : ∀ x ∈ (ids.filterMap s.node?).flatMap s.dataSources, s.FeedsFlow x := by
    intro x hx
    obtain ⟨n, hn, hx⟩ := List.mem_flatMap.1 hx
    obtain ⟨id, hid, hn⟩ := List.mem_filterMap.1 hn
    exact (hids id hid).source ((mem_dataSources hi hn).1 hx)
  rw [Session.sourcesOf, Session.sourcesOf, hroots]
  refine meetEach hi (fun _ _ hmet honce hid hroom hroom' => h.meetSources hi hbound hmet honce hid hroom
    hroom') hfeeds (fun x hx => by cases hx) List.nodup_nil ?_ ?_
  · rw [List.length_nil]
    omega
  · rw [List.length_nil]
    omega

theorem additionalNodes (h : s.Copies t place) (hi : s.Intact)
    (hbound : s.SavesAtMost bound)
    (hsize' : bound ≤ t.nodes.size) (hflows : t.flows = s.flows.map (Entry.mapFlow place)) :
    t.additionalNodes = s.additionalNodes.map place := by
  have hinFlows : Entry.branchNodes t.flows = (Entry.branchNodes s.flows).map place := by
    rw [hflows, ← Entry.mapFlows_eq_map, Entry.branchNodes_mapFlows]
  have hfeeds : ∀ x ∈ Entry.branchNodes s.flows, s.FeedsFlow x :=
    fun x hx => ⟨x, (mem_flows hi).1 hx, .refl⟩
  rw [Session.additionalNodes, Session.additionalNodes, hinFlows, h.sourcesOf hi hbound hsize' hfeeds,
    List.filter_map]
  refine congrArg _ (List.filter_congr fun x hx => ?_)
  obtain ⟨id, hid, hway⟩ := ((mem_sourcesOf hi s.live_flows).2 x).1 hx
  have hx : s.FeedsFlow x := ⟨id, (mem_flows hi).1 hid, hway.to_reflTransGen⟩
  rw [Function.comp_apply, h.contains_map hfeeds hx]

end Whole
end Copies

end Session
end FlowGraph
