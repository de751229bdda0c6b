import FlowGraph.Proofs.Session.Undone

/-! # Candidates in order

Whenever the pointer moves, the candidates of a drag are measured anew and put in order, and the first of them
becomes the snap target if it is in reach. No candidate is lost by this, and a pointer that is said to move to
where it already is changes nothing.
-/

namespace FlowGraph
set_option autoImplicit false

/-! ## The order of candidates -/

namespace Candidate

/-- The candidate with its distance to the pointer. -/
def measured (pointer : Point) (c : Candidate) : Candidate := { c with distance := c.anchor.distance pointer }

/-- The candidates of `cs` from the nearest to the farthest; those at the same distance stand as they do in
`cs`. -/
structure Ranked (cs ds : List Candidate) : Prop where
  perm : ds.Perm cs
  ascending : ds.Pairwise fun a b => a.distance.rank ≤ b.distance.rank
  ties : ∀ k : Int, ds.filter (·.distance.rank = k) = cs.filter (·.distance.rank = k)

/-- Whether the first candidate may stand before the second. -/
def precedes (a b : Candidate) : Bool := a.distance.rank ≤ b.distance.rank

theorem precedes_trans (a b c : Candidate) (hab : a.precedes b) (hbc : b.precedes c) : a.precedes c := by
  simp only [precedes, decide_eq_true_eq] at *
  omega

theorem precedes_total (a b : Candidate) : (a.precedes b || b.precedes a) = true := by
  simp only [precedes, Bool.or_eq_true, decide_eq_true_eq]
  omega

theorem pairwise_precedes {cs : List Candidate} : (cs.Pairwise fun a b => a.precedes b = true) ↔
    cs.Pairwise fun a b => a.distance.rank ≤ b.distance.rank := by
  simp only [precedes, decide_eq_true_eq]

theorem ranked_mergeSort (cs : List Candidate) : Ranked cs (cs.mergeSort precedes) := by
  have hperm := List.mergeSort_perm cs precedes
  refine ⟨hperm, pairwise_precedes.1 (List.pairwise_mergeSort precedes_trans precedes_total cs), fun k => ?_⟩
  -- The candidates of one rank are in order among themselves, so that sorting keeps them as they stand.
  have hlevel : (cs.filter (·.distance.rank = k)).Pairwise fun a b => a.precedes b = true := by
    refine List.pairwise_of_forall_mem_list fun a ha b hb => ?_
    simp only [List.mem_filter, decide_eq_true_eq] at ha hb
    simp only [precedes, decide_eq_true_eq]
    omega
  have hsub := (List.sublist_mergeSort precedes_trans precedes_total hlevel List.filter_sublist).filter
    (·.distance.rank = k)
  rw [List.filter_filter] at hsub
  simp only [Bool.and_self] at hsub
  exact (hsub.eq_of_length (hperm.filter _).length_eq.symm).symm

theorem rankBy_eq (pointer : Point) (cs : List Candidate) :
    rankBy pointer cs = (cs.map (measured pointer)).mergeSort precedes := rfl

theorem ranked_rankBy (pointer : Point) (cs : List Candidate) :
    Ranked (cs.map (measured pointer)) (rankBy pointer cs) := ranked_mergeSort _

/-- Candidates that have been ranked for a pointer are measured and in order already. -/
theorem rankBy_rankBy (pointer : Point) (cs : List Candidate) :
    rankBy pointer (rankBy pointer cs) = rankBy pointer cs := by
  have hranked := ranked_rankBy pointer cs
  have hmeasured : (rankBy pointer cs).map (measured pointer) = rankBy pointer cs := by
    refine (List.map_congr_left fun c hc => ?_).trans (List.map_id _)
    obtain ⟨b, -, rfl⟩ := List.mem_map.1 (hranked.perm.mem_iff.1 hc)
    rfl
  rw [rankBy_eq pointer (rankBy pointer cs), hmeasured]
  exact List.mergeSort_of_pairwise (pairwise_precedes.2 hranked.ascending)

end Candidate

namespace Session
variable {s t : Session}

/-! ## The snap target -/

/-- How near the pointer must come to a socket for a connector of this plug to snap to it. -/
def reach (s : Session) (p : PlugRef) : Float :=
  let scale := ((s.node? p.node).map (·.frame.scale)).getD 1.0
  s.settings.snapDistance * scale.value

/-- The socket of the first candidate, if that one is in reach. -/
def inReach (s : Session) (p : PlugRef) : List Candidate → Option SocketRef
  | [] => none
  | c :: _ => if c.distance.value ≤ s.reach p then some c.socket else none

theorem snapFor_eq (s : Session) (d : Drag) (cs : List Candidate) : s.snapFor d cs = s.inReach d.plug cs := by
  cases cs with
  | nil => rfl
  | cons c cs =>
    show (Option.filter (fun c => decide (c.distance.value ≤ s.reach d.plug)) (some c)).map _ = _
    by_cases h : c.distance.value ≤ s.reach d.plug <;> simp [inReach, h]

theorem inReach_congr (hreach : t.reach = s.reach) : t.inReach = s.inReach := by
  funext p cs
  cases cs with
  | nil => rfl
  | cons c cs => rw [inReach, inReach, hreach]

/-! ## Another snap target -/

theorem reach_withSocket (s : Session) (q : SocketRef) (g : Socket → Socket) :
    (s.withSocket q g).reach = s.reach := by
  have hscale (n : Node) : (n.frame.modifySocket q.kind q.index g).scale = n.frame.scale := by
    cases q.kind <;> rfl
  funext p
  rw [reach, withSocket, modifyFrame, node?_modifyNode, reach]
  split
  · simp only [Option.map_map, Function.comp_def, hscale]
    rfl
  · rfl

/-- Another snap target changes only the old one and the new one. -/
theorem retarget_induction {P : Session → Prop} {old new : Option SocketRef} (h : P s)
    (hchange : ∀ t q g, old = some q ∨ new = some q → P t → P (t.withSocket q g)) :
    P (s.retarget old new) := by
  have hreset : P (s.resetRadius? old) := by
    cases old with
    | none => exact h
    | some q => exact hchange s q _ (Or.inl rfl) h
  unfold retarget
  split
  · exact h
  · cases new with
    | none => exact hreset
    | some q => exact hchange _ q _ (Or.inr rfl) hreset

theorem socket?_retarget {old new : Option SocketRef} {r : SocketRef} (hold : old ≠ some r) (hnew : new ≠ some r) :
    (s.retarget old new).socket? r = s.socket? r := by
  refine retarget_induction (P := fun t => t.socket? r = s.socket? r) rfl fun t q g hq ht => ?_
  have hne : q ≠ r := by
    rintro rfl
    exact hq.elim hold hnew
  rw [socket?_withSocket, if_neg hne, ht]

theorem reach_retarget (s : Session) (old new : Option SocketRef) : (s.retarget old new).reach = s.reach :=
  retarget_induction (P := fun t => t.reach = s.reach) rfl fun t q g _ ht => (t.reach_withSocket q g).trans ht

/-- The snap target that there is already makes no difference. -/
theorem retarget_self (s : Session) (r : Option SocketRef) : s.retarget r r = s := if_pos rfl

/-! ## One move of the pointer -/

theorem retarget_setConnectors (s : Session) (old new : Option SocketRef)
    (connectors : OrderedMap ConnectorId Connector) (calls : List DrawCall) :
    { s with connectors := connectors, calls := calls }.retarget old new =
      { s.retarget old new with connectors := connectors, calls := calls } := by
  unfold retarget
  split
  · rfl
  · cases old <;> cases new <;> rfl

/-- What a move of the pointer changes: the radii of two sockets, the end of the connector, the candidates
and the snap target. -/
theorem updateDrag_ranked {d : Drag} (hd : s.drag = some d) (pointer : Point) :
    let candidates := Candidate.rankBy pointer d.candidates
    let snap := s.inReach d.plug candidates
    s.updateDrag pointer = { s.retarget d.snap snap with
      connectors := s.connectors.modify d.connector fun k => { k with stop := pointer }
      drag := some { d with candidates := candidates, snap := snap }
      calls := s.pathTo d.connector pointer ++ s.calls } := by
  dsimp only
  rw [updateDrag_eq hd pointer, snapFor_eq, retarget_setConnectors]

theorem pathTo_moved (c : ConnectorId) (pointer : Point)
    (h : t.connectors = s.connectors.modify c fun k => { k with stop := pointer }) :
    t.pathTo c pointer = s.pathTo c pointer := by
  rw [pathTo, connector?, h, OrderedMap.get?_modify, if_pos rfl, pathTo, connector?]
  cases s.connectors.get? c <;> rfl

/-- A pointer that moves to where it is has its path drawn again, and nothing else comes of it. -/
theorem updateDrag_updateDrag {d : Drag} (hd : s.drag = some d) (pointer : Point) :
    (s.updateDrag pointer).updateDrag pointer = { s.updateDrag pointer with
      calls := s.pathTo d.connector pointer ++ (s.updateDrag pointer).calls } := by
  have hfirst := updateDrag_ranked hd pointer
  dsimp only at hfirst
  generalize s.updateDrag pointer = t at hfirst
  have hdrag : t.drag = some { d with
      candidates := Candidate.rankBy pointer d.candidates
      snap := s.inReach d.plug (Candidate.rankBy pointer d.candidates) } := by rw [hfirst]
  have hconnectors : t.connectors = s.connectors.modify d.connector fun k => { k with stop := pointer } := by
    rw [hfirst]
  have hreach : t.reach = s.reach := by
    rw [hfirst]
    exact s.reach_retarget _ _
  have htwice : t.connectors.modify d.connector (fun k => { k with stop := pointer }) = t.connectors := by
    rw [hconnectors, OrderedMap.modify_modify]
    rfl
  have hsecond := updateDrag_ranked hdrag pointer
  dsimp only at hsecond
  rw [Candidate.rankBy_rankBy, inReach_congr hreach, retarget_self, pathTo_moved d.connector pointer hconnectors,
    htwice, ← hdrag] at hsecond
  exact hsecond

/-- A move of the pointer measures the candidates anew and puts the nearest first; none is lost, and none
overtakes another at the same distance. The first one is the snap target if it is in reach. Only the old and
the new snap target may change, and the same move made twice is the same as made once, but that the path is
drawn again. -/
theorem updateDrag_ranks {d : Drag} (hd : s.drag = some d) (pointer : Point) :
    let t := s.updateDrag pointer
    ∃ e, t.drag = some e ∧ e.connector = d.connector ∧ e.plug = d.plug ∧
      Candidate.Ranked (d.candidates.map (·.measured pointer)) e.candidates ∧
      e.snap = s.inReach d.plug e.candidates ∧
      (∀ r, d.snap ≠ some r → e.snap ≠ some r → t.socket? r = s.socket? r) ∧
      t.calls = s.pathTo d.connector pointer ++ s.calls ∧
      t.updateDrag pointer = { t with calls := s.pathTo d.connector pointer ++ t.calls } := by
  have hmove := updateDrag_ranked hd pointer
  dsimp only at hmove ⊢
  refine ⟨{ d with
    candidates := Candidate.rankBy pointer d.candidates
    snap := s.inReach d.plug (Candidate.rankBy pointer d.candidates) }, ?_, rfl, rfl, ?_, rfl, ?_, ?_, ?_⟩
  · rw [hmove]
  · exact Candidate.ranked_rankBy pointer d.candidates
  · intro r hold hnew
    rw [hmove]
    exact socket?_retarget hold hnew
  · rw [hmove]
  · exact updateDrag_updateDrag hd pointer

/-- The plug may be connected to the inputs of two sums, which stand at one place. -/
theorem updateDrag_ranks_ties : ∃ s d, s = (new .standard).applyAll
    [.spawn .isMobile .origin 1.0, .spawn .generalAddition ⟨300.0, 0.0⟩ 1.0,
      .spawn .generalAddition ⟨300.0, 0.0⟩ 1.0, .beginDrag ⟨⟨0⟩, .data, 0⟩ .origin] ∧
    s.drag = some d ∧ d.candidates.map (·.socket) = [⟨⟨1⟩, .data, 0⟩, ⟨⟨1⟩, .data, 1⟩, ⟨⟨2⟩, .data, 0⟩,
      ⟨⟨2⟩, .data, 1⟩] ∧
    ∃ e, (s.updateDrag ⟨300.0, 75.0⟩).drag = some e ∧
      Candidate.Ranked (d.candidates.map (·.measured ⟨300.0, 75.0⟩)) e.candidates ∧
      e.snap = s.inReach d.plug e.candidates := by
  refine ⟨_, _, rfl, rfl, rfl, ?_⟩
  obtain ⟨e, hdrag, -, -, hranked, hsnap, -⟩ := updateDrag_ranks (s := (new .standard).applyAll
    [.spawn .isMobile .origin 1.0, .spawn .generalAddition ⟨300.0, 0.0⟩ 1.0,
      .spawn .generalAddition ⟨300.0, 0.0⟩ 1.0, .beginDrag ⟨⟨0⟩, .data, 0⟩ .origin]) rfl ⟨300.0, 75.0⟩
  exact ⟨e, hdrag, hranked, hsnap⟩

end Session
end FlowGraph
