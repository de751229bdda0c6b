import FlowGraph.Proofs.Node.Layout
import FlowGraph.Proofs.Session.Wiring

/-! # Sound wirings

In a sound wiring each list of a port or of a node holds exactly the connectors that have that end,
each once, and each connector is either an edge or one of the loose ones. Opening, linking, loosening
and dropping a connector keep a wiring sound, and so does exchanging a node on which nothing hangs.
-/

namespace FlowGraph
set_option autoImplicit false

/-! ## Lists of connectors -/

/-- The list holds exactly the connectors with a property, each once. -/
def Lists (l : List ConnectorId) (P : ConnectorId → Prop) : Prop := l.Nodup ∧ ∀ c, c ∈ l ↔ P c

namespace Lists
variable {l : List ConnectorId} {P Q : ConnectorId → Prop} {c : ConnectorId}

theorem congr (h : Lists l P) (hQ : ∀ d, Q d ↔ P d) : Lists l Q :=
  ⟨h.1, fun d => (h.2 d).trans (hQ d).symm⟩

theorem nil (hP : ∀ d, ¬P d) : Lists [] P := by
  refine ⟨List.nodup_nil, fun d => ?_⟩
  simp only [List.not_mem_nil, hP]

theorem eq_nil (h : Lists l P) (hP : ∀ d, ¬P d) : l = [] := by
  refine List.eq_nil_iff_forall_not_mem.2 fun d hd => ?_
  exact hP d ((h.2 d).1 hd)

theorem append (h : Lists l P) (hc : ¬P c) (hQ : ∀ d, Q d ↔ P d ∨ d = c) : Lists (l ++ [c]) Q := by
  have hnot : c ∉ l := fun hm => hc ((h.2 c).1 hm)
  refine ⟨List.nodup_append.2 ⟨h.1, by simp, ?_⟩, fun d => ?_⟩
  · intro a ha b hb
    rw [List.mem_singleton.1 hb]
    intro e
    exact hnot (e ▸ ha)
  · rw [List.mem_append, List.mem_singleton, h.2 d, hQ d]

theorem addOnce (h : Lists l P) (hQ : ∀ d, Q d ↔ P d ∨ d = c) : Lists (addOnce c l) Q := by
  unfold FlowGraph.addOnce
  split
  · rename_i hm
    have hc : P c := (h.2 c).1 (List.contains_iff_mem.1 hm)
    refine h.congr fun d => (hQ d).trans ⟨?_, Or.inl⟩
    rintro (hd | rfl)
    · exact hd
    · exact hc
  · rename_i hm
    have hc : ¬P c := fun hp => hm (List.contains_iff_mem.2 ((h.2 c).2 hp))
    exact h.append hc hQ

theorem without (h : Lists l P) (hQ : ∀ d, Q d ↔ P d ∧ d ≠ c) : Lists (without c l) Q := by
  refine ⟨h.1.filter _, fun d => ?_⟩
  rw [FlowGraph.without, List.mem_filter, decide_eq_true_eq, h.2 d, hQ d]

end Lists

/-! ## Soundness -/

def Edge.Touches (e : Edge) (id : NodeId) : Prop :=
  e.plug.node = id ∨ ∃ r, e.connectedTo = some r ∧ r.node = id

def Edge.Leaves (e : Edge) (p : PlugRef) : Prop := e.plug = p ∧ e.connectedTo.isSome

namespace Wiring

/-- The connector is there, and its ends have a property. -/
def Joined (w : Wiring) (P : Edge → Prop) (c : ConnectorId) : Prop := ∃ e, w.edge c = some e ∧ P e

/-- Every connector is a loose one or an edge that the rules of connection allow. -/
structure Legal (w : Wiring) : Prop where
  plug : ∀ c e, w.edge c = some e → (w.departures e.plug).isSome
  socket : ∀ c e r, w.edge c = some e → e.connectedTo = some r → (w.arrivals r).isSome
  linked : ∀ c e r, w.edge c = some e → e.connectedTo = some r →
    e.state = .connected ∧ e.plug.kind = r.kind ∧ e.plug.node ≠ r.node
  idle : ∀ c e, w.edge c = some e → e.connectedTo = none → e.state = .dragging
  single : ∀ c d e f r, w.edge c = some e → w.edge d = some f →
    e.connectedTo = some r → f.connectedTo = some r → r.kind = .data ∨ e.plug = f.plug → c = d

/-- Every list holds the connectors with that end, and `loose` are those that are on no socket. -/
structure Sound (w : Wiring) (loose : ConnectorId → Prop) : Prop extends w.Legal where
  arrivals : ∀ r l, w.arrivals r = some l → Lists l (w.Joined (·.connectedTo = some r))
  departures : ∀ p l, w.departures p = some l → Lists l (w.Joined (·.Leaves p))
  followers : ∀ id l, w.followers id = some l → Lists l (w.Joined (·.Touches id))
  loose : ∀ c, loose c ↔ w.Joined (·.connectedTo = none) c

/-- Nothing forbids an edge from the plug to the socket. -/
structure Free (w : Wiring) (p : PlugRef) (r : SocketRef) : Prop where
  socket : (w.arrivals r).isSome
  kind : p.kind = r.kind
  node : p.node ≠ r.node
  alone : ∀ d f, w.edge d = some f → f.connectedTo = some r → r.kind ≠ .data ∧ p ≠ f.plug

section Lookups
variable (w : Wiring) {c d : ConnectorId} {e : Edge} {P : Edge → Prop}

theorem joined_atEdge_some : (w.atEdge c (some e)).Joined P d ↔ if d = c then P e else w.Joined P d := by
  unfold Joined atEdge
  by_cases h : d = c <;> simp [h]

theorem joined_atEdge_none : (w.atEdge c none).Joined P d ↔ w.Joined P d ∧ d ≠ c := by
  unfold Joined atEdge
  by_cases h : d = c <;> simp [h]

theorem joined_iff (h : w.edge c = some e) : w.Joined P c ↔ P e := by
  unfold Joined
  simp [h]

end Lookups

/-! ## Changes of one connector -/

section Points
variable {κ : Type} [DecidableEq κ] {look : κ → Option (List ConnectorId)} {k q : κ}
  {g : List ConnectorId → List ConnectorId} {l : List ConnectorId}

theorem point_cases (h : (if q = k then (look k).map g else look q) = some l) :
    (q = k ∧ ∃ l', look k = some l' ∧ l = g l') ∨ q ≠ k ∧ look q = some l := by
  split at h
  · rename_i hq
    obtain ⟨l', hl', rfl⟩ := Option.map_eq_some_iff.1 h
    exact Or.inl ⟨hq, l', hl', rfl⟩
  · rename_i hq
    exact Or.inr ⟨hq, h⟩

theorem point_isSome : (if q = k then (look k).map g else look q).isSome = (look q).isSome := by
  split
  · rename_i hq
    rw [Option.isSome_map, hq]
  · rfl

end Points

section Followers
variable (w : Wiring) (c : ConnectorId) (p : PlugRef) (r : SocketRef) (id : NodeId)

theorem isSome_followers_opened : ((w.opened c p).followers id).isSome = (w.followers id).isSome :=
  point_isSome

theorem isSome_followers_linkedTo : ((w.linkedTo c p r).followers id).isSome = (w.followers id).isSome :=
  point_isSome.trans point_isSome

theorem isSome_followers_loosened : ((w.loosened c p r).followers id).isSome = (w.followers id).isSome :=
  point_isSome

theorem isSome_followers_dropped : ((w.dropped c p).followers id).isSome = (w.followers id).isSome :=
  point_isSome

end Followers

namespace Legal
variable {w v : Wiring} {c : ConnectorId} {p : PlugRef} {r : SocketRef}

/-- Connectors may go, as long as the ports of the others stay. -/
theorem mono (h : w.Legal) (hedge : ∀ d e, v.edge d = some e → w.edge d = some e)
    (hplug : ∀ d e, v.edge d = some e → (v.departures e.plug).isSome)
    (hsocket : ∀ d e r, v.edge d = some e → e.connectedTo = some r → (v.arrivals r).isSome) :
    v.Legal where
  plug := hplug
  socket := hsocket
  linked d e r he := h.linked d e r (hedge d e he)
  idle d e he := h.idle d e (hedge d e he)
  single d d' e e' r he he' := h.single d d' e e' r (hedge d e he) (hedge d' e' he')

/-- A connector may become loose. -/
theorem set_loose (h : w.Legal)
    (hedge : ∀ d, v.edge d = if d = c then some ⟨p, none, .dragging⟩ else w.edge d)
    (hp : (w.departures p).isSome) (hplug : ∀ q, (w.departures q).isSome → (v.departures q).isSome)
    (hsocket : ∀ q, (w.arrivals q).isSome → (v.arrivals q).isSome) : v.Legal := by
  have hcases (d : ConnectorId) (e : Edge) (he : v.edge d = some e) :
      e = ⟨p, none, .dragging⟩ ∨ w.edge d = some e := by
    rw [hedge] at he
    split at he
    · exact Or.inl (Option.some.inj he).symm
    · exact Or.inr he
  have hold (d : ConnectorId) (e : Edge) (r : SocketRef) (he : v.edge d = some e)
      (hr : e.connectedTo = some r) : w.edge d = some e := by
    obtain rfl | he := hcases d e he
    · cases hr
    · exact he
  refine ⟨fun d e he => ?_, fun d e r he hr => ?_, fun d e r he hr => ?_, fun d e he hn => ?_, ?_⟩
  · obtain rfl | he := hcases d e he
    · exact hplug p hp
    · exact hplug _ (h.plug d e he)
  · exact hsocket r (h.socket d e r (hold d e r he hr) hr)
  · exact h.linked d e r (hold d e r he hr) hr
  · obtain rfl | he := hcases d e he
    · rfl
    · exact h.idle d e he hn
  · intro d d' e e' r he he' hr hr'
    exact h.single d d' e e' r (hold d e r he hr) (hold d' e' r he' hr') hr hr'

/-- A connector may reach a socket that is free for its plug. -/
theorem set_linked (h : w.Legal)
    (hedge : ∀ d, v.edge d = if d = c then some ⟨p, some r, .connected⟩ else w.edge d)
    (hp : (w.departures p).isSome) (hfree : w.Free p r)
    (hplug : ∀ q, (w.departures q).isSome → (v.departures q).isSome)
    (hsocket : ∀ q, (w.arrivals q).isSome → (v.arrivals q).isSome) : v.Legal := by
  have hcases (d : ConnectorId) (e : Edge) (he : v.edge d = some e) :
      d = c ∧ e = ⟨p, some r, .connected⟩ ∨ d ≠ c ∧ w.edge d = some e := by
    rw [hedge] at he
    split at he
    · rename_i hd
      exact Or.inl ⟨hd, (Option.some.inj he).symm⟩
    · rename_i hd
      exact Or.inr ⟨hd, he⟩
  refine ⟨fun d e he => ?_, fun d e q he hq => ?_, fun d e q he hq => ?_, fun d e he hn => ?_, ?_⟩
  · obtain ⟨-, rfl⟩ | ⟨-, he⟩ := hcases d e he
    · exact hplug p hp
    · exact hplug _ (h.plug d e he)
  · obtain ⟨-, rfl⟩ | ⟨-, he⟩ := hcases d e he
    · cases hq
      exact hsocket r hfree.socket
    · exact hsocket q (h.socket d e q he hq)
  · obtain ⟨-, rfl⟩ | ⟨-, he⟩ := hcases d e he
    · cases hq
      exact ⟨rfl, hfree.kind, hfree.node⟩
    · exact h.linked d e q he hq
  · obtain ⟨-, rfl⟩ | ⟨-, he⟩ := hcases d e he
    · cases hn
    · exact h.idle d e he hn
  · intro d d' e e' q he he' hq hq' hk
    obtain ⟨rfl, rfl⟩ | ⟨hd, he⟩ := hcases d e he
    · obtain ⟨rfl, rfl⟩ | ⟨-, he'⟩ := hcases d' e' he'
      · rfl
      · cases hq
        obtain ⟨hdata, hne⟩ := hfree.alone d' e' he' hq'
        exact (hk.elim hdata hne).elim
    · obtain ⟨rfl, rfl⟩ | ⟨-, he'⟩ := hcases d' e' he'
      · cases hq'
        obtain ⟨hdata, hne⟩ := hfree.alone d e he hq
        exact (hk.elim hdata fun hp => hne hp.symm).elim
      · exact h.single d d' e e' q he he' hq hq' hk

end Legal

/-- A new loose connector is in nobody's way. -/
theorem Free.opened {w : Wiring} {c : ConnectorId} {p q : PlugRef} {r : SocketRef} (h : w.Free p r) :
    (w.opened c q).Free p r := by
  refine ⟨h.socket, h.kind, h.node, fun d f hf hr => ?_⟩
  change (if d = c then some _ else w.edge d) = some f at hf
  split at hf
  · cases hf
    cases hr
  · exact h.alone d f hf hr

namespace Sound
variable {w : Wiring} {loose : ConnectorId → Prop} {c : ConnectorId} {p : PlugRef} {r : SocketRef}

theorem of_loose_iff {loose' : ConnectorId → Prop} (h : w.Sound loose) (hl : ∀ d, loose' d ↔ loose d) :
    w.Sound loose' :=
  { h with loose := fun d => (hl d).trans (h.loose d) }

theorem not_joined (hc : w.edge c = none) (P : Edge → Prop) : ¬w.Joined P c := by
  rintro ⟨e, he, -⟩
  rw [hc] at he
  cases he

theorem opened (h : w.Sound loose) (hc : w.edge c = none) (hp : (w.departures p).isSome) :
    (w.opened c p).Sound fun d => loose d ∨ d = c := by
  have hjoined (P : Edge → Prop) (d : ConnectorId) : (w.opened c p).Joined P d ↔
      w.Joined P d ∨ d = c ∧ P ⟨p, none, .dragging⟩ := by
    refine (joined_atEdge_some _).trans ?_
    by_cases hd : d = c
    · subst hd
      simp [not_joined hc]
    · simp only [hd, if_false, false_and, or_false]
      rfl
  refine ⟨h.set_loose (fun d => rfl) hp (fun _ hq => hq) fun _ hq => hq, ?_, ?_, ?_, ?_⟩
  · intro r l hl
    refine (h.arrivals r l hl).congr fun d => ?_
    simp [hjoined]
  · intro q l hl
    refine (h.departures q l hl).congr fun d => ?_
    simp [hjoined, Edge.Leaves]
  · intro id l hl
    obtain ⟨rfl, l', hl', rfl⟩ | ⟨hid, hl⟩ := point_cases hl
    · refine (h.followers p.node l' hl').append (not_joined hc _) fun d => ?_
      simp [hjoined, Edge.Touches]
    · refine (h.followers id l hl).congr fun d => ?_
      simp [hjoined, Edge.Touches, Ne.symm hid]
  · intro d
    simp [hjoined, h.loose]

theorem linkedTo (h : w.Sound loose) (hc : w.edge c = some ⟨p, none, .dragging⟩) (hfree : w.Free p r) :
    (w.linkedTo c p r).Sound fun d => loose d ∧ d ≠ c := by
  -- What held of the loose end still holds of the edge, and the edge adds its socket.
  have hjoined (P : Edge → Prop) (hP : P ⟨p, none, .dragging⟩ → P ⟨p, some r, .connected⟩)
      (d : ConnectorId) : (w.linkedTo c p r).Joined P d ↔
        w.Joined P d ∨ d = c ∧ P ⟨p, some r, .connected⟩ := by
    refine (joined_atEdge_some _).trans ?_
    by_cases hd : d = c
    · subst hd
      rw [if_pos rfl, joined_iff w hc]
      exact ⟨fun hn => Or.inr ⟨rfl, hn⟩, fun ho => ho.elim hP (·.2)⟩
    · simp only [hd, if_false, false_and, or_false]
      rfl
  have harrive (q : SocketRef) : ¬w.Joined (·.connectedTo = some q) c := by
    simp [joined_iff w hc]
  have hleave (q : PlugRef) : ¬w.Joined (·.Leaves q) c := by
    simp [joined_iff w hc, Edge.Leaves]
  refine ⟨h.set_linked (fun d => rfl) (h.plug c _ hc) hfree (fun q => point_isSome.trans)
    fun q => point_isSome.trans, ?_, ?_, ?_, ?_⟩
  · intro q l hl
    obtain ⟨rfl, l', hl', rfl⟩ | ⟨hq, hl⟩ := point_cases hl
    · refine (h.arrivals q l' hl').append (harrive q) fun d => ?_
      simp [hjoined]
    · refine (h.arrivals q l hl).congr fun d => ?_
      simp [hjoined, Ne.symm hq]
  · intro q l hl
    obtain ⟨rfl, l', hl', rfl⟩ | ⟨hq, hl⟩ := point_cases hl
    · refine (h.departures q l' hl').append (hleave q) fun d => ?_
      simp [hjoined, Edge.Leaves]
    · refine (h.departures q l hl).congr fun d => ?_
      simp [hjoined, Edge.Leaves, Ne.symm hq]
  · intro id l hl
    have htouch (d : ConnectorId) : (w.linkedTo c p r).Joined (·.Touches id) d ↔
        w.Joined (·.Touches id) d ∨ d = c ∧ (p.node = id ∨ r.node = id) := by
      rw [hjoined]
      · simp [Edge.Touches]
      · simp only [Edge.Touches]
        rintro (hp | ⟨q, hq, -⟩)
        · exact Or.inl hp
        · cases hq
    obtain ⟨rfl, l', hl', rfl⟩ | ⟨hid, hl⟩ := point_cases hl
    · obtain ⟨hr, -⟩ | ⟨-, hl'⟩ := point_cases hl'
      · exact absurd hr hfree.node
      · exact (h.followers _ l' hl').addOnce fun d => by simp [htouch]
    · obtain ⟨rfl, l', hl', rfl⟩ | ⟨hr, hl⟩ := point_cases hl
      · exact (h.followers _ l' hl').addOnce fun d => by simp [htouch]
      · exact (h.followers id l hl).congr fun d => by simp [htouch, Ne.symm hid, Ne.symm hr]
  · intro d
    refine Iff.trans ?_ (joined_atEdge_some _).symm
    by_cases hd : d = c
    · simp [hd]
    · simp only [hd, ne_eq, not_false_eq_true, and_true, if_false]
      exact h.loose d

theorem loosened (h : w.Sound loose) (hc : w.edge c = some ⟨p, some r, .connected⟩) :
    (w.loosened c p r).Sound fun d => loose d ∨ d = c := by
  have hnode : p.node ≠ r.node := (h.linked c _ r hc rfl).2.2
  have hjoined (P : Edge → Prop) (d : ConnectorId) : (w.loosened c p r).Joined P d ↔
      if d = c then P ⟨p, none, .dragging⟩ else w.Joined P d := joined_atEdge_some _
  have hstay (P : Edge → Prop) (hP : P ⟨p, some r, .connected⟩ ↔ P ⟨p, none, .dragging⟩)
      (d : ConnectorId) : (w.loosened c p r).Joined P d ↔ w.Joined P d := by
    rw [hjoined]
    split
    · rename_i hd
      rw [hd, joined_iff w hc, hP]
    · rfl
  have hgone (P : Edge → Prop) (hP : ¬P ⟨p, none, .dragging⟩) (d : ConnectorId) :
      (w.loosened c p r).Joined P d ↔ w.Joined P d ∧ d ≠ c := by
    rw [hjoined]
    by_cases hd : d = c <;> simp [hd, hP]
  refine ⟨h.set_loose (fun d => rfl) (h.plug c _ hc) (fun q => point_isSome.trans)
    fun q => point_isSome.trans, ?_, ?_, ?_, ?_⟩
  · intro q l hl
    obtain ⟨rfl, l', hl', rfl⟩ | ⟨hq, hl⟩ := point_cases hl
    · exact (h.arrivals q l' hl').without (hgone _ (by simp))
    · exact (h.arrivals q l hl).congr (hstay _ (by simp [Ne.symm hq]))
  · intro q l hl
    obtain ⟨rfl, l', hl', rfl⟩ | ⟨hq, hl⟩ := point_cases hl
    · exact (h.departures q l' hl').without (hgone _ (by simp [Edge.Leaves]))
    · exact (h.departures q l hl).congr (hstay _ (by simp [Edge.Leaves, Ne.symm hq]))
  · intro id l hl
    obtain ⟨rfl, l', hl', rfl⟩ | ⟨hid, hl⟩ := point_cases hl
    · exact (h.followers _ l' hl').without (hgone _ (by simp [Edge.Touches, hnode]))
    · exact (h.followers id l hl).congr (hstay _ (by simp [Edge.Touches, Ne.symm hid]))
  · intro d
    rw [hjoined, h.loose]
    by_cases hd : d = c <;> simp [hd]

theorem dropped (h : w.Sound loose) (hc : w.edge c = some ⟨p, none, .dragging⟩) :
    (w.dropped c p).Sound fun d => loose d ∧ d ≠ c := by
  have hgone (P : Edge → Prop) (d : ConnectorId) :
      (w.dropped c p).Joined P d ↔ w.Joined P d ∧ d ≠ c := joined_atEdge_none _
  have hstay (P : Edge → Prop) (hP : ¬P ⟨p, none, .dragging⟩) (d : ConnectorId) :
      (w.dropped c p).Joined P d ↔ w.Joined P d := by
    rw [hgone]
    refine ⟨And.left, fun hd => ⟨hd, ?_⟩⟩
    rintro rfl
    exact hP ((joined_iff w hc).1 hd)
  have hedge (d : ConnectorId) (e : Edge) (he : (w.dropped c p).edge d = some e) :
      w.edge d = some e := by
    change (if d = c then none else w.edge d) = some e at he
    split at he
    · cases he
    · exact he
  refine ⟨h.mono hedge (fun d e he => point_isSome.trans (h.plug d e (hedge d e he)))
    fun d e q he hq => h.socket d e q (hedge d e he) hq, ?_, ?_, ?_, ?_⟩
  · intro q l hl
    exact (h.arrivals q l hl).congr (hstay _ (by simp))
  · intro q l hl
    obtain ⟨rfl, l', hl', rfl⟩ | ⟨hq, hl⟩ := point_cases hl
    · exact (h.departures q l' hl').without (hgone _)
    · exact (h.departures q l hl).congr (hstay _ (by simp [Edge.Leaves]))
  · intro id l hl
    obtain ⟨rfl, l', hl', rfl⟩ | ⟨hid, hl⟩ := point_cases hl
    · exact (h.followers _ l' hl').without (hgone _)
    · exact (h.followers id l hl).congr (hstay _ (by simp [Edge.Touches, Ne.symm hid]))
  · intro d
    rw [hgone, h.loose]

/-! ## Changes of one node -/

theorem untouched (h : w.Sound loose) {id : NodeId} (hid : w.followers id = some []) :
    ∀ d, ¬w.Joined (·.Touches id) d := by
  intro d hd
  have hm := ((h.followers id [] hid).2 d).2 hd
  exact List.not_mem_nil hm

theorem untouched_of_absent (h : w.Sound loose) {id : NodeId}
    (harrive : ∀ r : SocketRef, r.node = id → w.arrivals r = none)
    (hleave : ∀ p : PlugRef, p.node = id → w.departures p = none) :
    ∀ d, ¬w.Joined (·.Touches id) d := by
  rintro d ⟨e, he, hp | ⟨r, hr, hid⟩⟩
  · have hsome := h.plug d e he
    rw [hleave e.plug hp] at hsome
    cases hsome
  · have hsome := h.socket d e r he hr
    rw [harrive r hid] at hsome
    cases hsome

theorem placed (h : w.Sound loose) {id : NodeId} {node : Option Wires}
    (hid : ∀ d, ¬w.Joined (·.Touches id) d) (hnode : ∀ n, node = some n → n.Bare) :
    (w.placed id node).Sound loose := by
  have hplug (d : ConnectorId) (e : Edge) (he : w.edge d = some e) : e.plug.node ≠ id :=
    fun hp => hid d ⟨e, he, Or.inl hp⟩
  have hsocket (d : ConnectorId) (e : Edge) (r : SocketRef) (he : w.edge d = some e)
      (hr : e.connectedTo = some r) : r.node ≠ id := fun hn => hid d ⟨e, he, Or.inr ⟨r, hr, hn⟩⟩
  refine ⟨h.mono (fun d e he => he) (fun d e he => ?_) (fun d e r he hr => ?_), ?_, ?_, ?_, h.loose⟩
  · show (if e.plug.node = id then _ else w.departures e.plug).isSome
    rw [if_neg (hplug d e he)]
    exact h.plug d e he
  · show (if r.node = id then _ else w.arrivals r).isSome
    rw [if_neg (hsocket d e r he hr)]
    exact h.socket d e r he hr
  · intro r l hl
    change (if r.node = id then node.bind _ else w.arrivals r) = some l at hl
    split at hl
    · rename_i hr
      obtain ⟨n, hn, hl⟩ := Option.bind_eq_some_iff.1 hl
      rw [(hnode n hn).arrivals _ _ l hl]
      refine Lists.nil ?_
      rintro d ⟨e, he, ht⟩
      exact hsocket d e r he ht hr
    · exact h.arrivals r l hl
  · intro p l hl
    change (if p.node = id then node.bind _ else w.departures p) = some l at hl
    split at hl
    · rename_i hp
      obtain ⟨n, hn, hl⟩ := Option.bind_eq_some_iff.1 hl
      rw [(hnode n hn).departures _ _ l hl]
      refine Lists.nil ?_
      rintro d ⟨e, he, rfl, -⟩
      exact hplug d e he hp
    · exact h.departures p l hl
  · intro n l hl
    change (if n = id then node.map _ else w.followers n) = some l at hl
    split at hl
    · rename_i hn
      obtain ⟨v, hv, rfl⟩ := Option.map_eq_some_iff.1 hl
      rw [(hnode v hv).dependents]
      subst hn
      exact Lists.nil hid
    · exact h.followers n l hl

end Sound
end Wiring
end FlowGraph
