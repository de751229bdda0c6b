import FlowGraph.Proofs.Session.Numbering
import FlowGraph.Proofs.Session.Previews

/-! # What feeds a sum

An input of a sum takes its type from the edge that reaches it, when that edge is made. Nothing gives it another
type while the edge is there, not even when the output that the edge comes from is retyped, and it forgets the
type when the edge goes. The output of the sum follows all its inputs at all times.
-/

namespace FlowGraph
set_option autoImplicit false

namespace Session

/-! ## One change -/

/-- Each edge of the second session was there in the first, and its input has kept its type. Or it is new: its
plug has the same type in both, and that is the type of its input if the input adapts. -/
def Adopts (s t : Session) : Prop :=
  ∀ c p r, t.Joins c p r → s.Joins c p r ∧ t.inputType? r = s.inputType? r ∨
    ¬s.Joins c p r ∧ ∃ type, s.outputType? p = some type ∧ t.outputType? p = some type ∧
      (t.adaptive r = true → t.inputType? r = some type)

section Step
variable {s t u : Session} {c : ConnectorId} {p : PlugRef} {r : SocketRef}

theorem Thins.adopts (h : s.Thins t) : s.Adopts t := fun c p r hc => Or.inl ⟨h.edge c p r hc, h.input c p r hc⟩

theorem Adopts.of_same (h : u.Adopts t) (hjoins : ∀ c p r, u.Joins c p r ↔ s.Joins c p r)
    (htyping : ∀ id, u.typing? id = s.typing? id) : s.Adopts t := by
  intro c p r hc
  rw [← hjoins c p r, ← inputType?_congr (htyping r.node), ← outputType?_congr (htyping p.node)]
  exact h c p r hc

theorem Fastens.adopts (h : s.Fastens c p r) (hs : s.Shaped) (hi : (s.link c r).Intact) :
    s.Adopts (s.link c r) := by
  obtain ⟨a, b, ha, hb, -⟩ := (accepts_iff hs).1 h.accepts
  intro d q x hj
  obtain ⟨rfl, rfl, rfl⟩ | hold := joins_link h.loose hj
  · have hout := (outputType?_congr (h.typing (Or.inl h.apart))).trans ha
    refine Or.inr ⟨h.not_joins _ _, a, ha, hout, fun hadapts => ?_⟩
    rw [adaptive_congr ((s.steady_link _ _).kinds _)] at hadapts
    rw [h.inputType? ha, if_pos ⟨rfl, hadapts⟩, hb]
    rfl
  · refine Or.inl ⟨hold, (h.inputType? ha x).trans (if_neg ?_)⟩
    rintro ⟨hsame, hadapts⟩
    obtain hne | hflow := h.elsewhere hi hold hj
    · exact hne hsame
    · exact hflow (kind_of_adaptive hadapts)

theorem joins_addConnector_iff (h : s.Intact) (p : PlugRef) (start stop : Point) (style : ConnectorStyle)
    (d : ConnectorId) (q : PlugRef) (x : SocketRef) :
    (s.addConnector p start stop style).2.Joins d q x ↔ s.Joins d q x := by
  refine ⟨joins_addConnector s p start stop style, fun hold => ?_⟩
  obtain ⟨e, he, hq, hx⟩ := joins_iff.1 hold
  refine joins_iff.2 ⟨e, ?_, hq, hx⟩
  rw [wiring_addConnector]
  refine (if_neg ?_).trans he
  rintro rfl
  rw [h.tied.edge_fresh] at he
  cases he

/-- Whatever happens to a session but that a program is restored, its edges keep the types that they gave. -/
theorem adopts_apply (h : s.Typed) {o : Operation} (ho : o.Public) (hel : o.Elementary) :
    s.Adopts (s.apply o) := by
  have hi := h.intact.moves (moves_apply h.intact o ho)
  have heffect := effect_apply h.intact ho
  generalize s.apply o = t at hi heffect
  cases heffect with
  | thins hthins => exact hthins.adopts
  | connects hok =>
    obtain ⟨hvalid, -, start, style, rfl⟩ := Intact.connect_eq hok
    have hfastens := fastens_addConnector h.shaped hvalid start start style
    exact (hfastens.adopts (h.shaped.addConnector _ start start style) hi).of_same
      (joins_addConnector_iff h.intact _ start start style) (s.typing?_addConnector _ start start style)
  | @releases _ _ r hd hok =>
    have hreset := quiet_resetRadius { s with drag := none } r
    refine ((fastens_release h.intact hd hok).adopts (Shaped.resetRadius h.shaped _) hi).of_same (fun c p r => ?_)
      (typing?_resetRadius _ _)
    rw [joins_iff, hreset.wiring]
    exact joins_iff.symm
  | stores a value =>
    exact fun c p r hc => Or.inl ⟨joins_of_quiet (s.quiet_setValue a value) hc, inputType?_setValue s a value r⟩
  | restores palette program => cases hel

/-- The node of an edge that is kept is what it was. -/
theorem adaptive_of_kept (h : s.Intact) {o : Operation} (ho : o.Public) (hel : o.Elementary) (hc : s.Joins c p r)
    (hlive : ((s.apply o).socket? r).isSome) : (s.apply o).adaptive r = s.adaptive r := by
  obtain ⟨t, ht⟩ := Option.isSome_iff_exists.1 (hc.ends h).2.1
  obtain ⟨n, hn, -⟩ := Option.bind_eq_some_iff.1 ht
  obtain ⟨u, hu⟩ := Option.isSome_iff_exists.1 hlive
  obtain ⟨m, hm, -⟩ := Option.bind_eq_some_iff.1 hu
  refine adaptive_congr (((Numbers.apply s ho hel).kind_of_lt (h.known_of_node? hn)).resolve_left fun hnone => ?_)
  rw [kindOf, hm] at hnone
  cases hnone

end Step

/-! ## Runs -/

/-- The run has made the edge, at a time when its plug had the type, and the edge has been there ever since. -/
def Forms (s : Session) (l : List Operation) (c : ConnectorId) (p : PlugRef) (r : SocketRef)
    (type : PortType) : Prop :=
  ∃ before o after, l = before ++ o :: after ∧ ¬(s.applyAll before).Joins c p r ∧
    (s.applyAll before).outputType? p = some type ∧ (s.applyAll (before ++ [o])).outputType? p = some type ∧
      s.Since (before ++ [o]) l (·.Joins c p r)

section Runs
variable {s : Session} {l : List Operation} {o : Operation} {c : ConnectorId} {p : PlugRef} {r : SocketRef}
  {type : PortType}

theorem Forms.concat (h : s.Forms l c p r type) (hc : ((s.applyAll l).apply o).Joins c p r) :
    s.Forms (l ++ [o]) c p r type := by
  obtain ⟨before, u, after, rfl, hnew, hbefore, hafter, hsince⟩ := h
  exact ⟨before, u, after ++ [o], by simp, hnew, hbefore, hafter, hsince.concat hc⟩

/-- The type of an input that adapts is the one that its edge brought when it was made. -/
theorem forms_run (settings : Settings) (hpublic : ∀ o ∈ l, o.Public) (helementary : ∀ o ∈ l, o.Elementary)
    (hc : ((new settings).applyAll l).Joins c p r) (hr : ((new settings).applyAll l).adaptive r = true)
    (htype : ((new settings).applyAll l).inputType? r = some type) : (new settings).Forms l c p r type := by
  induction l using List.reverseRecOn with
  | nil =>
    obtain ⟨k, hk, -⟩ := hc
    cases hk
  | append_singleton l o ih =>
    have hearlier : ∀ u ∈ l, u.Public := fun u hu => hpublic u (List.mem_append_left _ hu)
    have ho := hpublic o (List.mem_append_right _ List.mem_cons_self)
    have hel := helementary o (List.mem_append_right _ List.mem_cons_self)
    have ht := (typed_new settings).applyAll hearlier
    have hlive := (hc.ends ((typed_new settings).applyAll hpublic).intact).2.1
    rw [applyAll_concat] at hc hr htype hlive
    obtain ⟨hold, hsame⟩ | ⟨hnew, a, hbefore, hafter, hadopts⟩ := adopts_apply ht ho hel c p r hc
    · rw [adaptive_of_kept ht.intact ho hel hold hlive] at hr
      rw [hsame] at htype
      exact (ih hearlier (fun u hu => helementary u (List.mem_append_left _ hu)) hold hr htype).concat hc
    · rw [hadopts hr] at htype
      obtain rfl := Option.some.inj htype
      refine ⟨l, o, [], rfl, hnew, hbefore, ?_, Since.now ?_⟩
      · rw [applyAll_concat]
        exact hafter
      · rw [applyAll_concat]
        exact hc

end Runs

/-- The output of a sum has the highest type of its inputs. An input that nothing reaches has the type `any`, and
one that an edge reaches has the type that the plug of the edge had when the edge was made. On any node, the editor
of a socket is shown exactly while the socket is for typing into and nothing reaches it. -/
theorem sums_follow_edges (settings : Settings) {os : List Operation} (hos : ∀ o ∈ os, o.Public) {id : NodeId}
    {n : Node} (hn : ((new settings).applyAll os).node? id = some n) :
    (n.kind = .generalAddition →
      (∃ q, n.frame.dataPlugs = [q] ∧ PortType.highest? (n.frame.dataSockets.map (·.type)) = some q.type ∧
        ∀ t ∈ n.frame.dataSockets, t.type.rank ≤ q.type.rank) ∧
      ∀ index t, n.frame.dataSockets[index]? = some t → (t.incoming = [] → t.type = .any) ∧
        ∀ c ∈ t.incoming, ∃ p,
          (new settings).Forms ((new settings).course os) c p ⟨id, .data, index⟩ t.type) ∧
    ∀ port, ∀ t ∈ n.frame.sockets port, t.editorShown = true ↔ t.editable = true ∧ t.incoming = [] := by
  have hreached : ((new settings).applyAll os).Reached := ⟨settings, os, hos, rfl⟩
  have hshaped := hreached.shaped id n hn
  refine ⟨fun hk => ⟨?_, fun index t ht => ⟨fun hnone => ?_, fun c hc => ?_⟩⟩, fun port t ht => ?_⟩
  · have hlength := hshaped.length_plugs .data
    rw [hk] at hlength
    obtain ⟨q, hq⟩ := List.length_eq_one_iff.1 hlength
    have htypes := hshaped.sum hk
    rw [show n.frame.dataPlugs = [q] from hq, List.map_singleton] at htypes
    have hhigh : PortType.highest? (n.frame.dataSockets.map (·.type)) = some q.type :=
      Option.mem_toList.1 (htypes ▸ List.mem_singleton_self _)
    exact ⟨q, hq, hhigh, fun t ht => PortType.rank_le_highest? hhigh (List.mem_map_of_mem ht)⟩
  · refine hshaped.idle .data index t ht ?_ hnone
    rw [hk]
    rfl
  · have hsocket : ((new settings).applyAll os).socket? ⟨id, .data, index⟩ = some t := by
      rw [socket?, hn]
      exact ht
    obtain ⟨p, hp⟩ := (mem_incoming hreached.intact hsocket).1 hc
    refine ⟨p, forms_run settings (public_course hos) elementary_course ?_ ?_ ?_⟩ <;> rw [applyAll_course]
    · exact hp
    · exact adaptive_of_sum hn hk rfl
    · rw [inputType?, hsocket]
      rfl
  · obtain ⟨index, hindex⟩ := List.mem_iff_getElem?.1 ht
    have hsettled := (hreached.settled hn).sockets port index t hindex
    rw [hsettled.editor, ← hsettled.editable, Bool.and_eq_true, Socket.isConnected, Bool.not_not,
      List.isEmpty_iff]

/-- A number is read into a sum, and then the reader is given the name of no variable. -/
def outdatedInput : List Operation :=
  [.registerVariable "score" .num, .spawn .variableRead .origin 1.0, .spawn .generalAddition .origin 1.0,
    .setValue ⟨⟨0⟩, .data, 0⟩ (some (.text "score")), .connect ⟨⟨0⟩, .data, 0⟩ ⟨⟨1⟩, .data, 1⟩,
    .setValue ⟨⟨0⟩, .data, 0⟩ (some (.text "level"))]

theorem sums_follow_edges_outdatedInput : ∃ n q, ((new .standard).applyAll outdatedInput).node? ⟨1⟩ = some n ∧
    n.kind = .generalAddition ∧ n.frame.dataPlugs = [q] ∧ n.frame.dataSockets.map (·.type) = [.any, .num] ∧
    PortType.highest? [.any, .num] = some q.type ∧
    ((new .standard).applyAll outdatedInput).outputType? ⟨⟨0⟩, .data, 0⟩ = some .any ∧
    ∃ p, (new .standard).Forms ((new .standard).course outdatedInput) ⟨0⟩ p ⟨⟨1⟩, .data, 1⟩ .num := by
  obtain ⟨n, hn, hk, t, ht, htype, hin, htypes⟩ : ∃ n, ((new .standard).applyAll outdatedInput).node? ⟨1⟩ = some n ∧
      n.kind = .generalAddition ∧ ∃ t, n.frame.dataSockets[1]? = some t ∧ t.type = .num ∧ t.incoming = [⟨0⟩] ∧
        n.frame.dataSockets.map (·.type) = [.any, .num] := ⟨_, rfl, rfl, _, rfl, rfl, rfl, rfl⟩
  have hfollow := sums_follow_edges .standard (by simp [outdatedInput, Operation.Public]) hn
  obtain ⟨⟨q, hq, hhigh, -⟩, hinputs⟩ := hfollow.1 hk
  obtain ⟨p, hforms⟩ := (hinputs 1 t ht).2 ⟨0⟩ (hin ▸ List.mem_singleton_self _)
  exact ⟨n, q, hn, hk, hq, htypes, htypes ▸ hhigh, rfl, p, htype ▸ hforms⟩

end Session
end FlowGraph
