import FlowGraph.Proofs.Program.Course

/-! # The numbers of nodes

A session counts the nodes that it makes, and a new node gets the number that the count has reached. Nothing else
moves the count, and nothing else brings in a node, except that a host may add a node under a number of its own
choice. The count takes no notice of such a number, and a new node gets it when the count arrives there.
-/

namespace FlowGraph
set_option autoImplicit false

theorem Operation.addNode_or_public (o : Operation) : (∃ id n, o = .addNode id n) ∨ o.Public := by
  cases o <;> first | exact Or.inr trivial | exact Or.inl ⟨_, _, rfl⟩

namespace Session

/-! ## One change -/

/-- The second session may have made nodes, under the next numbers. Its other nodes are nodes of the first, of
the same kinds. -/
structure Numbers (s t : Session) : Prop where
  next : s.ids.nextNode ≤ t.ids.nextNode
  kind : ∀ id, t.kindOf id = none ∨ t.kindOf id = s.kindOf id ∨
    s.ids.nextNode ≤ id.number ∧ id.number < t.ids.nextNode

namespace Numbers
variable {s t u : Session} {id : NodeId}

theorem of_kinds (hids : t.ids.nextNode = s.ids.nextNode) (hkinds : ∀ id, t.kindOf id = s.kindOf id) :
    s.Numbers t := ⟨Nat.le_of_eq hids.symm, fun id => Or.inr (Or.inl (hkinds id))⟩

theorem of_steady (h : s.Steady t) : s.Numbers t := of_kinds (congrArg IdSource.nextNode h.ids) h.kinds

theorem refl (s : Session) : s.Numbers s := of_steady (Steady.refl s)

theorem trans (h : s.Numbers t) (h' : t.Numbers u) : s.Numbers u where
  next := Nat.le_trans h.next h'.next
  kind id := by
    obtain hnone | hsame | ⟨hfrom, hto⟩ := h'.kind id
    · exact Or.inl hnone
    · obtain hnone | hold | ⟨hfrom, hto⟩ := h.kind id
      · exact Or.inl (hsame.trans hnone)
      · exact Or.inr (Or.inl (hsame.trans hold))
      · exact Or.inr (Or.inr ⟨hfrom, Nat.lt_of_lt_of_le hto h'.next⟩)
    · exact Or.inr (Or.inr ⟨Nat.le_trans h.next hfrom, hto⟩)

theorem foldl {α : Type} (f : Session → α → Session) (hf : ∀ (s : Session) a, s.Numbers (f s a)) (l : List α)
    (s : Session) : s.Numbers (l.foldl f s) :=
  List.foldlRecOn (motive := s.Numbers) l f (refl s) fun _ ht a _ => ht.trans (hf _ a)

/-- A node that the first session numbered is of the same kind in the second, or gone. -/
theorem kind_of_lt (h : s.Numbers t) (hid : id.number < s.ids.nextNode) :
    t.kindOf id = none ∨ t.kindOf id = s.kindOf id :=
  (h.kind id).imp_right fun hor => hor.resolve_right fun hnew => Nat.not_le.2 hid hnew.1

theorem spawn (s : Session) (kind : NodeKind) (position : Point) (scale : Scalar) :
    s.Numbers (s.spawn kind position scale).2 := by
  refine ⟨Nat.le_succ _, fun id => ?_⟩
  by_cases hid : id = s.ids.node.1
  · subst hid
    exact Or.inr (Or.inr ⟨Nat.le_refl _, Nat.lt_succ_self _⟩)
  · refine Or.inr (Or.inl ?_)
    rw [kindOf, node?_spawn, if_neg hid]
    rfl

theorem eraseNode (s : Session) (id : NodeId) : s.Numbers (s.eraseNode id) := by
  refine ⟨Nat.le_refl _, fun m => ?_⟩
  show ((s.nodes.erase id).get? m).map (·.kind) = none ∨ ((s.nodes.erase id).get? m).map (·.kind) = _ ∨ _
  rw [OrderedMap.get?_erase]
  split
  · exact Or.inl rfl
  · exact Or.inr (Or.inl rfl)

/-! ### Edges -/

theorem setDrag {d : Option Drag} (h : s.Numbers t) : s.Numbers { t with drag := d } := ⟨h.next, h.kind⟩

theorem of_setDrag {d : Option Drag} (h : { s with drag := d }.Steady t) : s.Numbers t :=
  of_kinds (congrArg IdSource.nextNode h.ids) h.kinds

theorem discardDrag (s : Session) (d : Drag) : s.Numbers (s.discardDrag d) := by
  have hreset := (quiet_resetRadius? { s with drag := none } d.snap).toSteady
  exact of_setDrag (hreset.trans (steady_destroyConnector _ d.connector))

theorem cancelDrag (s : Session) : s.Numbers s.cancelDrag := by
  unfold Session.cancelDrag
  split
  · exact discardDrag s _
  · exact refl s

theorem addConnector (s : Session) (p : PlugRef) (start stop : Point) (style : ConnectorStyle) :
    s.Numbers (s.addConnector p start stop style).2 :=
  of_kinds rfl fun id => kindOf_congr (s.typing?_addConnector p start stop style id)

theorem disconnect (s : Session) (c : ConnectorId) : s.Numbers (s.disconnect c).2 := by
  unfold Session.disconnect
  split
  · exact cancelDrag s
  · split
    · exact of_steady ((s.steady_detachSocket c).trans (steady_destroyConnector _ c))
    · exact refl s

theorem disconnectAll (s : Session) (ids : List ConnectorId) : s.Numbers (s.disconnectAll ids).2 := by
  induction ids generalizing s with
  | nil => exact refl s
  | cons c rest ih => exact (disconnect s c).trans (ih _)

theorem clearConnections (s : Session) (id : NodeId) : s.Numbers (s.clearConnections id).2 := by
  have hcancel : s.Numbers (if s.dragTouches id then s.cancelDrag else s) := by
    split
    · exact cancelDrag s
    · exact refl s
  unfold Session.clearConnections
  dsimp only
  split
  · exact hcancel.trans (disconnectAll _ _)
  · exact hcancel

theorem beginDrag (s : Session) (p : PlugRef) (pointer : Point) : s.Numbers (s.beginDrag p pointer).2 := by
  unfold Session.beginDrag
  split
  · split
    · exact refl s
    · exact setDrag ((addConnector s p _ pointer _).trans (of_steady (quiet_drawPath _ _).toSteady))
  · exact refl s

theorem reconnect (s : Session) (c : ConnectorId) (pointer : Point) : s.Numbers (s.reconnect c pointer).2 := by
  unfold Session.reconnect
  split
  · rename_i k _ _
    refine setDrag (of_steady (Steady.trans ?_ (quiet_drawPath _ c).toSteady))
    refine Steady.trans ?_ (steady_modifyConnector _ c _)
    exact (s.steady_detachSocket c).trans (steady_modifyFrame _ k.plug.node _)
  · exact refl s

theorem endDrag (s : Session) : s.Numbers s.endDrag.2 := by
  unfold Session.endDrag
  split
  · exact refl s
  · split
    · exact discardDrag s _
    · have hreset := (quiet_resetRadius { s with drag := none } ‹SocketRef›).toSteady
      dsimp only
      split
      · exact of_setDrag (hreset.trans (steady_link _ _ _))
      · exact of_setDrag (hreset.trans (steady_destroyConnector _ _))

theorem connect (s : Session) (p : PlugRef) (r : SocketRef) : s.Numbers (s.apply (.connect p r)) := by
  cases hok : s.connect p r with
  | error e =>
    rw [apply_connect_error hok]
    exact refl s
  | ok made =>
    rw [apply_connect_ok hok]
    obtain ⟨-, -, start, style, hmade⟩ := Intact.connect_eq hok
    rw [hmade]
    exact (addConnector s p start start style).trans (of_steady (steady_link _ _ r))

/-! ### Nodes -/

theorem removeNode (s : Session) (id : NodeId) : s.Numbers (s.removeNode id).2 := by
  rw [removeNode_eq]
  split
  · exact (clearConnections s id).trans (eraseNode _ id)
  · exact refl s

theorem removeAll (s : Session) : s.Numbers s.removeAll := by
  have hremove := foldl _ removeNode s.cancelDrag.nodes.keys s.cancelDrag
  have hdispose := foldl (fun t c => t.draw (.dispose (.connector c))) (fun t _ => of_steady (t.quiet_draw _).toSteady)
  exact ((cancelDrag s).trans hremove).trans ⟨(hdispose _ _).next, (hdispose _ _).kind⟩

theorem selectVariant (s : Session) (id : NodeId) (variant : Variant) :
    s.Numbers (s.selectVariant id variant).2 := by
  unfold Session.selectVariant
  split
  · exact refl s
  · refine (clearConnections s id).trans (of_steady ?_)
    exact (steady_modifyFrame _ id _).trans (quiet_emitMove _ id).toSteady

/-- Only making a node takes a number. -/
theorem apply (s : Session) {o : Operation} (ho : o.Public) (hel : o.Elementary) : s.Numbers (s.apply o) := by
  have hquiet (h : s.Quiet (s.apply o)) : s.Numbers (s.apply o) := of_steady h.toSteady
  cases o with
  | spawn kind position scale => exact spawn s kind position scale
  | addNode id node => cases ho
  | moveNode id position => exact hquiet (s.quiet_moveNode id position)
  | setScale id scale => exact hquiet (s.quiet_setScale id scale)
  | emitMove id => exact hquiet (s.quiet_emitMove id)
  | bringToFront id => exact hquiet (s.quiet_bringToFront id)
  | clearConnections id => exact clearConnections s id
  | removeNode id => exact removeNode s id
  | removeAll => exact removeAll s
  | selectVariant id variant => exact selectVariant s id variant
  | setValue r value => exact hquiet (s.quiet_setValue r value)
  | registerVariable name type => exact hquiet (s.quiet_registerVariable name type)
  | setStyle style => exact hquiet (s.quiet_setStyle style)
  | toggleStyle => exact hquiet (s.quiet_setStyle _)
  | connect p r => exact connect s p r
  | disconnect c => exact disconnect s c
  | reconnect c position => exact reconnect s c position
  | beginDrag p position => exact beginDrag s p position
  | updateDrag position => exact hquiet (s.quiet_updateDrag position)
  | endDrag => exact endDrag s
  | cancelDrag => exact cancelDrag s
  | pointer event =>
    cases event with
    | press target position =>
      cases target with
      | plug p => exact beginDrag s p position
      | connector c => exact reconnect s c position
      | canvas => exact refl s
    | move position => exact hquiet (s.quiet_updateDrag position)
    | release => exact endDrag s
  | restore palette program => cases hel

theorem applyAll (s : Session) {l : List Operation} (hpublic : ∀ o ∈ l, o.Public)
    (helementary : ∀ o ∈ l, o.Elementary) : s.Numbers (s.applyAll l) := by
  induction l generalizing s with
  | nil => exact refl s
  | cons o rest ih =>
    have hfirst := apply s (hpublic o List.mem_cons_self) (helementary o List.mem_cons_self)
    exact hfirst.trans (ih (s.apply o) (fun u hu => hpublic u (List.mem_cons_of_mem o hu))
      fun u hu => helementary u (List.mem_cons_of_mem o hu))

end Numbers

/-! ## Runs -/

/-- The node was there at some time of the run. -/
def Lived (s : Session) (l : List Operation) (id : NodeId) : Prop :=
  ∃ mid, mid <+: l ∧ ((s.applyAll mid).node? id).isSome

section Runs
variable {s : Session} {o : Operation} {l before after : List Operation} {id : NodeId}

theorem kindOf_addNode (s : Session) (id : NodeId) (n : Node) (m : NodeId) :
    (s.addNode id n).kindOf m = if m = id then some n.kind else s.kindOf m := by
  show ((s.nodes.put id n).get? m).map (·.kind) = _
  rw [OrderedMap.get?_put]
  split <;> rfl

theorem next_apply (s : Session) (ho : o.Elementary) : s.ids.nextNode ≤ (s.apply o).ids.nextNode := by
  obtain ⟨id, n, rfl⟩ | hpublic := o.addNode_or_public
  · exact Nat.le_refl _
  · exact (Numbers.apply s hpublic ho).next

theorem next_applyAll (s : Session) (h : ∀ o ∈ l, o.Elementary) :
    s.ids.nextNode ≤ (s.applyAll l).ids.nextNode := by
  induction l generalizing s with
  | nil => exact Nat.le_refl _
  | cons o rest ih =>
    have hrest := ih (s.apply o) fun u hu => h u (List.mem_cons_of_mem o hu)
    exact Nat.le_trans (s.next_apply (h o List.mem_cons_self)) hrest

theorem next_mono {l' : List Operation} (hl : l <+: l') (h : ∀ o ∈ l', o.Elementary) :
    (s.applyAll l).ids.nextNode ≤ (s.applyAll l').ids.nextNode := by
  obtain ⟨rest, rfl⟩ := hl
  rw [applyAll_then]
  exact next_applyAll _ fun o ho => h o (List.mem_append_right l ho)

/-- A node that is there has been counted, or was added under its number. -/
theorem counted_or_added (settings : Settings) (h : ∀ o ∈ l, o.Elementary)
    (hlive : (((new settings).applyAll l).node? id).isSome) :
    id.number < ((new settings).applyAll l).ids.nextNode ∨ ∃ n, .addNode id n ∈ l := by
  rw [← Option.isSome_map (f := Node.kind)] at hlive
  induction l using List.reverseRecOn with
  | nil => cases hlive
  | append_singleton l o ih =>
    have hbefore : ∀ u ∈ l, u.Elementary := fun u hu => h u (List.mem_append_left _ hu)
    have hlast := h o (List.mem_append_right _ List.mem_cons_self)
    have hearlier (hold : (((new settings).applyAll l).kindOf id).isSome) :
        id.number < ((new settings).applyAll (l ++ [o])).ids.nextNode ∨ ∃ n, .addNode id n ∈ l ++ [o] := by
      refine (ih hbefore hold).imp (fun hlt => Nat.lt_of_lt_of_le hlt ?_) fun ⟨n, hn⟩ => ⟨n, List.mem_append_left _ hn⟩
      exact next_mono (List.prefix_append l [o]) h
    change (((new settings).applyAll (l ++ [o])).kindOf id).isSome at hlive
    obtain ⟨m, n, rfl⟩ | hpublic := o.addNode_or_public
    · by_cases hid : id = m
      · exact Or.inr ⟨n, List.mem_append_right _ (hid ▸ List.mem_cons_self)⟩
      · rw [applyAll_concat] at hlive
        change (((((new settings).applyAll l).addNode m n)).kindOf id).isSome at hlive
        rw [kindOf_addNode, if_neg hid] at hlive
        exact hearlier hlive
    · obtain hnone | hsame | ⟨-, hlt⟩ := (Numbers.apply ((new settings).applyAll l) hpublic hlast).kind id
      · rw [applyAll_concat, hnone] at hlive
        cases hlive
      · rw [applyAll_concat, hsame] at hlive
        exact hearlier hlive
      · rw [applyAll_concat]
        exact Or.inl hlt

theorem lived_of_addNode {n : Node} (h : .addNode id n ∈ l) : s.Lived l id := by
  obtain ⟨before, after, rfl⟩ := List.append_of_mem h
  refine ⟨before ++ [.addNode id n], ⟨after, by simp⟩, ?_⟩
  rw [applyAll_concat]
  show ((((s.applyAll before).addNode id n)).nodes.get? id).isSome
  show (((s.applyAll before).nodes.put id n).get? id).isSome
  rw [OrderedMap.get?_put, if_pos rfl]
  rfl

theorem addNode_mem_course {os : List Operation} {n : Node} : .addNode id n ∈ s.course os ↔ .addNode id n ∈ os := by
  constructor
  · intro h
    obtain ⟨hin, -⟩ | hremove | ⟨name, type, hregister⟩ | hbuilds := mem_course h
    · exact hin
    · cases hremove
    · cases hregister
    · cases hbuilds
  · intro h
    obtain ⟨before, after, rfl⟩ := List.append_of_mem h
    rw [course_append]
    exact List.mem_append_right _ List.mem_cons_self

end Runs

/-- The number of a new node has named a node before exactly if a host has added a node under it, and it is higher
than the number of every node made before. -/
theorem lived_spawn_iff (settings : Settings) (os : List Operation) (kind : NodeKind) (position : Point)
    (scale : Scalar) :
    ((new settings).Lived ((new settings).course os) (((new settings).applyAll os).spawn kind position scale).1 ↔
      ∃ n, .addNode (((new settings).applyAll os).spawn kind position scale).1 n ∈ os) ∧
    ∀ before kind' position' scale' after,
      (new settings).course os = before ++ .spawn kind' position' scale' :: after →
        (((new settings).applyAll before).spawn kind' position' scale').1.number <
          (((new settings).applyAll os).spawn kind position scale).1.number := by
  have helementary : ∀ o ∈ (new settings).course os, o.Elementary := elementary_course
  show (_ ↔ ∃ n, .addNode ((new settings).applyAll os).ids.node.1 n ∈ os) ∧ _
  rw [← applyAll_course]
  refine ⟨⟨?_, fun ⟨n, hn⟩ => lived_of_addNode (addNode_mem_course.2 hn)⟩, ?_⟩
  · rintro ⟨mid, hmid, hlive⟩
    have hearlier : ∀ o ∈ mid, o.Elementary := fun o ho => helementary o (hmid.subset ho)
    obtain hlt | ⟨n, hn⟩ := counted_or_added settings hearlier hlive
    · exact absurd (next_mono hmid helementary) (Nat.not_le.2 hlt)
    · exact ⟨n, addNode_mem_course.1 (hmid.subset hn)⟩
  · intro before kind' position' scale' after heq
    have hmid : before ++ [.spawn kind' position' scale'] <+: (new settings).course os := ⟨after, by simp [heq]⟩
    have hnext := next_mono (s := new settings) hmid helementary
    rw [applyAll_concat] at hnext
    exact hnext

/-- A node is made, and another one is added under the number that comes next. -/
def crowded : List Operation :=
  [.spawn .startEvent .origin 1.0, .addNode ⟨1⟩ ⟨.consoleLog, NodeKind.bareFrame .consoleLog⟩]

theorem lived_spawn_iff_crowded : (((new .standard).applyAll crowded).spawn .condition .origin 1.0).1 = ⟨1⟩ ∧
    (new .standard).Lived ((new .standard).course crowded) ⟨1⟩ ∧ 0 < 1 := by
  have hspawn := lived_spawn_iff .standard crowded .condition .origin 1.0
  have hlived := hspawn.1.2 ⟨_, List.mem_cons_of_mem _ List.mem_cons_self⟩
  exact ⟨rfl, hlived, hspawn.2 [] .startEvent .origin 1.0 [_] rfl⟩

end Session
end FlowGraph
