import FlowGraph.Proofs.Program.Respawn
import FlowGraph.Proofs.Session.Accepted
import Mathlib.Data.List.Induction

/-! # Edges that are retyped

Nothing looks at an edge again once it is made. The types of two kinds of outputs change later: a sum
that loses one of its inputs no longer knows its type, and a reader that is given another name takes the
type of another variable. Behind these outputs, and nowhere else, an edge may end up at a socket that
would refuse it by now.
-/

namespace FlowGraph
set_option autoImplicit false

namespace Session

/-! ## Taking edges away -/

/-- A sum has lost an edge into one of its inputs. -/
def Loses (s t : Session) (id : NodeId) : Prop :=
  s.kindOf id = some .generalAddition ∧ ∃ d q r, s.Joins d q r ∧ r.node = id ∧ ¬t.Joins d q r

/-- The second session has some of the edges of the first. What it kept has the same types at both ends,
except for the output of a sum that has lost an input. -/
structure Thins (s t : Session) : Prop where
  edge : ∀ c p r, t.Joins c p r → s.Joins c p r
  kind : ∀ c p r, t.Joins c p r → t.kindOf p.node = s.kindOf p.node
  input : ∀ c p r, t.Joins c p r → t.inputType? r = s.inputType? r
  output : ∀ c p r, t.Joins c p r → t.outputType? p = s.outputType? p ∨ s.Loses t p.node

namespace Thins
variable {s t u : Session}

theorem trans (h : s.Thins t) (h' : t.Thins u) : s.Thins u where
  edge c p r hc := h.edge c p r (h'.edge c p r hc)
  kind c p r hc := (h'.kind c p r hc).trans (h.kind c p r (h'.edge c p r hc))
  input c p r hc := (h'.input c p r hc).trans (h.input c p r (h'.edge c p r hc))
  output c p r hc := by
    have hmid := h'.edge c p r hc
    obtain hlast | ⟨hk, d, q, x, hd, hx, hgone⟩ := h'.output c p r hc
    · obtain hfirst | ⟨hk, d, q, x, hd, hx, hgone⟩ := h.output c p r hmid
      · exact Or.inl (hlast.trans hfirst)
      · exact Or.inr ⟨hk, d, q, x, hd, hx, fun hu => hgone (h'.edge d q x hu)⟩
    · exact Or.inr ⟨(h.kind c p r hmid).symm.trans hk, d, q, x, h.edge d q x hd, hx, hgone⟩

theorem of_typing (hedge : ∀ c p r, t.Joins c p r → s.Joins c p r)
    (htyping : ∀ c p r, t.Joins c p r →
      t.typing? p.node = s.typing? p.node ∧ t.typing? r.node = s.typing? r.node) : s.Thins t where
  edge := hedge
  kind c p r hc := kindOf_congr (htyping c p r hc).1
  input c p r hc := inputType?_congr (htyping c p r hc).2
  output c p r hc := Or.inl (outputType?_congr (htyping c p r hc).1)

theorem of_quiet (hquiet : s.Quiet t) (htyping : ∀ id, t.typing? id = s.typing? id) : s.Thins t :=
  of_typing (fun _ _ _ hc => joins_of_quiet hquiet hc) fun _ p r _ => ⟨htyping p.node, htyping r.node⟩

theorem refl (s : Session) : s.Thins s := of_quiet (Quiet.refl s) fun _ => rfl

/-- An edge that is kept and was accepted is refused only behind a sum that has lost an input. -/
theorem keeps (h : s.Thins t) (hs : s.Shaped) (ht : t.Shaped) : s.Keeps t fun p => s.Loses t p.node := by
  intro c p r hc
  by_cases haccepts : t.Accepts p r
  · exact Or.inl haccepts
  · refine Or.inr ⟨h.edge c p r hc, fun hold => ?_⟩
    obtain hout | hloses := h.output c p r hc
    · exact absurd (hold.congr hs ht hout (h.input c p r hc)) haccepts
    · exact hloses

end Thins

section Dropping
variable {s t : Session} {c : ConnectorId} {p : PlugRef} {r : SocketRef}

/-- An edge leaves its socket. -/
theorem thins_detach (h : s.Intact) (hc : s.Joins c p r)
    (hedge : ∀ d q x, t.Joins d q x → s.Joins d q x ∧ d ≠ c)
    (htyping : ∀ m, t.typing? m = (s.modifyNode r.node (·.release c r.kind r.index)).typing? m) :
    s.Thins t := by
  refine ⟨fun d q x hd => (hedge d q x hd).1, fun d q x hd => ?_, fun d q x hd => ?_, fun d q x hd => ?_⟩
  · refine (kindOf_congr (htyping q.node)).trans (s.kinds_modifyNode r.node _ ?_ q.node)
    exact fun _ => rfl
  · rw [inputType?_congr (htyping x.node), inputType?_release, if_neg]
    rintro ⟨rfl, hr⟩
    exact (hedge d q x hd).2 ((hedge d q x hd).1.unique h hc (Or.inl (kind_of_adaptive hr)))
  · by_cases hsame : q.node ≠ r.node ∨ s.adaptive r = false
    · exact Or.inl (outputType?_congr ((htyping q.node).trans (typing?_release hsame c)))
    · obtain ⟨hnode, hr⟩ := not_or.1 hsame
      have hnode : r.node = q.node := (Decidable.not_not.1 hnode).symm
      refine Or.inr ⟨hnode ▸ sum_of_adaptive (eq_true_of_ne_false hr), c, p, r, hc, hnode, fun ht => ?_⟩
      exact (hedge c p r ht).2 rfl

theorem target_of_joins (hc : s.Joins c p r) : (s.connector? c).bind (·.connectedTo) = some r := by
  obtain ⟨k, hk, -, hr⟩ := hc
  rw [hk, Option.bind_some, hr]

theorem joins_of_cleared {ids : List ConnectorId} (h : s.Cleared t ids) (hc : t.Joins c p r) :
    s.Joins c p r ∧ c ∉ ids := by
  obtain ⟨e, he, hp, hr⟩ := joins_iff.1 hc
  rw [h.edge] at he
  split at he
  · cases he
  · rename_i hkept
    exact ⟨joins_iff.2 ⟨e, he, hp, hr⟩, hkept⟩

theorem thins_discardDrag (h : s.Intact) {d : Drag} (hd : s.drag = some d) : s.Thins (s.discardDrag d) :=
  Thins.of_typing (fun _ _ _ hc => (joins_of_cleared (cleared_discard h hd) hc).1) fun _ p r _ =>
    ⟨s.typing?_discardDrag d p.node, s.typing?_discardDrag d r.node⟩

theorem thins_cancelDrag (h : s.Intact) : s.Thins s.cancelDrag := by
  unfold cancelDrag
  split
  · rename_i d hd
    exact thins_discardDrag h hd
  · exact Thins.refl s

theorem thins_disconnect (h : s.Intact) (c : ConnectorId) : s.Thins (s.disconnect c).2 := by
  have hcleared := cleared_disconnect h c
  unfold disconnect at hcleared ⊢
  split
  · exact thins_cancelDrag h
  · rename_i hc
    rw [if_neg hc] at hcleared
    split
    · rename_i hin
      rw [if_pos hin] at hcleared
      obtain ⟨k, hk⟩ := Option.isSome_iff_exists.1 ((s.connectors.get?_isSome c).trans hin)
      obtain ⟨r, hedge⟩ := h.edge_idle hk hc
      have hj : s.Joins c k.plug r := joins_iff.2 ⟨_, hedge, rfl, rfl⟩
      refine thins_detach h hj (fun d q x hd => ?_) fun m => ?_
      · obtain ⟨hold, hkept⟩ := joins_of_cleared hcleared hd
        exact ⟨hold, fun hdc => hkept (List.mem_singleton.2 hdc)⟩
      · exact (typing?_destroyConnector _ c m).trans (typing?_detachSocket (target_of_joins hj) m)
    · exact Thins.refl s

theorem thins_clearConnections (h : s.Intact) (id : NodeId) : s.Thins (s.clearConnections id).2 :=
  clearConnections_stepwise Thins.refl Thins.trans (fun _ c h => thins_disconnect h c) h (thins_cancelDrag h) id

/-- A node on which nothing hangs may change as it likes. -/
theorem thins_elsewhere {id : NodeId} (hfree : ∀ c, ¬s.wiring.Joined (·.Touches id) c)
    (hedge : ∀ c p r, t.Joins c p r → s.Joins c p r) (htyping : ∀ m, m ≠ id → t.typing? m = s.typing? m) :
    s.Thins t := by
  refine Thins.of_typing hedge fun c p r hc => ?_
  obtain ⟨e, he, rfl, hr⟩ := joins_iff.1 (hedge c p r hc)
  refine ⟨htyping _ fun hid => ?_, htyping _ fun hid => ?_⟩
  · exact hfree c ⟨e, he, Or.inl hid⟩
  · exact hfree c ⟨e, he, Or.inr ⟨r, hr, hid⟩⟩

theorem thins_spawn (h : s.Intact) (kind : NodeKind) (position : Point) (scale : Scalar) :
    s.Thins (s.spawn kind position scale).2 := by
  have hfresh : s.node? s.ids.node.1 = none := Option.map_eq_none_iff.1 h.tied.followers_fresh
  refine thins_elsewhere (h.untouched_of_absent hfresh) (fun _ _ _ hc => hc) fun m hm => ?_
  rw [typing?_spawn, if_neg hm]

theorem thins_removeNode (h : s.Intact) (id : NodeId) : s.Thins (s.removeNode id).2 := by
  obtain ⟨-, -, -, hfree⟩ := cleared_clearConnections h id
  rw [removeNode_eq]
  split
  · refine (thins_clearConnections h id).trans (thins_elsewhere hfree (fun _ _ _ hc => hc) fun m hm => ?_)
    rw [typing?_eraseNode, if_neg hm]
  · exact Thins.refl s

theorem thins_selectVariant (h : s.Intact) (id : NodeId) (variant : Variant) :
    s.Thins (s.selectVariant id variant).2 := by
  obtain ⟨-, -, -, hfree⟩ := cleared_clearConnections h id
  unfold selectVariant
  split
  · exact Thins.refl s
  · have hrelay : (s.clearConnections id).2.Thins ((s.clearConnections id).2.relayPorts id variant) :=
      thins_elsewhere hfree (fun _ _ _ hc => hc) fun m hm => typing?_relayPorts_of_ne _ hm variant
    exact ((thins_clearConnections h id).trans hrelay).trans
      (Thins.of_quiet (quiet_emitMove _ id) (typing?_emitMove _ id))

theorem thins_beginDrag (s : Session) (p : PlugRef) (pointer : Point) :
    s.Thins (s.beginDrag p pointer).2 := by
  cases ht : s.beginDrag p pointer with
  | mk c t =>
    cases c with
    | none =>
      rw [eq_of_beginDrag_none ht]
      exact Thins.refl s
    | some c =>
      have htyping := typing?_beginDrag ht
      refine Thins.of_typing (fun d q r hd => ?_) fun _ q r _ => ⟨htyping q.node, htyping r.node⟩
      obtain ⟨-, u, start, -, rfl, rfl⟩ := Intact.beginDrag_eq ht
      exact joins_addConnector s p start pointer u.style
        (joins_of_quiet (quiet_drawPath _ s.ids.connector.1) hd)

theorem thins_reconnect (h : s.Intact) (c : ConnectorId) (pointer : Point) :
    s.Thins (s.reconnect c pointer).2 := by
  cases ht : s.reconnect c pointer with
  | mk picked t =>
    cases picked with
    | false =>
      rw [eq_of_reconnect_false ht]
      exact Thins.refl s
    | true =>
      obtain ⟨hd, k, hk, rfl⟩ := reconnect_eq ht
      obtain ⟨r, hedge⟩ := h.edge_idle hk (Intact.idle_of_no_drag hd c)
      have hj : s.Joins c k.plug r := joins_iff.2 ⟨_, hedge, rfl, rfl⟩
      refine thins_detach h hj (fun d q x hd => ?_) fun m =>
        (typing?_pickUp c k.plug pointer m).trans (typing?_detachSocket (target_of_joins hj) m)
      obtain ⟨e, he, hq, hx⟩ := joins_iff.1 hd
      change (s.pickUp c k.plug pointer).wiring.edge d = some e at he
      rw [wiring_pickUp hedge pointer] at he
      change (if d = c then some _ else s.wiring.edge d) = some e at he
      split at he
      · obtain rfl := Option.some.inj he
        cases hx
      · rename_i hdc
        exact ⟨joins_iff.2 ⟨e, he, hq, hx⟩, hdc⟩

end Dropping

/-! ## Setting a constant -/

/-- The edges stay, and only those out of a reader that is named may be refused. -/
theorem keeps_setValue {s : Session} (hs : s.Shaped) (a : SocketRef) (value : Option Literal) :
    s.Keeps (s.setValue a value).2 fun p =>
      s.kindOf p.node = some .variableRead ∧ a = ⟨p.node, .data, 0⟩ := by
  intro c p r hc
  have hold := joins_of_quiet (s.quiet_setValue a value) hc
  by_cases haccepts : (s.setValue a value).2.Accepts p r
  · exact Or.inl haccepts
  · refine Or.inr ⟨hold, fun hwas => Decidable.byContradiction fun hother => ?_⟩
    refine haccepts (hwas.congr hs (hs.setValue a value) ?_ (inputType?_setValue s a value r))
    by_cases hnode : p.node = a.node
    · refine outputType?_congr (typing?_setValue ?_ value p.node)
      by_cases hkind : s.kindOf a.node = some .variableRead
      · refine Or.inr (Decidable.or_iff_not_imp_left.2 fun hport hindex => hother ?_)
        obtain ⟨node, port, index⟩ := a
        dsimp only at hnode hkind hindex
        subst hnode hindex
        exact ⟨hkind, congrArg (SocketRef.mk p.node · 0) (Decidable.not_not.1 hport)⟩
      · exact Or.inl hkind
    · exact outputType?_congr (typing?_setValue_of_ne s hnode value)

/-! ## Restoring -/

section Restoring
variable {s t : Session}

/-- The socket of every edge accepts its plug. -/
def Accepted (s : Session) : Prop := ∀ c p r, s.Joins c p r → s.Accepts p r

theorem Accepted.of_keeps (h : s.Accepted) (hk : s.Keeps t fun _ => False) : t.Accepted := by
  intro c p r hc
  obtain haccepts | ⟨hold, hrefused⟩ := hk c p r hc
  · exact haccepts
  · exact (hrefused (h c p r hold)).elim

theorem accepted_connectEach (ht : s.Typed) (h : s.Accepted) (edges : List PendingEdge) :
    (Restore.connectEach s edges).session.Accepted := by
  induction edges generalizing s with
  | nil => exact h
  | cons e rest ih =>
    unfold Restore.connectEach
    split
    · rename_i c t hok
      exact ih (ht.move (.connect hok)) (h.of_keeps (ht.keeps_connect hok))
    · exact ih ht h
    · exact ih ht h

theorem accepted_connectAll (rounds : Nat) (ht : s.Typed) (h : s.Accepted) (edges : List PendingEdge) :
    (Restore.connectAll rounds s edges).2.Accepted := by
  induction rounds generalizing s edges with
  | zero => exact h
  | succ rounds ih =>
    have hround := accepted_connectEach ht h edges
    unfold Restore.connectAll
    dsimp only
    split
    · exact hround
    · exact ih (ht.moves (moves_connectEach s edges)) hround _

theorem connectors_spawnAll (hd : s.drag = none) (palette : Palette) (report : RestoreReport)
    (records : List NodeRecord) :
    (Restore.spawnAll palette s report records).1.connectors = s.connectors := by
  induction records generalizing s report with
  | nil => rfl
  | cons r rest ih =>
    unfold Restore.spawnAll
    split
    · exact ih hd _
    · rename_i kind _
      have hgrows := (grows_spawnRecord hd kind r).1
      exact (ih (hgrows.drag.trans hd) _).trans hgrows.connectors

theorem drag_of_no_connectors (h : s.Intact) (hnone : s.connectors = .empty) : s.drag = none := by
  cases hd : s.drag with
  | none => rfl
  | some d =>
    have hedge := h.drag d hd
    rw [wiring] at hedge
    dsimp only at hedge
    rw [connector?, hnone] at hedge
    cases hedge

/-- Every node goes, with every connector and the drag. -/
theorem empty_removeAll (h : s.Intact) :
    s.removeAll.nodes = .empty ∧ s.removeAll.connectors = .empty ∧ s.removeAll.drag = none := by
  obtain ⟨hmoves, hnone⟩ := moves_removeAll h
  have hempty := connectors_of_no_nodes (h.moves hmoves) hnone
  have hkeys : s.removeAll.nodes.keys = [] := by
    refine List.eq_nil_iff_forall_not_mem.2 fun id hid => ?_
    obtain ⟨n, hn⟩ := Option.isSome_iff_exists.1 ((OrderedMap.mem_keys_iff _ id).1 hid)
    have hbody := hnone id
    rw [body?, show s.removeAll.node? id = some n from hn] at hbody
    cases hbody
  refine ⟨congrArg OrderedMap.mk (List.map_eq_nil_iff.1 hkeys), hempty, ?_⟩
  exact drag_of_no_connectors (h.moves hmoves) hempty

/-- In a session that has just been restored every edge is accepted. -/
theorem accepted_restore (h : s.Typed) (palette : Palette) (program : Program) :
    (s.restore palette program).2.Accepted := by
  have hcleared := h.moves (moves_removeAll h.intact).1
  have hregistered := hcleared.moves (moves_registerVariables s.removeAll program.variableTypes)
  have hnone : (Restore.registerVariables s.removeAll program.variableTypes).connectors = .empty := by
    obtain ⟨known, heq, -⟩ := registerVariables_eq s.removeAll program.variableTypes
    rw [heq]
    rfl
  have hspawned := connectors_spawnAll (drag_of_no_connectors hregistered.intact hnone) palette
    ⟨.empty, [], 0⟩ (Restore.firstRecords program.records)
  refine accepted_connectAll _ (hregistered.moves (moves_spawnAll hregistered.intact palette _ _)) ?_ _
  rintro c p r ⟨k, hk, -⟩
  rw [connector?, hspawned, hnone] at hk
  cases hk

end Restoring

/-! ## Operations -/

/-- The operation changes the type of a plug that belongs to a sum, by taking away an edge into one of its
inputs, or to a reader, by setting its name. -/
def Retypes (s : Session) (o : Operation) (p : PlugRef) : Prop :=
  s.Loses (s.apply o) p.node ∨
    s.kindOf p.node = some .variableRead ∧ ∃ value, o = .setValue ⟨p.node, .data, 0⟩ value

section Operations
variable {s : Session}

theorem Keeps.mono {t : Session} {retyped retyped' : PlugRef → Prop} (h : s.Keeps t retyped)
    (himp : ∀ p, retyped p → retyped' p) : s.Keeps t retyped' := fun c p r hc =>
  (h c p r hc).imp_right fun hold => ⟨hold.1, fun haccepts => himp p (hold.2 haccepts)⟩

theorem apply_connect_ok {p : PlugRef} {r : SocketRef} {made : ConnectorId × Session}
    (h : s.connect p r = .ok made) : s.apply (.connect p r) = made.2 := by
  unfold apply perform
  dsimp only
  rw [h]

theorem apply_connect_error {p : PlugRef} {r : SocketRef} {e : ConnectionError}
    (h : s.connect p r = .error e) : s.apply (.connect p r) = s := by
  unfold apply perform
  dsimp only
  rw [h]

/-- What an operation does to the edges: it drops some, it makes one, it stores a constant, or it replaces them
all. -/
inductive Effect (s : Session) : Operation → Session → Prop
  | thins {o : Operation} {t : Session} (h : s.Thins t) : Effect s o t
  | connects {p : PlugRef} {r : SocketRef} {c : ConnectorId} {t : Session} (h : s.connect p r = .ok (c, t)) :
    Effect s (.connect p r) t
  | releases {o : Operation} {d : Drag} {r : SocketRef} (hd : s.drag = some d)
    (h : ({ s with drag := none }.resetRadius r).validate d.plug r = .ok ()) :
    Effect s o (({ s with drag := none }.resetRadius r).link d.connector r)
  | stores (a : SocketRef) (value : Option Literal) : Effect s (.setValue a value) (s.setValue a value).2
  | restores (palette : Palette) (program : Program) :
    Effect s (.restore palette program) (s.restore palette program).2

theorem effect_endDrag (h : s.Intact) (o : Operation) : s.Effect o s.endDrag.2 := by
  unfold endDrag
  split
  · exact .thins (Thins.refl s)
  · rename_i d hd
    have hdiscard := thins_discardDrag h hd
    split
    · exact .thins hdiscard
    · rename_i r hr
      dsimp only
      split
      · rename_i hok
        exact .releases hd hok
      · rw [discardDrag, hr] at hdiscard
        exact .thins hdiscard

theorem effect_apply (h : s.Intact) {o : Operation} (ho : o.Public) : s.Effect o (s.apply o) := by
  cases o with
  | spawn kind position scale => exact .thins (thins_spawn h kind position scale)
  | addNode id node => cases ho
  | moveNode id position =>
    exact .thins (.of_quiet (s.quiet_moveNode id position) (s.typing?_moveNode id position))
  | setScale id scale => exact .thins (.of_quiet (s.quiet_setScale id scale) (s.typing?_setScale id scale))
  | emitMove id => exact .thins (.of_quiet (s.quiet_emitMove id) (s.typing?_emitMove id))
  | bringToFront id => exact .thins (.of_quiet (s.quiet_bringToFront id) (s.typing?_bringToFront id))
  | clearConnections id => exact .thins (thins_clearConnections h id)
  | removeNode id => exact .thins (thins_removeNode h id)
  | removeAll =>
    refine .thins (.of_typing ?_ ?_) <;>
    · rintro c p r ⟨k, hk, -⟩
      cases hk
  | selectVariant id variant => exact .thins (thins_selectVariant h id variant)
  | setValue a value => exact .stores a value
  | registerVariable name type =>
    exact .thins (.of_quiet (s.quiet_registerVariable name type) (s.typing?_registerVariable name type))
  | setStyle style => exact .thins (.of_quiet (s.quiet_setStyle style) (s.typing?_setStyle style))
  | toggleStyle => exact .thins (.of_quiet (s.quiet_setStyle _) (s.typing?_setStyle _))
  | connect p r =>
    cases hok : s.connect p r with
    | ok made =>
      rw [apply_connect_ok hok]
      exact .connects hok
    | error e =>
      rw [apply_connect_error hok]
      exact .thins (Thins.refl s)
  | disconnect id => exact .thins (thins_disconnect h id)
  | reconnect id position => exact .thins (thins_reconnect h id position)
  | beginDrag p position => exact .thins (thins_beginDrag s p position)
  | updateDrag position =>
    exact .thins (.of_quiet (s.quiet_updateDrag position) (s.typing?_updateDrag position))
  | endDrag => exact effect_endDrag h _
  | cancelDrag => exact .thins (thins_cancelDrag h)
  | pointer event =>
    cases event with
    | press target position =>
      cases target with
      | plug p => exact .thins (thins_beginDrag s p position)
      | connector id => exact .thins (thins_reconnect h id position)
      | canvas => exact .thins (Thins.refl s)
    | move position =>
      exact .thins (.of_quiet (s.quiet_updateDrag position) (s.typing?_updateDrag position))
    | release => exact effect_endDrag h _
  | restore palette program => exact .restores palette program

/-- What an operation keeps is accepted, unless it was not before or the operation retypes the plug. -/
theorem keeps_apply (h : s.Typed) (o : Operation) (ho : o.Public) : s.Keeps (s.apply o) (s.Retypes o) := by
  have hmoves := moves_apply h.intact o ho
  have heffect := effect_apply h.intact ho
  unfold Retypes
  generalize s.apply o = t at hmoves heffect
  cases heffect with
  | thins hthins => exact (hthins.keeps h.shaped (h.moves hmoves).shaped).mono fun _ => Or.inl
  | connects hok => exact (h.keeps_connect hok).mono fun _ hfalse => hfalse.elim
  | releases hd hok => exact (h.keeps_release hd hok).mono fun _ hfalse => hfalse.elim
  | stores a value =>
    refine (keeps_setValue h.shaped a value).mono ?_
    rintro p ⟨hkind, rfl⟩
    exact Or.inr ⟨hkind, value, rfl⟩
  | restores palette program => exact fun c p r hc => Or.inl (accepted_restore h palette program c p r hc)

end Operations

/-! ## Runs -/

/-- An edge is accepted up to an operation that retypes its plug, and refused by its socket ever since. It
stays on its socket all the time. -/
structure Spoils (s : Session) (o : Operation) (after : List Operation) (c : ConnectorId) (p : PlugRef)
    (r : SocketRef) : Prop where
  joined : s.Joins c p r
  accepted : s.Accepts p r
  retyped : s.Retypes o p
  refused : ∀ mid, mid <+: after →
    ((s.apply o).applyAll mid).Joins c p r ∧ ¬((s.apply o).applyAll mid).Accepts p r

theorem applyAll_append (s : Session) (before after : List Operation) (o : Operation) :
    s.applyAll (before ++ o :: after) = ((s.applyAll before).apply o).applyAll after := by
  rw [applyAll, List.foldl_append]
  rfl

theorem applyAll_concat (s : Session) (os : List Operation) (o : Operation) :
    s.applyAll (os ++ [o]) = (s.applyAll os).apply o := s.applyAll_append os [] o

theorem Reached.apply {s : Session} (h : s.Reached) {o : Operation} (ho : o.Public) : (s.apply o).Reached := by
  obtain ⟨settings, os, hos, rfl⟩ := h
  refine ⟨settings, os ++ [o], fun o' ho' => ?_, (applyAll_concat _ os o).symm⟩
  obtain hin | hin := List.mem_append.1 ho'
  · exact hos o' hin
  · exact List.mem_singleton.1 hin ▸ ho

theorem Typed.applyAll {s : Session} (h : s.Typed) {os : List Operation} (hos : ∀ o ∈ os, o.Public) :
    (s.applyAll os).Typed := h.moves (moves_applyAll h.intact os hos)

/-- After any run, an edge is accepted unless an operation of the run has spoiled it. -/
theorem accepted_or_spoiled (settings : Settings) (os : List Operation) (hos : ∀ o ∈ os, o.Public)
    (c : ConnectorId) (p : PlugRef) (r : SocketRef) (hc : ((new settings).applyAll os).Joins c p r) :
    ((new settings).applyAll os).Accepts p r ∨
      ∃ before o after, os = before ++ o :: after ∧
        ((new settings).applyAll before).Spoils o after c p r := by
  induction os using List.reverseRecOn with
  | nil =>
    obtain ⟨k, hk, -⟩ := hc
    cases hk
  | append_singleton os o ih =>
    have hbefore : ∀ o ∈ os, o.Public := fun o ho => hos o (List.mem_append_left _ ho)
    have ht := (typed_new settings).applyAll hbefore
    rw [applyAll_concat] at hc ⊢
    by_cases haccepts : (((new settings).applyAll os).apply o).Accepts p r
    · exact Or.inl haccepts
    · right
      have hpublic : o.Public := hos o (List.mem_append_right _ List.mem_cons_self)
      obtain hnow | ⟨hold, hretypes⟩ := keeps_apply ht o hpublic c p r hc
      · exact absurd hnow haccepts
      · by_cases hwas : ((new settings).applyAll os).Accepts p r
        · refine ⟨os, o, [], rfl, hold, hwas, hretypes hwas, fun mid hmid => ?_⟩
          rw [List.prefix_nil.1 hmid]
          exact ⟨hc, haccepts⟩
        · obtain hnow | ⟨before, u, after, rfl, hspoils⟩ := ih hbefore hold
          · exact absurd hnow hwas
          · refine ⟨before, u, after ++ [o], by simp, { hspoils with refused := fun mid hmid => ?_ }⟩
            obtain rfl | hmid := List.prefix_concat_iff.1 hmid
            · rw [applyAll_concat, ← applyAll_append]
              exact ⟨hc, haccepts⟩
            · exact hspoils.refused mid hmid

/-- A sum of two sizes is multiplied, and then one of its inputs is dropped. -/
def loosenedSum : List Operation :=
  [.spawn .screenSize .origin 1.0, .spawn .generalAddition .origin 1.0, .spawn .multiplication .origin 1.0,
    .connect ⟨⟨0⟩, .data, 0⟩ ⟨⟨1⟩, .data, 0⟩, .connect ⟨⟨0⟩, .data, 1⟩ ⟨⟨1⟩, .data, 1⟩,
    .connect ⟨⟨1⟩, .data, 0⟩ ⟨⟨2⟩, .data, 0⟩, .disconnect ⟨1⟩]

/-- A number is read and multiplied, and then the reader is given the name of no variable. -/
def renamedReader : List Operation :=
  [.registerVariable "score" .num, .spawn .variableRead .origin 1.0, .spawn .multiplication .origin 1.0,
    .setValue ⟨⟨0⟩, .data, 0⟩ (some (.text "score")), .connect ⟨⟨0⟩, .data, 0⟩ ⟨⟨1⟩, .data, 0⟩,
    .setValue ⟨⟨0⟩, .data, 0⟩ (some (.text "level"))]

theorem not_accepts_of_types {s : Session} {p : PlugRef} {r : SocketRef} {a b : PortType}
    (hs : s.Shaped) (ha : s.outputType? p = some a) (hb : s.inputType? r = some b)
    (hrefused : b.accepts a = false) : ¬s.Accepts p r := by
  intro haccepts
  obtain ⟨a', b', ha', hb', htrue⟩ := (accepts_iff hs).1 haccepts
  rw [ha] at ha'
  rw [hb] at hb'
  obtain rfl := Option.some.inj ha'
  obtain rfl := Option.some.inj hb'
  rw [hrefused] at htrue
  cases htrue

theorem reached_loosenedSum : ((new .standard).applyAll loosenedSum).Reached :=
  ⟨.standard, loosenedSum, by simp [loosenedSum, Operation.Public], rfl⟩

theorem reached_renamedReader : ((new .standard).applyAll renamedReader).Reached :=
  ⟨.standard, renamedReader, by simp [renamedReader, Operation.Public], rfl⟩

theorem joins_loosenedSum :
    ((new .standard).applyAll loosenedSum).Joins ⟨2⟩ ⟨⟨1⟩, .data, 0⟩ ⟨⟨2⟩, .data, 0⟩ :=
  ⟨_, rfl, rfl, rfl⟩

theorem not_accepts_loosenedSum :
    ¬((new .standard).applyAll loosenedSum).Accepts ⟨⟨1⟩, .data, 0⟩ ⟨⟨2⟩, .data, 0⟩ :=
  not_accepts_of_types (a := .any) (b := .num) reached_loosenedSum.shaped rfl rfl rfl

/-- In two sessions that are reached an edge leads to a socket that does not accept its plug. -/
theorem not_accepted_retyped :
    (((new .standard).applyAll loosenedSum).Reached ∧ ¬((new .standard).applyAll loosenedSum).Accepted) ∧
      ((new .standard).applyAll renamedReader).Reached ∧
        ¬((new .standard).applyAll renamedReader).Accepted := by
  refine ⟨⟨reached_loosenedSum, fun h => ?_⟩, reached_renamedReader, fun h => ?_⟩
  · exact not_accepts_loosenedSum (h _ _ _ joins_loosenedSum)
  · have hjoins : ((new .standard).applyAll renamedReader).Joins ⟨0⟩ ⟨⟨0⟩, .data, 0⟩ ⟨⟨1⟩, .data, 0⟩ :=
      ⟨_, rfl, rfl, rfl⟩
    have hrefused : ¬((new .standard).applyAll renamedReader).Accepts ⟨⟨0⟩, .data, 0⟩ ⟨⟨1⟩, .data, 0⟩ :=
      not_accepts_of_types (a := .any) (b := .num) reached_renamedReader.shaped rfl rfl rfl
    exact hrefused (h _ _ _ hjoins)

/-- The edge out of the sum was accepted until the sum lost its input. -/
theorem spoiled_loosenedSum : ∃ before o after, loosenedSum = before ++ o :: after ∧
    ((new .standard).applyAll before).Spoils o after ⟨2⟩ ⟨⟨1⟩, .data, 0⟩ ⟨⟨2⟩, .data, 0⟩ :=
  (accepted_or_spoiled .standard loosenedSum (by simp [loosenedSum, Operation.Public]) ⟨2⟩ _ _
    joins_loosenedSum).resolve_left not_accepts_loosenedSum

end Session
end FlowGraph
