import FlowGraph.Program.Restore
import FlowGraph.Program.Snapshot
import FlowGraph.Proofs.Node.Shape

/-! # How types settle while edges are made again

A restored session starts with nodes of which no adapting sum knows the types of its inputs. Each edge
into a sum hands on the type that its plug has at that moment, and the plug of the sum follows. This
module describes that process on the saved session alone: which type each input of a sum ends up with
when the edges are made in a given order, and which edges are refused on the way.
-/

namespace FlowGraph
set_option autoImplicit false

/-! ## Types of plugs and sockets -/

namespace PortType

theorem highest?_mem {l : List PortType} {t : PortType} (h : highest? l = some t) : t ∈ l := by
  induction l generalizing t with
  | nil => cases h
  | cons u us ih =>
    rw [highest?] at h
    split at h
    · obtain rfl := Option.some.inj h
      exact List.mem_cons_self
    · rename_i v hv
      split at h
      · obtain rfl := Option.some.inj h
        exact List.mem_cons_self
      · obtain rfl := Option.some.inj h
        exact List.mem_cons_of_mem _ (ih hv)

theorem rank_le_highest? {l : List PortType} {t u : PortType} (h : highest? l = some t) (hu : u ∈ l) :
    u.rank ≤ t.rank := by
  induction l generalizing t u with
  | nil => cases h
  | cons v vs ih =>
    rw [highest?] at h
    split at h
    · rename_i hnone
      obtain rfl := Option.some.inj h
      obtain rfl | hu := List.mem_cons.1 hu
      · exact Int.le_refl _
      · have hsome := highest?_isSome (List.ne_nil_of_mem hu)
        rw [hnone] at hsome
        cases hsome
    · rename_i w hw
      obtain rfl := Option.some.inj h
      obtain rfl | hu := List.mem_cons.1 hu
      · split <;> omega
      · have hle := ih hw hu
        split <;> omega

theorem eq_any_of_rank {t : PortType} (hdata : t ≠ .connect) (h : PortType.any.rank ≤ t.rank) :
    t = .any := by
  cases t <;> first | rfl | exact absurd rfl hdata | exact absurd h (by decide)

theorem accepts_any_iff {t : PortType} : PortType.accepts .any t = true ↔ t ≠ .connect := by
  cases t <;> decide

theorem accepts_of_any {t u : PortType} (h : t.accepts .any = true) (hu : u ≠ .connect) :
    t.accepts u = true := by
  have ht : t = .any := by
    cases t <;> first | rfl | exact absurd h (by decide)
  rw [ht]
  exact accepts_any_iff.2 hu

end PortType

namespace Session

/-- Whether the socket is an input of an adapting sum. -/
def adaptive (s : Session) (r : SocketRef) : Bool :=
  ((s.node? r.node).map fun n => n.kind.adapts r.kind).getD false

/-- The type of a socket while nothing is connected to it. -/
def openType (s : Session) (r : SocketRef) : PortType :=
  ((s.node? r.node).bind fun n =>
    (n.frame.socket? r.kind r.index).map (n.kind.bareType r.kind)).getD .any

/-- The type that a variable reader has as long as no edge is made: that of the variable which its
constant names. The constant is not saved while an edge feeds the socket. -/
def namedType (s : Session) (n : Node) : PortType :=
  match n.frame.dataSockets with
  | t :: _ =>
    if (s.feeder? t).isSome then .any
    else ((t.value.bind Literal.text?).bind s.toProgram.variableTypes.get?).getD .any
  | [] => .any

/-- The type that a plug has in the restored session while the inputs of the sums have given types. -/
def restoredType (s : Session) (types : SocketRef → PortType) (p : PlugRef) : PortType :=
  match s.node? p.node with
  | none => .any
  | some n =>
    match n.kind, p.kind with
    | .generalAddition, .data =>
      let inputs := (List.range n.frame.dataSockets.length).map fun i => ⟨p.node, .data, i⟩
      (PortType.highest? (inputs.map types)).getD .any
    | .variableRead, .data => s.namedType n
    | _, _ => ((n.frame.plug? p.kind p.index).map (·.type)).getD .any

/-- Whether an edge can be made while the inputs of the sums have given types. -/
def takes (s : Session) (types : SocketRef → PortType) (e : PendingEdge) : Bool :=
  (s.openType e.socket).accepts (s.restoredType types e.plug)

/-- The types after an edge has been tried: one that is made hands its type on to a sum. -/
def settle (s : Session) (types : SocketRef → PortType) (e : PendingEdge) : SocketRef → PortType :=
  if s.takes types e && s.adaptive e.socket then fun r =>
    if r = e.socket then s.restoredType types e.plug else types r
  else types

/-- The types after several edges have been tried, one after the other. -/
def settleAll (s : Session) (types : SocketRef → PortType) (es : List PendingEdge) :
    SocketRef → PortType :=
  es.foldl s.settle types

/-- The edges that are refused when several are tried, one after the other. -/
def refusedBy (s : Session) (types : SocketRef → PortType) : List PendingEdge → List PendingEdge
  | [] => []
  | e :: rest =>
    if s.takes types e then s.refusedBy (s.settle types e) rest else e :: s.refusedBy types rest

/-! ## What inputs may carry -/

/-- No input carries control order. -/
def DataTypes (types : SocketRef → PortType) : Prop := ∀ r, types r ≠ .connect

/-- The second types agree with the first wherever these are known. -/
def Refines (types types' : SocketRef → PortType) : Prop := ∀ r, types r = .any ∨ types' r = types r

theorem Refines.refl (types : SocketRef → PortType) : Refines types types := fun _ => Or.inr rfl

theorem Refines.trans {a b c : SocketRef → PortType} (h : Refines a b) (h' : Refines b c) :
    Refines a c := by
  intro r
  obtain hany | hsame := h r
  · exact Or.inl hany
  · obtain hany' | hsame' := h' r
    · exact Or.inl (hsame.symm.trans hany')
    · exact Or.inr (hsame'.trans hsame)

section Types
variable {s : Session} {types types' : SocketRef → PortType}

theorem adaptive_of_node? {r : SocketRef} {n : Node} (hn : s.node? r.node = some n) :
    s.adaptive r = n.kind.adapts r.kind := by
  rw [adaptive, hn]
  rfl

theorem openType_of_adaptive {r : SocketRef} (h : s.adaptive r = true) : s.openType r = .any := by
  unfold adaptive at h
  unfold openType
  cases hn : s.node? r.node with
  | none => rfl
  | some n =>
    rw [hn] at h
    have hadapts : n.kind.adapts r.kind = true := h
    rw [Option.bind_some]
    cases n.frame.socket? r.kind r.index with
    | none => rfl
    | some t =>
      rw [Option.map_some, Option.getD_some, NodeKind.bareType, if_pos hadapts]

theorem kind_of_adaptive {r : SocketRef} (h : s.adaptive r = true) : r.kind = .data := by
  unfold adaptive at h
  cases hn : s.node? r.node with
  | none =>
    rw [hn] at h
    cases h
  | some n =>
    rw [hn] at h
    exact (NodeKind.adapts_iff.1 h).2

/-- A plug has a type of its own, or the highest type among some inputs. -/
theorem restoredType_cases (s : Session) (p : PlugRef) :
    (∃ t, ∀ types, s.restoredType types p = t) ∨
      ∃ inputs : List SocketRef, ∀ types,
        s.restoredType types p = (PortType.highest? (inputs.map types)).getD .any := by
  unfold restoredType
  split
  · exact Or.inl ⟨_, fun _ => rfl⟩
  · split
    · exact Or.inr ⟨_, fun _ => rfl⟩
    · exact Or.inl ⟨_, fun _ => rfl⟩
    · exact Or.inl ⟨_, fun _ => rfl⟩

theorem highest_ne_connect (hdata : DataTypes types) (inputs : List SocketRef) :
    (PortType.highest? (inputs.map types)).getD .any ≠ .connect := by
  cases hh : PortType.highest? (inputs.map types) with
  | none =>
    intro hc
    cases hc
  | some t =>
    obtain ⟨r, -, rfl⟩ := List.mem_map.1 (PortType.highest?_mem hh)
    exact hdata r

/-- An output that is known does not change when more inputs become known. -/
theorem highest_refines (hdata : DataTypes types) (href : Refines types types')
    (inputs : List SocketRef) :
    (PortType.highest? (inputs.map types)).getD .any = .any ∨
      (PortType.highest? (inputs.map types')).getD .any =
        (PortType.highest? (inputs.map types)).getD .any := by
  by_cases hany : PortType.any ∈ inputs.map types
  · left
    cases hh : PortType.highest? (inputs.map types) with
    | none => rfl
    | some t =>
      have hne := highest_ne_connect hdata inputs
      rw [hh] at hne
      exact PortType.eq_any_of_rank hne (PortType.rank_le_highest? hh hany)
  · right
    have hsame : inputs.map types' = inputs.map types := by
      refine List.map_congr_left fun r hr => ?_
      obtain hr' | hr' := href r
      · exact absurd (hr' ▸ List.mem_map_of_mem hr) hany
      · exact hr'
    rw [hsame]

/-- Whether an edge into a sum can be made does not depend on the types that are known so far. -/
theorem takes_adaptive {e : PendingEdge} (h : s.adaptive e.socket = true) (hdata : DataTypes types)
    (hdata' : DataTypes types') : s.takes types e = s.takes types' e := by
  unfold takes
  obtain ⟨t, ht⟩ | ⟨inputs, hi⟩ := restoredType_cases s e.plug
  · rw [ht, ht]
  · have hone := PortType.accepts_any_iff.2 (highest_ne_connect hdata inputs)
    have htwo := PortType.accepts_any_iff.2 (highest_ne_connect hdata' inputs)
    rw [openType_of_adaptive h, hi, hi, hone, htwo]

/-- An edge that can be made can still be made when more inputs are known. -/
theorem takes_refines {e : PendingEdge} (hdata : DataTypes types) (hdata' : DataTypes types')
    (href : Refines types types') (h : s.takes types e = true) : s.takes types' e = true := by
  unfold takes at h ⊢
  obtain ⟨t, ht⟩ | ⟨inputs, hi⟩ := restoredType_cases s e.plug
  · rw [ht] at h ⊢
    exact h
  · rw [hi] at h ⊢
    obtain hany | hsame := highest_refines hdata href inputs
    · rw [hany] at h
      exact PortType.accepts_of_any h (highest_ne_connect hdata' inputs)
    · rw [hsame]
      exact h

end Types

end Session

/-! ## Trying edges one after the other -/

/-- The edges do not exclude each other: they share no data socket and are not the same edge. -/
def PendingEdge.Apart (e f : PendingEdge) : Prop :=
  e.socket = f.socket → e.socket.kind ≠ .data ∧ e.plug ≠ f.plug

theorem PendingEdge.Apart.symm {e f : PendingEdge} (h : e.Apart f) : f.Apart e := by
  intro hsame
  obtain ⟨hkind, hplug⟩ := h hsame.symm
  rw [hsame]
  exact ⟨hkind, hplug.symm⟩

namespace Session

/-- The inputs of sums to which the edges lead are not known yet. -/
def Unsettled (s : Session) (types : SocketRef → PortType) (es : List PendingEdge) : Prop :=
  ∀ e ∈ es, s.adaptive e.socket = true → types e.socket = .any

section Single
variable {s : Session} {types : SocketRef → PortType} {e f : PendingEdge}

theorem settle_of_refused (h : s.takes types e = false) : s.settle types e = types := by
  unfold settle
  rw [h, Bool.false_and, if_neg Bool.false_ne_true]

theorem settle_of_fixed (h : s.adaptive e.socket = false) : s.settle types e = types := by
  unfold settle
  rw [h, Bool.and_false, if_neg Bool.false_ne_true]

theorem data_settle (h : DataTypes types) : DataTypes (s.settle types e) := by
  unfold settle
  split
  · rename_i hmade
    obtain ⟨htakes, hadaptive⟩ := Bool.and_eq_true_iff.1 hmade
    rw [takes, openType_of_adaptive hadaptive] at htakes
    intro r
    dsimp only
    split
    · exact PortType.accepts_any_iff.1 htakes
    · exact h r
  · exact h

theorem settle_apart (h : e.Apart f) : s.settle types e f.socket = types f.socket := by
  unfold settle
  split
  · rename_i hmade
    have hdata := kind_of_adaptive (Bool.and_eq_true_iff.1 hmade).2
    exact if_neg fun hsame => (h hsame.symm).1 hdata
  · rfl

theorem refines_settle (h : s.adaptive e.socket = true → types e.socket = .any) :
    Refines types (s.settle types e) := by
  intro r
  unfold settle
  split
  · rename_i hmade
    by_cases hr : r = e.socket
    · left
      rw [hr]
      exact h (Bool.and_eq_true_iff.1 hmade).2
    · right
      exact if_neg hr
  · exact Or.inr rfl

end Single

section Runs
variable {s : Session} {types : SocketRef → PortType} {es : List PendingEdge}

theorem data_settleAll (h : DataTypes types) (es : List PendingEdge) :
    DataTypes (s.settleAll types es) := by
  induction es generalizing types with
  | nil => exact h
  | cons e rest ih => exact ih (data_settle h)

theorem unsettled_tail {e : PendingEdge} (h : s.Unsettled types (e :: es)) (ha : ∀ f ∈ es, e.Apart f) :
    s.Unsettled (s.settle types e) es := by
  intro f hf hadaptive
  rw [settle_apart (ha f hf)]
  exact h f (List.mem_cons_of_mem _ hf) hadaptive

theorem refines_settleAll (h : s.Unsettled types es) (ha : es.Pairwise PendingEdge.Apart) :
    Refines types (s.settleAll types es) := by
  induction es generalizing types with
  | nil => exact Refines.refl types
  | cons e rest ih =>
    obtain ⟨hhead, htail⟩ := List.pairwise_cons.1 ha
    exact (refines_settle (h e List.mem_cons_self)).trans (ih (unsettled_tail h hhead) htail)

theorem settleAll_apart {f : PendingEdge} (ha : ∀ e ∈ es, e.Apart f) :
    s.settleAll types es f.socket = types f.socket := by
  induction es generalizing types with
  | nil => rfl
  | cons e rest ih =>
    have hrest : s.settleAll (s.settle types e) rest f.socket = s.settle types e f.socket :=
      ih fun g hg => ha g (List.mem_cons_of_mem _ hg)
    exact hrest.trans (settle_apart (ha e List.mem_cons_self))

theorem refusedBy_sublist (s : Session) (types : SocketRef → PortType) (es : List PendingEdge) :
    (s.refusedBy types es).Sublist es := by
  induction es generalizing types with
  | nil => exact List.Sublist.slnil
  | cons e rest ih =>
    unfold refusedBy
    split
    · exact (ih _).cons e
    · exact (ih _).cons_cons e

/-- The edges that the final types do not admit are among those that are refused. -/
theorem filter_refusedBy (hdata : DataTypes types) (hopen : s.Unsettled types es)
    (ha : es.Pairwise PendingEdge.Apart) :
    (s.refusedBy types es).filter (!s.takes (s.settleAll types es) ·) =
      es.filter (!s.takes (s.settleAll types es) ·) := by
  induction es generalizing types with
  | nil => rfl
  | cons e rest ih =>
    obtain ⟨hhead, htail⟩ := List.pairwise_cons.1 ha
    have hfinal : s.settleAll types (e :: rest) = s.settleAll (s.settle types e) rest := rfl
    cases ht : s.takes types e with
    | true =>
      have href := refines_settleAll hopen ha
      have hkept := takes_refines hdata (data_settleAll hdata (e :: rest)) href ht
      have hrest := ih (data_settle hdata) (unsettled_tail hopen hhead) htail
      rw [← hfinal] at hrest
      rw [refusedBy, if_pos ht, List.filter_cons_of_neg (by rw [hkept]; decide), hrest]
    | false =>
      have hsame := settle_of_refused ht
      have hrest := ih hdata (fun f hf => hopen f (List.mem_cons_of_mem _ hf)) htail
      rw [hfinal, hsame, refusedBy, ht, if_neg Bool.false_ne_true, List.filter_cons, List.filter_cons,
        hrest]

/-- An edge into a sum that is refused once is refused for good. -/
theorem refused_adaptive {e : PendingEdge} (he : e ∈ s.refusedBy types es)
    (hadaptive : s.adaptive e.socket = true) (hdata : DataTypes types)
    {types' : SocketRef → PortType} (hdata' : DataTypes types') : s.takes types' e = false := by
  induction es generalizing types with
  | nil => cases he
  | cons f rest ih =>
    unfold refusedBy at he
    split at he
    · exact ih he (data_settle hdata)
    · rename_i hf
      obtain rfl | he := List.mem_cons.1 he
      · rw [takes_adaptive hadaptive hdata' hdata]
        exact Bool.eq_false_iff.2 hf
      · exact ih he hdata

/-- What is refused leaves its input open. -/
theorem unsettled_refusedBy (hopen : s.Unsettled types es) (ha : es.Pairwise PendingEdge.Apart) :
    s.Unsettled (s.settleAll types es) (s.refusedBy types es) := by
  induction es generalizing types with
  | nil =>
    intro e he
    cases he
  | cons e rest ih =>
    obtain ⟨hhead, htail⟩ := List.pairwise_cons.1 ha
    have hrest := ih (unsettled_tail hopen hhead) htail
    intro f hf hadaptive
    unfold refusedBy at hf
    split at hf
    · exact hrest f hf hadaptive
    · rename_i ht
      have hsame := settle_of_refused (Bool.eq_false_iff.2 ht)
      obtain rfl | hf := List.mem_cons.1 hf
      · have hstays : s.settleAll (s.settle types f) rest f.socket = types f.socket := by
          rw [hsame]
          exact settleAll_apart fun g hg => (hhead g hg).symm
        exact hstays.trans (hopen f List.mem_cons_self hadaptive)
      · rw [hsame] at hrest
        have hfinal : s.settleAll types (e :: rest) = s.settleAll types rest :=
          congrArg (s.settleAll · rest) hsame
        rw [hfinal]
        exact hrest f hf hadaptive

/-- The types stay as they are when no edge into a sum can be made. -/
theorem settleAll_stable (h : ∀ e ∈ es, s.adaptive e.socket = true → s.takes types e = false) :
    s.settleAll types es = types := by
  induction es with
  | nil => rfl
  | cons e rest ih =>
    have hhead : s.settle types e = types := by
      cases hadaptive : s.adaptive e.socket with
      | true => exact settle_of_refused (h e List.mem_cons_self hadaptive)
      | false => exact settle_of_fixed hadaptive
    have hrest := ih fun f hf => h f (List.mem_cons_of_mem _ hf)
    exact (congrArg (s.settleAll · rest) hhead).trans hrest

/-- When all edges are refused, the types they meet are those that they leave behind. -/
theorem refusedBy_all (h : (s.refusedBy types es).length = es.length) :
    s.settleAll types es = types ∧ ∀ e ∈ es, s.takes types e = false := by
  induction es with
  | nil => exact ⟨rfl, fun e he => by cases he⟩
  | cons e rest ih =>
    cases ht : s.takes types e with
    | true =>
      rw [refusedBy, if_pos ht, List.length_cons] at h
      have hle := (refusedBy_sublist s (s.settle types e) rest).length_le
      omega
    | false =>
      rw [refusedBy, ht, if_neg Bool.false_ne_true, List.length_cons, List.length_cons] at h
      obtain ⟨htypes, hrest⟩ := ih (Nat.succ.inj h)
      refine ⟨(congrArg (s.settleAll · rest) (settle_of_refused ht)).trans htypes, fun f hf => ?_⟩
      obtain rfl | hf := List.mem_cons.1 hf
      · exact ht
      · exact hrest f hf

end Runs

end Session
end FlowGraph
