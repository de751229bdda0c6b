import FlowGraph.Proofs.Node.Undone

/-! # Nodes that lose connectors

What is left of a node when some connectors are taken off it, all at once: they leave the lists of the ports
and of the followers, and a node that has lost a connector at an input reacts to it. Taking them off one
after the other comes to the same.
-/

namespace FlowGraph
set_option autoImplicit false

/-! ## Ports -/

/-- Whether one of the connectors arrives at the socket. -/
def Socket.loses (ids : List ConnectorId) (t : Socket) : Bool := t.incoming.any (· ∈ ids)

/-- The socket without the connectors. If it had any of them it shows its editor again, and takes any type
if it is one that adapts. -/
def Socket.shed (adapts : Bool) (ids : List ConnectorId) (t : Socket) : Socket :=
  if t.loses ids then
    ({ t with incoming := t.incoming.filter (· ∉ ids) }.adapted adapts .any).showEditor true
  else t

/-- The plug without the connectors. -/
def Plug.shed (ids : List ConnectorId) (p : Plug) : Plug :=
  { p with connected := p.connected.filter (· ∉ ids) }

/-- The node without the connectors. Its branches and its output change only if a connector is taken off one
of its inputs: a condition previews its constant again, and a sum settles its output anew. -/
def Node.shed (ids : List ConnectorId) (n : Node) : Node :=
  let f := n.frame
  let lost := f.dataSockets.any (·.loses ids)
  let inputs := f.dataSockets.map (Socket.shed (n.kind.adapts .data) ids)
  let branches := f.flowPlugs.map (Plug.shed ids)
  let outputs := f.dataPlugs.map (Plug.shed ids)
  { n with frame :=
    { f with
      flowSockets := f.flowSockets.map (Socket.shed (n.kind.adapts .flow) ids)
      dataSockets := inputs
      flowPlugs := if lost && n.kind = .condition then Plug.previewed f.simulated branches else branches
      dataPlugs := if lost && n.kind.adapts .data then Plug.summed (inputs.map (·.type)) outputs else outputs
      dependents := f.dependents.filter (· ∉ ids) } }

/-! ## Lists of connectors -/

section Lists
variable (ids more : List ConnectorId)

theorem filter_of_disjoint {l : List ConnectorId} (h : ∀ c ∈ l, c ∉ ids) : l.filter (· ∉ ids) = l :=
  List.filter_eq_self.2 fun c hc => decide_eq_true (h c hc)

theorem filter_filter_append (l : List ConnectorId) :
    (l.filter (· ∉ ids)).filter (· ∉ more) = l.filter (· ∉ ids ++ more) := by
  rw [List.filter_filter]
  refine List.filter_congr fun c _ => ?_
  simp [Bool.and_comm]

theorem filter_not_mem_singleton (c : ConnectorId) (l : List ConnectorId) :
    l.filter (· ∉ [c]) = l.filter (· ≠ c) := by
  refine List.filter_congr fun d _ => ?_
  simp

/-- A change of one item is a change of all if it would do nothing to the others. -/
theorem modify_eq_map {α : Type} {l : List α} {i : Nat} {f g : α → α} (hat : ∀ a, l[i]? = some a → f a = g a)
    (hoff : ∀ j a, j ≠ i → l[j]? = some a → g a = a) : l.modify i f = l.map g := by
  refine List.ext_getElem? fun j => ?_
  rw [List.getElem?_modify, List.getElem?_map]
  cases ha : l[j]? with
  | none => rfl
  | some a =>
    split
    · rename_i hj
      exact congrArg some (hat a (hj ▸ ha))
    · rename_i hj
      exact congrArg some (hoff j a (Ne.symm hj) ha).symm

end Lists

/-! ## Sockets -/

namespace Socket
variable (adapts : Bool) (ids more : List ConnectorId) (t : Socket)

theorem loses_iff : t.loses ids = true ↔ ∃ c ∈ t.incoming, c ∈ ids := by
  simp [loses]

theorem loses_eq_false_iff : t.loses ids = false ↔ ∀ c ∈ t.incoming, c ∉ ids := by
  simp [loses]

theorem shed_of_not_loses (h : t.loses ids = false) : t.shed adapts ids = t :=
  if_neg (Bool.eq_false_iff.1 h)

@[simp] theorem incoming_shed : (t.shed adapts ids).incoming = t.incoming.filter (· ∉ ids) := by
  unfold shed
  split
  · rw [NodeKind.incoming_showEditor]
    cases adapts <;> rfl
  · rename_i h
    exact (filter_of_disjoint ids ((t.loses_eq_false_iff ids).1 (Bool.eq_false_iff.2 h))).symm

theorem loses_append : t.loses (ids ++ more) = (t.loses ids || (t.shed adapts ids).loses more) := by
  refine Bool.eq_iff_iff.2 ?_
  rw [Bool.or_eq_true, loses_iff, loses_iff, loses_iff, incoming_shed]
  constructor
  · rintro ⟨c, hc, hmem⟩
    by_cases hfirst : c ∈ ids
    · exact Or.inl ⟨c, hc, hfirst⟩
    · refine Or.inr ⟨c, List.mem_filter.2 ⟨hc, decide_eq_true hfirst⟩, ?_⟩
      exact (List.mem_append.1 hmem).resolve_left hfirst
  · rintro (⟨c, hc, hmem⟩ | ⟨c, hc, hmem⟩)
    · exact ⟨c, hc, List.mem_append_left _ hmem⟩
    · exact ⟨c, (List.mem_filter.1 hc).1, List.mem_append_right _ hmem⟩

/-- A socket that has reacted once reacts in the same way again. -/
theorem react_react (l : List ConnectorId) :
    ({ (t.adapted adapts .any).showEditor true with incoming := l }.adapted adapts .any).showEditor true =
      ({ t with incoming := l }.adapted adapts .any).showEditor true := by
  obtain ⟨type, label, incoming, value, editable, shown, phantoms, radius, rest⟩ := t
  cases adapts <;> cases editable <;> rfl

theorem shed_shed : (t.shed adapts ids).shed adapts more = t.shed adapts (ids ++ more) := by
  have hboth := t.loses_append adapts ids more
  cases hfirst : t.loses ids with
  | false =>
    rw [shed_of_not_loses adapts ids t hfirst] at hboth ⊢
    rw [hfirst, Bool.false_or] at hboth
    have hsame : t.incoming.filter (· ∉ ids ++ more) = t.incoming.filter (· ∉ more) := by
      rw [← filter_filter_append, filter_of_disjoint ids ((t.loses_eq_false_iff ids).1 hfirst)]
    rw [shed, shed, hboth, hsame]
  | true =>
    rw [hfirst, Bool.true_or] at hboth
    have hleft : t.shed adapts ids =
        ({ t with incoming := t.incoming.filter (· ∉ ids) }.adapted adapts .any).showEditor true :=
      if_pos hfirst
    have hall : t.shed adapts (ids ++ more) =
        ({ t with incoming := t.incoming.filter (· ∉ ids ++ more) }.adapted adapts .any).showEditor true :=
      if_pos hboth
    rw [hall]
    cases hmore : (t.shed adapts ids).loses more with
    | false =>
      have hkept := (loses_eq_false_iff _ _).1 hmore
      rw [incoming_shed] at hkept
      rw [shed_of_not_loses adapts more _ hmore, hleft, ← filter_filter_append,
        filter_of_disjoint more hkept]
    | true =>
      have hreact := react_react adapts { t with incoming := t.incoming.filter (· ∉ ids) }
        (t.incoming.filter (· ∉ ids ++ more))
      rw [shed, if_pos hmore, incoming_shed, filter_filter_append, hleft]
      exact hreact

theorem lose_eq_shed {c : ConnectorId} (hc : c ∈ t.incoming) : t.lose adapts c = t.shed adapts [c] := by
  have hloses : t.loses [c] = true := (t.loses_iff [c]).2 ⟨c, hc, List.mem_singleton.2 rfl⟩
  rw [shed, if_pos hloses, filter_not_mem_singleton]
  rfl

theorem shed_of_not_mem {c : ConnectorId} (hc : c ∉ t.incoming) : t.shed adapts [c] = t := by
  refine shed_of_not_loses adapts [c] t ((t.loses_eq_false_iff [c]).2 fun d hd hmem => ?_)
  rw [List.mem_singleton.1 hmem] at hd
  exact hc hd

end Socket

/-! ## Plugs -/

namespace Plug
variable (ids more : List ConnectorId) (p : Plug)

@[simp] theorem shed_shed : (p.shed ids).shed more = p.shed (ids ++ more) :=
  congrArg (fun l => { p with connected := l }) (filter_filter_append ids more p.connected)

theorem map_shed_shed (l : List Plug) : (l.map (shed ids)).map (shed more) = l.map (shed (ids ++ more)) := by
  rw [List.map_map]
  exact List.map_congr_left fun p _ => p.shed_shed ids more

theorem detach_eq_shed (c : ConnectorId) : p.detach c = p.shed [c] :=
  congrArg (fun l => { p with connected := l }) (filter_not_mem_singleton c p.connected).symm

theorem shed_of_disjoint (h : ∀ c ∈ p.connected, c ∉ ids) : p.shed ids = p :=
  congrArg (fun l => { p with connected := l }) (filter_of_disjoint ids h)

/-- Two branches are drawn anew whatever has been taken off them in between. -/
theorem previewed_shed (state : Option Bool) (p q : Plug) :
    previewed state ((previewed state [p, q]).map (shed more)) =
      previewed state ([p, q].map (shed more)) := by
  cases state with
  | none => rfl
  | some state => cases state <;> rfl

theorem map_previewed (state : Option Bool) (p q : Plug) :
    (previewed state [p, q]).map (shed more) = previewed state ([p, q].map (shed more)) := by
  cases state with
  | none => rfl
  | some state => cases state <;> rfl

theorem map_summed (types : List PortType) (l : List Plug) :
    (summed types l).map (shed more) = summed types (l.map (shed more)) := by
  unfold summed
  split
  · cases l <;> rfl
  · rfl

/-- The output of a sum has no memory of other inputs, if it has as many now. -/
theorem summed_again {types others : List PortType} (h : types.length = others.length) (l : List Plug) :
    summed types (summed others l) = summed types l := by
  cases types with
  | nil =>
    obtain rfl := List.length_eq_zero_iff.1 h.symm
    rfl
  | cons a rest =>
    obtain ⟨type, htype⟩ := Option.isSome_iff_exists.1 (PortType.highest?_isSome (List.cons_ne_nil a rest))
    simp only [summed, htype]
    split
    · cases l <;> rfl
    · rfl

end Plug

/-! ## Nodes -/

namespace Node
variable (n : Node) (ids more : List ConnectorId)

/-- Whether one of the connectors arrives at a data socket. -/
def loses (n : Node) (ids : List ConnectorId) : Bool := (n.frame.sockets .data).any (·.loses ids)

@[simp] theorem kind_shed : (n.shed ids).kind = n.kind := rfl

@[simp] theorem simulated_shed : (n.shed ids).frame.simulated = n.frame.simulated := rfl

@[simp] theorem dependents_shed :
    (n.shed ids).frame.dependents = n.frame.dependents.filter (· ∉ ids) := rfl

theorem sockets_shed (k : PortKind) : (n.shed ids).frame.sockets k =
    (n.frame.sockets k).map (Socket.shed (n.kind.adapts k) ids) := by
  cases k <;> rfl

theorem flowPlugs_shed : (n.shed ids).frame.plugs .flow =
    if n.loses ids && n.kind = .condition then
      Plug.previewed n.frame.simulated ((n.frame.plugs .flow).map (Plug.shed ids))
    else (n.frame.plugs .flow).map (Plug.shed ids) := rfl

theorem dataPlugs_shed : (n.shed ids).frame.plugs .data =
    if n.loses ids && n.kind.adapts .data then
      Plug.summed (((n.shed ids).frame.sockets .data).map (·.type)) ((n.frame.plugs .data).map (Plug.shed ids))
    else (n.frame.plugs .data).map (Plug.shed ids) := rfl

theorem loses_append : n.loses (ids ++ more) = (n.loses ids || (n.shed ids).loses more) := by
  unfold loses
  rw [sockets_shed]
  induction n.frame.sockets .data with
  | nil => rfl
  | cons t ts ih =>
    rw [List.map_cons, List.any_cons, List.any_cons, List.any_cons, ih,
      t.loses_append (n.kind.adapts .data) ids more]
    cases t.loses ids <;> cases ts.any (·.loses ids) <;> simp

section Shaped
variable {n} (hs : n.Shaped)

include hs

theorem flowPlugs_shed_shed :
    ((n.shed ids).shed more).frame.plugs .flow = (n.shed (ids ++ more)).frame.plugs .flow := by
  rw [flowPlugs_shed, flowPlugs_shed, flowPlugs_shed, loses_append, kind_shed, simulated_shed,
    ← Plug.map_shed_shed]
  by_cases hk : n.kind = .condition
  · obtain ⟨p, q, hplugs⟩ := hs.branches hk
    rw [hplugs]
    simp only [hk, decide_true, Bool.and_true]
    cases n.loses ids with
    | false => cases (n.shed ids).loses more <;> rfl
    | true =>
      cases (n.shed ids).loses more with
      | false => exact Plug.map_previewed more n.frame.simulated (p.shed ids) (q.shed ids)
      | true => exact Plug.previewed_shed more n.frame.simulated (p.shed ids) (q.shed ids)
  · simp only [hk, decide_false, Bool.and_false, Bool.false_eq_true, if_false]

omit hs in
theorem sockets_shed_shed (k : PortKind) :
    ((n.shed ids).shed more).frame.sockets k = (n.shed (ids ++ more)).frame.sockets k := by
  rw [sockets_shed, sockets_shed, sockets_shed, kind_shed, List.map_map]
  exact List.map_congr_left fun t _ => t.shed_shed (n.kind.adapts k) ids more

omit hs in
theorem dataPlugs_shed_shed :
    ((n.shed ids).shed more).frame.plugs .data = (n.shed (ids ++ more)).frame.plugs .data := by
  rw [dataPlugs_shed, dataPlugs_shed, dataPlugs_shed, loses_append, kind_shed, ← sockets_shed_shed,
    ← Plug.map_shed_shed]
  cases n.kind.adapts .data with
  | false => simp only [Bool.and_false, Bool.false_eq_true, if_false]
  | true =>
    simp only [Bool.and_true]
    cases n.loses ids with
    | false => cases (n.shed ids).loses more <;> rfl
    | true =>
      have hlater := (n.shed ids).sockets_shed more .data
      cases hmore : (n.shed ids).loses more with
      | false =>
        have hsame : ((n.shed ids).shed more).frame.sockets .data = (n.shed ids).frame.sockets .data := by
          rw [hlater]
          refine (List.map_congr_left fun t ht => ?_).trans (List.map_id _)
          exact t.shed_of_not_loses _ more (Bool.eq_false_iff.2 fun h => by
            rw [loses, List.any_eq_false] at hmore
            exact hmore t ht h)
        rw [hsame]
        exact Plug.map_summed more _ _
      | true =>
        simp only [Bool.true_or, if_true]
        rw [Plug.map_summed, Plug.summed_again]
        rw [hlater, List.length_map, List.length_map, List.length_map]

/-- Taking some connectors off a node and then others is taking all of them off at once. -/
theorem shed_shed : (n.shed ids).shed more = n.shed (ids ++ more) := by
  have hframe : ((n.shed ids).shed more).frame = (n.shed (ids ++ more)).frame := by
    refine Frame.eq_of_parts rfl (fun k => sockets_shed_shed ids more k) (fun k => ?_) ?_ rfl
    · cases k with
      | flow => exact flowPlugs_shed_shed ids more hs
      | data => exact dataPlugs_shed_shed ids more
    · exact filter_filter_append ids more n.frame.dependents
  exact congrArg (Node.mk n.kind) hframe

end Shaped

theorem shed_congr {ids more : List ConnectorId} (h : ∀ c, c ∈ ids ↔ c ∈ more) : n.shed ids = n.shed more := by
  have hfilter (l : List ConnectorId) : l.filter (· ∉ ids) = l.filter (· ∉ more) :=
    List.filter_congr fun c _ => decide_eq_decide.2 (not_congr (h c))
  have hloses (t : Socket) : t.loses ids = t.loses more := by
    rw [Bool.eq_iff_iff, Socket.loses_iff, Socket.loses_iff]
    exact exists_congr fun c => and_congr_right' (h c)
  have hsocket (adapts : Bool) : Socket.shed adapts ids = Socket.shed adapts more := by
    funext t
    rw [Socket.shed, Socket.shed, hfilter, hloses]
  have hplug : Plug.shed ids = Plug.shed more := by
    funext p
    rw [Plug.shed, Plug.shed, hfilter]
  simp only [shed, hsocket, hplug, hloses, hfilter]

/-! ### What is listed -/

section Listed

theorem flatMap_map_filter {α : Type} {l : List α} {f : α → α} {lists : α → List ConnectorId}
    (h : ∀ a, lists (f a) = (lists a).filter (· ∉ ids)) :
    (l.map f).flatMap lists = (l.flatMap lists).filter (· ∉ ids) := by
  induction l with
  | nil => rfl
  | cons a rest ih => rw [List.map_cons, List.flatMap_cons, List.flatMap_cons, List.filter_append, h, ih]

theorem connected_previewed (state : Option Bool) (l : List Plug) :
    (Plug.previewed state l).map (·.connected) = l.map (·.connected) := by
  cases state with
  | none => rfl
  | some state =>
    unfold Plug.previewed Plug.shaded
    dsimp only
    split
    · rfl
    · have hfull := map_modify l (if state then 0 else 1) Plug.full (·.connected) fun _ => rfl
      exact (map_modify _ _ Plug.dimmed (·.connected) fun _ => rfl).trans hfull

theorem connected_summed (types : List PortType) (l : List Plug) :
    (Plug.summed types l).map (·.connected) = l.map (·.connected) := by
  unfold Plug.summed
  split
  · exact map_modify _ _ _ _ fun _ => rfl
  · rfl

theorem connected_shed (k : PortKind) : ((n.shed ids).frame.plugs k).flatMap (·.connected) =
    ((n.frame.plugs k).flatMap (·.connected)).filter (· ∉ ids) := by
  have hplain : ((n.shed ids).frame.plugs k).map (·.connected) =
      ((n.frame.plugs k).map (Plug.shed ids)).map (·.connected) := by
    cases k with
    | flow =>
      rw [flowPlugs_shed]
      split
      · exact connected_previewed _ _
      · rfl
    | data =>
      rw [dataPlugs_shed]
      split
      · exact connected_summed _ _
      · rfl
  rw [List.flatMap_def, hplain, ← List.flatMap_def]
  exact flatMap_map_filter ids fun _ => rfl

theorem incoming_shed (k : PortKind) : ((n.shed ids).frame.sockets k).flatMap (·.incoming) =
    ((n.frame.sockets k).flatMap (·.incoming)).filter (· ∉ ids) := by
  rw [sockets_shed]
  exact flatMap_map_filter ids fun t => t.incoming_shed (n.kind.adapts k) ids

theorem attached_shed : (n.shed ids).frame.attached = n.frame.attached.filter (· ∉ ids) := by
  have hattached (f : Frame) : f.attached = ((f.sockets .flow).flatMap (·.incoming) ++
      (f.sockets .data).flatMap (·.incoming)) ++ ((f.plugs .flow).flatMap (·.connected) ++
        (f.plugs .data).flatMap (·.connected)) := by
    rw [← List.flatMap_append, ← List.flatMap_append]
    rfl
  rw [hattached, hattached n.frame]
  simp only [incoming_shed, connected_shed, List.filter_append]

/-- Nothing on the node mentions the connectors any more. -/
theorem unlisted_shed {c : ConnectorId} (hc : c ∈ ids) :
    c ∉ (n.shed ids).frame.attached ∧ c ∉ (n.shed ids).frame.dependents := by
  rw [attached_shed, dependents_shed]
  exact ⟨fun h => of_decide_eq_true (List.mem_filter.1 h).2 hc,
    fun h => of_decide_eq_true (List.mem_filter.1 h).2 hc⟩

end Listed

/-! ### Single ports -/

section Ports
variable {n ids} {port : PortKind} {index : Nat}

theorem getElem?_redrawn {l : List Plug} {i : Nat} {p : Plug} (h : l[i]? = some p) (j : Nat) {f : Plug → Plug}
    (hf : ∀ p, ∃ o, f p = { p with opacity := o }) : ∃ o, (l.modify j f)[i]? = some { p with opacity := o } := by
  rw [List.getElem?_modify, h]
  split
  · obtain ⟨o, ho⟩ := hf p
    exact ⟨o, congrArg some ho⟩
  · exact ⟨p.opacity, rfl⟩

theorem getElem?_previewed {state : Option Bool} {l : List Plug} {i : Nat} {p : Plug} (h : l[i]? = some p) :
    ∃ o, (Plug.previewed state l)[i]? = some { p with opacity := o } := by
  cases state with
  | none => exact ⟨p.opacity, h⟩
  | some state =>
    unfold Plug.previewed Plug.shaded
    dsimp only
    split
    · exact ⟨p.opacity, h⟩
    · obtain ⟨_, hfull⟩ := getElem?_redrawn h (if state then 0 else 1) fun p => ⟨1.0, (rfl : p.full = _)⟩
      exact getElem?_redrawn hfull (if state then 1 else 0) fun p => ⟨_, (rfl : p.dimmed = _)⟩

theorem getElem?_summed {types : List PortType} {l : List Plug} {i : Nat} {p : Plug} (h : l[i]? = some p) :
    ∃ type, (Plug.summed types l)[i]? = some { p with type := type } := by
  unfold Plug.summed
  split
  · rename_i type _
    rw [List.getElem?_modify, h]
    split
    · exact ⟨type, rfl⟩
    · exact ⟨p.type, rfl⟩
  · exact ⟨p.type, h⟩

/-- A socket that loses nothing stays as it is. -/
theorem socket?_shed {t : Socket} (ht : n.frame.socket? port index = some t) (hkept : ∀ c ∈ t.incoming, c ∉ ids) :
    (n.shed ids).frame.socket? port index = some t := by
  rw [Frame.socket?, sockets_shed, List.getElem?_map]
  refine (congrArg (Option.map _) ht).trans (congrArg some ?_)
  exact t.shed_of_not_loses _ ids ((t.loses_eq_false_iff ids).2 hkept)

/-- A plug that loses nothing stays as it is, unless it shows what arrives at the inputs. -/
theorem plug?_shed {p : Plug} (hp : n.frame.plug? port index = some p) (hkept : ∀ c ∈ p.connected, c ∉ ids) :
    (n.shed ids).frame.plug? port index = some p ∨ n.loses ids = true ∧
      (port = .flow ∧ n.kind = .condition ∧
          (∃ o, (n.shed ids).frame.plug? port index = some { p with opacity := o }) ∨
        port = .data ∧ n.kind.adapts .data = true ∧
          ∃ type, (n.shed ids).frame.plug? port index = some { p with type := type }) := by
  have hsame : ((n.frame.plugs port).map (Plug.shed ids))[index]? = some p := by
    rw [List.getElem?_map]
    exact (congrArg (Option.map _) hp).trans (congrArg some (p.shed_of_disjoint ids hkept))
  cases port with
  | flow =>
    rw [Frame.plug?, flowPlugs_shed]
    split
    · rename_i hreacts
      simp only [Bool.and_eq_true, decide_eq_true_eq] at hreacts
      exact Or.inr ⟨hreacts.1, Or.inl ⟨rfl, hreacts.2, getElem?_previewed hsame⟩⟩
    · exact Or.inl hsame
  | data =>
    rw [Frame.plug?, dataPlugs_shed]
    split
    · rename_i hreacts
      rw [Bool.and_eq_true] at hreacts
      exact Or.inr ⟨hreacts.1, Or.inr ⟨rfl, hreacts.2, getElem?_summed hsame⟩⟩
    · exact Or.inl hsame

end Ports

/-! ### Nodes on which nothing is dropped -/

section Kept
variable {n ids}

theorem loses_eq_false (h : ∀ index t, n.frame.socket? .data index = some t → ∀ c ∈ t.incoming, c ∉ ids) :
    n.loses ids = false := by
  refine List.any_eq_false.2 fun t ht hloses => ?_
  obtain ⟨index, hindex⟩ := List.getElem?_of_mem ht
  obtain ⟨c, hc, hmem⟩ := (t.loses_iff ids).1 hloses
  exact h index t hindex c hc hmem

theorem map_shed_plugs {port : PortKind}
    (h : ∀ index p, n.frame.plug? port index = some p → ∀ c ∈ p.connected, c ∉ ids) :
    (n.frame.plugs port).map (Plug.shed ids) = n.frame.plugs port := by
  refine (List.map_congr_left fun p hp => ?_).trans (List.map_id _)
  obtain ⟨index, hindex⟩ := List.getElem?_of_mem hp
  exact p.shed_of_disjoint ids (h index p hindex)

theorem map_shed_sockets {port : PortKind} (adapts : Bool)
    (h : ∀ index t, n.frame.socket? port index = some t → ∀ c ∈ t.incoming, c ∉ ids) :
    (n.frame.sockets port).map (Socket.shed adapts ids) = n.frame.sockets port := by
  refine (List.map_congr_left fun t ht => ?_).trans (List.map_id _)
  obtain ⟨index, hindex⟩ := List.getElem?_of_mem ht
  exact t.shed_of_not_loses adapts ids ((t.loses_eq_false_iff ids).2 (h index t hindex))

/-- A node that lists none of the connectors is left as it is. -/
theorem shed_eq_self
    (hsockets : ∀ port index t, n.frame.socket? port index = some t → ∀ c ∈ t.incoming, c ∉ ids)
    (hplugs : ∀ port index p, n.frame.plug? port index = some p → ∀ c ∈ p.connected, c ∉ ids)
    (hdependents : ∀ c ∈ n.frame.dependents, c ∉ ids) : n.shed ids = n := by
  have hkept := loses_eq_false (hsockets .data)
  have hframe : (n.shed ids).frame = n.frame := by
    refine Frame.eq_of_parts rfl (fun k => ?_) (fun k => ?_) (filter_of_disjoint ids hdependents) rfl
    · rw [sockets_shed, map_shed_sockets _ (hsockets k)]
    · cases k with
      | flow => rw [flowPlugs_shed, hkept, Bool.false_and, if_neg Bool.false_ne_true, map_shed_plugs (hplugs .flow)]
      | data => rw [dataPlugs_shed, hkept, Bool.false_and, if_neg Bool.false_ne_true, map_shed_plugs (hplugs .data)]
  exact congrArg (Node.mk n.kind) hframe

end Kept

/-! ### One connector -/

section One
variable {n} {c : ConnectorId} {port : PortKind} {index : Nat}

theorem not_mem_of_singleton {l : List ConnectorId} (h : c ∉ l) : ∀ d ∈ l, d ∉ [c] := by
  intro d hd hmem
  rw [List.mem_singleton.1 hmem] at hd
  exact h hd

/-- A connector that is only on one plug is taken off the node with it. -/
theorem withdraw_eq_shed (hsockets : ∀ k i t, n.frame.socket? k i = some t → c ∉ t.incoming)
    (hplugs : ∀ k i p, ¬(k = port ∧ i = index) → n.frame.plug? k i = some p → c ∉ p.connected) :
    n.withdraw c port index = n.shed [c] := by
  have hkept := loses_eq_false fun i t ht => not_mem_of_singleton (hsockets .data i t ht)
  have hwithdrawn (k : PortKind) : (n.withdraw c port index).frame.plugs k =
      (n.frame.plugs k).map (Plug.shed [c]) := by
    rw [plugs_withdraw]
    split
    · rename_i hk
      subst hk
      refine modify_eq_map (fun p _ => p.detach_eq_shed c) fun j p hj hp => ?_
      exact p.shed_of_disjoint [c] (not_mem_of_singleton (hplugs k j p (fun h => hj h.2) hp))
    · rename_i hk
      refine (map_shed_plugs fun i p hp => ?_).symm
      exact not_mem_of_singleton (hplugs k i p (fun h => hk h.1) hp)
  have hframe : (n.withdraw c port index).frame = (n.shed [c]).frame := by
    refine Frame.eq_of_parts (congrArg Prod.snd (n.body_withdraw c port index)) (fun k => ?_) (fun k => ?_)
      ?_ (n.simulated_withdraw port index c)
    · rw [sockets_withdraw, sockets_shed,
        map_shed_sockets _ fun i t ht => not_mem_of_singleton (hsockets k i t ht)]
    · rw [hwithdrawn]
      cases k with
      | flow => rw [flowPlugs_shed, hkept, Bool.false_and, if_neg Bool.false_ne_true]
      | data => rw [dataPlugs_shed, hkept, Bool.false_and, if_neg Bool.false_ne_true]
    · rw [dependents_withdraw, dependents_shed, filter_not_mem_singleton]
  exact congrArg (Node.mk n.kind) hframe

section Release
variable {t : Socket} (ht : n.frame.socket? port index = some t) (hc : c ∈ t.incoming)
  (hsockets : ∀ k i u, ¬(k = port ∧ i = index) → n.frame.socket? k i = some u → c ∉ u.incoming)

include ht hc hsockets

theorem sockets_release_eq_shed (k : PortKind) :
    (n.release c port index).frame.sockets k = (n.shed [c]).frame.sockets k := by
  rw [sockets_release c ht, sockets_shed]
  split
  · rename_i hk
    subst hk
    refine modify_eq_map (fun u hu => ?_) fun j u hj hu => ?_
    · obtain rfl := Option.some.inj (ht.symm.trans hu)
      exact t.lose_eq_shed _ hc
    · exact u.shed_of_not_mem _ (hsockets k j u (fun h => hj h.2) hu)
  · rename_i hk
    refine (map_shed_sockets _ fun i u hu => ?_).symm
    exact not_mem_of_singleton (hsockets k i u (fun h => hk h.1) hu)

theorem loses_iff_data : n.loses [c] = true ↔ port = .data := by
  constructor
  · intro hloses
    by_contra hk
    have hkept : n.loses [c] = false := loses_eq_false fun i u hu =>
      not_mem_of_singleton (hsockets .data i u (fun h => hk h.1.symm) hu)
    rw [hkept] at hloses
    cases hloses
  · rintro rfl
    refine List.any_eq_true.2 ⟨t, List.mem_of_getElem? ht, ?_⟩
    exact (t.loses_iff [c]).2 ⟨c, hc, List.mem_singleton.2 rfl⟩

/-- A connector that arrives at one socket is taken off the node with it. -/
theorem release_eq_shed (hs : n.Shaped)
    (hplugs : ∀ k i p, n.frame.plug? k i = some p → c ∉ p.connected) :
    n.release c port index = n.shed [c] := by
  have hlost := loses_iff_data ht hc hsockets
  have hsame (k : PortKind) := sockets_release_eq_shed ht hc hsockets k
  have hkept (k : PortKind) : (n.frame.plugs k).map (Plug.shed [c]) = n.frame.plugs k :=
    map_shed_plugs fun i p hp => not_mem_of_singleton (hplugs k i p hp)
  -- Only the input of a condition takes truth values whatever its connections are.
  have htruth : (t.adapted (n.kind.adapts port) .any).type = .bool ↔
      (n.loses [c] && n.kind = .condition) = true := by
    rw [Bool.and_eq_true, hlost, decide_eq_true_eq, NodeKind.type_adapted_any]
    constructor
    · intro hbool
      obtain ⟨hk, hport, -⟩ := hs.condition_of_truth ht hbool
      exact ⟨hport, hk⟩
    · rintro ⟨rfl, hk⟩
      have htypes := List.mem_of_getElem? (hs.bareType_eq ht)
      rw [hk] at htypes ⊢
      exact List.mem_singleton.1 htypes
  have hadapts : n.kind.adapts port = true ↔ (n.loses [c] && n.kind.adapts .data) = true := by
    rw [Bool.and_eq_true, hlost]
    cases port <;> simp
  have hframe : (n.release c port index).frame = (n.shed [c]).frame := by
    refine Frame.eq_of_parts (congrArg Prod.snd (n.body_release c port index)) hsame (fun k => ?_) ?_
      (simulated_release c ht)
    · cases k with
      | flow => simp only [flowPlugs_release c ht, flowPlugs_shed, hkept, htruth]
      | data => simp only [dataPlugs_release c ht, dataPlugs_shed, hkept, hadapts, hsame]
    · rw [dependents_release, dependents_shed, filter_not_mem_singleton]
  exact congrArg (Node.mk n.kind) hframe

end Release
end One
end Node
end FlowGraph
