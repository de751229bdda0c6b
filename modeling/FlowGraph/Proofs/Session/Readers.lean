import FlowGraph.Proofs.Program.Forgotten
import FlowGraph.Proofs.Session.Numbering
import FlowGraph.Proofs.Session.Previews

/-! # Readers of variables

A reader looks up the type of its variable when it is given a name, and only then. Since a variable keeps the type
that it is registered with, the type stays right, except that a name may be registered after the reader was given
it. The output then remains without a type until the reader is named again. A program that is restored registers
its variables first, so no reader in it is late.
-/

namespace FlowGraph
set_option autoImplicit false

/-- The type registered for a name, or `any` if there is none or it is no text. -/
def registeredType (types : Variables) (name : Option Literal) : PortType :=
  ((name.bind Literal.text?).bind types.get?).getD .any

/-! ## One node -/

namespace Node
variable {n m : Node} {name name' : Option Literal} {type type' : PortType}

/-- The node is a reader with this name on its socket, and its output has the type. -/
def Reads (n : Node) (name : Option Literal) (type : PortType) : Prop :=
  n.kind = .variableRead ∧ ∃ t p, n.frame.dataSockets = [t] ∧ n.frame.dataPlugs = [p] ∧ t.value = name ∧ p.type = type

theorem reads_iff : n.Reads name type ↔
    n.kind = .variableRead ∧ n.frame.values = [name] ∧ n.frame.portTypes.outputs .data = [type] := by
  have hvalues : n.frame.values = [name] ↔ ∃ t, n.frame.dataSockets = [t] ∧ t.value = name :=
    List.map_eq_singleton_iff
  have houtputs : n.frame.portTypes.outputs .data = [type] ↔ ∃ p, n.frame.dataPlugs = [p] ∧ p.type = type :=
    List.map_eq_singleton_iff
  rw [hvalues, houtputs]
  constructor
  · rintro ⟨hk, t, p, ht, hp, hname, htype⟩
    exact ⟨hk, ⟨t, ht, hname⟩, p, hp, htype⟩
  · rintro ⟨hk, ⟨t, ht, hname⟩, p, hp, htype⟩
    exact ⟨hk, t, p, ht, hp, hname, htype⟩

theorem Reads.unique (h : n.Reads name type) (h' : n.Reads name' type') : name' = name ∧ type' = type := by
  obtain ⟨-, hvalues, houtputs⟩ := reads_iff.1 h
  obtain ⟨-, hvalues', houtputs'⟩ := reads_iff.1 h'
  exact ⟨(List.cons.inj (hvalues'.symm.trans hvalues)).1, (List.cons.inj (houtputs'.symm.trans houtputs)).1⟩

theorem Shaped.reads (h : n.Shaped) (hk : n.kind = .variableRead) : ∃ name type, n.Reads name type := by
  have hsockets := h.length_sockets .data
  have hplugs := h.length_plugs .data
  rw [hk] at hsockets hplugs
  obtain ⟨t, ht⟩ := List.length_eq_one_iff.1 hsockets
  obtain ⟨p, hp⟩ := List.length_eq_one_iff.1 hplugs
  exact ⟨t.value, p.type, hk, t, p, ht, hp, rfl, rfl⟩

/-- Only a node with several operations gets new constants unasked. -/
theorem Change.values (h : n.Change m) (hv : n.frame.variant = none) : m.frame.values = n.frame.values := by
  cases h with
  | carry _ _ _ hsockets _ _ => exact congrArg (List.map (·.value)) (congrFun hsockets .data)
  | restyle style => rfl
  | resize port index hG =>
    refine n.frame.values_modifySocket _ _ _ fun t => ?_
    obtain ⟨x, hx⟩ := hG t
    rw [hx]
  | receive c _ _ type => exact congrArg Look.values (n.look_receive c _ _ type)
  | @release c port index t ht _ =>
    have hsockets := sockets_release c ht .data
    show ((n.release c port index).frame.sockets .data).map (·.value) = (n.frame.sockets .data).map (·.value)
    rw [hsockets]
    split
    · exact map_modify _ _ _ _ fun u => Socket.value_lose _ c u
    · rfl
  | send c port index => exact congrArg Look.values (n.look_send c port index)
  | withdraw c port index => exact n.frame.values_modifyPlug port index _
  | loosen c port index => exact n.frame.values_modifyPlug port index _
  | relay hsome variant style title =>
    rw [hv] at hsome
    cases hsome

/-- A node that does not adapt keeps its types. -/
theorem Change.typing (h : n.Change m) (hv : n.frame.variant = none) (hfixed : ∀ port, n.kind.adapts port = false) :
    m.typing = n.typing := by
  cases h with
  | carry _ _ _ hsockets hplugs _ =>
    refine Prod.ext rfl (PortTypes.ext (funext fun k => ?_) (funext fun k => ?_))
    · exact congrArg (List.map (·.type)) (congrFun hsockets k)
    · exact congrArg (List.map (·.type)) (congrFun hplugs k)
  | restyle style => exact Session.typing_restyle style n
  | resize port index hG =>
    refine Prod.ext rfl (n.frame.portTypes_modifySocket _ _ _ fun t => ?_)
    obtain ⟨x, hx⟩ := hG t
    rw [hx]
  | receive c _ _ type => exact typing_receive c _ (hfixed _) type
  | release c _ _ => exact typing_release c _ (hfixed _)
  | send c port index => exact n.typing_send c port index
  | withdraw c port index => exact n.typing_withdraw c port index
  | loosen c port index => exact Prod.ext rfl (n.frame.portTypes_modifyPlug _ _ _ fun _ => rfl)
  | relay hsome variant style title =>
    rw [hv] at hsome
    cases hsome

theorem Reads.change (h : n.Reads name type) (hs : n.Shaped) (hc : n.Change m) : m.Reads name type := by
  obtain ⟨hk, hvalues, houtputs⟩ := reads_iff.1 h
  have hv : n.frame.variant = none := by
    have hnone := hs.variant
    rw [hk] at hnone
    exact Option.isSome_eq_false_iff.1 hnone |> Option.isNone_iff_eq_none.1
  have htyping := hc.typing hv fun port => by rw [hk]; rfl
  refine reads_iff.2 ⟨hc.kind_eq.trans hk, (hc.values hv).trans hvalues, ?_⟩
  exact (congrArg (fun x : NodeKind × PortTypes => x.2.outputs .data) htyping).trans houtputs

theorem Reads.changes (h : n.Reads name type) (hs : n.Shaped) (hc : n.Changes m) : m.Reads name type := by
  have hboth : m.Shaped ∧ m.Reads name type := by
    induction hc with
    | refl => exact ⟨hs, h⟩
    | tail _ hstep ih => exact ⟨ih.1.change hstep, ih.2.change ih.1 hstep⟩
  exact hboth.2

theorem Reads.fresh (position : Point) (scale : Scalar) (style : ConnectorStyle) :
    Reads ⟨.variableRead, NodeKind.freshFrame .variableRead position scale style⟩ none .any :=
  ⟨rfl, _, _, rfl, rfl, rfl, rfl⟩

/-- A reader that is given a name takes the type registered for it. -/
theorem Reads.hold (h : n.Reads name type) (value : Option Literal) (types : Variables) :
    (n.hold 0 value types).Reads value (registeredType types value) := by
  obtain ⟨kind, f⟩ := n
  obtain ⟨rfl, t, p, ht, hp, -, -⟩ := h
  refine reads_iff.2 ⟨rfl, ?_, ?_⟩
  · show (NodeKind.variableRead.valueChanged _ 0 value types).values = _
    rw [NodeKind.values_valueChanged, Frame.values_setValue, Frame.values, ht]
    rfl
  · show (f.dataPlugs.modify 0 _).map (·.type) = _
    rw [hp]
    rfl

end Node

namespace Session

/-! ## One change -/

/-- The node is a reader with this name on its socket, and its output has the type. -/
def Reads (s : Session) (id : NodeId) (name : Option Literal) (type : PortType) : Prop :=
  ∃ n, s.node? id = some n ∧ n.Reads name type

section Step
variable {s : Session} {o : Operation} {id : NodeId} {name name' : Option Literal} {type type' : PortType}

theorem Reads.unique (h : s.Reads id name type) (h' : s.Reads id name' type') : name' = name ∧ type' = type := by
  obtain ⟨n, hn, hreads⟩ := h
  obtain ⟨m, hm, hreads'⟩ := h'
  obtain rfl := Option.some.inj (hn.symm.trans hm)
  exact hreads.unique hreads'

/-- A reader is new, or is as it was, or has just been given its name. -/
theorem reads_apply (h : s.Typed) (ho : o.Public) (hel : o.Elementary) (hreads : (s.apply o).Reads id name type) :
    (name = none ∧ type = .any) ∨ (s.Reads id name type ∧ ∀ value, o ≠ .setValue ⟨id, .data, 0⟩ value) ∨
      o = .setValue ⟨id, .data, 0⟩ name ∧ type = registeredType s.variableTypes name := by
  obtain ⟨m, hm, hreader⟩ := hreads
  have hk := hreader.1
  by_cases hset : ∃ r value, o = .setValue r value
  · obtain ⟨r, value, rfl⟩ := hset
    obtain ⟨n, hn, hkind, ⟨rfl, helsewhere⟩ | ⟨rfl, rfl⟩⟩ := lone_setValue h.shaped hm (by rw [hk]; rfl)
    · refine Or.inr (Or.inl ⟨⟨m, hn, hreader⟩, fun value hvalue => ?_⟩)
      exact helsewhere (Operation.setValue.inj hvalue).1
    · obtain ⟨old, given, hold⟩ := (h.shaped id n hn).reads (hkind.symm.trans hk)
      obtain ⟨rfl, rfl⟩ := (hold.hold value s.variableTypes).unique hreader
      exact Or.inr (Or.inr ⟨rfl, rfl⟩)
  · have hevolves : s.Evolves (s.apply o) := .apply h.intact ho (fun r value hr => hset ⟨r, value, hr⟩)
      fun palette program hr => by rw [hr] at hel; exact hel
    obtain ⟨n, hn | ⟨kind, position, scale, style, rfl⟩, hchanges⟩ := hevolves id m hm
    · have hs := h.shaped id n hn
      obtain ⟨old, given, hold⟩ := hs.reads (hchanges.kind_eq.symm.trans hk)
      obtain ⟨rfl, rfl⟩ := (hold.changes hs hchanges).unique hreader
      exact Or.inr (Or.inl ⟨⟨n, hn, hold⟩, fun value hr => hset ⟨_, value, hr⟩⟩)
    · obtain rfl : kind = .variableRead := hchanges.kind_eq.symm.trans hk
      have hfresh := Node.Reads.fresh position scale style
      exact Or.inl ((hfresh.changes (.fresh _ position scale style) hchanges).unique hreader)

/-- Variables are registered by asking for it, and in no other way. -/
theorem variableTypes_apply (h : s.Intact) (ho : o.Public) (hel : o.Elementary)
    (hregister : ∀ name type, o ≠ .registerVariable name type) :
    (s.apply o).variableTypes = s.variableTypes := by
  cases o with
  | spawn kind position scale => rfl
  | addNode id node => cases ho
  | moveNode id position => exact s.variableTypes_moveNode id position
  | setScale id scale => exact s.variableTypes_setScale id scale
  | emitMove id => exact (s.unseen_emitMove id).variableTypes
  | bringToFront id => exact (s.unseen_bringToFront id).variableTypes
  | clearConnections id => exact congrArg Prod.snd (s.setup_clearConnections id)
  | removeNode id => exact congrArg Prod.snd (s.setup_removeNode id)
  | removeAll => exact congrArg Prod.snd s.setup_removeAll
  | selectVariant id variant => exact s.variableTypes_selectVariant id variant
  | setValue r value => exact s.variableTypes_setValue r value
  | registerVariable name type => exact (hregister name type rfl).elim
  | setStyle style => exact (s.unseen_setStyle style).variableTypes
  | toggleStyle => exact (s.unseen_setStyle _).variableTypes
  | connect p r =>
    cases hok : s.connect p r with
    | ok made =>
      rw [apply_connect_ok hok]
      exact Made.variableTypes_connect hok
    | error e => rw [apply_connect_error hok]
  | disconnect c => exact congrArg Prod.snd (s.setup_disconnect c)
  | reconnect c position => exact s.variableTypes_reconnect c position
  | beginDrag p position => exact (unseen_beginDrag h p position).variableTypes
  | updateDrag position => exact (s.unseen_updateDrag position).variableTypes
  | endDrag => exact congrArg Prod.snd s.setup_endDrag
  | cancelDrag => exact congrArg Prod.snd s.setup_cancelDrag
  | pointer event =>
    cases event with
    | press target position =>
      cases target with
      | plug p => exact (unseen_beginDrag h p position).variableTypes
      | connector c => exact s.variableTypes_reconnect c position
      | canvas => rfl
    | move position => exact (s.unseen_updateDrag position).variableTypes
    | release => exact congrArg Prod.snd s.setup_endDrag
  | restore palette program => cases hel

end Step

/-! ## Runs -/

/-- The run has registered a name that a reader had been given before, and the reader has not been named since. -/
def Late (s : Session) (l : List Operation) (id : NodeId) : Prop :=
  ∃ before name type after given, l = before ++ .registerVariable name type :: after ∧
    (s.applyAll before).Reads id (some (.text name)) given ∧
    (s.applyAll before).variableTypes.contains name = false ∧ ∀ value, .setValue ⟨id, .data, 0⟩ value ∉ after

section Runs
variable {s : Session} {l : List Operation} {o : Operation} {id : NodeId} {name : Option Literal} {type : PortType}

theorem Late.concat (h : s.Late l id) (ho : ∀ value, o ≠ .setValue ⟨id, .data, 0⟩ value) :
    s.Late (l ++ [o]) id := by
  obtain ⟨before, known, type, after, given, rfl, hreads, hnew, hlast⟩ := h
  refine ⟨before, known, type, after ++ [o], given, by simp, hreads, hnew, fun value hvalue => ?_⟩
  obtain hin | hin := List.mem_append.1 hvalue
  · exact hlast value hin
  · exact ho value (List.mem_singleton.1 hin).symm

theorem registeredType_of_unknown {types : Variables} {known : String} (h : types.contains known = false) :
    registeredType types (some (.text known)) = .any := by
  rw [← OrderedMap.get?_isSome, Option.isSome_eq_false_iff, Option.isNone_iff_eq_none] at h
  show (types.get? known).getD .any = .any
  rw [h]
  rfl

/-- A variable that is registered gives its type to nothing but its own name. -/
theorem registeredType_register (s : Session) (known : String) (type : PortType) (name : Option Literal) :
    registeredType (s.registerVariable known type).2.variableTypes name = registeredType s.variableTypes name ∨
      name = some (.text known) ∧ s.variableTypes.contains known = false := by
  unfold registerVariable
  cases hknown : s.variableTypes.contains known with
  | true => exact Or.inl rfl
  | false =>
    rw [if_neg Bool.false_ne_true]
    cases hname : name.bind Literal.text? with
    | none =>
      left
      rw [registeredType, registeredType, hname]
      rfl
    | some other =>
      by_cases hother : other = known
      · right
        subst hother
        obtain ⟨literal, rfl, htext⟩ := Option.bind_eq_some_iff.1 hname
        cases literal <;> cases htext
        exact ⟨rfl, rfl⟩
      · left
        rw [registeredType, registeredType, hname, Option.bind_some, Option.bind_some, OrderedMap.get?_insert,
          if_neg hother]

/-- The output of a reader has the type registered for its name, or none because the name came first. -/
theorem reads_run (settings : Settings) (hpublic : ∀ o ∈ l, o.Public) (helementary : ∀ o ∈ l, o.Elementary)
    (h : ((new settings).applyAll l).Reads id name type) :
    type = registeredType ((new settings).applyAll l).variableTypes name ∨
      (new settings).Late l id ∧ type = .any := by
  induction l using List.reverseRecOn with
  | nil =>
    obtain ⟨n, hn, -⟩ := h
    cases hn
  | append_singleton l o ih =>
    have hearlier : ∀ u ∈ l, u.Public := fun u hu => hpublic u (List.mem_append_left _ hu)
    have ho := hpublic o (List.mem_append_right _ List.mem_cons_self)
    have hel := helementary o (List.mem_append_right _ List.mem_cons_self)
    have ht := (typed_new settings).applyAll hearlier
    rw [applyAll_concat] at h ⊢
    obtain ⟨rfl, rfl⟩ | ⟨hold, hother⟩ | ⟨rfl, rfl⟩ := reads_apply ht ho hel h
    · exact Or.inl rfl
    · obtain hcurrent | ⟨hlate, hany⟩ := ih hearlier (fun u hu => helementary u (List.mem_append_left _ hu)) hold
      · by_cases hregister : ∃ known given, o = .registerVariable known given
        · obtain ⟨known, given, rfl⟩ := hregister
          obtain hsame | ⟨rfl, hnew⟩ :=
            registeredType_register ((new settings).applyAll l) known given name
          · exact Or.inl (hcurrent.trans hsame.symm)
          · refine Or.inr ⟨⟨l, known, given, [], type, rfl, hold, hnew, fun _ => List.not_mem_nil⟩, ?_⟩
            exact hcurrent.trans (registeredType_of_unknown hnew)
        · have hkept := variableTypes_apply ht.intact ho hel fun known given hr => hregister ⟨known, given, hr⟩
          rw [hkept]
          exact Or.inl hcurrent
      · exact Or.inr ⟨hlate.concat hother, hany⟩
    · have hkept := variableTypes_apply ht.intact ho hel fun known given hr => by cases hr
      rw [hkept]
      exact Or.inl rfl

/-- The output of a reader that is late has no type, whatever has been registered. -/
theorem Late.reads (settings : Settings) (hpublic : ∀ o ∈ l, o.Public) (helementary : ∀ o ∈ l, o.Elementary)
    (hlate : (new settings).Late l id) (h : ((new settings).applyAll l).Reads id name type) : type = .any := by
  obtain ⟨before, known, given, after, held, rfl, hbefore, hnew, hlast⟩ := hlate
  induction after using List.reverseRecOn generalizing name type with
  | nil =>
    have hearlier : ∀ u ∈ before, u.Public := fun u hu => hpublic u (List.mem_append_left _ hu)
    have hparts : ∀ u ∈ before, u.Elementary := fun u hu => helementary u (List.mem_append_left _ hu)
    rw [applyAll_concat] at h
    obtain ⟨-, rfl⟩ | ⟨hold, -⟩ | ⟨hset, -⟩ :=
      reads_apply ((typed_new settings).applyAll hearlier) (o := .registerVariable known given) trivial trivial h
    · rfl
    · -- Nothing was registered for the name by then.
      obtain ⟨rfl, rfl⟩ := hbefore.unique hold
      obtain hcurrent | ⟨-, hany⟩ := reads_run settings hearlier hparts hold
      · exact hcurrent.trans (registeredType_of_unknown hnew)
      · exact hany
    · cases hset
  | append_singleton after o ih =>
    rw [← List.cons_append, ← List.append_assoc] at h hpublic helementary
    have hearlier := fun u hu => hpublic u (List.mem_append_left _ hu)
    have ho := hpublic o (List.mem_append_right _ List.mem_cons_self)
    have hel := helementary o (List.mem_append_right _ List.mem_cons_self)
    rw [applyAll_concat] at h
    obtain ⟨-, rfl⟩ | ⟨hold, -⟩ | ⟨rfl, -⟩ := reads_apply ((typed_new settings).applyAll hearlier) ho hel h
    · rfl
    · exact ih hearlier (fun u hu => helementary u (List.mem_append_left _ hu)) hold
        fun value hvalue => hlast value (List.mem_append_left _ hvalue)
    · exact (hlast name (List.mem_append_right _ List.mem_cons_self)).elim

theorem kindOf_preparing (h : s.Intact) (program : Program) (id : NodeId) :
    (s.applyAll (preparing program)).kindOf id = none := by
  obtain ⟨known, heq, -⟩ := registerVariables_eq s.removeAll program.variableTypes
  rw [applyAll_preparing, heq, kindOf]
  show (s.removeAll.nodes.get? id).map (·.kind) = none
  rw [(empty_removeAll h).1]
  rfl

theorem course_restore (s : Session) (os : List Operation) (palette : Palette) (program : Program) :
    s.course (os ++ [.restore palette program]) = (s.course os ++ preparing program) ++
      (s.applyAll (s.course os ++ preparing program)).building palette program := by
  rw [course_append, course, course, List.append_nil, List.append_assoc, applyAll_then, applyAll_course]
  rfl

/-- A restored program registers its variables before its first node is made. -/
theorem not_late_restore (settings : Settings) {os : List Operation} (hos : ∀ o ∈ os, o.Public) {palette : Palette}
    {program : Program} {n : Node}
    (hn : ((new settings).applyAll (os ++ [.restore palette program])).node? id = some n) :
    ¬(new settings).Late ((new settings).course (os ++ [.restore palette program])) id := by
  rintro ⟨before, known, type, after, given, heq, ⟨m, hm, -⟩, -⟩
  have hpublic : ∀ o ∈ (new settings).course (os ++ [.restore palette program]), o.Public :=
    public_course fun o ho => (List.mem_append.1 ho).elim (hos o) fun hr => List.mem_singleton.1 hr ▸ trivial
  have helementary : ∀ o ∈ (new settings).course (os ++ [.restore palette program]), o.Elementary :=
    elementary_course
  rw [← applyAll_course, course_restore] at hn
  rw [course_restore] at heq hpublic helementary
  generalize hready : (new settings).course os ++ preparing program = ready at hn heq hpublic helementary
  -- What is built registers nothing, so the name was registered before.
  have hfront : before <+: ready := by
    obtain ⟨rest, rfl, hbuilding⟩ | ⟨rest, rfl, -⟩ := List.append_eq_append_iff.1 heq
    · have hbuilds : Operation.Builds (.registerVariable known type) :=
        builds_of_mem_building (hbuilding ▸ List.mem_append_right _ List.mem_cons_self)
      cases hbuilds
    · exact List.prefix_append before rest
  have hfirst : ∀ o ∈ ready, o.Elementary := fun o ho => helementary o (List.mem_append_left _ ho)
  have hearlier : ∀ o ∈ before, o.Public := fun o ho =>
    hpublic o (List.mem_append_left _ (hfront.subset ho))
  have hcounted := ((typed_new settings).applyAll hearlier).intact.known_of_node? hm
  have hnumbers := Numbers.applyAll ((new settings).applyAll ready)
    (fun o ho => hpublic o (List.mem_append_right _ ho)) fun o ho => helementary o (List.mem_append_right _ ho)
  have hgone : ((new settings).applyAll ready).kindOf id = none := by
    rw [← hready, applyAll_then, applyAll_course]
    exact kindOf_preparing ((typed_new settings).applyAll hos).intact program id
  rw [applyAll_then] at hn
  obtain hnone | hsame := hnumbers.kind_of_lt (Nat.lt_of_lt_of_le hcounted (next_mono hfront hfirst))
  · rw [kindOf, hn] at hnone
    cases hnone
  · rw [hgone, kindOf, hn] at hsame
    cases hsame

end Runs

/-- The output of a reader has the type registered for the text on its socket, and `any` if there is none, unless
the name was registered after it was stored there. Then the output has the type `any` until a name is stored
again. After a program is restored no reader is late. -/
theorem readers_follow_variables (settings : Settings) {os : List Operation} (hos : ∀ o ∈ os, o.Public) {id : NodeId}
    {n : Node} (hn : ((new settings).applyAll os).node? id = some n) (hk : n.kind = .variableRead) :
    ∃ t p, n.frame.dataSockets = [t] ∧ n.frame.dataPlugs = [p] ∧
      (¬(new settings).Late ((new settings).course os) id →
        p.type = registeredType ((new settings).applyAll os).variableTypes t.value) ∧
      ((new settings).Late ((new settings).course os) id → p.type = .any) ∧
      ∀ earlier palette program, os = earlier ++ [.restore palette program] →
        ¬(new settings).Late ((new settings).course os) id := by
  have hreached : ((new settings).applyAll os).Reached := ⟨settings, os, hos, rfl⟩
  obtain ⟨name, type, -, t, p, ht, hp, rfl, rfl⟩ := (hreached.shaped id n hn).reads hk
  have hpublic := public_course (s := new settings) hos
  have hreads : ((new settings).applyAll ((new settings).course os)).Reads id t.value p.type := by
    rw [applyAll_course]
    exact ⟨n, hn, hk, t, p, ht, hp, rfl, rfl⟩
  refine ⟨t, p, ht, hp, fun hon => ?_, fun hlate => hlate.reads settings hpublic elementary_course hreads, ?_⟩
  · obtain hcurrent | ⟨hlate, -⟩ := reads_run settings hpublic elementary_course hreads
    · rw [applyAll_course] at hcurrent
      exact hcurrent
    · exact absurd hlate hon
  · rintro earlier palette program rfl
    exact not_late_restore settings (fun o ho => hos o (List.mem_append_left _ ho)) hn

/-- A reader is given a name, and then the name is registered. -/
def lateScore : List Operation :=
  [.spawn .variableRead .origin 1.0, .setValue ⟨⟨0⟩, .data, 0⟩ (some (.text "score")),
    .registerVariable "score" .num]

theorem not_registered_lateScore : ¬∀ (settings : Settings) (os : List Operation), (∀ o ∈ os, o.Public) →
    ∀ id name type, ((new settings).applyAll os).Reads id name type →
      type = registeredType ((new settings).applyAll os).variableTypes name := by
  intro hregistered
  have hnum : PortType.any = .num := hregistered .standard lateScore (by simp [lateScore, Operation.Public]) ⟨0⟩
    (some (.text "score")) .any ⟨_, rfl, rfl, _, _, rfl, rfl, rfl, rfl⟩
  cases hnum

theorem readers_follow_variables_lateScore : ∃ n t p, ((new .standard).applyAll lateScore).node? ⟨0⟩ = some n ∧
    n.kind = .variableRead ∧ n.frame.dataSockets = [t] ∧ n.frame.dataPlugs = [p] ∧
    (new .standard).Late ((new .standard).course lateScore) ⟨0⟩ ∧ p.type = .any := by
  obtain ⟨n, hn, hk⟩ : ∃ n, ((new .standard).applyAll lateScore).node? ⟨0⟩ = some n ∧ n.kind = .variableRead :=
    ⟨_, rfl, rfl⟩
  obtain ⟨t, p, ht, hp, -, hany, -⟩ :=
    readers_follow_variables .standard (by simp [lateScore, Operation.Public]) hn hk
  have hlate : (new .standard).Late ((new .standard).course lateScore) ⟨0⟩ :=
    ⟨lateScore.take 2, "score", .num, [], .any, rfl, ⟨_, rfl, rfl, _, _, rfl, rfl, rfl, rfl⟩, rfl,
      fun _ => List.not_mem_nil⟩
  exact ⟨n, t, p, hn, hk, ht, hp, hlate, hany hlate⟩

end Session
end FlowGraph
