import FlowGraph.Proofs.Session.Evolving
import FlowGraph.Proofs.Session.Retyped

/-! # Branch previews

The branches of a condition are drawn for the truth value on its socket, and at full strength while something
feeds the socket or no truth value is there. Storing a constant breaks this in two ways. A truth value that is
stored while something feeds the socket dims a branch at once. And a condition never forgets a truth value that
is taken away or replaced by something else, so its branch stays dimmed, and is dimmed again whenever the socket
is free. Nothing else makes a preview wrong.
-/

namespace FlowGraph
set_option autoImplicit false

namespace Session

/-! ## Restoring -/

/-- No condition has shown anything but the truth value that it holds. -/
def Truthful (s : Session) : Prop := ∀ id n, s.node? id = some n → n.kind = .condition → n.Truthful

theorem Evolves.truthful_or {s t : Session} (h : s.Evolves t) {id : NodeId} {m : Node} (hm : t.node? id = some m)
    (hk : m.kind = .condition) : m.Truthful ∨ ∃ n, s.node? id = some n ∧ n.kind = .condition ∧ n.Changes m := by
  obtain ⟨n, hn | ⟨kind, position, scale, style, rfl⟩, hchanges⟩ := h id m hm
  · exact Or.inr ⟨n, hn, hchanges.kind_eq.symm.trans hk, hchanges⟩
  · obtain rfl : kind = .condition := hchanges.kind_eq.symm.trans hk
    have hfresh := Node.Truthful.fresh position scale style
    exact Or.inl (hfresh.retained (hchanges.retains (.fresh _ position scale style) rfl hfresh.plain))

theorem Truthful.evolves {s t : Session} (h : s.Truthful) (hs : s.Shaped) (he : s.Evolves t) : t.Truthful := by
  intro id m hm hk
  obtain htruthful | ⟨n, hn, hkn, hchanges⟩ := he.truthful_or hm hk
  · exact htruthful
  · have hold := h id n hn hkn
    exact hold.retained (hchanges.retains (hs id n hn) hkn hold.plain)

section Spawning
variable {s t : Session} {id : NodeId} {n : Node}

theorem selectVariant_of_none (hn : s.node? id = some n) (hv : n.frame.variant = none) (variant : Variant) :
    (s.selectVariant id variant).2 = s := by
  unfold selectVariant
  rw [hn, Option.bind_some, hv]

theorem setConstant_of_no_socket {index : Nat} (hnone : t.socket? ⟨id, .data, index⟩ = none)
    (input : InputRecord) : t.setConstant id input index = t := by
  unfold setConstant
  split
  · cases input.value with
    | none => rfl
    | some value =>
      show (t.setValue ⟨id, .data, index⟩ (some value)).2 = t
      unfold setValue
      rw [hnone, Option.isSome_none, Bool.and_false, if_neg Bool.false_ne_true]
  · rfl

theorem node?_setConstant (hn : t.node? id = some n) (input : InputRecord) (index : Nat) :
    (t.setConstant id input index).node? id = some n ∨ ∃ value types,
      (t.setConstant id input index).node? id = some (n.hold index value types) := by
  unfold setConstant
  split
  · cases input.value with
    | none => exact Or.inl hn
    | some value =>
      show (t.setValue ⟨id, .data, index⟩ (some value)).2.node? id = _ ∨ ∃ v types,
        (t.setValue ⟨id, .data, index⟩ (some value)).2.node? id = some (n.hold index v types)
      rw [node?_setValue]
      split
      · rw [hn]
        exact Or.inr ⟨some value, t.variableTypes, rfl⟩
      · exact Or.inl hn
  · exact Or.inl hn

/-- A condition has one data socket, so only the first input of its record counts. -/
theorem setConstants_of_condition (hn : t.node? id = some n) (hs : n.Shaped) (hk : n.kind = .condition)
    (inputs : List InputRecord) {k : Nat} (hpast : 0 < k) :
    (inputs.zipIdx k).foldl (fun t e => t.setConstant id e.1 e.2) t = t := by
  induction inputs generalizing k with
  | nil => rfl
  | cons input rest ih =>
    have hnone : t.socket? ⟨id, .data, k⟩ = none := by
      refine Option.eq_none_iff_forall_not_mem.2 fun u hu => ?_
      obtain ⟨m, hm, hat⟩ := Option.bind_eq_some_iff.1 hu
      obtain rfl := Option.some.inj (hn.symm.trans hm)
      exact (Nat.ne_of_gt hpast) (hs.at_condition hk hat).1
    rw [List.zipIdx_cons, List.foldl_cons, setConstant_of_no_socket hnone]
    exact ih (Nat.succ_pos k)

/-- The constant of a new condition is its first. -/
theorem truthful_setConstants (hn : t.node? id = some n) (hs : n.Shaped) (hk : n.kind = .condition)
    (h : n.Truthful) (hblank : n.frame.simulated = none) (hfree : n.fed = false) (r : NodeRecord) {m : Node}
    (hm : (Restore.setConstants t id r).node? id = some m) : m.Truthful := by
  rw [setConstants_eq] at hm
  generalize r.inputs = inputs at hm
  cases inputs with
  | nil =>
    obtain rfl := Option.some.inj (hn.symm.trans hm)
    exact h
  | cons input rest =>
    rw [List.zipIdx_cons, List.foldl_cons] at hm
    obtain hsame | ⟨value, types, hheld⟩ := node?_setConstant hn input 0
    · rw [setConstants_of_condition hsame hs hk rest (Nat.succ_pos 0), hsame] at hm
      exact Option.some.inj hm ▸ h
    · rw [setConstants_of_condition hheld (hs.hold 0 value types) hk rest (Nat.succ_pos 0), hheld] at hm
      exact Option.some.inj hm ▸ h.hold hs hk hblank hfree value types

theorem truthful_spawnRecord (h : s.Truthful) (hd : s.drag = none) (kind : NodeKind) (r : NodeRecord) :
    (Restore.spawnRecord s kind r).2.Truthful := by
  obtain ⟨-, -, hkind, hothers⟩ := grows_spawnRecord hd kind r
  intro id m hm hk
  by_cases hid : id = s.ids.node.1
  · subst hid
    rw [hm] at hkind
    obtain rfl : kind = .condition := (Option.some.inj hkind).symm.trans hk
    have hnode := node?_spawn s .condition ⟨r.x, r.y⟩ r.scale s.ids.node.1
    rw [if_pos rfl] at hnode
    have hrecord : (Restore.spawnRecord s .condition r).2 =
        Restore.setConstants (s.spawn .condition ⟨r.x, r.y⟩ r.scale).2 s.ids.node.1 r := by
      -- A condition has no variants, so the one in its record is passed over.
      unfold Restore.spawnRecord
      dsimp only
      split
      · exact congrArg (Restore.setConstants · s.ids.node.1 r) (selectVariant_of_none hnode rfl _)
      · rfl
    rw [hrecord] at hm
    exact truthful_setConstants hnode (.fresh _ _ _ _) rfl (.fresh _ _ _) rfl rfl r hm
  · rw [hothers id hid] at hm
    exact h id m hm hk

theorem truthful_spawnAll (h : s.Truthful) (hd : s.drag = none) (palette : Palette) (report : RestoreReport)
    (records : List NodeRecord) : (Restore.spawnAll palette s report records).1.Truthful := by
  induction records generalizing s report with
  | nil => exact h
  | cons r rest ih =>
    unfold Restore.spawnAll
    split
    · exact ih h hd _
    · rename_i kind _
      exact ih (truthful_spawnRecord h hd kind r) ((grows_spawnRecord hd kind r).1.drag.trans hd) _

theorem truthful_connectEach (h : s.Truthful) (hs : s.Shaped) (edges : List PendingEdge) :
    (Restore.connectEach s edges).session.Truthful := by
  induction edges generalizing s with
  | nil => exact h
  | cons e rest ih =>
    unfold Restore.connectEach
    split
    · rename_i c t hok
      exact ih (h.evolves hs (.connect hok)) (hs.move (.connect hok))
    · exact ih h hs
    · exact ih h hs

theorem truthful_connectAll (rounds : Nat) (h : s.Truthful) (hs : s.Shaped) (edges : List PendingEdge) :
    (Restore.connectAll rounds s edges).2.Truthful := by
  induction rounds generalizing s edges with
  | zero => exact h
  | succ rounds ih =>
    have hround := truthful_connectEach h hs edges
    unfold Restore.connectAll
    dsimp only
    split
    · exact hround
    · exact ih hround (hs.moves (moves_connectEach s edges)) _

/-- In a session that has just been restored every preview is right. -/
theorem truthful_restore (hi : s.Intact) (hs : s.Shaped) (palette : Palette) (program : Program) :
    (s.restore palette program).2.Truthful := by
  obtain ⟨hremove, hbody⟩ := moves_removeAll hi
  have hregister := hremove.trans (moves_registerVariables s.removeAll program.variableTypes)
  obtain ⟨known, heq, -⟩ := registerVariables_eq s.removeAll program.variableTypes
  have hnone : (Restore.registerVariables s.removeAll program.variableTypes).Truthful := by
    intro id n hn
    rw [heq] at hn
    have hbare := hbody id
    rw [body?, show s.removeAll.node? id = some n from hn] at hbare
    cases hbare
  have hidle : (Restore.registerVariables s.removeAll program.variableTypes).drag = none := by
    rw [heq]
    exact (empty_removeAll hi).2.2
  have hspawned := truthful_spawnAll hnone hidle palette ⟨.empty, [], 0⟩
    (Restore.firstRecords program.records)
  have hshaped := hs.moves (hregister.trans (moves_spawnAll (hi.moves hregister) palette ⟨.empty, [], 0⟩
    (Restore.firstRecords program.records)))
  exact truthful_connectAll _ hspawned hshaped _

end Spawning

/-! ## One operation -/

section Step
variable {s : Session} {id : NodeId} {n m : Node}

theorem truth_socket?_isSome (hs : s.Shaped) (hn : s.node? id = some n) (hk : n.kind = .condition) :
    (s.socket? ⟨id, .data, 0⟩).isSome := by
  obtain ⟨t, ht⟩ := (hs id n hn).truth_socket hk
  rw [socket?, hn, Option.bind_some, Frame.socket?, ht]
  rfl

/-- A truth value that is stored is shown at once, whether something feeds the condition or not. Any other value
leaves the branches as they are drawn. -/
theorem opacities_setValue (hs : s.Shaped) (hn : s.node? id = some n) (hk : n.kind = .condition)
    (value : Option Literal) : ∃ m, (s.setValue ⟨id, .data, 0⟩ value).2.node? id = some m ∧
      m.frame.opacities = (value.bind Literal.bool?).elim n.frame.opacities fun b => branchOpacities (some b) := by
  refine ⟨n.hold 0 value s.variableTypes, ?_, Node.opacities_hold (hs id n hn) hk value s.variableTypes 0⟩
  rw [node?_setValue, if_pos ⟨rfl, rfl, truth_socket?_isSome hs hn hk⟩, hn]
  rfl

/-- A constant that is stored on the socket of a condition is held there, and no other one concerns it. -/
theorem condition_setValue (hs : s.Shaped) {r : SocketRef} {value : Option Literal}
    (hm : (s.setValue r value).2.node? id = some m) (hk : m.kind = .condition) :
    ∃ n, s.node? id = some n ∧ n.kind = .condition ∧ (n.Retains m ∧ r ≠ ⟨id, .data, 0⟩ ∨
      r = ⟨id, .data, 0⟩ ∧ ∃ types, m = n.hold 0 value types) := by
  obtain ⟨n, hn, hkind, ⟨rfl, helsewhere⟩ | ⟨rfl, hheld⟩⟩ := lone_setValue hs hm (by rw [hk]; rfl)
  · exact ⟨m, hn, hk, Or.inl ⟨.refl m, helsewhere⟩⟩
  · exact ⟨n, hn, hkind.symm.trans hk, Or.inr ⟨rfl, s.variableTypes, hheld⟩⟩

/-- After an operation a condition is as it should be, or it is one of the conditions before, with what it holds
and remembers, or with a new constant. -/
theorem condition_apply (h : s.Reached) {o : Operation} (ho : o.Public) (hm : (s.apply o).node? id = some m)
    (hk : m.kind = .condition) : m.Truthful ∨ ∃ n, s.node? id = some n ∧ n.kind = .condition ∧
      (n.Retains m ∧ (∀ b, o ≠ .setValue ⟨id, .data, 0⟩ (some (.bool b))) ∨
        ∃ value types, o = .setValue ⟨id, .data, 0⟩ value ∧ m = n.hold 0 value types) := by
  by_cases hrestore : ∃ palette program, o = .restore palette program
  · obtain ⟨palette, program, rfl⟩ := hrestore
    exact Or.inl (truthful_restore h.intact h.shaped palette program id m hm hk)
  by_cases hset : ∃ r value, o = .setValue r value
  · obtain ⟨r, value, rfl⟩ := hset
    obtain ⟨n, hn, hkn, ⟨hretains, helsewhere⟩ | ⟨rfl, types, rfl⟩⟩ := condition_setValue h.shaped hm hk
    · refine Or.inr ⟨n, hn, hkn, Or.inl ⟨hretains, fun b hb => ?_⟩⟩
      exact helsewhere (Operation.setValue.inj hb).1
    · exact Or.inr ⟨n, hn, hkn, Or.inr ⟨value, types, rfl, rfl⟩⟩
  · have hevolves : s.Evolves (s.apply o) := .apply h.intact ho (fun r value ho => hset ⟨r, value, ho⟩)
      fun palette program ho => hrestore ⟨palette, program, ho⟩
    obtain htruthful | ⟨n, hn, hkn, hchanges⟩ := hevolves.truthful_or hm hk
    · exact Or.inl htruthful
    · have hretains := hchanges.retains (h.shaped id n hn) hkn ((h.settled hn).plain hkn)
      exact Or.inr ⟨n, hn, hkn, Or.inl ⟨hretains, fun b ho => hset ⟨_, _, ho⟩⟩⟩

end Step

/-! ## Runs -/

def fed (s : Session) (id : NodeId) : Bool := (s.node? id).any Node.fed

def truth? (s : Session) (id : NodeId) : Option Bool := (s.node? id).bind Node.truth?

/-- It holds after a part of the run and has held after each operation since. -/
def Since (s : Session) (before os : List Operation) (P : Session → Prop) : Prop :=
  ∀ mid, before <+: mid → mid <+: os → P (s.applyAll mid)

/-- The run has stored a truth value on a condition while something fed it. Something has fed it ever since,
and no other truth value has been stored. -/
def Intrudes (s : Session) (os : List Operation) (id : NodeId) (b : Bool) : Prop :=
  ∃ before after, os = before ++ .setValue ⟨id, .data, 0⟩ (some (.bool b)) :: after ∧
    s.Since before os (·.fed id = true) ∧ ∀ b', .setValue ⟨id, .data, 0⟩ (some (.bool b')) ∉ after

/-- The run has replaced the truth value of a condition by something else, and none has been there since. -/
def Lingers (s : Session) (os : List Operation) (id : NodeId) (b : Bool) : Prop :=
  ∃ before value after, os = before ++ .setValue ⟨id, .data, 0⟩ value :: after ∧
    (s.applyAll before).truth? id = some b ∧
      s.Since (before ++ [.setValue ⟨id, .data, 0⟩ value]) os (·.truth? id = none)

section Runs
variable {s : Session} {os before : List Operation} {o : Operation} {P : Session → Prop} {id : NodeId} {b : Bool}
  {n m : Node}

theorem Since.now (h : P (s.applyAll os)) : s.Since os os P := by
  intro mid hbefore hmid
  rw [← hbefore.eq_of_length_le hmid.length_le]
  exact h

theorem Since.concat (h : s.Since before os P) (ho : P ((s.applyAll os).apply o)) :
    s.Since before (os ++ [o]) P := by
  intro mid hbefore hmid
  obtain rfl | hmid := List.prefix_concat_iff.1 hmid
  · rw [applyAll_concat]
    exact ho
  · exact h mid hbefore hmid

theorem Intrudes.concat (h : s.Intrudes os id b) (hfed : ((s.applyAll os).apply o).fed id = true)
    (ho : ∀ b', o ≠ .setValue ⟨id, .data, 0⟩ (some (.bool b'))) : s.Intrudes (os ++ [o]) id b := by
  obtain ⟨before, after, rfl, hsince, hlast⟩ := h
  refine ⟨before, after ++ [o], by simp, hsince.concat hfed, fun b' hb' => ?_⟩
  obtain hin | hin := List.mem_append.1 hb'
  · exact hlast b' hin
  · exact ho b' (List.mem_singleton.1 hin).symm

theorem Lingers.concat (h : s.Lingers os id b) (hnone : ((s.applyAll os).apply o).truth? id = none) :
    s.Lingers (os ++ [o]) id b := by
  obtain ⟨before, value, after, rfl, hstored, hsince⟩ := h
  exact ⟨before, value, after ++ [o], by simp, hstored, hsince.concat hnone⟩

theorem Lingers.now (h : s.Lingers os id b) : (s.applyAll os).truth? id = none := by
  obtain ⟨before, value, after, rfl, -, hsince⟩ := h
  exact hsince _ ⟨after, by simp⟩ (List.prefix_refl _)

theorem fed_of_node? {s : Session} (hn : s.node? id = some n) : s.fed id = n.fed := by
  rw [fed, hn]
  rfl

theorem truth?_of_node? {s : Session} (hn : s.node? id = some n) : s.truth? id = n.truth? := by
  rw [truth?, hn]
  rfl

/-- What a condition remembers is the truth value that it holds, and what it shows while it is fed is none; or
else the run has brought about what it remembers and shows. -/
structure Explains (s : Session) (os : List Operation) (id : NodeId) (n : Node) : Prop where
  remembers : n.frame.simulated = n.truth? ∨ ∃ b, n.frame.simulated = some b ∧ s.Lingers os id b
  shows : n.fed = true → n.frame.opacities = branchOpacities none ∨
    ∃ b, s.Intrudes os id b ∧ n.frame.opacities = branchOpacities (some b)

namespace Explains

theorem of_truthful (h : m.Truthful) : s.Explains os id m := by
  refine ⟨Or.inl h.remembers, fun hfed => Or.inl ?_⟩
  rw [h.shows, Node.previewed, if_pos hfed]

/-- A preview that stays is explained as before. -/
theorem shows_concat (h : s.Explains os id n) (hm : ((s.applyAll os).apply o).node? id = some m)
    (hfed : m.fed = n.fed) (hopacities : m.frame.opacities = n.frame.opacities)
    (ho : ∀ b, o ≠ .setValue ⟨id, .data, 0⟩ (some (.bool b))) (hnow : m.fed = true) :
    m.frame.opacities = branchOpacities none ∨
      ∃ b, s.Intrudes (os ++ [o]) id b ∧ m.frame.opacities = branchOpacities (some b) := by
  obtain hfull | ⟨b, hintrudes, hshown⟩ := h.shows (hfed ▸ hnow)
  · exact Or.inl (hopacities.trans hfull)
  · exact Or.inr ⟨b, hintrudes.concat ((fed_of_node? hm).trans hnow) ho, hopacities.trans hshown⟩

theorem retained (h : s.Explains os id n) (hn : (s.applyAll os).node? id = some n)
    (hm : ((s.applyAll os).apply o).node? id = some m) (hr : n.Retains m)
    (ho : ∀ b, o ≠ .setValue ⟨id, .data, 0⟩ (some (.bool b))) : s.Explains (os ++ [o]) id m where
  remembers := by
    obtain hheld | ⟨b, hb, hlingers⟩ := h.remembers
    · exact Or.inl (hr.simulated.trans (hheld.trans hr.truth.symm))
    · refine Or.inr ⟨b, hr.simulated.trans hb, hlingers.concat ?_⟩
      rw [truth?_of_node? hm, hr.truth, ← truth?_of_node? hn]
      exact hlingers.now
  shows hfed := by
    obtain ⟨hsame, hopacities⟩ | hshown := hr.shown
    · exact h.shows_concat hm hsame hopacities ho hfed
    · rw [Node.previewed, if_pos hfed] at hshown
      exact Or.inl hshown

variable (hs : n.Shaped) (hk : n.kind = .condition) (hn : (s.applyAll os).node? id = some n)
  {value : Option Literal} {types : Variables}
  (hm : ((s.applyAll os).apply (.setValue ⟨id, .data, 0⟩ value)).node? id = some (n.hold 0 value types))

include hs hk hn hm

/-- A truth value is remembered and shown, whether the condition is fed or not. -/
theorem stored {b : Bool} (hvalue : value = some (.bool b)) :
    s.Explains (os ++ [.setValue ⟨id, .data, 0⟩ value]) id (n.hold 0 value types) := by
  subst hvalue
  refine ⟨Or.inl ?_, fun hfed => Or.inr ⟨b, ⟨os, [], rfl, ?_, fun _ => List.not_mem_nil⟩, ?_⟩⟩
  · rw [Node.simulated_hold hk, Node.truth?_hold hs hk]
    rfl
  · have hbefore : n.fed = true := (n.fed_hold (some (.bool b)) types 0).symm.trans hfed
    refine (Since.now ?_).concat ((fed_of_node? hm).trans hfed)
    exact (fed_of_node? hn).trans hbefore
  · rw [Node.opacities_hold hs hk]
    rfl

/-- Anything else is not: what was remembered is remembered still, and what was shown is shown. -/
theorem replaced (h : s.Explains os id n) (hset : n.Settled) (hvalue : value.bind Literal.bool? = none) :
    s.Explains (os ++ [.setValue ⟨id, .data, 0⟩ value]) id (n.hold 0 value types) := by
  have htruth := (Node.truth?_hold hs hk value types).trans hvalue
  have hsimulated : (n.hold 0 value types).frame.simulated = n.frame.simulated := by
    rw [Node.simulated_hold hk, hvalue, Option.none_or]
  have hopacities : (n.hold 0 value types).frame.opacities = n.frame.opacities := by
    rw [Node.opacities_hold hs hk, hvalue]
    rfl
  have hnone := (truth?_of_node? hm).trans htruth
  refine ⟨?_, h.shows_concat hm (n.fed_hold value types 0) hopacities fun b hb => ?_⟩
  · rw [htruth, hsimulated]
    cases hold : n.truth? with
    | some b =>
      have hbefore : (s.applyAll os).truth? id = some b := (truth?_of_node? hn).trans hold
      refine Or.inr ⟨b, hset.value hk b hold, os, value, [], rfl, hbefore, Since.now ?_⟩
      rw [applyAll_concat]
      exact hnone
    | none =>
      obtain hheld | ⟨b, hb, hlingers⟩ := h.remembers
      · exact Or.inl (hheld.trans hold)
      · exact Or.inr ⟨b, hb, hlingers.concat hnone⟩
  · obtain ⟨-, rfl⟩ := Operation.setValue.inj hb
    cases hvalue

end Explains

end Runs

/-- Whatever a condition remembers and shows is explained by the run. -/
theorem explains_run (settings : Settings) {os : List Operation} (hos : ∀ o ∈ os, o.Public) {id : NodeId}
    {m : Node} (hm : ((new settings).applyAll os).node? id = some m) (hk : m.kind = .condition) :
    (new settings).Explains os id m := by
  induction os using List.reverseRecOn generalizing m with
  | nil => cases hm
  | append_singleton os o ih =>
    have hbefore : ∀ o ∈ os, o.Public := fun o ho => hos o (List.mem_append_left _ ho)
    have hreached : ((new settings).applyAll os).Reached := ⟨settings, os, hbefore, rfl⟩
    rw [applyAll_concat] at hm
    obtain htruthful | ⟨n, hn, hkn, ⟨hretains, ho⟩ | ⟨value, types, rfl, rfl⟩⟩ :=
      condition_apply hreached (hos o (List.mem_append_right _ List.mem_cons_self)) hm hk
    · exact .of_truthful htruthful
    · exact (ih hbefore hn hkn).retained hn hm hretains ho
    · have hs := hreached.shaped id n hn
      cases hvalue : value.bind Literal.bool? with
      | some b => exact .stored hs hkn hn hm (bind_bool?_eq_some.1 hvalue)
      | none => exact .replaced hs hkn hn hm (ih hbefore hn hkn) (hreached.settled hn) hvalue

/-- The preview of every condition is right, unless a truth value was stored while it was fed, or was replaced
by something else. Either is possible at any time: what is stored next is shown if it is a truth value, and
otherwise nothing is drawn anew. -/
theorem previews_or_slips (settings : Settings) {os : List Operation} (hos : ∀ o ∈ os, o.Public) {id : NodeId}
    {n : Node} (hn : ((new settings).applyAll os).node? id = some n) (hk : n.kind = .condition) :
    ∃ t, n.frame.dataSockets = [t] ∧
      (t.isConnected = true → n.frame.opacities = [1.0, 1.0] ∨
        ∃ b, (new settings).Intrudes os id b ∧ n.frame.opacities = branchOpacities (some b)) ∧
      (t.isConnected = false → ∀ b, t.value = some (.bool b) →
        n.frame.opacities = branchOpacities (some b)) ∧
      (t.isConnected = false → (∀ b, t.value ≠ some (.bool b)) → n.frame.opacities = [1.0, 1.0] ∨
        ∃ b, (new settings).Lingers os id b ∧ n.frame.opacities = branchOpacities (some b)) ∧
      ∀ value, ∃ m, (((new settings).applyAll os).apply (.setValue ⟨id, .data, 0⟩ value)).node? id = some m ∧
        m.frame.opacities = (value.bind Literal.bool?).elim n.frame.opacities
          fun b => branchOpacities (some b) := by
  have hreached : ((new settings).applyAll os).Reached := ⟨settings, os, hos, rfl⟩
  have hset := hreached.settled hn
  have hexplains := explains_run settings hos hn hk
  obtain ⟨t, ht⟩ := (hreached.shaped id n hn).truth_socket hk
  have hat : n.frame.socket? .data 0 = some t := by
    rw [Frame.socket?, ht]
    rfl
  have hfed := Node.fed_eq hat
  have htruth := Node.truth?_eq hat
  refine ⟨t, ht, fun hconnected => ?_, fun hfree b hb => ?_, fun hfree hother => ?_,
    opacities_setValue hreached.shaped hn hk⟩
  · exact hexplains.shows (hfed.trans hconnected)
  · rw [hb] at htruth
    rw [hset.preview hk (Or.inl (hfed.trans hfree)), hset.value hk b htruth]
  · have hnone : n.truth? = none := by
      cases hstate : n.truth? with
      | some b => exact (hother b (bind_bool?_eq_some.1 (htruth.symm.trans hstate))).elim
      | none => rfl
    have hshown := hset.preview hk (Or.inl (hfed.trans hfree))
    -- Nothing feeds the condition, so it shows what it remembers, right or not.
    obtain hheld | ⟨b, hb, hlingers⟩ := hexplains.remembers
    · rw [hheld, hnone] at hshown
      exact Or.inl hshown
    · rw [hb] at hshown
      exact Or.inr ⟨b, hlingers, hshown⟩

/-- A truth value is stored on a condition and taken away again. -/
def clearedTruth : List Operation :=
  [.spawn .condition .origin 1.0, .setValue ⟨⟨0⟩, .data, 0⟩ (some (.bool true)), .setValue ⟨⟨0⟩, .data, 0⟩ none]

theorem previews_or_slips_clearedTruth : ∃ n t, ((new .standard).applyAll clearedTruth).node? ⟨0⟩ = some n ∧
    n.frame.dataSockets = [t] ∧ t.isConnected = false ∧ t.value = none ∧
    n.frame.opacities = branchOpacities (some true) ∧ (n.frame.opacities = [1.0, 1.0] ∨
      ∃ b, (new .standard).Lingers clearedTruth ⟨0⟩ b ∧ n.frame.opacities = branchOpacities (some b)) := by
  obtain ⟨n, hn, hk, hshown, u, hu, hfree, hnone⟩ : ∃ n, ((new .standard).applyAll clearedTruth).node? ⟨0⟩ =
      some n ∧ n.kind = .condition ∧ n.frame.opacities = branchOpacities (some true) ∧
        ∃ u, n.frame.dataSockets = [u] ∧ u.isConnected = false ∧ u.value = none :=
    ⟨_, rfl, rfl, rfl, _, rfl, rfl, rfl⟩
  obtain ⟨t, ht, -, -, hother, -⟩ :=
    previews_or_slips .standard (by simp [clearedTruth, Operation.Public]) hn hk
  obtain rfl := (List.cons.inj (hu.symm.trans ht)).1
  exact ⟨n, u, hn, hu, hfree, hnone, hshown, hother hfree fun b hb => by rw [hnone] at hb; cases hb⟩

end Session
end FlowGraph
