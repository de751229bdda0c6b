import FlowGraph.Proofs.Document.Numerals
import FlowGraph.Proofs.Program.Announced
import FlowGraph.Proofs.Script.SideBySide
import FlowGraph.Proofs.Script.Templates

/-! # Branches that run one after the other

The announcement of a branch is written as one placeholder for each sub-flow, and nothing else. The numbers in
the placeholders are read back as they were written, so every sub-flow is placed once, and in order.
-/

namespace FlowGraph.Script
set_option autoImplicit false

/-! ## Placeholders without text between them -/

namespace Template

/-- Some placeholders, written one behind the other. -/
def side (names : List String) : String := String.join (names.map ("$" ++ ·))

theorem toList_side (names : List String) : (side names).toList = names.flatMap fun name => '$' :: name.toList := by
  simp only [side, String.toList_join, List.flatMap_map, String.toList_append]
  rfl

/-- A name is read to its end. -/
theorem scan_name (text name : List Char) {cs : List Char} (hcs : ∀ c ∈ cs, isNameChar c = true) (rest : List Char) :
    scan ⟨text, some name⟩ (cs ++ rest) = scan ⟨text, some (cs.reverse ++ name)⟩ rest := by
  induction cs generalizing name with
  | nil => rfl
  | cons c cs ih =>
    obtain ⟨hc, hcs⟩ := List.forall_mem_cons.1 hcs
    rw [List.cons_append, scan, Scan.step_inside hc]
    simpa using ih (c :: name) hcs

/-- The text is a name that a placeholder can have. -/
def IsName (name : String) : Prop := name ≠ "" ∧ ∀ c ∈ name.toList, isNameChar c = true

/-- Behind a dollar sign a name is read, and the dollar sign of the next one ends it. -/
theorem scan_side {name : String} (hname : IsName name) {names : List String} (hnames : ∀ n ∈ names, IsName n) :
    scan ⟨[], some []⟩ (name.toList ++ (side names).toList) = .placeholder name :: names.map .placeholder := by
  have hread (n : String) (hn : IsName n) : (Scan.endName ⟨[], some n.toList.reverse⟩) = ([.placeholder n], []) := by
    cases hchars : n.toList.reverse with
    | nil => exact absurd (String.toList_eq_nil_iff.1 (List.reverse_eq_nil_iff.1 hchars)) hn.1
    | cons c cs =>
      show ([Segment.placeholder (String.ofList (c :: cs).reverse)], []) = ([Segment.placeholder n], ([] : List Char))
      rw [← hchars, List.reverse_reverse, String.ofList_toList]
  induction names generalizing name with
  | nil =>
    rw [scan_name [] [] hname.2, List.append_nil, toList_side, List.flatMap_nil, scan, hread name hname]
    rfl
  | cons next names ih =>
    obtain ⟨hnext, hnames⟩ := List.forall_mem_cons.1 hnames
    have hrest := ih hnext hnames
    rw [toList_side] at hrest ⊢
    rw [scan_name [] [] hname.2, List.append_nil, List.flatMap_cons, List.cons_append, scan,
      Scan.step_end not_isNameChar_dollar, hread name hname]
    exact congrArg (Segment.placeholder name :: ·) hrest

theorem parse_side {names : List String} (hnames : ∀ n ∈ names, IsName n) :
    parse (side names) = ⟨names.map .placeholder⟩ := by
  cases names with
  | nil => rfl
  | cons name names =>
    obtain ⟨hname, hnames⟩ := List.forall_mem_cons.1 hnames
    have hrest := scan_side hname hnames
    rw [toList_side] at hrest
    rw [parse, toList_side, List.flatMap_cons, List.cons_append, scan]
    exact congrArg Template.mk hrest

end Template

/-! ## Numbered placeholders -/

def branchName (i : Nat) : String := "branch" ++ toString i

theorem toList_branchName (i : Nat) : (branchName i).toList = "branch".toList ++ Nat.toDigits 10 i := by
  rw [branchName, String.toList_append]
  exact congrArg _ Nat.toList_repr

theorem isName_branchName (i : Nat) : Template.IsName (branchName i) := by
  refine ⟨fun hempty => ?_, fun c hc => ?_⟩
  · have hchars := toList_branchName i
    rw [hempty] at hchars
    exact absurd hchars (by simp)
  · rw [toList_branchName] at hc
    obtain hc | hc := List.mem_append.1 hc
    · have hletters : "branch".toList.all Template.isNameChar = true := by decide
      exact List.all_eq_true.1 hletters c hc
    · simp [Template.isNameChar, Char.isAlphanum, Document.isDigit_toDigits i c hc]

/-- The number is read back. -/
theorem ofName_branchName {i : Nat} (h : Decimal.inWord i = true) : Slot.ofName (branchName i) = .branch i := by
  have hfurther : branchName i ≠ "further" := by
    intro heq
    have hchars := toList_branchName i
    rw [heq] at hchars
    exact absurd (List.cons.inj hchars).1 (by decide)
  have hread : Decimal.readNat? (Nat.toDigits 10 i) = some i := by
    have hdigits : (Nat.toDigits 10 i).all Char.isDigit = true := List.all_eq_true.2 (Document.isDigit_toDigits i)
    simp [Decimal.readNat?, hdigits, Document.natOfDigits_toDigits, Nat.toDigits_ne_nil]
  have htake : (branchName i).toList.take 6 = "branch".toList := by
    rw [toList_branchName]
    rfl
  have hdrop : (branchName i).toList.drop 6 = Nat.toDigits 10 i := by
    rw [toList_branchName]
    rfl
  simp only [Slot.ofName, if_neg hfurther, htake, hdrop, hread, h, if_true]

theorem inWord_of_lt {i n : Nat} (hi : i < n) (h : Decimal.inWord n = true) : Decimal.inWord i = true :=
  decide_eq_true (Nat.lt_trans hi (of_decide_eq_true h))

/-- The announcement of `n` branches is cut into their placeholders. -/
theorem parse_branchSlots (n : Nat) :
    Template.parse (Snippet.branchSlots n) = ⟨(List.range n).map fun i => .placeholder (branchName i)⟩ := by
  have hside : Snippet.branchSlots n = Template.side ((List.range n).map branchName) := by
    rw [Snippet.branchSlots, Template.side, List.map_map]
    simp only [Function.comp_def, branchName, ← String.append_assoc]
    rfl
  rw [hside, Template.parse_side fun name hname => ?_, List.map_map]
  · rfl
  · obtain ⟨i, -, rfl⟩ := List.mem_map.1 hname
    exact isName_branchName i

/-! ## Filling -/

/-- What runs next has no place among the branches. -/
theorem fillSegments_branches {is : List Nat} (his : ∀ i ∈ is, Decimal.inWord i = true)
    (inputs : List (String × String)) (branches : List String) (further : String) :
    fillSegments inputs branches further (is.map fun i => .placeholder (branchName i)) =
      String.join (is.map fun i => branches.getD i "") := by
  induction is with
  | nil => rfl
  | cons i is ih =>
    obtain ⟨hi, his⟩ := List.forall_mem_cons.1 his
    rw [List.map_cons, List.map_cons, String.join_cons, fillSegments, ofName_branchName hi, ih his]

theorem hasBranchSlot_branchSlots {n : Nat} (hn : Decimal.inWord n = true) :
    (Template.parse (Snippet.branchSlots n)).hasBranchSlot = true ↔ 0 < n := by
  rw [parse_branchSlots, Template.hasBranchSlot, List.any_eq_true]
  constructor
  · rintro ⟨name, hname, -⟩
    obtain ⟨segment, hsegment, -⟩ := List.mem_filterMap.1 hname
    obtain ⟨i, hi, -⟩ := List.mem_map.1 hsegment
    exact Nat.zero_lt_of_lt (List.mem_range.1 hi)
  · intro hpos
    refine ⟨branchName 0, List.mem_filterMap.2 ⟨_, List.mem_map.2 ⟨0, List.mem_range.2 hpos, rfl⟩, rfl⟩, ?_⟩
    rw [ofName_branchName (inWord_of_lt hpos hn)]

namespace Step

/-- The step that announces `n` branches. -/
def announcing (n : Nat) : Step := .snippet (Template.parse (Snippet.branchSlots n)) []

/-- Branches run in order behind their announcement, whether there are any or none. -/
theorem tail_announcing {branches : List (List Step)} (hword : Decimal.inWord branches.length = true)
    (rest : List Step) : tail (announcing branches.length :: .branch branches :: rest) =
      ⟨String.join (branches.map render), []⟩ := by
  have hplaced : (List.range branches.length).map (fun i => (branches.map render).getD i "") =
      branches.map render := by
    refine List.ext_getElem (by simp) fun i hi _ => ?_
    have hlt : i < branches.length := by simpa using hi
    simp [hlt]
  have hindex : ∀ i ∈ List.range branches.length, Decimal.inWord i = true :=
    fun i hi => inWord_of_lt (List.mem_range.1 hi) hword
  rw [announcing, tail, tail, renderEach_eq_map, fill, parse_branchSlots, fillSegments_branches hindex, hplaced]

theorem render_announcing {branches : List (List Step)} (hword : Decimal.inWord branches.length = true) :
    render [announcing branches.length, .branch branches] = String.join (branches.map render) := by
  rw [render, tail_announcing hword]
  exact String.empty_append

end Step

/-! ## Compiling -/

namespace Compiler
variable {c : Compiler} {program : Program} {last : Option String} {fs gs : Functions}

/-- Sub-flows are compiled one after the other. -/
theorem flowsSteps_eq_mapM (c : Compiler) (program : Program) (last : Option String) (flows : List (Flow NodeRecord)) :
    c.flowsSteps program last flows = flows.mapM (c.flowSteps program last) := by
  induction flows with
  | nil => rw [flowsSteps, List.mapM_nil]
  | cons flow rest ih => rw [flowsSteps, List.mapM_cons, ih]

theorem length_flowsSteps {flows : List (Flow NodeRecord)} {chains : List (List Step)}
    (h : (c.flowsSteps program last flows).run fs = .ok (chains, gs)) : chains.length = flows.length := by
  induction flows generalizing fs chains with
  | nil =>
    rw [flowsSteps] at h
    cases h
    rfl
  | cons flow rest ih =>
    rw [flowsSteps] at h
    obtain ⟨chain, hs, -, h⟩ := Collect.run_bind_eq_ok.1 h
    obtain ⟨others, hs', hothers, h⟩ := Collect.run_bind_eq_ok.1 h
    cases h
    rw [List.length_cons, List.length_cons, ih hothers]

/-- An announced branch is compiled to the announcement and its sub-flows. -/
theorem flowSteps_announced (hsplit : c.snippets.get? Program.splitIdentifier = some .branchSplit)
    (program : Program) (last : Option String) (n : Nat) (flows : List (Flow NodeRecord)) :
    c.flowSteps program last [.split n, .branch flows] = do
      let chains ← flows.mapM (c.flowSteps program last)
      return [Step.announcing n, .branch chains] := by
  have hannounce : c.splitStep last n = pure (Step.announcing n) := by
    rw [splitStep, hsplit]
    rfl
  rw [flowSteps_cons, flowSteps_cons, flowSteps, entryStep, entryStep, hannounce]
  simp [lastAfter, flowsSteps_eq_mapM]

/-- The text of an announced branch is that of its sub-flows, one behind the other. -/
theorem render_announced (hsplit : c.snippets.get? Program.splitIdentifier = some .branchSplit)
    (program : Program) (last : Option String) {flows : List (Flow NodeRecord)}
    (hword : Decimal.inWord flows.length = true) :
    Step.render <$> c.flowSteps program last [.split flows.length, .branch flows] =
      (fun chains => String.join (chains.map Step.render)) <$> flows.mapM (c.flowSteps program last) := by
  rw [flowSteps_announced hsplit, ← flowsSteps_eq_mapM]
  refine StateT.ext fun fs => ?_
  rw [StateT.run_map, StateT.run_map, StateT.run_bind]
  cases hrun : (c.flowsSteps program last flows).run fs with
  | error e => rfl
  | ok r =>
    obtain ⟨chains, gs⟩ := r
    -- The announcement is for as many branches as there are chains, since every sub-flow makes one chain.
    have hlength : chains.length = flows.length := length_flowsSteps hrun
    have htext := Step.render_announcing (hlength ▸ hword : Decimal.inWord chains.length = true)
    rw [hlength] at htext
    exact congrArg (fun text => Except.ok (text, gs)) htext

/-- A saved flow announces its branches with their number, and an announced branch runs every sub-flow once, in
order, however many there are. -/
theorem branches_run_in_order :
    (∀ (s : Session), ∀ flow ∈ s.toProgram.flows, ∀ n passed rest,
      Entry.Occurs (.split n :: rest) passed flow → Entry.Announced n rest) ∧
    ∀ c : Compiler, c.snippets.get? Program.splitIdentifier = some .branchSplit →
      ∀ (program : Program) (last : Option String) (flows : List (Flow NodeRecord)),
      Decimal.inWord flows.length = true →
      let template := Template.parse (Snippet.branchSlots flows.length)
      template.segments = (List.range flows.length).map (fun i => .placeholder (branchName i)) ∧
        (∀ i < flows.length, Slot.ofName (branchName i) = .branch i) ∧
        (template.hasBranchSlot = true ↔ 0 < flows.length) ∧
        (∀ branches : List (List Step), branches.length = flows.length →
          Step.render [.snippet template [], .branch branches] = String.join (branches.map Step.render)) ∧
        Step.render <$> c.flowSteps program last [.split flows.length, .branch flows] =
          (fun chains => String.join (chains.map Step.render)) <$> flows.mapM (c.flowSteps program last) := by
  refine ⟨fun s flow hflow n passed rest h => Session.announced_toProgram hflow h,
    fun c hsplit program last flows hword => ?_⟩
  refine ⟨by rw [parse_branchSlots], fun i hi => ofName_branchName (inWord_of_lt hi hword),
    hasBranchSlot_branchSlots hword, fun branches hlength => ?_, render_announced hsplit program last hword⟩
  rw [← hlength] at hword ⊢
  exact Step.render_announcing hword

/-- Two ways lead out of the start node. -/
def twoWays : Session := (Session.new .standard).applyAll
  [.spawn .startEvent .origin 1.0, .spawn .consoleLog .origin 1.0, .spawn .consoleLog .origin 1.0,
    .connect ⟨⟨0⟩, .flow, 0⟩ ⟨⟨1⟩, .flow, 0⟩, .connect ⟨⟨0⟩, .flow, 0⟩ ⟨⟨2⟩, .flow, 0⟩]

theorem flows_twoWays : twoWays.flows = [[.node ⟨0⟩, .split 2, .branch [[.node ⟨1⟩], [.node ⟨2⟩]]]] := by
  have hstart : twoWays.startNodes = List.mergeSort [⟨0⟩] fun a b => a.number ≤ b.number := rfl
  rw [List.mergeSort_singleton] at hstart
  rw [Session.flows, hstart]
  rfl

/-- Eleven sub-flows, each of which logs its number. -/
def elevenLogs : List (Flow NodeRecord) :=
  (List.range 11).map fun i =>
    [.node ⟨"n" ++ toString i, NodeKind.consoleLog.identifier, "", 0.0, 0.0, 1.0, none, [[]], [],
      [⟨none, none, .any, true, some (.int (.ofNat i))⟩]⟩]

theorem branches_run_in_order_eleven :
    (∃ flow ∈ twoWays.toProgram.flows, ∃ passed rest, Entry.Occurs (.split 2 :: rest) passed flow ∧
      Entry.Announced 2 rest) ∧
    standard.snippets.get? Program.splitIdentifier = some .branchSplit ∧ Decimal.inWord elevenLogs.length = true ∧
    Slot.ofName "branch10" = .branch 10 ∧
    (Step.render <$> standard.flowSteps ⟨[], [], .empty⟩ none [.split 11, .branch elevenLogs]).run [] =
      .ok ("console.log(0);console.log(1);console.log(2);console.log(3);console.log(4);console.log(5);" ++
        "console.log(6);console.log(7);console.log(8);console.log(9);console.log(10);", []) := by
  obtain ⟨hannounced, hruns⟩ := branches_run_in_order
  obtain ⟨-, hslot, -, -, htext⟩ := hruns standard rfl ⟨[], [], .empty⟩ none elevenLogs rfl
  refine ⟨?_, rfl, rfl, hslot 10 (by decide), (congrArg (fun text => StateT.run text []) htext).trans ?_⟩
  · have hflow : Entry.mapFlow twoWays.recordAt [.node ⟨0⟩, .split 2, .branch [[.node ⟨1⟩], [.node ⟨2⟩]]] ∈
        twoWays.toProgram.flows := by
      rw [Session.flows_toProgram, flows_twoWays]
      exact List.mem_singleton.2 rfl
    exact ⟨_, hflow, _, _, .node .here, hannounced _ _ hflow _ _ _ (.node .here)⟩
  · decide +kernel

end Compiler
end FlowGraph.Script
