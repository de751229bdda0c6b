import FlowGraph.Proofs.Program.Flow
import FlowGraph.Proofs.Script.SideBySide
import Mathlib.Logic.IsEmpty.Basic
import Mathlib.Tactic.Choose

/-! # Texts stay sealed

Where a text may be given as a constant, its content decides nothing. Programs that differ only in such
texts compile alike: into one skeleton, in which each text stands in its places, formatted, and nothing
that it says is read again.
-/

namespace FlowGraph
set_option autoImplicit false

/-! ## Programs up to their texts -/

/-- Whether the constant of the input is a text, and any text would do. -/
def InputRecord.isOpen (i : InputRecord) : Bool :=
  match i.value, i.type with
  | some (.text _), .str => true
  | some (.text _), .any => true
  | _, _ => false

/-- The input with its text taken out. -/
def InputRecord.mask (i : InputRecord) : InputRecord :=
  if i.isOpen then { i with value := some (.text "") } else i

def NodeRecord.mask (r : NodeRecord) : NodeRecord := { r with inputs := r.inputs.map InputRecord.mask }

def Program.mask (p : Program) : Program where
  flows := Entry.mapFlows NodeRecord.mask p.flows
  additional := p.additional.map NodeRecord.mask
  variableTypes := p.variableTypes

namespace InputRecord
variable {i j : InputRecord}

theorem mask_of_open (h : i.isOpen = true) : i.mask = { i with value := some (.text "") } := if_pos h

theorem mask_of_closed (h : i.isOpen = false) : i.mask = i := if_neg (Bool.eq_false_iff.1 h)

theorem isOpen_mask (i : InputRecord) : i.mask.isOpen = i.isOpen := by
  cases h : i.isOpen with
  | false => rw [mask_of_closed h, h]
  | true =>
    rw [mask_of_open h]
    unfold isOpen at h ⊢
    split at h
    · rename_i htype
      simp only [htype]
    · rename_i htype
      simp only [htype]
    · cases h

theorem source_mask (i : InputRecord) : i.mask.source = i.source := by
  unfold mask
  split <;> rfl

theorem port_mask (i : InputRecord) : i.mask.port = i.port := by
  unfold mask
  split <;> rfl

theorem isOpen_eq (h : i.mask = j.mask) : i.isOpen = j.isOpen := by
  rw [← isOpen_mask i, h, isOpen_mask]

theorem source_eq (h : i.mask = j.mask) : i.source = j.source := by
  rw [← source_mask i, h, source_mask]

theorem port_eq (h : i.mask = j.mask) : i.port = j.port := by
  rw [← port_mask i, h, port_mask]

theorem eq_of_mask (h : i.mask = j.mask) (hclosed : j.isOpen = false) : i = j := by
  rw [← mask_of_closed hclosed, ← h, mask_of_closed ((isOpen_eq h).trans hclosed)]

theorem text_of_open (h : i.isOpen = true) : ∃ text, i.value = some (.text text) := by
  unfold isOpen at h
  split at h
  · exact ⟨_, ‹_›⟩
  · exact ⟨_, ‹_›⟩
  · cases h

end InputRecord

theorem Program.records_mask (p : Program) : p.mask.records = p.records.map NodeRecord.mask := by
  rw [records, records, List.map_append, mask, Entry.branchNodes_mapFlows]

/-! ## Families under one image -/

section
variable {Q α β : Type} {g : α → β}

/-- Lists with the same image are a list of families. -/
theorem exists_families (l : List β) (x : Q → List α) (h : ∀ q, (x q).map g = l) :
    ∃ a : List (Q → α), ∀ q, x q = a.map (· q) := by
  induction l generalizing x with
  | nil => exact ⟨[], fun q => List.map_eq_nil_iff.1 (h q)⟩
  | cons b l ih =>
    have hcons (q : Q) : ∃ first rest, x q = first :: rest ∧ g first = b ∧ rest.map g = l :=
      List.map_eq_cons_iff.1 (h q)
    choose first rest hx hfirst hrest using hcons
    obtain ⟨a, ha⟩ := ih rest hrest
    refine ⟨first :: a, fun q => ?_⟩
    rw [hx q, ha q, List.map_cons]

namespace Entry

theorem map_eq_node_iff {entry : Entry α} {b : β} :
    entry.map g = .node b ↔ ∃ a, entry = .node a ∧ g a = b := by
  cases entry <;> simp [map]

theorem map_eq_split_iff {entry : Entry α} {count : Nat} :
    entry.map g = .split count ↔ entry = .split count := by
  cases entry <;> simp [map]

theorem map_eq_branch_iff {entry : Entry α} {branches : List (Flow β)} :
    entry.map g = .branch branches ↔ ∃ others, entry = .branch others ∧ mapFlows g others = branches := by
  cases entry <;> simp [map]

theorem mapFlow_eq_nil_iff {flow : Flow α} : mapFlow g flow = [] ↔ flow = [] := by
  cases flow <;> simp [mapFlow]

theorem mapFlow_eq_cons_iff {flow : Flow α} {entry : Entry β} {rest : Flow β} :
    mapFlow g flow = entry :: rest ↔
      ∃ first others, flow = first :: others ∧ first.map g = entry ∧ mapFlow g others = rest := by
  cases flow <;> simp [mapFlow, and_assoc]

mutual

/-- Entries with the same image have one shape, with a family at each node. -/
theorem exists_shape : (entry : Entry β) → ∀ x : Q → Entry α, (∀ q, (x q).map g = entry) →
    ∃ shape : Entry (Q → α), ∀ q, x q = shape.map (· q)
  | .node b, x, h => by
    have hnode (q : Q) := map_eq_node_iff.1 (h q)
    choose a hx _ using hnode
    exact ⟨.node a, hx⟩
  | .split count, x, h => ⟨.split count, fun q => map_eq_split_iff.1 (h q)⟩
  | .branch branches, x, h => by
    have hbranch (q : Q) := map_eq_branch_iff.1 (h q)
    choose others hx hothers using hbranch
    obtain ⟨shapes, hshapes⟩ := exists_shapes branches others hothers
    refine ⟨.branch shapes, fun q => ?_⟩
    rw [hx q, hshapes q, map]

theorem exists_shapeFlow : (flow : Flow β) → ∀ x : Q → Flow α, (∀ q, mapFlow g (x q) = flow) →
    ∃ shape : Flow (Q → α), ∀ q, x q = mapFlow (· q) shape
  | [], x, h => ⟨[], fun q => mapFlow_eq_nil_iff.1 (h q)⟩
  | entry :: rest, x, h => by
    have hcons (q : Q) := mapFlow_eq_cons_iff.1 (h q)
    choose first others hx hfirst hothers using hcons
    obtain ⟨shape, hshape⟩ := exists_shape entry first hfirst
    obtain ⟨shapes, hshapes⟩ := exists_shapeFlow rest others hothers
    refine ⟨shape :: shapes, fun q => ?_⟩
    rw [hx q, hshape q, hshapes q, mapFlow]

theorem exists_shapes : (flows : List (Flow β)) → ∀ x : Q → List (Flow α),
    (∀ q, mapFlows g (x q) = flows) → ∃ shapes : List (Flow (Q → α)), ∀ q, x q = mapFlows (· q) shapes
  | [], x, h => ⟨[], fun q => by
    have hnil := h q
    rw [mapFlows_eq_map] at hnil
    exact List.map_eq_nil_iff.1 hnil⟩
  | flow :: rest, x, h => by
    have hcons (q : Q) : ∃ first others, x q = first :: others ∧ mapFlow g first = flow ∧
        mapFlows g others = rest := by
      have hmap := h q
      rw [mapFlows_eq_map] at hmap
      simp only [mapFlows_eq_map]
      exact List.map_eq_cons_iff.1 hmap
    choose first others hx hfirst hothers using hcons
    obtain ⟨shape, hshape⟩ := exists_shapeFlow flow first hfirst
    obtain ⟨shapes, hshapes⟩ := exists_shapes rest others hothers
    refine ⟨shape :: shapes, fun q => ?_⟩
    rw [hx q, hshape q, hshapes q, mapFlows]

end

end Entry
end

namespace Script

theorem SnippetTable.lookup?_mask (t : SnippetTable) (r : NodeRecord) : t.lookup? r.mask = t.lookup? r := rfl

namespace Compiler

/-! ## Skeletons -/

/-- A piece of a script: a fixed text, or the place of the constant of an input, which is given by its
number within its record and the number of the record. -/
inductive Piece where
  | text (value : String)
  | hole (record input : Nat)

def Piece.Open (p : Program) : Piece → Prop
  | .text _ => True
  | .hole record input =>
    ∃ r i, p.records[record]? = some r ∧ r.inputs[input]? = some i ∧ i.isOpen = true

/-- The constant of an input as it is written. -/
def constant? (c : Compiler) (p : Program) (record input : Nat) : Option String := do
  let r ← p.records[record]?
  let i ← r.inputs[input]?
  let value ← i.value
  (c.formatter.format value i.type).toOption

def Piece.fill? (c : Compiler) (p : Program) : Piece → Option String
  | .text value => some value
  | .hole record input => c.constant? p record input

/-- The skeleton with the constants of a program in its holes. -/
def fill? (c : Compiler) (p : Program) (skeleton : List Piece) : Option String :=
  (skeleton.mapM (Piece.fill? c p)).map String.join

/-- The formatter has an expression for every text on an input without a source. -/
def Accepts (c : Compiler) (p : Program) : Prop :=
  ∀ r ∈ p.records, ∀ i ∈ r.inputs, i.source = none → i.isOpen = true → ∀ value, i.value = some value →
    ∃ text, c.formatter.format value i.type = .ok text

theorem accepts_words (words : WordTable) (snippets : SnippetTable) (maxDepth : Nat) (p : Program) :
    Accepts ⟨snippets, words.formatter, maxDepth⟩ p := by
  intro r _ i _ _ hopen value hvalue
  unfold InputRecord.isOpen at hopen
  rw [hvalue] at hopen
  split at hopen
  · rename_i hv ht
    cases hv
    exact ⟨_, by rw [ht]; rfl⟩
  · rename_i hv ht
    cases hv
    exact ⟨_, by rw [ht]; rfl⟩
  · cases hopen

section
variable {c : Compiler} {p : Program}

theorem fill?_append (s t : List Piece) :
    c.fill? p (s ++ t) = (c.fill? p s).bind fun front => (c.fill? p t).map (front ++ ·) := by
  unfold fill?
  rw [List.mapM_append]
  cases s.mapM (Piece.fill? c p) with
  | none => rfl
  | some a =>
    cases t.mapM (Piece.fill? c p) with
    | none => rfl
    | some b => simp

theorem fill?_text (value : String) : c.fill? p [.text value] = some value := by
  simp [fill?, Piece.fill?]

theorem fill?_hole (record input : Nat) : c.fill? p [.hole record input] = c.constant? p record input := by
  cases h : c.constant? p record input <;> simp [fill?, Piece.fill?, h]

/-! ## All texts side by side -/

/-- The programs that differ from `p` in their texts only, and whose texts the formatter accepts. -/
abbrev Companions (c : Compiler) (p : Program) : Type := { q : Program // q.mask = p.mask ∧ Accepts c q }

/-- A uid that is the same in all programs. -/
def Shared (u : Companions c p → String) : Prop := ∃ uid, ∀ q, u q = uid

/-- The records of one number. -/
def Placed (r : Companions c p → NodeRecord) : Prop := ∃ k : Nat, ∀ q, q.1.records[k]? = some (r q)

/-- The texts of one skeleton. -/
def Filled (t : Companions c p → String) : Prop :=
  ∃ skeleton, (∀ piece ∈ skeleton, piece.Open p) ∧ ∀ q, c.fill? q.1 skeleton = some (t q)

theorem textual_filled : Textual (Filled (c := c) (p := p)) where
  fixed t := ⟨[.text t], fun piece hpiece => by
    rw [List.mem_singleton.1 hpiece]
    trivial, fun q => fill?_text t⟩
  append := by
    rintro s t ⟨front, hfront, hs⟩ ⟨back, hback, ht⟩
    refine ⟨front ++ back, fun piece hpiece => ?_, fun q => ?_⟩
    · obtain hpiece | hpiece := List.mem_append.1 hpiece
      · exact hfront piece hpiece
      · exact hback piece hpiece
    · rw [fill?_append, hs q, ht q]
      rfl

theorem getElem?_of_map_eq {α β : Type} {g : α → β} {l l' : List α} (h : l.map g = l'.map g) (i : Nat) :
    (l[i]?).map g = (l'[i]?).map g := by
  rw [← List.getElem?_map, h, List.getElem?_map]

theorem records_companion (q : Companions c p) :
    q.1.records.map NodeRecord.mask = p.records.map NodeRecord.mask := by
  rw [← Program.records_mask, q.2.1, Program.records_mask]

/-- The records of one number have one mask. -/
theorem mask_of_placed [hq : Nonempty (Companions c p)] {r : Companions c p → NodeRecord} {k : Nat}
    (h : ∀ q, q.1.records[k]? = some (r q)) :
    ∃ r₀, p.records[k]? = some r₀ ∧ ∀ q, (r q).mask = r₀.mask := by
  have hmask (q : Companions c p) : some (r q).mask = (p.records[k]?).map NodeRecord.mask := by
    rw [← getElem?_of_map_eq (records_companion q) k, h q, Option.map_some]
  obtain ⟨q₀⟩ := hq
  obtain ⟨r₀, hr₀, -⟩ := Option.map_eq_some_iff.1 (hmask q₀).symm
  refine ⟨r₀, hr₀, fun q => ?_⟩
  have hq := hmask q
  rw [hr₀, Option.map_some] at hq
  exact Option.some.inj hq

theorem inputsMatch_mask [Nonempty (Companions c p)] {r : Companions c p → NodeRecord} (hr : Placed r)
    (i : Nat) : InputsMatch c Shared Filled r i := by
  obtain ⟨k, hk⟩ := hr
  obtain ⟨r₀, hr₀, hmask⟩ := mask_of_placed hk
  have hinputs (q : Companions c p) :
      ((r q).inputs[i]?).map InputRecord.mask = (r₀.inputs[i]?).map InputRecord.mask :=
    getElem?_of_map_eq (congrArg NodeRecord.inputs (hmask q)) i
  cases hin : r₀.inputs[i]? with
  | none =>
    simp only [hin, Option.map_none, Option.map_eq_none_iff] at hinputs
    exact .absent hinputs
  | some input₀ =>
    simp only [hin, Option.map_some, Option.map_eq_some_iff] at hinputs
    choose input h hsame using hinputs
    cases hs : input₀.source with
    | some u =>
      have hs' (q : Companions c p) : (input q).source = some u := by
        rw [InputRecord.source_eq (hsame q), hs]
      cases hp : input₀.port with
      | none => exact .portless h ⟨u, fun _ => rfl⟩ hs' fun q => by rw [InputRecord.port_eq (hsame q), hp]
      | some port => exact .source h ⟨u, fun _ => rfl⟩ hs' fun q => by rw [InputRecord.port_eq (hsame q), hp]
    | none =>
      have hs' (q : Companions c p) : (input q).source = none := by
        rw [InputRecord.source_eq (hsame q), hs]
      cases hopen : input₀.isOpen with
      | false =>
        have heq (q : Companions c p) : input q = input₀ := InputRecord.eq_of_mask (hsame q) hopen
        cases hv : input₀.value with
        | none => exact .unset h hs' fun q => by rw [heq q, hv]
        | some value =>
          have hv' (q : Companions c p) : (input q).value = some value := by rw [heq q, hv]
          cases hf : c.formatter.format value input₀.type with
          | ok text =>
            exact .constant h hs' hv' (textual_filled.fixed text) fun q => by rw [heq q, hf]
          | error reason => exact .refused h hs' hv' (fun q => by rw [heq q]) hf
      | true =>
        -- Each program has a text of its own here, and they all go into one hole.
        have hopen' (q : Companions c p) : (input q).isOpen = true := by
          rw [InputRecord.isOpen_eq (hsame q), hopen]
        have hvalue (q : Companions c p) := InputRecord.text_of_open (hopen' q)
        choose content hv using hvalue
        have htext (q : Companions c p) := q.2.2 (r q) (List.mem_of_getElem? (hk q)) (input q)
          (List.mem_of_getElem? (h q)) (hs' q) (hopen' q) _ (hv q)
        choose text hf using htext
        have hfilled : Filled text := by
          refine ⟨[.hole k i], fun piece hpiece => ?_, fun q => ?_⟩
          · rw [List.mem_singleton.1 hpiece]
            exact ⟨r₀, input₀, hr₀, hin, hopen⟩
          · rw [fill?_hole, constant?, hk q]
            simp only [Option.bind_eq_bind, Option.bind_some, h q, hv q, hf q]
            rfl
        exact .constant h hs' hv hfilled hf

/-- All programs find the records of one number under a uid, or no record. -/
theorem find?_families {Q : Type} (records : List (Q → NodeRecord)) (uid : String)
    (h : ∀ r ∈ records, ∃ own, ∀ q, (r q).uid = own) :
    (∀ q, (records.map (· q)).find? (·.uid == uid) = none) ∨
      ∃ r ∈ records, ∀ q, (records.map (· q)).find? (·.uid == uid) = some (r q) := by
  induction records with
  | nil => exact Or.inl fun _ => rfl
  | cons r records ih =>
    obtain ⟨own, hown⟩ := h r List.mem_cons_self
    by_cases hsame : own = uid
    · refine Or.inr ⟨r, List.mem_cons_self, fun q => ?_⟩
      rw [List.map_cons, List.find?_cons_of_pos (by rw [hown q, hsame, beq_self_eq_true])]
    · have hskip (q : Q) : ((r :: records).map (· q)).find? (·.uid == uid) =
          (records.map (· q)).find? (·.uid == uid) := by
        rw [List.map_cons, List.find?_cons_of_neg (by rw [hown q, beq_iff_eq]; exact hsame)]
      simp only [hskip]
      obtain hnone | ⟨r', hr', hsome⟩ := ih fun r hr => h r (List.mem_cons_of_mem _ hr)
      · exact Or.inl hnone
      · exact Or.inr ⟨r', List.mem_cons_of_mem _ hr', hsome⟩

theorem uid_of_placed [Nonempty (Companions c p)] {r : Companions c p → NodeRecord} (h : Placed r) :
    ∃ uid, ∀ q, (r q).uid = uid := by
  obtain ⟨k, hk⟩ := h
  obtain ⟨r₀, -, hmask⟩ := mask_of_placed hk
  refine ⟨r₀.uid, fun q => ?_⟩
  have huid := congrArg NodeRecord.uid (hmask q)
  exact huid

theorem find_companions [Nonempty (Companions c p)] {u : Companions c p → String} (hu : Shared u) :
    (∀ q : Companions c p, q.1.find? (u q) = none) ∨
      ∃ r, Placed r ∧ ∀ q : Companions c p, q.1.find? (u q) = some (r q) := by
  obtain ⟨uid, hu⟩ := hu
  obtain ⟨records, hrecords⟩ := exists_families _ (fun q : Companions c p => q.1.records) records_companion
  have hplaced (r : Companions c p → NodeRecord) (hr : r ∈ records) : Placed r := by
    obtain ⟨k, hk⟩ := List.mem_iff_getElem?.1 hr
    refine ⟨k, fun q => ?_⟩
    rw [hrecords q, List.getElem?_map, hk, Option.map_some]
  simp only [Program.find?, hu, hrecords]
  obtain hnone | ⟨r, hr, hsome⟩ := find?_families records uid fun r hr => uid_of_placed (hplaced r hr)
  · exact Or.inl hnone
  · exact Or.inr ⟨r, hplaced r hr, hsome⟩

theorem matching_mask (c : Compiler) (p : Program) [Nonempty (Companions c p)] :
    Matching c (fun q : Companions c p => q.1) Shared Placed Filled where
  toTextual := textual_filled
  uid := uid_of_placed
  identifier := by
    rintro r ⟨k, hk⟩
    obtain ⟨r₀, -, hmask⟩ := mask_of_placed hk
    refine ⟨r₀.identifier, fun q => ?_⟩
    have hname := congrArg NodeRecord.identifier (hmask q)
    exact hname
  snippet := by
    rintro r ⟨k, hk⟩
    obtain ⟨r₀, -, hmask⟩ := mask_of_placed hk
    refine ⟨c.snippets.lookup? r₀.mask, fun q => ?_⟩
    rw [← hmask q, SnippetTable.lookup?_mask]
  input := inputsMatch_mask
  apart := by
    rintro u v ⟨a, hu⟩ ⟨b, hv⟩
    by_cases hab : a = b
    · exact Or.inl fun q => by rw [hu, hv, hab]
    · exact Or.inr fun q => by rw [hu, hv]; exact hab
  find := find_companions

/-- What is blamed in all programs is one error. -/
theorem same_of_blames [Nonempty (Companions c p)] {e : Companions c p → CompileError}
    (h : Blames c Shared Placed e) : ∃ error, ∀ q, e q = error := by
  cases h with
  | unknownIdentifier hu identifier =>
    obtain ⟨uid, hu⟩ := hu
    simp only [hu]
    exact ⟨_, fun _ => rfl⟩
  | unplaced => exact ⟨_, fun _ => rfl⟩
  | missingSource hu hv input =>
    obtain ⟨uid, hu⟩ := hu
    obtain ⟨source, hv⟩ := hv
    simp only [hu, hv]
    exact ⟨_, fun _ => rfl⟩
  | missingOutput hu port =>
    obtain ⟨uid, hu⟩ := hu
    simp only [hu]
    exact ⟨_, fun _ => rfl⟩
  | dataCycle hu =>
    obtain ⟨uid, hu⟩ := hu
    simp only [hu]
    exact ⟨_, fun _ => rfl⟩
  | recursionLimit hu =>
    obtain ⟨uid, hu⟩ := hu
    simp only [hu]
    exact ⟨_, fun _ => rfl⟩
  | portless hr hu =>
    obtain ⟨uid, huid⟩ := uid_of_placed hr
    obtain ⟨source, hu⟩ := hu
    simp only [huid, hu]
    exact ⟨_, fun _ => rfl⟩
  | refused hr =>
    obtain ⟨uid, huid⟩ := uid_of_placed hr
    simp only [huid]
    exact ⟨_, fun _ => rfl⟩

end

/-! ## Compilations of the same mask -/

/-- Programs that differ in their texts only all fail with one error, or all compile to one skeleton
with their own texts in its holes, and to the same functions. -/
theorem compile_sealed (c : Compiler) (hplain : c.snippets.Plain) (p : Program) :
    (∃ e, ∀ q, q.mask = p.mask → Accepts c q → c.compile q = .error e) ∨
      ∃ skeleton functions, (∀ piece ∈ skeleton, piece.Open p) ∧
        ∀ q, q.mask = p.mask → Accepts c q →
          ∃ script, c.fill? q skeleton = some script ∧ c.compile q = .ok ⟨script, functions⟩ := by
  obtain hnone | hsome := isEmpty_or_nonempty (Companions c p)
  · exact Or.inl ⟨.invalidProgram, fun q hmask haccepts => (hnone.false ⟨q, hmask, haccepts⟩).elim⟩
  obtain ⟨shapes, hshapes⟩ := Entry.exists_shapes p.mask.flows (fun q : Companions c p => q.1.flows)
    fun q => congrArg Program.flows q.2.1
  have hplaced (r : Companions c p → NodeRecord) (hr : r ∈ Entry.branchNodes shapes) : Placed r := by
    obtain ⟨k, hk⟩ := List.mem_iff_getElem?.1 hr
    refine ⟨k, fun q => ?_⟩
    have hlt : k < (Entry.branchNodes q.1.flows).length := by
      rw [hshapes q, Entry.branchNodes_mapFlows, List.length_map]
      exact (List.getElem?_eq_some_iff.1 hk).1
    rw [Program.records, List.getElem?_append_left hlt, hshapes q, Entry.branchNodes_mapFlows,
      List.getElem?_map, hk, Option.map_some]
  obtain ⟨e, he, hrun⟩ | ⟨script, functions, ⟨skeleton, hopen, hfill⟩, hrun⟩ :=
    compile_together (matching_mask c p) hplain hshapes hplaced
  · obtain ⟨error, herror⟩ := same_of_blames he
    refine Or.inl ⟨error, fun q hmask haccepts => ?_⟩
    rw [hrun ⟨q, hmask, haccepts⟩, herror]
  · refine Or.inr ⟨skeleton, functions, hopen, fun q hmask haccepts => ?_⟩
    exact ⟨_, hfill ⟨q, hmask, haccepts⟩, hrun ⟨q, hmask, haccepts⟩⟩

/-- The variable that the text names is logged. -/
def logged (text : String) : Program where
  flows := [[.node ⟨"start", "OpenVS-Base-Event-Start", "StartEventNode", 0.0, 0.0, 1.0, none,
      [[⟨"c0", "log", 0⟩]], [], []⟩,
    .node ⟨"log", "OpenVS-Base-Console-Log", "ConsoleLogNode", 0.0, 0.0, 1.0, none, [[]], [],
      [⟨some "read", some 0, .any, false, none⟩]⟩]]
  additional := [⟨"read", "OpenVS-Base-Variable-Read", "VariableReadNode", 0.0, 0.0, 1.0, none, [],
    [[⟨"c1", "log", 0⟩]], [⟨none, none, .str, true, some (.text text)⟩]⟩]
  variableTypes := .empty

example : (standard.compile (logged "$further")).toOption = some
    ⟨"(function() \x7bconsole.log((globalThis.OVSVariables ?? \x7b\x7d)[\"$further\"]);\x7d)()", []⟩ := by
  decide +kernel

theorem compile_sealed_logged :
    standard.snippets.Plain ∧ ∃ skeleton functions, (∀ piece ∈ skeleton, piece.Open (logged "")) ∧
      ∀ text, ∃ script, standard.fill? (logged text) skeleton = some script ∧
        standard.compile (logged text) = .ok ⟨script, functions⟩ := by
  have haccepts (text : String) : Accepts standard (logged text) := accepts_words _ _ _ _
  have hcompiles : (standard.compile (logged "")).toOption.isSome = true := by decide +kernel
  refine ⟨SnippetTable.plain_browser, ?_⟩
  obtain ⟨e, he⟩ | ⟨skeleton, functions, hopen, hfill⟩ :=
    compile_sealed standard SnippetTable.plain_browser (logged "")
  · rw [he _ rfl (haccepts "")] at hcompiles
    cases hcompiles
  · exact ⟨skeleton, functions, hopen, fun text => hfill _ rfl (haccepts text)⟩

end Compiler
end Script
end FlowGraph
