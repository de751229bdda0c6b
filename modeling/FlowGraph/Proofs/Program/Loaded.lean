import FlowGraph.Proofs.Document.Printed
import FlowGraph.Proofs.Program.Decoded

/-! # Programs saved as text and loaded again

The text of a program is read back as the program, as long as it does not nest deeper than the reader
opens lists and objects. Each branch within a branch takes three levels of these.
-/

namespace FlowGraph
set_option autoImplicit false

/-! ## Branches within branches -/

namespace Entry
variable {α : Type}

mutual

/-- How many branch entries stand within each other. -/
def levels : Entry α → Nat
  | .node _ => 0
  | .split _ => 0
  | .branch bs => branchLevels bs + 1

def flowLevels : Flow α → Nat
  | [] => 0
  | e :: rest => max e.levels (flowLevels rest)

def branchLevels : List (Flow α) → Nat
  | [] => 0
  | flow :: rest => max (flowLevels flow) (branchLevels rest)

end

end Entry

/-! ## How deep a program is -/

theorem PortLink.depth_toDocument (l : PortLink) : l.toDocument.depth ≤ 1 := Nat.le_refl 1

theorem InputRecord.depth_toDocument {i : InputRecord} {n : Nat}
    (h : ∀ l ∈ i.value, l.toDocument.depth ≤ n) : i.toDocument.depth ≤ n + 1 := by
  obtain ⟨source, port, type, constant, value⟩ := i
  refine Document.depth_object_le fun f hf => ?_
  simp only [List.mem_cons, List.not_mem_nil, or_false] at hf
  obtain rfl | rfl | rfl | rfl | rfl := hf
  · cases source <;> exact Nat.zero_le n
  · cases port <;> exact Nat.zero_le n
  · exact Nat.zero_le n
  · exact Nat.zero_le n
  · cases value with
    | none => exact Nat.zero_le n
    | some l => exact h l rfl

namespace NodeRecord

/-- The constants of the record hold at most 64 lists within each other. -/
def Shallow (r : NodeRecord) : Prop := ∀ l ∈ r.constants, l.toDocument.depth ≤ 64

instance decidableShallow (r : NodeRecord) : Decidable r.Shallow :=
  inferInstanceAs (Decidable (∀ l ∈ r.constants, l.toDocument.depth ≤ 64))

theorem depth_linksDocument (plugs : List (List PortLink)) : (linksDocument plugs).depth ≤ 3 := by
  refine Document.depth_list_le fun d hd => ?_
  obtain ⟨links, -, rfl⟩ := List.mem_map.1 hd
  refine Document.depth_list_le fun d hd => ?_
  obtain ⟨l, -, rfl⟩ := List.mem_map.1 hd
  exact l.depth_toDocument

theorem depth_fields {r : NodeRecord} (h : r.Shallow) : ∀ f ∈ r.fields, f.2.depth ≤ 66 := by
  have hlinks (plugs : List (List PortLink)) : (linksDocument plugs).depth ≤ 66 :=
    (depth_linksDocument plugs).trans (by decide)
  intro f hf
  simp only [fields, List.mem_append, List.mem_cons, List.not_mem_nil, or_false] at hf
  obtain ((rfl | rfl | rfl | rfl | rfl | rfl) | hf) | rfl | rfl | rfl := hf
  · exact Nat.zero_le 66
  · exact Nat.zero_le 66
  · exact Nat.zero_le 66
  · exact Nat.zero_le 66
  · exact Nat.zero_le 66
  · exact Nat.zero_le 66
  · obtain ⟨v, -, rfl⟩ := Option.map_eq_some_iff.1 (Option.mem_toList.1 hf)
    exact Nat.zero_le 66
  · exact hlinks r.flowPlugs
  · exact hlinks r.dataPlugs
  · refine Document.depth_list_le fun d hd => ?_
    obtain ⟨i, hi, rfl⟩ := List.mem_map.1 hd
    exact i.depth_toDocument fun l hl => h l (List.mem_filterMap.2 ⟨i, hi, hl⟩)

theorem depth_toDocument {r : NodeRecord} (h : r.Shallow) : r.toDocument.depth ≤ 67 :=
  Document.depth_object_le (depth_fields h)

end NodeRecord

namespace Entry

mutual

theorem depth_toDocument_le : (e : Entry NodeRecord) → (∀ r ∈ e.nodes, r.Shallow) →
    e.toDocument.depth ≤ 67 + 3 * e.levels
  | .node r, h => by
    refine Document.depth_object_le fun f hf => ?_
    obtain rfl | hf := List.mem_cons.1 hf
    · exact Nat.zero_le 66
    · exact NodeRecord.depth_fields (h r (List.mem_singleton.2 rfl)) f hf
  | .split _, _ => Nat.le_add_right 1 66
  | .branch bs, h => by
    have hbranches := depth_flowDocuments_le bs h
    simp only [toDocument, levels, Document.depth, Document.depthFields]
    omega

theorem depth_entryDocuments_le : (flow : Flow NodeRecord) → (∀ r ∈ flowNodes flow, r.Shallow) →
    Document.depthItems (entryDocuments flow) ≤ 67 + 3 * flowLevels flow
  | [], _ => Nat.zero_le _
  | e :: rest, h => by
    have he := depth_toDocument_le e fun r hr => h r (List.mem_append_left _ hr)
    have hrest := depth_entryDocuments_le rest fun r hr => h r (List.mem_append_right _ hr)
    simp only [entryDocuments, flowLevels, Document.depthItems]
    omega

theorem depth_flowDocuments_le : (flows : List (Flow NodeRecord)) → (∀ r ∈ branchNodes flows, r.Shallow) →
    Document.depthItems (flowDocuments flows) ≤ 68 + 3 * branchLevels flows
  | [], _ => Nat.zero_le _
  | flow :: rest, h => by
    have hflow := depth_entryDocuments_le flow fun r hr => h r (List.mem_append_left _ hr)
    have hrest := depth_flowDocuments_le rest fun r hr => h r (List.mem_append_right _ hr)
    simp only [flowDocuments, branchLevels, Document.depthItems, Document.depth]
    omega

end

mutual

theorem le_depth_toDocument : (e : Entry NodeRecord) → 3 * e.levels ≤ e.toDocument.depth + 1
  | .node _ => Nat.zero_le _
  | .split _ => Nat.zero_le _
  | .branch bs => by
    have hbranches := le_depth_flowDocuments bs
    simp only [toDocument, levels, Document.depth, Document.depthFields]
    omega

theorem le_depth_entryDocuments : (flow : Flow NodeRecord) →
    3 * flowLevels flow ≤ Document.depthItems (entryDocuments flow) + 1
  | [] => Nat.zero_le _
  | e :: rest => by
    have he := le_depth_toDocument e
    have hrest := le_depth_entryDocuments rest
    simp only [entryDocuments, flowLevels, Document.depthItems]
    omega

theorem le_depth_flowDocuments : (flows : List (Flow NodeRecord)) →
    3 * branchLevels flows ≤ Document.depthItems (flowDocuments flows)
  | [] => Nat.zero_le _
  | flow :: rest => by
    have hflow := le_depth_entryDocuments flow
    have hrest := le_depth_flowDocuments rest
    simp only [flowDocuments, branchLevels, Document.depthItems, Document.depth]
    omega

end

end Entry

namespace Program

/-- The constants of the program hold at most 64 lists within each other. -/
def Shallow (p : Program) : Prop := ∀ r ∈ p.records, r.Shallow

instance decidableShallow (p : Program) : Decidable p.Shallow :=
  inferInstanceAs (Decidable (∀ r ∈ p.records, r.Shallow))

theorem depth_additional {p : Program} (h : p.Shallow) :
    (Document.list (p.additional.map NodeRecord.toDocument)).depth ≤ 68 := by
  refine Document.depth_list_le fun d hd => ?_
  obtain ⟨r, hr, rfl⟩ := List.mem_map.1 hd
  exact NodeRecord.depth_toDocument (h r (List.mem_append_right _ hr))

theorem depth_variablesDocument (m : SortedMap PortType) : (variablesDocument m).depth ≤ 1 := by
  refine Document.depth_object_le fun f hf => ?_
  obtain ⟨e, -, rfl⟩ := List.mem_map.1 hf
  exact Nat.le_refl 0

/-- Only the flows make a program deeper than its records are. -/
theorem depth_le_iff {p : Program} (h : p.Shallow) {n : Nat} (hn : 67 ≤ n) :
    p.toDocument.depth ≤ n + 2 ↔ Document.depthItems (Entry.flowDocuments p.flows) ≤ n := by
  have hadditional := depth_additional h
  have hvariables := depth_variablesDocument p.variableTypes
  unfold toDocument
  constructor
  · intro hdepth
    have hflows := Document.depthFields_le_iff.1 (Nat.le_of_succ_le_succ hdepth) _
      (List.mem_append_left _ List.mem_cons_self)
    exact Nat.le_of_succ_le_succ hflows
  · intro hflows
    refine Document.depth_object_le fun f hf => ?_
    obtain hf | hf := List.mem_append.1 hf
    · simp only [List.mem_cons, List.not_mem_nil, or_false] at hf
      obtain rfl | rfl := hf
      · exact Nat.succ_le_succ hflows
      · exact hadditional.trans (by omega)
    · split at hf
      · cases hf
      · rw [List.mem_singleton.1 hf]
        exact hvariables.trans (by omega)

/-- Each branch within a branch makes a program three levels deeper. -/
theorem depth_bounds {p : Program} (h : p.Shallow) :
    2 + 3 * Entry.branchLevels p.flows ≤ p.toDocument.depth ∧
      p.toDocument.depth ≤ 70 + 3 * Entry.branchLevels p.flows := by
  have hlow := Entry.le_depth_flowDocuments p.flows
  have hhigh := Entry.depth_flowDocuments_le p.flows fun r hr => h r (List.mem_append_left _ hr)
  constructor
  · have hflows : Document.depthItems (Entry.flowDocuments p.flows) + 1 + 1 ≤ p.toDocument.depth :=
      Nat.succ_le_succ (Document.depthFields_le_iff.1 (Nat.le_refl _)
        ("flows", .list (Entry.flowDocuments p.flows)) (List.mem_append_left _ List.mem_cons_self))
    omega
  · have hall := (depth_le_iff h (n := 68 + 3 * Entry.branchLevels p.flows) (by omega)).2 hhigh
    omega

/-! ## Loading -/

theorem isSome_of_list? {α : Type} {item? : Document → Option α} {items : List Document} {as : List α}
    (h : Document.list? item? (.list items) = some as) : ∀ d ∈ items, (item? d).isSome := by
  change items.mapM item? = some as at h
  induction items generalizing as with
  | nil =>
    intro d hd
    cases hd
  | cons a rest ih =>
    rw [List.mapM_cons] at h
    obtain ⟨b, hb, h⟩ := Option.bind_eq_some_iff.1 h
    obtain ⟨bs, hbs, -⟩ := Option.bind_eq_some_iff.1 h
    intro d hd
    obtain rfl | hd := List.mem_cons.1 hd
    · exact Option.isSome_of_eq_some hb
    · exact ih hbs d hd

/-- A flow too deep for the room holds an entry that is not readable as a whole. -/
theorem flows_too_deep {flows : List (Flow NodeRecord)} {room : Nat}
    (h : room + 1 < Document.depthItems (Entry.flowDocuments flows)) :
    Document.list? (Document.list? Entry.ofDocument?)
      (.list (Document.clipItems (room + 1) (Entry.flowDocuments flows))) = none := by
  refine Option.eq_none_iff_forall_ne_some.2 fun read hread => ?_
  have hfits : Document.depthItems (Entry.flowDocuments flows) ≤ room + 1 := by
    refine Document.depthItems_le_iff.2 fun d hd => ?_
    rw [Entry.flowDocuments_eq] at hd hread
    obtain ⟨flow, hflow, rfl⟩ := List.mem_map.1 hd
    refine Document.depth_list_le fun d hd => ?_
    have hitems := isSome_of_list? hread (Document.clip (room + 1) (.list (flow.map Entry.toDocument))) (by
      rw [Document.clipItems_eq_map]
      exact List.mem_map.2 ⟨_, List.mem_map.2 ⟨flow, hflow, rfl⟩, rfl⟩)
    obtain ⟨entries, hentries⟩ := Option.isSome_iff_exists.1 hitems
    rw [Document.clip, Document.clipItems_eq_map] at hentries
    have hentry := isSome_of_list? hentries (d.clip room) (List.mem_map.2 ⟨d, hd, rfl⟩)
    refine Nat.not_lt.1 fun hdeep => ?_
    rw [Entry.ofDocument?, if_neg (by rw [Document.readable_clip d hdeep]; simp)] at hentry
    cases hentry
  omega

theorem ofDocument?_without_flows {d : Document} {rest : List (String × Document)}
    (h : Document.list? (Document.list? Entry.ofDocument?) d = none) :
    ofDocument? (.object (("flows", d) :: rest)) = none := by
  unfold ofDocument? Document.fields?
  dsimp only
  split
  · simp [Document.Fields.need, h]
  · rfl

/-- A program is loaded from what fits into the reader's room, or not at all. -/
theorem ofDocument?_clip {p : Program} (hfinite : p.Finite) (hshallow : p.Shallow) :
    ofDocument? (p.toDocument.clip Document.maxNesting) =
      if p.toDocument.depth ≤ Document.maxNesting then some p else none := by
  split
  · rename_i hfits
    rw [Document.clip_of_fits _ hfits, ofDocument?_toDocument hfinite]
  · rename_i hdeep
    have hflows : 125 < Document.depthItems (Entry.flowDocuments p.flows) := by
      have hnot := mt (depth_le_iff hshallow (n := 125) (by decide)).2 hdeep
      omega
    exact ofDocument?_without_flows (flows_too_deep hflows)

/-! ## Saving -/

def floats (p : Program) : List Float :=
  p.records.flatMap fun r => r.scalars.map Scalar.value ++ r.constants.flatMap Literal.floats

theorem isFinite_of_floats {p : Program} (h : p.Finite) : ∀ x ∈ p.floats, x.isFinite := by
  intro x hx
  obtain ⟨r, hr, hx⟩ := List.mem_flatMap.1 hx
  obtain hx | hx := List.mem_append.1 hx
  · obtain ⟨y, hy, rfl⟩ := List.mem_map.1 hx
    have hfinite := (h r hr).scalar y hy
    cases y with
    | ofFloat y => exact hfinite
    | negativeNan => cases hfinite
  · obtain ⟨l, hl, hx⟩ := List.mem_flatMap.1 hx
    exact (h r hr).constant l hl x hx

theorem common_printable : Document.Common Document.Printable where
  null := trivial
  bool _ := trivial
  text _ := trivial
  int n := Document.word_toInt n

theorem printable_toDocument {p : Program} (hcounts : ∀ n ∈ p.counts, n < UInt64.size)
    (hfloats : ∀ x ∈ p.floats, Document.Rereads x) : ∀ leaf ∈ p.toDocument.leaves, leaf.Printable := by
  have hcount (n : Nat) (hn : n ∈ p.counts) : Document.Printable (.int n) := by
    have hlt := hcounts n hn
    simp only [UInt64.size] at hlt
    simp only [Document.Printable, Document.Word]
    omega
  have hfloat (r : NodeRecord) (hr : r ∈ p.records) (x : Float)
      (hx : x ∈ r.scalars.map Scalar.value ++ r.constants.flatMap Literal.floats) :
      Document.Printable (.float x) := hfloats x (List.mem_flatMap.2 ⟨r, hr, hx⟩)
  refine leaves_toDocument common_printable
    (fun r hr => ⟨fun x hx => ?_, fun l hl x hx => ?_, fun n hn => ?_⟩) fun n hn => hcount n (List.mem_append_left _ hn)
  · exact hfloat r hr x.value (List.mem_append_left _ (List.mem_map.2 ⟨x, hx, rfl⟩))
  · exact hfloat r hr x (List.mem_append_right _ (List.mem_flatMap.2 ⟨l, hl, hx⟩))
  · exact hcount n (List.mem_append_right _ (List.mem_flatMap.2 ⟨r, hr, hn⟩))

/-- The text of a program is read back as the program, or not at all if it nests too deep. -/
theorem read?_write {p : Program} (hfinite : p.Finite) (hshallow : p.Shallow)
    (hcounts : ∀ n ∈ p.counts, n < UInt64.size) (hfloats : ∀ x ∈ p.floats, Document.Rereads x) :
    read? p.write = if p.toDocument.depth ≤ Document.maxNesting then some p else none := by
  rw [read?, write, Document.read?_pretty (printable_toDocument hcounts hfloats)]
  exact ofDocument?_clip hfinite hshallow

end Program

end FlowGraph
