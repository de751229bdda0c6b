import FlowGraph.Palette
import FlowGraph.Proofs.Listing
import Mathlib.Data.List.Induction
import Mathlib.Data.List.Nodup

/-! # What a palette lists

Identifiers may be registered again, for another kind, under another title or in another class. A palette shows
what was said last of each, and it shows it at the place that the identifier was given first. Nothing of this
depends on the entries and their order being kept in one place.
-/

namespace FlowGraph
set_option autoImplicit false

namespace Palette

/-- The palette after some registrations, each of an identifier and what it stands for. -/
def registerAll (p : Palette) (rs : List (String × PaletteEntry)) : Palette :=
  rs.foldl (fun p r => p.register r.1 r.2) p

/-! ## Registrations -/

section Registrations
variable (rs : List (String × PaletteEntry))

/-- The identifiers in the order in which each came first. -/
def firsts : List String := (rs.map (·.1)).eraseDups

/-- What was said last of an identifier. -/
def latest (identifier : String) : Option PaletteEntry := (rs.reverse.find? (·.1 = identifier)).map (·.2)

theorem mem_firsts {identifier : String} : identifier ∈ firsts rs ↔ identifier ∈ rs.map (·.1) := List.mem_eraseDups

theorem firsts_concat (r : String × PaletteEntry) :
    firsts (rs ++ [r]) = if r.1 ∈ firsts rs then firsts rs else firsts rs ++ [r.1] := by
  have hfirsts : firsts (rs ++ [r]) = firsts rs ++ ([r.1].removeAll (rs.map (·.1))).eraseDups := by
    rw [firsts, List.map_append, List.eraseDups_append]
    rfl
  rw [hfirsts, List.removeAll]
  split
  · rename_i hknown
    simp [(mem_firsts rs).1 hknown]
  · rename_i hnew
    simp [mt (mem_firsts rs).2 hnew, List.eraseDups_cons]

theorem latest_concat (r : String × PaletteEntry) (identifier : String) :
    latest (rs ++ [r]) identifier = if identifier = r.1 then some r.2 else latest rs identifier := by
  rw [latest, List.reverse_append, List.reverse_singleton, List.singleton_append, List.find?_cons]
  by_cases hsame : r.1 = identifier
  · simp [hsame]
  · simp [hsame, Ne.symm hsame, latest]

/-- One registration more at the end. -/
theorem registerAll_concat (p : Palette) (r : String × PaletteEntry) :
    p.registerAll (rs ++ [r]) = (p.registerAll rs).register r.1 r.2 := List.foldl_append

theorem keys_registerAll : (empty.registerAll rs).entries.keys = firsts rs := by
  induction rs using List.reverseRecOn with
  | nil => rfl
  | append_singleton rs r ih => rw [registerAll_concat, register, OrderedMap.keys_insert, ih, firsts_concat]

theorem entry?_registerAll (identifier : String) : entry? (empty.registerAll rs) identifier = latest rs identifier := by
  induction rs using List.reverseRecOn with
  | nil => rfl
  | append_singleton rs r ih =>
    rw [registerAll_concat, register, entry?, OrderedMap.get?_insert, latest_concat]
    exact congrArg (fun earlier => if identifier = r.1 then some r.2 else earlier) ih

theorem nodup_keys_registerAll : (empty.registerAll rs).entries.keys.Nodup := by
  induction rs using List.reverseRecOn with
  | nil => exact List.nodup_nil
  | append_singleton rs r ih =>
    rw [registerAll_concat]
    exact OrderedMap.nodup_keys_insert ih r.1 r.2

end Registrations

/-! ## Classes -/

section Classes
variable {p : Palette} {c : NodeClass}

theorem mem_all (c : NodeClass) : c ∈ NodeClass.all := by cases c <;> decide

theorem mem_inClass (h : p.entries.keys.Nodup) {e : String × PaletteEntry} :
    e ∈ p.inClass c ↔ p.entry? e.1 = some e.2 ∧ e.2.nodeClass = c := by
  rw [inClass, List.mem_filter, OrderedMap.mem_entries_iff h, decide_eq_true_eq]
  rfl

/-- A class is listed with its entries, unless it has none. -/
theorem mem_groups {g : NodeClass × List (String × PaletteEntry)} :
    g ∈ p.groups ↔ g.2 = p.inClass g.1 ∧ g.2 ≠ [] := by
  rw [groups, List.mem_filter, List.mem_map, Bool.not_eq_true', List.isEmpty_eq_false_iff]
  refine and_congr_left fun _ => ⟨?_, fun hg => ⟨g.1, mem_all g.1, Prod.ext rfl hg.symm⟩⟩
  rintro ⟨c, -, rfl⟩
  rfl

theorem sublist_classes (p : Palette) : (p.groups.map (·.1)).Sublist NodeClass.all := by
  have hall : (NodeClass.all.map fun c => (c, p.inClass c)).map (·.1) = NodeClass.all := by
    rw [List.map_map]
    exact List.map_id _
  exact hall ▸ List.filter_sublist.map _

theorem map_inClass (h : p.entries.keys.Nodup) (c : NodeClass) : (p.inClass c).map (·.1) =
    p.entries.keys.filter fun identifier => (p.entry? identifier).any (·.nodeClass = c) :=
  OrderedMap.map_filter_entries h fun entry => entry.nodeClass = c

/-- The identifiers in the order in which they are listed. -/
def listed (p : Palette) : List String := p.groups.flatMap fun g => g.2.map (·.1)

/-- What is listed is what is known. -/
theorem mem_listed (h : p.entries.keys.Nodup) {identifier : String} :
    identifier ∈ p.listed ↔ (p.entry? identifier).isSome := by
  simp only [listed, List.mem_flatMap, List.mem_map]
  constructor
  · rintro ⟨g, hg, e, he, rfl⟩
    rw [(mem_groups.1 hg).1, mem_inClass h] at he
    exact Option.isSome_of_eq_some he.1
  · intro hknown
    obtain ⟨entry, hentry⟩ := Option.isSome_iff_exists.1 hknown
    have hin : (identifier, entry) ∈ p.inClass entry.nodeClass := (mem_inClass h).2 ⟨hentry, rfl⟩
    exact ⟨(entry.nodeClass, p.inClass entry.nodeClass), mem_groups.2 ⟨rfl, List.ne_nil_of_mem hin⟩, _, hin, rfl⟩

/-- An identifier is in one class only, and there once. -/
theorem nodup_listed (h : p.entries.keys.Nodup) : p.listed.Nodup := by
  have hclasses : (p.groups.map (·.1)).Nodup := (sublist_classes p).nodup (by decide)
  refine List.nodup_flatMap.2 ⟨fun g hg => ?_, ?_⟩
  · rw [(mem_groups.1 hg).1, map_inClass h]
    exact h.filter _
  · -- An identifier has one entry, so two classes that list it are one.
    refine (List.pairwise_map.1 hclasses).imp_of_mem fun {g g'} hg hg' hne identifier hin hin' => hne ?_
    obtain ⟨e, he, rfl⟩ := List.mem_map.1 hin
    obtain ⟨e', he', hsame⟩ := List.mem_map.1 hin'
    rw [(mem_groups.1 hg).1, mem_inClass h] at he
    rw [(mem_groups.1 hg').1, mem_inClass h, hsame, he.1] at he'
    rw [← he.2, ← he'.2, Option.some.inj he'.1]

end Classes

/-! ## The listing -/

/-- The palette shows some registrations. -/
structure Shows (p : Palette) (rs : List (String × PaletteEntry)) : Prop where
  all : ∀ identifier, identifier ∈ p.listed ↔ identifier ∈ rs.map (·.1)
  once : p.listed.Nodup
  last : ∀ g ∈ p.groups, ∀ e ∈ g.2, latest rs e.1 = some e.2 ∧ e.2.nodeClass = g.1
  classes : (p.groups.map (·.1)).Sublist NodeClass.all
  filled : ∀ g ∈ p.groups, g.2 ≠ []
  order : ∀ g ∈ p.groups, (g.2.map (·.1)).Sublist (firsts rs)
  size : p.size = (firsts rs).length
  entry : ∀ identifier, p.entry? identifier = latest rs identifier
  kind : ∀ identifier, p.kind? identifier = (latest rs identifier).map (·.kind)

theorem shows_registerAll (rs : List (String × PaletteEntry)) : (empty.registerAll rs).Shows rs := by
  have hnodup := nodup_keys_registerAll rs
  have hentry := entry?_registerAll rs
  refine ⟨fun identifier => ?_, nodup_listed hnodup, fun g hg e he => ?_, sublist_classes _,
    fun g hg => (mem_groups.1 hg).2, fun g hg => ?_, ?_, hentry, fun identifier => ?_⟩
  · rw [mem_listed hnodup, ← mem_firsts, ← keys_registerAll, OrderedMap.mem_keys_iff]
    rfl
  · rw [(mem_groups.1 hg).1, mem_inClass hnodup, hentry] at he
    exact he
  · rw [(mem_groups.1 hg).1, map_inClass hnodup, keys_registerAll]
    exact List.filter_sublist
  · rw [← keys_registerAll, OrderedMap.keys, List.length_map]
    rfl
  · rw [kind?, hentry]

/-- The identifier keeps its place, and its new class takes it out of the old one. -/
example :
    let mobile : PaletteEntry := ⟨.isMobile, "Mobile", .deviceInfo⟩
    let size : PaletteEntry := ⟨.screenSize, "Size", .deviceInfo⟩
    (empty.registerAll [("a", ⟨.consoleLog, "Log", .console⟩), ("b", size), ("a", mobile)]).groups =
      [(.deviceInfo, [("a", mobile), ("b", size)])] := by decide

/-! ## Entries and their order apart -/

section Apart
variable (rs : List (String × PaletteEntry))

/-- Some registrations, written one after the other into a table of entries and an order apart from it. -/
def listing : Listing String PaletteEntry := rs.foldl (fun l r => (l.register r.1 r.2).2) .empty

/-- What a listing shows by class, in class order; a class of which it shows nothing is left out. -/
def shownGroups (l : Listing String PaletteEntry) : List (NodeClass × List (String × PaletteEntry)) :=
  NodeClass.all.filterMap fun c =>
    let items := l.shown.filter (·.2.nodeClass = c)
    if items.isEmpty then none else some (c, items)

theorem listing_concat (r : String × PaletteEntry) : listing (rs ++ [r]) = ((listing rs).register r.1 r.2).2 :=
  List.foldl_append

theorem reads_listing : (listing rs).Reads (empty.registerAll rs).entries := by
  induction rs using List.reverseRecOn with
  | nil => exact Listing.reads_empty
  | append_singleton rs r ih =>
    rw [listing_concat, registerAll_concat]
    exact (ih.register r.1 r.2).2

theorem shownGroups_eq {l : Listing String PaletteEntry} {p : Palette} (h : l.Reads p.entries) :
    shownGroups l = p.groups := by
  rw [shownGroups, groups, List.filter_map, ← List.filterMap_eq_map, List.filterMap_filter]
  refine List.filterMap_congr fun c _ => ?_
  rw [h.shown]
  show (if (p.inClass c).isEmpty then none else some (c, p.inClass c)) =
    if !(p.inClass c).isEmpty then some (c, p.inClass c) else none
  cases (p.inClass c).isEmpty <;> rfl

/-- Kept apart, the entries and their order answer as the palette does, and a registration answers what its
identifier stood for before. -/
theorem listing_answers : shownGroups (listing rs) = (empty.registerAll rs).groups ∧
    (listing rs).size = (empty.registerAll rs).size ∧
      (∀ identifier, (listing rs).get? identifier = entry? (empty.registerAll rs) identifier) ∧
        ∀ identifier entry, ((listing rs).register identifier entry).1 = latest rs identifier := by
  have hreads := reads_listing rs
  refine ⟨shownGroups_eq hreads, hreads.size, hreads.get?, fun identifier entry => ?_⟩
  rw [(hreads.register identifier entry).1]
  exact entry?_registerAll rs identifier

end Apart

end Palette
end FlowGraph
