import FlowGraph.Proofs.Document.Numerals
import FlowGraph.Proofs.Document.Quotations

/-! # The grammar of document texts

`Spells s d` says that the text `s` is one value, and which: lists and objects as they are written, without a
limit to how deep they stand within each other. A text that the grammar derives is cut into the tokens of its
value, so it spells only one.
-/

namespace FlowGraph.Document
set_option autoImplicit false

/-! ## Values -/

/-- A field as it is written. -/
structure FieldText where
  before : String
  /-- The name between its quotes. -/
  quoted : String
  after : String
  text : String
  name : String
  value : Document

namespace FieldText

def all (f : FieldText) : String := f.before ++ f.quoted ++ f.after ++ ":" ++ f.text

def field (f : FieldText) : String × Document := (f.name, f.value)

/-- The name is written as it should be, with nothing but blanks around it. -/
structure Named (f : FieldText) : Prop where
  before : Blank f.before
  quoted : Quotes f.quoted f.name
  after : Blank f.after

end FieldText

/-- The text spells the value. -/
inductive Spells : String → Document → Prop
  | null : Spells "null" .null
  | true : Spells "true" (.bool true)
  | false : Spells "false" (.bool false)
  | number {cs : List Char} {t : NumberText} (h : Numeral cs t) : Spells (String.ofList cs) t.value
  | text {q s : String} (h : Quotes q s) : Spells q (.text s)
  | emptyList {gap : String} (h : Blank gap) : Spells ("[" ++ gap ++ "]") (.list [])
  | list {first : String × Document} {rest : List (String × Document)}
    (hitems : ∀ p ∈ first :: rest, Spells p.1 p.2) :
    Spells ("[" ++ first.1 ++ String.join (rest.map fun p => "," ++ p.1) ++ "]")
      (.list (first.2 :: rest.map (·.2)))
  | emptyObject {gap : String} (h : Blank gap) : Spells ("\x7b" ++ gap ++ "\x7d") (.object [])
  | object {first : FieldText} {rest : List FieldText} (hnames : ∀ f ∈ first :: rest, f.Named)
    (hvalues : ∀ f ∈ first :: rest, Spells f.text f.value) :
    Spells ("\x7b" ++ first.all ++ String.join (rest.map fun f => "," ++ f.all) ++ "\x7d")
      (.object (first.field :: rest.map (·.field)))
  /-- Blanks around a value make no difference. -/
  | padded {before after s : String} {d : Document} (hbefore : Blank before) (hafter : Blank after)
    (h : Spells s d) : Spells (before ++ s ++ after) d

/-! ## Texts of the grammar cut into tokens -/

/-- Texts behind commas complete what is in front of them. -/
theorem ends_join {α : Type} (f : α → String) (rest : List α) :
    Ends (String.join (rest.map fun a => "," ++ f a)).toList := by
  cases rest with
  | nil => exact Ends.nil
  | cons a rest =>
    intro c hc
    rw [List.map_cons, String.join_cons, String.append_assoc, String.toList_append] at hc
    cases hc
    decide

theorem cuts_items {rest : List (String × Document)} (h : ∀ p ∈ rest, Cuts p.1 p.2.tokens) :
    Cuts (String.join (rest.map fun p => "," ++ p.1)) (laterItems (rest.map (·.2))) := by
  induction rest with
  | nil => exact cuts_empty
  | cons p rest ih =>
    obtain ⟨hp, hrest⟩ := List.forall_mem_cons.1 h
    have hitem := marks_comma.cuts_append (hp.append (ih hrest) (ends_join _ rest))
    rw [List.map_cons, String.join_cons, String.append_assoc, List.map_cons, laterItems]
    exact hitem

theorem FieldText.Named.cuts {f : FieldText} (h : f.Named) (hvalue : Cuts f.text f.value.tokens) :
    Cuts f.all (.text (some f.name) :: .colon :: f.value.tokens) := by
  have hname := (h.before.marks.append h.quoted.marks).append h.after.marks
  exact (hname.append marks_colon).cuts_append hvalue

theorem cuts_fields {rest : List FieldText}
    (h : ∀ f ∈ rest, Cuts f.all (.text (some f.name) :: .colon :: f.value.tokens)) :
    Cuts (String.join (rest.map fun f => "," ++ f.all)) (laterFields (rest.map (·.field))) := by
  induction rest with
  | nil => exact cuts_empty
  | cons f rest ih =>
    obtain ⟨hf, hrest⟩ := List.forall_mem_cons.1 h
    have hfield := marks_comma.cuts_append (hf.append (ih hrest) (ends_join _ rest))
    rw [List.map_cons, String.join_cons, String.append_assoc, List.map_cons, FieldText.field, laterFields]
    exact hfield

theorem ends_closing (s : String) (h : s = "]" ∨ s = "\x7d") : Ends s.toList := by
  intro c hc
  obtain rfl | rfl := h <;> cases hc <;> decide

/-- A text of the grammar is cut into the tokens of its value. -/
theorem Spells.cuts {s : String} {d : Document} (h : Spells s d) : Cuts s d.tokens := by
  induction h with
  | null | true | false => exact Cuts.of_tokens? rfl
  | number h =>
    rw [tokens_value]
    exact Cuts.of_tokens? h.tokens?
  | text h => exact h.marks.cuts
  | emptyList h => exact ((marks_openList.append h.marks).append marks_closeList).cuts
  | emptyObject h => exact ((marks_openObject.append h.marks).append marks_closeObject).cuts
  | list _ ih =>
    obtain ⟨hfirst, hrest⟩ := List.forall_mem_cons.1 ih
    have hitems := hfirst.append (cuts_items hrest) (ends_join _ _)
    have hall := (marks_openList.cuts_append hitems).append marks_closeList.cuts (ends_closing _ (Or.inl rfl))
    rw [← String.append_assoc] at hall
    exact hall
  | object hnames _ ih =>
    obtain ⟨hname, hnames⟩ := List.forall_mem_cons.1 hnames
    obtain ⟨hfirst, hrest⟩ := List.forall_mem_cons.1 ih
    have hfields := (hname.cuts hfirst).append (cuts_fields fun f hf => (hnames f hf).cuts (hrest f hf))
      (ends_join _ _)
    have hall := (marks_openObject.cuts_append hfields).append marks_closeObject.cuts (ends_closing _ (Or.inr rfl))
    rw [← String.append_assoc] at hall
    exact hall
  | padded hbefore hafter _ ih =>
    have hall := (hbefore.marks.cuts_append ih).append hafter.marks.cuts hafter.ends
    rw [List.nil_append, List.append_nil] at hall
    exact hall

/-! ## Reading -/

namespace Spells
variable {s : String} {d e : Document}

theorem tokens? (h : Spells s d) : Document.tokens? s = some d.tokens := by
  have hcut := h.cuts [] Ends.nil
  rw [List.append_nil] at hcut
  exact hcut.trans (congrArg some (List.append_nil _))

/-- A text spells one value at most. -/
theorem unique (hd : Spells s d) (he : Spells s e) : d = e :=
  tokens_injective (Option.some.inj (hd.tokens?.symm.trans he.tokens?))

end Spells

/-! ## Writing -/

theorem spells_int {n : Int} (h : Word n) : Spells (toString n) (.int n) := by
  obtain ⟨t, hnumeral, hvalue⟩ := numeral_int h
  have hspells := Spells.number hnumeral
  rw [String.ofList_toList, hvalue] at hspells
  exact hspells

theorem spells_bool (b : Bool) : Spells (if b then "true" else "false") (.bool b) := by
  cases b with
  | true => exact .true
  | false => exact .false

/-- A list whose commas have a blank behind them. -/
theorem spells_spaced {α : Type} {text : α → String} {value : α → Document} {first : α} {rest : List α}
    (h : ∀ a ∈ first :: rest, Spells (text a) (value a)) :
    Spells ("[" ++ text first ++ String.join (rest.map fun a => ", " ++ text a) ++ "]")
      (.list (value first :: rest.map value)) := by
  have hspaced {s : String} {d : Document} (hs : Spells s d) : Spells (" " ++ s) d := by
    have hpadded := hs.padded blank_space blank_empty
    rwa [String.append_empty] at hpadded
  have hitems : ∀ p ∈ (text first, value first) :: rest.map fun a => (" " ++ text a, value a), Spells p.1 p.2 := by
    intro p hp
    obtain rfl | hp := List.mem_cons.1 hp
    · exact h first List.mem_cons_self
    · obtain ⟨a, ha, rfl⟩ := List.mem_map.1 hp
      exact hspaced (h a (List.mem_cons_of_mem _ ha))
  have hlist := Spells.list hitems
  simp only [List.map_map, Function.comp_def, ← String.append_assoc] at hlist
  exact hlist

end FlowGraph.Document
