import FlowGraph.Proofs.Document.Grammar
import FlowGraph.Proofs.Program.Decoded
import FlowGraph.Proofs.Program.Written
import FlowGraph.Script.Formatter

/-! # Script constants read back

Written for a socket of type `any`, a constant without doubles is a text of the document grammar, and it is
the only constant that the text can be read as.
-/

namespace FlowGraph
set_option autoImplicit false

theorem Literal.toDocuments_eq_map (ls : List Literal) : toDocuments ls = ls.map toDocument := by
  induction ls with
  | nil => rfl
  | cons l rest ih => rw [toDocuments, ih, List.map_cons]

/-- Read by the grammar of documents, the text is the constant. -/
def Literal.ReadFrom (text : String) (l : Literal) : Prop :=
  ∃ d, Document.Spells text d ∧ Literal.ofDocument? d = some l

theorem Literal.ReadFrom.unique {text : String} {l m : Literal} (hl : l.ReadFrom text) (hm : m.ReadFrom text) :
    l = m := by
  obtain ⟨d, hd, hread⟩ := hl
  obtain ⟨e, he, hread'⟩ := hm
  obtain rfl := hd.unique he
  exact Option.some.inj (hread.symm.trans hread')

namespace Script.WordTable

theorem naturalItems_cons (t : WordTable) (l : Literal) (rest : List Literal) :
    t.naturalItems (l :: rest) =
      t.natural l ++ String.join (rest.map fun m => t.separator ++ t.natural m) := by
  induction rest generalizing l with
  | nil => simp [naturalItems]
  | cons m rest ih =>
    rw [naturalItems, ih]
    · simp [String.append_assoc]
    · simp

mutual

theorem spells_natural : (l : Literal) → l.floats = [] → Document.Spells (javascript.natural l) l.toDocument
  | .bool b, _ => Document.spells_bool b
  | .int n, _ => Document.spells_int (Document.word_toInt n)
  | .text s, _ => .text (Document.quotes_quoted s)
  | .list [], _ => .emptyList Document.blank_empty
  | .list (l :: rest), h => by
    have hlist := Document.spells_spaced (spells_items (l :: rest) h)
    rw [natural, naturalItems_cons, ← String.append_assoc, Literal.toDocument, Literal.toDocuments,
      Literal.toDocuments_eq_map]
    exact hlist

theorem spells_items : (ls : List Literal) → Literal.floatsIn ls = [] →
    ∀ l ∈ ls, Document.Spells (javascript.natural l) l.toDocument
  | [], _, _, hl => by cases hl
  | l :: rest, h, m, hm => by
    obtain ⟨hfirst, hrest⟩ := List.append_eq_nil_iff.1 h
    obtain hm | hm := List.mem_cons.1 hm
    · rw [hm]
      exact spells_natural l hfirst
    · exact spells_items rest hrest m hm

end

/-- A constant without doubles is written as a text that is read as this constant and as no other. No text
in it ends before its last quote, whatever stands behind it. -/
theorem javascript_reads_back (l : Literal) (h : l.floats = []) :
    ∃ text, javascript.format l .any = .ok text ∧ (∀ m, Literal.ReadFrom text m ↔ m = l) ∧
      ∀ s rest quoted s' rest', Document.Quotes quoted s' → javascript.quote s ++ rest = quoted ++ rest' →
        s' = s ∧ rest' = rest := by
  have hread : l.ReadFrom (javascript.natural l) := ⟨_, spells_natural l h, l.ofDocument?_toDocument⟩
  refine ⟨_, rfl, fun m => ⟨fun hm => hm.unique hread, fun hm => hm ▸ hread⟩, ?_⟩
  intro s rest quoted s' rest' hquotes hsame
  exact hquotes.unique (Document.quotes_quoted s) hsame.symm

/-- Quotes, backslashes, brackets and commas within the texts of nested lists. -/
def nestedTexts : Literal :=
  .list [.text "],[", .list [.bool false, .text "\"\\", .int (-9223372036854775808)], .list [], .text "\x07\n, "]

theorem javascript_reads_back_nested : nestedTexts.floats = [] ∧
    ∃ text, javascript.format nestedTexts .any = .ok text ∧
    text = "[\"],[\", [false, \"\\\"\\\\\", -9223372036854775808], [], \"\\u0007\\n, \"]" ∧
    ∀ m, Literal.ReadFrom text m ↔ m = nestedTexts := by
  obtain ⟨text, htext, hread, -⟩ := javascript_reads_back nestedTexts rfl
  refine ⟨rfl, text, htext, ?_, hread⟩
  have hwritten : javascript.format nestedTexts .any = .ok
      "[\"],[\", [false, \"\\\"\\\\\", -9223372036854775808], [], \"\\u0007\\n, \"]" := by rfl
  exact Except.ok.inj (htext.symm.trans hwritten)

end Script.WordTable
end FlowGraph
