import FlowGraph.Document.Printer
import FlowGraph.Proofs.Document.Grammar

/-! # Printed documents

The text that a document is printed as is cut into the tokens of the document again, so that it is read as
what it was.
-/

namespace FlowGraph.Document
set_option autoImplicit false

/-! ## Leaves -/

/-- The text of the double is read as the double. -/
def Rereads (x : Float) : Prop := read? (floatText x) = some (.float x)

theorem rereads_iff {x : Float} : Rereads x ↔
    (match read? (floatText x) with
      | some (.float y) => decide (y = x)
      | _ => false) = true := by
  unfold Rereads
  split <;> simp_all

instance decidableRereads (x : Float) : Decidable (Rereads x) := decidable_of_iff _ rereads_iff.symm

/-- The value is read from its own text. -/
def Printable : Document → Prop
  | .int n => Word n
  | .float x => Rereads x
  | .unreadable => False
  | _ => True

theorem tokens?_float {x : Float} (h : Rereads x) : tokens? (floatText x) = some [.scalar (.float x)] := by
  obtain ⟨ts, htokens, hread⟩ := Option.bind_eq_some_iff.1 h
  rw [htokens, eq_scalar_of_float hread]

theorem cuts_leafText {d : Document} (h : d.Printable) (hlist : ∀ items, d ≠ .list items)
    (hobject : ∀ fields, d ≠ .object fields) : Cuts d.leafText d.tokens := by
  cases d with
  | null => exact Spells.null.cuts
  | bool b =>
    cases b with
    | true => exact Spells.true.cuts
    | false => exact Spells.false.cuts
  | int n => exact (spells_int h).cuts
  | float x => exact Cuts.of_tokens? (tokens?_float h)
  | text s => exact (marks_quoted s).cuts
  | list items => exact absurd rfl (hlist items)
  | object fields => exact absurd rfl (hobject fields)
  | unreadable => exact h.elim

/-! ## One line per item -/

theorem blank_newLine (level : Nat) : Blank (newLine level) := by
  intro c hc
  obtain rfl | rfl : c = '\n' ∨ c = ' ' := by
    simp only [newLine, String.toList_append, String.toList_ofList, List.mem_append] at hc
    exact hc.imp List.mem_singleton.1 List.eq_of_mem_replicate
  · rfl
  · rfl

theorem marks_field : Marks ": " [.colon] := marks_colon.append blank_space.marks

theorem ends_newLine (level : Nat) (s : String) : Ends (newLine level ++ s).toList := by
  intro c hc
  rw [newLine, String.append_assoc, String.toList_append] at hc
  cases hc
  decide

/-- The lines of items behind another one. -/
def laterLines (level : Nat) : List Document → String
  | [] => ""
  | d :: rest => "," ++ (newLine level ++ (prettyAt level d ++ laterLines level rest))

/-- The lines of fields behind another one. -/
def laterFieldLines (level : Nat) : List (String × Document) → String
  | [] => ""
  | (key, d) :: rest =>
    "," ++ (newLine level ++ (Text.quoted key ++ (": " ++ (prettyAt level d ++ laterFieldLines level rest))))

theorem prettyItems_cons (level : Nat) (d : Document) (rest : List Document) :
    prettyItems level (d :: rest) = newLine level ++ (prettyAt level d ++ laterLines level rest) := by
  induction rest generalizing d with
  | nil => rw [prettyItems, laterLines, String.append_empty]
  | cons d' rest ih =>
    rw [prettyItems, ih, laterLines]
    · simp only [String.append_assoc]
    · simp

theorem prettyFields_cons (level : Nat) (key : String) (d : Document) (rest : List (String × Document)) :
    prettyFields level ((key, d) :: rest) =
      newLine level ++ (Text.quoted key ++ (": " ++ (prettyAt level d ++ laterFieldLines level rest))) := by
  induction rest generalizing key d with
  | nil =>
    rw [prettyFields, laterFieldLines, String.append_empty]
    simp only [String.append_assoc]
  | cons f rest ih =>
    rw [prettyFields, ih, laterFieldLines]
    · simp only [String.append_assoc]
    · simp

theorem ends_laterLines (level : Nat) (rest : List Document) : Ends (laterLines level rest).toList := by
  cases rest with
  | nil => exact Ends.nil
  | cons d rest =>
    intro c hc
    rw [laterLines, String.toList_append] at hc
    cases hc
    decide

theorem ends_laterFieldLines (level : Nat) (rest : List (String × Document)) :
    Ends (laterFieldLines level rest).toList := by
  cases rest with
  | nil => exact Ends.nil
  | cons f rest =>
    intro c hc
    rw [laterFieldLines, String.toList_append] at hc
    cases hc
    decide

mutual

/-- A printed document is cut into its tokens. -/
theorem cuts_prettyAt : (d : Document) → (∀ leaf ∈ d.leaves, leaf.Printable) → ∀ level,
    Cuts (prettyAt level d) d.tokens
  | .null, h, _ => cuts_leafText (h _ (List.mem_singleton.2 rfl)) (by simp) (by simp)
  | .bool _, h, _ => cuts_leafText (h _ (List.mem_singleton.2 rfl)) (by simp) (by simp)
  | .int _, h, _ => cuts_leafText (h _ (List.mem_singleton.2 rfl)) (by simp) (by simp)
  | .float _, h, _ => cuts_leafText (h _ (List.mem_singleton.2 rfl)) (by simp) (by simp)
  | .text _, h, _ => cuts_leafText (h _ (List.mem_singleton.2 rfl)) (by simp) (by simp)
  | .unreadable, h, _ => (h .unreadable (List.mem_singleton.2 rfl)).elim
  | .list [], _, _ => (marks_openList.append marks_closeList).cuts
  | .object [], _, _ => (marks_openObject.append marks_closeObject).cuts
  | .list (d :: rest), h, level => by
    have hd := cuts_prettyAt d (fun leaf hleaf => h leaf (List.mem_append_left _ hleaf)) (level + 1)
    have hrest := cuts_laterLines rest (fun leaf hleaf => h leaf (List.mem_append_right _ hleaf)) (level + 1)
    have hitems := (blank_newLine (level + 1)).marks.cuts_append (hd.append hrest (ends_laterLines _ rest))
    have hend := (blank_newLine level).marks.append marks_closeList
    have hall := marks_openList.cuts_append
      (hitems.append hend.cuts (ends_newLine level _))
    rw [prettyAt, prettyItems_cons, String.append_assoc, String.append_assoc, tokens]
    · exact hall
    · simp
  | .object ((key, d) :: rest), h, level => by
    have hd := cuts_prettyAt d (fun leaf hleaf => h leaf (List.mem_append_left _ hleaf)) (level + 1)
    have hrest := cuts_laterFieldLines rest (fun leaf hleaf => h leaf (List.mem_append_right _ hleaf))
      (level + 1)
    have hfield := ((marks_quoted key).append marks_field).cuts_append
      (hd.append hrest (ends_laterFieldLines _ rest))
    have hfields := (blank_newLine (level + 1)).marks.cuts_append hfield
    have hend := (blank_newLine level).marks.append marks_closeObject
    have hall := marks_openObject.cuts_append (hfields.append hend.cuts (ends_newLine level _))
    rw [prettyAt, prettyFields_cons]
    · simp only [String.append_assoc, tokens] at hall ⊢
      exact hall
    · simp

theorem cuts_laterLines : (rest : List Document) → (∀ leaf ∈ leavesOf rest, leaf.Printable) → ∀ level,
    Cuts (laterLines level rest) (laterItems rest)
  | [], _, _ => fun _ _ => Option.map_id'.symm
  | d :: rest, h, level => by
    have hd := cuts_prettyAt d (fun leaf hleaf => h leaf (List.mem_append_left _ hleaf)) level
    have hrest := cuts_laterLines rest (fun leaf hleaf => h leaf (List.mem_append_right _ hleaf)) level
    have hitems := (blank_newLine level).marks.cuts_append (hd.append hrest (ends_laterLines _ rest))
    exact marks_comma.cuts_append hitems

theorem cuts_laterFieldLines : (rest : List (String × Document)) →
    (∀ leaf ∈ leavesIn rest, leaf.Printable) → ∀ level, Cuts (laterFieldLines level rest) (laterFields rest)
  | [], _, _ => fun _ _ => Option.map_id'.symm
  | (key, d) :: rest, h, level => by
    have hd := cuts_prettyAt d (fun leaf hleaf => h leaf (List.mem_append_left _ hleaf)) level
    have hrest := cuts_laterFieldLines rest (fun leaf hleaf => h leaf (List.mem_append_right _ hleaf)) level
    have hfield := (marks_quoted key).cuts_append
      (marks_field.cuts_append (hd.append hrest (ends_laterFieldLines _ rest)))
    exact marks_comma.cuts_append ((blank_newLine level).marks.cuts_append hfield)

end

/-- What is printed is read again, as far as the reader opens lists and objects. -/
theorem read?_pretty {d : Document} (h : ∀ leaf ∈ d.leaves, leaf.Printable) :
    read? d.pretty = some (d.clip maxNesting) := by
  have hcut := cuts_prettyAt d h 0 [] Ends.nil
  have htokens : tokens? d.pretty = some d.tokens := by
    rw [List.append_nil] at hcut
    rw [tokens?, pretty, hcut]
    show some (d.tokens ++ []) = _
    rw [List.append_nil]
  rw [read?, htokens]
  exact ofTokens?_tokens d

end FlowGraph.Document
