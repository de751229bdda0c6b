import FlowGraph.Proofs.Document.Tokens

/-! # Texts cut into tokens

A mark or a quoted text is a token of its own, wherever it stands. A word or a number is complete only with
the character behind it, so what stands behind a value has to start with one that completes it. Blanks leave
no token.
-/

namespace FlowGraph.Document
set_option autoImplicit false

/-! ## Texts in front of other texts -/

/-- Words and numbers are complete where the text starts. -/
def Ends (cs : List Char) : Prop := ∀ c ∈ cs.head?, c.isAlpha = false ∧ inNumber c = false

/-- Whatever follows, the text is cut into the tokens. -/
def Marks (s : String) (ts : List Token) : Prop :=
  ∀ rest, scan .between (s.toList ++ rest) = (scan .between rest).map (ts ++ ·)

/-- The text is cut into the tokens if what follows completes it. -/
def Cuts (s : String) (ts : List Token) : Prop :=
  ∀ rest, Ends rest → scan .between (s.toList ++ rest) = (scan .between rest).map (ts ++ ·)

theorem Ends.nil : Ends [] := by
  intro c hc
  cases hc

theorem Ends.append {a b : List Char} (ha : Ends a) (hb : Ends b) : Ends (a ++ b) := by
  cases a with
  | nil => exact hb
  | cons c a => exact ha

section
variable {a b : String} {ts us : List Token}

theorem Marks.cuts (h : Marks a ts) : Cuts a ts := fun rest _ => h rest

theorem map_append_append (tokens : Option (List Token)) (ts us : List Token) :
    (tokens.map (us ++ ·)).map (ts ++ ·) = tokens.map (ts ++ us ++ ·) := by
  cases tokens with
  | none => rfl
  | some more => rw [Option.map_some, Option.map_some, Option.map_some, List.append_assoc]

theorem Marks.append (ha : Marks a ts) (hb : Marks b us) : Marks (a ++ b) (ts ++ us) := by
  intro rest
  rw [String.toList_append, List.append_assoc, ha, hb, map_append_append]

theorem Marks.cuts_append (ha : Marks a ts) (hb : Cuts b us) : Cuts (a ++ b) (ts ++ us) := by
  intro rest hrest
  rw [String.toList_append, List.append_assoc, ha, hb rest hrest, map_append_append]

theorem Cuts.append (ha : Cuts a ts) (hb : Cuts b us) (hends : Ends b.toList) : Cuts (a ++ b) (ts ++ us) := by
  intro rest hrest
  rw [String.toList_append, List.append_assoc, ha _ (hends.append hrest), hb rest hrest, map_append_append]

end

/-- A token that is complete at the end of a text is complete where the text goes on. -/
theorem step_of_finish {s : Scan} {ts : List Token} (h : s.finish = some ts) {c : Char}
    (hletter : c.isAlpha = false) (hnumber : inNumber c = false) :
    s.step c = (Scan.start c).map fun p => (ts ++ p.1, p.2) := by
  have hafter : Scan.step.continueAfter s c = (Scan.start c).map fun p => (ts ++ p.1, p.2) := by
    unfold Scan.step.continueAfter
    rw [h]
    cases Scan.start c <;> rfl
  cases s with
  | between =>
    cases h
    show Scan.start c = _
    cases Scan.start c <;> rfl
  | word cs =>
    rw [← hafter, Scan.step, if_neg (Bool.eq_false_iff.1 hletter)]
  | number cs =>
    rw [← hafter, Scan.step, if_neg (Bool.eq_false_iff.1 hnumber)]
  | quote ps => cases h
  | escape ps => cases h
  | code ps missing value => cases h

theorem scan_append {cs : List Char} {s : Scan} {ts : List Token} (h : scan s cs = some ts)
    {rest : List Char} (hrest : Ends rest) :
    scan s (cs ++ rest) = (scan .between rest).map (ts ++ ·) := by
  induction cs generalizing s ts with
  | nil =>
    cases rest with
    | nil =>
      have hnone : (some ([] : List Token)).map (ts ++ ·) = some ts := by
        rw [Option.map_some, List.append_nil]
      rw [List.append_nil, h]
      exact hnone.symm
    | cons c rest =>
      obtain ⟨hletter, hnumber⟩ := hrest c rfl
      have hfresh : Scan.step .between c = Scan.start c := rfl
      rw [List.nil_append, scan, step_of_finish h hletter hnumber, scan, hfresh]
      cases Scan.start c with
      | none => rfl
      | some p => exact (map_append_append _ _ _).symm
  | cons c cs ih =>
    rw [scan] at h
    rw [List.cons_append, scan]
    cases hstep : s.step c with
    | none =>
      rw [hstep] at h
      cases h
    | some p =>
      rw [hstep] at h
      obtain ⟨more, hmore, rfl⟩ := Option.map_eq_some_iff.1 h
      exact (congrArg _ (ih hmore)).trans (map_append_append _ _ _)

theorem Cuts.of_tokens? {s : String} {ts : List Token} (h : tokens? s = some ts) : Cuts s ts :=
  fun _ hrest => scan_append h hrest

/-! ## Marks and blanks -/

theorem marks_openList : Marks "[" [.openList] := fun _ => rfl

theorem marks_closeList : Marks "]" [.closeList] := fun _ => rfl

theorem marks_openObject : Marks "\x7b" [.openObject] := fun _ => rfl

theorem marks_closeObject : Marks "\x7d" [.closeObject] := fun _ => rfl

theorem marks_comma : Marks "," [.comma] := fun _ => rfl

theorem marks_colon : Marks ":" [.colon] := fun _ => rfl

theorem cuts_empty : Cuts "" [] := fun _ _ => Option.map_id'.symm

/-- A character that completes no token. -/
theorem scan_silent {s t : Scan} {c : Char} (h : s.step c = some ([], t)) (cs : List Char) :
    scan s (c :: cs) = scan t cs := by
  rw [scan, h]
  exact Option.map_id'

def Blank (s : String) : Prop := ∀ c ∈ s.toList, isGap c = true

theorem blank_empty : Blank "" := by simp [Blank]

theorem blank_space : Blank " " := by simp [Blank, isGap]

theorem start_gap {c : Char} (h : isGap c = true) : Scan.start c = some ([], .between) := by
  simp only [isGap, Bool.or_eq_true, beq_iff_eq] at h
  obtain ((rfl | rfl) | rfl) | rfl := h <;> rfl

theorem ends_gap {c : Char} (h : isGap c = true) : c.isAlpha = false ∧ inNumber c = false := by
  simp only [isGap, Bool.or_eq_true, beq_iff_eq] at h
  obtain ((rfl | rfl) | rfl) | rfl := h <;> decide

theorem Blank.marks {s : String} (h : Blank s) : Marks s [] := by
  intro rest
  have hblanks (cs : List Char) (hcs : ∀ c ∈ cs, isGap c = true) :
      scan .between (cs ++ rest) = scan .between rest := by
    induction cs with
    | nil => rfl
    | cons c cs ih =>
      obtain ⟨hc, hcs⟩ := List.forall_mem_cons.1 hcs
      rw [List.cons_append, scan_silent (s := .between) (start_gap hc), ih hcs]
  rw [hblanks s.toList h]
  exact Option.map_id'.symm

theorem Blank.ends {s : String} (h : Blank s) : Ends s.toList :=
  fun c hc => ends_gap (h c (List.mem_of_mem_head? hc))

/-! ## Numbers -/

theorem ne_of_isDigit {c d : Char} (hc : c.isDigit = true) (hd : d.isDigit = false) : c ≠ d := by
  rintro rfl
  rw [hc] at hd
  cases hd

theorem inNumber_of_isDigit {c : Char} (h : c.isDigit = true) : inNumber c = true := by
  simp [inNumber, h]

theorem start_digit {c : Char} (h : c.isDigit = true) : Scan.start c = some ([], .number [c]) := by
  have hgap : isGap c = false := by
    simp only [isGap, Bool.or_eq_false_iff, beq_eq_false_iff_ne]
    exact ⟨⟨⟨ne_of_isDigit h rfl, ne_of_isDigit h rfl⟩, ne_of_isDigit h rfl⟩, ne_of_isDigit h rfl⟩
  unfold Scan.start
  split <;> first | exact absurd rfl (ne_of_isDigit h rfl) | skip
  rw [if_neg (Bool.eq_false_iff.1 hgap), if_pos (by rw [h, Bool.or_true])]

theorem scan_number (cs collected : List Char) (h : ∀ c ∈ cs, inNumber c = true) :
    scan (.number collected) cs = (Scan.number (cs.reverse ++ collected)).finish := by
  induction cs generalizing collected with
  | nil => rfl
  | cons c cs ih =>
    have hstep : Scan.step (.number collected) c = some ([], .number (c :: collected)) := by
      rw [Scan.step, if_pos (h c List.mem_cons_self)]
    rw [scan_silent hstep, ih _ fun c hc => h c (List.mem_cons_of_mem _ hc), List.reverse_cons,
      List.append_assoc]
    rfl

/-- A text that looks like a number is cut into the number it spells. -/
theorem scan_spelled {first : Char} {cs : List Char} (hfirst : Scan.start first = some ([], .number [first]))
    (h : ∀ c ∈ cs, inNumber c = true) :
    scan .between (first :: cs) = (NumberText.ofChars? (first :: cs)).map fun t => [.scalar t.value] := by
  rw [scan_silent (s := .between) hfirst, scan_number cs _ h, Scan.finish, List.reverse_append,
    List.reverse_reverse]
  rfl

end FlowGraph.Document
