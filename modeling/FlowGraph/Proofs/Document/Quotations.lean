import FlowGraph.Proofs.Document.Scanning
import FlowGraph.Text

/-! # Quoted texts as they are written

The grammar of texts between quotes, with all the ways to escape a character. A quoted text is one token, and
wherever it stands it ends at its own last quote.
-/

namespace FlowGraph.Document
set_option autoImplicit false

/-! ## Grammar -/

/-- Four digits to base sixteen. -/
inductive Code : List Char → Nat → Prop
  | mk {a b c d : Char} {i j k l : Nat} (ha : hexValue? a = some i) (hb : hexValue? b = some j)
    (hc : hexValue? c = some k) (hd : hexValue? d = some l) :
    Code [a, b, c, d] (16 * (16 * (16 * i + j) + k) + l)

/-- What stands between the quotes of a text. -/
inductive Spelling : List Char → List Char → Prop
  | nil : Spelling [] []
  | char {c : Char} {cs s : List Char} (hquote : c ≠ '"') (hslash : c ≠ '\\') (hcontrol : 32 ≤ c.toNat)
    (h : Spelling cs s) : Spelling (c :: cs) (c :: s)
  | escape {e c : Char} {cs s : List Char} (he : escaped? e = some c) (h : Spelling cs s) :
    Spelling ('\\' :: e :: cs) (c :: s)
  | code {digits cs s : List Char} {n : Nat} (hn : Code digits n) (hplain : n < 0xd800 ∨ 0xe000 ≤ n)
    (h : Spelling cs s) : Spelling ('\\' :: 'u' :: (digits ++ cs)) (Char.ofNat n :: s)
  | pair {digits digits' cs s : List Char} {m n : Nat} (hm : Code digits m) (hn : Code digits' n)
    (hhigh : 0xd800 ≤ m ∧ m < 0xdc00) (hlow : 0xdc00 ≤ n ∧ n < 0xe000) (h : Spelling cs s) :
    Spelling ('\\' :: 'u' :: (digits ++ '\\' :: 'u' :: (digits' ++ cs)))
      (Char.ofNat (0x10000 + (m - 0xd800) * 0x400 + (n - 0xdc00)) :: s)

/-- A text between quotes, and which it is. -/
inductive Quotes : String → String → Prop
  | mk {cs s : List Char} (h : Spelling cs s) : Quotes ("\"" ++ String.ofList cs ++ "\"") (String.ofList s)

/-! ## Reading -/

theorem spell_unit {a : Nat} (h : a < 0xd800 ∨ 0xe000 ≤ a) (ps : List Piece) :
    spell (.unit a :: ps) = (spell ps).map (Char.ofNat a :: ·) := by
  have hhigh : ¬(0xd800 ≤ a ∧ a < 0xdc00) := by omega
  have hlow : ¬(0xdc00 ≤ a ∧ a < 0xe000) := by omega
  rcases ps with _ | ⟨_ | _, ps⟩ <;> simp only [spell, hhigh, hlow, if_false]

theorem scan_digits {digits : List Char} {n : Nat} (h : Code digits n) (ps : List Piece) (rest : List Char) :
    scan (.quote ps) ('\\' :: 'u' :: (digits ++ rest)) = scan (.quote (.unit n :: ps)) rest := by
  obtain @⟨a, b, c, d, i, j, k, l, ha, hb, hc, hd⟩ := h
  have hfirst : Scan.step (.code ps 4 0) a = some ([], .code ps 3 i) := by simp [Scan.step, ha]
  have hsecond : Scan.step (.code ps 3 i) b = some ([], .code ps 2 (16 * i + j)) := by simp [Scan.step, hb]
  have hthird : Scan.step (.code ps 2 (16 * i + j)) c = some ([], .code ps 1 (16 * (16 * i + j) + k)) := by
    simp [Scan.step, hc]
  have hlast : Scan.step (.code ps 1 (16 * (16 * i + j) + k)) d =
      some ([], .quote (.unit (16 * (16 * (16 * i + j) + k) + l) :: ps)) := by simp [Scan.step, hd]
  rw [scan_silent rfl, scan_silent rfl, List.cons_append, scan_silent hfirst, List.cons_append,
    scan_silent hsecond, List.cons_append, scan_silent hthird, List.cons_append, scan_silent hlast, List.nil_append]

/-- What stands between quotes is read as pieces that spell the text. -/
theorem Spelling.pieces {cs s : List Char} (h : Spelling cs s) : ∃ pieces, spell pieces = some s ∧
    ∀ ps rest, scan (.quote ps) (cs ++ rest) = scan (.quote (pieces.reverse ++ ps)) rest := by
  induction h with
  | nil => exact ⟨[], rfl, fun _ _ => rfl⟩
  | @char c cs s hquote hslash hcontrol _ ih =>
    obtain ⟨pieces, hspell, hscan⟩ := ih
    refine ⟨.char c :: pieces, by rw [spell, hspell]; rfl, fun ps rest => ?_⟩
    have hstep : Scan.step (.quote ps) c = some ([], .quote (.char c :: ps)) := by
      simp [Scan.step, hquote, hslash, Nat.not_lt.2 hcontrol]
    rw [List.cons_append, scan_silent hstep, hscan, List.reverse_cons, List.append_assoc]
    rfl
  | @escape e c cs s he _ ih =>
    obtain ⟨pieces, hspell, hscan⟩ := ih
    refine ⟨.char c :: pieces, by rw [spell, hspell]; rfl, fun ps rest => ?_⟩
    have hu : e ≠ 'u' := by
      rintro rfl
      cases he
    have hstep : Scan.step (.escape ps) e = some ([], .quote (.char c :: ps)) := by simp [Scan.step, hu, he]
    rw [List.cons_append, scan_silent rfl, List.cons_append, scan_silent hstep, hscan, List.reverse_cons,
      List.append_assoc]
    rfl
  | @code digits cs s n hn hplain _ ih =>
    obtain ⟨pieces, hspell, hscan⟩ := ih
    refine ⟨.unit n :: pieces, by rw [spell_unit hplain, hspell]; rfl, fun ps rest => ?_⟩
    rw [List.cons_append, List.cons_append, List.append_assoc, scan_digits hn, hscan, List.reverse_cons,
      List.append_assoc]
    rfl
  | @pair digits digits' cs s m n hm hn hhigh hlow _ ih =>
    obtain ⟨pieces, hspell, hscan⟩ := ih
    refine ⟨.unit m :: .unit n :: pieces, ?_, fun ps rest => ?_⟩
    · rw [spell, if_pos hhigh, if_pos hlow, hspell]
      rfl
    · simp only [List.cons_append, List.append_assoc]
      rw [scan_digits hm, scan_digits hn, hscan, List.reverse_cons, List.reverse_cons, List.append_assoc,
        List.append_assoc]
      rfl

theorem Quotes.marks {q s : String} (h : Quotes q s) : Marks q [.text (some s)] := by
  obtain ⟨hspelling⟩ := h
  obtain ⟨pieces, hspell, hscan⟩ := hspelling.pieces
  intro rest
  have hend : Scan.step (.quote pieces.reverse) '"' =
      some ([.text ((spell pieces).map String.ofList)], .between) := by simp [Scan.step]
  rw [String.toList_append, String.toList_append, List.append_assoc, List.append_assoc]
  show scan .between ('"' :: ((String.ofList _).toList ++ ('"' :: rest))) = _
  rw [scan_silent rfl, String.toList_ofList, hscan, List.append_nil, scan, hend, hspell]
  rfl

/-! ## The end of a quoted text -/

/-- A code has one value, and four digits. -/
theorem Code.unique {digits digits' rest rest' : List Char} {m n : Nat} (hm : Code digits m) (hn : Code digits' n)
    (h : digits ++ rest = digits' ++ rest') : digits = digits' ∧ m = n ∧ rest = rest' := by
  obtain ⟨ha, hb, hc, hd⟩ := hm
  obtain ⟨ha', hb', hc', hd'⟩ := hn
  simp only [List.cons_append, List.nil_append, List.cons.injEq] at h
  obtain ⟨rfl, rfl, rfl, rfl, rfl⟩ := h
  simp_all

/-- What stands between quotes ends at the first quote that is not escaped. -/
theorem Spelling.unique {cs cs' s s' rest rest' : List Char} (h : Spelling cs s) (h' : Spelling cs' s')
    (hsame : cs ++ '"' :: rest = cs' ++ '"' :: rest') : s = s' ∧ rest = rest' := by
  induction h generalizing cs' s' with
  | nil =>
    cases h' with
    | nil => exact ⟨rfl, (List.cons.inj hsame).2⟩
    | char hquote => exact absurd (List.cons.inj hsame).1.symm hquote
    | escape | code | pair => cases (List.cons.inj hsame).1
  | char hquote hslash _ _ ih =>
    cases h' with
    | nil => exact absurd (List.cons.inj hsame).1 hquote
    | char _ _ _ h' =>
      obtain ⟨rfl, hrest⟩ := List.cons.inj hsame
      obtain ⟨rfl, rfl⟩ := ih h' hrest
      exact ⟨rfl, rfl⟩
    | escape | code | pair => exact absurd (List.cons.inj hsame).1 hslash
  | escape he _ ih =>
    cases h' with
    | nil => cases (List.cons.inj hsame).1
    | char _ hslash => exact absurd (List.cons.inj hsame).1.symm hslash
    | escape he' h' =>
      simp only [List.cons_append, List.cons.injEq, true_and] at hsame
      obtain ⟨rfl, hsame⟩ := hsame
      obtain ⟨rfl, rfl⟩ := ih h' hsame
      rw [he] at he'
      exact ⟨congrArg (· :: _) (Option.some.inj he'), rfl⟩
    | code | pair =>
      simp only [List.cons_append, List.cons.injEq, true_and] at hsame
      obtain ⟨rfl, -⟩ := hsame
      cases he
  | code hn hplain _ ih =>
    cases h' with
    | nil => cases (List.cons.inj hsame).1
    | char _ hslash => exact absurd (List.cons.inj hsame).1.symm hslash
    | escape he' =>
      simp only [List.cons_append, List.cons.injEq, true_and] at hsame
      obtain ⟨rfl, -⟩ := hsame
      cases he'
    | code hn' _ h' =>
      simp only [List.cons_append, List.append_assoc, List.cons.injEq, true_and] at hsame
      obtain ⟨-, rfl, hsame⟩ := hn.unique hn' hsame
      obtain ⟨rfl, rfl⟩ := ih h' hsame
      exact ⟨rfl, rfl⟩
    | pair hm' _ hhigh =>
      simp only [List.cons_append, List.append_assoc, List.cons.injEq, true_and] at hsame
      obtain ⟨-, rfl, -⟩ := hn.unique hm' hsame
      omega
  | pair hm hn hhigh hlow _ ih =>
    cases h' with
    | nil => cases (List.cons.inj hsame).1
    | char _ hslash => exact absurd (List.cons.inj hsame).1.symm hslash
    | escape he' =>
      simp only [List.cons_append, List.cons.injEq, true_and] at hsame
      obtain ⟨rfl, -⟩ := hsame
      cases he'
    | code hn' hplain =>
      simp only [List.cons_append, List.append_assoc, List.cons.injEq, true_and] at hsame
      obtain ⟨-, rfl, -⟩ := hm.unique hn' hsame
      omega
    | pair hm' hn' _ _ h' =>
      simp only [List.cons_append, List.append_assoc, List.cons.injEq, true_and] at hsame
      obtain ⟨-, rfl, hsame⟩ := hm.unique hm' hsame
      simp only [List.cons.injEq, true_and] at hsame
      obtain ⟨-, rfl, hsame⟩ := hn.unique hn' hsame
      obtain ⟨rfl, rfl⟩ := ih h' hsame
      exact ⟨rfl, rfl⟩

/-- In whatever text a quoted text stands, it ends where it was written to end. -/
theorem Quotes.unique {q q' s s' rest rest' : String} (h : Quotes q s) (h' : Quotes q' s')
    (hsame : q ++ rest = q' ++ rest') : s = s' ∧ rest = rest' := by
  obtain @⟨cs, s, h⟩ := h
  obtain @⟨cs', s', h'⟩ := h'
  have hchars : cs ++ '"' :: rest.toList = cs' ++ '"' :: rest'.toList := by
    simpa [← String.toList_inj] using hsame
  obtain ⟨rfl, hrest⟩ := h.unique h' hchars
  exact ⟨rfl, String.toList_inj.1 hrest⟩

/-! ## Writing -/

theorem hexValue?_hexDigit (d : Nat) : hexValue? (Text.hexDigit d) = some (d % 16) := by
  have hall : ∀ k : Fin 16, hexValue? (Nat.digitChar k.1) = some k.1 := by decide
  exact hall ⟨d % 16, Nat.mod_lt d (by decide)⟩

theorem spelling_escape (c : Char) {cs s : List Char} (h : Spelling cs s) :
    Spelling (Text.escape c ++ cs) (c :: s) := by
  unfold Text.escape
  split
  · exact .escape rfl h
  · exact .escape rfl h
  · exact .escape rfl h
  · exact .escape rfl h
  · exact .escape rfl h
  · rename_i hquote hslash _ _ _
    split
    · rename_i hc
      obtain rfl : c = Char.ofNat 8 := by rw [← hc, Char.ofNat_toNat]
      exact .escape rfl h
    split
    · rename_i hc
      obtain rfl : c = Char.ofNat 12 := by rw [← hc, Char.ofNat_toNat]
      exact .escape rfl h
    split
    · rename_i hc
      have hcode := Code.mk (a := '0') (b := '0') (i := 0) (j := 0) rfl rfl
        (hexValue?_hexDigit (c.toNat / 16)) (hexValue?_hexDigit c.toNat)
      have hvalue : 16 * (16 * (16 * 0 + 0) + c.toNat / 16 % 16) + c.toNat % 16 = c.toNat := by omega
      rw [hvalue] at hcode
      have hspelling := Spelling.code hcode (Or.inl (by omega)) h
      rw [Char.ofNat_toNat] at hspelling
      exact hspelling
    · rename_i hc
      exact .char hquote hslash (Nat.le_of_not_lt hc) h

theorem quotes_quoted (s : String) : Quotes (Text.quoted s) s := by
  have hspelling (cs : List Char) : Spelling (cs.flatMap Text.escape) cs := by
    induction cs with
    | nil => exact .nil
    | cons c cs ih => exact spelling_escape c ih
  have hquotes := Quotes.mk (hspelling s.toList)
  have hquoted : Text.quoted s = "\"" ++ String.ofList (s.toList.flatMap Text.escape) ++ "\"" := by
    simp [← String.toList_inj, Text.quoted, Text.quotedChars]
  rw [String.ofList_toList, ← hquoted] at hquotes
  exact hquotes

theorem marks_quoted (s : String) : Marks (Text.quoted s) [.text (some s)] := (quotes_quoted s).marks

end FlowGraph.Document
