import FlowGraph.Proofs.Document.Scanning
import Mathlib.Data.List.TakeWhile

/-! # Numbers as they are written

The grammar of numbers, and that the reader finds in a number what its grammar says. A whole number of 64 bits,
written in decimal, is read as itself.
-/

namespace FlowGraph.Document
set_option autoImplicit false

/-! ## Grammar -/

def Digits (cs : List Char) : Prop := cs ≠ [] ∧ ∀ c ∈ cs, c.isDigit = true

/-- Nothing, or a point with digits behind it. -/
inductive Fraction : List Char → List Char → Prop
  | absent : Fraction [] []
  | digits {cs : List Char} (h : Digits cs) : Fraction ('.' :: cs) cs

inductive Sign : List Char → (negative : Bool) → Prop
  | absent : Sign [] false
  | plus : Sign ['+'] false
  | minus : Sign ['-'] true

/-- Nothing, or a mark with a whole number behind it. -/
inductive Exponent : List Char → Option Int → Prop
  | absent : Exponent [] none
  | whole {mark : Char} {sign digits : List Char} {negative : Bool} (hmark : mark = 'e' ∨ mark = 'E')
    (hsign : Sign sign negative) (hdigits : Digits digits) : Exponent (mark :: (sign ++ digits))
      (some (if negative then -Int.ofNat (Decimal.natOfDigits digits) else Int.ofNat (Decimal.natOfDigits digits)))

/-- A number without its minus. -/
inductive Magnitude (negative : Bool) : List Char → NumberText → Prop
  | mk {whole point fraction tail : List Char} {exponent : Option Int} (hall : ∀ c ∈ whole, c.isDigit = true)
    (hwhole : NumberText.wholePart whole = true) (hpoint : Fraction point fraction)
    (htail : Exponent tail exponent) :
    Magnitude negative (whole ++ (point ++ tail)) ⟨negative, whole, fraction, exponent⟩

inductive Numeral : List Char → NumberText → Prop
  | unsigned {cs : List Char} {t : NumberText} (h : Magnitude false cs t) : Numeral cs t
  | minus {cs : List Char} {t : NumberText} (h : Magnitude true cs t) : Numeral ('-' :: cs) t

/-! ## Reading -/

theorem digits_split {digits rest : List Char} (hall : ∀ c ∈ digits, c.isDigit = true)
    (hrest : ∀ c ∈ rest.head?, c.isDigit = false) :
    (digits ++ rest).takeWhile Char.isDigit = digits ∧ (digits ++ rest).dropWhile Char.isDigit = rest := by
  rw [List.takeWhile_append_of_pos hall, List.dropWhile_append_of_pos hall]
  cases rest with
  | nil => simp
  | cons c rest => simp [hrest c rfl]

theorem takeSign_sign {sign digits : List Char} {negative : Bool} (h : Sign sign negative) (hdigits : Digits digits) :
    Decimal.takeSign (sign ++ digits) = (negative, digits) := by
  cases h with
  | plus => rfl
  | minus => rfl
  | absent =>
    obtain ⟨hne, hall⟩ := hdigits
    cases digits with
    | nil => exact absurd rfl hne
    | cons c cs =>
      have hc := hall c List.mem_cons_self
      unfold Decimal.takeSign
      split
      · exact absurd hc (by simp_all)
      · exact absurd hc (by simp_all)
      · rfl

/-- An exponent that is there is read. -/
theorem readExponent?_of_exponent {tail : List Char} {e : Option Int} (h : Exponent tail e) (hne : tail ≠ []) :
    Decimal.readExponent? tail = e := by
  cases h with
  | absent => exact absurd rfl hne
  | @whole mark sign digits negative hmark hsign hdigits =>
    have hread : Decimal.readNat? digits = some (Decimal.natOfDigits digits) := by
      simp [Decimal.readNat?, hdigits.1, List.all_eq_true.2 hdigits.2]
    rw [Decimal.readExponent?, if_pos hmark, Decimal.readInt?, takeSign_sign hsign hdigits]
    dsimp only
    rw [hread]
    rfl

theorem Exponent.head {tail : List Char} {e : Option Int} (h : Exponent tail e) :
    ∀ c ∈ tail.head?, c = 'e' ∨ c = 'E' := by
  intro c hc
  cases h with
  | absent => cases hc
  | whole hmark => exact Option.some.inj hc ▸ hmark

theorem Exponent.not_digit {tail : List Char} {e : Option Int} (h : Exponent tail e) :
    ∀ c ∈ tail.head?, c.isDigit = false := by
  intro c hc
  obtain rfl | rfl := h.head c hc <;> rfl

theorem Exponent.inNumber {tail : List Char} {e : Option Int} (h : Exponent tail e) :
    ∀ c ∈ tail, inNumber c = true := by
  intro c hc
  cases h with
  | absent => cases hc
  | @whole mark sign digits negative hmark hsign hdigits =>
    obtain rfl | hc := List.mem_cons.1 hc
    · obtain rfl | rfl := hmark <;> rfl
    · obtain hc | hc := List.mem_append.1 hc
      · cases hsign <;> simp_all [Document.inNumber]
      · exact inNumber_of_isDigit (hdigits.2 c hc)

theorem Fraction.not_digit {point fraction tail : List Char} {e : Option Int} (hpoint : Fraction point fraction)
    (htail : Exponent tail e) : ∀ c ∈ (point ++ tail).head?, c.isDigit = false := by
  cases hpoint with
  | absent => exact htail.not_digit
  | digits => simp

/-- What is read behind the whole part of a number. -/
theorem ofChars?_tail {negative : Bool} {whole point fraction tail : List Char} {e : Option Int}
    (hpoint : Fraction point fraction) (htail : Exponent tail e) :
    (match (match point ++ tail with
        | '.' :: r =>
          let digits := r.takeWhile Char.isDigit
          if digits.isEmpty then none else some (digits, r.dropWhile Char.isDigit)
        | r => some ([], r) : Option (List Char × List Char)) with
      | none => none
      | some (fraction, []) => some (NumberText.mk negative whole fraction none)
      | some (fraction, rest) =>
        (Decimal.readExponent? rest).map fun e => NumberText.mk negative whole fraction (some e)) =
      some ⟨negative, whole, fraction, e⟩ := by
  cases hpoint with
  | absent =>
    cases htail with
    | absent => rfl
    | whole hmark hsign hdigits =>
      have hread := readExponent?_of_exponent (.whole hmark hsign hdigits) (by simp)
      obtain rfl | rfl := hmark <;> simp [hread]
  | digits h =>
    obtain ⟨htake, hdrop⟩ := digits_split h.2 htail.not_digit
    cases htail with
    | absent =>
      rw [List.append_nil] at htake hdrop
      simp [htake, hdrop, h.1]
    | whole hmark hsign hdigits =>
      have hread := readExponent?_of_exponent (.whole hmark hsign hdigits) (by simp)
      simp [htake, hdrop, hread, h.1]

/-- The number is read from the characters. -/
theorem Numeral.read {cs : List Char} {t : NumberText} (h : Numeral cs t) : NumberText.ofChars? cs = some t := by
  cases h with
  | minus h =>
    obtain ⟨hall, hwhole, hpoint, htail⟩ := h
    obtain ⟨htake, hdrop⟩ := digits_split hall (hpoint.not_digit htail)
    unfold NumberText.ofChars?
    simp only [htake, hdrop, hwhole]
    exact ofChars?_tail hpoint htail
  | unsigned h =>
    obtain ⟨hall, hwhole, hpoint, htail⟩ := h
    rename_i whole point fraction tail e
    obtain ⟨htake, hdrop⟩ := digits_split hall (hpoint.not_digit htail)
    unfold NumberText.ofChars?
    split
    rename_i negative cs hsign
    have hunsigned : (negative, cs) = (false, whole ++ (point ++ tail)) := by
      cases whole with
      | nil => cases hwhole
      | cons c whole =>
        have hc := hall c List.mem_cons_self
        split at hsign
        · exact absurd hc (by simp_all)
        · exact hsign.symm
    cases hunsigned
    simp only [htake, hdrop, hwhole]
    exact ofChars?_tail hpoint htail

theorem Magnitude.inNumber {negative : Bool} {cs : List Char} {t : NumberText} (h : Magnitude negative cs t) :
    ∀ c ∈ cs, inNumber c = true := by
  obtain ⟨hall, -, hpoint, htail⟩ := h
  intro c hc
  obtain hc | hc := List.mem_append.1 hc
  · exact inNumber_of_isDigit (hall c hc)
  obtain hc | hc := List.mem_append.1 hc
  · cases hpoint with
    | absent => cases hc
    | digits h =>
      obtain rfl | hc := List.mem_cons.1 hc
      · rfl
      · exact inNumber_of_isDigit (h.2 c hc)
  · exact htail.inNumber c hc

theorem Magnitude.start {negative : Bool} {cs : List Char} {t : NumberText} (h : Magnitude negative cs t) :
    ∃ c rest, cs = c :: rest ∧ c.isDigit = true := by
  obtain @⟨whole, -, -, -, -, hall, hwhole, -, -⟩ := h
  cases whole with
  | nil => cases hwhole
  | cons c whole => exact ⟨c, _, rfl, hall c List.mem_cons_self⟩

/-- A number is one token. -/
theorem Numeral.tokens? {cs : List Char} {t : NumberText} (h : Numeral cs t) :
    tokens? (String.ofList cs) = some [.scalar t.value] := by
  have hread := h.read
  rw [Document.tokens?, String.toList_ofList]
  cases h with
  | minus h => rw [scan_spelled rfl h.inNumber, hread, Option.map_some]
  | unsigned h =>
    obtain ⟨c, rest, rfl, hc⟩ := h.start
    rw [scan_spelled (start_digit hc) fun d hd => h.inNumber d (List.mem_cons_of_mem _ hd), hread, Option.map_some]

theorem tokens_value (t : NumberText) : t.value.tokens = [.scalar t.value] := by
  have happroximate : t.approximate.tokens = [.scalar t.approximate] := by
    unfold NumberText.approximate
    dsimp only
    split <;> rfl
  unfold NumberText.value
  dsimp only
  split
  · split
    · split
      · rfl
      · exact happroximate
    · split
      · rfl
      · exact happroximate
  · exact happroximate

/-! ## Whole numbers -/

theorem isDigit_toDigits (n : Nat) : ∀ c ∈ Nat.toDigits 10 n, c.isDigit = true :=
  fun _ hc => Nat.isDigit_of_mem_toDigits (by decide) (by decide) hc

theorem natOfDigits_toDigits (n : Nat) : Decimal.natOfDigits (Nat.toDigits 10 n) = n :=
  Nat.ofDigitChars_ten_toDigits

/-- A numeral does not start with a zero, unless it is zero. -/
theorem wholePart_toDigits (n : Nat) : NumberText.wholePart (Nat.toDigits 10 n) = true := by
  have hlead (n : Nat) (hn : 0 < n) : ∃ c cs, Nat.toDigits 10 n = c :: cs ∧ c ≠ '0' := by
    induction n using Nat.strongRecOn with
    | ind n ih =>
      rw [Nat.toDigits_eq_if (by decide)]
      split
      · rename_i hsmall
        have hdigit : ∀ k : Fin 10, 0 < k.1 → Nat.digitChar k.1 ≠ '0' := by decide
        exact ⟨_, [], rfl, hdigit ⟨n, hsmall⟩ hn⟩
      · obtain ⟨c, cs, hdigits, hc⟩ := ih (n / 10) (by omega) (by omega)
        exact ⟨c, cs ++ [(n % 10).digitChar], by rw [hdigits]; rfl, hc⟩
  obtain rfl | hn := Nat.eq_zero_or_pos n
  · rw [Nat.toDigits_zero]
    rfl
  · obtain ⟨c, cs, hdigits, hc⟩ := hlead n hn
    rw [hdigits]
    unfold NumberText.wholePart
    split
    · rename_i heq
      cases heq
    · rename_i heq
      cases heq
      exact absurd rfl hc
    · rfl

/-- A number that is kept as a whole number: 64 bits hold it, with or without a sign. -/
def Word (n : Int) : Prop := -9223372036854775808 ≤ n ∧ n < 18446744073709551616

theorem word_toInt (n : Int64) : Word n.toInt := by
  have hlow := Int64.le_toInt n
  have hhigh := Int64.toInt_lt n
  constructor <;> omega

theorem value_toDigits {n : Nat} (h : Decimal.inWord n = true) :
    NumberText.value ⟨false, Nat.toDigits 10 n, [], none⟩ = .int n := by
  simp only [NumberText.value, natOfDigits_toDigits, h]
  rfl

theorem value_minus_toDigits {n : Nat} (h : Decimal.inSignedWord (-Int.ofNat (n + 1)) = true) :
    NumberText.value ⟨true, Nat.toDigits 10 (n + 1), [], none⟩ = .int (.negSucc n) := by
  simp only [NumberText.value, natOfDigits_toDigits, h]
  rfl

theorem Word.inWord {n : Nat} (h : Word (.ofNat n)) : Decimal.inWord n = true :=
  decide_eq_true (Int.ofNat_lt.1 h.2)

theorem Word.inSignedWord {n : Nat} (h : Word (.negSucc n)) :
    Decimal.inSignedWord (-Int.ofNat (n + 1)) = true := by
  have hlow := h.1
  rw [Int.negSucc_eq] at hlow
  simp only [Int.ofNat_eq_natCast, Int.natCast_add, Decimal.inSignedWord, Bool.and_eq_true, decide_eq_true_eq]
  omega

theorem toList_ofNat (n : Nat) : (toString (Int.ofNat n)).toList = Nat.toDigits 10 n := Nat.toList_repr

theorem toList_negSucc (n : Nat) : (toString (Int.negSucc n)).toList = '-' :: Nat.toDigits 10 (n + 1) := by
  show ("-" ++ Nat.repr (n + 1)).toList = _
  rw [String.toList_append, Nat.toList_repr]
  rfl

/-- A whole number is written by the grammar. -/
theorem numeral_int {n : Int} (h : Word n) : ∃ t, Numeral (toString n).toList t ∧ t.value = .int n := by
  have hdigits (n : Nat) (negative : Bool) : Magnitude negative (Nat.toDigits 10 n)
      ⟨negative, Nat.toDigits 10 n, [], none⟩ := by
    have hmagnitude : Magnitude negative (Nat.toDigits 10 n ++ ([] ++ [])) ⟨negative, Nat.toDigits 10 n, [], none⟩ :=
      .mk (isDigit_toDigits n) (wholePart_toDigits n) .absent .absent
    rw [List.append_nil, List.append_nil] at hmagnitude
    exact hmagnitude
  cases n with
  | ofNat n =>
    rw [toList_ofNat]
    exact ⟨_, .unsigned (hdigits n false), value_toDigits h.inWord⟩
  | negSucc n =>
    rw [toList_negSucc]
    exact ⟨_, .minus (hdigits (n + 1) true), value_minus_toDigits h.inSignedWord⟩

end FlowGraph.Document
