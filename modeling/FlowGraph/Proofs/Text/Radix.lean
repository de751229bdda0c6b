import FlowGraph.Id
import Mathlib.Algebra.Group.Nat.Defs
import Mathlib.Data.List.Induction

/-! # Numerals can be read back

A numeral to base 36 tells its number, and no other numeral does, so two identities with one text are the same.
-/

namespace FlowGraph
set_option autoImplicit false

namespace Text

def ofDigits (base : Nat) (digits : List Nat) : Nat := digits.foldl (fun n d => n * base + d) 0

def value36 (c : Char) : Nat := if c.toNat < 58 then c.toNat - 48 else c.toNat - 87

/-- The number that is written with some digits. -/
def read36 (cs : List Char) : Nat := ofDigits 36 (cs.map value36)

theorem ofDigits_radixDigits {base steps n : Nat} (hbase : 1 < base) (h : n < steps) :
    ofDigits base (radixDigits base steps n) = n := by
  induction steps generalizing n with
  | zero => exact absurd h (Nat.not_lt_zero n)
  | succ steps ih =>
    rw [radixDigits]
    split
    · show 0 * base + n = n
      omega
    · rename_i hn
      have hless : n / base < n := Nat.div_lt_self (by omega) hbase
      have hfront := ih (n := n / base) (by omega)
      unfold ofDigits at hfront ⊢
      rw [List.foldl_append, hfront]
      show n / base * base + n % base = n
      rw [Nat.mul_comm]
      exact Nat.div_add_mod n base

theorem lt_of_mem_radixDigits {base steps n d : Nat} (hbase : 0 < base)
    (hd : d ∈ radixDigits base steps n) : d < base := by
  induction steps generalizing n with
  | zero => cases hd
  | succ steps ih =>
    rw [radixDigits] at hd
    split at hd
    · rename_i hn
      rw [List.mem_singleton.1 hd]
      exact hn
    · obtain hd | hd := List.mem_append.1 hd
      · exact ih hd
      · rw [List.mem_singleton.1 hd]
        exact Nat.mod_lt n hbase

theorem value36_digit36 {d : Nat} (h : d < 36) : value36 (digit36 d) = d := by
  have hall : ∀ d : Fin 36, value36 (digit36 d) = d := by decide
  exact hall ⟨d, h⟩

theorem read36_base36 (n : Nat) : read36 (base36 n).toList = n := by
  have hdigits : (base36 n).toList.map value36 = radixDigits 36 (n + 1) n := by
    rw [base36, String.toList_ofList, List.map_map]
    refine (List.map_congr_left fun d hd => ?_).trans (List.map_id _)
    exact value36_digit36 (lt_of_mem_radixDigits (by decide) hd)
  rw [read36, hdigits]
  exact ofDigits_radixDigits (by decide) (Nat.lt_succ_self n)

/-- A numeral tells its number. -/
theorem base36_injective {m n : Nat} (h : base36 m = base36 n) : m = n := by
  rw [← read36_base36 m, ← read36_base36 n, h]

theorem prefixed_injective {lead : String} {m n : Nat} (h : lead ++ base36 m = lead ++ base36 n) : m = n := by
  have hlist := congrArg String.toList h
  rw [String.toList_append, String.toList_append] at hlist
  exact base36_injective (String.toList_injective (List.append_cancel_left hlist))

/-! ## The form of a numeral -/

section Form
variable {base steps more n : Nat} {digits : List Nat}

/-- A digit is spent in every step, so further steps change nothing. -/
theorem radixDigits_eq (hsteps : 0 < steps) (hmore : 0 < more) (h : n < base ^ steps) (h' : n < base ^ more) :
    radixDigits base steps n = radixDigits base more n := by
  induction steps generalizing more n with
  | zero => exact absurd hsteps (Nat.lt_irrefl 0)
  | succ steps ih =>
    cases more with
    | zero => exact absurd hmore (Nat.lt_irrefl 0)
    | succ more =>
      rw [radixDigits, radixDigits]
      split
      · rfl
      · rename_i hn
        have hless {k : Nat} (hk : n < base ^ (k + 1)) : 0 < k ∧ n / base < base ^ k := by
          refine ⟨Nat.pos_of_ne_zero ?_, Nat.div_lt_of_lt_mul ?_⟩
          · rintro rfl
            exact hn (by simpa using hk)
          · rwa [Nat.pow_succ, Nat.mul_comm] at hk
        obtain ⟨hsteps, h⟩ := hless h
        obtain ⟨hmore, h'⟩ := hless h'
        rw [ih hsteps hmore h h']

/-- A numeral begins with a digit, and with a zero only if it is zero. -/
theorem radixDigits_lead (hbase : 1 < base) (h : n < steps) :
    ∃ d rest, radixDigits base steps n = d :: rest ∧ (d = 0 → n = 0 ∧ rest = []) := by
  induction steps generalizing n with
  | zero => exact absurd h (Nat.not_lt_zero n)
  | succ steps ih =>
    rw [radixDigits]
    split
    · exact ⟨n, [], rfl, fun hzero => ⟨hzero, rfl⟩⟩
    · rename_i hn
      have hless : n / base < n := Nat.div_lt_self (by omega) hbase
      have hpos : 0 < n / base := Nat.div_pos (by omega) (by omega)
      obtain ⟨d, rest, hdigits, hlead⟩ := ih (n := n / base) (by omega)
      refine ⟨d, rest ++ [n % base], by rw [hdigits]; rfl, fun hzero => ?_⟩
      exact absurd (hlead hzero).1 (Nat.ne_of_gt hpos)

theorem ofDigits_concat (base : Nat) (front : List Nat) (d : Nat) :
    ofDigits base (front ++ [d]) = ofDigits base front * base + d := List.foldl_append

theorem ofDigits_pos (hbase : 0 < base) {d : Nat} (hd : 0 < d) (rest : List Nat) : 0 < ofDigits base (d :: rest) := by
  induction rest using List.reverseRecOn with
  | nil =>
    rw [← List.nil_append [d], ofDigits_concat]
    exact Nat.lt_add_left _ hd
  | append_singleton rest e ih =>
    rw [← List.cons_append, ofDigits_concat]
    exact Nat.lt_add_right e (Nat.mul_pos ih hbase)

/-- Digits without a leading zero are the digits of their number. -/
theorem radixDigits_ofDigits (hbase : 1 < base) (hfilled : digits ≠ []) (hdigit : ∀ d ∈ digits, d < base)
    (hlead : digits.head? = some 0 → digits = [0]) (h : ofDigits base digits < steps) :
    radixDigits base steps (ofDigits base digits) = digits := by
  induction digits using List.reverseRecOn generalizing steps with
  | nil => exact absurd rfl hfilled
  | append_singleton front d ih =>
    have hd : d < base := hdigit d (List.mem_append_right front (List.mem_singleton.2 rfl))
    rw [ofDigits_concat] at h ⊢
    cases steps with
    | zero => exact absurd h (Nat.not_lt_zero _)
    | succ steps =>
      cases front with
      | nil =>
        have hvalue : ofDigits base [] * base + d = d := by simp [ofDigits]
        rw [radixDigits, hvalue, if_pos hd]
        rfl
      | cons a rest =>
        -- The front is the numeral of the quotient, because its first digit is no zero.
        have ha : a ≠ 0 := fun hzero => by simpa [hzero] using hlead (congrArg some hzero)
        have hpos : 0 < ofDigits base (a :: rest) := ofDigits_pos (by omega) (Nat.pos_of_ne_zero ha) rest
        have hfront : ∀ e ∈ a :: rest, e < base := fun e he => hdigit e (List.mem_append_left [d] he)
        generalize hn : ofDigits base (a :: rest) = n at h hpos ih ⊢
        have hlarge : n * 1 < n * base := Nat.mul_lt_mul_of_pos_left hbase hpos
        have hquotient : (n * base + d) / base = n := by
          rw [Nat.mul_comm, Nat.mul_add_div (by omega), Nat.div_eq_of_lt hd, Nat.add_zero]
        have hremainder : (n * base + d) % base = d := by
          rw [Nat.mul_comm, Nat.mul_add_mod, Nat.mod_eq_of_lt hd]
        have hmany : ¬n * base + d < base := by
          have hle : 1 * base ≤ n * base := Nat.mul_le_mul_right base hpos
          omega
        have hrest : radixDigits base steps n = a :: rest :=
          ih (List.cons_ne_nil a rest) hfront (fun hzero => absurd (Option.some.inj hzero) ha) (by omega)
        rw [radixDigits, if_neg hmany, hquotient, hremainder, hrest]

end Form

/-- The digits in the order of their values. -/
def digits36 : List Char := "0123456789abcdefghijklmnopqrstuvwxyz".toList

/-- A numeral has digits only, and a zero in front only if it is the zero. -/
structure Numeral36 (cs : List Char) : Prop where
  filled : cs ≠ []
  digits : ∀ c ∈ cs, c ∈ digits36
  lead : cs.head? = some '0' → cs = ['0']

theorem digit36_mem {d : Nat} (h : d < 36) : digit36 d ∈ digits36 := by
  have hall : ∀ d : Fin 36, digit36 d ∈ digits36 := by decide
  exact hall ⟨d, h⟩

theorem value36_lt {c : Char} (h : c ∈ digits36) : value36 c < 36 := by
  have hall : (digits36.all fun c => value36 c < 36) = true := by decide
  exact of_decide_eq_true (List.all_eq_true.1 hall c h)

theorem digit36_value36 {c : Char} (h : c ∈ digits36) : digit36 (value36 c) = c := by
  have hall : (digits36.all fun c => digit36 (value36 c) = c) = true := by decide
  exact of_decide_eq_true (List.all_eq_true.1 hall c h)

theorem numeral36_base36 (n : Nat) : Numeral36 (base36 n).toList := by
  have hbase : 1 < 36 := by decide
  obtain ⟨d, rest, hdigits, hlead⟩ := radixDigits_lead hbase (Nat.lt_succ_self n)
  have hdigit : ∀ e ∈ d :: rest, e < 36 := fun e he => lt_of_mem_radixDigits (by decide) (hdigits ▸ he)
  rw [base36, String.toList_ofList, hdigits]
  refine ⟨List.cons_ne_nil _ _, fun c hc => ?_, fun hzero => ?_⟩
  · obtain ⟨e, he, rfl⟩ := List.mem_map.1 hc
    exact digit36_mem (hdigit e he)
  · have hd := congrArg value36 (Option.some.inj hzero)
    rw [value36_digit36 (hdigit d List.mem_cons_self)] at hd
    obtain ⟨-, rfl⟩ := hlead hd
    exact congrArg (fun c => [c]) (Option.some.inj hzero)

theorem Numeral36.eq_base36 {cs : List Char} (h : Numeral36 cs) : cs = (base36 (read36 cs)).toList := by
  have hdigits : radixDigits 36 (read36 cs + 1) (read36 cs) = cs.map value36 := by
    refine radixDigits_ofDigits (by decide) (fun hnil => h.filled (List.map_eq_nil_iff.1 hnil)) (fun d hd => ?_)
      (fun hzero => ?_) (Nat.lt_succ_self _)
    · obtain ⟨c, hc, rfl⟩ := List.mem_map.1 hd
      exact value36_lt (h.digits c hc)
    · rw [List.head?_map] at hzero
      obtain ⟨c, hc, hvalue⟩ := Option.map_eq_some_iff.1 hzero
      have hfirst : c = '0' := by
        rw [← digit36_value36 (h.digits c (List.mem_of_head? hc)), hvalue]
        rfl
      rw [h.lead (hfirst ▸ hc)]
      rfl
  rw [base36, String.toList_ofList, hdigits, List.map_map]
  exact ((List.map_congr_left fun c hc => digit36_value36 (h.digits c hc)).trans (List.map_id cs)).symm

/-- The text of a number is its only numeral. -/
theorem numeral36_iff {cs : List Char} {n : Nat} : Numeral36 cs ∧ read36 cs = n ↔ cs = (base36 n).toList := by
  constructor
  · rintro ⟨h, rfl⟩
    exact h.eq_base36
  · rintro rfl
    exact ⟨numeral36_base36 n, read36_base36 n⟩

/-- The numeral is complete after as many steps as it has digits. -/
theorem base36_eq {steps n : Nat} (hsteps : 0 < steps) (h : n < 36 ^ steps) :
    base36 n = String.ofList ((radixDigits 36 steps n).map digit36) := by
  have hself : n < 36 ^ (n + 1) := Nat.lt_trans (Nat.lt_succ_self n) (Nat.lt_pow_self (by decide))
  rw [base36, radixDigits_eq (Nat.succ_pos n) hsteps hself h]

end Text

theorem NodeId.text_injective {a b : NodeId} (h : a.text = b.text) : a = b := by
  obtain ⟨m⟩ := a
  obtain ⟨n⟩ := b
  exact congrArg NodeId.mk (Text.prefixed_injective h)

theorem ConnectorId.text_injective {a b : ConnectorId} (h : a.text = b.text) : a = b := by
  obtain ⟨m⟩ := a
  obtain ⟨n⟩ := b
  exact congrArg ConnectorId.mk (Text.prefixed_injective h)

/-- The first letter tells a node from a connector. -/
theorem NodeId.text_ne_text (a : NodeId) (c : ConnectorId) : a.text ≠ c.text := by
  intro h
  have hlist := congrArg String.toList h
  rw [text, ConnectorId.text, String.toList_append, String.toList_append] at hlist
  exact absurd (List.cons.inj hlist).1 (by decide)

end FlowGraph
