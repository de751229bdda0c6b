import FlowGraph.Document.Reader
import FlowGraph.Proofs.Document.Nesting

/-! # Documents read from their tokens

The tokens of a document take the reader from where it wants a value to where it has placed one: the
document itself, clipped to the levels that may still be opened there.
-/

namespace FlowGraph.Document
set_option autoImplicit false

mutual

def tokens : Document → List Token
  | .text s => [.text (some s)]
  | .list [] => [.openList, .closeList]
  | .list (d :: rest) => .openList :: d.tokens ++ laterItems rest ++ [.closeList]
  | .object [] => [.openObject, .closeObject]
  | .object ((key, d) :: rest) =>
    .openObject :: .text (some key) :: .colon :: d.tokens ++ laterFields rest ++ [.closeObject]
  | d => [.scalar d]

/-- Items behind another one. -/
def laterItems : List Document → List Token
  | [] => []
  | d :: rest => .comma :: d.tokens ++ laterItems rest

/-- Fields behind another one. -/
def laterFields : List (String × Document) → List Token
  | [] => []
  | (key, d) :: rest => .comma :: .text (some key) :: .colon :: d.tokens ++ laterFields rest

end

/-! ## Steps -/

/-- The room that is left inside of so many open levels. -/
def roomIn (levels : List Level) : Nat := maxNesting - levels.length

theorem run_cons (r : Reading) (t : Token) (ts : List Token) :
    r.run (t :: ts) = (r.step t).bind (·.run ts) := rfl

theorem tokens_eq_cons (d : Document) : ∃ t ts, d.tokens = t :: ts ∧ t ≠ .closeList := by
  rcases d with _ | _ | _ | _ | _ | (_ | ⟨d, rest⟩) | (_ | ⟨f, rest⟩) | _
  all_goals exact ⟨_, _, rfl, by simp⟩

/-- No document starts with the mark that ends a list, so a first item is read like any value. -/
theorem run_firstItem (d : Document) (levels : List Level) (ts : List Token) :
    Reading.run ⟨.firstItem, levels, none⟩ (d.tokens ++ ts) =
      Reading.run ⟨.value, levels, none⟩ (d.tokens ++ ts) := by
  obtain ⟨t, ts', htokens, ht⟩ := d.tokens_eq_cons
  have hstep : Reading.step ⟨.firstItem, levels, none⟩ t = Reading.step ⟨.value, levels, none⟩ t := by
    cases t with
    | closeList => exact absurd rfl ht
    | _ => rfl
  rw [htokens, List.cons_append, run_cons, run_cons, hstep]

theorem ofFields_some (fields : List (String × Document)) :
    ofFields (fields.map fun f => (some f.1, f.2)) = .object fields := by
  have hall : (fields.map fun f => (some f.1, f.2)).mapM
      (fun f : Option String × Document => f.1.map fun key => (key, f.2)) = some fields := by
    induction fields with
    | nil => rfl
    | cons f rest ih =>
      rw [List.map_cons, List.mapM_cons, ih]
      rfl
  rw [ofFields, hall]

/-- A closed list or object is placed if there was room to open it. -/
theorem close_of_room {levels : List Level} (d : Document) {room : Nat} (h : roomIn levels = room + 1) :
    close d levels = place d levels := by
  unfold roomIn at h
  rw [close, if_pos (by omega)]

theorem close_of_no_room {levels : List Level} (d : Document) (h : roomIn levels = 0) :
    close d levels = place .unreadable levels := by
  unfold roomIn at h
  rw [close, if_neg (by omega)]

theorem close_list (items : List Document) (levels : List Level) (level : Level) :
    close (.list (clipItems (roomIn (level :: levels)) items)) levels =
      place (clip (roomIn levels) (.list items)) levels := by
  cases h : roomIn levels with
  | zero => rw [close_of_no_room _ h, clip]
  | succ room =>
    have hroom : roomIn (level :: levels) = room := by
      unfold roomIn at h ⊢
      rw [List.length_cons]
      omega
    rw [close_of_room _ h, clip, hroom]

theorem close_object (fields : List (String × Document)) (levels : List Level) (level : Level) :
    close (.object (clipFields (roomIn (level :: levels)) fields)) levels =
      place (clip (roomIn levels) (.object fields)) levels := by
  cases h : roomIn levels with
  | zero => rw [close_of_no_room _ h, clip]
  | succ room =>
    have hroom : roomIn (level :: levels) = room := by
      unfold roomIn at h ⊢
      rw [List.length_cons]
      omega
    rw [close_of_room _ h, clip, hroom]

/-! ## Whole documents -/

/-- The fields as the reader collects them, latest first. -/
def keyed (fields : List (String × Document)) : List (Option String × Document) :=
  (fields.map fun f => (some f.1, f.2)).reverse

mutual

theorem run_tokens : (d : Document) → ∀ (levels : List Level) (ts : List Token),
    Reading.run ⟨.value, levels, none⟩ (d.tokens ++ ts) =
      (place (d.clip (roomIn levels)) levels).bind (·.run ts)
  | .null, levels, ts => by rw [clip_of_fits _ (Nat.zero_le _)]; rfl
  | .bool _, levels, ts => by rw [clip_of_fits _ (Nat.zero_le _)]; rfl
  | .int _, levels, ts => by rw [clip_of_fits _ (Nat.zero_le _)]; rfl
  | .float _, levels, ts => by rw [clip_of_fits _ (Nat.zero_le _)]; rfl
  | .text _, levels, ts => by rw [clip_of_fits _ (Nat.zero_le _)]; rfl
  | .unreadable, levels, ts => by rw [clip_of_fits _ (Nat.zero_le _)]; rfl
  | .list [], levels, ts => by
    rw [← close_list [] levels (.items []), clipItems]
    rfl
  | .list (d :: rest), levels, ts => by
    have hfirst : Reading.run ⟨.value, levels, none⟩ ((Document.list (d :: rest)).tokens ++ ts) =
        Reading.run ⟨.firstItem, .items [] :: levels, none⟩
          (d.tokens ++ (laterItems rest ++ .closeList :: ts)) := by
      simp only [tokens, List.cons_append, List.append_assoc, List.nil_append]
      rfl
    rw [hfirst, run_firstItem, run_tokens d, ← close_list (d :: rest) levels (.items [])]
    exact run_laterItems rest [d.clip _] levels ts
  | .object [], levels, ts => by
    rw [← close_object [] levels (.fields []), clipFields]
    rfl
  | .object ((key, d) :: rest), levels, ts => by
    have hfirst : Reading.run ⟨.value, levels, none⟩ ((Document.object ((key, d) :: rest)).tokens ++ ts) =
        Reading.run ⟨.value, .field [] (some key) :: levels, none⟩
          (d.tokens ++ (laterFields rest ++ .closeObject :: ts)) := by
      simp only [tokens, List.cons_append, List.append_assoc, List.nil_append]
      rfl
    rw [hfirst, run_tokens d, ← close_object ((key, d) :: rest) levels (.fields [])]
    exact run_laterFields rest [(key, d.clip _)] levels ts

theorem run_laterItems : (rest : List Document) → ∀ (done : List Document) (levels : List Level)
    (ts : List Token),
    Reading.run ⟨.separator, .items done :: levels, none⟩ (laterItems rest ++ .closeList :: ts) =
      (close (.list (done.reverse ++ clipItems (roomIn (.items done :: levels)) rest)) levels).bind (·.run ts)
  | [], done, levels, ts => by
    rw [clipItems, List.append_nil]
    rfl
  | d :: rest, done, levels, ts => by
    have hnext : Reading.run ⟨.separator, .items done :: levels, none⟩
        (laterItems (d :: rest) ++ .closeList :: ts) =
          Reading.run ⟨.value, .items done :: levels, none⟩
            (d.tokens ++ (laterItems rest ++ .closeList :: ts)) := by
      simp only [laterItems, List.cons_append, List.append_assoc]
      rfl
    rw [hnext, run_tokens d, clipItems]
    have hrest := run_laterItems rest (d.clip (roomIn (.items done :: levels)) :: done) levels ts
    rw [List.reverse_cons, List.append_assoc] at hrest
    exact hrest

theorem run_laterFields : (rest : List (String × Document)) → ∀ (done : List (String × Document))
    (levels : List Level) (ts : List Token),
    Reading.run ⟨.separator, .fields (keyed done) :: levels, none⟩
        (laterFields rest ++ .closeObject :: ts) =
      (close (.object (done ++ clipFields (roomIn (.fields [] :: levels)) rest)) levels).bind (·.run ts)
  | [], done, levels, ts => by
    rw [clipFields, List.append_nil, ← ofFields_some done, ← List.reverse_reverse (done.map _)]
    rfl
  | (key, d) :: rest, done, levels, ts => by
    have hnext : Reading.run ⟨.separator, .fields (keyed done) :: levels, none⟩
        (laterFields ((key, d) :: rest) ++ .closeObject :: ts) =
          Reading.run ⟨.value, .field (keyed done) (some key) :: levels, none⟩
            (d.tokens ++ (laterFields rest ++ .closeObject :: ts)) := by
      simp only [laterFields, List.cons_append, List.append_assoc]
      rfl
    have hkeyed : (some key, d.clip (roomIn (.fields [] :: levels))) :: keyed done =
        keyed (done ++ [(key, d.clip (roomIn (.fields [] :: levels)))]) := by
      rw [keyed, keyed, List.map_append, List.reverse_append]
      rfl
    have hrest := run_laterFields rest (done ++ [(key, d.clip (roomIn (.fields [] :: levels)))]) levels ts
    rw [← hkeyed, List.append_assoc] at hrest
    rw [hnext, run_tokens d, clipFields]
    exact hrest

end

/-- The tokens of a document are read as far as the room goes. -/
theorem ofTokens?_tokens (d : Document) : ofTokens? d.tokens = some (d.clip maxNesting) := by
  have hrun := run_tokens d [] []
  rw [List.append_nil] at hrun
  rw [ofTokens?, hrun]
  rfl

/-! ## One value for each row of tokens -/

section Heads
variable {d e : Document} {ts us : List Token}

theorem eq_of_scalar (h : .scalar d :: ts = e.tokens ++ us) : d = e ∧ ts = us := by
  rcases e with _ | _ | _ | _ | _ | (_ | ⟨e, rest⟩) | (_ | ⟨f, rest⟩) | _ <;> simp_all [tokens]

theorem eq_of_text {s : String} (h : .text (some s) :: ts = e.tokens ++ us) : .text s = e ∧ ts = us := by
  rcases e with _ | _ | _ | _ | _ | (_ | ⟨e, rest⟩) | (_ | ⟨f, rest⟩) | _ <;> simp_all [tokens]

theorem eq_of_emptyList (h : .openList :: .closeList :: ts = e.tokens ++ us) : .list [] = e ∧ ts = us := by
  rcases e with _ | _ | _ | _ | _ | (_ | ⟨e, rest⟩) | (_ | ⟨f, rest⟩) | _
  case list.cons =>
    obtain ⟨t, more, htokens, ht⟩ := e.tokens_eq_cons
    simp only [tokens, htokens, List.cons_append, List.cons.injEq, true_and] at h
    exact absurd h.1.symm ht
  all_goals simp_all [tokens]

theorem eq_of_emptyObject (h : .openObject :: .closeObject :: ts = e.tokens ++ us) :
    .object [] = e ∧ ts = us := by
  rcases e with _ | _ | _ | _ | _ | (_ | ⟨e, rest⟩) | (_ | ⟨f, rest⟩) | _ <;> simp_all [tokens]

/-- What starts like a list that is not empty is one. -/
theorem exists_of_list (h : .openList :: (d.tokens ++ ts) = e.tokens ++ us) : ∃ first rest,
    e = .list (first :: rest) ∧ d.tokens ++ ts = first.tokens ++ (laterItems rest ++ .closeList :: us) := by
  rcases e with _ | _ | _ | _ | _ | (_ | ⟨e, rest⟩) | (_ | ⟨f, rest⟩) | _
  case list.nil =>
    obtain ⟨t, more, htokens, ht⟩ := d.tokens_eq_cons
    simp only [tokens, htokens, List.cons_append, List.cons.injEq, true_and] at h
    exact absurd h.1 ht
  case list.cons => exact ⟨e, rest, rfl, by simpa [tokens] using h⟩
  all_goals simp [tokens] at h

theorem exists_of_object {key : String} (h : .openObject :: .text (some key) :: ts = e.tokens ++ us) :
    ∃ first rest, e = .object ((key, first) :: rest) ∧
      ts = .colon :: (first.tokens ++ (laterFields rest ++ .closeObject :: us)) := by
  rcases e with _ | _ | _ | _ | _ | (_ | ⟨e, rest⟩) | (_ | ⟨⟨other, e⟩, rest⟩) | _
  case object.cons =>
    simp only [tokens, List.cons_append, List.cons.injEq, Token.text.injEq, Option.some.injEq, true_and] at h
    obtain ⟨rfl, hts⟩ := h
    exact ⟨e, rest, rfl, by simpa using hts⟩
  all_goals simp [tokens] at h

end Heads

mutual

/-- Tokens of a value with something behind them can be divided in one way only. -/
theorem eq_of_tokens : (d e : Document) → ∀ {ts us : List Token}, d.tokens ++ ts = e.tokens ++ us →
    d = e ∧ ts = us
  | .null, _, _, _, h => eq_of_scalar h
  | .bool _, _, _, _, h => eq_of_scalar h
  | .int _, _, _, _, h => eq_of_scalar h
  | .float _, _, _, _, h => eq_of_scalar h
  | .unreadable, _, _, _, h => eq_of_scalar h
  | .text _, _, _, _, h => eq_of_text h
  | .list [], _, _, _, h => eq_of_emptyList h
  | .object [], _, _, _, h => eq_of_emptyObject h
  | .list (d :: ds), e, ts, us, h => by
    simp only [tokens, List.cons_append, List.append_assoc, List.nil_append] at h
    obtain ⟨first, rest, rfl, hitems⟩ := exists_of_list h
    obtain ⟨rfl, hrest⟩ := eq_of_tokens d first hitems
    obtain ⟨rfl, rfl⟩ := eq_of_laterItems ds rest hrest
    exact ⟨rfl, rfl⟩
  | .object ((key, d) :: fs), e, ts, us, h => by
    simp only [tokens, List.cons_append, List.append_assoc, List.nil_append] at h
    obtain ⟨first, rest, rfl, hfields⟩ := exists_of_object h
    obtain ⟨rfl, hrest⟩ := eq_of_tokens d first (List.cons.inj hfields).2
    obtain ⟨rfl, rfl⟩ := eq_of_laterFields fs rest hrest
    exact ⟨rfl, rfl⟩

theorem eq_of_laterItems : (ds es : List Document) → ∀ {ts us : List Token},
    laterItems ds ++ .closeList :: ts = laterItems es ++ .closeList :: us → ds = es ∧ ts = us
  | [], [], _, _, h => ⟨rfl, (List.cons.inj h).2⟩
  | [], _ :: _, _, _, h => by simp [laterItems] at h
  | _ :: _, [], _, _, h => by simp [laterItems] at h
  | d :: ds, e :: es, ts, us, h => by
    simp only [laterItems, List.cons_append, List.append_assoc, List.cons.injEq, true_and] at h
    obtain ⟨rfl, hrest⟩ := eq_of_tokens d e h
    obtain ⟨rfl, rfl⟩ := eq_of_laterItems ds es hrest
    exact ⟨rfl, rfl⟩

theorem eq_of_laterFields : (fs gs : List (String × Document)) → ∀ {ts us : List Token},
    laterFields fs ++ .closeObject :: ts = laterFields gs ++ .closeObject :: us → fs = gs ∧ ts = us
  | [], [], _, _, h => ⟨rfl, (List.cons.inj h).2⟩
  | [], _ :: _, _, _, h => by simp [laterFields] at h
  | _ :: _, [], _, _, h => by simp [laterFields] at h
  | (key, d) :: fs, (other, e) :: gs, ts, us, h => by
    simp only [laterFields, List.cons_append, List.append_assoc, List.cons.injEq, Token.text.injEq,
      Option.some.injEq, true_and] at h
    obtain ⟨rfl, hd⟩ := h
    obtain ⟨rfl, hrest⟩ := eq_of_tokens d e hd
    obtain ⟨rfl, rfl⟩ := eq_of_laterFields fs gs hrest
    exact ⟨rfl, rfl⟩

end

theorem tokens_injective {d e : Document} (h : d.tokens = e.tokens) : d = e :=
  (eq_of_tokens d e (congrArg (· ++ []) h)).1

/-! ## Doubles -/

/-- The reader is within a list or an object, or is done with one. -/
def Reading.Compound (r : Reading) : Prop :=
  (r.levels ≠ [] ∧ r.result = none) ∨
    r.want = .separator ∧ r.levels = [] ∧ ∃ d, r.result = some d ∧ ∀ x, d ≠ .float x

theorem compound_of_place {d : Document} {levels : List Level} {r : Reading} (h : place d levels = some r)
    (hd : levels ≠ [] ∨ ∀ x, d ≠ .float x) : r.Compound := by
  rcases levels with _ | ⟨_ | _ | _, levels⟩
  · cases h
    obtain hne | hd := hd
    · exact absurd rfl hne
    · exact Or.inr ⟨rfl, rfl, d, rfl, hd⟩
  · cases h
    exact Or.inl ⟨by simp, rfl⟩
  · cases h
  · cases h
    exact Or.inl ⟨by simp, rfl⟩

theorem compound_of_close {d : Document} {levels : List Level} {r : Reading} (h : close d levels = some r)
    (hd : ∀ x, d ≠ .float x) : r.Compound := by
  refine compound_of_place h (Or.inr fun x => ?_)
  split
  · exact hd x
  · simp

theorem compound_of_startValue {t : Token} {levels : List Level} {r : Reading}
    (h : Reading.startValue levels t = some r) (hne : levels ≠ []) : r.Compound := by
  unfold Reading.startValue at h
  split at h
  · exact compound_of_place h (Or.inl hne)
  · exact compound_of_place h (Or.inl hne)
  · exact compound_of_place h (Or.inl hne)
  · cases h
    exact Or.inl ⟨by simp, rfl⟩
  · cases h
    exact Or.inl ⟨by simp, rfl⟩
  · cases h

/-- Nothing may follow a whole value. -/
theorem step_done (d : Document) (t : Token) : Reading.step ⟨.separator, [], some d⟩ t = none := by
  cases t <;> rfl

theorem Reading.Compound.step {r r' : Reading} {t : Token} (hr : r.Compound) (h : r.step t = some r') :
    r'.Compound := by
  have hlist (done : List Document) (x : Float) : Document.list done ≠ .float x := by simp
  have hobject (done : List (Option String × Document)) (x : Float) : ofFields done ≠ .float x := by
    unfold ofFields
    split <;> simp
  obtain ⟨want, levels, result⟩ := r
  obtain ⟨hne, hresult⟩ | ⟨rfl, rfl, d, rfl, -⟩ := hr
  · unfold Reading.step at h
    split at h
    · exact compound_of_startValue h hne
    · exact compound_of_close h (hlist _)
    · exact compound_of_startValue h hne
    · exact compound_of_close h (hobject _)
    · cases h
      exact Or.inl ⟨by simp, rfl⟩
    · cases h
      exact Or.inl ⟨by simp, rfl⟩
    · cases h
      exact Or.inl ⟨hne, rfl⟩
    · cases h
      exact Or.inl ⟨by simp, rfl⟩
    · cases h
      exact Or.inl ⟨by simp, rfl⟩
    · exact compound_of_close h (hlist _)
    · exact compound_of_close h (hobject _)
    · cases h
  · rw [step_done] at h
    cases h

theorem Reading.Compound.run {r r' : Reading} {ts : List Token} (hr : r.Compound)
    (h : r.run ts = some r') : r'.Compound := by
  induction ts generalizing r with
  | nil =>
    cases h
    exact hr
  | cons t ts ih =>
    obtain ⟨next, hstep, hrun⟩ := Option.bind_eq_some_iff.1 h
    exact ih (hr.step hstep) hrun

theorem run_done {d : Document} {ts : List Token} {r : Reading}
    (h : Reading.run ⟨.separator, [], some d⟩ ts = some r) : ts = [] ∧ r.result = some d := by
  cases ts with
  | nil =>
    cases h
    exact ⟨rfl, rfl⟩
  | cons t ts =>
    rw [run_cons, step_done] at h
    cases h

/-- A double is read from a single token. -/
theorem eq_scalar_of_float {ts : List Token} {x : Float} (h : ofTokens? ts = some (.float x)) :
    ts = [.scalar (.float x)] := by
  obtain ⟨r, hrun, hresult⟩ := Option.bind_eq_some_iff.1 h
  cases ts with
  | nil =>
    cases hrun
    cases hresult
  | cons t ts =>
    obtain ⟨next, hstep, hrun⟩ := Option.bind_eq_some_iff.1 hrun
    have hsimple {d : Document} (hnext : next = ⟨.separator, [], some d⟩) : ts = [] ∧ d = .float x := by
      rw [hnext] at hrun
      obtain ⟨hts, hd⟩ := run_done hrun
      rw [hresult] at hd
      exact ⟨hts, (Option.some.inj hd).symm⟩
    have hcompound (hnext : next.Compound) : False := by
      obtain ⟨-, hnone⟩ | ⟨-, -, d, hsome, hd⟩ := hnext.run hrun
      · rw [hresult] at hnone
        cases hnone
      · rw [hresult] at hsome
        exact hd x (Option.some.inj hsome).symm
    cases t with
    | scalar d =>
      obtain ⟨rfl, rfl⟩ := hsimple (Option.some.inj hstep).symm
      rfl
    | text value =>
      cases value with
      | none => cases (hsimple (Option.some.inj hstep).symm).2
      | some s => cases (hsimple (Option.some.inj hstep).symm).2
    | openList =>
      cases hstep
      exact (hcompound (Or.inl ⟨by simp, rfl⟩)).elim
    | openObject =>
      cases hstep
      exact (hcompound (Or.inl ⟨by simp, rfl⟩)).elim
    | closeList => cases hstep
    | closeObject => cases hstep
    | comma => cases hstep
    | colon => cases hstep

end FlowGraph.Document
