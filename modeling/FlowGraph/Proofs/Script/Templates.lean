import FlowGraph.Proofs.Script.Rendering
import Mathlib.Data.List.Chain

/-! # Templates and their sources

A template holds its source, cut into pieces, and nothing is lost by the cut. A placeholder stands wherever a
dollar sign has a name behind it, its name reaches as far as it can, and everything between two placeholders is
one text. `Scan.Sound` is what the scan keeps, and `Proper` what it makes.
-/

namespace FlowGraph.Script
set_option autoImplicit false

/-! ## Sources -/

/-- The characters that a segment was cut from. -/
def Segment.source : Segment → List Char
  | .text value => value.toList
  | .placeholder name => '$' :: name.toList

namespace Template

def sources (segments : List Segment) : List Char := segments.flatMap Segment.source

@[simp] theorem sources_nil : sources [] = [] := rfl

@[simp] theorem sources_cons (segment : Segment) (rest : List Segment) :
    sources (segment :: rest) = segment.source ++ sources rest := rfl

@[simp] theorem sources_append (front back : List Segment) :
    sources (front ++ back) = sources front ++ sources back := List.flatMap_append

@[simp] theorem sources_textSegment (collected : List Char) :
    sources (textSegment collected) = collected.reverse := by
  cases collected with
  | nil => rfl
  | cons c cs => simp [textSegment, Segment.source]

/-- Every character of the source stands in one of the segments. -/
theorem sources_split {segments : List Segment} {front back : List Char} {d : Char}
    (h : sources segments = front ++ d :: back) : ∃ pre segment post inner rest,
    segments = pre ++ segment :: post ∧ segment.source = inner ++ d :: rest ∧ front = sources pre ++ inner ∧
      back = rest ++ sources post := by
  induction segments generalizing front with
  | nil => simp at h
  | cons segment segments ih =>
    obtain ⟨bs, hfront, hback⟩ | ⟨bs, hsource, hback⟩ := List.append_eq_append_iff.1 h
    · obtain ⟨pre, found, post, inner, rest, rfl, hfound, rfl, rfl⟩ := ih hback
      exact ⟨segment :: pre, found, post, inner, rest, rfl, hfound, by simp [hfront], rfl⟩
    · cases bs with
      | nil =>
        have hnext : sources segments = [] ++ d :: back := hback.symm
        obtain ⟨pre, found, post, inner, rest, rfl, hfound, hinner, rfl⟩ := ih hnext
        refine ⟨segment :: pre, found, post, inner, rest, rfl, hfound, ?_, rfl⟩
        rw [sources_cons, hsource, List.append_nil, List.append_assoc, ← hinner, List.append_nil]
      | cons b bs =>
        obtain ⟨rfl, rfl⟩ := List.cons.inj hback
        exact ⟨[], segment, segments, front, bs, rfl, hsource, rfl, rfl⟩

theorem sources_take_lt {segments : List Segment} {j k : Nat} {name : String}
    (hk : segments[k]? = some (.placeholder name)) (hlt : k < j) :
    (sources (segments.take k)).length < (sources (segments.take j)).length := by
  obtain ⟨m, rfl⟩ := Nat.exists_eq_add_of_lt hlt
  have htake : segments.take (k + 1) = segments.take k ++ [.placeholder name] := by
    rw [List.take_add_one, hk]
    rfl
  rw [Nat.add_right_comm, List.take_add, htake]
  simp only [sources_append, sources_cons, sources_nil, Segment.source, List.length_append, List.length_cons]
  omega

/-! ## Proper segments -/

/-- No dollar sign in the text has a name behind it. -/
def Plain (cs : List Char) : Prop := cs.IsChain fun a b => a = '$' → isNameChar b = false

/-- Segments cut where their source says, seen from each segment and what is behind it. -/
inductive Proper : List Segment → Prop
  | nil : Proper []
  | text {value : String} {rest : List Segment} (hvalue : value ≠ "") (hplain : Plain value.toList)
    (hnext : ∀ other, .text other ∉ rest.head?) (hrest : Proper rest) : Proper (.text value :: rest)
  | placeholder {name : String} {rest : List Segment} (hname : name ≠ "")
    (hall : ∀ c ∈ name.toList, isNameChar c = true) (hend : ∀ c ∈ (sources rest).head?, isNameChar c = false)
    (hrest : Proper rest) : Proper (.placeholder name :: rest)

theorem Proper.behind {front back : List Segment} (h : Proper (front ++ back)) : Proper back := by
  induction front with
  | nil => exact h
  | cons segment front ih =>
    cases h with
    | text _ _ _ hrest => exact ih hrest
    | placeholder _ _ _ hrest => exact ih hrest

theorem not_isNameChar_dollar : isNameChar '$' = false := by decide

/-- What follows a text is a dollar sign, if anything does. -/
theorem Proper.after_text {value : String} {rest : List Segment} (h : Proper (.text value :: rest)) :
    ∀ c ∈ (sources rest).head?, isNameChar c = false := by
  intro c hc
  cases h with
  | text _ _ hnext hrest =>
    cases hrest with
    | nil => simp at hc
    | text => exact absurd rfl (hnext _)
    | placeholder =>
      simp only [sources_cons, Segment.source, List.cons_append, List.head?_cons, Option.mem_def,
        Option.some.injEq] at hc
      exact hc ▸ not_isNameChar_dollar

/-- A dollar sign of the source starts a placeholder if a name follows, and is text otherwise. -/
theorem Proper.dollar {segments : List Segment} (h : Proper segments) {front back : List Char}
    (hsplit : sources segments = front ++ '$' :: back) :
    (∃ pre name post, segments = pre ++ .placeholder name :: post ∧ sources pre = front ∧
      ∃ c ∈ back.head?, isNameChar c = true) ∨
    (∃ pre value post inner rest, segments = pre ++ .text value :: post ∧
      value.toList = inner ++ '$' :: rest ∧ front = sources pre ++ inner ∧
        ∀ c ∈ back.head?, isNameChar c = false) := by
  obtain ⟨pre, segment, post, inner, rest, rfl, hsource, rfl, rfl⟩ := sources_split hsplit
  have hproper := h.behind
  cases segment with
  | text value =>
    refine Or.inr ⟨pre, value, post, inner, rest, rfl, hsource, rfl, fun c hc => ?_⟩
    cases rest with
    | nil => exact hproper.after_text c hc
    | cons d rest =>
      cases hproper with
      | text _ hplain _ _ =>
        have hvalue : value.toList = inner ++ '$' :: d :: rest := hsource
        rw [Plain, hvalue, List.isChain_append, List.isChain_cons_cons] at hplain
        simp only [List.cons_append, List.head?_cons, Option.mem_def, Option.some.injEq] at hc
        exact hc ▸ hplain.2.1.1 rfl
  | placeholder name =>
    cases hproper with
    | placeholder hname hall hend hrest =>
      cases inner with
      | nil =>
        obtain rfl : name.toList = rest := (List.cons.inj hsource).2
        refine Or.inl ⟨pre, name, post, rfl, (List.append_nil _).symm, ?_⟩
        cases hchars : name.toList with
        | nil => exact absurd (String.toList_eq_nil_iff.1 hchars) hname
        | cons c cs => exact ⟨c, rfl, hall c (hchars ▸ List.mem_cons_self)⟩
      | cons c inner =>
        -- Inside a name there is no dollar sign.
        have hmem : '$' ∈ name.toList := by
          rw [(List.cons.inj hsource).2]
          simp
        exact absurd (hall '$' hmem) (by decide)

/-! ## The scan -/

namespace Scan

/-- The characters read so far that are in no finished segment. -/
def pending (s : Scan) : List Char :=
  s.text.reverse ++
    match s.name with
    | none => []
    | some name => '$' :: name.reverse

theorem sources_endName (s : Scan) : sources s.endName.1 ++ s.endName.2.reverse = s.pending := by
  obtain ⟨text, _ | _ | ⟨c, name⟩⟩ := s <;> simp [endName, pending, Segment.source]

/-- The state once a name has ended, and before the character that ends it. -/
def afterName (text : List Char) (c : Char) : Scan := if c = '$' then ⟨text, some []⟩ else ⟨c :: text, none⟩

theorem step_outside (text : List Char) (c : Char) : step ⟨text, none⟩ c = ([], afterName text c) := rfl

theorem step_inside {c : Char} (hc : isNameChar c = true) (text name : List Char) :
    step ⟨text, some name⟩ c = ([], ⟨text, some (c :: name)⟩) := if_pos hc

theorem step_end {c : Char} (hc : isNameChar c = false) (text name : List Char) :
    step ⟨text, some name⟩ c =
      ((endName ⟨text, some name⟩).1, afterName (endName ⟨text, some name⟩).2 c) := by
  simp [step, hc, afterName]

theorem pending_afterName (text : List Char) (c : Char) : (afterName text c).pending = text.reverse ++ [c] := by
  by_cases hc : c = '$' <;> simp [afterName, pending, hc]

theorem sources_step (s : Scan) (c : Char) :
    sources (s.step c).1 ++ (s.step c).2.pending = s.pending ++ [c] := by
  obtain ⟨text, _ | name⟩ := s
  · rw [step_outside, pending_afterName]
    simp [pending]
  · cases hc : isNameChar c with
    | true =>
      rw [step_inside hc]
      simp [pending]
    | false =>
      rw [step_end hc, pending_afterName, ← sources_endName, List.append_assoc]

/-- What the scan has read: a text in which no dollar sign has a name behind it, and after a dollar sign that
is not part of the text the beginning of a name. -/
structure Sound (s : Scan) : Prop where
  plain : Plain s.text.reverse
  name : ∀ name, s.name = some name → ∀ c ∈ name, isNameChar c = true
  closed : s.name = none → s.text.head? ≠ some '$'

theorem plain_reverse_cons {text : List Char} {c : Char} (h : Plain text.reverse)
    (hc : text.head? = some '$' → isNameChar c = false) : Plain (c :: text).reverse := by
  rw [Plain, List.reverse_cons, List.isChain_append]
  refine ⟨h, List.isChain_singleton c, fun a ha b hb heq => ?_⟩
  rw [List.getLast?_reverse] at ha
  obtain rfl : c = b := by simpa using hb
  exact hc (heq ▸ ha)

theorem sound_afterName {text : List Char} {c : Char} (h : Plain text.reverse)
    (hc : text.head? = some '$' → isNameChar c = false) : (afterName text c).Sound := by
  unfold afterName
  split
  · exact ⟨h, fun name hname => by simp_all, nofun⟩
  · rename_i hne
    exact ⟨plain_reverse_cons h hc, nofun, fun _ => by simpa using hne⟩

theorem Sound.plain_endName {s : Scan} (h : s.Sound) : Plain s.endName.2.reverse := by
  obtain ⟨text, _ | _ | ⟨c, name⟩⟩ := s
  · exact h.plain
  · exact plain_reverse_cons h.plain fun _ => not_isNameChar_dollar
  · exact List.isChain_nil

theorem Sound.step {s : Scan} (h : s.Sound) (c : Char) : (s.step c).2.Sound := by
  obtain ⟨text, _ | name⟩ := s
  · exact sound_afterName h.plain fun hhead => absurd hhead (h.closed rfl)
  · cases hc : isNameChar c with
    | true =>
      rw [step_inside hc]
      refine ⟨h.plain, fun longer hname d hd => ?_, nofun⟩
      obtain rfl := Option.some.inj hname
      obtain rfl | hd := List.mem_cons.1 hd
      · exact hc
      · exact h.name name rfl d hd
    | false =>
      rw [step_end hc]
      exact sound_afterName h.plain_endName fun _ => hc

end Scan

/-- The scan loses nothing. -/
theorem sources_scan (s : Scan) (cs : List Char) : sources (scan s cs) = s.pending ++ cs := by
  induction cs generalizing s with
  | nil =>
    rw [scan, sources_append, sources_textSegment, s.sources_endName, List.append_nil]
  | cons c cs ih =>
    rw [scan, sources_append, ih, ← List.append_assoc, s.sources_step, List.append_assoc]
    rfl

/-! ## What the scan makes -/

theorem proper_textSegment {text : List Char} (h : Plain text.reverse) {rest : List Segment}
    (hnext : ∀ other, .text other ∉ rest.head?) (hrest : Proper rest) : Proper (textSegment text ++ rest) := by
  cases text with
  | nil => exact hrest
  | cons c text =>
    refine .text ?_ ?_ hnext hrest
    · simp
    · rwa [String.toList_ofList]

/-- Once a placeholder is made, no text is left. -/
theorem endName_text {s : Scan} (h : s.endName.1 ≠ []) : s.endName.2 = [] := by
  obtain ⟨text, _ | _ | ⟨c, name⟩⟩ := s
  · exact absurd rfl h
  · exact absurd rfl h
  · rfl

/-- A name that ends where it must makes a placeholder, with the text before it. -/
theorem proper_endName {s : Scan} (h : s.Sound) {rest : List Segment}
    (hend : s.endName.1 ≠ [] → ∀ c ∈ (sources rest).head?, isNameChar c = false) (hrest : Proper rest) :
    Proper (s.endName.1 ++ rest) := by
  obtain ⟨text, _ | _ | ⟨c, name⟩⟩ := s
  · exact hrest
  · exact hrest
  · rw [Scan.endName, List.append_assoc]
    refine proper_textSegment h.plain (by simp) (.placeholder (by simp) (fun d hd => ?_) (hend ?_) hrest)
    · rw [String.toList_ofList, List.mem_reverse] at hd
      exact h.name _ rfl d hd
    · simp [Scan.endName]

theorem proper_scan {s : Scan} (h : s.Sound) (cs : List Char) : Proper (scan s cs) := by
  induction cs generalizing s with
  | nil =>
    have hlast : Proper (textSegment s.endName.2) := by
      have hproper : Proper (textSegment s.endName.2 ++ []) :=
        proper_textSegment h.plain_endName (by simp) .nil
      rwa [List.append_nil] at hproper
    refine proper_endName h (fun hmade => ?_) hlast
    show ∀ c ∈ (sources (textSegment s.endName.2)).head?, isNameChar c = false
    rw [endName_text hmade]
    simp [textSegment]
  | cons c cs ih =>
    have hrest := ih (h.step c)
    rw [scan]
    obtain ⟨text, _ | name⟩ := s
    · exact hrest
    · cases hc : isNameChar c with
      | true =>
        rw [Scan.step_inside hc] at hrest ⊢
        exact hrest
      | false =>
        rw [Scan.step_end hc] at hrest ⊢
        refine proper_endName h (fun hmade d hd => ?_) hrest
        -- What follows the name begins with the character that ended it.
        rw [sources_scan, Scan.pending_afterName, endName_text hmade] at hd
        obtain rfl : c = d := by simpa using hd
        exact hc

/-! ## Parsing -/

theorem sources_parse (source : String) : sources (parse source).segments = source.toList :=
  sources_scan ⟨[], none⟩ source.toList

theorem proper_parse (source : String) : Proper (parse source).segments :=
  proper_scan (s := ⟨[], none⟩) ⟨List.isChain_nil, nofun, nofun⟩ source.toList

/-- How a template cuts its source. Texts are not empty and do not stand side by side. A placeholder has a
name, as long as the source allows. One starts at every dollar sign with a name behind it, and the other dollar
signs are in texts. -/
structure Cuts (t : Template) (source : String) : Prop where
  whole : sources t.segments = source.toList
  filled : ∀ value, .text value ∈ t.segments → value ≠ ""
  apart : ∀ front a b back, t.segments ≠ front ++ .text a :: .text b :: back
  names : ∀ front name back, t.segments = front ++ .placeholder name :: back →
    name ≠ "" ∧ (∀ c ∈ name.toList, isNameChar c = true) ∧ ∀ c ∈ (sources back).head?, isNameChar c = false
  openings : ∀ front c back, source.toList = front ++ '$' :: c :: back → isNameChar c = true →
    ∃! k, (∃ name, t.segments[k]? = some (.placeholder name)) ∧ sources (t.segments.take k) = front
  dollars : ∀ front back, source.toList = front ++ '$' :: back → (∀ c ∈ back.head?, isNameChar c = false) →
    ∃ k value inner rest, t.segments[k]? = some (.text value) ∧ value.toList = inner ++ '$' :: rest ∧
      front = sources (t.segments.take k) ++ inner

/-- Two placeholders do not start at one place. -/
theorem unique_start {segments : List Segment} {j k : Nat} {a b : String}
    (hj : segments[j]? = some (.placeholder a)) (hk : segments[k]? = some (.placeholder b))
    (hsame : sources (segments.take j) = sources (segments.take k)) : j = k := by
  have hlength := congrArg List.length hsame
  obtain hlt | heq | hgt := Nat.lt_trichotomy j k
  · have := sources_take_lt hj hlt
    omega
  · exact heq
  · have := sources_take_lt hk hgt
    omega

theorem Proper.cuts {t : Template} {source : String} (h : Proper t.segments)
    (hwhole : sources t.segments = source.toList) : t.Cuts source where
  whole := hwhole
  filled value hmem := by
    obtain ⟨front, back, hcut⟩ := List.append_of_mem hmem
    have hproper := (hcut ▸ h).behind
    cases hproper with
    | text hvalue => exact hvalue
  apart front a b back hcut := by
    have hproper := (hcut ▸ h).behind
    cases hproper with
    | text _ _ hnext => exact hnext b rfl
  names front name back hcut := by
    have hproper := (hcut ▸ h).behind
    cases hproper with
    | placeholder hname hall hend => exact ⟨hname, hall, hend⟩
  openings front c back hsplit hc := by
    obtain ⟨pre, name, post, hcut, hpre, -⟩ | ⟨-, -, -, -, -, -, -, -, hend⟩ := h.dollar (hwhole.trans hsplit)
    · refine ⟨pre.length, ⟨⟨name, by simp [hcut]⟩, by simp [hcut, hpre]⟩, ?_⟩
      rintro k ⟨⟨other, hk⟩, hfront⟩
      refine unique_start hk (b := name) (by simp [hcut]) ?_
      rw [hfront, hcut]
      simp [hpre]
    · have hno := hend c rfl
      simp [hc] at hno
  dollars front back hsplit hend := by
    obtain ⟨-, -, -, -, -, c, hc, hname⟩ | ⟨pre, value, post, inner, rest, hcut, hvalue, hfront, -⟩ :=
      h.dollar (hwhole.trans hsplit)
    · have hno := hend c hc
      simp [hname] at hno
    · exact ⟨pre.length, value, inner, rest, by simp [hcut], hvalue, by simp [hcut, hfront]⟩

/-! ## Rendering -/

theorem placeholders_text (value : String) (rest : List Segment) :
    placeholders ⟨.text value :: rest⟩ = placeholders ⟨rest⟩ := rfl

theorem placeholders_placeholder (name : String) (rest : List Segment) :
    placeholders ⟨.placeholder name :: rest⟩ = name :: placeholders ⟨rest⟩ := rfl

/-- The source with its placeholders replaced by the answers, one after the other. A placeholder without an
answer stays as it is written. -/
def replaced : List Segment → List (Option String) → String
  | [], _ => ""
  | .text value :: rest, answers => value ++ replaced rest answers
  | .placeholder name :: rest, answers => (answers.head?.join).getD ("$" ++ name) ++ replaced rest answers.tail

/-- Without answers everything stays as it is written. -/
theorem toList_render_none (t : Template) : (t.render fun _ => none).toList = sources t.segments := by
  have hsegment (segment : Segment) : (renderSegment (fun _ => none) segment).toList = segment.source := by
    cases segment <;> simp [renderSegment, Segment.source]
  simp only [render, String.toList_join, List.flatMap_map, hsegment, sources]

theorem render_eq_replaced (t : Template) (resolve : String → Option String) :
    t.render resolve = replaced t.segments (t.placeholders.map resolve) := by
  obtain ⟨segments⟩ := t
  unfold render
  induction segments with
  | nil => rfl
  | cons segment rest ih =>
    rw [List.map_cons, String.join_cons, ih]
    cases segment <;> rfl

section Asking
variable {σ : Type}

/-- Writes a segment behind what is written. The resolver may remember what it has been asked. -/
def write (resolve : String → StateM σ (Option String)) (out : String) : Segment → StateM σ String
  | .text value => return out ++ value
  | .placeholder name => do
    let answer ← resolve name
    return out ++ answer.getD ("$" ++ name)

/-- Renders with a resolver that may remember what it has been asked. -/
def renderWith (t : Template) (resolve : String → StateM σ (Option String)) : StateM σ String :=
  t.segments.foldlM (write resolve) ""

theorem foldlM_write (resolve : String → StateM σ (Option String)) (segments : List Segment) (out : String) :
    segments.foldlM (write resolve) out = do
      let answers ← (placeholders ⟨segments⟩).mapM resolve
      return out ++ replaced segments answers := by
  induction segments generalizing out with
  | nil => simp [placeholders, replaced]
  | cons segment rest ih =>
    rw [List.foldlM_cons]
    cases segment with
    | text value => simp [write, ih, placeholders_text, replaced, String.append_assoc]
    | placeholder name => simp [write, ih, placeholders_placeholder, replaced, String.append_assoc]

/-- Each placeholder is asked for once, from left to right, whatever the resolver makes of the questions. -/
theorem renderWith_eq (t : Template) (resolve : String → StateM σ (Option String)) :
    t.renderWith resolve = do
      let answers ← t.placeholders.mapM resolve
      return replaced t.segments answers := by
  rw [renderWith, foldlM_write]
  simp

/-- A resolver that remembers nothing is asked as in `render`. -/
theorem renderWith_pure (t : Template) (resolve : String → Option String) :
    t.renderWith (fun name => pure (resolve name)) = (pure (t.render resolve) : StateM σ String) := by
  rw [renderWith_eq, render_eq_replaced]
  simp

/-- How a step answers for the slots of its snippet: what runs next is given away once. -/
def fillSlot (inputs : List (String × String)) (branches : List String) (name : String) :
    StateM (Option String) (Option String) :=
  match Slot.ofName name with
  | .further => do
    let further ← get
    set (none : Option String)
    return some (further.getD "")
  | .branch i => return some (branches.getD i "")
  | .named n => return inputText? inputs n

theorem foldlM_fillSlot (inputs : List (String × String)) (branches : List String) (segments : List Segment)
    (out : String) (further : Option String) :
    (Id.run ((segments.foldlM (write (fillSlot inputs branches)) out).run further)).1 =
      out ++ fillSegments inputs branches (further.getD "") segments := by
  induction segments generalizing out further with
  | nil => simp [fillSegments]
  | cons segment rest ih =>
    rw [List.foldlM_cons]
    cases segment with
    | text value => simpa [write, fillSegments, String.append_assoc] using ih (out ++ value) further
    | placeholder name =>
      cases hslot : Slot.ofName name with
      | further =>
        have hrest := ih (out ++ further.getD "") none
        simpa [write, fillSlot, fillSegments, hslot, String.append_assoc] using hrest
      | branch i =>
        have hrest := ih (out ++ branches.getD i "") further
        simpa [write, fillSlot, fillSegments, hslot, String.append_assoc] using hrest
      | named n =>
        have hrest := ih (out ++ (inputText? inputs n).getD ("$" ++ name)) further
        simpa [write, fillSlot, fillSegments, hslot, String.append_assoc] using hrest

/-- Filling the slots of a snippet is rendering it. -/
theorem fillSegments_eq_renderWith (t : Template) (inputs : List (String × String)) (branches : List String)
    (further : String) : (Id.run ((t.renderWith (fillSlot inputs branches)).run (some further))).1 =
      fillSegments inputs branches further t.segments := by
  rw [renderWith, foldlM_fillSlot]
  simp

end Asking

/-- A source is cut at its placeholders, and nothing of it is lost. Rendering replaces the placeholders and
nothing else, and asks for each of them once, from left to right. -/
theorem parse_cuts (source : String) :
    let t := parse source
    t.render (fun _ => none) = source ∧ t.Cuts source ∧
      (∀ resolve, t.render resolve = replaced t.segments (t.placeholders.map resolve)) ∧
      ∀ {σ : Type} (resolve : String → StateM σ (Option String)), t.renderWith resolve = do
        let answers ← t.placeholders.mapM resolve
        return replaced t.segments answers := by
  dsimp only
  refine ⟨?_, (proper_parse source).cuts (sources_parse source), render_eq_replaced _, renderWith_eq _⟩
  rw [← String.toList_inj, toList_render_none, sources_parse]

end Template
end FlowGraph.Script
