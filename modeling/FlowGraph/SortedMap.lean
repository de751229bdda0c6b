/-! # Maps kept in the order of their keys

A `SortedMap` holds one value per text, in ascending order of code points. Two of them with the
same values are therefore equal, and a map is written in one way only.
-/

namespace FlowGraph
set_option autoImplicit false

/-- Values by text, in ascending order. -/
structure SortedMap (α : Type) where
  entries : List (String × α)
  sorted : entries.Pairwise fun a b => a.1 < b.1

namespace SortedMap
variable {α : Type}

def empty : SortedMap α := ⟨[], .nil⟩

/-- Puts an entry where it belongs, in place of an older one with the same key. -/
def insertEntry (k : String) (a : α) : List (String × α) → List (String × α)
  | [] => [(k, a)]
  | e :: rest =>
    if k < e.1 then (k, a) :: e :: rest
    else if e.1 < k then e :: insertEntry k a rest
    else (k, a) :: rest

theorem mem_insertEntry {k : String} {a : α} {es : List (String × α)} {e : String × α}
    (h : e ∈ insertEntry k a es) : e = (k, a) ∨ e ∈ es := by
  induction es with
  | nil => simpa [insertEntry] using h
  | cons x rest ih =>
    simp only [insertEntry] at h
    split at h
    · simpa using h
    · split at h
      · rcases List.mem_cons.1 h with rfl | h
        · simp
        · rcases ih h with h | h <;> simp [h]
      · rcases List.mem_cons.1 h with h | h <;> simp [h]

theorem sorted_insertEntry (k : String) (a : α) (es : List (String × α))
    (h : es.Pairwise fun a b => a.1 < b.1) :
    (insertEntry k a es).Pairwise fun a b => a.1 < b.1 := by
  induction es with
  | nil => simp [insertEntry]
  | cons x rest ih =>
    obtain ⟨hx, hrest⟩ := List.pairwise_cons.1 h
    simp only [insertEntry]
    split
    · rename_i hk
      refine List.pairwise_cons.2 ⟨fun e he => ?_, h⟩
      rcases List.mem_cons.1 he with rfl | he
      · exact hk
      · exact String.lt_trans hk (hx e he)
    · split
      · rename_i hk
        refine List.pairwise_cons.2 ⟨fun e he => ?_, ih hrest⟩
        rcases mem_insertEntry he with rfl | he
        · exact hk
        · exact hx e he
      · rename_i h1 h2
        have hk : k = x.1 := String.le_antisymm (String.not_lt.1 h2) (String.not_lt.1 h1)
        exact List.pairwise_cons.2 ⟨fun e he => hk ▸ hx e he, hrest⟩

def insert (m : SortedMap α) (k : String) (a : α) : SortedMap α :=
  ⟨insertEntry k a m.entries, sorted_insertEntry k a m.entries m.sorted⟩

/-- The map of some entries; of two with one key the later one counts. -/
def ofList (es : List (String × α)) : SortedMap α := es.foldl (fun m e => m.insert e.1 e.2) empty

theorem ext {m m' : SortedMap α} (h : m.entries = m'.entries) : m = m' := by
  obtain ⟨es, hes⟩ := m
  subst h
  rfl

theorem insertEntry_last {k : String} {a : α} {es : List (String × α)} (h : ∀ e ∈ es, e.1 < k) :
    insertEntry k a es = es ++ [(k, a)] := by
  induction es with
  | nil => rfl
  | cons x rest ih =>
    have hx := h x List.mem_cons_self
    have hgreater : ¬k < x.1 := fun hk => String.lt_irrefl _ (String.lt_trans hx hk)
    rw [insertEntry, if_neg hgreater, if_pos hx, ih fun e he => h e (List.mem_cons_of_mem _ he)]
    rfl

/-- The entries of a map give it back. -/
theorem ofList_entries (m : SortedMap α) : ofList m.entries = m := by
  have hall (es : List (String × α)) (m' : SortedMap α)
      (h : (m'.entries ++ es).Pairwise fun a b => a.1 < b.1) :
      (es.foldl (fun m e => m.insert e.1 e.2) m').entries = m'.entries ++ es := by
    induction es generalizing m' with
    | nil => exact (List.append_nil _).symm
    | cons e rest ih =>
      have hless (x : String × α) (hx : x ∈ m'.entries) : x.1 < e.1 :=
        (List.pairwise_append.1 h).2.2 x hx e List.mem_cons_self
      have hmore : (m'.insert e.1 e.2).entries ++ rest = m'.entries ++ e :: rest := by
        show insertEntry e.1 e.2 m'.entries ++ rest = _
        rw [insertEntry_last hless, List.append_assoc]
        rfl
      rw [List.foldl_cons, ih _ (by rw [hmore]; exact h), hmore]
  exact ext (hall m.entries empty m.sorted)

def get? (m : SortedMap α) (k : String) : Option α := m.entries.lookup k

def isEmpty (m : SortedMap α) : Bool := m.entries.isEmpty

end SortedMap
end FlowGraph
