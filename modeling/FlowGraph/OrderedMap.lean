/-! # Finite maps that remember the order of their entries

An `OrderedMap` is a list of keyed entries. Keys are looked up from the front, and every operation
below keeps at most one entry per key when it starts from such a map:

* `insert` overwrites an entry where it stands and appends a new one at the end;
* `put` always moves the entry to the end, which is how a drawing stack lays something on top;
* `modify` changes a value and `erase` drops it without disturbing the other entries.

The keys and their order are one thing here. Kept as two, a table and a list of keys, they could come
apart; `Listing` in the proofs shows under which conditions they do not.
-/

namespace FlowGraph
set_option autoImplicit false

structure OrderedMap (κ α : Type) where
  entries : List (κ × α)

namespace OrderedMap
variable {κ α : Type}

/-! ## Views -/

def empty : OrderedMap κ α := ⟨[]⟩

def keys (m : OrderedMap κ α) : List κ := m.entries.map (·.1)

def values (m : OrderedMap κ α) : List α := m.entries.map (·.2)

def size (m : OrderedMap κ α) : Nat := m.entries.length

def isEmpty (m : OrderedMap κ α) : Bool := m.entries.isEmpty

def mapValues (m : OrderedMap κ α) (f : α → α) : OrderedMap κ α :=
  ⟨m.entries.map fun e => (e.1, f e.2)⟩

variable [DecidableEq κ]

def get? (m : OrderedMap κ α) (k : κ) : Option α := (m.entries.find? (·.1 = k)).map (·.2)

def contains (m : OrderedMap κ α) (k : κ) : Bool := m.entries.any (·.1 = k)

/-! ## Changes -/

def modify (m : OrderedMap κ α) (k : κ) (f : α → α) : OrderedMap κ α :=
  ⟨m.entries.map fun e => if e.1 = k then (e.1, f e.2) else e⟩

def erase (m : OrderedMap κ α) (k : κ) : OrderedMap κ α := ⟨m.entries.filter (·.1 ≠ k)⟩

/-- Stores `a` under `k` at the end of the order. -/
def put (m : OrderedMap κ α) (k : κ) (a : α) : OrderedMap κ α := ⟨(m.erase k).entries ++ [(k, a)]⟩

/-- Stores `a` under `k`; a key that is already there keeps its place. -/
def insert (m : OrderedMap κ α) (k : κ) (a : α) : OrderedMap κ α :=
  if m.contains k then m.modify k fun _ => a else m.put k a

/-- Moves the entry of `k` to the end of the order. -/
def raise (m : OrderedMap κ α) (k : κ) : OrderedMap κ α :=
  match m.get? k with
  | some a => m.put k a
  | none => m

/-! ## How the changes show in the views -/

omit [DecidableEq κ] in
@[simp] theorem keys_mapValues (m : OrderedMap κ α) (f : α → α) : (m.mapValues f).keys = m.keys := by
  simp only [keys, mapValues, List.map_map]
  rfl

@[simp] theorem keys_modify (m : OrderedMap κ α) (k : κ) (f : α → α) :
    (m.modify k f).keys = m.keys := by
  simp only [keys, modify, List.map_map]
  congr 1
  funext e
  by_cases h : e.1 = k <;> simp [h]

@[simp] theorem keys_erase (m : OrderedMap κ α) (k : κ) :
    (m.erase k).keys = m.keys.filter (· ≠ k) := by
  simp only [keys, erase, List.filter_map]
  rfl

@[simp] theorem keys_put (m : OrderedMap κ α) (k : κ) (a : α) :
    (m.put k a).keys = m.keys.filter (· ≠ k) ++ [k] := by
  have h := keys_erase m k
  simp only [keys] at h ⊢
  simp only [put, List.map_append, List.map_cons, List.map_nil, h]

theorem get?_isSome (m : OrderedMap κ α) (k : κ) : (m.get? k).isSome = m.contains k := by
  simp only [get?, contains, Option.isSome_map]
  induction m.entries with
  | nil => rfl
  | cons e es ih => by_cases h : e.1 = k <;> simp [h, ih]

theorem mem_keys_iff (m : OrderedMap κ α) (k : κ) : k ∈ m.keys ↔ (m.get? k).isSome := by
  simp only [keys, get?, Option.isSome_map, List.find?_isSome, List.mem_map, decide_eq_true_eq]

theorem contains_iff_mem_keys (m : OrderedMap κ α) (k : κ) : m.contains k = true ↔ k ∈ m.keys := by
  rw [mem_keys_iff, get?_isSome]

theorem get?_eq_none_iff (m : OrderedMap κ α) (k : κ) : m.get? k = none ↔ k ∉ m.keys := by
  rw [mem_keys_iff, Option.not_isSome_iff_eq_none]

theorem get?_of_mem {m : OrderedMap κ α} (h : m.keys.Nodup) {k : κ} {a : α} (hm : (k, a) ∈ m.entries) :
    m.get? k = some a := by
  obtain ⟨entries⟩ := m
  simp only [keys] at h
  simp only [get?]
  induction entries with
  | nil => cases hm
  | cons e es ih =>
    obtain ⟨hnew, hrest⟩ := List.nodup_cons.1 h
    rcases List.mem_cons.1 hm with rfl | hm
    · simp
    · have hne : ¬e.1 = k := fun he => hnew (List.mem_map.2 ⟨_, hm, he.symm⟩)
      simpa [hne] using ih hrest hm

theorem mem_of_get? {m : OrderedMap κ α} {k : κ} {a : α} (h : m.get? k = some a) :
    (k, a) ∈ m.entries := by
  obtain ⟨e, he, rfl⟩ := Option.map_eq_some_iff.1 h
  have hk : e.1 = k := by simpa using List.find?_some he
  exact hk ▸ List.mem_of_find?_eq_some he

theorem get?_modify (m : OrderedMap κ α) (k l : κ) (f : α → α) :
    (m.modify k f).get? l = if l = k then (m.get? l).map f else m.get? l := by
  simp only [get?, modify]
  induction m.entries with
  | nil => simp
  | cons e es ih =>
    by_cases hk : e.1 = k <;> by_cases hl : e.1 = l <;> by_cases h : l = k <;>
      simp_all

theorem get?_mapValues (m : OrderedMap κ α) (l : κ) (f : α → α) :
    (m.mapValues f).get? l = (m.get? l).map f := by
  simp only [get?, mapValues]
  induction m.entries with
  | nil => simp
  | cons e es ih => by_cases hl : e.1 = l <;> simp_all

theorem get?_erase (m : OrderedMap κ α) (k l : κ) :
    (m.erase k).get? l = if l = k then none else m.get? l := by
  simp only [get?, erase]
  induction m.entries with
  | nil => simp
  | cons e es ih =>
    by_cases hk : e.1 = k <;> by_cases hl : e.1 = l <;> by_cases h : l = k <;>
      simp_all

theorem get?_put (m : OrderedMap κ α) (k l : κ) (a : α) :
    (m.put k a).get? l = if l = k then some a else m.get? l := by
  have h := get?_erase m k l
  simp only [get?, put, List.find?_append, Option.map_or] at h ⊢
  rw [h]
  by_cases hl : l = k
  · simp [hl]
  · have : ¬ k = l := fun h => hl h.symm
    simp [hl, this]

theorem get?_insert (m : OrderedMap κ α) (k l : κ) (a : α) :
    (m.insert k a).get? l = if l = k then some a else m.get? l := by
  simp only [insert]
  split
  · rename_i h
    rw [get?_modify]
    split
    · rename_i hl
      rw [← get?_isSome, ← hl] at h
      obtain ⟨b, hb⟩ := Option.isSome_iff_exists.1 h
      simp [hb]
    · rfl
  · exact get?_put m k l a

/-- A new key has nothing to be moved from. -/
theorem keys_put_of_new {m : OrderedMap κ α} {k : κ} (h : k ∉ m.keys) (a : α) :
    (m.put k a).keys = m.keys ++ [k] := by
  rw [keys_put, List.filter_eq_self.2]
  intro x hx
  simp only [ne_eq, decide_eq_true_eq]
  rintro rfl
  exact h hx

theorem insert_of_new {m : OrderedMap κ α} {k : κ} (h : k ∉ m.keys) (a : α) : m.insert k a = m.put k a := by
  have hout : ¬m.contains k = true := mt (m.contains_iff_mem_keys k).1 h
  rw [insert, if_neg hout]

theorem keys_insert (m : OrderedMap κ α) (k : κ) (a : α) :
    (m.insert k a).keys = if k ∈ m.keys then m.keys else m.keys ++ [k] := by
  split
  · rename_i h
    rw [insert, if_pos ((m.contains_iff_mem_keys k).2 h), keys_modify]
  · rename_i h
    rw [insert_of_new h, keys_put_of_new h]

theorem entries_insert {m : OrderedMap κ α} {k : κ} (h : k ∉ m.keys) (a : α) :
    (m.insert k a).entries = m.entries ++ [(k, a)] := by
  have hall : m.entries.filter (·.1 ≠ k) = m.entries := by
    refine List.filter_eq_self.2 fun e he => decide_eq_true fun hk => h ?_
    exact List.mem_map.2 ⟨e, he, hk⟩
  rw [insert_of_new h, put, erase, hall]

theorem keys_raise (m : OrderedMap κ α) (k : κ) :
    (m.raise k).keys = if k ∈ m.keys then m.keys.filter (· ≠ k) ++ [k] else m.keys := by
  simp only [raise, mem_keys_iff]
  cases m.get? k <;> simp

theorem get?_raise (m : OrderedMap κ α) (k l : κ) : (m.raise k).get? l = m.get? l := by
  unfold raise
  split
  · rename_i a ha
    rw [get?_put]
    split
    · rename_i hl
      rw [hl, ha]
    · rfl
  · rfl

theorem nodup_keys_erase {m : OrderedMap κ α} (h : m.keys.Nodup) (k : κ) : (m.erase k).keys.Nodup := by
  rw [keys_erase]
  exact h.filter _

theorem nodup_keys_put {m : OrderedMap κ α} (h : m.keys.Nodup) (k : κ) (a : α) :
    (m.put k a).keys.Nodup := by
  rw [keys_put]
  refine List.nodup_append.2 ⟨h.filter _, by simp, fun x hx y hy => ?_⟩
  rw [List.mem_singleton.1 hy]
  exact of_decide_eq_true (List.mem_filter.1 hx).2

theorem nodup_keys_raise {m : OrderedMap κ α} (h : m.keys.Nodup) (k : κ) : (m.raise k).keys.Nodup := by
  unfold raise
  split
  · exact nodup_keys_put h k _
  · exact h

theorem nodup_keys_insert {m : OrderedMap κ α} (h : m.keys.Nodup) (k : κ) (a : α) : (m.insert k a).keys.Nodup := by
  rw [keys_insert]
  split
  · exact h
  · rename_i hnew
    refine List.nodup_append.2 ⟨h, by simp, fun x hx y hy => ?_⟩
    rw [List.mem_singleton.1 hy]
    rintro rfl
    exact hnew hx

/-! ## Entries and views -/

theorem mem_entries_iff {m : OrderedMap κ α} (h : m.keys.Nodup) {e : κ × α} :
    e ∈ m.entries ↔ m.get? e.1 = some e.2 := ⟨get?_of_mem h, mem_of_get?⟩

/-- Entries that are chosen by their values keep the order of the keys. -/
theorem map_filter_entries {m : OrderedMap κ α} (h : m.keys.Nodup) (q : α → Bool) :
    (m.entries.filter fun e => q e.2).map (·.1) = m.keys.filter fun k => (m.get? k).any q := by
  rw [keys, List.filter_map]
  refine congrArg _ (List.filter_congr fun e he => ?_)
  rw [Function.comp_apply, (mem_entries_iff h).1 he]
  rfl

end OrderedMap
end FlowGraph
