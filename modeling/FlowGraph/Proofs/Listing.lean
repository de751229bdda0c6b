import FlowGraph.OrderedMap
import Mathlib.Data.Finmap

/-! # Listings

A listing keeps apart what an ordered map keeps as one: a table of what is there, and the order in which it
is shown. Nothing in its type ties the two together, and its changes do not ask whether they suit: to raise a
key is to strike it from the order and to write it at the end, even if there is nothing under it.

A listing is coherent when its order names the keys of the table, each once. A coherent listing reads as an
ordered map, and its changes read as those of the map, provided that only what is there is raised and only
what is new is pushed.
-/

namespace FlowGraph
set_option autoImplicit false

structure Listing (κ α : Type) where
  table : Finmap fun _ : κ => α
  order : List κ

namespace Listing
variable {κ α : Type}

def empty : Listing κ α := ⟨∅, []⟩

def size (l : Listing κ α) : Nat := l.table.keys.card

variable [DecidableEq κ]

def get? (l : Listing κ α) (k : κ) : Option α := l.table.lookup k

/-- The entries in order. What the order names and the table does not hold is passed over. -/
def shown (l : Listing κ α) : List (κ × α) := l.order.filterMap fun k => (l.get? k).map fun a => (k, a)

/-! ## Changes -/

def store (l : Listing κ α) (k : κ) (a : α) : Listing κ α := { l with table := l.table.insert k a }

/-- Strikes a key from the order and writes it at the end. -/
def raise (l : Listing κ α) (k : κ) : Listing κ α := { l with order := l.order.filter (· ≠ k) ++ [k] }

/-- Stores `a` under `k`, at the end of the order. -/
def lay (l : Listing κ α) (k : κ) (a : α) : Listing κ α := (l.store k a).raise k

/-- Stores `a` under `k` and writes `k` at the end of the order, wherever else it stands there. -/
def push (l : Listing κ α) (k : κ) (a : α) : Listing κ α := { l.store k a with order := l.order ++ [k] }

/-- Stores `a` under `k`, and answers what was there before. Only a key that had nothing under it is written at
the end of the order. -/
def register (l : Listing κ α) (k : κ) (a : α) : Option α × Listing κ α :=
  match l.get? k with
  | some previous => (some previous, l.store k a)
  | none => (none, l.push k a)

def modify (l : Listing κ α) (k : κ) (f : α → α) : Listing κ α :=
  match l.get? k with
  | some a => l.store k (f a)
  | none => l

/-- Changes what the order names, one after the other. -/
def modifyInOrder (l : Listing κ α) (f : α → α) : Listing κ α := l.order.foldl (fun l k => l.modify k f) l

def drop (l : Listing κ α) (k : κ) : Listing κ α := ⟨l.table.erase k, l.order.filter (· ≠ k)⟩

/-! ## Lookups -/

section Lookups
variable (l : Listing κ α) (k j : κ) (a : α)

theorem get?_store : (l.store k a).get? j = if j = k then some a else l.get? j := by
  by_cases h : j = k
  · rw [if_pos h, h]
    exact Finmap.lookup_insert l.table
  · rw [if_neg h]
    exact Finmap.lookup_insert_of_ne l.table h

theorem get?_raise : (l.raise k).get? j = l.get? j := rfl

theorem get?_lay : (l.lay k a).get? j = if j = k then some a else l.get? j := l.get?_store k j a

theorem get?_push : (l.push k a).get? j = if j = k then some a else l.get? j := l.get?_store k j a

theorem get?_modify (f : α → α) : (l.modify k f).get? j = if j = k then (l.get? j).map f else l.get? j := by
  unfold modify
  split
  · rename_i a ha
    rw [get?_store]
    split
    · rename_i h
      rw [h, ha]
      rfl
    · rfl
  · rename_i hnone
    split
    · rename_i h
      rw [h, hnone]
      rfl
    · rfl

theorem get?_drop : (l.drop k).get? j = if j = k then none else l.get? j := by
  by_cases h : j = k
  · rw [if_pos h, h]
    exact Finmap.lookup_erase k l.table
  · rw [if_neg h]
    exact Finmap.lookup_erase_ne h

theorem order_modify (f : α → α) : (l.modify k f).order = l.order := by
  unfold modify
  split <;> rfl

/-- A walk over distinct keys changes each of them once. -/
theorem get?_walk {ks : List κ} (honce : ks.Nodup) (f : α → α) :
    (ks.foldl (fun l k => l.modify k f) l).get? j = if j ∈ ks then (l.get? j).map f else l.get? j := by
  induction ks generalizing l with
  | nil => simp
  | cons k rest ih =>
    obtain ⟨hk, hrest⟩ := List.nodup_cons.1 honce
    rw [List.foldl_cons, ih _ hrest, get?_modify]
    by_cases hj : j = k
    · subst hj
      simp [hk]
    · simp [hj]

theorem order_walk (ks : List κ) (f : α → α) : (ks.foldl (fun l k => l.modify k f) l).order = l.order :=
  List.foldlRecOn (motive := fun m : Listing κ α => m.order = l.order) ks _ rfl fun m hm k _ =>
    (m.order_modify k f).trans hm

end Lookups

/-! ## Coherence -/

/-- The order names what is there, each once. -/
structure Coherent (l : Listing κ α) : Prop where
  once : l.order.Nodup
  live : ∀ k, k ∈ l.order ↔ (l.get? k).isSome

theorem Coherent.get?_eq_none_iff {l : Listing κ α} (h : l.Coherent) {k : κ} : l.get? k = none ↔ k ∉ l.order := by
  rw [h.live, Option.not_isSome_iff_eq_none]

/-- The listing has the order of the map, and the same under each key. -/
structure Reads (l : Listing κ α) (m : OrderedMap κ α) : Prop where
  once : m.keys.Nodup
  order : l.order = m.keys
  get? : ∀ k, l.get? k = m.get? k

section Reading
variable {l : Listing κ α} {m : OrderedMap κ α} {k : κ}

namespace Reads

theorem coherent (h : l.Reads m) : l.Coherent := by
  constructor
  · rw [h.order]
    exact h.once
  · intro k
    rw [h.order, h.get?]
    exact m.mem_keys_iff k

/-- Whoever walks along the order and looks each key up meets the entries of the map. -/
theorem shown (h : l.Reads m) : l.shown = m.entries := by
  have hall : ∀ e ∈ m.entries, (l.get? e.1).map (fun a => (e.1, a)) = some e := by
    intro e he
    rw [h.get?, (OrderedMap.mem_entries_iff h.once).1 he]
    rfl
  rw [Listing.shown, h.order, OrderedMap.keys, List.filterMap_map]
  refine (List.filterMap_congr hall).trans ?_
  exact List.filterMap_some

theorem size (h : l.Reads m) : l.size = m.size := by
  have hkeys : l.table.keys = m.keys.toFinset := by
    ext k
    rw [Finmap.mem_keys, ← Finmap.lookup_isSome, List.mem_toFinset, OrderedMap.mem_keys_iff, ← h.get?]
    rfl
  rw [Listing.size, hkeys, List.toFinset_card_of_nodup h.once, OrderedMap.keys, List.length_map]
  rfl

end Reads

theorem keys_shown (h : l.Coherent) : OrderedMap.keys ⟨l.shown⟩ = l.order := by
  have hall : ∀ k ∈ l.order, ((l.get? k).map fun a => (k, a)).map (·.1) = some k := by
    intro k hk
    obtain ⟨a, ha⟩ := Option.isSome_iff_exists.1 ((h.live k).1 hk)
    rw [ha]
    rfl
  rw [OrderedMap.keys, Listing.shown, List.map_filterMap]
  refine (List.filterMap_congr hall).trans ?_
  exact List.filterMap_some

/-- A listing is coherent exactly when it reads as some map, and this is the map of what it shows. -/
theorem coherent_iff_reads : l.Coherent ↔ l.Reads ⟨l.shown⟩ := by
  refine ⟨fun h => ?_, Reads.coherent⟩
  have hkeys := keys_shown h
  have honce : (OrderedMap.keys ⟨l.shown⟩).Nodup := by
    rw [hkeys]
    exact h.once
  refine ⟨honce, hkeys.symm, fun k => ?_⟩
  cases ha : l.get? k with
  | some a =>
    have hk : k ∈ l.order := (h.live k).2 (Option.isSome_of_eq_some ha)
    have hin : (k, a) ∈ l.shown := List.mem_filterMap.2 ⟨k, hk, by rw [ha]; rfl⟩
    exact (OrderedMap.get?_of_mem honce hin).symm
  | none =>
    have hk : k ∉ l.order := h.get?_eq_none_iff.1 ha
    rw [← hkeys, ← OrderedMap.get?_eq_none_iff] at hk
    exact hk.symm

/-! ### Changes of a coherent listing -/

theorem reads_empty : (empty : Listing κ α).Reads .empty := ⟨List.nodup_nil, rfl, fun _ => rfl⟩

namespace Reads

theorem lay (h : l.Reads m) (k : κ) (a : α) : (l.lay k a).Reads (m.put k a) := by
  refine ⟨OrderedMap.nodup_keys_put h.once k a, ?_, fun j => ?_⟩
  · rw [OrderedMap.keys_put, ← h.order]
    rfl
  · rw [get?_lay, OrderedMap.get?_put, h.get?]

theorem push (h : l.Reads m) (hk : k ∉ m.keys) (a : α) : (l.push k a).Reads (m.put k a) := by
  refine ⟨OrderedMap.nodup_keys_put h.once k a, ?_, fun j => ?_⟩
  · rw [OrderedMap.keys_put_of_new hk, ← h.order]
    rfl
  · rw [get?_push, OrderedMap.get?_put, h.get?]

theorem store (h : l.Reads m) (hk : k ∈ m.keys) (a : α) : (l.store k a).Reads (m.insert k a) := by
  refine ⟨OrderedMap.nodup_keys_insert h.once k a, ?_, fun j => ?_⟩
  · rw [OrderedMap.keys_insert, if_pos hk]
    exact h.order
  · rw [get?_store, OrderedMap.get?_insert, h.get?]

/-- The table tells whether a key is new, and the order tells the same. -/
theorem register (h : l.Reads m) (k : κ) (a : α) :
    (l.register k a).1 = m.get? k ∧ (l.register k a).2.Reads (m.insert k a) := by
  unfold Listing.register
  split
  · rename_i previous hp
    rw [h.get?] at hp
    have hk : k ∈ m.keys := (m.mem_keys_iff k).2 (Option.isSome_of_eq_some hp)
    exact ⟨hp.symm, h.store hk a⟩
  · rename_i hnone
    rw [h.get?] at hnone
    have hk : k ∉ m.keys := (m.get?_eq_none_iff k).1 hnone
    rw [OrderedMap.insert_of_new hk]
    exact ⟨hnone.symm, h.push hk a⟩

theorem modify (h : l.Reads m) (k : κ) (f : α → α) : (l.modify k f).Reads (m.modify k f) := by
  refine ⟨?_, ?_, fun j => ?_⟩
  · rw [OrderedMap.keys_modify]
    exact h.once
  · rw [order_modify, OrderedMap.keys_modify, h.order]
  · rw [get?_modify, OrderedMap.get?_modify, h.get?]

/-- What is changed along the order is changed everywhere. -/
theorem modifyInOrder (h : l.Reads m) (f : α → α) : (l.modifyInOrder f).Reads (m.mapValues f) := by
  refine ⟨?_, ?_, fun j => ?_⟩
  · rw [OrderedMap.keys_mapValues]
    exact h.once
  · rw [OrderedMap.keys_mapValues, ← h.order]
    exact l.order_walk _ f
  · rw [Listing.modifyInOrder, get?_walk _ _ h.coherent.once, OrderedMap.get?_mapValues, ← h.get?]
    split
    · rfl
    · rename_i hj
      rw [h.coherent.get?_eq_none_iff.2 hj]
      rfl

theorem raise (h : l.Reads m) (hk : k ∈ m.keys) : (l.raise k).Reads (m.raise k) := by
  refine ⟨OrderedMap.nodup_keys_raise h.once k, ?_, fun j => ?_⟩
  · rw [OrderedMap.keys_raise, if_pos hk, ← h.order]
    rfl
  · rw [get?_raise, OrderedMap.get?_raise, h.get?]

theorem drop (h : l.Reads m) (k : κ) : (l.drop k).Reads (m.erase k) := by
  refine ⟨OrderedMap.nodup_keys_erase h.once k, ?_, fun j => ?_⟩
  · rw [OrderedMap.keys_erase, ← h.order]
    rfl
  · rw [get?_drop, OrderedMap.get?_erase, h.get?]

end Reads

/-! ### What the changes rely on -/

/-- Nothing asks whether a key is there when it is raised; a listing stays coherent only if it is. -/
theorem coherent_raise_iff (h : l.Coherent) (k : κ) : (l.raise k).Coherent ↔ k ∈ l.order := by
  constructor
  · intro hraised
    have hin : k ∈ (l.raise k).order := List.mem_append_right _ (List.mem_singleton.2 rfl)
    exact (h.live k).2 ((hraised.live k).1 hin)
  · intro hk
    have hreads := coherent_iff_reads.1 h
    rw [hreads.order] at hk
    exact (hreads.raise hk).coherent

/-- Nothing asks whether a key is new when it is pushed; a listing stays coherent only if it is. -/
theorem coherent_push_iff (h : l.Coherent) (k : κ) (a : α) : (l.push k a).Coherent ↔ k ∉ l.order := by
  constructor
  · intro hpushed hk
    have hdisjoint := (List.nodup_append.1 hpushed.once).2.2
    exact hdisjoint k hk k (List.mem_singleton.2 rfl) rfl
  · intro hk
    have hreads := coherent_iff_reads.1 h
    rw [hreads.order] at hk
    exact (hreads.push hk a).coherent

/-- What is raised without being there stands in the order and is not shown. -/
example : (((empty : Listing Nat Char).push 1 'a').raise 2).order = [1, 2] ∧
    (((empty : Listing Nat Char).push 1 'a').raise 2).shown = [(1, 'a')] := by decide

end Reading
end Listing
end FlowGraph
