import FlowGraph.Document.Basic

/-! # How deep a document is

A reader with room for so many open lists and objects takes in a document as far as it is not deeper:
`clip` is what is left of it. Nothing is lost of a document that fits, and one that does not fit holds a
place without a value.
-/

namespace FlowGraph.Document
set_option autoImplicit false

/-! ## Depth -/

mutual

/-- How many lists and objects stand within each other. -/
def depth : Document → Nat
  | .list items => depthItems items + 1
  | .object fields => depthFields fields + 1
  | _ => 0

def depthItems : List Document → Nat
  | [] => 0
  | d :: rest => max d.depth (depthItems rest)

def depthFields : List (String × Document) → Nat
  | [] => 0
  | (_, d) :: rest => max d.depth (depthFields rest)

end

theorem depthItems_le_iff {items : List Document} {n : Nat} :
    depthItems items ≤ n ↔ ∀ d ∈ items, d.depth ≤ n := by
  induction items with
  | nil => simp [depthItems]
  | cons d rest ih => rw [depthItems, Nat.max_le, ih, List.forall_mem_cons]

theorem depthFields_le_iff {fields : List (String × Document)} {n : Nat} :
    depthFields fields ≤ n ↔ ∀ f ∈ fields, f.2.depth ≤ n := by
  induction fields with
  | nil => simp [depthFields]
  | cons f rest ih => rw [depthFields, Nat.max_le, ih, List.forall_mem_cons]

theorem depth_list_le {items : List Document} {n : Nat} (h : ∀ d ∈ items, d.depth ≤ n) :
    (Document.list items).depth ≤ n + 1 := Nat.succ_le_succ (depthItems_le_iff.2 h)

theorem depth_object_le {fields : List (String × Document)} {n : Nat} (h : ∀ f ∈ fields, f.2.depth ≤ n) :
    (Document.object fields).depth ≤ n + 1 := Nat.succ_le_succ (depthFields_le_iff.2 h)

/-! ## Clipping -/

mutual

/-- What a reader takes in of a document when so many lists and objects may still be opened. -/
def clip : (room : Nat) → Document → Document
  | 0, .list _ => .unreadable
  | 0, .object _ => .unreadable
  | room + 1, .list items => .list (clipItems room items)
  | room + 1, .object fields => .object (clipFields room fields)
  | _, d => d

def clipItems : (room : Nat) → List Document → List Document
  | _, [] => []
  | room, d :: rest => d.clip room :: clipItems room rest

def clipFields : (room : Nat) → List (String × Document) → List (String × Document)
  | _, [] => []
  | room, (name, d) :: rest => (name, d.clip room) :: clipFields room rest

end

theorem clipItems_eq_map (room : Nat) (items : List Document) :
    clipItems room items = items.map (clip room) := by
  induction items with
  | nil => rfl
  | cons d rest ih => rw [clipItems, ih, List.map_cons]

mutual

theorem clip_of_fits : (d : Document) → ∀ {room : Nat}, d.depth ≤ room → d.clip room = d
  | .null, _, _ => by rw [clip] <;> simp
  | .bool _, _, _ => by rw [clip] <;> simp
  | .int _, _, _ => by rw [clip] <;> simp
  | .float _, _, _ => by rw [clip] <;> simp
  | .text _, _, _ => by rw [clip] <;> simp
  | .unreadable, _, _ => by rw [clip] <;> simp
  | .list items, 0, h => absurd h (Nat.not_succ_le_zero _)
  | .list items, room + 1, h => by
    rw [clip, clipItems_of_fit items (Nat.le_of_succ_le_succ h)]
  | .object fields, 0, h => absurd h (Nat.not_succ_le_zero _)
  | .object fields, room + 1, h => by
    rw [clip, clipFields_of_fit fields (Nat.le_of_succ_le_succ h)]

theorem clipItems_of_fit : (items : List Document) → ∀ {room : Nat}, depthItems items ≤ room →
    clipItems room items = items
  | [], _, _ => by rw [clipItems]
  | d :: rest, _, h => by
    obtain ⟨hd, hrest⟩ := Nat.max_le.1 h
    rw [clipItems, clip_of_fits d hd, clipItems_of_fit rest hrest]

theorem clipFields_of_fit : (fields : List (String × Document)) → ∀ {room : Nat},
    depthFields fields ≤ room → clipFields room fields = fields
  | [], _, _ => by rw [clipFields]
  | (name, d) :: rest, _, h => by
    obtain ⟨hd, hrest⟩ := Nat.max_le.1 h
    rw [clipFields, clip_of_fits d hd, clipFields_of_fit rest hrest]

end

mutual

theorem readable_clip : (d : Document) → ∀ {room : Nat}, room < d.depth → (d.clip room).readable = false
  | .list _, 0, _ => rfl
  | .list items, _ + 1, h => readableItems_clipItems items (Nat.lt_of_succ_lt_succ h)
  | .object _, 0, _ => rfl
  | .object fields, _ + 1, h => readableFields_clipFields fields (Nat.lt_of_succ_lt_succ h)

theorem readableItems_clipItems : (items : List Document) → ∀ {room : Nat}, room < depthItems items →
    readableItems (clipItems room items) = false
  | d :: rest, room, h => by
    rw [clipItems, readableItems, Bool.and_eq_false_iff]
    by_cases hd : room < d.depth
    · exact Or.inl (readable_clip d hd)
    · refine Or.inr (readableItems_clipItems rest ?_)
      simp only [depthItems] at h
      omega

theorem readableFields_clipFields : (fields : List (String × Document)) → ∀ {room : Nat},
    room < depthFields fields → readableFields (clipFields room fields) = false
  | (name, d) :: rest, room, h => by
    rw [clipFields, readableFields, Bool.and_eq_false_iff]
    by_cases hd : room < d.depth
    · exact Or.inl (readable_clip d hd)
    · refine Or.inr (readableFields_clipFields rest ?_)
      simp only [depthFields] at h
      omega

end

/-! ## Leaves -/

mutual

/-- What stands in a document that is no list and no object. -/
def leaves : Document → List Document
  | .list items => leavesOf items
  | .object fields => leavesIn fields
  | d => [d]

def leavesOf : List Document → List Document
  | [] => []
  | d :: rest => d.leaves ++ leavesOf rest

def leavesIn : List (String × Document) → List Document
  | [] => []
  | (_, d) :: rest => d.leaves ++ leavesIn rest

end

theorem mem_leavesOf {leaf : Document} {items : List Document} :
    leaf ∈ leavesOf items ↔ ∃ d ∈ items, leaf ∈ d.leaves := by
  induction items with
  | nil => simp [leavesOf]
  | cons d rest ih => simp [leavesOf, ih]

theorem mem_leavesIn {leaf : Document} {fields : List (String × Document)} :
    leaf ∈ leavesIn fields ↔ ∃ f ∈ fields, leaf ∈ f.2.leaves := by
  induction fields with
  | nil => simp [leavesIn]
  | cons f rest ih => simp [leavesIn, ih]

end FlowGraph.Document
