import FlowGraph.Session.Basic

/-! # Pictures

What is shown after some drawing calls: nodes and connectors, each sort in an order from back to front, with
what the calls have said of them. A call can only be carried out if what it names is there, or is not there
yet and comes in by it.
-/

namespace FlowGraph
set_option autoImplicit false

/-! ## Images of maps -/

namespace OrderedMap
variable {κ α β : Type}

def image (m : OrderedMap κ α) (f : α → β) : OrderedMap κ β := ⟨m.entries.map fun e => (e.1, f e.2)⟩

theorem keys_image (m : OrderedMap κ α) (f : α → β) : (m.image f).keys = m.keys := by
  simp only [keys, image, List.map_map]
  rfl

theorem image_mapValues {m : OrderedMap κ α} {f : α → β} {g : α → α} (h : ∀ a, f (g a) = f a) :
    (m.mapValues g).image f = m.image f := by
  simp [image, mapValues, h]

variable [DecidableEq κ]

theorem get?_image (m : OrderedMap κ α) (f : α → β) (k : κ) : (m.image f).get? k = (m.get? k).map f := by
  simp only [get?, image]
  induction m.entries with
  | nil => rfl
  | cons e es ih => by_cases he : e.1 = k <;> simp_all

theorem contains_image (m : OrderedMap κ α) (f : α → β) (k : κ) : (m.image f).contains k = m.contains k := by
  rw [← get?_isSome, ← get?_isSome, get?_image, Option.isSome_map]

theorem image_modify {m : OrderedMap κ α} {f : α → β} {g : α → α} {g' : β → β} (h : ∀ a, f (g a) = g' (f a))
    (k : κ) : (m.modify k g).image f = (m.image f).modify k g' := by
  simp only [image, modify, List.map_map, mk.injEq]
  refine List.map_congr_left fun e _ => ?_
  by_cases he : e.1 = k <;> simp [he, h]

theorem image_modify_eq {m : OrderedMap κ α} {f : α → β} {g : α → α} (h : ∀ a, f (g a) = f a) (k : κ) :
    (m.modify k g).image f = m.image f := by
  simp only [image, modify, List.map_map, mk.injEq]
  refine List.map_congr_left fun e _ => ?_
  by_cases he : e.1 = k <;> simp [he, h]

theorem image_erase (m : OrderedMap κ α) (f : α → β) (k : κ) : (m.erase k).image f = (m.image f).erase k := by
  simp only [image, erase, List.filter_map]
  rfl

theorem image_put (m : OrderedMap κ α) (f : α → β) (k : κ) (a : α) :
    (m.put k a).image f = (m.image f).put k (f a) := by
  have herase := congrArg entries (image_erase m f k)
  simp only [image] at herase
  simp only [put, image, List.map_append, herase, List.map_cons, List.map_nil]

theorem image_raise (m : OrderedMap κ α) (f : α → β) (k : κ) : (m.raise k).image f = (m.image f).raise k := by
  simp only [raise, get?_image]
  cases m.get? k with
  | none => rfl
  | some a => exact image_put m f k a

theorem modify_put (m : OrderedMap κ α) (k : κ) (a : α) (g : α → α) :
    (m.put k a).modify k g = m.put k (g a) := by
  have hold : (m.erase k).entries.map (fun e => if e.1 = k then (e.1, g e.2) else e) = (m.erase k).entries := by
    refine (List.map_congr_left fun e he => ?_).trans (List.map_id _)
    rw [if_neg (of_decide_eq_true (List.mem_filter.1 he).2)]
    rfl
  simp only [modify, put, List.map_append, hold, List.map_cons, List.map_nil, if_pos]

/-- Two maps with the same order are the same if they have the same entry for each key. -/
theorem eq_of_get? {m n : OrderedMap κ α} (hkeys : m.keys = n.keys) (honce : n.keys.Nodup)
    (hget : ∀ k, m.get? k = n.get? k) : m = n := by
  have hm : m.keys.Nodup := hkeys ▸ honce
  refine congrArg mk (List.ext_getElem ?_ fun i hi hj => ?_)
  · have hlength := congrArg List.length hkeys
    rw [keys, keys, List.length_map, List.length_map] at hlength
    exact hlength
  · have hkey : (m.entries[i]).1 = (n.entries[i]).1 := by
      have hat := congrArg (·[i]?) hkeys
      simpa [keys, hi, hj] using hat
    have hfirst : m.get? (m.entries[i]).1 = some (m.entries[i]).2 := get?_of_mem hm (List.getElem_mem hi)
    have hsecond : n.get? (n.entries[i]).1 = some (n.entries[i]).2 := get?_of_mem honce (List.getElem_mem hj)
    rw [hget, hkey, hsecond] at hfirst
    exact Prod.ext hkey (Option.some.inj hfirst).symm

end OrderedMap

/-! ## Pictures -/

namespace DrawCall

def target : DrawCall → Drawable
  | .attach target | .position target _ | .scale target _ | .raise target | .dispose target => target
  | .path c _ _ => .connector c

def attaches : DrawCall → Bool
  | .attach _ => true
  | _ => false

end DrawCall

/-- How something is shown, as far as this has been said since it came in. -/
structure Sprite where
  position : Option Point
  scale : Option Scalar
  path : Option (ConnectorStyle × Curve)

def Sprite.blank : Sprite := ⟨none, none, none⟩

/-- What is shown, of each sort from back to front. -/
structure Picture where
  nodes : OrderedMap NodeId Sprite
  connectors : OrderedMap ConnectorId Sprite

namespace Picture

def empty : Picture := ⟨.empty, .empty⟩

def has (p : Picture) : Drawable → Bool
  | .node id => p.nodes.contains id
  | .connector c => p.connectors.contains c

def attach (p : Picture) : Drawable → Picture
  | .node id => { p with nodes := p.nodes.put id .blank }
  | .connector c => { p with connectors := p.connectors.put c .blank }

def touch (p : Picture) (target : Drawable) (f : Sprite → Sprite) : Picture :=
  match target with
  | .node id => { p with nodes := p.nodes.modify id f }
  | .connector c => { p with connectors := p.connectors.modify c f }

def raise (p : Picture) : Drawable → Picture
  | .node id => { p with nodes := p.nodes.raise id }
  | .connector c => { p with connectors := p.connectors.raise c }

def dispose (p : Picture) : Drawable → Picture
  | .node id => { p with nodes := p.nodes.erase id }
  | .connector c => { p with connectors := p.connectors.erase c }

/-- What is new is laid on top; what is said of something replaces what was said of it before. -/
def draw (p : Picture) : DrawCall → Picture
  | .attach target => p.attach target
  | .position target x => p.touch target fun s => { s with position := some x }
  | .scale target x => p.touch target fun s => { s with scale := some x }
  | .path c style curve => p.touch (.connector c) fun s => { s with path := some (style, curve) }
  | .raise target => p.raise target
  | .dispose target => p.dispose target

/-- Carries out a call. Only what is not there may be attached, and nothing else is done to it. -/
def carryOut (p : Picture) (call : DrawCall) : Option Picture :=
  if p.has call.target = call.attaches then none else some (p.draw call)

/-- Carries out calls that are listed latest first, from an empty picture. -/
def ofCalls : List DrawCall → Option Picture
  | [] => some empty
  | call :: earlier => (ofCalls earlier).bind (·.carryOut call)

variable {p : Picture} {call : DrawCall} {calls earlier later : List DrawCall}

theorem ofCalls_cons (hp : ofCalls calls = some p) (call : DrawCall) (h : p.has call.target = !call.attaches) :
    ofCalls (call :: calls) = some (p.draw call) := by
  rw [ofCalls, hp, Option.bind_some, carryOut, h, if_neg]
  exact Bool.not_not_eq.2 rfl

/-- If all calls could be carried out, the earlier ones could. -/
theorem ofCalls_of_append (h : ofCalls (later ++ earlier) = some p) : ∃ q, ofCalls earlier = some q := by
  induction later generalizing p with
  | nil => exact ⟨p, h⟩
  | cons last rest ih =>
    obtain ⟨q, hq, -⟩ := Option.bind_eq_some_iff.1 h
    exact ih hq

/-- If all calls could be carried out, each of them could at its time. -/
theorem apt_of_ofCalls (h : ofCalls (later ++ call :: earlier) = some p) :
    ∃ q, ofCalls earlier = some q ∧ q.has call.target = !call.attaches := by
  obtain ⟨r, hr⟩ := ofCalls_of_append h
  obtain ⟨q, hq, hcall⟩ := Option.bind_eq_some_iff.1 hr
  refine ⟨q, hq, ?_⟩
  unfold carryOut at hcall
  split at hcall
  · cases hcall
  · rename_i hapt
    exact Bool.eq_not.2 hapt

end Picture

/-! ## What a session shows -/

def Connector.path (k : Connector) : ConnectorStyle × Curve := (k.style, k.curve)

def Node.sprite (n : Node) : Sprite := ⟨some n.frame.position, some n.frame.scale, none⟩

def Connector.sprite (k : Connector) : Sprite := ⟨none, none, some k.path⟩

namespace Session

/-- Every node where it is and as large as it is, and every connector along its curve. -/
def picture (s : Session) : Picture := ⟨s.nodes.image Node.sprite, s.connectors.image Connector.sprite⟩

end Session

/-- The picture shows the nodes and the connectors, but for the paths that are out of date. -/
structure Picture.Shows (p : Picture) (nodes : OrderedMap NodeId Node)
    (connectors : OrderedMap ConnectorId Connector) (stale : ConnectorId → Prop) : Prop where
  nodes : p.nodes = nodes.image Node.sprite
  order : p.connectors.keys = connectors.keys
  paths : ∀ c k, connectors.get? c = some k → ∃ path, p.connectors.get? c = some ⟨none, none, path⟩ ∧
    (¬stale c → path = some k.path)

end FlowGraph
