import FlowGraph.Proofs.Program.Looking
import FlowGraph.Proofs.Program.Renamed
import FlowGraph.Proofs.Program.Renumbered
import FlowGraph.Proofs.Session.Retyped

/-! # Restoring forgets the old graph

When a program is restored, all that is left of the session before are its settings, its variables and the
numbers that it hands out next. So whatever graph and whatever drag two sessions hold, a program that is
restored into both gives the same graph, and only the identities tell them apart.
-/

namespace FlowGraph
set_option autoImplicit false

/-! ## Variables -/

namespace SortedMap
variable {α : Type}

theorem perm_insertEntry {k : String} {es : List (String × α)} (h : k ∉ es.map Prod.fst) (a : α) :
    (insertEntry k a es).Perm ((k, a) :: es) := by
  induction es with
  | nil => exact .refl _
  | cons e rest ih =>
    rw [List.map_cons, List.mem_cons, not_or] at h
    rw [insertEntry]
    split
    · exact .refl _
    · rename_i hless
      have hgreater : e.1 < k := by
        refine Decidable.not_not.1 fun hgreater => h.1 ?_
        exact String.le_antisymm (String.not_lt.1 hgreater) (String.not_lt.1 hless)
      rw [if_pos hgreater]
      exact ((ih h.2).cons e).trans (.swap (k, a) e rest)

/-- The map of entries with different keys has these entries. -/
theorem perm_ofList {es : List (String × α)} (h : (es.map Prod.fst).Nodup) : (ofList es).entries.Perm es := by
  have hall (es : List (String × α)) (m : SortedMap α) (h : ((m.entries ++ es).map Prod.fst).Nodup) :
      (es.foldl (fun m e => m.insert e.1 e.2) m).entries.Perm (m.entries ++ es) := by
    induction es generalizing m with
    | nil => rw [List.append_nil]; exact .refl _
    | cons e rest ih =>
      have hmiddle : (m.entries ++ e :: rest).Perm (e :: (m.entries ++ rest)) := List.perm_middle
      have hnew : e.1 ∉ m.entries.map Prod.fst := by
        obtain ⟨hnew, -⟩ := List.nodup_cons.1 ((hmiddle.map Prod.fst).nodup_iff.1 h)
        rw [List.map_append, List.mem_append, not_or] at hnew
        exact hnew.1
      have hput : ((m.insert e.1 e.2).entries ++ rest).Perm (m.entries ++ e :: rest) :=
        ((perm_insertEntry hnew e.2).append_right rest).trans List.perm_middle.symm
      exact (ih (m.insert e.1 e.2) ((hput.map Prod.fst).nodup_iff.2 h)).trans hput
  exact hall es empty h

/-- The order in which entries with different keys come does not matter. -/
theorem ofList_eq_of_perm {es es' : List (String × α)} (h : (es.map Prod.fst).Nodup) (hp : es'.Perm es) :
    ofList es' = ofList es := by
  have hsame := (perm_ofList ((hp.map Prod.fst).nodup_iff.2 h)).trans (hp.trans (perm_ofList h).symm)
  refine ext (hsame.eq_of_pairwise (fun a b _ _ hab hba => ?_) (ofList es').sorted (ofList es).sorted)
  exact absurd (String.lt_trans hab hba) (String.lt_irrefl _)

end SortedMap

/-- Maps with different keys that know the same have the same entries. -/
theorem OrderedMap.perm_of_get? {κ α : Type} [DecidableEq κ] {m m' : OrderedMap κ α} (hm : m.keys.Nodup)
    (hm' : m'.keys.Nodup) (hget : m'.get? = m.get?) : m'.entries.Perm m.entries := by
  have honce {m : OrderedMap κ α} (hm : m.keys.Nodup) : m.entries.Nodup := List.Nodup.of_map _ hm
  have hmem {m : OrderedMap κ α} (hm : m.keys.Nodup) (e : κ × α) : e ∈ m.entries ↔ m.get? e.1 = some e.2 :=
    ⟨get?_of_mem hm, mem_of_get?⟩
  refine (List.perm_ext_iff_of_nodup (honce hm') (honce hm)).2 fun e => ?_
  rw [hmem hm', hmem hm, hget]

namespace Session

/-! ## What a session has besides its graph -/

def setup (s : Session) : Settings × Variables := (s.settings, s.variableTypes)

section Setup
variable (s : Session)

theorem setup_drawPath (c : ConnectorId) : (s.drawPath c).setup = s.setup := by
  obtain ⟨calls, hs⟩ := s.drawPath_eq c
  rw [hs]
  rfl

theorem setup_resetRadius? (r : Option SocketRef) : (s.resetRadius? r).setup = s.setup := by
  cases r <;> rfl

theorem setup_link (c : ConnectorId) (r : SocketRef) : (s.link c r).setup = s.setup := by
  unfold link
  split
  · rfl
  · exact setup_drawPath _ c

theorem setup_detachSocket (c : ConnectorId) : (s.detachSocket c).setup = s.setup := by
  unfold detachSocket
  split <;> rfl

theorem setup_destroyConnector (c : ConnectorId) : (s.destroyConnector c).setup = s.setup := by
  unfold destroyConnector
  split <;> rfl

theorem setup_cancelDrag : s.cancelDrag.setup = s.setup := by
  unfold cancelDrag
  split
  · exact (setup_destroyConnector _ _).trans (setup_resetRadius? { s with drag := none } _)
  · rfl

theorem setup_disconnect (c : ConnectorId) : (s.disconnect c).2.setup = s.setup := by
  unfold disconnect
  split
  · exact s.setup_cancelDrag
  · split
    · exact (setup_destroyConnector _ c).trans (s.setup_detachSocket c)
    · rfl

theorem setup_disconnectAll (ids : List ConnectorId) : (s.disconnectAll ids).2.setup = s.setup := by
  induction ids generalizing s with
  | nil => rfl
  | cons c rest ih => exact (ih _).trans (s.setup_disconnect c)

theorem setup_clearConnections (id : NodeId) : (s.clearConnections id).2.setup = s.setup := by
  have habandon : (if s.dragTouches id then s.cancelDrag else s).setup = s.setup := by
    split
    · exact s.setup_cancelDrag
    · rfl
  unfold clearConnections
  dsimp only
  split
  · exact (setup_disconnectAll _ _).trans habandon
  · exact habandon

theorem setup_endDrag : s.endDrag.2.setup = s.setup := by
  unfold endDrag
  split
  · rfl
  · split
    · exact (setup_destroyConnector _ _).trans (setup_resetRadius? { s with drag := none } _)
    · dsimp only
      split
      · exact setup_link _ _ _
      · exact setup_destroyConnector _ _

theorem setup_removeNode (id : NodeId) : (s.removeNode id).2.setup = s.setup := by
  rw [removeNode_eq]
  split
  · exact s.setup_clearConnections id
  · rfl

theorem setup_foldl {α : Type} {f : Session → α → Session} (hf : ∀ (s : Session) a, (f s a).setup = s.setup)
    (l : List α) : (l.foldl f s).setup = s.setup :=
  List.foldlRecOn (motive := fun t => t.setup = s.setup) l f rfl fun t ht a _ => (hf t a).trans ht

/-- Whoever removes every node changes neither the settings nor the variables. -/
theorem setup_removeAll : s.removeAll.setup = s.setup := by
  have hremoved := setup_foldl s.cancelDrag setup_removeNode s.cancelDrag.nodes.keys
  have hdisposed := setup_foldl (s.cancelDrag.nodes.keys.foldl (fun s id => (s.removeNode id).2) s.cancelDrag)
    (f := fun s id => s.draw (.dispose (.connector id))) fun _ _ => rfl
  exact (hdisposed _).trans (hremoved.trans s.setup_cancelDrag)

end Setup

/-! ## Sessions without a graph -/

/-- A new session with the settings and the variables of another one. -/
def blank (s : Session) : Session := { new s.settings with variableTypes := s.variableTypes }

theorem shifted_removeAll {s t : Session} (h : t.Intact) (hsettings : t.settings = s.settings)
    (hvariables : t.variableTypes.get? = s.variableTypes.get?) :
    Shifted t.removeAll.ids.nextNode t.removeAll.ids.nextConnector s.blank.removeAll t.removeAll := by
  obtain ⟨hnodes, hconnectors, hdrag⟩ := empty_removeAll h
  have hsetup := t.setup_removeAll
  refine ⟨⟨?_, ?_⟩, ?_, (Nat.zero_add _).symm, (Nat.zero_add _).symm, rfl, hdrag, ?_⟩
  · rw [hnodes]
    rfl
  · rw [hconnectors]
    rfl
  · exact (congrArg Prod.fst hsetup).trans hsettings
  · exact (congrArg (fun x : Settings × Variables => x.2.get?) hsetup).trans hvariables

/-! ## Variables are registered once -/

section Kept
variable (s : Session)

theorem variableTypes_moveNode (id : NodeId) (position : Point) :
    (s.moveNode id position).variableTypes = s.variableTypes := by
  unfold moveNode
  split
  · exact (unseen_emitMove _ id).variableTypes
  · rfl

theorem variableTypes_setScale (id : NodeId) (scale : Scalar) :
    (s.setScale id scale).variableTypes = s.variableTypes := by
  unfold setScale
  split
  · exact (unseen_emitMove _ id).variableTypes
  · rfl

theorem variableTypes_setValue (r : SocketRef) (value : Option Literal) :
    (s.setValue r value).2.variableTypes = s.variableTypes := by
  unfold setValue
  split <;> rfl

theorem variableTypes_selectVariant (id : NodeId) (variant : Variant) :
    (s.selectVariant id variant).2.variableTypes = s.variableTypes := by
  unfold selectVariant
  split
  · rfl
  · exact (unseen_emitMove _ id).variableTypes.trans (congrArg Prod.snd (s.setup_clearConnections id))

theorem variableTypes_reconnect (c : ConnectorId) (pointer : Point) :
    (s.reconnect c pointer).2.variableTypes = s.variableTypes := by
  cases ht : s.reconnect c pointer with
  | mk picked t =>
    cases picked with
    | false => rw [eq_of_reconnect_false ht]
    | true =>
      obtain ⟨-, k, -, rfl⟩ := reconnect_eq ht
      show (s.pickUp c k.plug pointer).setup.2 = s.setup.2
      rw [pickUp, setup_drawPath]
      exact congrArg Prod.snd (s.setup_detachSocket c)

end Kept

theorem variableTypes_move {s t : Session} (h : s.Intact) (hm : s.Move t) :
    t.variableTypes = s.variableTypes ∨ ∃ name type, t = (s.registerVariable name type).2 := by
  cases hm with
  | registerVariable name type => exact .inr ⟨name, type, rfl⟩
  | spawn kind position scale => exact .inl rfl
  | moveNode id position => exact .inl (s.variableTypes_moveNode id position)
  | setScale id scale => exact .inl (s.variableTypes_setScale id scale)
  | emitMove id => exact .inl (s.unseen_emitMove id).variableTypes
  | bringToFront id => exact .inl (s.unseen_bringToFront id).variableTypes
  | setStyle style => exact .inl (s.unseen_setStyle style).variableTypes
  | setValue r value => exact .inl (s.variableTypes_setValue r value)
  | updateDrag pointer => exact .inl (s.unseen_updateDrag pointer).variableTypes
  | connect ht => exact .inl (Made.variableTypes_connect ht)
  | @beginDrag _ p pointer _ ht =>
    have hopened := (unseen_beginDrag h p pointer).variableTypes
    rw [ht] at hopened
    exact .inl hopened
  | @reconnect _ c pointer ht =>
    have hpicked := s.variableTypes_reconnect c pointer
    rw [ht] at hpicked
    exact .inl hpicked
  | release hd hr hok => exact .inl (congrArg Prod.snd (setup_link _ _ _))
  | discard hd => exact .inl (unseen_discardDrag h hd).variableTypes
  | disconnect hk hc =>
    exact .inl (congrArg Prod.snd ((setup_destroyConnector _ _).trans (s.setup_detachSocket _)))
  | eraseNode hn hfree hdrag => exact .inl rfl
  | relayPorts hn hold hfree hdrag variant => exact .inl rfl

theorem Reached.variables_once {s : Session} (h : s.Reached) : s.variableTypes.keys.Nodup := by
  refine h.induction (P := fun s => s.variableTypes.keys.Nodup) (fun _ => List.nodup_nil)
    fun s t hi honce hm => ?_
  obtain hsame | ⟨name, type, rfl⟩ := variableTypes_move hi hm
  · rw [hsame]
    exact honce
  · unfold registerVariable
    split
    · exact honce
    · rename_i hnew
      show (s.variableTypes.insert name type).keys.Nodup
      rw [OrderedMap.keys_insert]
      split
      · exact honce
      · rename_i hnot
        rw [List.nodup_append_comm]
        exact List.nodup_cons.2 ⟨hnot, honce⟩

/-! ## The same graph twice -/

/-- The new identities come in the order of the old ones. -/
structure OrderPreserving (s : Session) (f : NodeId → NodeId) (g : ConnectorId → ConnectorId) : Prop where
  node : ∀ a ∈ s.nodes.keys, ∀ b ∈ s.nodes.keys, a.number < b.number → (f a).number < (f b).number
  connector : ∀ c ∈ s.connectors.keys, ∀ d ∈ s.connectors.keys,
    c.number < d.number → (g c).number < (g d).number

namespace OrderPreserving
variable {s : Session} {f : NodeId → NodeId} {g : ConnectorId → ConnectorId}

theorem node_injective (h : s.OrderPreserving f g) {a b : NodeId} (ha : a ∈ s.nodes.keys)
    (hb : b ∈ s.nodes.keys) (hsame : f a = f b) : a = b := by
  obtain hless | hequal | hless := Nat.lt_trichotomy a.number b.number
  · exact absurd (hsame ▸ h.node a ha b hb hless) (Nat.lt_irrefl _)
  · exact congrArg NodeId.mk hequal
  · exact absurd (hsame ▸ h.node b hb a ha hless) (Nat.lt_irrefl _)

theorem connector_injective (h : s.OrderPreserving f g) {c d : ConnectorId} (hc : c ∈ s.connectors.keys)
    (hd : d ∈ s.connectors.keys) (hsame : g c = g d) : c = d := by
  obtain hless | hequal | hless := Nat.lt_trichotomy c.number d.number
  · exact absurd (hsame ▸ h.connector c hc d hd hless) (Nat.lt_irrefl _)
  · exact congrArg ConnectorId.mk hequal
  · exact absurd (hsame ▸ h.connector d hd c hc hless) (Nat.lt_irrefl _)

end OrderPreserving

namespace Renumbered
variable {s t : Session} {f : NodeId → NodeId} {g : ConnectorId → ConnectorId}

section Live
variable (h : s.Renumbered t f g) (ho : s.OrderPreserving f g)
include h ho

theorem liveNode {id : NodeId} (hid : id ∈ s.nodes.keys) :
    t.node? (f id) = (s.node? id).map (Node.renumber g) := by
  rw [Session.node?, h.nodes]
  exact OrderedMap.get?_relabel (fun _ hj hsame => ho.node_injective hj hid hsame) _

theorem liveConnector {c : ConnectorId} (hc : c ∈ s.connectors.keys) :
    t.connector? (g c) = (s.connector? c).map (Connector.renumber f) := by
  rw [Session.connector?, h.connectors]
  exact OrderedMap.get?_relabel (fun _ hj hsame => ho.connector_injective hj hc hsame) _

theorem livePlug {p : PlugRef} (hp : p.node ∈ s.nodes.keys) :
    t.plug? { p with node := f p.node } = (s.plug? p).map (Plug.renumber g) := by
  show (t.node? (f p.node)).bind _ = _
  rw [h.liveNode ho hp, Session.plug?, Option.bind_map, Option.map_bind]
  exact congrArg _ (funext fun n => n.frame.plug?_renumber g p.kind p.index)

theorem liveSocket {r : SocketRef} (hr : r.node ∈ s.nodes.keys) :
    t.socket? { r with node := f r.node } = (s.socket? r).map (Socket.renumber g) := by
  show (t.node? (f r.node)).bind _ = _
  rw [h.liveNode ho hr, Session.socket?, Option.bind_map, Option.map_bind]
  exact congrArg _ (funext fun n => n.frame.socket?_renumber g r.kind r.index)

theorem startNodes (hi : s.Intact) (hi' : t.Intact) : t.startNodes = s.startNodes.map f := by
  have hlive (id : NodeId) (hid : id ∈ s.startNodes) : id ∈ s.nodes.keys := by
    obtain ⟨n, hn, -⟩ := (mem_startNodes hi).1 hid
    exact (OrderedMap.mem_keys_iff _ id).2 (Option.isSome_of_eq_some hn)
  refine startNodes_eq hi' (List.pairwise_map.2 ?_) fun id => ?_
  · exact (sorted_startNodes hi).imp_of_mem fun ha hb hless => ho.node _ (hlive _ ha) _ (hlive _ hb) hless
  · rw [List.mem_map]
    constructor
    · rintro ⟨a, ha, rfl⟩
      obtain ⟨n, hn, hkind⟩ := (mem_startNodes hi).1 ha
      refine ⟨n.renumber g, ?_, hkind⟩
      rw [h.liveNode ho (hlive a ha), hn]
      rfl
    · rintro ⟨n, hn, hkind⟩
      rw [Session.node?, h.nodes] at hn
      obtain ⟨a, m, hm, rfl, rfl⟩ := OrderedMap.exists_of_get?_relabel hi.tied.nodesOnce hn
      exact ⟨a, (mem_startNodes hi).2 ⟨m, hm, hkind⟩, rfl⟩

/-- Sessions that differ in their identities only are saved alike. -/
theorem alike (hi : s.Intact) (hi' : t.Intact) (ht : t.Shaped)
    (hvariables : t.toProgram.variableTypes = s.toProgram.variableTypes) : s.Alike t f g := by
  have hnode {id : NodeId} (hid : (s.node? id).isSome) : id ∈ s.nodes.keys := (OrderedMap.mem_keys_iff _ id).2 hid
  have hlive {id : NodeId} (hid : s.FeedsFlow id) : id ∈ s.nodes.keys := hnode (hid.live hi)
  refine ⟨hi', ht, fun a b ha hb => ho.node_injective (hlive ha) (hlive hb), h.startNodes ho hi hi',
    fun id n hid hn => ⟨n.renumber g, ?_, rfl, rfl, rfl, rfl⟩, fun r u u' hr _ hu hu' => ?_, fun p hp => ?_,
    fun c k r hk hr _ => ⟨k.renumber f, ?_, rfl, ?_⟩, fun c' k' r hk' hr hr' => ?_, hvariables⟩
  · rw [h.liveNode ho (hlive hid), hn]
    rfl
  · rw [h.liveSocket ho (hlive hr), hu] at hu'
    obtain rfl := Option.some.inj hu'
    exact ⟨rfl, fun _ => rfl⟩
  · rw [leaving, leaving, h.livePlug ho (hlive hp)]
    cases s.plug? p <;> rfl
  · have hc : c ∈ s.connectors.keys := (OrderedMap.mem_keys_iff _ c).2 (Option.isSome_of_eq_some hk)
    rw [h.liveConnector ho hc, hk]
    rfl
  · show k.connectedTo.map _ = _
    rw [hr]
    rfl
  · rw [Session.connector?, h.connectors] at hk'
    obtain ⟨c, k, hk, -, rfl⟩ := OrderedMap.exists_of_get?_relabel hi.tied.connectorsOnce hk'
    obtain ⟨r₀, hr₀, hsame⟩ := Option.map_eq_some_iff.1 hr'
    have htarget := hnode (live_of_arrival hi hk hr₀)
    have hsocket : r₀ = r :=
      SocketRef.eq_of_moved (fun hplace => ho.node_injective htarget (hlive hr) hplace) hsame
    exact ⟨c, k, hk, hsocket ▸ hr₀, rfl⟩

end Live
end Renumbered

end Session

/-! ## Two runs -/

/-- From where the numbers start in one session to where they start in another one. -/
def NodeId.rebase (a a' : Nat) (id : NodeId) : NodeId := ⟨id.number - a + a'⟩

def ConnectorId.rebase (b b' : Nat) (c : ConnectorId) : ConnectorId := ⟨c.number - b + b'⟩

theorem NodeId.rebase_shift (a a' : Nat) : rebase a a' ∘ shift a = shift a' := by
  funext id
  exact congrArg (fun n => NodeId.mk (n + a')) (Nat.add_sub_cancel id.number a)

theorem ConnectorId.rebase_shift (b b' : Nat) : rebase b b' ∘ shift b = shift b' := by
  funext c
  exact congrArg (fun n => ConnectorId.mk (n + b')) (Nat.add_sub_cancel c.number b)

/-- The new names of what is in a session; what is not there keeps its name. -/
def Renaming.into (s : Session) (f : NodeId → NodeId) (g : ConnectorId → ConnectorId) : Renaming where
  node name := ((s.nodes.keys.find? (·.text == name)).map fun id => (f id).text).getD name
  connector name := ((s.connectors.keys.find? (·.text == name)).map fun c => (g c).text).getD name

/-- The renaming gives everything in a session the name that it has under its other identity. -/
structure Renaming.Matches (names : Renaming) (s : Session) (f : NodeId → NodeId)
    (g : ConnectorId → ConnectorId) : Prop where
  node : ∀ id ∈ s.nodes.keys, names.node id.text = (f id).text
  connector : ∀ c ∈ s.connectors.keys, names.connector c.text = (g c).text

theorem Renaming.matches_into (s : Session) (f : NodeId → NodeId) (g : ConnectorId → ConnectorId) :
    (Renaming.into s f g).Matches s f g where
  node id hid := by
    show ((s.nodes.keys.find? (·.text == id.text)).map fun id => (f id).text).getD id.text = _
    rw [find?_name (fun _ _ => NodeId.text_injective) hid]
    rfl
  connector c hc := by
    show ((s.connectors.keys.find? (·.text == c.text)).map fun c => (g c).text).getD c.text = _
    rw [find?_name (fun _ _ => ConnectorId.text_injective) hc]
    rfl

theorem Renaming.Matches.relabels {names : Renaming} {s : Session} {f : NodeId → NodeId}
    {g : ConnectorId → ConnectorId} (h : names.Matches s f g) (hi : s.Intact) : s.Relabels f g names where
  node id hid := h.node id ((OrderedMap.mem_keys_iff _ id).2 (hid.live hi))
  target e he := h.node _ ((OrderedMap.mem_keys_iff _ _).2 (Session.target_of_saved hi he))
  connector c hc := by
    obtain ⟨k, -, hk, -⟩ := (Session.mem_savedConnectors hi).1 hc
    exact h.connector c ((OrderedMap.mem_keys_iff _ c).2 (Option.isSome_of_eq_some hk))

namespace Session

section TwoRuns
variable {a b a' b' : Nat} {s t t' : Session}

/-- What stands further up in the numbers of one session by one amount and of another one by another amount is
the same graph in both. -/
theorem Shifted.renumbered (h : Shifted a b s t) (h' : Shifted a' b' s t') :
    t.Renumbered t' (.rebase a a') (.rebase b b') := by
  have hnode : Node.renumber (.rebase b b') ∘ Node.renumber (.shift b) = Node.renumber (.shift b') := by
    rw [← ConnectorId.rebase_shift b b']
    exact funext fun n => n.renumber_renumber _
  have hconnector : Connector.renumber (.rebase a a') ∘ Connector.renumber (.shift a) =
      Connector.renumber (.shift a') := by
    rw [← NodeId.rebase_shift a a']
    funext k
    simp only [Function.comp_apply, Connector.renumber, Option.map_map]
    rfl
  refine ⟨?_, ?_⟩
  · rw [h.nodes, h'.nodes, OrderedMap.relabel_relabel, NodeId.rebase_shift, hnode]
  · rw [h.connectors, h'.connectors, OrderedMap.relabel_relabel, ConnectorId.rebase_shift, hconnector]

theorem Shifted.orderPreserving (h : Shifted a b s t) (a' b' : Nat) :
    t.OrderPreserving (.rebase a a') (.rebase b b') := by
  have hnode (id : NodeId) (hid : id ∈ t.nodes.keys) : a ≤ id.number := by
    rw [h.nodes, OrderedMap.keys_relabel] at hid
    obtain ⟨j, -, rfl⟩ := List.mem_map.1 hid
    exact Nat.le_add_left _ _
  have hconnector (c : ConnectorId) (hc : c ∈ t.connectors.keys) : b ≤ c.number := by
    rw [h.connectors, OrderedMap.keys_relabel] at hc
    obtain ⟨j, -, rfl⟩ := List.mem_map.1 hc
    exact Nat.le_add_left _ _
  refine ⟨fun x hx y hy hless => ?_, fun x hx y hy hless => ?_⟩
  · have hx := hnode x hx
    show x.number - a + a' < y.number - a + a'
    omega
  · have hx := hconnector x hx
    show x.number - b + b' < y.number - b + b'
    omega

end TwoRuns

/-- Whatever two sessions hold, if they have the same settings and variables, a program that is restored into
both gives the same graph under other identities, which come in the same order. -/
theorem Reached.restore_forgets {s t : Session} (hs : s.Reached) (ht : t.Reached)
    (hsettings : t.settings = s.settings)
    (hvariables : ∀ name, t.variableTypes.get? name = s.variableTypes.get? name) (palette : Palette)
    (program : Program) :
    let out := s.restore palette program
    let out' := t.restore palette program
    out'.1.skippedNodes = out.1.skippedNodes ∧ out'.1.skippedEdges = out.1.skippedEdges ∧
      out.2.drag = none ∧ out'.2.drag = none ∧
      ∃ f g, out.2.OrderPreserving f g ∧ out.2.Renumbered out'.2 f g ∧
        out'.1.nodes = out.1.nodes.image f ∧
        ∃ names : Renaming, names.Matches out.2 f g ∧ out'.2.toProgram = out.2.toProgram.rename names := by
  obtain ⟨hfirst, hreport⟩ := (shifted_removeAll hs.intact rfl rfl).restore palette program
  obtain ⟨hsecond, hreport'⟩ := (shifted_removeAll ht.intact hsettings (funext hvariables)).restore palette program
  have hsame := hfirst.renumbered hsecond
  have hordered := hfirst.orderPreserving t.removeAll.ids.nextNode t.removeAll.ids.nextConnector
  have hout : (s.restore palette program).2.Reached := hs.apply (o := .restore palette program) trivial
  have hout' : (t.restore palette program).2.Reached := ht.apply (o := .restore palette program) trivial
  have hmatches := Renaming.matches_into (s.restore palette program).2
    (.rebase s.removeAll.ids.nextNode t.removeAll.ids.nextNode)
    (.rebase s.removeAll.ids.nextConnector t.removeAll.ids.nextConnector)
  have hnames : (t.restore palette program).2.toProgram.variableTypes =
      (s.restore palette program).2.toProgram.variableTypes :=
    SortedMap.ofList_eq_of_perm hout.variables_once (OrderedMap.perm_of_get? hout.variables_once
      hout'.variables_once (hsecond.variableTypes.trans hfirst.variableTypes.symm))
  refine ⟨?_, ?_, hfirst.idleAbove, hsecond.idleAbove, _, _, hordered, hsame, ?_, _, hmatches, ?_⟩
  · rw [hreport, hreport']
    rfl
  · rw [hreport, hreport']
    rfl
  · rw [hreport, hreport', RestoreReport.renumber, RestoreReport.renumber, OrderedMap.image_image,
      NodeId.rebase_shift]
  · exact (hsame.alike hordered hout.intact hout'.intact hout'.shaped hnames).toProgram hout.intact hout.shaped
      (hmatches.relabels hout.intact)

/-- What one session gives that has held nothing, another one gives that is in the middle of a drag. -/
theorem restore_forgets_amid_drag : amidPull.drag.isSome ∧ amidPull.nodes.size = 2 ∧
    let out := (new .standard).restore .standard roundMerge.toProgram
    let out' := amidPull.restore .standard roundMerge.toProgram
    out'.1.skippedNodes = out.1.skippedNodes ∧ out'.1.skippedEdges = out.1.skippedEdges ∧
      ∃ f g, out.2.OrderPreserving f g ∧ out.2.Renumbered out'.2 f g ∧
        ∃ names : Renaming, out'.2.toProgram = out.2.toProgram.rename names := by
  have hnew : (new .standard).Reached := ⟨.standard, [], fun _ ho => (List.not_mem_nil ho).elim, rfl⟩
  have hamid : amidPull.Reached := ⟨.standard, _, by simp [Operation.Public], rfl⟩
  obtain ⟨hnodes, hedges, -, -, f, g, hordered, hsame, -, names, -, hprogram⟩ :=
    Reached.restore_forgets hnew hamid rfl (fun _ => rfl) .standard roundMerge.toProgram
  exact ⟨rfl, rfl, hnodes, hedges, f, g, hordered, hsame, names, hprogram⟩

end Session
end FlowGraph
