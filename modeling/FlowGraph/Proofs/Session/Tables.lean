import FlowGraph.Proofs.Listing
import FlowGraph.Proofs.Session.Drawn
import FlowGraph.Proofs.Session.Styled

/-! # The tables of a session

A session could keep its tables and its drawing orders apart. A node that comes in would be struck from the
order before it is written there, a connector would be written there at once, what is raised would be written
at the end without a look at the table, and what goes would be struck. Here this is done twice: with the calls
of a session, which tell of everything that comes in, is raised or goes, and with the changes of the session
themselves. Along every run the orders name exactly what the tables hold, and they are the orders of the
session.
-/

namespace FlowGraph
set_option autoImplicit false

structure Tables where
  nodes : Listing NodeId Sprite
  connectors : Listing ConnectorId Sprite

namespace Tables

def empty : Tables := ⟨.empty, .empty⟩

def has (t : Tables) : Drawable → Bool
  | .node id => (t.nodes.get? id).isSome
  | .connector c => (t.connectors.get? c).isSome

def attach (t : Tables) : Drawable → Tables
  | .node id => { t with nodes := t.nodes.lay id .blank }
  | .connector c => { t with connectors := t.connectors.push c .blank }

def touch (t : Tables) (target : Drawable) (f : Sprite → Sprite) : Tables :=
  match target with
  | .node id => { t with nodes := t.nodes.modify id f }
  | .connector c => { t with connectors := t.connectors.modify c f }

def raise (t : Tables) : Drawable → Tables
  | .node id => { t with nodes := t.nodes.raise id }
  | .connector c => { t with connectors := t.connectors.raise c }

def dispose (t : Tables) : Drawable → Tables
  | .node id => { t with nodes := t.nodes.drop id }
  | .connector c => { t with connectors := t.connectors.drop c }

/-- Writes a call into the tables. None is refused. -/
def draw (t : Tables) : DrawCall → Tables
  | .attach target => t.attach target
  | .position target x => t.touch target fun s => { s with position := some x }
  | .scale target x => t.touch target fun s => { s with scale := some x }
  | .path c style curve => t.touch (.connector c) fun s => { s with path := some (style, curve) }
  | .raise target => t.raise target
  | .dispose target => t.dispose target

/-- Writes calls that are listed latest first. -/
def ofCalls : List DrawCall → Tables
  | [] => empty
  | call :: earlier => (ofCalls earlier).draw call

/-- The tables have the orders of the picture, and the same in each place. -/
structure Reads (t : Tables) (p : Picture) : Prop where
  nodes : t.nodes.Reads p.nodes
  connectors : t.connectors.Reads p.connectors

structure Coherent (t : Tables) : Prop where
  nodes : t.nodes.Coherent
  connectors : t.connectors.Coherent

namespace Reads
variable {t : Tables} {p : Picture} {call : DrawCall}

theorem coherent (h : t.Reads p) : t.Coherent := ⟨h.nodes.coherent, h.connectors.coherent⟩

theorem has (h : t.Reads p) (target : Drawable) : t.has target = p.has target := by
  cases target with
  | node id => exact (congrArg Option.isSome (h.nodes.get? id)).trans (p.nodes.get?_isSome id)
  | connector c => exact (congrArg Option.isSome (h.connectors.get? c)).trans (p.connectors.get?_isSome c)

theorem attach {target : Drawable} (h : t.Reads p) (hnew : p.has target = false) :
    (t.attach target).Reads (p.attach target) := by
  cases target with
  | node id => exact ⟨h.nodes.lay id .blank, h.connectors⟩
  | connector c =>
    refine ⟨h.nodes, h.connectors.push ?_ .blank⟩
    rw [← OrderedMap.contains_iff_mem_keys]
    exact Bool.eq_false_iff.1 hnew

theorem touch (h : t.Reads p) (target : Drawable) (f : Sprite → Sprite) :
    (t.touch target f).Reads (p.touch target f) := by
  cases target with
  | node id => exact ⟨h.nodes.modify id f, h.connectors⟩
  | connector c => exact ⟨h.nodes, h.connectors.modify c f⟩

theorem raise {target : Drawable} (h : t.Reads p) (hlive : p.has target = true) :
    (t.raise target).Reads (p.raise target) := by
  cases target with
  | node id => exact ⟨h.nodes.raise ((p.nodes.contains_iff_mem_keys id).1 hlive), h.connectors⟩
  | connector c => exact ⟨h.nodes, h.connectors.raise ((p.connectors.contains_iff_mem_keys c).1 hlive)⟩

theorem dispose (h : t.Reads p) (target : Drawable) : (t.dispose target).Reads (p.dispose target) := by
  cases target with
  | node id => exact ⟨h.nodes.drop id, h.connectors⟩
  | connector c => exact ⟨h.nodes, h.connectors.drop c⟩

/-- One call, made when it is apt. -/
theorem draw (h : t.Reads p) (hapt : p.has call.target = !call.attaches) : (t.draw call).Reads (p.draw call) := by
  cases call with
  | attach target => exact h.attach hapt
  | position target x => exact h.touch target _
  | scale target x => exact h.touch target _
  | path c style curve => exact h.touch (.connector c) _
  | raise target => exact h.raise hapt
  | dispose target => exact h.dispose target

end Reads

/-- Calls that can be carried out one after the other leave the tables with the picture that they give. -/
theorem reads_ofCalls {calls : List DrawCall} {p : Picture} (h : Picture.ofCalls calls = some p) :
    (ofCalls calls).Reads p := by
  induction calls generalizing p with
  | nil =>
    obtain rfl := Option.some.inj h
    exact ⟨Listing.reads_empty, Listing.reads_empty⟩
  | cons call earlier ih =>
    obtain ⟨q, hq, hcall⟩ := Option.bind_eq_some_iff.1 h
    unfold Picture.carryOut at hcall
    split at hcall
    · cases hcall
    · rename_i hapt
      obtain rfl := Option.some.inj hcall
      exact (ih hq).draw (Bool.eq_not.2 hapt)

end Tables

namespace Session

/-- The tables of a session, as its calls have filled them. -/
def tables (s : Session) : Tables := Tables.ofCalls s.calls

/-! ## Along a run -/

theorem Reached.reads_tables {s : Session} (h : s.Reached) : s.tables.Reads s.picture :=
  Tables.reads_ofCalls h.ofCalls

section Run
variable {s : Session} {later earlier : List DrawCall} {call : DrawCall}

/-- At every moment of a run the orders name exactly what the tables hold, each once. -/
theorem Reached.tables_coherent (h : s.Reached) (hcalls : s.calls = later ++ earlier) :
    (Tables.ofCalls earlier).Coherent := by
  have hall := h.ofCalls
  rw [hcalls] at hall
  obtain ⟨q, hq⟩ := Picture.ofCalls_of_append hall
  exact (Tables.reads_ofCalls hq).coherent

/-- What comes in is not in the tables yet, and what is raised or goes is there, though neither is looked up. -/
theorem Reached.tables_apt (h : s.Reached) (hcalls : s.calls = later ++ call :: earlier) :
    (Tables.ofCalls earlier).has call.target = !call.attaches := by
  have hall := h.ofCalls
  rw [hcalls] at hall
  obtain ⟨q, hq, hapt⟩ := Picture.apt_of_ofCalls hall
  rw [(Tables.reads_ofCalls hq).has]
  exact hapt

end Run

/-- The orders that are kept apart are the orders of the session, and the tables hold what it holds. -/
theorem Reached.tables_eq {s : Session} (h : s.Reached) :
    s.tables.nodes.order = s.nodes.keys ∧ (∀ id, s.tables.nodes.get? id = (s.node? id).map Node.sprite) ∧
      s.tables.connectors.order = s.connectors.keys ∧
        ∀ c, s.tables.connectors.get? c = (s.connector? c).map Connector.sprite := by
  have hreads := h.reads_tables
  refine ⟨?_, fun id => ?_, ?_, fun c => ?_⟩
  · rw [hreads.nodes.order]
    exact s.nodes.keys_image Node.sprite
  · rw [hreads.nodes.get?]
    exact s.nodes.get?_image Node.sprite id
  · rw [hreads.connectors.order]
    exact s.connectors.keys_image Connector.sprite
  · rw [hreads.connectors.get?]
    exact s.connectors.get?_image Connector.sprite c

/-! ## Change by change -/

/-- The listings hold the nodes and the connectors of the session in its orders. -/
structure KeptIn (s : Session) (nodes : Listing NodeId Node) (connectors : Listing ConnectorId Connector) :
    Prop where
  nodes : nodes.Reads s.nodes
  connectors : connectors.Reads s.connectors

namespace KeptIn
variable {s : Session} {nodes : Listing NodeId Node} {connectors : Listing ConnectorId Connector}

theorem modifyNode (h : s.KeptIn nodes connectors) (id : NodeId) (f : Node → Node) :
    (s.modifyNode id f).KeptIn (nodes.modify id f) connectors := ⟨h.nodes.modify id f, h.connectors⟩

theorem modifyConnector (h : s.KeptIn nodes connectors) (c : ConnectorId) (f : Connector → Connector) :
    (s.modifyConnector c f).KeptIn nodes (connectors.modify c f) := ⟨h.nodes, h.connectors.modify c f⟩

theorem addNode (h : s.KeptIn nodes connectors) (id : NodeId) (n : Node) :
    (s.addNode id n).KeptIn (nodes.lay id n) connectors := ⟨h.nodes.lay id n, h.connectors⟩

theorem eraseNode (h : s.KeptIn nodes connectors) (id : NodeId) :
    (s.eraseNode id).KeptIn (nodes.drop id) connectors := ⟨h.nodes.drop id, h.connectors⟩

/-- A connector that comes in is written at the end of the order, for its identity is new. -/
theorem addConnector (h : s.KeptIn nodes connectors) (hi : s.Intact) (p : PlugRef) (start stop : Point)
    (style : ConnectorStyle) : (s.addConnector p start stop style).2.KeptIn
      (nodes.modify p.node fun n => { n with frame :=
        { n.frame with dependents := n.frame.dependents ++ [s.ids.connector.1] } })
      (connectors.push s.ids.connector.1 (.drawnFrom p start stop style)) := by
  have hnew : s.connectors.get? s.ids.connector.1 = none := Option.map_eq_none_iff.1 hi.tied.edge_fresh
  exact ⟨h.nodes.modify p.node _, h.connectors.push ((s.connectors.get?_eq_none_iff _).1 hnew) _⟩

theorem destroyConnector (h : s.KeptIn nodes connectors) {c : ConnectorId} {k : Connector}
    (hk : s.connector? c = some k) : (s.destroyConnector c).KeptIn
      (nodes.modify k.plug.node (·.withdraw c k.plug.kind k.plug.index)) (connectors.drop c) := by
  rw [Session.destroyConnector, hk]
  exact ⟨h.nodes.modify k.plug.node _, h.connectors.drop c⟩

theorem raiseConnectors (h : s.KeptIn nodes connectors) {cs : List ConnectorId}
    (hlive : ∀ c ∈ cs, (s.connector? c).isSome) :
    (cs.foldl raiseConnector s).KeptIn nodes (cs.foldl Listing.raise connectors) := by
  induction cs generalizing s connectors with
  | nil => exact h
  | cons c rest ih =>
    have hc : c ∈ s.connectors.keys := (s.connectors.mem_keys_iff c).2 (hlive c List.mem_cons_self)
    have hraised : (s.raiseConnector c).KeptIn nodes (connectors.raise c) := ⟨h.nodes, h.connectors.raise hc⟩
    refine ih hraised fun d hd => ?_
    have hsame : (s.raiseConnector c).connector? d = s.connector? d := s.connectors.get?_raise c d
    rw [hsame]
    exact hlive d (List.mem_cons_of_mem c hd)

/-- What is laid on top is written at the end of the orders without being looked up, and all of it is there. -/
theorem bringToFront (h : s.KeptIn nodes connectors) (hi : s.Intact) {id : NodeId} {n : Node}
    (hn : s.node? id = some n) : (s.bringToFront id).KeptIn (nodes.raise id)
      ((s.raisedWith id n.frame).foldl Listing.raise connectors) := by
  have hid : id ∈ s.nodes.keys := (s.nodes.mem_keys_iff id).2 (Option.isSome_of_eq_some hn)
  have hraised : ({ s with nodes := s.nodes.raise id }.draw (.raise (.node id))).KeptIn (nodes.raise id)
      connectors := ⟨h.nodes.raise hid, h.connectors⟩
  have hlive : ∀ c ∈ s.raisedWith id n.frame, (s.connector? c).isSome := by
    intro c hc
    exact live_of_raisedWith hi hn hc
  rw [bringToFront_eq hn]
  exact hraised.raiseConnectors hlive

/-- A change of the style that walks along the orders reaches every node and every connector. -/
theorem setStyle (h : s.KeptIn nodes connectors) (style : ConnectorStyle) : (s.setStyle style).KeptIn
    (nodes.modifyInOrder (restyle style)) (connectors.modifyInOrder fun k => { k with style := style }) := by
  obtain ⟨calls, hset⟩ := s.setStyle_eq style
  rw [hset]
  exact ⟨h.nodes.modifyInOrder _, h.connectors.modifyInOrder _⟩

end KeptIn
end Session
end FlowGraph
