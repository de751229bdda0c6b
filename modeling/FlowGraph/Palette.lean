import FlowGraph.Node.Kind

/-! # Palettes

A palette names the kinds of nodes that can be placed. Several identifiers may stand for one kind,
so that old saved programs are still understood.
-/

namespace FlowGraph
set_option autoImplicit false

structure PaletteEntry where
  kind : NodeKind
  title : String
  nodeClass : NodeClass
  deriving DecidableEq, Repr

/-- Entries by identifier, in the order of their first registration. -/
structure Palette where
  entries : OrderedMap String PaletteEntry

namespace Palette

def empty : Palette := ⟨.empty⟩

def register (p : Palette) (identifier : String) (entry : PaletteEntry) : Palette :=
  ⟨p.entries.insert identifier entry⟩

def entry? (p : Palette) (identifier : String) : Option PaletteEntry := p.entries.get? identifier

def kind? (p : Palette) (identifier : String) : Option NodeKind :=
  (p.entry? identifier).map (·.kind)

def size (p : Palette) : Nat := p.entries.size

def inClass (p : Palette) (c : NodeClass) : List (String × PaletteEntry) :=
  p.entries.entries.filter (·.2.nodeClass = c)

/-- The entries by class, in class order; a class without entries is left out. -/
def groups (p : Palette) : List (NodeClass × List (String × PaletteEntry)) :=
  (NodeClass.all.map fun c => (c, p.inClass c)).filter (!·.2.isEmpty)

/-- Every built-in kind under its own identifier. -/
def standard : Palette :=
  NodeKind.all.foldl (fun p kind => p.register kind.identifier ⟨kind, kind.title, kind.nodeClass⟩)
    empty

end Palette
end FlowGraph
