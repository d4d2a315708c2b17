import CodeAtlas.Graph.Edge

/-!
# Stores with stable indices

A store of nodes and links gives an index to whatever is put into it. The index stays good until what
it stands for is taken out, and taking out a node takes its links along and leaves all other indices
alone. A store has no notion of identity: it takes the same node twice, and any number of links from
one node to another. Telling them apart is left to its user.

`StableGraph` lists the operations, and `LawfulStableGraph` says what they do, look-up by look-up.
`SlotGraph` is such a store over two lists of slots.
-/

set_option autoImplicit false

namespace CodeAtlas

/-- A link from one node to another, both given by their indices. -/
structure Link (β : Type) where
  source : Nat
  target : Nat
  weight : β

namespace Link

variable {β : Type}

/-- The end of a link at the node that it is seen from. -/
def near (link : Link β) : Heading → Nat
  | .outgoing => link.source
  | .incoming => link.target

/-- The other end. -/
def far (link : Link β) : Heading → Nat
  | .outgoing => link.target
  | .incoming => link.source

end Link

/-- The operations of a store. An operation gives nothing if an index that it needs stands for
nothing. -/
class StableGraph (G : Type) (α β : outParam Type) where
  empty : G
  node? : G → Nat → Option α
  link? : G → Nat → Option (Link β)
  /-- The nodes with their indices, in any order. -/
  nodes : G → List (Nat × α)
  /-- The links with their indices, in any order. -/
  links : G → List (Nat × Link β)
  /-- The links that leave or reach a node, in any order. -/
  linksAt : G → Heading → Nat → List (Nat × Link β)
  addNode : G → α → Nat × G
  setNode : G → Nat → α → Option G
  removeNode : G → Nat → G
  addLink : G → Nat → Nat → β → Option (Nat × G)
  /-- Gives a link a new weight; its ends stay. -/
  setLink : G → Nat → β → Option G
  removeLink : G → Nat → G

open StableGraph in
/-- What the operations of a store do, told by what is found under each index. -/
class LawfulStableGraph (G : Type) (α β : outParam Type) [StableGraph G α β] : Prop where
  node?_empty : ∀ i, node? (empty : G) i = none
  link?_empty : ∀ e, link? (empty : G) e = none
  mem_nodes : ∀ (g : G) (i : Nat) (a : α), (i, a) ∈ nodes g ↔ node? g i = some a
  nodup_nodes : ∀ g : G, (nodes g).Nodup
  mem_links : ∀ (g : G) (e : Nat) (l : Link β), (e, l) ∈ links g ↔ link? g e = some l
  nodup_links : ∀ g : G, (links g).Nodup
  mem_linksAt : ∀ (g : G) (heading : Heading) (i e : Nat) (l : Link β),
    (e, l) ∈ linksAt g heading i ↔ link? g e = some l ∧ l.near heading = i
  nodup_linksAt : ∀ (g : G) (heading : Heading) (i : Nat), (linksAt g heading i).Nodup
  /-- The index of a new node stood for nothing before. -/
  node?_fresh : ∀ (g : G) (a : α), node? g (addNode g a).1 = none
  node?_addNode : ∀ (g : G) (a : α) (j : Nat),
    node? (addNode g a).2 j = if (addNode g a).1 = j then some a else node? g j
  link?_addNode : ∀ (g : G) (a : α) (e : Nat), link? (addNode g a).2 e = link? g e
  isSome_setNode : ∀ (g : G) (i : Nat) (a : α), (setNode g i a).isSome = (node? g i).isSome
  node?_setNode : ∀ (g g' : G) (i : Nat) (a : α), setNode g i a = some g' →
    ∀ j, node? g' j = if i = j then some a else node? g j
  link?_setNode : ∀ (g g' : G) (i : Nat) (a : α), setNode g i a = some g' →
    ∀ e, link? g' e = link? g e
  node?_removeNode : ∀ (g : G) (i j : Nat),
    node? (removeNode g i) j = if i = j then none else node? g j
  link?_removeNode : ∀ (g : G) (i e : Nat),
    link? (removeNode g i) e = (link? g e).filter fun l => l.source ≠ i && l.target ≠ i
  isSome_addLink : ∀ (g : G) (i j : Nat) (b : β),
    (addLink g i j b).isSome = ((node? g i).isSome && (node? g j).isSome)
  /-- The index of a new link stood for nothing before. -/
  link?_fresh : ∀ (g g' : G) (i j e : Nat) (b : β), addLink g i j b = some (e, g') → link? g e = none
  node?_addLink : ∀ (g g' : G) (i j e : Nat) (b : β), addLink g i j b = some (e, g') →
    ∀ k, node? g' k = node? g k
  link?_addLink : ∀ (g g' : G) (i j e : Nat) (b : β), addLink g i j b = some (e, g') →
    ∀ f, link? g' f = if e = f then some ⟨i, j, b⟩ else link? g f
  isSome_setLink : ∀ (g : G) (e : Nat) (b : β), (setLink g e b).isSome = (link? g e).isSome
  node?_setLink : ∀ (g g' : G) (e : Nat) (b : β), setLink g e b = some g' →
    ∀ i, node? g' i = node? g i
  link?_setLink : ∀ (g g' : G) (e : Nat) (b : β), setLink g e b = some g' →
    ∀ f, link? g' f = if e = f then (link? g f).map ({ · with weight := b }) else link? g f
  node?_removeLink : ∀ (g : G) (e i : Nat), node? (removeLink g e) i = node? g i
  link?_removeLink : ∀ (g : G) (e f : Nat),
    link? (removeLink g e) f = if e = f then none else link? g f

/-! ## Slots -/

/-- Numbered slots, each with something in it or free. -/
structure Slots (α : Type) where
  slots : List (Option α) := []

namespace Slots

variable {α : Type}

def get? (s : Slots α) (i : Nat) : Option α := s.slots[i]?.join

/-- The first slot that is free; behind the last one there is always another. -/
def free (s : Slots α) : Nat := s.slots.findIdx Option.isNone

def add (s : Slots α) (a : α) : Slots α :=
  if s.free < s.slots.length then ⟨s.slots.set s.free (some a)⟩ else ⟨s.slots ++ [some a]⟩

/-- Puts something else into a slot that is filled. -/
def set (s : Slots α) (i : Nat) (a : α) : Option (Slots α) :=
  if (s.get? i).isSome then some ⟨s.slots.set i (some a)⟩ else none

def remove (s : Slots α) (i : Nat) : Slots α := ⟨s.slots.set i none⟩

/-- Frees the slots whose content does not meet a condition. -/
def filter (s : Slots α) (keep : α → Bool) : Slots α := ⟨s.slots.map (·.filter keep)⟩

/-- What the slots hold, slot by slot. -/
def entries (s : Slots α) : List (Nat × α) :=
  (List.range s.slots.length).filterMap fun i => (s.get? i).map (i, ·)

end Slots

/-- Nodes and links in two lists of slots. -/
structure SlotGraph (α β : Type) where
  nodes : Slots α := {}
  links : Slots (Link β) := {}

instance {α β : Type} : StableGraph (SlotGraph α β) α β where
  empty := {}
  node? g i := g.nodes.get? i
  link? g e := g.links.get? e
  nodes g := g.nodes.entries
  links g := g.links.entries
  linksAt g heading i := g.links.entries.filter fun (_, l) => l.near heading = i
  addNode g a := (g.nodes.free, { g with nodes := g.nodes.add a })
  setNode g i a := (g.nodes.set i a).map ({ g with nodes := · })
  removeNode g i :=
    { nodes := g.nodes.remove i, links := g.links.filter fun l => l.source ≠ i && l.target ≠ i }
  addLink g i j b :=
    if (g.nodes.get? i).isSome && (g.nodes.get? j).isSome then
      some (g.links.free, { g with links := g.links.add ⟨i, j, b⟩ })
    else none
  setLink g e b :=
    (g.links.get? e).bind fun l =>
      (g.links.set e { l with weight := b }).map ({ g with links := · })
  removeLink g e := { g with links := g.links.remove e }

end CodeAtlas
