import CodeAtlas.Graph.Edge

/-!
# References

A reference is an edge of which one end is known, its owner, and the other is only a name. It
becomes an edge in two ways: to its target, once the name is resolved, or to the placeholder of the
name until then. Either edge remembers the name, so that the reference can be recovered from it when
the other end goes away.
-/

set_option autoImplicit false

namespace CodeAtlas

/-- How a reference turns into an edge. -/
inductive RefKind where
  /-- The owner calls the target. -/
  | call
  /-- A test case calls the target: the target is tested by the owner, unless it is a test case
  itself, which is only called. -/
  | testCall
  /-- The owner uses the target. -/
  | metadata
  /-- The owner has an attribute whose type is the target. -/
  | metadataType
  /-- The target contains the owner. -/
  | container
  /-- The owner contains the target. -/
  | child
deriving DecidableEq, Repr, Inhabited

namespace RefKind

/-- Whether the name is that of a declaration. -/
def isCall : RefKind → Bool
  | call | testCall => true
  | _ => false

def rank : RefKind → Nat
  | call => 0
  | testCall => 1
  | metadata => 2
  | metadataType => 3
  | container => 4
  | child => 5

theorem rank_inj {a b : RefKind} (h : a.rank = b.rank) : a = b := by
  cases a <;> cases b <;> simp_all [rank]

instance : Ord RefKind := ⟨compareOn rank⟩

instance : Std.TransOrd RefKind := inferInstanceAs (Std.TransCmp (compareOn rank))

instance : Std.LawfulEqOrd RefKind where
  eq_of_compare h := rank_inj (Std.LawfulEqOrd.eq_of_compare (α := Nat) h)

end RefKind

/-- A reference from a node to a name. -/
structure Reference where
  owner : NodeId
  awaited : String
  kind : RefKind
  /-- The unit that owns the edge. -/
  unit : String
  line : Option Nat
  /-- The module of the owner, in which calls are looked for first. -/
  context : Option NodeId
deriving DecidableEq, Repr

namespace Reference

def placeholderId (r : Reference) : NodeId := .placeholder r.awaited

/-- The ends and the kind of the edge to a target. -/
def keyTo (r : Reference) (target : NodeId) (targetKind : NodeKind) : EdgeKey :=
  match r.kind with
  | .call => ⟨r.owner, target, .calls⟩
  | .testCall =>
    if targetKind = .testCase then ⟨r.owner, target, .calls⟩ else ⟨target, r.owner, .testedBy⟩
  | .metadata => ⟨r.owner, target, .usesMetadata⟩
  | .metadataType => ⟨r.owner, target, .dependsOn⟩
  | .container => ⟨target, r.owner, .contains⟩
  | .child => ⟨r.owner, target, .contains⟩

/-- What the edge remembers of the reference. -/
def edgeProps (r : Reference) : Props :=
  .ofList ([("unit", .text r.unit), ("callee", .text r.awaited)] ++
    r.line.toList.map fun line => ("line", .int line))

/-- The edge to a target. -/
def edgeTo (r : Reference) (target : NodeId) (targetKind : NodeKind) : Edge :=
  let key := r.keyTo target targetKind
  ⟨key.source, key.target, key.kind, r.edgeProps⟩

/-- The edge to the placeholder of the name. -/
def placeholderEdge (r : Reference) : Edge := r.edgeTo r.placeholderId .unknown

/-- The owner and the kind of the reference behind an edge that has lost one end. -/
def ownerOf? (edge : Edge) (gone : NodeId) (ownerKind : Option NodeKind) :
    Option (NodeId × RefKind) :=
  match edge.kind, edge.source == gone with
  | .calls, false => some (edge.source, if ownerKind = some .testCase then .testCall else .call)
  | .testedBy, true => some (edge.target, .testCall)
  | .usesMetadata, false => some (edge.source, .metadata)
  | .dependsOn, false => some (edge.source, .metadataType)
  | .contains, true => some (edge.target, .container)
  | .contains, false => some (edge.source, .child)
  | _, _ => none

/-- The line that an edge remembers, if it is one. -/
def lineOf? (edge : Edge) : Option Nat := do
  let line ← edge.props["line"]? >>= PropValue.asInt?
  if 0 ≤ line ∧ line.toNat < UInt32.size then return line.toNat else none

/-- Recovers the reference behind an edge whose end `gone` is a placeholder or is being deleted. An
edge without a remembered name awaits what `goneName` says, and one without a unit is no
reference. -/
def ofEdge? (edge : Edge) (gone : NodeId) (ownerKind : Option NodeKind) (goneName : String)
    (moduleOf : NodeId → Option NodeId) : Option Reference := do
  let (owner, kind) ← ownerOf? edge gone ownerKind
  let unit ← edge.unit?
  return { owner, kind, unit
           awaited := (edge.props.text? "callee").getD goneName
           line := lineOf? edge
           context := if kind.isCall then moduleOf owner else none }

end Reference

end CodeAtlas
