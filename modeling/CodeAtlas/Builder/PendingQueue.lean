import CodeAtlas.Builder.Reference

/-!
# References that wait

The queue holds the references whose names nothing declares yet, sorted by placeholder, then owner,
then kind. Of several references that agree in these three only the first is kept. A placeholder is
in use as long as some reference waits for it.
-/

set_option autoImplicit false

namespace CodeAtlas

/-- What tells waiting references apart. -/
structure PendingKey where
  placeholder : NodeId
  owner : NodeId
  kind : RefKind
deriving DecidableEq, Repr, Inhabited

namespace PendingKey

instance : Ord PendingKey :=
  ⟨compareLex (compareOn placeholder) (compareLex (compareOn owner) (compareOn kind))⟩

instance : Std.TransOrd PendingKey :=
  inferInstanceAs (Std.TransCmp
    (compareLex (compareOn placeholder) (compareLex (compareOn owner) (compareOn kind))))

instance : Std.LawfulEqOrd PendingKey where
  eq_of_compare {a b} h := by
    have h' : compareLex (compareOn placeholder) (compareLex (compareOn owner) (compareOn kind)) a b
        = .eq := h
    simp only [compareLex, compareOn, Ordering.then_eq_eq, Std.LawfulEqOrd.compare_eq_iff_eq] at h'
    cases a; cases b; simp_all

end PendingKey

/-- A placeholder with the name it stands for and the number of references that wait for it. -/
structure Unresolved where
  placeholder : NodeId
  awaited : String
  references : Nat
deriving DecidableEq, Repr

/-- The references that wait for their targets. -/
structure PendingQueue where
  waiting : Std.ExtTreeMap PendingKey Reference := ∅
deriving DecidableEq

namespace PendingQueue

def keyOf (r : Reference) : PendingKey := ⟨r.placeholderId, r.owner, r.kind⟩

/-- Every waiting reference, in order. -/
def toList (q : PendingQueue) : List Reference := q.waiting.values

def size (q : PendingQueue) : Nat := q.waiting.size

def isEmpty (q : PendingQueue) : Bool := q.waiting.isEmpty

/-- The references that wait for a placeholder, in order. -/
def waitingFor (q : PendingQueue) (placeholder : NodeId) : List Reference :=
  q.toList.filter (·.placeholderId = placeholder)

def awaits (q : PendingQueue) (placeholder : NodeId) : Bool :=
  q.toList.any (·.placeholderId = placeholder)

/-- Adds a reference unless one with the same key waits already. -/
def insert (q : PendingQueue) (r : Reference) : PendingQueue := ⟨q.waiting.insertIfNew (keyOf r) r⟩

/-- Takes a reference away. -/
def erase (q : PendingQueue) (r : Reference) : PendingQueue := ⟨q.waiting.erase (keyOf r)⟩

/-- The placeholder that nothing waits for any more once a reference is taken away. -/
def orphanedBy? (q : PendingQueue) (r : Reference) : Option NodeId :=
  if q.awaits r.placeholderId && !(q.erase r).awaits r.placeholderId then some r.placeholderId
  else none

/-- The references that a unit owns, in order. -/
def ofUnit (q : PendingQueue) (unit : String) : List Reference := q.toList.filter (·.unit = unit)

/-- Takes away all references that a unit owns. -/
def dropUnit (q : PendingQueue) (unit : String) : PendingQueue :=
  ⟨q.waiting.filter fun _ r => r.unit ≠ unit⟩

/-- The placeholders in use, in order. -/
def placeholderIds (q : PendingQueue) : List NodeId :=
  (q.waiting.keys.map (·.placeholder)).eraseDups

/-- The placeholders in use, each with the name as its first reference spells it. -/
def placeholders (q : PendingQueue) : List Unresolved :=
  q.placeholderIds.filterMap fun id =>
    let refs := q.waitingFor id
    refs.head?.map fun first => ⟨id, first.awaited, refs.length⟩

end PendingQueue

end CodeAtlas
