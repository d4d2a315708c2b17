import CodeAtlas.Builder.Resume
import CodeAtlas.Proofs.Contents

/-!
# Going on from a graph

A builder that reads its bookkeeping back from the graph it has written gets back exactly what the
live builder remembers (`Builder.resume_eq`). The nodes give back the index, the owners and the
hashes of the units; the edges give back what each unit holds; and the edges to placeholders give
back the queue, reference by reference. From there on the two builders cannot be told apart.

Nodes and edges are read one after another, so each of the two folds has an invariant that says what
has been recovered so far (`RecallsNodes`, `RecallsEdges`).
-/

set_option autoImplicit false

namespace CodeAtlas

open Std Text

/-! ## Hashes -/

namespace Text

theorem hexValue?_digitChar : ∀ n < 16, hexValue? (Nat.digitChar n) = some n := by decide

theorem ofDigits_concat (base : Nat) (digits : List Nat) (d : Nat) :
    ofDigits base (digits ++ [d]) = ofDigits base digits * base + d := by
  simp [ofDigits]

/-- Hexadecimal digits stand for the number that they were written for. -/
theorem hexValue?_toDigits (n : Nat) :
    ∃ digits, (Nat.toDigits 16 n).mapM hexValue? = some digits ∧ ofDigits 16 digits = n := by
  induction n using Nat.strongRecOn with
  | ind n ih =>
    by_cases h : n < 16
    · refine ⟨[n], ?_, by simp [ofDigits]⟩
      simp [Nat.toDigits_of_lt_base h, hexValue?_digitChar n h]
    · obtain ⟨digits, hread, hvalue⟩ := ih (n / 16) (by omega)
      refine ⟨digits ++ [n % 16], ?_, ?_⟩
      · have hlast := hexValue?_digitChar (n % 16) (Nat.mod_lt n (by omega))
        rw [Nat.toDigits_of_base_le (by omega) (by omega), List.mapM_append, hread]
        simp [hlast]
      · rw [ofDigits_concat, hvalue]
        omega

/-- Zeros before a number do not count. -/
theorem hexValue?_zeros (zeros : Nat) {cs : List Char} {digits : List Nat}
    (h : cs.mapM hexValue? = some digits) :
    ∃ all, (List.replicate zeros '0' ++ cs).mapM hexValue? = some all ∧
      ofDigits 16 all = ofDigits 16 digits := by
  induction zeros with
  | zero => exact ⟨digits, h, rfl⟩
  | succ zeros ih =>
    obtain ⟨all, hread, hvalue⟩ := ih
    have hzero : hexValue? '0' = some 0 := rfl
    refine ⟨0 :: all, ?_, ?_⟩
    · rw [List.replicate_succ, List.cons_append, List.mapM_cons, hread, hzero]
      rfl
    · rw [← hvalue]
      simp [ofDigits]

end Text

/-- The hash that a node holds is read back as it was written. -/
theorem Bookkeeping.hashOfHex?_toHex (hash : ContentHash) : hashOfHex? hash.toHex = some hash := by
  obtain ⟨digits, hread, hvalue⟩ := hexValue?_toDigits hash.word.toNat
  obtain ⟨all, hread, hzeros⟩ := hexValue?_zeros
    (16 - (Nat.toDigits 16 hash.word.toNat).length) hread
  have htext : hash.toHex.toList = List.replicate (16 - (Nat.toDigits 16 hash.word.toNat).length) '0' ++
      Nat.toDigits 16 hash.word.toNat := by
    simp [ContentHash.toHex, ContentHash.hexDigits]
  rw [← htext] at hread
  have hfits : hash.word.toNat < UInt64.size := hash.word.toNat_lt
  have hback : hash.word.toNat.toUInt64 = hash.word := by simp
  unfold hashOfHex?
  -- A plus sign is no digit, so the text does not begin with one.
  cases hc : hash.toHex.toList with
  | nil =>
    rw [hc] at htext
    simp [Nat.toDigits_ne_nil] at htext
  | cons c rest =>
    have hplus : c ≠ '+' := by
      rintro rfl
      have hnone : hexValue? '+' = none := rfl
      rw [hc, List.mapM_cons, hnone] at hread
      simp at hread
    rw [hc] at hread
    split
    next rest' heq =>
      injection heq with hhead
      exact absurd hhead hplus
    next =>
      simp only [List.isEmpty_cons, Bool.false_eq_true, if_false, hread]
      show (if ofDigits 16 all < UInt64.size then some (⟨(ofDigits 16 all).toUInt64⟩ : ContentHash)
        else none) = some hash
      rw [hzeros, hvalue, if_pos hfits, hback]


namespace Bookkeeping

/-! ## Nodes -/

/-- Nodes that can be recalled: no two share an id or a name, and none holds a hash other than that of
its unit. -/
structure Coherent (hashes : String → ContentHash) (nodes : List Node) : Prop where
  nodup : (nodes.map (·.id)).Nodup
  apart : ∀ a ∈ nodes, ∀ b ∈ nodes, a.id ≠ b.id → Draft.NoClash a b
  hashes : ∀ node ∈ nodes, ∀ path text, node.unit? = some path →
    node.props.text? "content_hash" = some text → text = (hashes path).toHex

theorem Coherent.sublist {hashes : String → ContentHash} {a b : List Node} (h : Coherent hashes a)
    (hs : b.Sublist a) : Coherent hashes b where
  nodup := h.nodup.sublist (hs.map _)
  apart x hx y hy := h.apart x (hs.subset hx) y (hs.subset hy)
  hashes x hx := h.hashes x (hs.subset hx)

theorem Coherent.perm {hashes : String → ContentHash} {a b : List Node} (h : Coherent hashes a)
    (hp : a.Perm b) : Coherent hashes b where
  nodup := (hp.map _).nodup_iff.mp h.nodup
  apart x hx y hy := h.apart x (hp.mem_iff.mpr hx) y (hp.mem_iff.mpr hy)
  hashes x hx := h.hashes x (hp.mem_iff.mpr hx)

/-- Whether a node is one of some nodes and no placeholder. -/
def Among (nodes : List Node) (node : Node) : Prop := node ∈ nodes ∧ node.kind ≠ .unknown

theorem among_cons {nodes : List Node} {first node : Node} :
    Among (first :: nodes) node ↔ (node = first ∧ first.kind ≠ .unknown) ∨ Among nodes node := by
  unfold Among
  rw [List.mem_cons, or_and_right]
  refine or_congr_left (and_congr_right fun h => ?_)
  rw [h]

/-- What some nodes give back. -/
structure RecallsNodes (hashes : String → ContentHash) (nodes : List Node) (book : Bookkeeping) :
    Prop where
  entries : ∀ (id : NodeId) entry, book.index.entries[id]? = some entry ↔
    ∃ node, Among nodes node ∧ node.id = id ∧ .ofNode node = entry
  faithful : book.index.Faithful
  nodeUnit : ∀ (id : NodeId) path, book.nodeUnit[id]? = some path ↔
    ∃ node, Among nodes node ∧ node.id = id ∧ node.unit? = some path
  owns : ∀ path id, book.Owns path id ↔ book.nodeUnit[id]? = some path
  inhabited : ∀ (path : String) unit, book.units[path]? = some unit → ∃ id, id ∈ unit.nodes
  edges : ∀ (path : String) unit, book.units[path]? = some unit → unit.edges = ∅
  hash : ∀ (path : String) unit, book.units[path]? = some unit → ∀ node, Among nodes node →
    node.unit? = some path → (node.props.text? "content_hash").isSome = true →
    unit.hash = hashes path
  pending : book.pending = {}

theorem recallsNodes_nil (hashes : String → ContentHash) : RecallsNodes hashes [] {} := by
  constructor
  case faithful => exact NameIndex.faithful_empty
  case pending => rfl
  all_goals simp [Among, Owns]

section Step

variable {hashes : String → ContentHash} {nodes : List Node} {node : Node} {book : Bookkeeping}

/-- The names of a node that belongs with those already recalled are free. -/
theorem RecallsNodes.free (h : RecallsNodes hashes nodes book)
    (coherent : Coherent hashes (node :: nodes)) : book.index.Free node := by
  have hnew : node.id ∉ nodes.map (·.id) := (List.nodup_cons.mp coherent.nodup).1
  refine NameIndex.free_iff.mpr ⟨?_, fun id entry he => ?_⟩
  · cases he : book.index.entries[node.id]? with
    | none => rfl
    | some entry =>
      obtain ⟨other, ⟨ho, -⟩, hid, -⟩ := (h.entries _ entry).mp he
      exact absurd (List.mem_map.mpr ⟨other, ho, hid⟩) hnew
  · obtain ⟨other, ⟨ho, -⟩, -, rfl⟩ := (h.entries id entry).mp he
    have apart := coherent.apart other (List.mem_cons_of_mem node ho) node List.mem_cons_self
      fun hid => hnew (hid ▸ List.mem_map.mpr ⟨other, ho, rfl⟩)
    exact ⟨apart.decl, apart.common, apart.object⟩

theorem recallNode_unknown (book : Bookkeeping) (h : node.kind = .unknown) :
    book.recallNode node = book := by
  simp [recallNode, h]

theorem recallNode_shared (book : Bookkeeping) (h : node.kind ≠ .unknown) (hu : node.unit? = none) :
    book.recallNode node = { book with index := book.index.add node } := by
  simp [recallNode, h, hu]

theorem recallNode_owned (book : Bookkeeping) (h : node.kind ≠ .unknown) {path : String}
    (hu : node.unit? = some path) :
    book.recallNode node =
      { book with
        index := book.index.add node
        units := book.units.insert path
          { book.units[path]?.getD {} with
            nodes := (book.units[path]?.getD {}).nodes.insert node.id
            hash := (node.props.text? "content_hash" >>= hashOfHex?).getD
              (book.units[path]?.getD {}).hash }
        nodeUnit := book.nodeUnit.insert node.id path } := by
  simp [recallNode, h, hu]

theorem owns_recallNode (book : Bookkeeping) (h : node.kind ≠ .unknown) {path : String}
    (hu : node.unit? = some path) (p : String) (id : NodeId) :
    (book.recallNode node).Owns p id ↔ book.Owns p id ∨ path = p ∧ node.id = id := by
  rw [recallNode_owned book h hu]
  unfold Owns
  rw [ExtTreeMap.getElem?_insert]
  by_cases hp : path = p
  · subst hp
    cases book.units[path]? <;> simp [ExtTreeSet.mem_insert, or_comm]
  · simp [hp]

/-- What is found after one node more. -/
theorem found_cons {α : Type} (what : Node → Option α) {old : Option α} {id : NodeId} {value : α}
    (real : node.kind ≠ .unknown) (new : node.id ∉ nodes.map (·.id))
    (hold : old = some value ↔ ∃ other, Among nodes other ∧ other.id = id ∧ what other = some value) :
    (if node.id = id then what node else old) = some value ↔
      ∃ other, Among (node :: nodes) other ∧ other.id = id ∧ what other = some value := by
  simp only [among_cons, real, ne_eq, not_false_eq_true, and_true]
  split
  next hid =>
    constructor
    · intro h
      exact ⟨node, .inl rfl, hid, h⟩
    · rintro ⟨other, rfl | ho, hoid, h⟩
      · exact h
      · exact absurd (List.mem_map.mpr ⟨other, ho.1, hoid.trans hid.symm⟩) new
  next hid =>
    rw [hold]
    constructor
    · rintro ⟨other, ho, h⟩
      exact ⟨other, .inr ho, h⟩
    · rintro ⟨other, rfl | ho, hoid, h⟩
      · exact absurd hoid hid
      · exact ⟨other, ho, hoid, h⟩

theorem RecallsNodes.entries_add (h : RecallsNodes hashes nodes book) (real : node.kind ≠ .unknown)
    (new : node.id ∉ nodes.map (·.id)) (id : NodeId) (entry : IndexEntry) :
    (book.index.add node).entries[id]? = some entry ↔
      ∃ other, Among (node :: nodes) other ∧ other.id = id ∧ .ofNode other = entry := by
  have hold : book.index.entries[id]? = some entry ↔
      ∃ other, Among nodes other ∧ other.id = id ∧ some (IndexEntry.ofNode other) = some entry := by
    simpa using h.entries id entry
  rw [NameIndex.entries_add real, found_cons (fun n => some (IndexEntry.ofNode n)) real new hold]
  simp

theorem RecallsNodes.unowned (h : RecallsNodes hashes nodes book)
    (new : node.id ∉ nodes.map (·.id)) : book.nodeUnit[node.id]? = none := by
  cases hu : book.nodeUnit[node.id]? with
  | none => rfl
  | some path =>
    obtain ⟨other, ho, hid, -⟩ := (h.nodeUnit _ path).mp hu
    exact absurd (List.mem_map.mpr ⟨other, ho.1, hid⟩) new

theorem RecallsNodes.shared (h : RecallsNodes hashes nodes book)
    (coherent : Coherent hashes (node :: nodes)) (real : node.kind ≠ .unknown)
    (hu : node.unit? = none) : RecallsNodes hashes (node :: nodes) (book.recallNode node) := by
  have new : node.id ∉ nodes.map (·.id) := (List.nodup_cons.mp coherent.nodup).1
  rw [recallNode_shared book real hu]
  constructor
  case entries => exact h.entries_add real new
  case faithful => exact h.faithful.add real (h.free coherent)
  case nodeUnit =>
    intro id path
    rw [← found_cons Node.unit? real new (h.nodeUnit id path), hu]
    split
    next hid => simp [← hid, h.unowned new]
    next => rfl
  case owns => exact h.owns
  case inhabited => exact h.inhabited
  case edges => exact h.edges
  case hash =>
    intro path unit hunit other ho hpath hhash
    rcases among_cons.mp ho with ⟨rfl, -⟩ | ho
    · rw [hu] at hpath
      simp at hpath
    · exact h.hash path unit hunit other ho hpath hhash
  case pending => exact h.pending

theorem RecallsNodes.owned (h : RecallsNodes hashes nodes book)
    (coherent : Coherent hashes (node :: nodes)) (real : node.kind ≠ .unknown) {path : String}
    (hu : node.unit? = some path) :
    RecallsNodes hashes (node :: nodes) (book.recallNode node) := by
  have new : node.id ∉ nodes.map (·.id) := (List.nodup_cons.mp coherent.nodup).1
  have howns := owns_recallNode book real hu
  rw [recallNode_owned book real hu] at howns ⊢
  constructor
  case entries => exact h.entries_add real new
  case faithful => exact h.faithful.add real (h.free coherent)
  case nodeUnit =>
    intro id p
    rw [← found_cons Node.unit? real new (h.nodeUnit id p), hu]
    simp [ExtTreeMap.getElem?_insert]
  case owns =>
    intro p id
    rw [howns, h.owns, ExtTreeMap.getElem?_insert]
    by_cases hid : node.id = id
    · subst hid
      simp [h.unowned new]
    · simp [hid]
  case inhabited =>
    intro p unit hunit
    simp only [ExtTreeMap.getElem?_insert, LawfulEqCmp.compare_eq_iff_eq] at hunit
    split at hunit
    · cases hunit
      exact ⟨node.id, ExtTreeSet.mem_insert_self⟩
    · exact h.inhabited p unit hunit
  case edges =>
    intro p unit hunit
    simp only [ExtTreeMap.getElem?_insert, LawfulEqCmp.compare_eq_iff_eq] at hunit
    split at hunit
    · cases hunit
      cases hold : book.units[path]? with
      | none => rfl
      | some old => exact h.edges path old hold
    · exact h.edges p unit hunit
  case hash =>
    intro p unit hunit other ho hpath hhash
    simp only [ExtTreeMap.getElem?_insert, LawfulEqCmp.compare_eq_iff_eq] at hunit
    split at hunit
    next hp =>
      subst hp
      cases hunit
      cases htext : node.props.text? "content_hash" with
      | some text =>
        rw [coherent.hashes node List.mem_cons_self path text hu htext]
        simp [hashOfHex?_toHex]
      | none =>
        -- The node says nothing, so the hash is that of an earlier one.
        rcases among_cons.mp ho with ⟨rfl, -⟩ | ho
        · rw [htext] at hhash
          simp at hhash
        · have howns : book.Owns path other.id :=
            (h.owns _ _).mpr ((h.nodeUnit _ _).mpr ⟨other, ho, rfl, hpath⟩)
          obtain ⟨old, hold, -⟩ := howns
          have heq := h.hash path old hold other ho hpath hhash
          simpa [hold] using heq
    next hp =>
      rcases among_cons.mp ho with ⟨rfl, -⟩ | ho
      · rw [hu] at hpath
        exact absurd (Option.some.inj hpath) hp
      · exact h.hash p unit hunit other ho hpath hhash
  case pending => exact h.pending

theorem RecallsNodes.cons (h : RecallsNodes hashes nodes book)
    (coherent : Coherent hashes (node :: nodes)) :
    RecallsNodes hashes (node :: nodes) (book.recallNode node) := by
  by_cases real : node.kind = .unknown
  · have hsame : ∀ other, Among (node :: nodes) other ↔ Among nodes other := fun other => by
      simp [among_cons, real]
    rw [recallNode_unknown book real]
    constructor
    case entries => simpa only [hsame] using h.entries
    case nodeUnit => simpa only [hsame] using h.nodeUnit
    case hash => simpa only [hsame] using h.hash
    case faithful => exact h.faithful
    case owns => exact h.owns
    case inhabited => exact h.inhabited
    case edges => exact h.edges
    case pending => exact h.pending
  · cases hu : node.unit? with
    | none => exact h.shared coherent real hu
    | some path => exact h.owned coherent real hu

/-- Reading nodes one after another recalls them all. -/
theorem RecallsNodes.foldl {rest done : List Node} (h : RecallsNodes hashes done book)
    (coherent : Coherent hashes (rest ++ done)) :
    RecallsNodes hashes (rest.reverse ++ done) (rest.foldl recallNode book) := by
  induction rest generalizing book done with
  | nil => exact h
  | cons node rest ih =>
    have hnext : Coherent hashes (rest ++ node :: done) := coherent.perm List.perm_middle.symm
    have hcons : Coherent hashes (node :: done) := hnext.sublist (List.sublist_append_right _ _)
    rw [List.foldl_cons, List.reverse_cons, List.append_assoc]
    exact ih (h.cons hcons) hnext

end Step

/-! ## Edges -/

/-- The reference that an edge to a placeholder gives back. -/
def recallRef? (kinds : NodeId → Option NodeKind) (moduleOf : NodeId → Option NodeId) (edge : Edge) :
    Option Reference := do
  let (gone, owner) ← placeholderEnd? edge
  Reference.ofEdge? edge gone (kinds owner) gone.text moduleOf

theorem unit?_of_recallRef? {kinds : NodeId → Option NodeKind} {moduleOf : NodeId → Option NodeId}
    {edge : Edge} {r : Reference} (h : recallRef? kinds moduleOf edge = some r) :
    edge.unit? = some r.unit := by
  obtain ⟨⟨gone, owner⟩, -, h⟩ := Option.bind_eq_some_iff.mp h
  obtain ⟨⟨owner, kind⟩, -, h⟩ := Option.bind_eq_some_iff.mp h
  obtain ⟨unit, hu, h⟩ := Option.bind_eq_some_iff.mp h
  cases h
  exact hu

theorem recallEdge_eq (kinds : NodeId → Option NodeKind) (book : Bookkeeping) {edge : Edge}
    {path : String} (hu : edge.unit? = some path) :
    book.recallEdge kinds edge =
      { book.addEdge path edge.key with
        pending := (recallRef? kinds book.index.moduleOf? edge).elim book.pending book.pending.insert } := by
  unfold recallEdge
  rw [hu]
  change (recallRef? kinds book.index.moduleOf? edge).elim _ _ = _
  cases recallRef? kinds book.index.moduleOf? edge <;> rfl

/-- What some edges give back, beside what the nodes have given. -/
structure RecallsEdges (kinds : NodeId → Option NodeKind) (base : Bookkeeping) (edges : List Edge)
    (book : Bookkeeping) : Prop where
  same : book.SameNodes base
  holds : ∀ path k, book.Holds path k ↔ base.units.contains path = true ∧
    ∃ edge ∈ edges, edge.unit? = some path ∧ edge.key = k
  pending : ∀ (key : PendingKey) r, book.pending.waiting[key]? = some r ↔
    ∃ edge ∈ edges, recallRef? kinds base.index.moduleOf? edge = some r ∧ PendingQueue.keyOf r = key

section EdgeStep

variable {kinds : NodeId → Option NodeKind} {base book : Bookkeeping} {edge : Edge}
  {edges : List Edge}

theorem RecallsNodes.recallsEdges {hashes : String → ContentHash} {nodes : List Node}
    (h : RecallsNodes hashes nodes base) : RecallsEdges kinds base [] base where
  same := .refl base
  holds path k := by
    simp only [List.not_mem_nil, false_and, exists_false, and_false, iff_false]
    rintro ⟨unit, hunit, hk⟩
    rw [h.edges path unit hunit] at hk
    exact ExtTreeSet.not_mem_empty hk
  pending key r := by simp [h.pending]

/-- An edge of a unit that gives back no reference other than those its key allows. -/
theorem RecallsEdges.cons (h : RecallsEdges kinds base edges book)
    (agree : ∀ a ∈ edge :: edges, ∀ b ∈ edge :: edges, ∀ r s,
      recallRef? kinds base.index.moduleOf? a = some r →
      recallRef? kinds base.index.moduleOf? b = some s →
      PendingQueue.keyOf r = PendingQueue.keyOf s → r = s) :
    RecallsEdges kinds base (edge :: edges) (book.recallEdge kinds edge) := by
  cases hu : edge.unit? with
  | none =>
    have hskip : book.recallEdge kinds edge = book := by simp [recallEdge, hu]
    have hnone : recallRef? kinds base.index.moduleOf? edge = none := by
      cases hr : recallRef? kinds base.index.moduleOf? edge with
      | none => rfl
      | some r =>
        rw [unit?_of_recallRef? hr] at hu
        simp at hu
    rw [hskip]
    refine ⟨h.same, fun path k => ?_, fun key r => ?_⟩
    · rw [h.holds]
      simp [hu]
    · rw [h.pending]
      simp [hnone]
  | some path =>
    have hsame := (sameNodes_addEdge book path edge.key).trans h.same
    rw [recallEdge_eq kinds book hu]
    refine ⟨⟨hsame.index, hsame.nodeUnit, hsame.units⟩, fun p k => ?_, fun key r => ?_⟩
    · have hadd := holds_addEdge book path p edge.key k
      rw [h.holds, h.same.contains] at hadd
      refine Iff.trans hadd ?_
      simp only [List.mem_cons, exists_eq_or_imp, hu, Option.some.injEq]
      constructor
      · rintro (⟨hc, he⟩ | ⟨hp, hk, hc⟩)
        · exact ⟨hc, .inr he⟩
        · exact ⟨hc, .inl ⟨hp, hk⟩⟩
      · rintro ⟨hc, ⟨hp, hk⟩ | he⟩
        · exact .inr ⟨hp, hk, hc⟩
        · exact .inl ⟨hc, he⟩
    · rw [h.same.index]
      have hold := h.pending key
      cases hr : recallRef? kinds base.index.moduleOf? edge with
      | none => simpa [hr] using hold r
      | some s =>
        rw [Option.elim_some, PendingQueue.waiting_insert_iff, hold]
        simp only [List.mem_cons, exists_eq_or_imp, hr, Option.some.injEq]
        constructor
        · rintro (he | ⟨-, hkey, rfl⟩)
          · exact .inr he
          · exact .inl ⟨rfl, hkey⟩
        · rintro (⟨rfl, hkey⟩ | he)
          · -- Whatever waits under the key already is the same reference.
            cases hwait : book.pending.waiting[key]? with
            | none => exact .inr ⟨rfl, hkey, rfl⟩
            | some w =>
              obtain ⟨e, he, hrec, hk⟩ := (hold w).mp hwait
              obtain rfl := agree e (List.mem_cons_of_mem edge he) edge List.mem_cons_self w s hrec hr
                (hk.trans hkey.symm)
              exact .inl ⟨e, he, hrec, hk⟩
          · exact .inl he

theorem RecallsEdges.foldl {rest done all : List Edge} (h : RecallsEdges kinds base done book)
    (agree : ∀ a ∈ all, ∀ b ∈ all, ∀ r s, recallRef? kinds base.index.moduleOf? a = some r →
      recallRef? kinds base.index.moduleOf? b = some s →
      PendingQueue.keyOf r = PendingQueue.keyOf s → r = s)
    (hrest : rest ⊆ all) (hdone : done ⊆ all) :
    RecallsEdges kinds base (rest.reverse ++ done) (rest.foldl (recallEdge kinds) book) := by
  induction rest generalizing book done with
  | nil => exact h
  | cons edge rest ih =>
    have hedge : edge :: done ⊆ all :=
      List.cons_subset.mpr ⟨hrest List.mem_cons_self, hdone⟩
    rw [List.foldl_cons, List.reverse_cons, List.append_assoc]
    refine ih (h.cons fun a ha b hb => agree a (hedge ha) b (hedge hb)) ?_ hedge
    exact fun e he => hrest (List.mem_cons_of_mem edge he)

end EdgeStep

/-! ## The graph of a history -/

/-- The lines of waiting references fit into an edge. -/
def Fits (book : Bookkeeping) : Prop :=
  ∀ (key : PendingKey) r, book.pending.waiting[key]? = some r → ∀ line, r.line = some line →
    line < UInt32.size

theorem placeholderEnd?_placeholderEdge {r : Reference} (h : r.owner.isPlaceholder = false) :
    placeholderEnd? r.placeholderEdge = some (r.placeholderId, r.owner) := by
  have hid := r.isPlaceholder_placeholderId
  unfold placeholderEnd? Reference.placeholderEdge Reference.edgeTo Reference.keyTo
  cases r.kind <;> simp [h, hid]

section Recall

variable {book : Bookkeeping} {g : PropertyGraph} {kinds : NodeId → Option NodeKind}

/-- The edge of a waiting reference gives it back. -/
theorem Mirrors.recallRef?_waiting (m : book.Mirrors g) (fits : book.Fits) {key : PendingKey}
    {r : Reference} (hw : book.pending.waiting[key]? = some r)
    (hkinds : kinds r.owner = book.index.kind? r.owner) :
    recallRef? kinds book.index.moduleOf? r.placeholderEdge = some r := by
  have hown := (m.waiting key r hw).1
  have hend := placeholderEnd?_placeholderEdge (hown.isPlaceholder_owner m.unreserved)
  have hedge : r.placeholderEdge = r.edgeTo r.placeholderId .unknown := rfl
  simp only [recallRef?, hend, Option.bind_eq_bind, Option.bind_some]
  rw [hedge, Reference.ofEdge?_edgeTo _ _ _ (hown.owner_ne_placeholder m.unreserved r)
    (hkinds ▸ hown.fitsOwner)]
  exact congrArg some (Reference.recalled_eq_self (fits key r hw) hown.context)

/-- An edge gives back the reference that waits for it, and no other. -/
theorem Mirrors.recallRef?_iff (m : book.Mirrors g) (fits : book.Fits)
    (hkinds : ∀ id kind, book.index.kind? id = some kind → kinds id = some kind) {k : EdgeKey}
    {edge : Edge} (he : g.edges[k]? = some edge) {r : Reference} :
    recallRef? kinds book.index.moduleOf? edge = some r ↔
      edge = r.placeholderEdge ∧ book.pending.waiting[PendingQueue.keyOf r]? = some r := by
  have hback : ∀ s, book.pending.waiting[PendingQueue.keyOf s]? = some s →
      recallRef? kinds book.index.moduleOf? s.placeholderEdge = some s := by
    intro s hs
    obtain ⟨kind, hk, -⟩ := (m.waiting _ s hs).1.kind
    exact m.recallRef?_waiting fits hs ((hkinds _ _ hk).trans hk.symm)
  constructor
  · intro h
    have hopen : edge.key.isOpen = true := by
      obtain ⟨ends, hends, -⟩ := Option.bind_eq_some_iff.mp h
      unfold placeholderEnd? at hends
      unfold EdgeKey.isOpen Edge.key
      cases ht : edge.target.isPlaceholder <;> cases hs : edge.source.isPlaceholder <;>
        simp [ht, hs] at hends ⊢
    obtain ⟨s, rfl, hs⟩ := m.waiting_of_open he hopen
    rw [hback s hs] at h
    cases h
    exact ⟨rfl, hs⟩
  · rintro ⟨rfl, hs⟩
    exact hback r hs

end Recall

namespace Describes

variable {markers : List String} {units : ParsedUnit → Prop} {T : Contents} {book : Bookkeeping}
  {g : PropertyGraph}

/-- The hash of the unit at a path. -/
def hashAt (T : Contents) (path : String) : ContentHash := ((T path).map (·.unit.hash)).getD ⟨0⟩

theorem noClash (d : Describes markers units T book g) {id id' : NodeId} {a b : Node}
    (ha : g.nodes[id]? = some a) (hb : g.nodes[id']? = some b) (hne : id ≠ id') :
    Draft.NoClash a b := by
  by_cases hreal : a.kind ≠ .unknown ∧ b.kind ≠ .unknown
  · have hea := d.mirrors.entry_of_node ha hreal.1
    have heb := d.mirrors.entry_of_node hb hreal.2
    constructor
    · intro name hna hnb
      have hla := d.faithful.locals_of name id (by rw [NameIndex.declOf?, hea]; exact hna)
      rw [d.faithful.locals_of name id' (by rw [NameIndex.declOf?, heb]; exact hnb)] at hla
      exact hne (Option.some.inj hla).symm
    · intro name hna hnb
      have hla := d.faithful.commons_of name id (by rw [NameIndex.commonOf?, hea]; exact hna)
      rw [d.faithful.commons_of name id' (by rw [NameIndex.commonOf?, heb]; exact hnb)] at hla
      exact hne (Option.some.inj hla).symm
    · intro name hna hnb
      have hla := d.faithful.objects_of name id (by rw [NameIndex.objectOf?, hea]; exact hna)
      rw [d.faithful.objects_of name id' (by rw [NameIndex.objectOf?, heb]; exact hnb)] at hla
      exact hne (Option.some.inj hla).symm
  · -- A placeholder has no names.
    rw [not_and_or, not_not, not_not] at hreal
    rcases hreal with hk | hk <;> constructor <;> simp [NameIndex.ofNode_of_unknown hk]

theorem coherent (d : Describes markers units T book g) : Coherent (hashAt T) g.nodes.values where
  nodup := by
    rw [Maps.map_values d.mirrors.node_id]
    exact ExtTreeMap.nodup_keys
  apart a ha b hb hne := by
    obtain ⟨id, hga⟩ := (Maps.mem_values _ _).mp ha
    obtain ⟨id', hgb⟩ := (Maps.mem_values _ _).mp hb
    refine d.noClash hga hgb fun he => hne ?_
    rw [d.mirrors.node_id id a hga, d.mirrors.node_id id' b hgb, he]
  hashes node hn path text hu htext := by
    obtain ⟨id, hg⟩ := (Maps.mem_values _ _).mp hn
    obtain ⟨p, hp, hf, -⟩ := (d.nodes id node path).mp ⟨hg, hu⟩
    rw [(Fragment.wellFormed_build markers p).hashes node hf text htext, hashAt, hp]
    rfl

end Describes

/-- The kinds of nodes as they are read from the graph. -/
theorem kinds_get {g : PropertyGraph} (hid : ∀ (id : NodeId) node, g.nodes[id]? = some node → node.id = id)
    (id : NodeId) :
    (g.nodes.values.foldl (fun m node => m.insert node.id node.kind)
      (∅ : ExtTreeMap NodeId NodeKind))[id]? = g.nodes[id]?.map (·.kind) := by
  rw [Maps.get_foldl_insert_map (fun node : Node => node.id) (·.kind) _ ∅ ∅ id (by simp),
    Maps.get_foldl_insert_values _ _ _ hid]
  simp

theorem eq_of_parts {a b : Bookkeeping} (units : a.units = b.units) (index : a.index = b.index)
    (pending : a.pending = b.pending) (nodeUnit : a.nodeUnit = b.nodeUnit) : a = b := by
  cases a
  cases b
  simp_all

namespace Describes

variable {markers : List String} {units : ParsedUnit → Prop} {T : Contents} {book : Bookkeeping}
  {g : PropertyGraph}

theorem among_values {node : Node} :
    Among (g.nodes.values.reverse ++ []) node ↔ (∃ id : NodeId, g.nodes[id]? = some node) ∧
      node.kind ≠ .unknown := by
  rw [Among, List.append_nil, List.mem_reverse, Maps.mem_values]

theorem recallsNodes (d : Describes markers units T book g) :
    RecallsNodes (hashAt T) (g.nodes.values.reverse ++ []) (g.nodes.values.foldl recallNode {}) := by
  refine (recallsNodes_nil _).foldl ?_
  rw [List.append_nil]
  exact d.coherent

/-- The nodes give back the index. -/
theorem index_recalled (d : Describes markers units T book g) :
    (g.nodes.values.foldl recallNode {}).index = book.index := by
  refine d.recallsNodes.faithful.eq_of_entries d.faithful (ExtTreeMap.ext_getElem? fun id => ?_)
  ext entry
  rw [d.recallsNodes.entries]
  constructor
  · rintro ⟨node, hamong, hid, rfl⟩
    obtain ⟨⟨id', hn⟩, hreal⟩ := among_values.mp hamong
    rw [← hid, d.mirrors.node_id id' node hn]
    exact d.mirrors.entry_of_node hn hreal
  · intro he
    obtain ⟨node, hn, hreal, rfl⟩ := d.mirrors.node_of_entry he
    exact ⟨node, among_values.mpr ⟨⟨id, hn⟩, hreal⟩, d.mirrors.node_id id node hn, rfl⟩

/-- The nodes give back their owners. -/
theorem nodeUnit_recalled (d : Describes markers units T book g) :
    (g.nodes.values.foldl recallNode {}).nodeUnit = book.nodeUnit := by
  refine ExtTreeMap.ext_getElem? fun id => ?_
  ext path
  rw [d.recallsNodes.nodeUnit, d.mirrors.nodeUnit, Option.bind_eq_some_iff]
  constructor
  · rintro ⟨node, hamong, hid, hu⟩
    obtain ⟨⟨id', hn⟩, -⟩ := among_values.mp hamong
    rw [d.mirrors.node_id id' node hn] at hid
    exact ⟨node, hid ▸ hn, hu⟩
  · rintro ⟨node, hn, hu⟩
    obtain ⟨p, -, hf, hid⟩ := (d.nodes id node path).mp ⟨hn, hu⟩
    exact ⟨node, among_values.mpr ⟨⟨id, hn⟩,
      ((Fragment.wellFormed_build markers p).owned node hf).real⟩, hid, hu⟩

theorem owns_recalled (d : Describes markers units T book g) (path : String) (id : NodeId) :
    (g.nodes.values.foldl recallNode {}).Owns path id ↔ book.Owns path id := by
  rw [d.recallsNodes.owns, d.nodeUnit_recalled, d.mirrors.owns]

/-- A unit that is remembered has a node, and this node holds its hash. -/
theorem head_of_unit (d : Describes markers units T book g) {path : String} {unit : UnitState}
    (h : book.units[path]? = some unit) :
    unit.hash = hashAt T path ∧ ∃ node, Among (g.nodes.values.reverse ++ []) node ∧
      node.unit? = some path ∧ (node.props.text? "content_hash").isSome = true ∧
      book.Owns path node.id := by
  have hhash := d.hashes path
  rw [h, Option.map_some] at hhash
  obtain ⟨p, hp, hph⟩ := Option.map_eq_some_iff.mp hhash.symm
  obtain ⟨node, hf, heads⟩ := (Fragment.wellFormed_build markers p).headed
  obtain ⟨hn, hu⟩ := d.nodeUnit_of_put hp hf
  refine ⟨by simp [hashAt, hp, hph], node, among_values.mpr ⟨⟨_, hn⟩, heads.toOwned.real⟩, ?_, ?_,
    (d.mirrors.owns _ _).mpr hu⟩
  · rw [heads.toOwned.unit, (d.known path p hp).2]
  · simp [heads.hash]

theorem contains_recalled (d : Describes markers units T book g) (path : String) :
    (g.nodes.values.foldl recallNode {}).units.contains path = book.units.contains path := by
  rw [Bool.eq_iff_iff, Maps.contains_iff, Maps.contains_iff]
  constructor
  · rintro ⟨unit, hunit⟩
    obtain ⟨id, hid⟩ := d.recallsNodes.inhabited path unit hunit
    obtain ⟨old, hold, -⟩ := (d.owns_recalled path id).mp ⟨unit, hunit, hid⟩
    exact ⟨old, hold⟩
  · rintro ⟨unit, hunit⟩
    obtain ⟨-, node, -, -, -, howns⟩ := d.head_of_unit hunit
    obtain ⟨new, hnew, -⟩ := (d.owns_recalled path _).mpr howns
    exact ⟨new, hnew⟩

/-- The kinds that are read from the graph. -/
def kindsOf (g : PropertyGraph) (id : NodeId) : Option NodeKind :=
  (g.nodes.values.foldl (fun m node => m.insert node.id node.kind) (∅ : ExtTreeMap NodeId NodeKind))[id]?

theorem kindsOf_of_kind? (d : Describes markers units T book g) {id : NodeId} {kind : NodeKind}
    (h : book.index.kind? id = some kind) : kindsOf g id = some kind := by
  obtain ⟨node, hn, rfl⟩ := d.mirrors.node_of_kind? h
  rw [kindsOf, kinds_get d.mirrors.node_id, hn]
  rfl

theorem recallRef?_iff (d : Describes markers units T book g) (fits : book.Fits) {edge : Edge}
    (he : edge ∈ g.edges.values) {r : Reference} :
    recallRef? (kindsOf g) (g.nodes.values.foldl recallNode {}).index.moduleOf? edge = some r ↔
      edge = r.placeholderEdge ∧ book.pending.waiting[PendingQueue.keyOf r]? = some r := by
  obtain ⟨k, hk⟩ := (Maps.mem_values _ _).mp he
  rw [d.index_recalled]
  exact d.mirrors.recallRef?_iff fits (fun id kind h => d.kindsOf_of_kind? h) hk

theorem recallsEdges (d : Describes markers units T book g) (fits : book.Fits) :
    RecallsEdges (kindsOf g) (g.nodes.values.foldl recallNode {}) (g.edges.values.reverse ++ [])
      (ofGraph g.nodes.values g.edges.values) := by
  refine d.recallsNodes.recallsEdges.foldl ?_ (List.Subset.refl _) (List.nil_subset _)
  intro a ha b hb r s hr hs hkey
  obtain ⟨-, hwr⟩ := (d.recallRef?_iff fits ha).mp hr
  obtain ⟨-, hws⟩ := (d.recallRef?_iff fits hb).mp hs
  rw [hkey, hws] at hwr
  exact (Option.some.inj hwr).symm

theorem pending_recalled (d : Describes markers units T book g) (fits : book.Fits) :
    (ofGraph g.nodes.values g.edges.values).pending = book.pending := by
  have hwaiting : (ofGraph g.nodes.values g.edges.values).pending.waiting = book.pending.waiting := by
    refine ExtTreeMap.ext_getElem? fun key => ?_
    ext r
    rw [(d.recallsEdges fits).pending]
    constructor
    · rintro ⟨edge, he, hr, rfl⟩
      rw [List.append_nil, List.mem_reverse] at he
      exact ((d.recallRef?_iff fits he).mp hr).2
    · intro hw
      have hkey := d.mirrors.keyed key r hw
      subst hkey
      have he : r.placeholderEdge ∈ g.edges.values :=
        (Maps.mem_values _ _).mpr ⟨_, (d.mirrors.waiting _ r hw).2.1⟩
      refine ⟨r.placeholderEdge, ?_, (d.recallRef?_iff fits he).mpr ⟨rfl, hw⟩, rfl⟩
      rwa [List.append_nil, List.mem_reverse]
  cases hq : (ofGraph g.nodes.values g.edges.values).pending
  cases hb : book.pending
  simp_all

theorem holds_recalled (d : Describes markers units T book g) (fits : book.Fits) {path : String}
    (hpath : book.units.contains path = true) (k : EdgeKey) :
    (ofGraph g.nodes.values g.edges.values).Holds path k ↔ book.Holds path k := by
  rw [(d.recallsEdges fits).holds, d.contains_recalled, and_iff_right hpath, d.mirrors.holds]
  constructor
  · rintro ⟨edge, he, hu, rfl⟩
    rw [List.append_nil, List.mem_reverse] at he
    obtain ⟨k, hk⟩ := (Maps.mem_values _ _).mp he
    rw [d.mirrors.edge_key k edge hk]
    exact ⟨edge, hk, hu⟩
  · rintro ⟨edge, hk, hu⟩
    refine ⟨edge, ?_, hu, d.mirrors.edge_key k edge hk⟩
    rw [List.append_nil, List.mem_reverse]
    exact (Maps.mem_values _ _).mpr ⟨k, hk⟩

/-- Nodes and edges together give back the units. -/
theorem units_recalled (d : Describes markers units T book g) (fits : book.Fits) :
    (ofGraph g.nodes.values g.edges.values).units = book.units := by
  have same := (d.recallsEdges fits).same
  have howns : ∀ path id, (ofGraph g.nodes.values g.edges.values).Owns path id ↔ book.Owns path id :=
    fun path id => (same.owns path id).trans (d.owns_recalled path id)
  have hcontains : ∀ path : String, (ofGraph g.nodes.values g.edges.values).units.contains path =
      book.units.contains path := fun path => (same.contains path).trans (d.contains_recalled path)
  refine ExtTreeMap.ext_getElem? fun path => ?_
  have hpath := hcontains path
  cases hnew : (ofGraph g.nodes.values g.edges.values).units[path]? with
  | none =>
    rw [(Maps.contains_eq_false_iff _ _).mpr hnew] at hpath
    exact ((Maps.contains_eq_false_iff _ _).mp hpath.symm).symm
  | some new =>
    have hknown : book.units.contains path = true := by
      rw [← hpath]
      exact (Maps.contains_iff _ _).mpr ⟨new, hnew⟩
    obtain ⟨old, hold⟩ := (Maps.contains_iff _ _).mp hknown
    rw [hold]
    have hnodes : new.nodes = old.nodes := by
      refine ExtTreeSet.ext_mem fun id => ?_
      have h := howns path id
      simpa [Owns, hnew, hold] using h
    have hedges : new.edges = old.edges := by
      refine ExtTreeSet.ext_mem fun k => ?_
      have h := d.holds_recalled fits hknown k
      simpa [Holds, hnew, hold] using h
    have hhash : new.hash = old.hash := by
      obtain ⟨hhash, node, hamong, hu, htext, -⟩ := d.head_of_unit hold
      have hsame := same.units path
      rw [hnew] at hsame
      obtain ⟨first, hfirst, heq⟩ := Option.map_eq_some_iff.mp hsame.symm
      have hf : first.hash = new.hash := congrArg Prod.fst heq
      rw [hhash, ← hf]
      exact d.recallsNodes.hash path first hfirst node hamong hu htext
    cases new
    cases old
    simp_all

/-- **The graph gives back the bookkeeping.** -/
theorem ofGraph_eq (d : Describes markers units T book g) (fits : book.Fits) :
    ofGraph g.nodes.values g.edges.values = book := by
  have same := (d.recallsEdges fits).same
  exact eq_of_parts (d.units_recalled fits) (same.index.trans d.index_recalled)
    (d.pending_recalled fits) (same.nodeUnit.trans d.nodeUnit_recalled)

end Describes

end Bookkeeping

/-! ## Lines -/

theorem Reference.line_fitted (r : Reference) {line : Nat} (h : r.fitted.line = some line) :
    line < UInt32.size := by
  obtain ⟨-, hfits⟩ := Option.filter_eq_some_iff.mp h
  exact of_decide_eq_true hfits

/-- Units whose lines are 32-bit words. -/
def LinesFit (units : ParsedUnit → Prop) : Prop :=
  ∀ p, units p → (∀ call ∈ p.outline.calls, call.line < UInt32.size) ∧
    ∀ mention ∈ p.outline.mentions, mention.line < UInt32.size

/-- The references of a fragment have the lines of calls and mentions. -/
theorem Fragment.line_refs {markers : List String} {p : ParsedUnit} {r : Reference}
    (h : r ∈ (build markers p).refs) {line : Nat} (hline : r.line = some line) :
    (∃ call ∈ p.outline.calls, call.line = line) ∨ ∃ mention ∈ p.outline.mentions, mention.line = line := by
  unfold build at h
  cases hk : p.unit.kind with
  | configurationRoot =>
    rw [hk] at h
    obtain ⟨child, -, rfl⟩ := List.mem_map.mp h
    simp at hline
  | metadataDescriptor =>
    rw [hk] at h
    obtain ⟨ref, -, rfl⟩ := List.mem_map.mp h
    simp at hline
  | sourceModule =>
    rw [hk] at h
    rcases List.mem_append.mp h with h | h
    · rcases List.mem_append.mp h with h | h
      · obtain ⟨owner, -, rfl⟩ := List.mem_map.mp h
        simp at hline
      · obtain ⟨call, hc, rfl⟩ := List.mem_map.mp h
        exact .inl ⟨call, hc, Option.some.inj hline⟩
    · obtain ⟨mention, hm, rfl⟩ := List.mem_map.mp h
      exact .inr ⟨mention, hm, Option.some.inj hline⟩

theorem LinesFit.refs {markers : List String} {units : ParsedUnit → Prop} (h : LinesFit units)
    {p : ParsedUnit} (hp : units p) {r : Reference} (hr : r ∈ (Fragment.build markers p).refs)
    {line : Nat} (hline : r.line = some line) : line < UInt32.size := by
  rcases Fragment.line_refs hr hline with ⟨call, hc, rfl⟩ | ⟨mention, hm, rfl⟩
  · exact (h p hp).1 call hc
  · exact (h p hp).2 mention hm

theorem Bookkeeping.Planned.fits {markers : List String} {units : ParsedUnit → Prop}
    {book : Bookkeeping} {g : PropertyGraph} {changes : List UnitChange} {puts : List ParsedUnit}
    (c : Planned markers book g changes puts) (hlines : LinesFit units)
    (hunits : ∀ p, .put p ∈ changes → units p) (fits : book.Fits) :
    (book.draftOn g markers changes).book.Fits := by
  intro key r hw line hline
  rcases c.waiting_iff.mp hw with ⟨hold, -⟩ | hfind
  · exact fits key r hold line hline
  · have hfresh := (mem_unresolved.mp (List.mem_of_find?_eq_some hfind)).1
    rcases List.mem_append.mp hfresh with hr | hr
    · obtain ⟨-, p, hp, hf⟩ := c.adds.refs r hr
      exact hlines.refs (hunits p ((c.mem_puts p).mp hp)) hf hline
    · obtain ⟨o, ho, rfl⟩ := List.mem_map.mp hr
      obtain ⟨edge, s, target, kind, h⟩ := c.mem_reopened.mp ho
      rw [h.eq] at hline
      exact s.line_fitted hline

namespace Builder

variable {markers : List String} {policy : RetryPolicy} {units : ParsedUnit → Prop} {b : Builder}
  {g : PropertyGraph}

theorem Reached.fits (unreserved : Unreserved markers units) (hlines : LinesFit units)
    (h : Reached markers policy units b g) : b.book.Fits := by
  refine (Reached.induct (P := fun book g => book.Mirrors g ∧ book.Fits)
    ⟨Bookkeeping.mirrors_empty, fun key r hw => by simp at hw⟩ ?_ h).1.2
  rintro book g g' changes ⟨m, fits⟩ hnodup hunits hw
  obtain ⟨puts, c⟩ := m.planned (unreserved.changes hnodup hunits)
  exact ⟨c.mirrors_written hw, c.fits hlines hunits fits⟩

/-! ## The builder that goes on -/

/-- A builder that goes on from the graph is the one that wrote it. -/
theorem resume_eq (hd : Distinct markers units) (hlines : LinesFit units)
    (h : Reached markers policy units b g) : Builder.resume markers policy g = (.ok b, g) := by
  obtain ⟨T, d⟩ := h.described hd
  have hbook := d.ofGraph_eq (h.fits hd.unreserved hlines)
  obtain ⟨hmarkers, hpolicy⟩ := h.settings
  have hfind : g.find none {} = g.nodes.values := by
    simp [PropertyGraph.find, NodeFilter.accepts]
  have hrun : Builder.resume markers policy g =
      (.ok { markers, policy, book := .ofGraph (g.find none {}) g.edges.values }, g) := rfl
  rw [hrun, hfind, hbook, ← hmarkers, ← hpolicy]

/-- **Resuming is faithful.** After any history of calls that succeed, over units that claim different
ids and names, a builder that reads its bookkeeping back from the graph knows the same units and the
same unresolved names as the live one, and to all further calls it gives the same answers and leaves
the same graphs. -/
theorem resume_faithful (hd : Distinct markers units) (hlines : LinesFit units)
    (h : Reached markers policy units b g) :
    ∃ b', Builder.resume markers policy g = (.ok b', g) ∧ b'.unitHashes = b.unitHashes ∧
      b'.unresolved = b.unresolved ∧ ∀ calls, b'.answers g calls = b.answers g calls :=
  ⟨b, resume_eq hd hlines h, rfl, rfl, fun _ => rfl⟩

/-- A module that calls what nothing declares. -/
def waitingUnit : ParsedUnit := sampleUnit "u.bsl" "f" 1 ["g"]

def waitingStart : Builder × PropertyGraph :=
  after { markers := [] } (Builder.ingest { markers := [] } [waitingUnit] {})

theorem resume_faithful_sample :
    waitingStart.1.unresolved = [⟨⟨"unknown::g"⟩, "g", 1⟩] ∧
    ∃ b', Builder.resume [] {} waitingStart.2 = (.ok b', waitingStart.2) ∧
      b'.unitHashes = waitingStart.1.unitHashes ∧ b'.unresolved = waitingStart.1.unresolved ∧
      ∀ calls, b'.answers waitingStart.2 calls = waitingStart.1.answers waitingStart.2 calls := by
  have hok : (Builder.ingest { markers := [] } [waitingUnit] ({} : PropertyGraph)).1.isOk = true := by
    decide +kernel
  obtain ⟨δ, hrun⟩ := after_of_isOk (b := { markers := [] }) hok
  have reached : Reached [] {} (· = waitingUnit) waitingStart.1 waitingStart.2 :=
    .ingest .start (by simp) hrun
  have distinct : Distinct [] (· = waitingUnit) := by
    refine ⟨?_, fun p q hp hq hne => absurd (by rw [hp, hq]) hne⟩
    rintro p rfl
    decide +kernel
  have hlines : LinesFit (· = waitingUnit) := by
    rintro p rfl
    decide
  exact ⟨by decide +kernel, resume_faithful distinct hlines reached⟩

end Builder

end CodeAtlas
