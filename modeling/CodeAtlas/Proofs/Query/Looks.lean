import CodeAtlas.Proofs.Query.Circles
import Mathlib.Data.List.TakeWhile

/-!
# What a cycle search looks at

A cycle search takes one look after another, each at a child of the end of its path. Which looks there are
to take, and in which order, depends on the graph and on how far paths are followed, and on nothing that
happens during the search (`looks`). They are the trails from the start, each with everything that its end
depends on (`mem_looks_iff`), and none is taken twice (`nodup_looks`).

A look that leads back to its path has found a circle, of which this path is the way to its entrance
(`circle_of_look`). The other way round, the way to the entrance of a circle and the circle itself are one
trail, so that there is a look that finds it (`exists_look`).
-/

set_option autoImplicit false

namespace CodeAtlas

open Std

/-! ## Looks -/

/-- A path and a child of its end. -/
structure Look where
  path : List NodeId
  child : NodeId
deriving DecidableEq

namespace Look

/-- The part of the path that the child leads back to. -/
def circle (l : Look) : List NodeId := l.path.dropWhile (· ≠ l.child)

/-- Whether a look can be taken from a node: the path is a trail from there, and the child is what its
end depends on. -/
def From (g : PropertyGraph) (start : NodeId) (l : Look) : Prop :=
  ∃ last, g.Trail start last l.path ∧ g.DependsOn last l.child

theorem circle_eq {left right : List NodeId} {id : NodeId} (h : id ∉ left) :
    circle ⟨left ++ id :: right, id⟩ = id :: right := by
  have hleft : left.dropWhile (· ≠ id) = [] := by
    rw [List.dropWhile_eq_nil_iff]
    intro x hx
    simpa using ne_of_mem_of_not_mem hx h
  rw [circle, List.dropWhile_append, hleft]
  simp

/-- A look is at one child of a path, or below one. -/
theorem child_unique {path : List NodeId} {b c : NodeId} {l : Look}
    (hb : l = ⟨path, b⟩ ∨ path ++ [b] <+: l.path) (hc : l = ⟨path, c⟩ ∨ path ++ [c] <+: l.path) :
    b = c := by
  rcases hb with rfl | hb
  · rcases hc with he | hc
    · exact (Look.mk.inj he).2
    · exact absurd hc.length_le (by simp)
  · rcases hc with rfl | hc
    · exact absurd hb.length_le (by simp)
    · have hsame := (List.prefix_of_prefix_length_le hb hc (by simp)).eq_of_length (by simp)
      simpa using hsame

end Look

namespace PropertyGraph

/-- What a node depends on directly, by id. -/
def dependencies (g : PropertyGraph) (id : NodeId) : List NodeId :=
  (g.adjacent id EdgeKind.structural .outgoing).map (·.id)

theorem mem_dependencies_iff {g : PropertyGraph} (keyed : g.Keyed) (closed : g.Closed) {a b : NodeId} :
    b ∈ g.dependencies a ↔ g.DependsOn a b := mem_map_adjacent_iff keyed closed

/-- The looks that a search takes below a path, in order. The path may grow by as many nodes as there is
room for. -/
def looks (g : PropertyGraph) : (room : Nat) → (path children : List NodeId) → List Look
  | 0, path, children => children.map (⟨path, ·⟩)
  | room + 1, path, children => children.flatMap fun child =>
    ⟨path, child⟩ :: if child ∈ path then [] else g.looks room (path ++ [child]) (g.dependencies child)

variable {g : PropertyGraph} {room : Nat} {path children : List NodeId} {start a : NodeId} {l : Look}

theorem mem_looks_of_mem {child : NodeId} (h : child ∈ children) :
    ⟨path, child⟩ ∈ g.looks room path children := by
  cases room with
  | zero => exact List.mem_map.mpr ⟨child, h, rfl⟩
  | succ room => exact List.mem_flatMap.mpr ⟨child, h, List.mem_cons_self⟩

/-- A look is at a child of the path itself, or it is taken below one that is not on the path. -/
theorem mem_looks_succ_iff : l ∈ g.looks (room + 1) path children ↔
    ∃ child ∈ children, l = ⟨path, child⟩ ∨
      child ∉ path ∧ l ∈ g.looks room (path ++ [child]) (g.dependencies child) := by
  rw [looks, List.mem_flatMap]
  refine exists_congr fun child => and_congr_right fun _ => ?_
  rw [List.mem_cons]
  by_cases h : child ∈ path <;> simp [h]

/-- A child that is not on the path is followed as long as there is room. -/
theorem mem_looks_snoc (h : l ∈ g.looks room path children) (fresh : l.child ∉ l.path)
    (hroom : l.path.length < path.length + room) {next : NodeId} (hnext : next ∈ g.dependencies l.child) :
    ⟨l.path ++ [l.child], next⟩ ∈ g.looks room path children := by
  induction room generalizing path children with
  | zero =>
    obtain ⟨child, -, rfl⟩ := List.mem_map.mp h
    exact absurd hroom (by simp)
  | succ room ih =>
    obtain ⟨child, hchild, rfl | ⟨hnew, hbelow⟩⟩ := mem_looks_succ_iff.mp h
    · exact mem_looks_succ_iff.mpr ⟨child, hchild, .inr ⟨fresh, mem_looks_of_mem hnext⟩⟩
    · refine mem_looks_succ_iff.mpr ⟨child, hchild, .inr ⟨hnew, ih hbelow ?_⟩⟩
      rw [List.length_append, List.length_singleton]
      omega

/-- Every look goes on from the path along a trail. -/
theorem from_of_mem_looks (keyed : g.Keyed) (closed : g.Closed) (trail : g.Trail start a path)
    (h : l ∈ g.looks room path (g.dependencies a)) :
    l.From g start ∧ path <+: l.path ∧ l.path.length ≤ path.length + room := by
  induction room generalizing path a with
  | zero =>
    obtain ⟨child, hchild, rfl⟩ := List.mem_map.mp h
    exact ⟨⟨a, trail, (mem_dependencies_iff keyed closed).mp hchild⟩, List.prefix_rfl, le_rfl⟩
  | succ room ih =>
    obtain ⟨child, hchild, hl⟩ := mem_looks_succ_iff.mp h
    have depends := (mem_dependencies_iff keyed closed).mp hchild
    rcases hl with rfl | ⟨hnew, hbelow⟩
    · exact ⟨⟨a, trail, depends⟩, List.prefix_rfl, Nat.le_add_right _ _⟩
    · obtain ⟨hfrom, hprefix, hlength⟩ := ih (trail.snoc depends hnew) hbelow
      rw [List.length_append, List.length_singleton] at hlength
      exact ⟨hfrom, (List.prefix_append path [child]).trans hprefix, by omega⟩

/-- No look is taken twice. -/
theorem nodup_looks (keyed : g.Keyed) (closed : g.Closed) (trail : g.Trail start a path) :
    (g.looks room path (g.dependencies a)).Nodup := by
  induction room generalizing path a with
  | zero =>
    refine (nodup_map_adjacent g a _ _).map fun b c h => ?_
    exact (Look.mk.inj h).2
  | succ room ih =>
    have hbelow : ∀ child ∈ g.dependencies a, child ∉ path →
        ∀ l ∈ g.looks room (path ++ [child]) (g.dependencies child), path ++ [child] <+: l.path := by
      intro child hchild hnew l hl
      have depends := (mem_dependencies_iff keyed closed).mp hchild
      exact (from_of_mem_looks keyed closed (trail.snoc depends hnew) hl).2.1
    refine List.nodup_flatMap.mpr ⟨fun child hchild => ?_, ?_⟩
    · split
      · exact List.nodup_singleton _
      next hnew =>
        refine List.nodup_cons.mpr ⟨fun hm => ?_, ?_⟩
        · exact absurd (hbelow child hchild hnew _ hm).length_le (by simp)
        · exact ih (trail.snoc ((mem_dependencies_iff keyed closed).mp hchild) hnew)
    · have hcases : ∀ child ∈ g.dependencies a, ∀ l, l ∈ (⟨path, child⟩ : Look) ::
          (if child ∈ path then [] else g.looks room (path ++ [child]) (g.dependencies child)) →
          l = ⟨path, child⟩ ∨ path ++ [child] <+: l.path := by
        intro child hchild l hl
        rcases List.mem_cons.mp hl with rfl | hl
        · exact .inl rfl
        · split at hl
          · cases hl
          next hnew => exact .inr (hbelow child hchild hnew l hl)
      refine (nodup_map_adjacent g a _ _).imp_of_mem fun {b c} hb hc hne l hlb hlc => ?_
      exact hne (Look.child_unique (hcases b hb l hlb) (hcases c hc l hlc))

/-- The looks from a node are those along the trails that are short enough. -/
theorem mem_looks_iff (keyed : g.Keyed) (closed : g.Closed) :
    l ∈ g.looks room [start] (g.dependencies start) ↔
      l.From g start ∧ l.path.length ≤ room + 1 := by
  constructor
  · intro h
    obtain ⟨hfrom, -, hlength⟩ := from_of_mem_looks keyed closed (trail_singleton g start) h
    exact ⟨hfrom, by simpa [Nat.add_comm] using hlength⟩
  · intro h
    obtain ⟨path, child⟩ := l
    obtain ⟨⟨last, trail, depends⟩, hlength⟩ := h
    -- Any child of the end of a short trail is looked at, because the trail itself was followed so far.
    have hall : path.length ≤ room + 1 →
        ∀ next ∈ g.dependencies last, ⟨path, next⟩ ∈ g.looks room [start] (g.dependencies start) := by
      refine trail.induct (motive := fun path last => path.length ≤ room + 1 →
        ∀ next ∈ g.dependencies last, ⟨path, next⟩ ∈ g.looks room [start] (g.dependencies start))
        (fun _ next hnext => mem_looks_of_mem hnext) ?_
      intro front b c _ depends fresh ih hshort next hnext
      rw [List.length_append, List.length_singleton] at hshort
      have hlook := ih (by omega) c ((mem_dependencies_iff keyed closed).mpr depends)
      refine mem_looks_snoc hlook fresh ?_ hnext
      rw [List.length_singleton]
      show front.length < 1 + room
      omega
    exact hall hlength child ((mem_dependencies_iff keyed closed).mpr depends)

/-- Where no trail goes on beyond the room, all looks are taken. -/
theorem mem_looks_iff_from (keyed : g.Keyed) (closed : g.Closed)
    (short : ∀ l ∈ g.looks room [start] (g.dependencies start), l.child ∉ l.path →
      l.path.length < room + 1) :
    l ∈ g.looks room [start] (g.dependencies start) ↔ l.From g start := by
  rw [mem_looks_iff keyed closed, and_iff_left_iff_imp]
  intro hfrom
  obtain ⟨last, trail, -⟩ := hfrom
  refine trail.induct (motive := fun path _ => path.length ≤ room + 1) (by simp) ?_
  intro front b c hfront depends fresh ih
  have hlook := (mem_looks_iff (l := ⟨front, c⟩) keyed closed).mpr ⟨⟨b, hfront, depends⟩, ih⟩
  have hlength : front.length < room + 1 := short _ hlook fresh
  rw [List.length_append, List.length_singleton]
  omega

/-- The looks that a search takes are no more than there are. -/
theorem length_le_encard_from (keyed : g.Keyed) (closed : g.Closed) :
    (g.looks room [start] (g.dependencies start)).length ≤ Set.encard {l | Look.From g start l} :=
  length_le_encard (nodup_looks keyed closed (trail_singleton g start)) fun _ hl =>
    ((mem_looks_iff keyed closed).mp hl).1

/-! ## What a look finds -/

/-- A look that comes back to its path has found a circle with an entrance. -/
theorem circle_of_look (h : l.From g start) (back : l.child ∈ l.path) :
    g.Circle l.circle ∧ g.Enters start l.circle ∧ l.circle.length ≤ l.path.length ∧
      ∀ id ∈ l.circle, g.Reachable start id := by
  obtain ⟨path, child⟩ := l
  obtain ⟨last, trail, depends⟩ := h
  dsimp only at trail depends back
  obtain ⟨left, right, rfl, hleft⟩ := List.eq_append_cons_of_mem back
  obtain ⟨hway, hcircle, apart⟩ := trail_split_iff.mp trail
  rw [Look.circle_eq hleft]
  refine ⟨⟨child, last, hcircle, depends⟩, ⟨child, left ++ [child], rfl, hway, fun id hid htail => ?_⟩,
    ?_, fun id hid => trail.reachable_of_mem (List.mem_append_right left hid)⟩
  · rcases List.mem_append.mp hid with hid | hid
    · exact apart hid htail
    · rw [List.mem_singleton.mp hid] at htail
      exact (List.nodup_cons.mp hcircle.nodup).1 htail
  · show (child :: right).length ≤ (left ++ child :: right).length
    rw [List.length_append]
    omega

/-- A circle is found by going to its entrance and then around. -/
theorem exists_look {circle : List NodeId} (h : g.Circle circle) (enters : g.Enters start circle) :
    ∃ l : Look, l.From g start ∧ l.child ∈ l.path ∧ l.circle = circle := by
  obtain ⟨first, last, trail, closes⟩ := h
  obtain ⟨entrance, way, hentrance, hway, apart⟩ := enters
  rw [trail.head, Option.some.injEq] at hentrance
  subst hentrance
  obtain ⟨tail, rfl⟩ : ∃ tail, circle = first :: tail := List.head?_eq_some_iff.mp trail.head
  obtain ⟨left, rfl⟩ : ∃ left, way = left ++ [first] := List.getLast?_eq_some_iff.mp hway.last
  have hleft : first ∉ left := fun hm =>
    (List.nodup_append'.mp hway.nodup).2.2 hm (List.mem_singleton_self first)
  refine ⟨⟨left ++ first :: tail, first⟩, ⟨last, ?_, closes⟩, by simp, Look.circle_eq hleft⟩
  exact trail_split_iff.mpr ⟨hway, trail, fun id hid htail => apart id (List.mem_append_left _ hid) htail⟩

end PropertyGraph

end CodeAtlas
