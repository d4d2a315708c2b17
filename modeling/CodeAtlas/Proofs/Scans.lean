import CodeAtlas.Proofs.Collections
import CodeAtlas.SourceUnit.Diff
import CodeAtlas.Tree.Scan

/-!
# Scans and their changes

What a scan finds does not depend on when it might be cancelled (`Tree.scan_never`). Compared with the
hashes from before, its paths fall into three parts, and the paths that are gone are a fourth
(`ScanDiff.classifies_compute`). The changes say enough to go on to the new hashes: those of the changed
units go over the old ones, and what is gone goes (`ScanDiff.get_ofUnits_of_changes`). Compared with its
own hashes a scan has no changes.
-/

set_option autoImplicit false

namespace CodeAtlas

open Std

/-! ## Scanning -/

namespace Tree

variable {tree : Tree} {settings : ScanSettings} {root : String} {cancel left : Deadline}
  {scan : ScanOutput}

theorem of_checkpoint (h : checkpoint cancel = .ok left) : cancel ≠ .passed := by
  rintro rfl
  cases h

/-- A scan that comes to its end was not cancelled, and finds what it would find with all the time there
is. -/
theorem scan_never (h : tree.scan settings root cancel = .ok (scan, left)) :
    cancel ≠ .passed ∧ tree.scan settings root .never = .ok (scan, .never) := by
  unfold Tree.scan at h ⊢
  cases hdir : tree.rootDirectory root with
  | error e =>
    rw [hdir] at h
    cases h
  | ok directory =>
    cases hrules : walkRules settings with
    | error e =>
      rw [hdir, hrules] at h
      cases h
    | ok rules =>
      rw [hdir, hrules] at h
      cases hcheck : checkpoint cancel with
      | error e =>
        simp only [hcheck, bind, Except.bind] at h
        cases h
      | ok between =>
        simp only [hcheck, bind, Except.bind] at h
        split at h
        next => cases h
        next =>
          cases h
          exact ⟨of_checkpoint hcheck, rfl⟩

end Tree

/-! ## Snapshots -/

namespace Snapshot

variable {units : List SourceUnit} {path : String}

theorem get_ofUnits (units : List SourceUnit) (path : String) :
    (ofUnits units)[path]? = (units.filter (·.path = path)).getLast?.map (·.hash) := by
  have hunits := Maps.get_foldl_insert (fun unit : SourceUnit => unit.path) units ∅ path
  rw [ExtTreeMap.getElem?_empty, Option.or_none] at hunits
  rw [← hunits]
  exact Maps.get_foldl_insert_map _ _ units ∅ ∅ path (by simp)

theorem get_ofUnits_eq_none_iff : (ofUnits units)[path]? = none ↔ path ∉ units.map (·.path) := by
  rw [get_ofUnits, Option.map_eq_none_iff, List.getLast?_eq_none_iff, List.filter_eq_nil_iff]
  simp

theorem get_ofUnits_of_mem (hnodup : (units.map (·.path)).Nodup) {unit : SourceUnit}
    (h : unit ∈ units) : (ofUnits units)[unit.path]? = some unit.hash := by
  refine (Maps.get_foldl_insert_map _ _ units ∅ ∅ unit.path (by simp)).trans ?_
  rw [Maps.get_foldl_insert_of_mem (fun unit : SourceUnit => unit.path) units ∅ unit h fun other ho hp =>
    List.inj_on_of_nodup_map hnodup ho h hp]
  rfl

end Snapshot

/-! ## Changes -/

namespace ScanDiff

variable {units : List SourceUnit} {previous : Snapshot} {path : String}

theorem perm_sorted (paths : List String) : (sorted paths).Perm paths := List.mergeSort_perm paths _

/-- Paths that are all different are put in strict order. -/
theorem pairwise_sorted {paths : List String} (hnodup : paths.Nodup) :
    (sorted paths).Pairwise fun a b => compare a b = .lt := by
  refine ((Maps.pairwise_mergeSort compare paths).and
    ((perm_sorted paths).nodup_iff.mpr hnodup)).imp fun {a b} hab => ?_
  cases hc : compare a b with
  | lt => rfl
  | eq => exact absurd (LawfulEqCmp.compare_eq_iff_eq.mp hc) hab.2
  | gt =>
    have hle := hab.1
    rw [hc] at hle
    cases hle

theorem mem_added : path ∈ (compute units previous).added ↔
    path ∈ units.map (·.path) ∧ previous[path]? = none := by
  rw [compute, (perm_sorted _).mem_iff, List.mem_map, List.mem_map]
  constructor
  · rintro ⟨unit, hm, rfl⟩
    obtain ⟨hunit, hnone⟩ := List.mem_filter.mp hm
    exact ⟨⟨unit, hunit, rfl⟩, Option.isNone_iff_eq_none.mp hnone⟩
  · rintro ⟨⟨unit, hunit, rfl⟩, hnone⟩
    exact ⟨unit, List.mem_filter.mpr ⟨hunit, Option.isNone_iff_eq_none.mpr hnone⟩, rfl⟩

theorem mem_modified : path ∈ (compute units previous).modified ↔
    ∃ unit ∈ units, unit.path = path ∧ ∃ hash, previous[path]? = some hash ∧ hash ≠ unit.hash := by
  rw [compute, (perm_sorted _).mem_iff, List.mem_map]
  constructor
  · rintro ⟨unit, hm, rfl⟩
    obtain ⟨hunit, hany⟩ := List.mem_filter.mp hm
    obtain ⟨hash, hhash, hne⟩ := (Option.any_eq_true _ _).mp hany
    exact ⟨unit, hunit, rfl, hash, hhash, by simpa using hne⟩
  · rintro ⟨unit, hunit, rfl, hash, hhash, hne⟩
    exact ⟨unit, List.mem_filter.mpr ⟨hunit, (Option.any_eq_true _ _).mpr ⟨hash, hhash, by simpa using hne⟩⟩,
      rfl⟩

theorem mem_unchanged : path ∈ (compute units previous).unchanged ↔
    ∃ unit ∈ units, unit.path = path ∧ previous[path]? = some unit.hash := by
  rw [compute, (perm_sorted _).mem_iff, List.mem_map]
  constructor
  · rintro ⟨unit, hm, rfl⟩
    obtain ⟨hunit, hsame⟩ := List.mem_filter.mp hm
    exact ⟨unit, hunit, rfl, by simpa using hsame⟩
  · rintro ⟨unit, hunit, rfl, hsame⟩
    exact ⟨unit, List.mem_filter.mpr ⟨hunit, by simpa using hsame⟩, rfl⟩

theorem mem_removed : path ∈ (compute units previous).removed ↔
    path ∈ previous ∧ path ∉ units.map (·.path) := by
  rw [compute, List.mem_filter, ExtTreeMap.mem_keys]
  simp

/-- How changes account for the paths of a scan and those known before: nothing stands twice, and all is
in order. -/
structure Classifies (units : List SourceUnit) (previous : Snapshot) (diff : ScanDiff) : Prop where
  sorted : ∀ paths ∈ [diff.added, diff.modified, diff.unchanged, diff.removed],
    paths.Pairwise fun a b => compare a b = .lt
  nodup : ∀ paths ∈ [diff.added, diff.modified, diff.unchanged, diff.removed], paths.Nodup
  /-- Every path of the scan is in one of three lists. -/
  scanned : (diff.added ++ diff.modified ++ diff.unchanged).Perm (units.map (·.path))
  added : ∀ path, path ∈ diff.added ↔ path ∈ units.map (·.path) ∧ previous[path]? = none
  unchanged : ∀ path, path ∈ diff.unchanged ↔
    ∃ unit ∈ units, unit.path = path ∧ previous[path]? = some unit.hash
  removed : ∀ path, path ∈ diff.removed ↔ path ∈ previous ∧ path ∉ units.map (·.path)

theorem perm_scanned (units : List SourceUnit) (previous : Snapshot) :
    ((compute units previous).added ++ (compute units previous).modified ++
      (compute units previous).unchanged).Perm (units.map (·.path)) := by
  -- A unit is new or not, and of those that are not, the hash is another or the same.
  let isNew := fun unit : SourceUnit => previous[unit.path]?.isNone
  let isModified := fun unit : SourceUnit => previous[unit.path]?.any (· != unit.hash)
  let isUnchanged := fun unit : SourceUnit => previous[unit.path]? == some unit.hash
  have hmodified : units.filter isModified = (units.filter (!isNew ·)).filter isModified := by
    rw [List.filter_filter]
    refine List.filter_congr fun unit _ => ?_
    cases h : previous[unit.path]? <;> simp [isNew, isModified, h]
  have hunchanged : units.filter isUnchanged = (units.filter (!isNew ·)).filter (!isModified ·) := by
    rw [List.filter_filter]
    refine List.filter_congr fun unit _ => ?_
    cases h : previous[unit.path]? <;> simp [isNew, isModified, isUnchanged, h, bne]
  have hunits : (units.filter isNew ++ units.filter isModified ++ units.filter isUnchanged).Perm units := by
    rw [List.append_assoc, hmodified, hunchanged]
    exact ((List.filter_append_perm isModified _).append_left _).trans
      (List.filter_append_perm isNew units)
  refine List.Perm.trans ?_ (hunits.map _)
  rw [List.map_append, List.map_append]
  exact ((perm_sorted _).append (perm_sorted _)).append (perm_sorted _)

theorem classifies_compute (hnodup : (units.map (·.path)).Nodup) (previous : Snapshot) :
    Classifies units previous (compute units previous) := by
  have hparts := (perm_scanned units previous).nodup_iff.mpr hnodup
  obtain ⟨hleft, hunchanged, -⟩ := List.nodup_append'.mp hparts
  obtain ⟨hadded, hmodified, -⟩ := List.nodup_append'.mp hleft
  have hremoved : (compute units previous).removed.Pairwise fun a b => compare a b = .lt :=
    (ExtTreeMap.ordered_keys (t := previous)).filter _
  have hsorted : ∀ {paths : List String}, (ScanDiff.sorted paths).Nodup →
      (ScanDiff.sorted paths).Pairwise fun a b => compare a b = .lt := fun h =>
    pairwise_sorted ((perm_sorted _).nodup_iff.mp h)
  constructor
  case sorted => simpa using ⟨hsorted hadded, hsorted hmodified, hsorted hunchanged, hremoved⟩
  case nodup => simpa using ⟨hadded, hmodified, hunchanged, ExtTreeMap.nodup_keys.filter _⟩
  case scanned => exact perm_scanned units previous
  case added => exact fun _ => mem_added
  case unchanged => exact fun _ => mem_unchanged
  case removed => exact fun _ => mem_removed

/-- The units that a run has to read. -/
def changedUnits (units : List SourceUnit) (diff : ScanDiff) : List SourceUnit :=
  units.filter fun unit => (diff.added ++ diff.modified).contains unit.path

theorem exists_getLast (h : path ∈ units.map (·.path)) :
    ∃ unit ∈ units, unit.path = path ∧ (units.filter (·.path = path)).getLast? = some unit := by
  cases hlast : (units.filter (·.path = path)).getLast? with
  | some unit =>
    obtain ⟨hunit, hp⟩ := List.mem_filter.mp (List.mem_of_getLast? hlast)
    exact ⟨unit, hunit, of_decide_eq_true hp, rfl⟩
  | none =>
    rw [List.getLast?_eq_none_iff, List.filter_eq_nil_iff] at hlast
    obtain ⟨unit, hunit, hp⟩ := List.mem_map.mp h
    exact absurd (decide_eq_true hp) (hlast unit hunit)

/-- Of a path the changed units are all or none. -/
theorem filter_changedUnits (units : List SourceUnit) (diff : ScanDiff) (path : String) :
    (changedUnits units diff).filter (·.path = path) =
      if path ∈ diff.added ++ diff.modified then units.filter (·.path = path) else [] := by
  rw [changedUnits, List.filter_filter]
  split
  next hm =>
    refine List.filter_congr fun unit _ => ?_
    by_cases hp : unit.path = path
    · subst hp
      simpa using hm
    · simp [hp]
  next hm =>
    refine List.filter_eq_nil_iff.mpr fun unit _ h => hm ?_
    obtain ⟨hp, hc⟩ := Bool.and_eq_true_iff.mp h
    rw [of_decide_eq_true hp] at hc
    exact List.contains_iff_mem.mp hc

/-- The hashes of the units that have changed, over those from before without what is gone, are the hashes
of the scan. -/
theorem get_ofUnits_of_changes (units : List SourceUnit) (previous : Snapshot) (path : String) :
    (Snapshot.ofUnits units)[path]? =
      if path ∈ (compute units previous).removed then none
      else (Snapshot.ofUnits (changedUnits units (compute units previous)))[path]?.or previous[path]? := by
  rw [Snapshot.get_ofUnits, Snapshot.get_ofUnits, filter_changedUnits]
  by_cases hscanned : path ∈ units.map (·.path)
  · obtain ⟨unit, hunit, hp, hlast⟩ := exists_getLast hscanned
    rw [if_neg fun hr => (mem_removed.mp hr).2 hscanned]
    split
    next => simp [hlast]
    next hm =>
      -- Neither new nor different, so the hash was known.
      rw [List.mem_append, not_or] at hm
      rw [hlast]
      cases hprevious : previous[path]? with
      | none => exact absurd (mem_added.mpr ⟨hscanned, hprevious⟩) hm.1
      | some hash =>
        by_cases hsame : hash = unit.hash
        · simp [hsame]
        · exact absurd (mem_modified.mpr ⟨unit, hunit, hp, hash, hprevious, hsame⟩) hm.2
  · have hnone : units.filter (·.path = path) = [] := by
      refine List.filter_eq_nil_iff.mpr fun unit hunit hp => hscanned ?_
      exact List.mem_map.mpr ⟨unit, hunit, of_decide_eq_true hp⟩
    rw [hnone, ite_self]
    split
    next => rfl
    next hm =>
      cases hprevious : previous[path]? with
      | none => rfl
      | some hash =>
        exact absurd (mem_removed.mpr ⟨(Maps.contains_iff _ _).mpr ⟨hash, hprevious⟩, hscanned⟩) hm

/-- Compared with its own hashes a scan has no changes. -/
theorem compute_ofUnits (hnodup : (units.map (·.path)).Nodup) :
    (compute units (Snapshot.ofUnits units)).added = [] ∧
      (compute units (Snapshot.ofUnits units)).modified = [] ∧
      (compute units (Snapshot.ofUnits units)).removed = [] := by
  refine ⟨List.eq_nil_iff_forall_not_mem.mpr fun path h => ?_,
    List.eq_nil_iff_forall_not_mem.mpr fun path h => ?_,
    List.eq_nil_iff_forall_not_mem.mpr fun path h => ?_⟩
  · obtain ⟨hscanned, hnone⟩ := mem_added.mp h
    exact Snapshot.get_ofUnits_eq_none_iff.mp hnone hscanned
  · obtain ⟨unit, hunit, rfl, hash, hhash, hne⟩ := mem_modified.mp h
    rw [Snapshot.get_ofUnits_of_mem hnodup hunit] at hhash
    exact hne (Option.some.inj hhash).symm
  · obtain ⟨hknown, hgone⟩ := mem_removed.mp h
    rw [← Snapshot.get_ofUnits_eq_none_iff] at hgone
    obtain ⟨hash, hhash⟩ := (Maps.contains_iff _ _).mp hknown
    rw [hgone] at hhash
    cases hhash

/-- And all that was scanned is unchanged. -/
theorem length_unchanged_ofUnits (hnodup : (units.map (·.path)).Nodup) :
    (compute units (Snapshot.ofUnits units)).unchanged.length = units.length := by
  obtain ⟨hadded, hmodified, -⟩ := compute_ofUnits hnodup
  have hperm := perm_scanned units (Snapshot.ofUnits units)
  rw [hadded, hmodified] at hperm
  simpa using hperm.length_eq

end ScanDiff

end CodeAtlas
