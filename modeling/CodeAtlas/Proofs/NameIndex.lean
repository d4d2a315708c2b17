import CodeAtlas.Builder.NameIndex
import CodeAtlas.Proofs.Collections

/-!
# What the name index remembers

The index keeps four tables of names beside the entries of the nodes. It is *sound* if every name
leads to a node that is entered under it, and *faithful* if, besides, every node is found under the
names it is entered under. Entering a new node and forgetting a node keep soundness in any case.
Faithfulness needs more: the tables have room for one node a name, so that a node may only be entered
under names that are free.

A faithful index has no history. Its tables are determined by its entries, and two faithful indexes
with the same entries are the same (`Faithful.eq_of_entries`).
-/

set_option autoImplicit false

namespace CodeAtlas

open Std Text

namespace NameIndex

/-! ## The names of a node -/

/-- The name under which a node is entered as a declaration. -/
def declOf? (ix : NameIndex) (id : NodeId) : Option LocalName := ix.entries[id]?.bind (·.decl)

/-- The name under which a node is entered as a common module. -/
def commonOf? (ix : NameIndex) (id : NodeId) : Option String := ix.entries[id]?.bind (·.commonModule)

/-- The name under which a node is entered as an object. -/
def objectOf? (ix : NameIndex) (id : NodeId) : Option String := ix.entries[id]?.bind (·.objectKey)

/-- Whether a node stands among the declarations of a name. -/
def Declares (ix : NameIndex) (id : NodeId) (name : String) : Prop :=
  ∃ ids, ix.decls[name]? = some ids ∧ id ∈ ids

/-- Every name leads to a node that is entered under it. -/
structure Sound (ix : NameIndex) : Prop where
  declares : ∀ id name, ix.Declares id name ↔ ∃ module, ix.declOf? id = some ⟨module, name⟩
  /-- A name that nothing declares is not kept. -/
  inhabited : ∀ (name : String) ids, ix.decls[name]? = some ids → ∃ id, id ∈ ids
  locals : ∀ (name : LocalName) id, ix.moduleDecls[name]? = some id → ix.declOf? id = some name
  commons : ∀ (name : String) id, ix.commonModules[name]? = some id → ix.commonOf? id = some name
  objects : ∀ (name : String) id, ix.objects[name]? = some id → ix.objectOf? id = some name

/-- Every node is found under the names that it is entered under, and nothing else is found. -/
structure Faithful (ix : NameIndex) : Prop extends Sound ix where
  locals_of : ∀ (name : LocalName) id, ix.declOf? id = some name → ix.moduleDecls[name]? = some id
  commons_of : ∀ (name : String) id, ix.commonOf? id = some name → ix.commonModules[name]? = some id
  objects_of : ∀ (name : String) id, ix.objectOf? id = some name → ix.objects[name]? = some id

theorem faithful_empty : Faithful {} where
  declares id name := by simp [Declares, declOf?]
  inhabited name ids h := by simp at h
  locals name id h := by simp at h
  commons name id h := by simp at h
  objects name id h := by simp at h
  locals_of name id h := by simp [declOf?] at h
  commons_of name id h := by simp [commonOf?] at h
  objects_of name id h := by simp [objectOf?] at h

/-! ## Entering a node -/

theorem entries_add {ix : NameIndex} {node : Node} (real : node.kind ≠ .unknown) (id : NodeId) :
    (ix.add node).entries[id]? = if node.id = id then some (.ofNode node) else ix.entries[id]? := by
  cases hd : (IndexEntry.ofNode node).decl <;>
    simp [add, real, hd, addDecl, ExtTreeMap.getElem?_insert]

theorem add_of_unknown (ix : NameIndex) {node : Node} (unknown : node.kind = .unknown) :
    ix.add node = ix := by
  rw [add, if_pos unknown]

/-- Placeholders have no names. -/
theorem ofNode_of_unknown {node : Node} (unknown : node.kind = .unknown) :
    IndexEntry.ofNode node = { kind := .unknown } := by
  simp [IndexEntry.ofNode, unknown]

theorem moduleDecls_add (ix : NameIndex) (node : Node) (name : LocalName) :
    (ix.add node).moduleDecls[name]? =
      if (IndexEntry.ofNode node).decl = some name then some (ix.moduleDecls[name]?.getD node.id)
      else ix.moduleDecls[name]? := by
  by_cases unknown : node.kind = .unknown
  · simp [add_of_unknown, ofNode_of_unknown, unknown]
  · cases hd : (IndexEntry.ofNode node).decl <;>
      simp [add, unknown, hd, addDecl, Maps.get_insertIfNew]

theorem commonModules_add (ix : NameIndex) (node : Node) (name : String) :
    (ix.add node).commonModules[name]? =
      if (IndexEntry.ofNode node).commonModule = some name then some node.id
      else ix.commonModules[name]? := by
  by_cases unknown : node.kind = .unknown
  · simp [add_of_unknown, ofNode_of_unknown, unknown]
  · cases hd : (IndexEntry.ofNode node).decl <;>
      cases hc : (IndexEntry.ofNode node).commonModule <;>
      simp [add, unknown, hd, hc, addDecl, ExtTreeMap.getElem?_insert]

theorem objects_add (ix : NameIndex) (node : Node) (name : String) :
    (ix.add node).objects[name]? =
      if (IndexEntry.ofNode node).objectKey = some name then some node.id else ix.objects[name]? := by
  by_cases unknown : node.kind = .unknown
  · simp [add_of_unknown, ofNode_of_unknown, unknown]
  · cases hd : (IndexEntry.ofNode node).decl <;> cases ho : (IndexEntry.ofNode node).objectKey <;>
      simp [add, unknown, hd, ho, addDecl, ExtTreeMap.getElem?_insert]

theorem decls_add {ix : NameIndex} {node : Node} (real : node.kind ≠ .unknown) (name : String) :
    (ix.add node).decls[name]? =
      if (IndexEntry.ofNode node).decl.map (·.name) = some name then
        some ((ix.decls[name]?.getD ∅).insert node.id)
      else ix.decls[name]? := by
  cases hd : (IndexEntry.ofNode node).decl <;>
    simp [add, real, hd, addDecl, Maps.get_alter]

theorem declares_add {ix : NameIndex} {node : Node} (real : node.kind ≠ .unknown) (id : NodeId)
    (name : String) :
    (ix.add node).Declares id name ↔
      ix.Declares id name ∨
        (node.id = id ∧ (IndexEntry.ofNode node).decl.map (·.name) = some name) := by
  unfold Declares
  rw [decls_add real]
  by_cases hn : (IndexEntry.ofNode node).decl.map (·.name) = some name
  · cases hm : ix.decls[name]? <;> simp [hn, or_comm]
  · simp [hn]

/-! ## Forgetting a node -/

theorem get_eraseOwn {κ : Type} [Ord κ] [TransOrd κ] [LawfulEqOrd κ] [DecidableEq κ]
    (m : ExtTreeMap κ NodeId) (key k : κ) (id : NodeId) :
    (eraseOwn m key id)[k]? = if key = k ∧ m[k]? = some id then none else m[k]? := by
  unfold eraseOwn
  by_cases hk : key = k
  · subst hk
    by_cases hm : m[key]? = some id <;> simp [hm]
  · by_cases hm : m[key]? = some id <;> simp [hm, hk, ExtTreeMap.getElem?_erase]

theorem entries_remove (ix : NameIndex) (x id : NodeId) :
    (ix.remove x).entries[id]? = if x = id then none else ix.entries[id]? := by
  unfold remove
  cases hx : ix.entries[x]? with
  | none =>
    by_cases h : x = id
    · subst h; simp [hx]
    · simp [h]
  | some entry => cases hd : entry.decl <;> simp [hd, removeDecl, ExtTreeMap.getElem?_erase]

theorem moduleDecls_remove (ix : NameIndex) (x : NodeId) (name : LocalName) :
    (ix.remove x).moduleDecls[name]? =
      if ix.declOf? x = some name ∧ ix.moduleDecls[name]? = some x then none
      else ix.moduleDecls[name]? := by
  unfold remove declOf?
  cases hx : ix.entries[x]? with
  | none => simp
  | some entry => cases hd : entry.decl <;> simp [hd, removeDecl, get_eraseOwn]

theorem commonModules_remove (ix : NameIndex) (x : NodeId) (name : String) :
    (ix.remove x).commonModules[name]? =
      if ix.commonOf? x = some name ∧ ix.commonModules[name]? = some x then none
      else ix.commonModules[name]? := by
  unfold remove commonOf?
  cases hx : ix.entries[x]? with
  | none => simp
  | some entry =>
    cases hd : entry.decl <;> cases hc : entry.commonModule <;>
      simp [hd, hc, removeDecl, get_eraseOwn]

theorem objects_remove (ix : NameIndex) (x : NodeId) (name : String) :
    (ix.remove x).objects[name]? =
      if ix.objectOf? x = some name ∧ ix.objects[name]? = some x then none
      else ix.objects[name]? := by
  unfold remove objectOf?
  cases hx : ix.entries[x]? with
  | none => simp
  | some entry =>
    cases hd : entry.decl <;> cases ho : entry.objectKey <;>
      simp [hd, ho, removeDecl, get_eraseOwn]

theorem decls_remove (ix : NameIndex) (x : NodeId) (name : String) :
    (ix.remove x).decls[name]? =
      if (ix.declOf? x).map (·.name) = some name then
        (ix.decls[name]?.map (·.erase x)).filter (!·.isEmpty)
      else ix.decls[name]? := by
  unfold remove declOf?
  cases hx : ix.entries[x]? with
  | none => simp
  | some entry => cases hd : entry.decl <;> simp [hd, removeDecl, Maps.get_alter]

theorem declares_remove (ix : NameIndex) (x id : NodeId) (name : String) :
    (ix.remove x).Declares id name ↔
      ix.Declares id name ∧ ¬ (x = id ∧ (ix.declOf? x).map (·.name) = some name) := by
  unfold Declares
  rw [decls_remove]
  by_cases hn : (ix.declOf? x).map (·.name) = some name
  · cases hm : ix.decls[name]? with
    | none => simp [hn]
    | some ids =>
      simp only [hn, if_true, Option.map_some, Option.filter_some, and_true]
      constructor
      · rintro ⟨rest, h, hid⟩
        split at h
        · cases h
          obtain ⟨hne, hid⟩ := ExtTreeSet.mem_erase.mp hid
          exact ⟨⟨ids, rfl, hid⟩, fun he => hne (by simp [he])⟩
        · simp at h
      · rintro ⟨⟨_, h, hid⟩, hne⟩
        cases h
        have hmem : id ∈ ids.erase x := ExtTreeSet.mem_erase.mpr ⟨by simpa using hne, hid⟩
        have hfull : (!(ids.erase x).isEmpty) = true := by
          cases he : (ids.erase x).isEmpty with
          | false => rfl
          | true =>
            rw [ExtTreeSet.isEmpty_iff.mp he] at hmem
            exact absurd hmem ExtTreeSet.not_mem_empty
        exact ⟨ids.erase x, if_pos hfull, hmem⟩
  · simp [hn]

/-! ## Soundness is kept -/

/-- What is known of the nodes after one more, whichever part of an entry it is. -/
theorem bind_entries_add {α : Type} {ix : NameIndex} {node : Node} (real : node.kind ≠ .unknown)
    (id : NodeId) (part : IndexEntry → Option α) :
    (ix.add node).entries[id]?.bind part =
      if node.id = id then part (.ofNode node) else ix.entries[id]?.bind part := by
  rw [entries_add real]
  split <;> rfl

theorem declOf?_add {ix : NameIndex} {node : Node} (real : node.kind ≠ .unknown) (id : NodeId) :
    (ix.add node).declOf? id =
      if node.id = id then (IndexEntry.ofNode node).decl else ix.declOf? id :=
  bind_entries_add real id _

theorem commonOf?_add {ix : NameIndex} {node : Node} (real : node.kind ≠ .unknown) (id : NodeId) :
    (ix.add node).commonOf? id =
      if node.id = id then (IndexEntry.ofNode node).commonModule else ix.commonOf? id :=
  bind_entries_add real id _

theorem objectOf?_add {ix : NameIndex} {node : Node} (real : node.kind ≠ .unknown) (id : NodeId) :
    (ix.add node).objectOf? id =
      if node.id = id then (IndexEntry.ofNode node).objectKey else ix.objectOf? id :=
  bind_entries_add real id _

/-- What is known of the nodes after one was forgotten. -/
theorem bind_entries_remove {α : Type} (ix : NameIndex) (x id : NodeId)
    (part : IndexEntry → Option α) :
    (ix.remove x).entries[id]?.bind part =
      if x = id then none else ix.entries[id]?.bind part := by
  rw [entries_remove]
  split <;> rfl

theorem declOf?_remove (ix : NameIndex) (x id : NodeId) :
    (ix.remove x).declOf? id = if x = id then none else ix.declOf? id :=
  bind_entries_remove ix x id _

theorem commonOf?_remove (ix : NameIndex) (x id : NodeId) :
    (ix.remove x).commonOf? id = if x = id then none else ix.commonOf? id :=
  bind_entries_remove ix x id _

theorem objectOf?_remove (ix : NameIndex) (x id : NodeId) :
    (ix.remove x).objectOf? id = if x = id then none else ix.objectOf? id :=
  bind_entries_remove ix x id _

/-! ## One table of names

The names inside modules, those of common modules and those of objects have a table each, and all
three are kept in the same way. Here `table` tells where a name leads and `own` under which name a node
is entered. They differ in who wins when a name is taken twice: the first node or the last.
-/

section Table

variable {κ : Type} [DecidableEq κ] {table table' : κ → Option NodeId} {own own' : NodeId → Option κ}
  {x : NodeId} {key : Option κ} {winner : κ → NodeId}

theorem leads_enter (leads : ∀ name id, table name = some id → own id = some name)
    (htable : ∀ name, table' name = if key = some name then some (winner name) else table name)
    (hown : ∀ id, own' id = if x = id then key else own id)
    (hwinner : ∀ name, winner name = x ∨ table name = some (winner name)) (nameless : own x = none)
    (name : κ) (id : NodeId) (h : table' name = some id) : own' id = some name := by
  -- The node had no name before, so that a name that led somewhere led to another node.
  have hold : ∀ id, table name = some id → own' id = some name := by
    intro id hid
    have hname := leads name id hid
    rw [hown, if_neg, hname]
    rintro rfl
    rw [nameless] at hname
    cases hname
  rw [htable] at h
  split at h
  next hkey =>
    cases h
    rcases hwinner name with hx | ht
    · rw [hown, hx, if_pos rfl, hkey]
    · exact hold _ ht
  next => exact hold id h

theorem finds_enter (leads : ∀ name id, table name = some id → own id = some name)
    (finds : ∀ name id, own id = some name → table name = some id)
    (htable : ∀ name, table' name = if key = some name then some (winner name) else table name)
    (hown : ∀ id, own' id = if x = id then key else own id)
    (hwinner : ∀ name, winner name = x ∨ table name = some (winner name))
    (free : ∀ id name, own id = some name → key ≠ some name)
    (name : κ) (id : NodeId) (h : own' id = some name) : table' name = some id := by
  rw [hown] at h
  rw [htable]
  split at h
  next hx =>
    subst hx
    rw [if_pos h]
    rcases hwinner name with hx | ht
    · rw [hx]
    · exact absurd h (free _ name (leads name _ ht))
  next => rw [if_neg (free id name h), finds name id h]

theorem leads_remove (leads : ∀ name id, table name = some id → own id = some name)
    (htable : ∀ name, table' name =
      if own x = some name ∧ table name = some x then none else table name)
    (hown : ∀ id, own' id = if x = id then none else own id)
    (name : κ) (id : NodeId) (h : table' name = some id) : own' id = some name := by
  rw [htable] at h
  split at h
  next => cases h
  next hkept =>
    have hname := leads name id h
    rw [hown, if_neg, hname]
    rintro rfl
    exact hkept ⟨hname, h⟩

theorem finds_remove (finds : ∀ name id, own id = some name → table name = some id)
    (htable : ∀ name, table' name =
      if own x = some name ∧ table name = some x then none else table name)
    (hown : ∀ id, own' id = if x = id then none else own id)
    (name : κ) (id : NodeId) (h : own' id = some name) : table' name = some id := by
  rw [hown] at h
  split at h
  next => cases h
  next hid =>
    have hold := finds name id h
    rw [htable, if_neg, hold]
    rintro ⟨-, hx⟩
    exact hid (Option.some.inj (hx.symm.trans hold))

end Table

/-- The first node that takes a name keeps it. -/
theorem getD_eq_or {table : Option NodeId} {x : NodeId} :
    table.getD x = x ∨ table = some (table.getD x) := by
  cases table with
  | none => exact .inl rfl
  | some old => exact .inr rfl

/-- A node that is entered under no name, whether it is entered or not. -/
structure Nameless (ix : NameIndex) (id : NodeId) : Prop where
  decl : ix.declOf? id = none
  common : ix.commonOf? id = none
  object : ix.objectOf? id = none

/-- A node without a name takes no name away from another when it is entered anew, so every name still
leads where it says. -/
theorem Sound.enter {ix : NameIndex} (sound : ix.Sound) {node : Node} (real : node.kind ≠ .unknown)
    (nameless : ix.Nameless node.id) : (ix.add node).Sound where
  declares id name := by
    rw [declares_add real, declOf?_add real, sound.declares]
    by_cases hid : node.id = id
    · subst hid
      cases hd : (IndexEntry.ofNode node).decl with
      | none => simp [nameless.decl]
      | some own =>
        obtain ⟨module, own⟩ := own
        simp [nameless.decl]
    · simp [hid]
  inhabited name ids h := by
    rw [decls_add real] at h
    split at h
    · cases h
      exact ⟨node.id, ExtTreeSet.mem_insert_self⟩
    · exact sound.inhabited name ids h
  locals := leads_enter sound.locals (moduleDecls_add ix node) (declOf?_add real)
    (fun _ => getD_eq_or) nameless.decl
  commons := leads_enter sound.commons (commonModules_add ix node) (commonOf?_add real)
    (fun _ => .inl rfl) nameless.common
  objects := leads_enter sound.objects (objects_add ix node) (objectOf?_add real)
    (fun _ => .inl rfl) nameless.object

theorem nameless_of_fresh {ix : NameIndex} {id : NodeId} (fresh : ix.entries[id]? = none) :
    ix.Nameless id := by
  constructor <;> simp [declOf?, commonOf?, objectOf?, fresh]

theorem Sound.add {ix : NameIndex} (sound : ix.Sound) {node : Node} (real : node.kind ≠ .unknown)
    (fresh : ix.entries[node.id]? = none) : (ix.add node).Sound :=
  sound.enter real (nameless_of_fresh fresh)

theorem Sound.remove {ix : NameIndex} (sound : ix.Sound) (x : NodeId) : (ix.remove x).Sound where
  declares id name := by
    rw [declares_remove, declOf?_remove, sound.declares]
    by_cases hid : x = id
    · subst hid
      cases hd : ix.declOf? x with
      | none => simp
      | some own => obtain ⟨module, own⟩ := own; simp
    · simp [hid]
  inhabited name ids h := by
    rw [decls_remove] at h
    split at h
    · obtain ⟨_, hfull⟩ := Option.filter_eq_some_iff.mp h
      have hne : ids ≠ ∅ := fun he => by simp [he] at hfull
      by_contra hno
      exact hne (ExtTreeSet.eq_empty_iff_forall_not_mem.mpr fun a ha => hno ⟨a, ha⟩)
    · exact sound.inhabited name ids h
  locals := leads_remove sound.locals (moduleDecls_remove ix x) (declOf?_remove ix x)
  commons := leads_remove sound.commons (commonModules_remove ix x) (commonOf?_remove ix x)
  objects := leads_remove sound.objects (objects_remove ix x) (objectOf?_remove ix x)

/-! ## Faithfulness is kept where names are free -/

/-- No node is entered under a name that the given node would be entered under. -/
structure Free (ix : NameIndex) (node : Node) : Prop where
  id : ix.entries[node.id]? = none
  decl : ∀ id name, ix.declOf? id = some name → (IndexEntry.ofNode node).decl ≠ some name
  common : ∀ id name, ix.commonOf? id = some name → (IndexEntry.ofNode node).commonModule ≠ some name
  object : ∀ id name, ix.objectOf? id = some name → (IndexEntry.ofNode node).objectKey ≠ some name

/-- The names of a node are free if none of the entries stands under one of them. -/
theorem free_iff {ix : NameIndex} {node : Node} :
    ix.Free node ↔ ix.entries[node.id]? = none ∧
      ∀ (id : NodeId) entry, ix.entries[id]? = some entry →
        (∀ name, entry.decl = some name → (IndexEntry.ofNode node).decl ≠ some name) ∧
        (∀ name, entry.commonModule = some name →
          (IndexEntry.ofNode node).commonModule ≠ some name) ∧
        (∀ name, entry.objectKey = some name → (IndexEntry.ofNode node).objectKey ≠ some name) := by
  constructor
  · intro free
    refine ⟨free.id, fun id entry he => ⟨fun name hn => ?_, fun name hn => ?_, fun name hn => ?_⟩⟩
    · exact free.decl id name (by rw [declOf?, he]; exact hn)
    · exact free.common id name (by rw [commonOf?, he]; exact hn)
    · exact free.object id name (by rw [objectOf?, he]; exact hn)
  · rintro ⟨fresh, apart⟩
    refine ⟨fresh, fun id name hn => ?_, fun id name hn => ?_, fun id name hn => ?_⟩
    all_goals obtain ⟨entry, he, hname⟩ := Option.bind_eq_some_iff.mp hn
    · exact (apart id entry he).1 name hname
    · exact (apart id entry he).2.1 name hname
    · exact (apart id entry he).2.2 name hname

theorem Faithful.add {ix : NameIndex} (faithful : ix.Faithful) {node : Node}
    (real : node.kind ≠ .unknown) (free : ix.Free node) : (ix.add node).Faithful where
  toSound := faithful.toSound.add real free.id
  locals_of := finds_enter faithful.locals faithful.locals_of (moduleDecls_add ix node)
    (declOf?_add real) (fun _ => getD_eq_or) free.decl
  commons_of := finds_enter faithful.commons faithful.commons_of (commonModules_add ix node)
    (commonOf?_add real) (fun _ => .inl rfl) free.common
  objects_of := finds_enter faithful.objects faithful.objects_of (objects_add ix node)
    (objectOf?_add real) (fun _ => .inl rfl) free.object

theorem Faithful.remove {ix : NameIndex} (faithful : ix.Faithful) (x : NodeId) :
    (ix.remove x).Faithful where
  toSound := faithful.toSound.remove x
  locals_of := finds_remove faithful.locals_of (moduleDecls_remove ix x) (declOf?_remove ix x)
  commons_of := finds_remove faithful.commons_of (commonModules_remove ix x) (commonOf?_remove ix x)
  objects_of := finds_remove faithful.objects_of (objects_remove ix x) (objectOf?_remove ix x)

/-- The declarations of each name are determined by the entries. -/
theorem Sound.decls_eq {a b : NameIndex} (ha : a.Sound) (hb : b.Sound) (h : a.entries = b.entries) :
    a.decls = b.decls := by
  apply ExtTreeMap.ext_getElem?
  intro name
  have hd : ∀ id, a.Declares id name ↔ b.Declares id name := fun id => by
    rw [ha.declares, hb.declares, declOf?, declOf?, h]
  unfold Declares at hd
  cases hna : a.decls[name]? with
  | none =>
    cases hnb : b.decls[name]? with
    | none => rfl
    | some ids =>
      obtain ⟨id, hid⟩ := hb.inhabited name ids hnb
      simpa [hna] using (hd id).mpr ⟨ids, hnb, hid⟩
  | some ids =>
    cases hnb : b.decls[name]? with
    | none =>
      obtain ⟨id, hid⟩ := ha.inhabited name ids hna
      simpa [hnb] using (hd id).mp ⟨ids, hna, hid⟩
    | some ids' =>
      refine congrArg some (ExtTreeSet.ext_mem fun id => ?_)
      simpa [hna, hnb] using hd id

/-- The tables of a faithful index are determined by its entries. -/
theorem Faithful.eq_of_entries {a b : NameIndex} (ha : a.Faithful) (hb : b.Faithful)
    (h : a.entries = b.entries) : a = b := by
  have hdecl : ∀ id, a.declOf? id = b.declOf? id := fun id => by simp [declOf?, h]
  have hcommon : ∀ id, a.commonOf? id = b.commonOf? id := fun id => by simp [commonOf?, h]
  have hobject : ∀ id, a.objectOf? id = b.objectOf? id := fun id => by simp [objectOf?, h]
  have hdecls : a.decls = b.decls := ha.toSound.decls_eq hb.toSound h
  have hlocals : a.moduleDecls = b.moduleDecls := by
    apply ExtTreeMap.ext_getElem?
    intro name
    apply Option.ext
    intro id
    constructor
    · intro hm; exact hb.locals_of name id (hdecl id ▸ ha.locals name id hm)
    · intro hm; exact ha.locals_of name id (hdecl id ▸ hb.locals name id hm)
  have hcommons : a.commonModules = b.commonModules := by
    apply ExtTreeMap.ext_getElem?
    intro name
    apply Option.ext
    intro id
    constructor
    · intro hm; exact hb.commons_of name id (hcommon id ▸ ha.commons name id hm)
    · intro hm; exact ha.commons_of name id (hcommon id ▸ hb.commons name id hm)
  have hobjects : a.objects = b.objects := by
    apply ExtTreeMap.ext_getElem?
    intro name
    apply Option.ext
    intro id
    constructor
    · intro hm; exact hb.objects_of name id (hobject id ▸ ha.objects name id hm)
    · intro hm; exact ha.objects_of name id (hobject id ▸ hb.objects name id hm)
  cases a; cases b
  simp_all

/-! ## Where a name leads -/

theorem declares_of_uniqueDecl? {ix : NameIndex} {name : String} {id : NodeId}
    (h : ix.uniqueDecl? name = some id) : ix.Declares id name := by
  unfold uniqueDecl? at h
  cases hn : ix.decls[name]? with
  | none => simp [hn] at h
  | some ids =>
    have hmem : id ∈ ids.toList := by
      simp only [hn, Option.bind_eq_bind, Option.bind_some] at h
      split at h
      next only hl => cases h; simp [hl]
      next =>
        split at h
        next only hl =>
          cases h
          have hf : id ∈ List.filter (fun i => ix.entries[i]?.any (·.exported)) ids.toList := by
            rw [hl]; exact List.mem_singleton_self id
          exact (List.mem_filter.mp hf).1
        next => simp at h
    exact ⟨ids, hn, ExtTreeSet.mem_toList.mp hmem⟩

theorem eq_singleton {ids : List NodeId} {id : NodeId} (hnodup : ids.Nodup) (hid : id ∈ ids)
    (only : ∀ other ∈ ids, other = id) : ids = [id] := by
  cases ids with
  | nil => simp at hid
  | cons first rest =>
    have hfirst : first = id := only first List.mem_cons_self
    cases rest with
    | nil => rw [hfirst]
    | cons second more =>
      have hsecond : second = id := only second (by simp)
      simp [hfirst, hsecond] at hnodup

/-- A name that a single node declares leads to that node. -/
theorem uniqueDecl?_of_unique {ix : NameIndex} {name : String} {id : NodeId}
    (h : ix.Declares id name) (only : ∀ other, ix.Declares other name → other = id) :
    ix.uniqueDecl? name = some id := by
  obtain ⟨ids, hn, hid⟩ := h
  have hl : ids.toList = [id] := eq_singleton (Maps.nodup_toList ids) (ExtTreeSet.mem_toList.mpr hid)
    fun x hx => only x ⟨ids, hn, ExtTreeSet.mem_toList.mp hx⟩
  simp [uniqueDecl?, hn, hl]

/-- Of several declarations of a name the only exported one is found. -/
theorem uniqueDecl?_of_exported {ix : NameIndex} {name : String} {id : NodeId}
    (h : ix.Declares id name) (exported : ix.entries[id]?.any (·.exported) = true)
    (only : ∀ other, ix.Declares other name → ix.entries[other]?.any (·.exported) = true →
      other = id) : ix.uniqueDecl? name = some id := by
  obtain ⟨ids, hn, hid⟩ := h
  have hmem := ExtTreeSet.mem_toList.mpr hid
  have hfilter : ids.toList.filter (fun id => ix.entries[id]?.any (·.exported)) = [id] := by
    refine eq_singleton ((Maps.nodup_toList ids).filter _) (List.mem_filter.mpr ⟨hmem, exported⟩) ?_
    intro other ho
    obtain ⟨ho, he⟩ := List.mem_filter.mp ho
    exact only other ⟨ids, hn, ExtTreeSet.mem_toList.mp ho⟩ he
  simp only [uniqueDecl?, hn, Option.bind_eq_bind, Option.bind_some]
  split
  next first hl =>
    rw [hl, List.mem_singleton] at hmem
    rw [hmem]
    rfl
  next => rw [hfilter]; rfl

/-- A declaration that is found is the only one, or the only exported one. -/
theorem of_uniqueDecl? {ix : NameIndex} {name : String} {id : NodeId}
    (h : ix.uniqueDecl? name = some id) : ix.Declares id name ∧
      ((∀ other, ix.Declares other name → other = id) ∨
        (ix.entries[id]?.any (·.exported) = true ∧
          ∀ other, ix.Declares other name → ix.entries[other]?.any (·.exported) = true →
            other = id)) := by
  refine ⟨declares_of_uniqueDecl? h, ?_⟩
  unfold uniqueDecl? at h
  cases hn : ix.decls[name]? with
  | none => simp [hn] at h
  | some ids =>
    have hmem : ∀ other, ix.Declares other name → other ∈ ids.toList := by
      rintro other ⟨ids', hn', ho⟩
      rw [hn] at hn'
      cases hn'
      exact ExtTreeSet.mem_toList.mpr ho
    simp only [hn, Option.bind_eq_bind, Option.bind_some] at h
    split at h
    next only hl =>
      cases h
      refine .inl fun other ho => ?_
      simpa [hl] using hmem other ho
    next =>
      split at h
      next only hl =>
        cases h
        have hid : id ∈ ids.toList.filter (fun id => ix.entries[id]?.any (·.exported)) := by simp [hl]
        refine .inr ⟨(List.mem_filter.mp hid).2, fun other ho he => ?_⟩
        have hother : other ∈ ids.toList.filter (fun id => ix.entries[id]?.any (·.exported)) :=
          List.mem_filter.mpr ⟨hmem other ho, he⟩
        simpa [hl] using hother
      next => simp at h

/-- The node that a name means, whether it is known or not. -/
def target? (ix : NameIndex) (r : Reference) : Option NodeId :=
  if r.kind.isCall then ix.resolveCall? r.awaited r.context else ix.objects[lower r.awaited]?

theorem target?_of_object (ix : NameIndex) {r : Reference} (hcall : r.kind.isCall = false) :
    ix.target? r = ix.objects[lower r.awaited]? := by
  rw [target?, if_neg (by simp [hcall])]

theorem target?_of_qualified (ix : NameIndex) {r : Reference} {qualifier name : String}
    (hcall : r.kind.isCall = true)
    (hcut : cutAt? '.' (lower r.awaited) = some (qualifier, name)) :
    ix.target? r = ix.commonModules[qualifier]?.bind fun module =>
      ix.moduleDecls[(⟨module, name⟩ : LocalName)]? := by
  rw [target?, if_pos hcall, resolveCall?]
  simp only [hcut]
  rfl

theorem target?_of_unqualified (ix : NameIndex) {r : Reference} (hcall : r.kind.isCall = true)
    (hcut : cutAt? '.' (lower r.awaited) = none) :
    ix.target? r = (r.context.bind fun module =>
      ix.moduleDecls[(⟨module, lower r.awaited⟩ : LocalName)]?).or (ix.uniqueDecl? (lower r.awaited)) := by
  rw [target?, if_pos hcall, resolveCall?]
  simp only [hcut]

/-- A reference is resolved to the node that it means, with the kind of that node. -/
theorem resolve?_eq_some_iff {ix : NameIndex} {r : Reference} {target : NodeId} {kind : NodeKind} :
    ix.resolve? r = some (target, kind) ↔
      ix.target? r = some target ∧ ix.kind? target = some kind := by
  unfold resolve? target?
  split
  all_goals
    simp only [Option.bind_eq_bind, Option.bind_eq_some_iff, Option.pure_def]
    constructor
    · rintro ⟨id, hid, k, hk, heq⟩
      cases heq
      exact ⟨hid, hk⟩
    · rintro ⟨hid, hk⟩
      exact ⟨target, hid, kind, hk, rfl⟩

theorem kind?_of_resolve? {ix : NameIndex} {r : Reference} {target : NodeId} {kind : NodeKind}
    (h : ix.resolve? r = some (target, kind)) : ix.kind? target = some kind :=
  (resolve?_eq_some_iff.mp h).2

/-- A call is resolved to a declaration. -/
theorem Sound.declOf?_of_target? {ix : NameIndex} (sound : ix.Sound) {r : Reference}
    {target : NodeId} (call : r.kind.isCall = true) (h : ix.target? r = some target) :
    ∃ name, ix.declOf? target = some name := by
  cases hcut : cutAt? '.' (lower r.awaited) with
  | some parts =>
    rw [target?_of_qualified _ call hcut] at h
    obtain ⟨module, -, hm⟩ := Option.bind_eq_some_iff.mp h
    exact ⟨_, sound.locals _ target hm⟩
  | none =>
    rw [target?_of_unqualified _ call hcut] at h
    rcases Option.or_eq_some_iff.mp h with h | ⟨-, h⟩
    · obtain ⟨module, -, hm⟩ := Option.bind_eq_some_iff.mp h
      exact ⟨_, sound.locals _ target hm⟩
    · obtain ⟨module, hm⟩ := (sound.declares target _).mp (declares_of_uniqueDecl? h)
      exact ⟨_, hm⟩

/-- Any other reference is resolved to an object. -/
theorem Sound.objectOf?_of_target? {ix : NameIndex} (sound : ix.Sound) {r : Reference}
    {target : NodeId} (call : r.kind.isCall = false) (h : ix.target? r = some target) :
    ix.objectOf? target = some (lower r.awaited) := by
  rw [target?_of_object _ call] at h
  exact sound.objects _ _ h

/-- Resolution looks at the kind of the reference, the lower-cased name and the context only. -/
theorem resolve?_congr (ix : NameIndex) {r s : Reference} (kind : r.kind = s.kind)
    (awaited : lower r.awaited = lower s.awaited) (context : r.context = s.context) :
    ix.resolve? r = ix.resolve? s := by
  unfold resolve? resolveCall?
  rw [kind, awaited, context]

/-! ## Indexes that grow -/

/-- An index that has all entries of another. -/
def Extends (ix' ix : NameIndex) : Prop :=
  ∀ (id : NodeId) entry, ix.entries[id]? = some entry → ix'.entries[id]? = some entry

section Extends

variable {ix ix' : NameIndex}

theorem extends_add {node : Node} (real : node.kind ≠ .unknown)
    (fresh : ix.entries[node.id]? = none) : (ix.add node).Extends ix := by
  intro id entry he
  rw [entries_add real, if_neg, he]
  rintro rfl
  rw [fresh] at he
  cases he

theorem Extends.bind {α : Type} (ext : ix'.Extends ix) {id : NodeId} {f : IndexEntry → Option α} {a : α}
    (h : ix.entries[id]?.bind f = some a) : ix'.entries[id]?.bind f = some a := by
  obtain ⟨entry, he, hf⟩ := Option.bind_eq_some_iff.mp h
  rw [ext id entry he]
  exact hf

/-- What is known keeps its names. -/
theorem Extends.bind_eq {α : Type} (ext : ix'.Extends ix) {id : NodeId} {entry : IndexEntry}
    (he : ix.entries[id]? = some entry) (f : IndexEntry → Option α) :
    ix'.entries[id]?.bind f = ix.entries[id]?.bind f := by
  rw [he, ext id entry he]

theorem Extends.kind? (ext : ix'.Extends ix) {id : NodeId} {kind : NodeKind}
    (h : ix.kind? id = some kind) : ix'.kind? id = some kind := by
  obtain ⟨entry, he, rfl⟩ := Option.map_eq_some_iff.mp h
  rw [NameIndex.kind?, ext id entry he]
  rfl

/-- Names inside a module of which nothing is new lead where they led. -/
theorem Faithful.moduleDecls_extends (hf : ix.Faithful) (hf' : ix'.Faithful) (ext : ix'.Extends ix)
    {name : LocalName} (hold : ∀ id, ix'.declOf? id = some name → ix.declOf? id = some name) :
    ix'.moduleDecls[name]? = ix.moduleDecls[name]? := by
  ext id
  constructor
  · intro h
    exact hf.locals_of name id (hold id (hf'.locals name id h))
  · intro h
    exact hf'.locals_of name id (ext.bind (hf.locals name id h))

theorem Faithful.declares_extends (hf : ix.Faithful) (hf' : ix'.Faithful) (ext : ix'.Extends ix)
    {id : NodeId} {name : String} (h : ix.Declares id name) : ix'.Declares id name := by
  obtain ⟨module, hm⟩ := (hf.declares id name).mp h
  exact (hf'.declares id name).mpr ⟨module, ext.bind hm⟩

/-- A reference that is resolved stays resolved to the same node, if nothing new is declared in its
own module and a name without a qualifier that is looked for elsewhere has one declaration. -/
theorem Faithful.resolve?_extends (hf : ix.Faithful) (hf' : ix'.Faithful) (ext : ix'.Extends ix)
    {r : Reference} {found : NodeId × NodeKind} (h : ix.resolve? r = some found)
    (hlocal : ∀ id (name : LocalName), r.context = some name.module → ix'.declOf? id = some name →
      ix.declOf? id = some name)
    (hsingle : r.kind.isCall = true → cutAt? '.' (lower r.awaited) = none →
      (∀ id module, r.context = some module → ix.declOf? id ≠ some ⟨module, lower r.awaited⟩) →
      ∀ a b, ix'.Declares a (lower r.awaited) → ix'.Declares b (lower r.awaited) → a = b) :
    ix'.resolve? r = some found := by
  obtain ⟨target, kind⟩ := found
  obtain ⟨ht, hk⟩ := resolve?_eq_some_iff.mp h
  refine resolve?_eq_some_iff.mpr ⟨?_, ext.kind? hk⟩
  cases hcall : r.kind.isCall with
  | false =>
    rw [target?_of_object _ hcall] at ht ⊢
    exact hf'.objects_of _ _ (ext.bind (hf.objects _ _ ht))
  | true =>
    cases hcut : cutAt? '.' (lower r.awaited) with
    | some parts =>
      rw [target?_of_qualified _ hcall hcut, Option.bind_eq_some_iff] at ht ⊢
      obtain ⟨module, hm, ht⟩ := ht
      exact ⟨module, hf'.commons_of _ _ (ext.bind (hf.commons _ _ hm)),
        hf'.locals_of _ _ (ext.bind (hf.locals _ _ ht))⟩
    | none =>
      rw [target?_of_unqualified _ hcall hcut] at ht ⊢
      have hcontext : (r.context.bind fun module =>
          ix'.moduleDecls[(⟨module, lower r.awaited⟩ : LocalName)]?) =
          r.context.bind fun module => ix.moduleDecls[(⟨module, lower r.awaited⟩ : LocalName)]? := by
        cases hc : r.context with
        | none => rfl
        | some module => exact hf.moduleDecls_extends hf' ext fun id => hlocal id _ hc
      rw [hcontext]
      rcases Option.or_eq_some_iff.mp ht with ht | ⟨hnone, ht⟩
      · rw [ht]
        rfl
      · rw [hnone, Option.none_or]
        have hdecl' : ix'.Declares target (lower r.awaited) :=
          hf.declares_extends hf' ext (declares_of_uniqueDecl? ht)
        refine uniqueDecl?_of_unique hdecl' fun other ho => ?_
        refine hsingle hcall hcut (fun id module hc hid => ?_) other target ho hdecl'
        rw [hc, Option.bind_some, hf.locals_of _ id hid] at hnone
        simp at hnone

/-- The one declaration of a name was that before, if it is not new. -/
theorem Faithful.uniqueDecl?_of_known (hf : ix.Faithful) (hf' : ix'.Faithful) (ext : ix'.Extends ix)
    {name : String} {target : NodeId} {entry : IndexEntry} (he : ix.entries[target]? = some entry)
    (h : ix'.uniqueDecl? name = some target) : ix.uniqueDecl? name = some target := by
  obtain ⟨hdeclares, hexported⟩ := of_uniqueDecl? h
  obtain ⟨module, hm⟩ := (hf'.declares target _).mp hdeclares
  rw [declOf?, ext.bind_eq he] at hm
  have hold : ix.Declares target name := (hf.declares target _).mpr ⟨module, hm⟩
  rcases hexported with honly | ⟨hexp, honly⟩
  · exact uniqueDecl?_of_unique hold fun other ho => honly other (hf.declares_extends hf' ext ho)
  · refine uniqueDecl?_of_exported hold ?_ fun other ho hother => ?_
    · rwa [ext target entry he, ← he] at hexp
    · refine honly other (hf.declares_extends hf' ext ho) ?_
      cases hoe : ix.entries[other]? with
      | none => simp [hoe] at hother
      | some e => rwa [ext other e hoe, ← hoe]

/-- A reference that was not resolved before is resolved to a node that is new. -/
theorem Faithful.target_new (hf : ix.Faithful) (hf' : ix'.Faithful) (ext : ix'.Extends ix)
    (hmodules : ∀ id name, ix.declOf? id = some name → ∃ entry, ix.entries[name.module]? = some entry)
    {r : Reference} {target : NodeId} {kind : NodeKind} (h : ix'.resolve? r = some (target, kind))
    (hnone : ix.resolve? r = none) : ix.entries[target]? = none := by
  cases he : ix.entries[target]? with
  | none => rfl
  | some entry =>
    -- Otherwise the names on the way to the target would all have been known.
    obtain ⟨ht, -⟩ := resolve?_eq_some_iff.mp h
    have absent : ∀ {id : NodeId} {e : IndexEntry}, ix.entries[id]? = some e →
        ix.target? r ≠ some id := by
      intro id e hid htarget
      have hres : ix.resolve? r = some (id, e.kind) :=
        resolve?_eq_some_iff.mpr ⟨htarget, by rw [NameIndex.kind?, hid]; rfl⟩
      rw [hnone] at hres
      simp at hres
    refine absurd ?_ (absent he)
    have hdecl : ∀ name, ix'.declOf? target = some name → ix.declOf? target = some name :=
      fun name hname => by rwa [declOf?, ext.bind_eq he] at hname
    cases hcall : r.kind.isCall with
    | false =>
      rw [target?_of_object _ hcall] at ht ⊢
      have hobject := hf'.objects _ _ ht
      rw [objectOf?, ext.bind_eq he] at hobject
      exact hf.objects_of _ _ hobject
    | true =>
      cases hcut : cutAt? '.' (lower r.awaited) with
      | some parts =>
        rw [target?_of_qualified _ hcall hcut, Option.bind_eq_some_iff] at ht ⊢
        obtain ⟨module, hm, ht⟩ := ht
        have hlocal := hdecl _ (hf'.locals _ _ ht)
        obtain ⟨e, hmodule⟩ := hmodules _ _ hlocal
        have hcommon := hf'.commons _ _ hm
        rw [commonOf?, ext.bind_eq hmodule] at hcommon
        exact ⟨module, hf.commons_of _ _ hcommon, hf.locals_of _ _ hlocal⟩
      | none =>
        rw [target?_of_unqualified _ hcall hcut] at ht ⊢
        have hcontext : (r.context.bind fun module =>
            ix.moduleDecls[(⟨module, lower r.awaited⟩ : LocalName)]?) = none := by
          cases hc : (r.context.bind fun module =>
              ix.moduleDecls[(⟨module, lower r.awaited⟩ : LocalName)]?) with
          | none => rfl
          | some id =>
            obtain ⟨module, -, hm⟩ := Option.bind_eq_some_iff.mp hc
            obtain ⟨e, hid, -⟩ := Option.bind_eq_some_iff.mp (hf.locals _ id hm)
            refine absurd ?_ (absent hid)
            rw [target?_of_unqualified _ hcall hcut, hc, Option.some_or]
        rw [hcontext, Option.none_or]
        rcases Option.or_eq_some_iff.mp ht with ht | ⟨-, ht⟩
        · obtain ⟨module, hc, hm⟩ := Option.bind_eq_some_iff.mp ht
          rw [hc, Option.bind_some, hf.locals_of _ _ (hdecl _ (hf'.locals _ _ hm))] at hcontext
          simp at hcontext
        · exact hf.uniqueDecl?_of_known hf' ext he ht

end Extends

end NameIndex

end CodeAtlas
