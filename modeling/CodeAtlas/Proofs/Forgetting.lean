import CodeAtlas.Proofs.NameIndex
import Mathlib.Data.List.Induction

/-!
# What forgetting loses

An index is meant to know its nodes and nothing of those it has forgotten: it should answer like one that
is built from scratch of the nodes that are left, in the order in which they were last entered. What it
knows of a node it does answer so, and so it does for the declarations of a name, which are kept as a set.

The other tables have room for one node a name. Of common modules and objects the last one that is entered
has the name (`LastWins`), and when it goes the name goes with it, even if an older node is left that has it
too (`Orphaned`). Of several declarations of a name in a module the first one has it; those that come while
it is taken are passed over, and stay so when it becomes free (`Overlooked`). A reference that means such a
node is misled (`Misled`), and no other reference is (`index_eq_scratch_iff`).
-/

set_option autoImplicit false

namespace CodeAtlas

open Std Text

namespace NameIndex

/-! ## Histories -/

/-- How an index has come about, call by call. -/
inductive History
  | start
  | add (before : History) (node : Node)
  | remove (before : History) (id : NodeId)

/-- The index of some nodes, built from scratch. -/
def ofNodes (nodes : List Node) : NameIndex := nodes.foldl add {}

/-- The last of some nodes that has a name. -/
def lastNamed? (field : IndexEntry → Option String) (nodes : List Node) (name : String) : Option Node :=
  nodes.reverse.find? fun node => field (.ofNode node) = some name

/-- The first of some declarations of a name in a module. -/
def firstNamed? (nodes : List Node) (name : LocalName) : Option Node :=
  nodes.find? fun node => (IndexEntry.ofNode node).decl = some name

namespace History

/-- The index at the end of a history. -/
def index : History → NameIndex
  | start => {}
  | add before node => before.index.add node
  | remove before id => before.index.remove id

/-- The nodes that are left, in the order in which they were last entered. Placeholders never enter. -/
def remaining : History → List Node
  | start => []
  | add before node =>
    if node.kind = .unknown then before.remaining else before.remaining ++ [node]
  | remove before id => before.remaining.filter (·.id ≠ id)

/-- All nodes that have ever been entered, in order. -/
def entered : History → List Node
  | start => []
  | add before node => before.entered ++ [node]
  | remove before _ => before.entered

/-- The history of an index that is built from scratch. -/
def scratch (nodes : List Node) : History := nodes.foldl add start

/-- Whether no id is entered again before it is removed. -/
def Orderly : History → Prop
  | start => True
  | add before node => before.Orderly ∧ ∀ other ∈ before.remaining, other.id ≠ node.id
  | remove before _ => before.Orderly

instance : (h : History) → Decidable h.Orderly
  | start => inferInstanceAs (Decidable True)
  | add before _ =>
    have := instDecidableOrderly before
    inferInstanceAs (Decidable (before.Orderly ∧ _))
  | remove before _ => instDecidableOrderly before

/-- A node that is left, but was entered when its name in its module was taken. -/
def Overlooked (node : Node) : History → Prop
  | start => False
  | add before entering => before.Overlooked node ∨
      (entering = node ∧ ∃ name holder, (IndexEntry.ofNode node).decl = some name ∧
        before.index.moduleDecls[name]? = some holder)
  | remove before id => before.Overlooked node ∧ node.id ≠ id

/-- A name that is still borne, but not by the last node that was entered under it. -/
structure Orphaned (h : History) (field : IndexEntry → Option String) (name : String) : Prop where
  borne : ∃ node ∈ h.remaining, field (.ofNode node) = some name
  gone : ∀ last ∈ h.remaining, lastNamed? field h.entered name ≠ some last

/-- Whether a reference means a node that has lost its name. -/
inductive Misled (h : History) (r : Reference) : Prop
  | object (hcall : r.kind.isCall = false) (lost : h.Orphaned (·.objectKey) (lower r.awaited))
  | qualified {qualifier name : String} {module decl : Node} (hcall : r.kind.isCall = true)
      (hcut : cutAt? '.' (lower r.awaited) = some (qualifier, name))
      (hm : lastNamed? (·.commonModule) h.remaining qualifier = some module)
      (hd : firstNamed? h.remaining ⟨module.id, name⟩ = some decl)
      (lost : h.Orphaned (·.commonModule) qualifier ∨ h.Overlooked decl)
  /-- Such a call is looked for outside its module as well, where it may find what was overlooked. -/
  | inside {module : NodeId} {decl : Node} (hcall : r.kind.isCall = true)
      (hcut : cutAt? '.' (lower r.awaited) = none) (hc : r.context = some module)
      (hd : firstNamed? h.remaining ⟨module, lower r.awaited⟩ = some decl) (lost : h.Overlooked decl)
      (astray : (∃ other ∈ h.remaining, ¬ h.Overlooked other ∧
          (IndexEntry.ofNode other).decl = some ⟨module, lower r.awaited⟩) ∨
        h.index.uniqueDecl? (lower r.awaited) ≠ some decl.id)

end History

/-! ## The last and the first of a name -/

section Named

variable {field : IndexEntry → Option String} {nodes : List Node} {node last : Node} {name : String}

theorem lastNamed?_append_singleton (field : IndexEntry → Option String) (nodes : List Node)
    (node : Node) (name : String) :
    lastNamed? field (nodes ++ [node]) name =
      if field (.ofNode node) = some name then some node else lastNamed? field nodes name := by
  by_cases hn : field (.ofNode node) = some name <;> simp [lastNamed?, hn]

theorem lastNamed?_eq_none_iff :
    lastNamed? field nodes name = none ↔ ∀ node ∈ nodes, field (.ofNode node) ≠ some name := by
  simp [lastNamed?]

theorem field_of_lastNamed? (h : lastNamed? field nodes name = some node) :
    field (.ofNode node) = some name := by
  simpa using List.find?_some h

theorem mem_of_lastNamed? (h : lastNamed? field nodes name = some node) : node ∈ nodes :=
  List.mem_reverse.mp (List.mem_of_find?_eq_some h)

/-- The last of all is the last of those that are kept, if it is kept. -/
theorem lastNamed?_filter {p : Node → Bool} (h : lastNamed? field nodes name = some last)
    (kept : p last = true) : lastNamed? field (nodes.filter p) name = some last := by
  induction nodes using List.reverseRecOn with
  | nil => simp [lastNamed?] at h
  | append_singleton nodes node ih =>
    rw [lastNamed?_append_singleton] at h
    rw [List.filter_append]
    split at h
    next hn =>
      cases h
      rw [List.filter_singleton, kept, cond_true, lastNamed?_append_singleton, if_pos hn]
    next hn =>
      cases hp : p node with
      | false => simpa [hp] using ih h
      | true =>
        rw [List.filter_singleton, hp, cond_true, lastNamed?_append_singleton, if_neg hn]
        exact ih h

end Named

/-! ## What is left -/

namespace History

variable {h before : History} {node other : Node} {id : NodeId}

@[simp] theorem mem_remaining_add :
    other ∈ (before.add node).remaining ↔
      other ∈ before.remaining ∨ (other = node ∧ node.kind ≠ .unknown) := by
  by_cases unknown : node.kind = .unknown <;> simp [remaining, unknown]

@[simp] theorem mem_remaining_remove :
    other ∈ (before.remove id).remaining ↔ other ∈ before.remaining ∧ other.id ≠ id := by
  simp [remaining]

theorem real_of_mem (hn : node ∈ h.remaining) : node.kind ≠ .unknown := by
  induction h with
  | start => simp [remaining] at hn
  | add before entering ih =>
    rcases mem_remaining_add.mp hn with hn | ⟨rfl, real⟩
    · exact ih hn
    · exact real
  | remove before x ih => exact ih (mem_remaining_remove.mp hn).1

/-- No two nodes that are left have one id. -/
theorem Orderly.pairwise (orderly : h.Orderly) : h.remaining.Pairwise (·.id ≠ ·.id) := by
  induction h with
  | start => exact List.Pairwise.nil
  | add before entering ih =>
    obtain ⟨orderly, fresh⟩ := orderly
    unfold remaining
    split
    · exact ih orderly
    · refine List.pairwise_append.mpr ⟨ih orderly, List.pairwise_singleton _ _, ?_⟩
      intro other ho node hn
      rw [List.mem_singleton.mp hn]
      exact fresh other ho
  | remove before x ih => exact (ih orderly).filter _

/-- The index knows the nodes that are left, and what there is to know of them. -/
theorem Orderly.entries_iff (orderly : h.Orderly) {entry : IndexEntry} :
    h.index.entries[id]? = some entry ↔
      ∃ node ∈ h.remaining, node.id = id ∧ IndexEntry.ofNode node = entry := by
  induction h with
  | start => simp [index, remaining]
  | add before entering ih =>
    obtain ⟨orderly, fresh⟩ := orderly
    by_cases unknown : entering.kind = .unknown
    · simpa [index, add_of_unknown _ unknown, remaining, unknown] using ih orderly
    · rw [index, entries_add unknown]
      constructor
      · intro he
        split at he
        next hid =>
          exact ⟨entering, mem_remaining_add.mpr (.inr ⟨rfl, unknown⟩), hid, Option.some.inj he⟩
        next =>
          obtain ⟨node, hn, hid, hentry⟩ := (ih orderly).mp he
          exact ⟨node, mem_remaining_add.mpr (.inl hn), hid, hentry⟩
      · rintro ⟨node, hn, rfl, rfl⟩
        rcases mem_remaining_add.mp hn with hn | ⟨rfl, -⟩
        · rw [if_neg fun he => fresh node hn he.symm]
          exact (ih orderly).mpr ⟨node, hn, rfl, rfl⟩
        · rw [if_pos rfl]
  | remove before x ih =>
    rw [index, entries_remove]
    constructor
    · intro he
      split at he
      next => cases he
      next hid =>
        obtain ⟨node, hn, rfl, hentry⟩ := (ih orderly).mp he
        exact ⟨node, mem_remaining_remove.mpr ⟨hn, fun he => hid he.symm⟩, rfl, hentry⟩
    · rintro ⟨node, hn, rfl, rfl⟩
      obtain ⟨hn, hid⟩ := mem_remaining_remove.mp hn
      rw [if_neg fun he => hid he.symm]
      exact (ih orderly).mpr ⟨node, hn, rfl, rfl⟩

/-- Every name leads to a node that has it, whatever has happened. -/
theorem Orderly.sound (orderly : h.Orderly) : h.index.Sound := by
  induction h with
  | start => exact faithful_empty.toSound
  | add before entering ih =>
    obtain ⟨orderly, fresh⟩ := orderly
    by_cases unknown : entering.kind = .unknown
    · rw [index, add_of_unknown _ unknown]
      exact ih orderly
    · refine (ih orderly).add unknown ?_
      cases he : before.index.entries[entering.id]? with
      | none => rfl
      | some entry =>
        obtain ⟨other, ho, hid, -⟩ := orderly.entries_iff.mp he
        exact absurd hid (fresh other ho)
  | remove before x ih => exact (ih orderly).remove x

/-- What a node is called, is known of it. -/
theorem Orderly.bind_entry {α : Type} (orderly : h.Orderly) {field : IndexEntry → Option α} {a : α} :
    h.index.entries[id]?.bind field = some a ↔
      ∃ node ∈ h.remaining, node.id = id ∧ field (.ofNode node) = some a := by
  rw [Option.bind_eq_some_iff]
  constructor
  · rintro ⟨entry, he, ha⟩
    obtain ⟨node, hn, hid, rfl⟩ := orderly.entries_iff.mp he
    exact ⟨node, hn, hid, ha⟩
  · rintro ⟨node, hn, hid, ha⟩
    exact ⟨_, orderly.entries_iff.mpr ⟨node, hn, hid, rfl⟩, ha⟩

/-! ## Built from scratch -/

section Scratch

variable {nodes : List Node}

theorem scratch_append_singleton (nodes : List Node) (node : Node) :
    scratch (nodes ++ [node]) = (scratch nodes).add node := by
  simp [scratch]

theorem index_scratch (nodes : List Node) : (scratch nodes).index = ofNodes nodes := by
  induction nodes using List.reverseRecOn with
  | nil => rfl
  | append_singleton nodes node ih => simp [scratch_append_singleton, index, ih, ofNodes]

theorem entered_scratch (nodes : List Node) : (scratch nodes).entered = nodes := by
  induction nodes using List.reverseRecOn with
  | nil => rfl
  | append_singleton nodes node ih => rw [scratch_append_singleton, entered, ih]

theorem remaining_scratch (real : ∀ node ∈ nodes, node.kind ≠ .unknown) :
    (scratch nodes).remaining = nodes := by
  induction nodes using List.reverseRecOn with
  | nil => rfl
  | append_singleton nodes node ih =>
    rw [scratch_append_singleton, remaining, if_neg (real node (by simp)),
      ih fun other ho => real other (List.mem_append_left _ ho)]

theorem orderly_scratch (real : ∀ node ∈ nodes, node.kind ≠ .unknown)
    (apart : nodes.Pairwise (·.id ≠ ·.id)) : (scratch nodes).Orderly := by
  induction nodes using List.reverseRecOn with
  | nil => trivial
  | append_singleton nodes node ih =>
    obtain ⟨apart, -, fresh⟩ := List.pairwise_append.mp apart
    have real' : ∀ other ∈ nodes, other.kind ≠ .unknown :=
      fun other ho => real other (List.mem_append_left _ ho)
    rw [scratch_append_singleton]
    refine ⟨ih real' apart, fun other ho => ?_⟩
    rw [remaining_scratch real'] at ho
    exact fresh other ho node (List.mem_singleton_self node)

/-- The nodes that are left can be entered into a new index. -/
theorem Orderly.scratch (orderly : h.Orderly) : (scratch h.remaining).Orderly :=
  orderly_scratch (fun _ hn => real_of_mem hn) orderly.pairwise

theorem Orderly.sound_ofNodes (orderly : h.Orderly) : (ofNodes h.remaining).Sound :=
  index_scratch h.remaining ▸ orderly.scratch.sound

theorem remaining_scratch_remaining (h : History) : (History.scratch h.remaining).remaining = h.remaining :=
  remaining_scratch fun _ hn => real_of_mem hn

/-- What is known of the nodes does not depend on what has been forgotten. -/
theorem Orderly.entries_eq (orderly : h.Orderly) :
    h.index.entries = (ofNodes h.remaining).entries := by
  apply ExtTreeMap.ext_getElem?
  intro id
  apply Option.ext
  intro entry
  rw [orderly.entries_iff, ← index_scratch, orderly.scratch.entries_iff, remaining_scratch_remaining]

theorem Orderly.decls_eq (orderly : h.Orderly) : h.index.decls = (ofNodes h.remaining).decls :=
  orderly.sound.decls_eq orderly.sound_ofNodes orderly.entries_eq

theorem Orderly.uniqueDecl?_eq (orderly : h.Orderly) (name : String) :
    h.index.uniqueDecl? name = (ofNodes h.remaining).uniqueDecl? name := by
  unfold uniqueDecl?
  rw [orderly.decls_eq, orderly.entries_eq]

end Scratch

end History

/-! ## Tables in which the last node has the name -/

/-- A table of names in which a node that is entered takes its name over, and gives it up when it goes. -/
structure LastWins (table : NameIndex → String → Option NodeId) (field : IndexEntry → Option String) :
    Prop where
  named : ∀ node name, field (.ofNode node) = some name → node.kind ≠ .unknown
  empty : ∀ name, table {} name = none
  add : ∀ ix node name, table (ix.add node) name =
    if field (.ofNode node) = some name then some node.id else table ix name
  remove : ∀ ix x name id, ix.Sound →
    (table (ix.remove x) name = some id ↔ table ix name = some id ∧ id ≠ x)

theorem lastWins_commonModules : LastWins (fun ix name => ix.commonModules[name]?) (·.commonModule) where
  named node name hname unknown := by simp [ofNode_of_unknown unknown] at hname
  empty name := by simp
  add ix node name := commonModules_add ix node name
  remove ix x name id sound := by
    rw [commonModules_remove]
    have hown := sound.commons name
    grind

theorem lastWins_objects : LastWins (fun ix name => ix.objects[name]?) (·.objectKey) where
  named node name hname unknown := by simp [ofNode_of_unknown unknown] at hname
  empty name := by simp
  add ix node name := objects_add ix node name
  remove ix x name id sound := by
    rw [objects_remove]
    have hown := sound.objects name
    grind

section LastWins

variable {table : NameIndex → String → Option NodeId} {field : IndexEntry → Option String}
  {h : History} {name : String} {id : NodeId} {last : Node}

/-- The name leads to the last node that was entered under it, as long as this node is left. -/
theorem LastWins.index_iff (wins : LastWins table field) (orderly : h.Orderly) :
    table h.index name = some id ↔
      ∃ last ∈ h.remaining, lastNamed? field h.entered name = some last ∧ last.id = id := by
  induction h with
  | start => simp [History.index, History.remaining, wins.empty]
  | add before entering ih =>
    rw [History.index, History.entered, wins.add, lastNamed?_append_singleton]
    by_cases hname : field (.ofNode entering) = some name
    · rw [if_pos hname, if_pos hname]
      constructor
      · intro hid
        exact ⟨entering, History.mem_remaining_add.mpr (.inr ⟨rfl, wins.named _ _ hname⟩), rfl,
          Option.some.inj hid⟩
      · rintro ⟨last, -, hlast, hid⟩
        rw [Option.some.inj hlast, hid]
    · rw [if_neg hname, if_neg hname, ih orderly.1]
      constructor
      · rintro ⟨last, hl, hlast⟩
        exact ⟨last, History.mem_remaining_add.mpr (.inl hl), hlast⟩
      · rintro ⟨last, hl, hlast, hid⟩
        rcases History.mem_remaining_add.mp hl with hl | ⟨rfl, -⟩
        · exact ⟨last, hl, hlast, hid⟩
        · exact absurd (field_of_lastNamed? hlast) hname
  | remove before x ih =>
    replace orderly : before.Orderly := orderly
    rw [History.index, wins.remove _ _ _ _ orderly.sound, ih orderly, History.entered]
    constructor
    · rintro ⟨⟨last, hl, hlast, rfl⟩, hid⟩
      exact ⟨last, History.mem_remaining_remove.mpr ⟨hl, hid⟩, hlast, rfl⟩
    · rintro ⟨last, hl, hlast, rfl⟩
      obtain ⟨hl, hid⟩ := History.mem_remaining_remove.mp hl
      exact ⟨⟨last, hl, hlast, rfl⟩, hid⟩

/-- The last node that was entered under a name is the last that is left, if it is left. -/
theorem lastNamed?_remaining (hl : last ∈ h.remaining)
    (hlast : lastNamed? field h.entered name = some last) :
    lastNamed? field h.remaining name = some last := by
  induction h with
  | start => simp [History.remaining] at hl
  | add before entering ih =>
    rw [History.entered, lastNamed?_append_singleton] at hlast
    -- If the node that enters has another name, the last one was there before.
    have hold : field (.ofNode entering) ≠ some name → last ∈ before.remaining := fun hname =>
      (History.mem_remaining_add.mp hl).resolve_right fun hnew =>
        hname (hnew.1 ▸ field_of_lastNamed? (if_neg hname ▸ hlast))
    unfold History.remaining
    split at hlast
    next hname =>
      cases hlast
      rw [if_neg (History.real_of_mem hl), lastNamed?_append_singleton, if_pos hname]
    next hname =>
      split
      · exact ih (hold hname) hlast
      · rw [lastNamed?_append_singleton, if_neg hname]
        exact ih (hold hname) hlast
  | remove before x ih =>
    obtain ⟨hl, hid⟩ := History.mem_remaining_remove.mp hl
    exact lastNamed?_filter (ih hl hlast) (by simpa using hid)

/-- Built from scratch, the table leads to the last node that is left. -/
theorem LastWins.ofNodes (wins : LastWins table field) (orderly : h.Orderly) (name : String) :
    table (ofNodes h.remaining) name = (lastNamed? field h.remaining name).map (·.id) := by
  apply Option.ext
  intro id
  rw [← History.index_scratch, wins.index_iff orderly.scratch, History.remaining_scratch_remaining,
    History.entered_scratch, Option.map_eq_some_iff]
  constructor
  · rintro ⟨last, -, hlast⟩
    exact ⟨last, hlast⟩
  · rintro ⟨last, hlast⟩
    exact ⟨last, mem_of_lastNamed? hlast.1, hlast⟩

/-- An orphaned name leads nowhere. -/
theorem LastWins.eq_none_of_orphaned (wins : LastWins table field) (orderly : h.Orderly)
    (orphaned : h.Orphaned field name) : table h.index name = none := by
  cases hid : table h.index name with
  | none => rfl
  | some id =>
    obtain ⟨last, hl, hlast, -⟩ := (wins.index_iff orderly).mp hid
    exact absurd hlast (orphaned.gone last hl)

/-- **A name is lost exactly if it is orphaned.** -/
theorem LastWins.eq_iff (wins : LastWins table field) (orderly : h.Orderly) :
    table h.index name = table (NameIndex.ofNodes h.remaining) name ↔ ¬ h.Orphaned field name := by
  constructor
  · intro he orphaned
    rw [wins.eq_none_of_orphaned orderly orphaned, wins.ofNodes orderly, eq_comm,
      Option.map_eq_none_iff, lastNamed?_eq_none_iff] at he
    obtain ⟨node, hn, hname⟩ := orphaned.borne
    exact he node hn hname
  · intro hno
    rw [wins.ofNodes orderly]
    cases hlast : lastNamed? field h.remaining name with
    | none =>
      -- Where nobody bears the name, nobody holds it.
      cases hid : table h.index name with
      | none => rfl
      | some id =>
        obtain ⟨last, hl, hentered, -⟩ := (wins.index_iff orderly).mp hid
        rw [lastNamed?_remaining hl hentered] at hlast
        cases hlast
    | some heir =>
      have hborne : ∃ node ∈ h.remaining, field (.ofNode node) = some name :=
        ⟨heir, mem_of_lastNamed? hlast, field_of_lastNamed? hlast⟩
      obtain ⟨last, hl, hentered⟩ :
          ∃ last ∈ h.remaining, lastNamed? field h.entered name = some last := by
        by_contra hgone
        exact hno ⟨hborne, fun last hl he => hgone ⟨last, hl, he⟩⟩
      have hheir : last = heir := by
        simpa [lastNamed?_remaining hl hentered] using hlast
      exact (wins.index_iff orderly).mpr ⟨last, hl, hentered, by rw [hheir]⟩

end LastWins

/-! ## The table in which the first declaration has the name -/

section FirstWins

variable {h : History} {node : Node} {name : LocalName} {id : NodeId}

theorem Sound.moduleDecls_remove_iff {ix : NameIndex} (sound : ix.Sound) (x : NodeId) :
    (ix.remove x).moduleDecls[name]? = some id ↔ ix.moduleDecls[name]? = some id ∧ id ≠ x := by
  rw [moduleDecls_remove]
  have hown := sound.locals name
  grind

theorem History.mem_of_overlooked (overlooked : h.Overlooked node) : node ∈ h.remaining := by
  induction h with
  | start => exact overlooked.elim
  | add before entering ih =>
    rcases overlooked with hold | ⟨rfl, name, holder, hname, -⟩
    · exact mem_remaining_add.mpr (.inl (ih hold))
    · refine mem_remaining_add.mpr (.inr ⟨rfl, fun unknown => ?_⟩)
      rw [ofNode_of_unknown unknown] at hname
      cases hname
  | remove before x ih => exact mem_remaining_remove.mpr ⟨ih overlooked.1, overlooked.2⟩

/-- A declaration is found in its module exactly if it was not overlooked. -/
theorem History.Orderly.holds_iff (orderly : h.Orderly) (hn : node ∈ h.remaining)
    (hname : (IndexEntry.ofNode node).decl = some name) :
    h.index.moduleDecls[name]? = some node.id ↔ ¬ h.Overlooked node := by
  induction h with
  | start => simp [remaining] at hn
  | add before entering ih =>
    obtain ⟨orderly, fresh⟩ := orderly
    rw [index, moduleDecls_add, Overlooked]
    rcases mem_remaining_add.mp hn with hn | ⟨rfl, -⟩
    · -- Whoever enters later takes no name away.
      have hne : entering ≠ node := fun he => fresh node hn (by rw [he])
      have hid : entering.id ≠ node.id := fun he => fresh node hn he.symm
      simp only [hne, false_and, or_false, ← ih orderly hn]
      cases before.index.moduleDecls[name]? <;> simp [hid]
    · have hnew : ¬ before.Overlooked node := fun hold => fresh node (mem_of_overlooked hold) rfl
      cases hheld : before.index.moduleDecls[name]? with
      | none => simp [hname, hheld, hnew]
      | some holder =>
        obtain ⟨other, ho, rfl, -⟩ := orderly.bind_entry.mp (orderly.sound.locals name holder hheld)
        simp [hname, hheld, fresh other ho]
  | remove before x ih =>
    replace orderly : before.Orderly := orderly
    obtain ⟨hn, hid⟩ := mem_remaining_remove.mp hn
    rw [index, orderly.sound.moduleDecls_remove_iff, ih orderly hn, Overlooked, not_and]
    simp [hid]

/-- Whatever is found in a module is left there, and was not overlooked. -/
theorem History.Orderly.holder (orderly : h.Orderly) (hid : h.index.moduleDecls[name]? = some id) :
    ∃ node ∈ h.remaining, node.id = id ∧ (IndexEntry.ofNode node).decl = some name ∧
      ¬ h.Overlooked node := by
  obtain ⟨node, hn, rfl, hname⟩ := orderly.bind_entry.mp (orderly.sound.locals name id hid)
  exact ⟨node, hn, rfl, hname, (orderly.holds_iff hn hname).mp hid⟩

/-- Built from scratch, the table leads to the first declaration. -/
theorem moduleDecls_ofNodes (nodes : List Node) (name : LocalName) :
    (ofNodes nodes).moduleDecls[name]? = (firstNamed? nodes name).map (·.id) := by
  induction nodes using List.reverseRecOn with
  | nil => simp [ofNodes, firstNamed?]
  | append_singleton nodes node ih =>
    have hadd : ofNodes (nodes ++ [node]) = (ofNodes nodes).add node := by simp [ofNodes]
    rw [hadd, moduleDecls_add, ih, firstNamed?, firstNamed?, List.find?_append]
    by_cases hname : (IndexEntry.ofNode node).decl = some name
    · cases List.find? (fun node => decide ((IndexEntry.ofNode node).decl = some name)) nodes <;>
        simp [hname]
    · simp [hname]

theorem firstNamed?_eq_some {nodes : List Node} (hfirst : firstNamed? nodes name = some node) :
    node ∈ nodes ∧ (IndexEntry.ofNode node).decl = some name :=
  ⟨List.mem_of_find?_eq_some hfirst, by simpa using List.find?_some hfirst⟩

/-- **A declaration is lost exactly if it is the first that is left and was overlooked.** -/
theorem History.Orderly.moduleDecls_eq_iff (orderly : h.Orderly) (name : LocalName) :
    h.index.moduleDecls[name]? = (ofNodes h.remaining).moduleDecls[name]? ↔
      ∀ first, firstNamed? h.remaining name = some first → ¬ h.Overlooked first := by
  rw [moduleDecls_ofNodes]
  cases hfirst : firstNamed? h.remaining name with
  | none =>
    refine iff_of_true ?_ fun first he => by cases he
    cases hid : h.index.moduleDecls[name]? with
    | none => rfl
    | some id =>
      obtain ⟨node, hn, -, hname, -⟩ := orderly.holder hid
      exact absurd hname (by simpa [firstNamed?] using List.find?_eq_none.mp hfirst node hn)
  | some first =>
    obtain ⟨hn, hname⟩ := firstNamed?_eq_some hfirst
    rw [Option.map_some, orderly.holds_iff hn hname]
    simp

end FirstWins

/-! ## Where references lead -/

section Target

variable {a b ix : NameIndex} {r : Reference} {target : NodeId}

/-- What a reference means is known. -/
theorem Sound.target?_eq_some_iff (sound : ix.Sound) :
    ix.target? r = some target ↔ ∃ kind, ix.resolve? r = some (target, kind) := by
  simp only [resolve?_eq_some_iff, exists_and_left, iff_self_and]
  intro ht
  have hentry : ∃ entry, ix.entries[target]? = some entry := by
    cases hcall : r.kind.isCall with
    | false =>
      obtain ⟨entry, he, -⟩ := Option.bind_eq_some_iff.mp (sound.objectOf?_of_target? hcall ht)
      exact ⟨entry, he⟩
    | true =>
      obtain ⟨_, hname⟩ := sound.declOf?_of_target? hcall ht
      obtain ⟨entry, he, -⟩ := Option.bind_eq_some_iff.mp hname
      exact ⟨entry, he⟩
  obtain ⟨entry, he⟩ := hentry
  exact ⟨entry.kind, by rw [kind?, he]; rfl⟩

theorem Sound.resolve?_eq_iff (ha : a.Sound) (hb : b.Sound) (hkind : ∀ id, a.kind? id = b.kind? id) :
    a.resolve? r = b.resolve? r ↔ a.target? r = b.target? r := by
  constructor
  · intro he
    apply Option.ext
    intro target
    rw [ha.target?_eq_some_iff, hb.target?_eq_some_iff, he]
  · intro he
    apply Option.ext
    rintro ⟨target, kind⟩
    rw [resolve?_eq_some_iff, resolve?_eq_some_iff, he, hkind]

end Target

namespace History

variable {h : History} {r : Reference}

theorem misled_object_iff (hcall : r.kind.isCall = false) :
    h.Misled r ↔ h.Orphaned (·.objectKey) (lower r.awaited) := by
  constructor
  · rintro (⟨-, lost⟩ | ⟨hother⟩ | ⟨hother⟩)
    · exact lost
    all_goals
      rw [hcall] at hother
      cases hother
  · exact .object hcall

theorem misled_qualified_iff (hcall : r.kind.isCall = true) {qualifier name : String}
    (hcut : cutAt? '.' (lower r.awaited) = some (qualifier, name)) :
    h.Misled r ↔ ∃ module decl, lastNamed? (·.commonModule) h.remaining qualifier = some module ∧
      firstNamed? h.remaining ⟨module.id, name⟩ = some decl ∧
      (h.Orphaned (·.commonModule) qualifier ∨ h.Overlooked decl) := by
  constructor
  · rintro (⟨hother⟩ | ⟨-, hcut', hm, hd, lost⟩ | ⟨-, hcut'⟩)
    · rw [hcall] at hother
      cases hother
    · rw [hcut] at hcut'
      cases hcut'
      exact ⟨_, _, hm, hd, lost⟩
    · rw [hcut] at hcut'
      cases hcut'
  · rintro ⟨module, decl, hm, hd, lost⟩
    exact .qualified hcall hcut hm hd lost

theorem misled_inside_iff (hcall : r.kind.isCall = true) (hcut : cutAt? '.' (lower r.awaited) = none) :
    h.Misled r ↔ ∃ module decl, r.context = some module ∧
      firstNamed? h.remaining ⟨module, lower r.awaited⟩ = some decl ∧ h.Overlooked decl ∧
      ((∃ other ∈ h.remaining, ¬ h.Overlooked other ∧
          (IndexEntry.ofNode other).decl = some ⟨module, lower r.awaited⟩) ∨
        h.index.uniqueDecl? (lower r.awaited) ≠ some decl.id) := by
  constructor
  · rintro (⟨hother⟩ | ⟨-, hcut'⟩ | ⟨-, -, hc, hd, lost, astray⟩)
    · rw [hcall] at hother
      cases hother
    · rw [hcut] at hcut'
      cases hcut'
    · exact ⟨_, _, hc, hd, lost, astray⟩
  · rintro ⟨module, decl, hc, hd, lost, astray⟩
    exact .inside hcall hcut hc hd lost astray

theorem Orderly.target?_object (orderly : h.Orderly) (hcall : r.kind.isCall = false) :
    h.index.target? r = (ofNodes h.remaining).target? r ↔ ¬ h.Misled r := by
  rw [target?_of_object _ hcall, target?_of_object _ hcall, lastWins_objects.eq_iff orderly,
    misled_object_iff hcall]

theorem Orderly.target?_qualified (orderly : h.Orderly) (hcall : r.kind.isCall = true)
    {qualifier name : String} (hcut : cutAt? '.' (lower r.awaited) = some (qualifier, name)) :
    h.index.target? r = (ofNodes h.remaining).target? r ↔ ¬ h.Misled r := by
  rw [target?_of_qualified _ hcall hcut, target?_of_qualified _ hcall hcut,
    misled_qualified_iff hcall hcut]
  have hscratch := lastWins_commonModules.ofNodes orderly qualifier
  by_cases orphaned : h.Orphaned (·.commonModule) qualifier
  · have hnone := lastWins_commonModules.eq_none_of_orphaned orderly orphaned
    rw [hnone, hscratch, eq_comm]
    cases lastNamed? (·.commonModule) h.remaining qualifier with
    | none => simp
    | some module => simp [moduleDecls_ofNodes, orphaned, Option.eq_none_iff_forall_ne_some]
  · rw [(lastWins_commonModules.eq_iff orderly).mpr orphaned, hscratch]
    cases lastNamed? (·.commonModule) h.remaining qualifier with
    | none => simp
    | some module => simp [orderly.moduleDecls_eq_iff, orphaned]

/-- A first declaration that was overlooked is found only where no other one of its module is, and then
only from anywhere. -/
theorem Orderly.or_eq_some_iff (orderly : h.Orderly) {name : LocalName} {first : Node}
    (hfirst : firstNamed? h.remaining name = some first) (overlooked : h.Overlooked first)
    {anywhere : Option NodeId} :
    (h.index.moduleDecls[name]?).or anywhere = some first.id ↔
      ¬ ((∃ other ∈ h.remaining, ¬ h.Overlooked other ∧ (IndexEntry.ofNode other).decl = some name) ∨
        anywhere ≠ some first.id) := by
  obtain ⟨hn, hname⟩ := firstNamed?_eq_some hfirst
  cases hid : h.index.moduleDecls[name]? with
  | none =>
    have hno : ¬ ∃ other ∈ h.remaining, ¬ h.Overlooked other ∧
        (IndexEntry.ofNode other).decl = some name := by
      rintro ⟨other, ho, hheld, hother⟩
      rw [(orderly.holds_iff ho hother).mpr hheld] at hid
      cases hid
    rw [Option.none_or, not_or, not_not, and_iff_right hno]
  | some holder =>
    obtain ⟨other, ho, rfl, hother, hheld⟩ := orderly.holder hid
    refine iff_of_false (fun he => ?_) fun hno => hno (.inl ⟨other, ho, hheld, hother⟩)
    rw [Option.some_or] at he
    exact (orderly.holds_iff hn hname).mp (hid.trans he) overlooked

theorem Orderly.target?_unqualified (orderly : h.Orderly) (hcall : r.kind.isCall = true)
    (hcut : cutAt? '.' (lower r.awaited) = none) :
    h.index.target? r = (ofNodes h.remaining).target? r ↔ ¬ h.Misled r := by
  rw [target?_of_unqualified _ hcall hcut, target?_of_unqualified _ hcall hcut,
    misled_inside_iff hcall hcut, orderly.uniqueDecl?_eq]
  cases hc : r.context with
  | none => simp
  | some module =>
    have hlocal := orderly.moduleDecls_eq_iff ⟨module, lower r.awaited⟩
    cases hfirst : firstNamed? h.remaining ⟨module, lower r.awaited⟩ with
    | none =>
      rw [hfirst] at hlocal
      simp [hfirst, hlocal.mpr (by simp)]
    | some first =>
      rw [hfirst] at hlocal
      -- What is found anywhere is the same for both, so that only the module itself can make a difference.
      by_cases overlooked : h.Overlooked first
      · simp [hfirst, overlooked, moduleDecls_ofNodes, orderly.or_eq_some_iff hfirst overlooked]
      · simp [hfirst, overlooked, hlocal.mpr (by simpa using overlooked)]

/-- Where a reference leads tells whether it is misled. -/
theorem Orderly.target?_eq_iff (orderly : h.Orderly) (r : Reference) :
    h.index.target? r = (ofNodes h.remaining).target? r ↔ ¬ h.Misled r := by
  cases hcall : r.kind.isCall with
  | false => exact orderly.target?_object hcall
  | true =>
    cases hcut : cutAt? '.' (lower r.awaited) with
    | none => exact orderly.target?_unqualified hcall hcut
    | some parts => exact orderly.target?_qualified hcall hcut

end History

/-- **What an index remembers of the nodes that it has forgotten.** After any calls in which no id is
entered again before it is removed, the index knows the same nodes, with the same kinds and modules, as one
that is built from scratch of the nodes that are left; and it resolves a reference in the same way exactly
if the reference is not misled. -/
theorem index_eq_scratch_iff (h : History) (orderly : h.Orderly) :
    (∀ id, h.index.contains id = (ofNodes h.remaining).contains id ∧
      h.index.kind? id = (ofNodes h.remaining).kind? id ∧
      h.index.moduleOf? id = (ofNodes h.remaining).moduleOf? id) ∧
    ∀ r, h.index.resolve? r = (ofNodes h.remaining).resolve? r ↔ ¬ h.Misled r := by
  have hkind : ∀ id, h.index.kind? id = (ofNodes h.remaining).kind? id := fun id => by
    rw [kind?, kind?, orderly.entries_eq]
  refine ⟨fun id => ⟨?_, hkind id, ?_⟩, fun r => ?_⟩
  · rw [contains, contains, orderly.entries_eq]
  · rw [moduleOf?, moduleOf?, orderly.entries_eq]
  · rw [orderly.sound.resolve?_eq_iff orderly.sound_ofNodes hkind, orderly.target?_eq_iff]

/-! ## Names that differ in case -/

def sampleCatalog (name : String) : Node where
  id := .metadataObject .catalog name
  kind := .metadataObject .catalog
  displayName := name

def sampleModule (id name : String) : Node where
  id := ⟨id⟩
  kind := .module
  displayName := name
  props := .ofList [("common_module", .text name)]

def sampleDecl (module name : String) : Node where
  id := .declaration ⟨module⟩ name
  kind := .procedure
  displayName := name
  props := .ofList [("module", .text module)]

/-- Two catalogs, two common modules and two declarations of one module have names that differ in case only.
Of each two, the one that has the name goes. -/
def sampleForgetful : History :=
  (((History.scratch [sampleCatalog "Goods", sampleCatalog "goods", sampleModule "A" "Utils",
    sampleModule "B" "utils", sampleDecl "A" "Round", sampleDecl "A" "round",
    sampleDecl "C" "round"]).remove ⟨"Catalog.goods"⟩).remove ⟨"B"⟩).remove ⟨"A::Round"⟩

/-- A use or a call of a name from inside a module. -/
def sampleRef (kind : RefKind) (awaited : String) (module : String) : Reference where
  owner := .declaration ⟨module⟩ "Main"
  awaited := awaited
  kind := kind
  unit := "main.bsl"
  line := some 1
  context := some ⟨module⟩

/-- The use of the catalog, the call through the common module and the call within the module are misled,
but not the same call from the other module. -/
theorem index_eq_scratch_iff_sample :
    sampleForgetful.Orderly ∧ sampleForgetful.Misled (sampleRef .metadata "Catalog.Goods" "A") ∧
      sampleForgetful.Misled (sampleRef .call "Utils.Round" "C") ∧
      sampleForgetful.Misled (sampleRef .call "Round" "A") ∧
      ¬ sampleForgetful.Misled (sampleRef .call "Round" "C") := by
  have orderly : sampleForgetful.Orderly := by decide +kernel
  have hmisled : ∀ r, sampleForgetful.index.resolve? r ≠ (ofNodes sampleForgetful.remaining).resolve? r →
      sampleForgetful.Misled r := fun r hne => by
    by_contra hno
    exact hne (((index_eq_scratch_iff sampleForgetful orderly).2 r).mpr hno)
  refine ⟨orderly, hmisled _ (by decide +kernel), hmisled _ (by decide +kernel),
    hmisled _ (by decide +kernel), ?_⟩
  exact ((index_eq_scratch_iff sampleForgetful orderly).2 _).mp (by decide +kernel)

/-- **Removing a node takes names away from others.** Each of these names is still borne by one node that
is left, and an index of what is left finds it. -/
theorem forgetting_loses_names :
    sampleForgetful.Orderly ∧
      sampleForgetful.index.resolve? (sampleRef .metadata "Catalog.Goods" "A") = none ∧
      (ofNodes sampleForgetful.remaining).resolve? (sampleRef .metadata "Catalog.Goods" "A") =
        some (⟨"Catalog.Goods"⟩, .metadataObject .catalog) ∧
      sampleForgetful.index.resolve? (sampleRef .call "Utils.Round" "C") = none ∧
      (ofNodes sampleForgetful.remaining).resolve? (sampleRef .call "Utils.Round" "C") =
        some (⟨"A::round"⟩, .procedure) ∧
      sampleForgetful.index.resolve? (sampleRef .call "Round" "A") = none ∧
      (ofNodes sampleForgetful.remaining).resolve? (sampleRef .call "Round" "A") =
        some (⟨"A::round"⟩, .procedure) := by
  decide +kernel

end NameIndex

end CodeAtlas
