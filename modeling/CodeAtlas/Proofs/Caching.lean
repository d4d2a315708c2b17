import CodeAtlas.Parsing.Parser
import CodeAtlas.Proofs.Source.Headings
import Mathlib.Logic.Function.Iterate
import Mathlib.Logic.Relation
import Mathlib.Tactic.SplitIfs

/-!
# What a cache may answer

Several parsers work at the same time above one store. Each has a memory of its own, which may forget
anything at any time, and their calls run into each other: a call looks into memory, into the store,
reads the unit, writes to the store, writes to memory, and between any two of these steps any other
call may take some of its own.

What makes all of this invisible is that an outline is right for its key and not only for the unit it
was read from. The key holds the hash of the content, the kind of the unit, and whether the analyzer
takes part; the outline depends on nothing else. So every entry of every layer is right for whoever
finds it, and what a call returns is what its parser gives without a cache. The assumption is that the
contents in question have different hashes, and that the analyzer answers: a worker that is lost or
stuck leaves a degraded outline, which would be kept like any other.
-/

set_option autoImplicit false

namespace CodeAtlas

open Relation

/-! ## Reading measures nothing

Only an analysis gives a declaration its measures. -/

/-- A measure is no part of what a declaration is from its header on. -/
theorem Source.flow_ofModule {text : String} {decl : Declaration}
    (h : decl ∈ (Outline.ofModule text).declarations) : decl.flow = none := by
  have hheading : decl.heading ∈ (sites (lex text).tokens).map (Site.heading (lex text).comments) := by
    rw [← map_heading_ofModule]
    exact List.mem_map_of_mem h
  obtain ⟨site, -, hsite⟩ := List.mem_map.mp hheading
  show decl.heading.flow = none
  rw [← hsite]
  rfl

namespace Outline

/-- An outline in which nothing has been analyzed. -/
structure Unmeasured (o : Outline) : Prop where
  flow : ∀ decl ∈ o.declarations, decl.flow = none
  applied : o.flags.deepApplied = false

/-- What reading the text of a unit gives has not been analyzed. -/
theorem unmeasured_ofContent (kind : UnitKind) (content : String) :
    (ofContent kind content).Unmeasured := by
  unfold ofContent
  split
  · unfold ofDescriptor
    split <;> exact ⟨by simp [failed], rfl⟩
  · exact ⟨fun _ => Source.flow_ofModule, rfl⟩

end Outline

/-! ## What a parser gives without a cache -/

namespace Analyzer

/-- An analyzer that answers, with measures or with an error, and does so in time. -/
def Timely (a : Analyzer) : Prop :=
  ∀ source decls, (∃ flows, a.analyze source decls = .measured flows) ∨
    ∃ error, a.analyze source decls = .failed error

/-- An outline after its analysis on a free worker. -/
def applyTo (a : Analyzer) (source : String) (o : Outline) : Outline :=
  match a.analyze source o.declarations with
  | .measured flows => if flows.length = o.declarations.length then o.withFlows flows else o.degraded
  | _ => o.degraded

end Analyzer

namespace Parser

variable {p q : Parser} {pool : WorkerPool} {unit other : SourceUnit} {a : Analyzer}

/-- The outline that a parser gives for a unit if it has no cache and a worker is free. -/
def outlineOf (p : Parser) (unit : SourceUnit) : Outline :=
  (p.parse unit { cache := { hasRoom := false }, pool := .ofSize 1, store := .absent }).1.outline

/-- The analyzer is all that can come in between. -/
theorem outline_read (free : pool.alive ≠ 0) (unit : SourceUnit) :
    let o := Outline.ofContent unit.kind unit.content
    (p.read pool unit).1.outline = (p.analyzerFor? unit o).elim o (·.applyTo unit.content o) := by
  intro o
  rcases hanalyzer : p.analyzerFor? unit o with _ | a
  · simp only [o] at hanalyzer
    simp only [read, hanalyzer]
    rfl
  · simp only [o] at hanalyzer
    simp only [read, hanalyzer, WorkerPool.run, if_neg free, Option.elim_some, Analyzer.applyTo,
      WorkerPool.accept]
    cases a.analyze unit.content (Outline.ofContent unit.kind unit.content).declarations with
    | measured flows =>
      dsimp only
      split_ifs <;> rfl
    | _ => rfl

theorem outlineOf_eq (p : Parser) (unit : SourceUnit) :
    let o := Outline.ofContent unit.kind unit.content
    p.outlineOf unit = (p.analyzerFor? unit o).elim o (·.applyTo unit.content o) := by
  have hread : p.outlineOf unit = (p.read (.ofSize 1) unit).1.outline := by
    simp [outlineOf, parse, ParseCache.get, CacheStore.outline?, CacheStore.get]
  exact hread.trans (outline_read (by decide) unit)

/-- It does not matter which worker is free. -/
theorem outline_read_eq (free : pool.alive ≠ 0) (unit : SourceUnit) :
    (p.read pool unit).1.outline = p.outlineOf unit :=
  (outline_read free unit).trans (outlineOf_eq p unit).symm

/-- Only an active analyzer is ever asked. -/
theorem mem_activeAnalyzer? {o : Outline} (h : a ∈ p.analyzerFor? unit o) : a ∈ p.activeAnalyzer? := by
  unfold analyzerFor? at h
  split at h
  · exact h
  · cases h

/-- A worker whose analyzer answers stays. -/
theorem pool_read (timely : ∀ a ∈ p.activeAnalyzer?, a.Timely) (unit : SourceUnit) :
    (p.read pool unit).2 = pool := by
  rcases hanalyzer : p.analyzerFor? unit (Outline.ofContent unit.kind unit.content) with _ | a
  · simp only [read, hanalyzer]
  · simp only [read, hanalyzer, WorkerPool.run]
    split_ifs
    · rfl
    · rcases timely a (mem_activeAnalyzer? hanalyzer) unit.content
        (Outline.ofContent unit.kind unit.content).declarations with ⟨flows, h⟩ | ⟨error, h⟩ <;> rw [h]

/-- A parser without an analyzer measures nothing. -/
theorem unmeasured_outlineOf (h : p.deepEnabled = false) (unit : SourceUnit) :
    (p.outlineOf unit).Unmeasured := by
  have hnone : p.activeAnalyzer? = none := by simpa [deepEnabled] using h
  have hread : p.outlineOf unit = .ofContent unit.kind unit.content := by
    simp [outlineOf_eq, analyzerFor?, hnone]
  rw [hread]
  exact Outline.unmeasured_ofContent unit.kind unit.content

/-- The key tells the units apart that are given to an analyzer. -/
theorem kind_eq_of_cacheKey (h : p.cacheKey unit = q.cacheKey other) :
    unit.kind = other.kind ∧
      (unit.kind = .sourceModule → p.deepEnabled = q.deepEnabled) := by
  have htag := congrArg CacheKey.tag h
  simp only [cacheKey] at htag
  cases hu : unit.kind <;> cases ho : other.kind <;> cases hp : p.deepEnabled <;>
    cases hq : q.deepEnabled <;> simp_all [UnitKind.tag]

/-- **A key says all that an outline depends on**, once its hash has told the contents apart. -/
theorem outlineOf_eq_of_cacheKey (hp : ∀ b ∈ p.activeAnalyzer?, b = a)
    (hq : ∀ b ∈ q.activeAnalyzer?, b = a) (hkey : p.cacheKey unit = q.cacheKey other)
    (hcontent : unit.content = other.content) : p.outlineOf unit = q.outlineOf other := by
  obtain ⟨hkind, hdeep⟩ := kind_eq_of_cacheKey hkey
  have hanalyzer : ∀ o, p.analyzerFor? unit o = q.analyzerFor? other o := by
    intro o
    unfold analyzerFor?
    rw [← hkind]
    split
    · next hmodule =>
      have hboth := hdeep hmodule.1
      unfold deepEnabled at hboth
      cases hap : p.activeAnalyzer? with
      | none =>
        rw [hap] at hboth
        exact (Option.not_isSome_iff_eq_none.mp (by simp [← hboth])).symm
      | some b =>
        obtain ⟨c, hc⟩ := Option.isSome_iff_exists.mp (hboth.symm.trans (by rw [hap]; rfl))
        rw [hc, hp b hap, hq c hc]
    · rfl
  rw [outlineOf_eq, outlineOf_eq, hkind, hcontent, hanalyzer]

end Parser

/-! ## Calls in steps -/

/-- How far a call has come. -/
inductive Phase where
  | called
  /-- Memory had nothing. -/
  | missed
  /-- The store had an outline, which goes into memory next. -/
  | found (outline : Outline)
  /-- Neither had anything. -/
  | unread
  /-- The unit was read, and its outline goes into the store next. -/
  | read (outcome : ParseOutcome)
  /-- The outline goes into memory next. -/
  | stored (outcome : ParseOutcome)
  | returned (outcome : ParseOutcome)

/-- The outline that a call has come to. -/
def Phase.outline? : Phase → Option Outline
  | called | missed | unread => none
  | found outline => some outline
  | read outcome | stored outcome | returned outcome => some outcome.outline

/-- Everything in reach of a parser is right for its key. -/
structure ParserState.Sound (right : CacheKey → Outline → Prop) (s : ParserState) : Prop where
  memory : ∀ key o, s.cache.memory[key]? = some o → right key o
  store : ∀ key o, s.store.outline? key = some o → right key o
  free : s.pool.alive ≠ 0

section Layers

variable {right : CacheKey → Outline → Prop} {key : CacheKey} {o : Outline}

/-- What is in memory after an outline was put there: that outline, or what was there before. -/
theorem ParseCache.of_put {c : ParseCache} {k : CacheKey} {found : Outline}
    (h : (c.put key o).memory[k]? = some found) :
    (k = key ∧ found = o) ∨ c.memory[k]? = some found := by
  unfold put at h
  split at h
  · rw [Std.ExtTreeMap.getElem?_insert] at h
    split at h
    · next hk => exact .inl ⟨(Std.LawfulEqOrd.eq_of_compare hk).symm, (Option.some.inj h).symm⟩
    · exact .inr h
  · exact .inr h

/-- A row that is written leaves the others as they are. -/
theorem CacheTable.of_insert {t : CacheTable} {k : CacheKey} {record found : StoredOutline}
    (h : (t.insert key record).get? k = some found) :
    (k = key ∧ found = record) ∨ t.get? k = some found := by
  unfold insert at h
  split at h
  · exact .inr h
  · simp only [get?, Std.ExtTreeMap.getElem?_insert] at h
    split at h
    · next hk => exact .inl ⟨(Std.LawfulEqOrd.eq_of_compare hk).symm, (Option.some.inj h).symm⟩
    · exact .inr h

/-- What the store has after an outline was kept: that outline, or what it had before. -/
theorem CacheStore.of_keep {store : CacheStore} {k : CacheKey} {found : Outline}
    (h : (store.keep key o).outline? k = some found) :
    (k = key ∧ found = o) ∨ store.outline? k = some found := by
  cases store with
  | absent => exact .inr h
  | down message => exact .inr h
  | table t =>
    replace h : (match (t.insert key (.written o)).get? k with
      | some record => record.read?
      | none => none) = some found := by
      rw [← h]
      simp only [keep, put, outline?, get]
      cases (t.insert key (.written o)).get? k <;> rfl
    cases hrow : (t.insert key (.written o)).get? k with
    | none => simp [hrow] at h
    | some record =>
      rw [hrow] at h
      rcases CacheTable.of_insert hrow with ⟨hk, rfl⟩ | hold
      · exact .inl ⟨hk, (Option.some.inj h).symm⟩
      · exact .inr (by simpa [outline?, get, hold] using h)

end Layers

namespace Parser

/-- The next step of a call. -/
def advance (p : Parser) (unit : SourceUnit) : Phase × ParserState → Phase × ParserState
  | (.called, s) =>
    match s.cache.memory[p.cacheKey unit]? with
    | some outline =>
      (.returned { path := unit.path, outline, cacheHit := true },
        { s with cache := { s.cache with hits := s.cache.hits + 1 } })
    | none => (.missed, s)
  | (.missed, s) =>
    match s.store.outline? (p.cacheKey unit) with
    | some outline => (.found outline, s)
    | none => (.unread, { s with cache := { s.cache with misses := s.cache.misses + 1 } })
  | (.found outline, s) =>
    (.returned { path := unit.path, outline, cacheHit := true },
      { s with cache := { s.cache.put (p.cacheKey unit) outline with hits := s.cache.hits + 1 } })
  | (.unread, s) =>
    let (outcome, pool) := p.read s.pool unit
    (.read outcome, { s with pool })
  | (.read outcome, s) =>
    (.stored outcome, { s with store := s.store.keep (p.cacheKey unit) outcome.outline })
  | (.stored outcome, s) =>
    (.returned outcome, { s with cache := s.cache.put (p.cacheKey unit) outcome.outline })
  | (.returned outcome, s) => (.returned outcome, s)

/-- A call that nobody runs into takes these steps and no other. -/
theorem advance_parse (p : Parser) (unit : SourceUnit) (s : ParserState) :
    (p.advance unit)^[5] (.called, s) = (.returned (p.parse unit s).1, (p.parse unit s).2) := by
  rcases hmemory : s.cache.memory[p.cacheKey unit]? with _ | o
  · rcases hstore : s.store.outline? (p.cacheKey unit) with _ | o
    · simp [advance, parse, ParseCache.get, hmemory, hstore]
    · simp [advance, parse, ParseCache.get, hmemory, hstore]
  · simp [advance, parse, ParseCache.get, hmemory]

/-- One step: where everything was right, everything is right again, and so is what the call comes to. -/
theorem sound_advance {right : CacheKey → Outline → Prop} {p : Parser} {unit : SourceUnit}
    {phase : Phase} {s : ParserState} (timely : ∀ a ∈ p.activeAnalyzer?, a.Timely)
    (hright : ∀ o, right (p.cacheKey unit) o ↔ o = p.outlineOf unit)
    (sound : s.Sound right) (hphase : ∀ o ∈ phase.outline?, o = p.outlineOf unit) :
    (p.advance unit (phase, s)).2.Sound right ∧
      ∀ o ∈ (p.advance unit (phase, s)).1.outline?, o = p.outlineOf unit := by
  have kept : ∀ o, o = p.outlineOf unit → ∀ key found,
      (s.cache.put (p.cacheKey unit) o).memory[key]? = some found → right key found := by
    rintro o ho key found hfound
    rcases ParseCache.of_put hfound with ⟨rfl, rfl⟩ | hold
    · exact (hright _).mpr ho
    · exact sound.memory key found hold
  cases phase with
  | called =>
    rcases hmemory : s.cache.memory[p.cacheKey unit]? with _ | o
    · simp only [advance, hmemory]
      exact ⟨sound, hphase⟩
    · simp only [advance, hmemory]
      refine ⟨⟨sound.memory, sound.store, sound.free⟩, ?_⟩
      rintro _ ⟨⟩
      exact (hright o).mp (sound.memory _ o hmemory)
  | missed =>
    rcases hstore : s.store.outline? (p.cacheKey unit) with _ | o
    · simp only [advance, hstore]
      exact ⟨⟨sound.memory, sound.store, sound.free⟩, hphase⟩
    · simp only [advance, hstore]
      refine ⟨sound, ?_⟩
      rintro _ ⟨⟩
      exact (hright o).mp (sound.store _ o hstore)
  | found o => exact ⟨⟨kept o (hphase o rfl), sound.store, sound.free⟩, hphase⟩
  | unread =>
    have houtline : (p.read s.pool unit).1.outline = p.outlineOf unit :=
      outline_read_eq sound.free unit
    have hpool : (p.read s.pool unit).2 = s.pool := pool_read timely unit
    refine ⟨⟨sound.memory, sound.store, ?_⟩, ?_⟩
    · show (p.read s.pool unit).2.alive ≠ 0
      rw [hpool]
      exact sound.free
    · rintro _ ⟨⟩
      exact houtline
  | read outcome =>
    refine ⟨⟨sound.memory, fun key found hfound => ?_, sound.free⟩, hphase⟩
    rcases CacheStore.of_keep hfound with ⟨rfl, rfl⟩ | hold
    · exact (hright _).mpr (hphase _ rfl)
    · exact sound.store key found hold
  | stored outcome => exact ⟨⟨kept _ (hphase _ rfl), sound.store, sound.free⟩, hphase⟩
  | returned outcome => exact ⟨sound, hphase⟩

end Parser

/-! ## Parsers above one store -/

/-- A call of a parser. -/
structure Job (ι : Type) where
  parser : ι
  unit : SourceUnit
  phase : Phase := .called

/-- Parsers that work above one store, with the calls made so far. -/
structure Workshop (ι : Type) where
  caches : ι → ParseCache
  pools : ι → WorkerPool
  store : CacheStore
  jobs : List (Job ι) := []

namespace Workshop

variable {ι : Type}

/-- The beginning, over a store. -/
def start (parsers : ι → Parser) (cores : Nat) (store : CacheStore) : Workshop ι where
  caches i := ((parsers i).start cores store).cache
  pools i := ((parsers i).start cores store).pool
  store := store

/-- What a parser works on. -/
def state (w : Workshop ι) (i : ι) : ParserState := ⟨w.caches i, w.pools i, w.store⟩

variable [DecidableEq ι]

def setState (w : Workshop ι) (i : ι) (s : ParserState) : Workshop ι :=
  { w with
    caches := Function.update w.caches i s.cache
    pools := Function.update w.pools i s.pool
    store := s.store }

/-- The next step of a call. -/
def advance (parsers : ι → Parser) (w : Workshop ι) (n : Nat) (job : Job ι) : Workshop ι :=
  let (phase, s) := (parsers job.parser).advance job.unit (job.phase, w.state job.parser)
  { w.setState job.parser s with jobs := w.jobs.set n { job with phase } }

/-- What can happen next: a call for one of the units, a step of any call, or that a memory forgets. -/
inductive Step (parsers : ι → Parser) (units : SourceUnit → Prop) : Workshop ι → Workshop ι → Prop
  | call {w : Workshop ι} (i : ι) (unit : SourceUnit) (h : units unit) :
      Step parsers units w { w with jobs := w.jobs ++ [{ parser := i, unit }] }
  | advance {w : Workshop ι} (n : Nat) (job : Job ι) (h : w.jobs[n]? = some job) :
      Step parsers units w (w.advance parsers n job)
  | forget {w : Workshop ι} (i : ι) (cache : ParseCache)
      (h : ∀ (key : CacheKey) (o : Outline),
        cache.memory[key]? = some o → (w.caches i).memory[key]? = some o) :
      Step parsers units w { w with caches := Function.update w.caches i cache }

/-- Whether an outline is right for a key: it is what every parser gives for every unit with it. -/
def Right (parsers : ι → Parser) (units : SourceUnit → Prop) (key : CacheKey) (o : Outline) : Prop :=
  ∀ i unit, units unit → (parsers i).cacheKey unit = key → o = (parsers i).outlineOf unit

/-- Everything that is kept is right for its key, and so is what the calls have come to. -/
structure Sound (parsers : ι → Parser) (units : SourceUnit → Prop) (w : Workshop ι) : Prop where
  states : ∀ i, (w.state i).Sound (Right parsers units)
  unit : ∀ job ∈ w.jobs, units job.unit
  outline : ∀ job ∈ w.jobs, ∀ o ∈ job.phase.outline?, o = (parsers job.parser).outlineOf job.unit

section Run

variable {parsers : ι → Parser} {a : Analyzer} {units : SourceUnit → Prop} {w w' : Workshop ι}

omit [DecidableEq ι] in
/-- What one parser gives for a unit is right for the unit's key. -/
theorem right_cacheKey_iff (same : ∀ i, ∀ b ∈ (parsers i).activeAnalyzer?, b = a)
    (apart : ∀ u, units u → ∀ v, units v →
      ContentHash.ofText u.content = .ofText v.content → u.content = v.content)
    {i : ι} {unit : SourceUnit} (hunit : units unit) (o : Outline) :
    Right parsers units ((parsers i).cacheKey unit) o ↔ o = (parsers i).outlineOf unit := by
  constructor
  · exact fun h => h i unit hunit rfl
  · rintro rfl j other hother hkey
    have hhash := congrArg CacheKey.hash hkey.symm
    exact Parser.outlineOf_eq_of_cacheKey (same i) (same j) hkey.symm
      (apart unit hunit other hother hhash)

omit [DecidableEq ι] in
theorem sound_start (cores : Nat) {store : CacheStore} (blank : ∀ key, store.outline? key = none) :
    (start parsers cores store).Sound parsers units where
  states i :=
    { memory := by simp [state, start, Parser.start]
      store := by simp [state, start, blank]
      free := by simp [state, start, Parser.start, WorkerPool.ofSize] }
  unit := by simp [start]
  outline := by simp [start]

/-- The parsers beside the one that has moved share its store and nothing else with it. -/
theorem Sound.setState (sound : w.Sound parsers units) {i : ι} {s : ParserState}
    (hs : s.Sound (Right parsers units)) (j : ι) :
    ((w.setState i s).state j).Sound (Right parsers units) := by
  by_cases hj : j = i
  · subst hj
    have hstate : (w.setState j s).state j = s := by simp [Workshop.setState, state]
    rw [hstate]
    exact hs
  · have hstate : (w.setState i s).state j = { w.state j with store := s.store } := by
      simp [Workshop.setState, state, hj]
    rw [hstate]
    exact ⟨(sound.states j).memory, hs.store, (sound.states j).free⟩

theorem Step.sound (same : ∀ i, ∀ b ∈ (parsers i).activeAnalyzer?, b = a) (timely : a.Timely)
    (apart : ∀ u, units u → ∀ v, units v →
      ContentHash.ofText u.content = .ofText v.content → u.content = v.content)
    (step : Step parsers units w w') (sound : w.Sound parsers units) : w'.Sound parsers units := by
  cases step with
  | call i unit hunit =>
    refine ⟨sound.states, fun job hjob => ?_, fun job hjob => ?_⟩ <;>
      rcases List.mem_append.mp hjob with hjob | hjob
    · exact sound.unit job hjob
    · obtain rfl := List.mem_singleton.mp hjob
      exact hunit
    · exact sound.outline job hjob
    · obtain rfl := List.mem_singleton.mp hjob
      rintro _ ⟨⟩
  | advance n job hjob =>
    have hmem := List.mem_of_getElem? hjob
    have htimely : ∀ b ∈ (parsers job.parser).activeAnalyzer?, b.Timely :=
      fun b hb => same _ b hb ▸ timely
    obtain ⟨hs, houtline⟩ := Parser.sound_advance htimely
      (right_cacheKey_iff same apart (sound.unit job hmem)) (sound.states job.parser)
      (sound.outline job hmem)
    refine ⟨fun j => ?_, fun other hother => ?_, fun other hother => ?_⟩
    · exact sound.setState hs j
    · rcases List.mem_or_eq_of_mem_set hother with hold | rfl
      · exact sound.unit other hold
      · exact sound.unit job hmem
    · rcases List.mem_or_eq_of_mem_set hother with hold | rfl
      · exact sound.outline other hold
      · exact houtline
  | forget i cache hcache =>
    refine ⟨fun j => ?_, sound.unit, sound.outline⟩
    refine ⟨fun key o ho => ?_, (sound.states j).store, (sound.states j).free⟩
    by_cases hj : j = i
    · subst hj
      refine (sound.states j).memory key o (hcache key o ?_)
      simpa [state] using ho
    · refine (sound.states j).memory key o ?_
      simpa [state, hj] using ho

theorem sound_run (same : ∀ i, ∀ b ∈ (parsers i).activeAnalyzer?, b = a) (timely : a.Timely)
    (apart : ∀ u, units u → ∀ v, units v →
      ContentHash.ofText u.content = .ofText v.content → u.content = v.content)
    (run : ReflTransGen (Step parsers units) w w') (sound : w.Sound parsers units) :
    w'.Sound parsers units := by
  induction run with
  | refl => exact sound
  | tail _ step ih => exact step.sound same timely apart ih

/-- **The cache cannot be seen.** Parsers share a store in which there is nothing to read at first. Those
that analyze do so with one analyzer, which always answers, and no two contents have one hash. Then
every call, whatever runs into it and whatever the memories forget, returns the outline that its parser
gives without a cache. So nothing that a parser without an analyzer returns has been measured. -/
theorem returned_eq_outlineOf (same : ∀ i, ∀ b ∈ (parsers i).activeAnalyzer?, b = a)
    (timely : a.Timely)
    (apart : ∀ u, units u → ∀ v, units v →
      ContentHash.ofText u.content = .ofText v.content → u.content = v.content)
    {cores : Nat} {store : CacheStore} (blank : ∀ key, store.outline? key = none)
    (run : ReflTransGen (Step parsers units) (start parsers cores store) w) {job : Job ι}
    (hjob : job ∈ w.jobs) {outcome : ParseOutcome} (hreturned : job.phase = .returned outcome) :
    outcome.outline = (parsers job.parser).outlineOf job.unit ∧
      ((parsers job.parser).deepEnabled = false → outcome.outline.Unmeasured) := by
  have sound := sound_run same timely apart run (sound_start cores blank)
  have houtline : outcome.outline = (parsers job.parser).outlineOf job.unit :=
    sound.outline job hjob _ (by rw [hreturned]; rfl)
  exact ⟨houtline, fun hdeep => houtline ▸ Parser.unmeasured_outlineOf hdeep job.unit⟩

/-- The parsers, one of which attends to its last call. -/
def attend (w : Workshop ι) (i : ι) (unit : SourceUnit) (x : Phase × ParserState) : Workshop ι :=
  { w.setState i x.2 with jobs := w.jobs ++ [⟨i, unit, x.1⟩] }

theorem step_attend (w : Workshop ι) (i : ι) (unit : SourceUnit) (x : Phase × ParserState) :
    Step parsers units (w.attend i unit x) (w.attend i unit ((parsers i).advance unit x)) := by
  have hjob : (w.attend i unit x).jobs[w.jobs.length]? = some ⟨i, unit, x.1⟩ := by simp [attend]
  have hadvance : (w.attend i unit x).advance parsers w.jobs.length ⟨i, unit, x.1⟩ =
      w.attend i unit ((parsers i).advance unit x) := by
    simp [advance, attend, state, setState]
  exact hadvance ▸ .advance _ _ hjob

/-- A call that is made and finished while nothing else happens. -/
def parseNow (parsers : ι → Parser) (w : Workshop ι) (i : ι) (unit : SourceUnit) : Workshop ι :=
  let (outcome, s) := (parsers i).parse unit (w.state i)
  w.attend i unit (.returned outcome, s)

/-- Parsing at one go is one way in which a call can go. -/
theorem steps_parseNow (w : Workshop ι) (i : ι) {unit : SourceUnit} (h : units unit) :
    ReflTransGen (Step parsers units) w (w.parseNow parsers i unit) := by
  have hcall : Step parsers units w (w.attend i unit (.called, w.state i)) := by
    have hsame : w.attend i unit (.called, w.state i) =
        { w with jobs := w.jobs ++ [{ parser := i, unit }] } := by
      simp [attend, setState, state]
    exact hsame ▸ .call i unit h
  have hsteps : ∀ n x, ReflTransGen (Step parsers units) (w.attend i unit x)
      (w.attend i unit (((parsers i).advance unit)^[n] x)) := by
    intro n
    induction n with
    | zero => exact fun x => .refl
    | succ n ih => exact fun x => (ih _).head (step_attend w i unit x)
  show ReflTransGen _ w (w.attend i unit
    (.returned ((parsers i).parse unit (w.state i)).1, ((parsers i).parse unit (w.state i)).2))
  rw [← Parser.advance_parse]
  exact (hsteps 5 _).head hcall

end Run

/-- Two parsers with an analyzer and, between them, one without. -/
def sampleParsers (i : Fin 3) : Parser where
  settings := { deepParse := some (i != 1) }
  analyzer := some .blockStructure

/-- A module at some path. -/
def sampleModule (path : String) : SourceUnit :=
  .ofText path .sourceModule "Procedure F()\n  G();\nEndProcedure\n"

/-- Three parsers read one content at three paths. The second finds nothing, since the first has
analyzed it, and the third finds what the first has stored. -/
theorem returned_eq_outlineOf_sample :
    let w₀ := start sampleParsers 1 (.table {})
    let w₁ := w₀.parseNow sampleParsers 0 (sampleModule "a.bsl")
    let w₂ := w₁.parseNow sampleParsers 1 (sampleModule "b.bsl")
    let w₃ := w₂.parseNow sampleParsers 2 (sampleModule "c.bsl")
    w₃.jobs.map (fun job => job.phase.outline?.map (·.flags.deepApplied)) =
      [some true, some false, some true] ∧
    ((sampleParsers 2).parse (sampleModule "c.bsl") (w₂.state 2)).1.cacheHit = true ∧
    ∀ job ∈ w₃.jobs, ∀ outcome, job.phase = .returned outcome →
      outcome.outline = (sampleParsers job.parser).outlineOf job.unit ∧
      ((sampleParsers job.parser).deepEnabled = false → outcome.outline.Unmeasured) := by
  intro w₀ w₁ w₂ w₃
  have run : ReflTransGen (Step sampleParsers fun unit => ∃ path, unit = sampleModule path) w₀ w₃ :=
    ((steps_parseNow w₀ 0 ⟨_, rfl⟩).trans (steps_parseNow w₁ 1 ⟨_, rfl⟩)).trans
      (steps_parseNow w₂ 2 ⟨_, rfl⟩)
  have same : ∀ i, ∀ b ∈ (sampleParsers i).activeAnalyzer?, b = .blockStructure := by
    intro i b hb
    unfold Parser.activeAnalyzer? at hb
    split at hb
    · exact (Option.some.inj hb).symm
    · cases hb
  have blank : ∀ key, (CacheStore.table {}).outline? key = none := by
    simp [CacheStore.outline?, CacheStore.get, CacheTable.get?]
  have hruns : w₃.jobs.map (fun job => job.phase.outline?.map (·.flags.deepApplied)) =
        [some true, some false, some true] ∧
      ((sampleParsers 2).parse (sampleModule "c.bsl") (w₂.state 2)).1.cacheHit = true := by
    decide +kernel
  refine ⟨hruns.1, hruns.2, fun job hjob outcome hreturned => ?_⟩
  refine returned_eq_outlineOf same (fun _ _ => .inl ⟨_, rfl⟩) ?_ blank run hjob hreturned
  rintro _ ⟨path, rfl⟩ _ ⟨path', rfl⟩ -
  rfl

end Workshop

end CodeAtlas
