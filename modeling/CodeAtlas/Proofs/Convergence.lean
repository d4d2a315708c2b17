import CodeAtlas.Proofs.Planning.Hashes
import CodeAtlas.Proofs.Runs
import CodeAtlas.Proofs.Scans

/-!
# Runs over a tree converge

A run over a tree that comes to its end leaves a builder that remembers exactly the hashes of the units
it has scanned (`Pipeline.hash_gatherTree`), whatever it remembered before. To a builder that remembers
these, the same tree has nothing new. A second run therefore never touches the graph: it is the scan and
the checks for a cancellation, and no more (`Pipeline.gatherTree_of_hashes`).

Neither part looks into the graph. It may be that all nodes of a unit belong to others, or that a unit
could not be parsed; its hash is remembered all the same, and that is what the next run goes by.
-/

set_option autoImplicit false

namespace CodeAtlas

open Std

/-! ## Telling -/

namespace RunState

variable {σ : Type} {s : RunState σ}

/-- The state in which some events have been told. -/
def told (s : RunState σ) (events : List Event) : RunState σ :=
  { s with
    noted := s.noted ++ events.flatMap fun event =>
      (event.notedBy s.pipeline.handlers).map (⟨·, event, s.pipeline.status⟩)
    cancel := if events.any (·.cancelledBy s.pipeline.handlers) then .passed else s.cancel }

theorem told_append (s : RunState σ) (before after : List Event) :
    s.told (before ++ after) = (s.told before).told after := by
  unfold told
  cases ha : after.any (·.cancelledBy s.pipeline.handlers) <;> simp [ha]

/-- Nobody cancels a run that goes on after it has been told. -/
theorem of_told {events : List Event} (h : (s.told events).cancel ≠ .passed) :
    ∀ event ∈ events, event.cancelledBy s.pipeline.handlers = false := by
  intro event he
  by_contra hcancel
  refine h (if_pos (List.any_eq_true.mpr ⟨event, he, ?_⟩))
  simpa using hcancel

theorem cancel_told {events : List Event}
    (h : ∀ event ∈ events, event.cancelledBy s.pipeline.handlers = false) :
    (s.told events).cancel = s.cancel := by
  refine if_neg fun hany => ?_
  obtain ⟨event, he, hcancel⟩ := List.any_eq_true.mp hany
  rw [h event he] at hcancel
  cases hcancel

end RunState

namespace RunStep

variable {σ α : Type} {s t : RunState σ}

/-- What comes after a step matters only where the step ends well. -/
theorem bind_congr {β : Type} {step : RunStep σ α} {next next' : α → RunStep σ β}
    (h : ∀ a t, step s = (.ok a, t) → next a t = next' a t) : (step >>= next) s = (step >>= next') s := by
  have happly : ∀ next : α → RunStep σ β, (step >>= next) s =
      (ExceptT.bindCont next (step s).1 : StateM (RunState σ) (Except PipelineError β)) (step s).2 :=
    fun _ => rfl
  rw [happly, happly]
  rcases hs : step s with ⟨e | a, t⟩
  · rfl
  · exact h a t hs

theorem bind_error {β : Type} {step : RunStep σ α} {next : α → RunStep σ β} {e : PipelineError}
    (h : step s = (.error e, t)) : (step >>= next) s = (.error e, t) := by
  obtain ⟨e', t', hs, hnext⟩ | ⟨a, t', hs, -⟩ := bind_cases step next s <;> cases h.symm.trans hs
  exact hnext

theorem get_run (s : RunState σ) : (get : RunStep σ (RunState σ)) s = (.ok s, s) := rfl

theorem emit_run (event : Event) (s : RunState σ) :
    (emit event : RunStep σ Unit) s = (.ok (), s.told [event]) := by
  unfold RunState.told
  simp only [List.flatMap_singleton, List.any_cons, List.any_nil, Bool.or_false]
  rfl

theorem forM_emit_run (event : α → Event) (xs : List α) (s : RunState σ) :
    (xs.forM fun x => emit (event x) : RunStep σ PUnit) s = (.ok ⟨⟩, s.told (xs.map event)) := by
  induction xs generalizing s with
  | nil => simp [RunState.told]; rfl
  | cons x rest ih =>
    have hrest : ((x :: rest).forM fun x => emit (event x) : RunStep σ PUnit) =
        emit (event x) >>= fun _ => rest.forM fun x => emit (event x) := rfl
    rw [hrest, bind_ok (emit_run (event x) s), ih, ← RunState.told_append]
    rfl

theorem of_checkCancelled (h : (checkCancelled : RunStep σ Unit) s = (.ok (), t)) :
    s.cancel ≠ .passed := by
  intro hpassed
  have herror : ((checkCancelled : RunStep σ Unit) s).1 = .error .cancelled := by
    unfold checkCancelled
    rw [bind_ok (get_run s), hpassed]
    rfl
  rw [h] at herror
  cases herror

theorem checkCancelled_never (hs : s.cancel = .never) :
    (checkCancelled : RunStep σ Unit) s = (.ok (), s) := by
  obtain ⟨pipeline, graph, cancel, noted⟩ := s
  obtain rfl : cancel = .never := hs
  rfl

theorem scan_ok {tree : Tree} {root : String} {output : ScanOutput} {left : Deadline}
    (h : tree.scan s.pipeline.settings.scan root s.cancel = .ok (output, left)) :
    (scan tree root : RunStep σ ScanOutput) s = (.ok output, { s with cancel := left }) := by
  unfold scan
  rw [bind_ok (get_run s), h]
  rfl

theorem of_scan {tree : Tree} {root : String} {output : ScanOutput}
    (h : (scan tree root : RunStep σ ScanOutput) s = (.ok output, t)) :
    ∃ left, tree.scan s.pipeline.settings.scan root s.cancel = .ok (output, left) ∧
      t = { s with cancel := left } := by
  unfold scan at h
  rw [bind_ok (get_run s)] at h
  cases hscan : tree.scan s.pipeline.settings.scan root s.cancel with
  | error e =>
    rw [hscan] at h
    cases h
  | ok found =>
    rw [hscan] at h
    cases h
    exact ⟨_, rfl, rfl⟩

/-- What the builder has done in a step that went well. -/
theorem of_build {call : Builder → Session σ (Delta × Builder)} {δ : Delta}
    (h : build call s = (.ok δ, t)) :
    call s.pipeline.builder s.graph = (.ok (δ, t.pipeline.builder), t.graph) := by
  unfold build at h
  rw [bind_ok (get_run s)] at h
  obtain ⟨⟨δ', b⟩, u, hcall, hrest⟩ := of_bind_ok h
  cases hrest
  unfold onGraph at hcall
  rcases hrun : call s.pipeline.builder s.graph with ⟨e | answer, graph⟩
  · rw [hrun] at hcall
    cases hcall
  · rw [hrun] at hcall
    cases hcall
    rfl

end RunStep

/-! ## The first run -/

theorem Parser.length_parseAll (p : Parser) (units : List SourceUnit) (s : ParserState) :
    (p.parseAll units s).1.length = units.length := by
  induction units generalizing s with
  | nil => rfl
  | cons unit rest ih => exact congrArg (· + 1) (ih _)

namespace Pipeline

open RunStep RunState

variable {σ : Type} {s t : RunState σ} {tree : Tree} {root : String} {output : ScanOutput}

/-- What a run tells about a tree before it goes on. -/
def scanEvents (root : String) (output : ScanOutput) : List Event :=
  output.skipped.map (fun skipped => .unitSkipped (shownPath (joinPath root skipped.path)) skipped.reason) ++
    [.scanComplete output.units.length output.skipped.length]

/-- A run that gets past its scan has found what there is to find, and nobody has cancelled it. -/
theorem of_scanTree (h : (scanTree tree root : RunStep σ ScanOutput) s = (.ok output, t)) :
    tree.scan s.pipeline.settings.scan root .never = .ok (output, .never) ∧
      ∀ event ∈ .scanStarted (shownPath root) :: scanEvents root output,
        event.cancelledBy s.pipeline.handlers = false := by
  unfold scanTree at h
  rw [bind_ok (emit_run _ s)] at h
  obtain ⟨found, u, hscan, hrest⟩ := of_bind_ok h
  obtain ⟨left, hfound, rfl⟩ := of_scan hscan
  rw [bind_ok (forM_emit_run _ found.skipped _), bind_ok (emit_run _ _), ← told_append] at hrest
  obtain ⟨_, v, hcheck, hdone⟩ := of_bind_ok hrest
  cases hdone
  obtain ⟨hstarted, hnever⟩ := Tree.scan_never hfound
  refine ⟨hnever, List.forall_mem_cons.mpr ⟨?_, ?_⟩⟩
  · exact of_told hstarted _ (List.mem_singleton.mpr rfl)
  · have htold := of_checkCancelled hcheck
    exact of_told (s := { s.told [.scanStarted (shownPath root)] with cancel := left }) htold

/-- A scan finds the same in every run. -/
theorem scanTree_unique {found : ScanOutput}
    (hscan : tree.scan s.pipeline.settings.scan root .never = .ok (output, .never))
    (h : (scanTree tree root : RunStep σ ScanOutput) s = (.ok found, t)) : found = output := by
  have hsame := (of_scanTree h).1
  rw [hscan] at hsame
  cases hsame
  rfl

/-- The state after a scan that nobody has cancelled. -/
def scanned (s : RunState σ) (root : String) (output : ScanOutput) : RunState σ :=
  RunState.told { s.told [.scanStarted (shownPath root)] with cancel := .never } (scanEvents root output)

theorem scanTree_never (hs : s.cancel = .never)
    (hscan : tree.scan s.pipeline.settings.scan root .never = .ok (output, .never))
    (quiet : ∀ event ∈ .scanStarted (shownPath root) :: scanEvents root output,
      event.cancelledBy s.pipeline.handlers = false) :
    (scanTree tree root : RunStep σ ScanOutput) s = (.ok output, scanned s root output) ∧
      (scanned s root output).cancel = .never := by
  obtain ⟨hstarted, hevents⟩ := List.forall_mem_cons.mp quiet
  have hbegun : (s.told [.scanStarted (shownPath root)]).cancel = .never :=
    (cancel_told (by simpa using hstarted)).trans hs
  have hfound : tree.scan (s.told [.scanStarted (shownPath root)]).pipeline.settings.scan root
      (s.told [.scanStarted (shownPath root)]).cancel = .ok (output, .never) := by
    rw [hbegun]
    exact hscan
  have hover : (scanned s root output).cancel = .never := cancel_told hevents
  refine ⟨?_, hover⟩
  unfold scanTree
  rw [bind_ok (emit_run _ s), bind_ok (scan_ok hfound), bind_ok (forM_emit_run _ output.skipped _),
    bind_ok (emit_run _ _), ← told_append]
  exact bind_ok (checkCancelled_never hover)

/-- A conclusion touches neither the graph nor the builder. -/
theorem conclude_run (summary : RunSummary) (δ : Delta) (s : RunState σ) :
    ∃ result u, conclude summary δ s = (.ok result, u) ∧
      (∃ unresolved generation, result.data = { summary.addDelta δ with unresolved, generation }) ∧
      u.graph = s.graph ∧ u.pipeline.builder = s.pipeline.builder ∧
      u.pipeline.settings = s.pipeline.settings ∧ u.pipeline.handlers = s.pipeline.handlers :=
  ⟨_, _, rfl, ⟨_, _, rfl⟩, rfl, rfl, rfl, rfl⟩

variable [Backend σ]

/-- Folding units leaves their hashes, over those from before. -/
theorem of_fold {units : List SourceUnit} {summary summary' : RunSummary} {δ : Delta}
    (h : (fold units summary : RunStep σ (RunSummary × Delta)) s = (.ok (summary', δ), t)) :
    (∃ outcomes, summary' = summary.addOutcomes outcomes) ∧ ∀ path : String,
      t.pipeline.builder.book.hash? path =
        (Snapshot.ofUnits units)[path]?.or (s.pipeline.builder.book.hash? path) := by
  unfold fold at h
  obtain ⟨outcomes, s₁, hparse, h₁⟩ := of_bind_ok h
  obtain ⟨_, s₂, hcheck, h₂⟩ := of_bind_ok h₁
  obtain ⟨_, s₃, hreport, h₃⟩ := of_bind_ok h₂
  obtain ⟨δ', s₄, hbuild, hdone⟩ := of_bind_ok h₃
  cases hdone
  refine ⟨⟨outcomes, rfl⟩, fun path => ?_⟩
  have hbefore : s₃.pipeline.builder = s.pipeline.builder := by
    have hparsed := looks_parse units s
    have hchecked := looks_checkCancelled s₁
    have hreported := Looks.forM looks_reportDegraded outcomes s₂
    rw [hparse] at hparsed
    rw [hcheck] at hchecked
    rw [hreport] at hreported
    exact ((hparsed.trans hchecked).trans hreported).builder
  -- Every unit has its outcome, so that none is lost on the way to the builder.
  have hlength : outcomes.length = units.length := by
    have houtcomes : (s.pipeline.parser.parseAll units s.pipeline.parsing).1 = outcomes :=
      Except.ok.inj (congrArg Prod.fst hparse)
    rw [← houtcomes, Parser.length_parseAll]
  have hunits : (List.zipWith (fun unit outcome => (⟨.ofUnit unit, outcome.outline⟩ : ParsedUnit))
      units outcomes).map (·.unit) = units.map .ofUnit := by
    rw [List.map_zipWith]
    refine List.ext_getElem (by simp [hlength]) fun i _ _ => ?_
    simp
  have hlatest : ∀ parsed : List ParsedUnit, parsed.map (·.unit) = units.map .ofUnit →
      (Builder.latest parsed)[path]?.map (·.unit.hash) = (Snapshot.ofUnits units)[path]? := by
    intro parsed hparsed
    unfold Builder.latest Snapshot.ofUnits
    rw [← Maps.get_foldl_insert_map (fun p : ParsedUnit => p.unit.path) (fun p => p.unit.hash) parsed ∅
      ∅ path (by simp)]
    have hfold := congrArg (List.foldl (fun (m : Snapshot) (unit : UnitMeta) =>
      m.insert unit.path unit.hash) ∅) hparsed
    rw [List.foldl_map, List.foldl_map] at hfold
    exact congrArg (·[path]?) hfold
  rw [Builder.hash_ingest (of_build hbuild) path, hlatest _ hunits, hbefore]

theorem of_removeAll {paths : List String} {δ δ' : Delta}
    (h : (removeAll paths δ : RunStep σ Delta) s = (.ok δ', t)) (path : String) :
    t.pipeline.builder.book.hash? path =
      if path ∈ paths then none else s.pipeline.builder.book.hash? path := by
  induction paths generalizing δ s with
  | nil =>
    cases h
    simp
  | cons first rest ih =>
    obtain ⟨removed, u, hbuild, hrest⟩ := of_bind_ok h
    rw [ih hrest, Builder.hash_removeUnit (of_build hbuild)]
    by_cases hr : path ∈ rest
    · simp [hr]
    · simp [hr, eq_comm]

/-- A run over a tree leaves the hashes of what it has scanned. -/
theorem hash_gatherTree {summary : RunSummary} {δ : Delta}
    (hscan : tree.scan s.pipeline.settings.scan root .never = .ok (output, .never))
    (h : (gatherTree tree root : RunStep σ (RunSummary × Delta)) s = (.ok (summary, δ), t)) :
    (∃ outcomes, summary = (RunSummary.ofScan output (ScanDiff.compute output.units
        s.pipeline.builder.unitHashes)).addOutcomes outcomes) ∧
      t.pipeline.builder.unitHashes = Snapshot.ofUnits output.units := by
  unfold gatherTree at h
  obtain ⟨found, s₁, hfound, h₁⟩ := of_bind_ok h
  obtain rfl := scanTree_unique hscan hfound
  have hbuilder : s₁.pipeline.builder = s.pipeline.builder := by
    have hlooks := looks_scanTree tree root s
    rw [hfound] at hlooks
    exact hlooks.builder
  rw [bind_ok (get_run s₁), hbuilder] at h₁
  obtain ⟨⟨summary', δ'⟩, s₂, hfold, h₂⟩ := of_bind_ok h₁
  obtain ⟨δ'', s₃, hremove, hdone⟩ := of_bind_ok h₂
  cases hdone
  obtain ⟨houtcomes, hhash⟩ := of_fold hfold
  refine ⟨houtcomes, ExtTreeMap.ext_getElem? fun path => ?_⟩
  rw [Builder.get_unitHashes, of_removeAll hremove, hhash, hbuilder, ← Builder.get_unitHashes]
  exact (ScanDiff.get_ofUnits_of_changes found.units s.pipeline.builder.unitHashes path).symm

/-! ## The second run -/

/-- Without units there is nothing to do for the builder. -/
theorem fold_nil (summary : RunSummary) :
    (fold [] summary : RunStep σ (RunSummary × Delta)) = (do
      checkCancelled
      return (summary.addOutcomes [], {})) := by
  funext s
  have hparse : (parse [] : RunStep σ (List ParseOutcome)) s = (.ok [], s) := rfl
  unfold fold
  rw [bind_ok hparse]
  exact bind_congr fun _ _ _ => rfl

/-- To a builder that remembers the hashes of a scan, the tree has nothing new. -/
theorem gatherTree_of_hashes (distinct : (output.units.map (·.path)).Nodup)
    (hscan : tree.scan s.pipeline.settings.scan root .never = .ok (output, .never))
    (hhash : s.pipeline.builder.unitHashes = Snapshot.ofUnits output.units) :
    (gatherTree tree root : RunStep σ (RunSummary × Delta)) s =
      (do
        let _ ← scanTree tree root
        checkCancelled
        return ((RunSummary.ofScan output (ScanDiff.compute output.units
          (Snapshot.ofUnits output.units))).addOutcomes [], {}) : RunStep σ (RunSummary × Delta)) s := by
  unfold gatherTree
  refine bind_congr fun found t hfound => ?_
  obtain rfl := scanTree_unique hscan hfound
  have hbuilder : t.pipeline.builder = s.pipeline.builder := by
    have hlooks := looks_scanTree tree root s
    rw [hfound] at hlooks
    exact hlooks.builder
  obtain ⟨hadded, hmodified, hremoved⟩ := ScanDiff.compute_ofUnits distinct
  have hchanged : found.units.filter (fun unit => ([] ++ [] : List String).contains unit.path) = [] := by
    simp
  rw [bind_ok (get_run t), hbuilder, hhash]
  dsimp only
  rw [hadded, hmodified, hremoved, hchanged, fold_nil]
  simp only [removeAll, bind_assoc, pure_bind]

/-- What is left of a run that has nothing to do. -/
theorem looks_gatherTree (distinct : (output.units.map (·.path)).Nodup)
    (hscan : tree.scan s.pipeline.settings.scan root .never = .ok (output, .never))
    (hhash : s.pipeline.builder.unitHashes = Snapshot.ofUnits output.units) :
    Untouched s ((gatherTree tree root : RunStep σ (RunSummary × Delta)) s).2 := by
  rw [gatherTree_of_hashes distinct hscan hhash]
  exact ((looks_scanTree tree root).bind fun _ => looks_checkCancelled.bind fun _ => .pure _) s

/-! ## Both runs -/

/-- A run over a tree is what it gathers, and then its conclusion. -/
theorem ingestTree_cases (p : Pipeline) (graph : σ) (tree : Tree) (root : String) (cancel : Deadline) :
    (∃ e t, gatherTree tree root (p.opening cancel graph) = (.error e, t) ∧
      p.ingestTree tree root cancel graph = closing (.error e) t) ∨
    ∃ summary δ t result u, gatherTree tree root (p.opening cancel graph) = (.ok (summary, δ), t) ∧
      p.ingestTree tree root cancel graph = closing (.ok result) u ∧
      (∃ unresolved generation,
        result.data = { summary.addDelta δ with unresolved, generation }) ∧
      u.graph = t.graph ∧ u.pipeline.builder = t.pipeline.builder ∧
      u.pipeline.settings = t.pipeline.settings ∧ u.pipeline.handlers = t.pipeline.handlers := by
  rw [ingestTree, foldScan_scanTree, run_eq]
  rcases hgather : gatherTree tree root (p.opening cancel graph) with ⟨e | ⟨summary, δ⟩, t⟩
  · exact .inl ⟨e, t, rfl, by rw [bind_error hgather]⟩
  · obtain ⟨result, u, hconclude, hkept⟩ := conclude_run summary δ t
    refine .inr ⟨summary, δ, t, result, u, rfl, ?_, hkept⟩
    rw [bind_ok hgather]
    dsimp only
    rw [hconclude]

/-- A pipeline for which a tree holds nothing new. A run over it can still be cancelled, but then too the
graph and the builder are what they were. -/
structure Settled (p : Pipeline) (graph : σ) (tree : Tree) (root : String) (units : Nat) : Prop where
  ends : ∃ result, (p.ingestTree tree root .never graph).outcome = .ok result
  keepsGraph : ∀ cancel, (p.ingestTree tree root cancel graph).graph = graph
  keepsBuilder : ∀ cancel, (p.ingestTree tree root cancel graph).pipeline.builder = p.builder
  counts : ∀ cancel result, (p.ingestTree tree root cancel graph).outcome = .ok result →
    result.data.added = 0 ∧ result.data.modified = 0 ∧ result.data.removed = 0 ∧
      result.data.unchanged = units
  delta : ∀ cancel summary δ t,
    gatherTree tree root (p.opening cancel graph) = (.ok (summary, δ), t) → δ = {}
  written : ∀ cancel result, (p.ingestTree tree root cancel graph).outcome = .ok result →
    result.data.upsertedNodes = 0 ∧ result.data.upsertedEdges = 0 ∧ result.data.removedIds = 0

/-- The graph and the builder are those after what the run has gathered. -/
theorem left_ingestTree (p : Pipeline) (graph : σ) (tree : Tree) (root : String) (cancel : Deadline) :
    let gathered := (gatherTree tree root : RunStep σ (RunSummary × Delta)) (p.opening cancel graph)
    (p.ingestTree tree root cancel graph).graph = gathered.2.graph ∧
      (p.ingestTree tree root cancel graph).pipeline.builder = gathered.2.pipeline.builder := by
  intro gathered
  rcases ingestTree_cases p graph tree root cancel with
    ⟨e, t, h, hrun⟩ | ⟨_, _, t, _, u, h, hrun, -, hgraph, hbuilder, -⟩
  · have ht : gathered.2 = t := congrArg Prod.snd h
    rw [hrun, ht]
    exact ⟨rfl, rfl⟩
  · have ht : gathered.2 = t := congrArg Prod.snd h
    rw [hrun, ht]
    exact ⟨hgraph, hbuilder⟩

section Second

variable {p : Pipeline} {graph : σ} (distinct : (output.units.map (·.path)).Nodup)
  (hscan : tree.scan p.settings.scan root .never = .ok (output, .never))
  (hhash : p.builder.unitHashes = Snapshot.ofUnits output.units)

include distinct hscan hhash

/-- What a run gathers that has nothing to do, unless it is cancelled. -/
theorem gathered_of_hashes {cancel : Deadline} {summary : RunSummary} {δ : Delta} {t : RunState σ}
    (h : gatherTree tree root (p.opening cancel graph) = (.ok (summary, δ), t)) : δ = {} ∧
      summary = (RunSummary.ofScan output (ScanDiff.compute output.units
        (Snapshot.ofUnits output.units))).addOutcomes [] := by
  rw [gatherTree_of_hashes (s := p.opening cancel graph) distinct hscan hhash] at h
  obtain ⟨_, s₁, -, h₁⟩ := of_bind_ok h
  obtain ⟨_, s₂, -, hdone⟩ := of_bind_ok h₁
  cases hdone
  exact ⟨rfl, rfl⟩

theorem summary_of_hashes {cancel : Deadline} {result : Collected RunSummary}
    (hok : (p.ingestTree tree root cancel graph).outcome = .ok result) :
    ∃ unresolved generation, result.data =
      { ((RunSummary.ofScan output (ScanDiff.compute output.units
          (Snapshot.ofUnits output.units))).addOutcomes []).addDelta {} with unresolved, generation } := by
  rcases ingestTree_cases p graph tree root cancel with
    ⟨e, t, -, hrun⟩ | ⟨summary, δ, t, result', u, h, hrun, hdata, -⟩
  · rw [hrun] at hok
    cases hok
  · rw [hrun] at hok
    cases hok
    obtain ⟨rfl, rfl⟩ := gathered_of_hashes distinct hscan hhash h
    exact hdata

theorem settled_of_hashes (quiet : ∀ event ∈ .scanStarted (shownPath root) :: scanEvents root output,
    event.cancelledBy p.handlers = false) : Settled p graph tree root output.units.length := by
  have huntouched := fun cancel => looks_gatherTree (s := p.opening cancel graph) distinct hscan hhash
  constructor
  case ends =>
    obtain ⟨hfound, hnever⟩ := scanTree_never (s := p.opening .never graph) rfl hscan quiet
    have hdone := gatherTree_of_hashes (s := p.opening .never graph) distinct hscan hhash
    rw [bind_ok hfound, bind_ok (checkCancelled_never hnever)] at hdone
    rcases ingestTree_cases p graph tree root .never with
      ⟨e, u, herror, -⟩ | ⟨_, _, _, result, _, -, hrun, -⟩
    · rw [hdone] at herror
      cases herror
    · exact ⟨result, by rw [hrun]; rfl⟩
  case keepsGraph =>
    exact fun cancel => (left_ingestTree p graph tree root cancel).1.trans (huntouched cancel).graph
  case keepsBuilder =>
    exact fun cancel => (left_ingestTree p graph tree root cancel).2.trans (huntouched cancel).builder
  case counts =>
    intro cancel result hok
    obtain ⟨_, _, hdata⟩ := summary_of_hashes distinct hscan hhash hok
    obtain ⟨hadded, hmodified, hremoved⟩ := ScanDiff.compute_ofUnits distinct
    rw [hdata]
    exact ⟨congrArg List.length hadded, congrArg List.length hmodified, congrArg List.length hremoved,
      ScanDiff.length_unchanged_ofUnits distinct⟩
  case delta => exact fun cancel summary δ t h => (gathered_of_hashes distinct hscan hhash h).1
  case written =>
    intro cancel result hok
    obtain ⟨_, _, hdata⟩ := summary_of_hashes distinct hscan hhash hok
    rw [hdata]
    exact ⟨rfl, rfl, rfl⟩

end Second

/-- **A run over a tree converges at once.** If it comes to its end, from whatever pipeline and graph, the
builder remembers the hashes of what was scanned and of nothing else, and its summary counts the changes
from what it remembered before. After that the tree holds nothing new. -/
theorem ingestTree_converges (p : Pipeline) (graph : σ) (tree : Tree) (root : String)
    (cancel : Deadline) (output : ScanOutput) (result : Collected RunSummary)
    (hscan : tree.scan p.settings.scan root .never = .ok (output, .never))
    (distinct : (output.units.map (·.path)).Nodup)
    (hok : (p.ingestTree tree root cancel graph).outcome = .ok result) :
    let first := p.ingestTree tree root cancel graph
    let diff := ScanDiff.compute output.units p.builder.unitHashes
    first.pipeline.builder.unitHashes = Snapshot.ofUnits output.units ∧
      diff.Classifies output.units p.builder.unitHashes ∧
      result.data.added = diff.added.length ∧ result.data.modified = diff.modified.length ∧
      result.data.unchanged = diff.unchanged.length ∧ result.data.removed = diff.removed.length ∧
      Settled first.pipeline first.graph tree root output.units.length := by
  intro first diff
  rcases ingestTree_cases p graph tree root cancel with
    ⟨e, t, -, hrun⟩ | ⟨summary, δ, t, result', u, h, hrun, ⟨_, _, hdata⟩, -, hbuilder, hsettings, hhandlers⟩
  · rw [hrun] at hok
    cases hok
  · rw [hrun] at hok
    cases hok
    obtain ⟨⟨outcomes, rfl⟩, hhash⟩ := hash_gatherTree (s := p.opening cancel graph) hscan h
    obtain ⟨found, s₁, hfound, -⟩ := of_bind_ok h
    obtain ⟨-, quiet⟩ := of_scanTree hfound
    obtain rfl := scanTree_unique (s := p.opening cancel graph) hscan hfound
    have hcontinues := (tentative_gatherTree tree root).continues (p.opening cancel graph)
    rw [h] at hcontinues
    have hpipeline : first.pipeline.builder.unitHashes = Snapshot.ofUnits found.units := by
      show (p.ingestTree tree root cancel graph).pipeline.builder.unitHashes = _
      rw [hrun, ← hhash, ← hbuilder]
      rfl
    have hkept : first.pipeline.settings = p.settings ∧ first.pipeline.handlers = p.handlers := by
      show (p.ingestTree tree root cancel graph).pipeline.settings = _ ∧
        (p.ingestTree tree root cancel graph).pipeline.handlers = _
      rw [hrun]
      exact ⟨hsettings.trans hcontinues.settings, hhandlers.trans hcontinues.handlers⟩
    refine ⟨hpipeline, ScanDiff.classifies_compute distinct _, ?_⟩
    rw [hdata]
    refine ⟨rfl, rfl, rfl, rfl, settled_of_hashes distinct ?_ hpipeline ?_⟩
    · rw [hkept.1]
      exact hscan
    · rw [hkept.2]
      exact quiet

/-- Two files whose modules have one id, so that one of them owns no node. -/
def sampleTree : Tree where
  entries := .ofList [(["X"], TreeEntry.directory),
    (["X", "A.bsl"], TreeEntry.file "// 1".toUTF8), (["X.A.bsl"], TreeEntry.file "// 2".toUTF8)]

def sampleUnits (hash hash' : ContentHash) : List SourceUnit :=
  [⟨"X.A.bsl", .sourceModule, "// 2", hash⟩, ⟨"X/A.bsl", .sourceModule, "// 1", hash'⟩]

def sampleOutput : ScanOutput where
  units := sampleUnits (.ofText "// 2") (.ofText "// 1")
  stats := { discovered := 2, units := 2, totalBytes := 8 }

theorem scan_sampleTree : sampleTree.scan {} "" .never = .ok (sampleOutput, .never) := by
  have hroot : sampleTree.rootDirectory "" = .ok [] := by
    have hsegments : pathSegments "" = [""] := by decide
    simp [Tree.rootDirectory, Tree.resolve, Tree.follow, hsegments]
  have hfiles : sampleTree.walk {} sampleTree.maxDepth [[]] [] [] =
      [⟨"X/A.bsl", "// 1".toUTF8⟩, ⟨"X.A.bsl", "// 2".toUTF8⟩] := rfl
  have hread : ([⟨"X/A.bsl", "// 1".toUTF8⟩, ⟨"X.A.bsl", "// 2".toUTF8⟩] : List FoundFile).filterMap
      (·.unit? 4194304) = [.ok ⟨"X/A.bsl", .sourceModule, "// 1", .ofText "// 1"⟩,
        .ok ⟨"X.A.bsl", .sourceModule, "// 2", .ofText "// 2"⟩] := rfl
  -- The hashes are left as they are; only paths are compared.
  have hsorted : ∀ hash hash' : ContentHash,
      ([⟨"X/A.bsl", .sourceModule, "// 1", hash'⟩, ⟨"X.A.bsl", .sourceModule, "// 2", hash⟩] :
        List SourceUnit).mergeSort (fun a b => (compare a.path b.path).isLE) = sampleUnits hash hash' := by
    intro hash hash'
    refine Maps.mergeSort_eq (compareOn SourceUnit.path) ?_ (by simp) fun unit => ?_
    · have hpaths : compare "X.A.bsl" "X/A.bsl" = .lt := by decide
      simpa [sampleUnits, compareOn] using hpaths
    · simp [sampleUnits, or_comm]
  have houtput : ScanOutput.ofFiles
      [⟨"X/A.bsl", "// 1".toUTF8⟩, ⟨"X.A.bsl", "// 2".toUTF8⟩] 4194304 = sampleOutput := by
    unfold ScanOutput.ofFiles
    rw [hread]
    dsimp only [List.filterMap_cons, List.filterMap_nil, Except.toOption]
    rw [hsorted, List.mergeSort_nil]
    rfl
  have hscan : sampleTree.scan {} "" .never =
      .ok (ScanOutput.ofFiles (sampleTree.walk {} sampleTree.maxDepth [[]] [] []) 4194304, .never) := by
    unfold Tree.scan
    rw [hroot]
    rfl
  rw [hscan, hfiles, houtput]

/-- A builder that knows a file which is gone. -/
def samplePipeline : Pipeline :=
  ofBuilder {} none (.table {}) 1 [.recorder "log"]
    { markers := [], book := { units := .ofList [("gone.bsl", ({} : UnitState))] } }

theorem compute_sampleUnits (hash hash' : ContentHash) :
    ScanDiff.compute (sampleUnits hash hash') samplePipeline.builder.unitHashes =
      ⟨["X.A.bsl", "X/A.bsl"], [], [], ["gone.bsl"]⟩ := by
  have hfirst : samplePipeline.builder.unitHashes["X.A.bsl"]? = none := by decide +kernel
  have hsecond : samplePipeline.builder.unitHashes["X/A.bsl"]? = none := by decide +kernel
  have hkeys : samplePipeline.builder.unitHashes.keys = ["gone.bsl"] := by decide +kernel
  have hpaths : (["X.A.bsl", "X/A.bsl"].Pairwise fun a b => (compare a b).isLE = true) := by decide
  have hsorted := List.mergeSort_of_pairwise hpaths
  simp [ScanDiff.compute, ScanDiff.sorted, sampleUnits, hfirst, hsecond, hkeys, hsorted]

theorem gather_sampleTree : (gatherTree sampleTree ""
    (samplePipeline.opening .never ({} : PropertyGraph))).1.isOk = true := by
  obtain ⟨hfound, -⟩ := scanTree_never (s := samplePipeline.opening .never ({} : PropertyGraph)) rfl
    scan_sampleTree (by decide)
  unfold gatherTree
  rw [bind_ok hfound, bind_ok (get_run _)]
  have hdiff : ScanDiff.compute sampleOutput.units
      (scanned (samplePipeline.opening .never ({} : PropertyGraph)) "" sampleOutput).pipeline.builder.unitHashes
        = ⟨["X.A.bsl", "X/A.bsl"], [], [], ["gone.bsl"]⟩ := compute_sampleUnits _ _
  rw [hdiff]
  decide +kernel

theorem ingestTree_converges_sample :
    let first := samplePipeline.ingestTree sampleTree "" .never ({} : PropertyGraph)
    sampleTree.scan {} "" .never = .ok (sampleOutput, .never) ∧
      (sampleOutput.units.map (·.path)).Nodup ∧ ∃ result, first.outcome = .ok result ∧
        first.pipeline.builder.unitHashes = Snapshot.ofUnits sampleOutput.units ∧
        result.data.added = 2 ∧ result.data.removed = 1 ∧
        Settled first.pipeline first.graph sampleTree "" 2 := by
  intro first
  have distinct : (sampleOutput.units.map (·.path)).Nodup := by decide
  have hok : ∃ result, first.outcome = .ok result := by
    rcases ingestTree_cases samplePipeline ({} : PropertyGraph) sampleTree "" .never with
      ⟨e, t, herror, -⟩ | ⟨_, _, _, result, _, -, hrun, -⟩
    · have hgather := gather_sampleTree
      rw [herror] at hgather
      cases hgather
    · exact ⟨result, congrArg Report.outcome hrun⟩
  obtain ⟨result, hok⟩ := hok
  obtain ⟨hhash, -, hadded, -, -, hremoved, hsettled⟩ := ingestTree_converges samplePipeline
    ({} : PropertyGraph) sampleTree "" .never sampleOutput result scan_sampleTree distinct hok
  rw [show sampleOutput.units = sampleUnits _ _ from rfl, compute_sampleUnits] at hadded hremoved
  exact ⟨scan_sampleTree, distinct, result, hok, hhash, hadded, hremoved, hsettled⟩

end Pipeline

end CodeAtlas
