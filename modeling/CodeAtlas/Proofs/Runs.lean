import CodeAtlas.Pipeline.Basic

/-!
# How runs end

A run first looks and then writes. Looking means to scan, to compare, to parse and to tell about it; a
cancellation and a tree that cannot be scanned end the run there, while the graph and the builder are
still those it began with. Writing can fail in the graph alone, and nobody asks for a cancellation any
more. What has been written is concluded by a step that cannot fail: it raises the generation and tells
of it, once.

Both parts keep the status, so that every call leaves an idle pipeline, and the generation counts the
runs that were concluded.
-/

set_option autoImplicit false

namespace CodeAtlas

/-- The events among those noted that tell of the end of a run. -/
def completions (noted : List Emission) : List Emission :=
  noted.filter (·.event.kind = .ingestionComplete)

@[simp] theorem completions_append (before after : List Emission) :
    completions (before ++ after) = completions before ++ completions after :=
  List.filter_append ..

theorem completions_told {event : Event} (h : event.kind ≠ .ingestionComplete) (names : List String)
    (status : RunStatus) : completions (names.map fun name => ⟨name, event, status⟩) = [] := by
  simp [completions, h]

theorem completions_completion (summary : RunSummary) (names : List String) (status : RunStatus) :
    completions (names.map fun name => ⟨name, summary.completion, status⟩) =
      names.map fun name => ⟨name, summary.completion, status⟩ := by
  simp [completions, RunSummary.completion, Event.kind]

/-! ## Before the end of a run -/

namespace RunState

variable {σ : Type} {s t u : RunState σ}

/-- What no step changes before a run is concluded. -/
structure Continues (s t : RunState σ) : Prop where
  settings : t.pipeline.settings = s.pipeline.settings
  status : t.pipeline.status = s.pipeline.status
  handlers : t.pipeline.handlers = s.pipeline.handlers
  completions : completions t.noted = completions s.noted

/-- What no step changes before a run begins to write. -/
structure Untouched (s t : RunState σ) : Prop extends Continues s t where
  graph : t.graph = s.graph
  builder : t.pipeline.builder = s.pipeline.builder

theorem Continues.trans (hst : Continues s t) (htu : Continues t u) : Continues s u where
  settings := htu.settings.trans hst.settings
  status := htu.status.trans hst.status
  handlers := htu.handlers.trans hst.handlers
  completions := htu.completions.trans hst.completions

theorem Untouched.refl (s : RunState σ) : Untouched s s := ⟨⟨rfl, rfl, rfl, rfl⟩, rfl, rfl⟩

theorem Untouched.trans (hst : Untouched s t) (htu : Untouched t u) : Untouched s u where
  toContinues := hst.toContinues.trans htu.toContinues
  graph := htu.graph.trans hst.graph
  builder := htu.builder.trans hst.builder

end RunState

namespace RunStep

open RunState

variable {σ α β : Type}

/-- The second step starts where the first has ended, unless that has failed. -/
theorem bind_cases (step : RunStep σ α) (next : α → RunStep σ β) (s : RunState σ) :
    (∃ e t, step s = (.error e, t) ∧ (step >>= next) s = (.error e, t)) ∨
    (∃ a t, step s = (.ok a, t) ∧ (step >>= next) s = next a t) := by
  have happly : (step >>= next) s =
      (ExceptT.bindCont next (step s).1 : StateM (RunState σ) (Except PipelineError β)) (step s).2 := rfl
  rcases h : step s with ⟨e | a, t⟩
  · exact .inl ⟨e, t, rfl, by rw [happly, h]; rfl⟩
  · exact .inr ⟨a, t, rfl, by rw [happly, h]; rfl⟩

theorem bind_ok {step : RunStep σ α} {next : α → RunStep σ β} {s t : RunState σ} {a : α}
    (h : step s = (.ok a, t)) : (step >>= next) s = next a t := by
  obtain ⟨e, t', hs, -⟩ | ⟨a', t', hs, hnext⟩ := bind_cases step next s <;> cases h.symm.trans hs
  exact hnext

/-- Steps that end well in a row have each ended well. -/
theorem of_bind_ok {step : RunStep σ α} {next : α → RunStep σ β} {s u : RunState σ} {b : β}
    (h : (step >>= next) s = (.ok b, u)) :
    ∃ a t, step s = (.ok a, t) ∧ next a t = (.ok b, u) := by
  obtain ⟨e, t, -, hnext⟩ | ⟨a, t, hs, hnext⟩ := bind_cases step next s
  · rw [hnext] at h
    cases h
  · exact ⟨a, t, hs, hnext.symm.trans h⟩

/-- A step that only looks. -/
def Looks (step : RunStep σ α) : Prop := ∀ s, Untouched s (step s).2

/-- A step that writes. It can fail, but only in the graph. -/
structure Writes (step : RunStep σ α) : Prop where
  continues : ∀ s, Continues s (step s).2
  error : ∀ s e, (step s).1 = .error e → ∃ cause, e = .graph cause

/-- A step that looks first and then writes: if it fails otherwise than in the graph, it has not
written. -/
structure Tentative (step : RunStep σ α) : Prop where
  continues : ∀ s, Continues s (step s).2
  error : ∀ s e, (step s).1 = .error e → (∃ cause, e = .graph cause) ∨ Untouched s (step s).2

section Sequence

variable {step : RunStep σ α} {next : α → RunStep σ β}

theorem Looks.pure (a : α) : Looks (pure a : RunStep σ α) := Untouched.refl

theorem Looks.bind (hstep : Looks step) (hnext : ∀ a, Looks (next a)) : Looks (step >>= next) := by
  intro s
  have first := hstep s
  obtain ⟨e, t, hs, h⟩ | ⟨a, t, hs, h⟩ := bind_cases step next s <;> rw [hs] at first <;> rw [h]
  · exact first
  · exact first.trans (hnext a t)

theorem Looks.forM {step : α → RunStep σ PUnit} (h : ∀ a, Looks (step a)) (xs : List α) :
    Looks (xs.forM step) := by
  induction xs with
  | nil => exact .pure _
  | cons a rest ih => exact (h a).bind fun _ => ih

theorem Writes.pure (a : α) : Writes (pure a : RunStep σ α) where
  continues s := (Untouched.refl s).toContinues
  error s e h := by cases h

theorem Writes.bind (hstep : Writes step) (hnext : ∀ a, Writes (next a)) :
    Writes (step >>= next) := by
  constructor <;> intro s
  · have first := hstep.continues s
    obtain ⟨e, t, hs, h⟩ | ⟨a, t, hs, h⟩ := bind_cases step next s <;> rw [hs] at first <;> rw [h]
    · exact first
    · exact first.trans ((hnext a).continues t)
  · have first := hstep.error s
    obtain ⟨e, t, hs, h⟩ | ⟨a, t, hs, h⟩ := bind_cases step next s <;> rw [hs] at first <;> rw [h]
    · rintro _ ⟨⟩
      exact first e rfl
    · exact (hnext a).error t

theorem Writes.tentative (h : Writes step) : Tentative step where
  continues := h.continues
  error s e he := .inl (h.error s e he)

/-- Looking may come before. -/
theorem Looks.tentative_bind (hstep : Looks step) (hnext : ∀ a, Tentative (next a)) :
    Tentative (step >>= next) := by
  constructor <;> intro s <;> have first := hstep s <;>
    obtain ⟨e, t, hs, h⟩ | ⟨a, t, hs, h⟩ := bind_cases step next s <;> rw [hs] at first <;> rw [h]
  · exact first.toContinues
  · exact first.toContinues.trans ((hnext a).continues t)
  · exact fun _ _ => .inr first
  · exact fun e he => ((hnext a).error t e he).imp_right first.trans

/-- Writing may come after. -/
theorem Tentative.bind_writes (hstep : Tentative step) (hnext : ∀ a, Writes (next a)) :
    Tentative (step >>= next) := by
  constructor <;> intro s
  · have first := hstep.continues s
    obtain ⟨e, t, hs, h⟩ | ⟨a, t, hs, h⟩ := bind_cases step next s <;> rw [hs] at first <;> rw [h]
    · exact first
    · exact first.trans ((hnext a).continues t)
  · have first := hstep.error s
    obtain ⟨e, t, hs, h⟩ | ⟨a, t, hs, h⟩ := bind_cases step next s <;> rw [hs] at first <;> rw [h]
    · rintro _ ⟨⟩
      exact first e rfl
    · exact fun e he => .inl ((hnext a).error t e he)

end Sequence

/-! ## The steps -/

theorem looks_get : Looks (get : RunStep σ (RunState σ)) := Untouched.refl

theorem looks_throw (e : PipelineError) : Looks (throw e : RunStep σ α) := Untouched.refl

theorem looks_emit {event : Event} (h : event.kind ≠ .ingestionComplete) :
    Looks (emit event : RunStep σ Unit) := by
  intro s
  refine ⟨⟨rfl, rfl, rfl, ?_⟩, rfl, rfl⟩
  show completions (s.noted ++ _) = _
  rw [completions_append, completions_told h, List.append_nil]

theorem looks_checkCancelled : Looks (checkCancelled : RunStep σ Unit) := by
  refine looks_get.bind fun s => ?_
  rcases s.cancel.check with ⟨cancelled, cancel⟩
  refine Looks.bind (fun t => ⟨⟨rfl, rfl, rfl, rfl⟩, rfl, rfl⟩) fun _ => ?_
  cases cancelled
  · exact .pure ()
  · exact looks_throw .cancelled

theorem looks_scan (tree : Tree) (root : String) : Looks (scan tree root : RunStep σ ScanOutput) := by
  intro s
  obtain ⟨e, t, hget, -⟩ | ⟨_, t, hget, h⟩ := bind_cases get _ s
  · cases hget
  · cases hget
    rw [scan, h]
    rcases tree.scan s.pipeline.settings.scan root s.cancel with e | ⟨output, cancel⟩
    · exact .refl s
    · exact ⟨⟨rfl, rfl, rfl, rfl⟩, rfl, rfl⟩

theorem looks_parse (units : List SourceUnit) : Looks (parse units : RunStep σ _) :=
  fun _ => ⟨⟨rfl, rfl, rfl, rfl⟩, rfl, rfl⟩

theorem looks_reportDegraded (outcome : ParseOutcome) :
    Looks (reportDegraded outcome : RunStep σ Unit) := by
  unfold reportDegraded
  split
  · exact looks_emit (by simp [Event.kind])
  · exact .pure ()

theorem writes_onGraph (run : Session σ α) : Writes (onGraph run) where
  continues _ := ⟨rfl, rfl, rfl, rfl⟩
  error s e h := by
    replace h : (run s.graph).1.mapError PipelineError.graph = .error e := h
    rcases hrun : (run s.graph).1 with cause | a <;> rw [hrun] at h
    · exact ⟨cause, (Except.error.inj h).symm⟩
    · cases h

theorem writes_build (call : Builder → Session σ (Delta × Builder)) : Writes (build call) := by
  refine Writes.bind ⟨fun s => (looks_get s).toContinues, by rintro s e ⟨⟩⟩ fun s => ?_
  refine (writes_onGraph _).bind fun (delta, builder) => ?_
  exact Writes.bind ⟨fun _ => ⟨rfl, rfl, rfl, rfl⟩, by rintro s e ⟨⟩⟩ fun _ => .pure delta

end RunStep

namespace Pipeline

open RunStep RunState

variable {σ : Type}

theorem looks_scanTree (tree : Tree) (root : String) :
    Looks (scanTree tree root : RunStep σ ScanOutput) := by
  refine (looks_emit (by simp [Event.kind])).bind fun _ => ?_
  refine (looks_scan tree root).bind fun scan => ?_
  refine (Looks.forM (fun skipped => looks_emit (by simp [Event.kind])) _).bind fun _ => ?_
  refine (looks_emit (by simp [Event.kind])).bind fun _ => ?_
  exact looks_checkCancelled.bind fun _ => .pure scan

/-! ## Reports -/

/-- A call of a pipeline, with the moment at which it is cancelled. -/
inductive Call where
  | ingestTree (tree : Tree) (root : String) (cancel : Deadline)
  | ingestUnits (units : List SourceUnit) (cancel : Deadline)
  | removeUnit (path : String)

/-- What a call answers if it succeeds. -/
inductive Answer where
  | ingested (result : Collected RunSummary)
  | removed (delta : Delta)

namespace Report

variable {α β : Type}

def map (f : α → β) (r : Report σ α) : Report σ β := { r with outcome := r.outcome.map f }

/-- What a call failed for. -/
def error? (r : Report σ α) : Option PipelineError :=
  match r.outcome with
  | .ok _ => none
  | .error e => some e

theorem outcome_of_error? {r : Report σ α} {e : PipelineError} (h : r.error? = some e) :
    r.outcome = .error e := by
  unfold error? at h
  split at h <;> simp_all

/-- The summary of a run that came to its end. -/
def summary? (r : Report σ Answer) : Option RunSummary :=
  match r.outcome with
  | .ok (.ingested result) => some result.data
  | _ => none

end Report

/-- How a report accounts for the call of a pipeline. -/
structure Accounts (p : Pipeline) (graph : σ) (r : Report σ Answer) : Prop where
  status : r.pipeline.status =
    { running := false, generation := p.status.generation + r.summary?.toList.length }
  handlers : r.pipeline.handlers = p.handlers
  numbered : ∀ summary ∈ r.summary?, summary.generation = r.pipeline.status.generation
  told : completions r.noted = r.summary?.toList.flatMap fun summary =>
    (summary.completion.notedBy p.handlers).map fun name =>
      ⟨name, summary.completion, r.pipeline.status⟩
  error : ∀ e, r.outcome = .error e →
    (∃ cause, e = .graph cause) ∨ (r.graph = graph ∧ r.pipeline.builder = p.builder)

/-- The state in which the steps of a run begin. -/
def opening (p : Pipeline) (cancel : Deadline) (graph : σ) : RunState σ :=
  { pipeline := { p with status := { p.status with running := true } }, graph, cancel }

/-- The report of a run whose steps have ended. -/
def closing {α : Type} (outcome : Except PipelineError α) (s : RunState σ) : Report σ α where
  outcome := outcome
  noted := s.noted
  pipeline := { s.pipeline with status := { s.pipeline.status with running := false } }
  graph := s.graph

theorem run_eq {α : Type} (steps : RunStep σ α) (p : Pipeline) (cancel : Deadline) (graph : σ) :
    p.run cancel graph steps =
      closing (steps (p.opening cancel graph)).1 (steps (p.opening cancel graph)).2 := rfl

/-- A run that does not come to a conclusion, because it fails or because it has none. -/
theorem accounts_of_continues {α : Type} {p : Pipeline} {cancel : Deadline} {graph : σ}
    {outcome : Except PipelineError α} {s : RunState σ} (f : α → Answer)
    (hnone : ((closing outcome s).map f).summary? = none)
    (continues : Continues (p.opening cancel graph) s)
    (error : ∀ e, outcome = .error e →
      (∃ cause, e = .graph cause) ∨ Untouched (p.opening cancel graph) s) :
    Accounts p graph ((closing outcome s).map f) where
  status := by
    rw [hnone]
    exact congrArg (fun status => { status with running := false }) continues.status
  handlers := continues.handlers
  numbered := by
    rw [hnone]
    rintro _ ⟨⟩
  told := by
    rw [hnone]
    exact continues.completions
  error e h := by
    rcases outcome with _ | _ <;> cases h
    exact (error e rfl).imp_right fun untouched => ⟨untouched.graph, untouched.builder⟩

/-- The conclusion of a run, which cannot fail. -/
theorem conclude_apply (summary : RunSummary) (delta : Delta) (s : RunState σ) :
    ∃ t, ∃ result : Collected RunSummary,
      conclude summary delta s = (.ok result, t) ∧
      result.data.generation = s.pipeline.status.generation + 1 ∧
      t.pipeline.status = { running := false, generation := s.pipeline.status.generation + 1 } ∧
      t.pipeline.handlers = s.pipeline.handlers ∧
      t.noted = s.noted ++ (result.data.completion.notedBy s.pipeline.handlers).map fun name =>
        ⟨name, result.data.completion, t.pipeline.status⟩ :=
  ⟨_, _, rfl, rfl, rfl, rfl, rfl⟩

/-- A run that comes to its conclusion unless it fails before. -/
theorem accounts_conclude {steps : RunStep σ (RunSummary × Delta)} (h : Tentative steps) (p : Pipeline)
    (cancel : Deadline) (graph : σ) :
    Accounts p graph ((p.run cancel graph do
      let (summary, delta) ← steps
      conclude summary delta).map .ingested) := by
  have continues := h.continues (p.opening cancel graph)
  have error := h.error (p.opening cancel graph)
  obtain ⟨e, s, hs, hrun⟩ | ⟨⟨summary, delta⟩, s, hs, hrun⟩ :=
    bind_cases steps (fun (summary, delta) => conclude summary delta) (p.opening cancel graph) <;>
    rw [hs] at continues error
  · rw [run_eq, hrun]
    refine accounts_of_continues _ rfl continues ?_
    rintro _ ⟨⟩
    exact error e rfl
  · obtain ⟨t, result, hconclude, hnumber, hstatus, hhandlers, hnoted⟩ := conclude_apply summary delta s
    have hopening : s.pipeline.status = { p.status with running := true } := continues.status
    rw [run_eq, hrun.trans hconclude]
    rw [hopening] at hnumber hstatus
    constructor
    case status => exact congrArg (fun status => { status with running := false }) hstatus
    case handlers => exact hhandlers.trans continues.handlers
    case numbered =>
      rintro _ ⟨⟩
      exact hnumber.trans (congrArg RunStatus.generation hstatus).symm
    case told =>
      show completions t.noted = _
      have hclosed : { t.pipeline.status with running := false } = t.pipeline.status := by rw [hstatus]
      rw [hnoted, completions_append, continues.completions, completions_completion, continues.handlers]
      simp [completions, opening, Report.summary?, closing, Report.map, Except.map, hclosed]
    case error => rintro _ ⟨⟩

/-! ## Calls -/

variable [Backend σ]

/-- The last moment for a cancellation comes before the builder's turn. -/
theorem tentative_fold (units : List SourceUnit) (summary : RunSummary) :
    Tentative (fold units summary : RunStep σ (RunSummary × Delta)) :=
  (looks_parse units).tentative_bind fun outcomes =>
    looks_checkCancelled.tentative_bind fun _ =>
      (Looks.forM looks_reportDegraded outcomes).tentative_bind fun _ =>
        ((writes_build _).bind fun _ => .pure _).tentative

theorem writes_removeAll (paths : List String) (delta : Delta) :
    Writes (removeAll paths delta : RunStep σ Delta) := by
  induction paths generalizing delta with
  | nil => exact .pure delta
  | cons path rest ih => exact (writes_build _).bind fun _ => ih _

/-- What a run over a tree does before its conclusion. -/
def gatherTree (tree : Tree) (root : String) : RunStep σ (RunSummary × Delta) := do
  let scan ← scanTree tree root
  let diff := ScanDiff.compute scan.units (← get).pipeline.builder.unitHashes
  let wanted := diff.added ++ diff.modified
  let changed := scan.units.filter fun unit => wanted.contains unit.path
  let (summary, delta) ← fold changed (.ofScan scan diff)
  return (summary, ← removeAll diff.removed delta)

theorem foldScan_scanTree (tree : Tree) (root : String) :
    (do foldScan (← scanTree tree root) : RunStep σ (Collected RunSummary)) =
      (do
        let (summary, delta) ← gatherTree tree root
        conclude summary delta) := by
  simp only [foldScan, gatherTree, bind_assoc, pure_bind]

theorem tentative_gatherTree (tree : Tree) (root : String) :
    Tentative (gatherTree tree root : RunStep σ (RunSummary × Delta)) := by
  refine (looks_scanTree tree root).tentative_bind fun scan => ?_
  refine looks_get.tentative_bind fun s => ?_
  refine (tentative_fold _ _).bind_writes fun (summary, delta) => ?_
  exact (writes_removeAll _ delta).bind fun _ => .pure _

/-- Makes a call. -/
def call (p : Pipeline) (graph : σ) : Call → Report σ Answer
  | .ingestTree tree root cancel => (p.ingestTree tree root cancel graph).map .ingested
  | .ingestUnits units cancel => (p.ingestUnits units cancel graph).map .ingested
  | .removeUnit path => (p.removeUnit path graph).map .removed

/-- The reports of one call after another. -/
def reports (p : Pipeline) (graph : σ) : List Call → List (Report σ Answer)
  | [] => []
  | c :: rest =>
    let r := p.call graph c
    r :: r.pipeline.reports r.graph rest

theorem accounts_call (p : Pipeline) (graph : σ) (c : Call) : Accounts p graph (p.call graph c) := by
  cases c with
  | ingestTree tree root cancel =>
    rw [call, ingestTree, foldScan_scanTree]
    exact accounts_conclude (tentative_gatherTree tree root) p cancel graph
  | ingestUnits units cancel => exact accounts_conclude (tentative_fold units _) p cancel graph
  | removeUnit path =>
    have writes : Writes (build (·.removeUnit path) : RunStep σ Delta) := writes_build _
    have continues := writes.continues (p.opening .never graph)
    have error := writes.error (p.opening .never graph)
    rw [call, removeUnit, run_eq]
    refine accounts_of_continues _ ?_ continues fun e he => .inl (error e he)
    rcases (build (·.removeUnit path) : RunStep σ Delta) (p.opening .never graph) with ⟨_ | _, _⟩ <;>
      rfl

/-- In a sequence of calls each report accounts for its own call, which starts with the generation that
the runs concluded before it make up. -/
theorem getElem?_reports {p : Pipeline} {graph : σ} {calls : List Call} {n : Nat}
    {r : Report σ Answer} (h : (p.reports graph calls)[n]? = some r) :
    ∃ (q : Pipeline) (before : σ), Accounts q before r ∧ q.handlers = p.handlers ∧
      q.status.generation = p.status.generation +
        ((p.reports graph calls).take n).countP (·.summary?.isSome) := by
  induction calls generalizing p graph n with
  | nil => simp [reports] at h
  | cons c rest ih =>
    have first := accounts_call p graph c
    cases n with
    | zero =>
      obtain rfl : p.call graph c = r := by simpa [reports] using h
      exact ⟨p, graph, first, rfl, rfl⟩
    | succ n =>
      obtain ⟨q, before, accounts, handlers, generation⟩ := ih h
      refine ⟨q, before, accounts, handlers.trans first.handlers, ?_⟩
      rw [generation, first.status, reports, List.take_succ_cons, List.countP_cons]
      cases (p.call graph c).summary? with
      | none => simp
      | some summary =>
        simp
        omega

/-- **A run that looks only leaves no trace, and every call leaves an idle pipeline.** A run that is
cancelled, at whatever moment, or that cannot scan its tree, leaves the graph and the builder it found.
After each of any calls of a pipeline, whatever becomes of them, nothing is running, the generation is
the number of the runs up to then that gave a summary, and of these alone it is told that they are
complete: once each, with their own number and counts. -/
theorem unconcluded_leaves_no_trace :
    (∀ (p : Pipeline) (graph : σ) (c : Call) (e : PipelineError),
      (p.call graph c).outcome = .error e → e = .cancelled ∨ (∃ cause, e = .scan cause) →
      (p.call graph c).graph = graph ∧ (p.call graph c).pipeline.builder = p.builder) ∧
    ∀ (settings : Settings) (analyzer : Option Analyzer) (store : CacheStore) (cores : Nat)
      (handlers : List Handler) (builder : Builder) (graph : σ) (calls : List Call) (n : Nat)
      (r : Report σ Answer),
      let reports := (ofBuilder settings analyzer store cores handlers builder).reports graph calls
      reports[n]? = some r →
      r.pipeline.status = ⟨false, (reports.take (n + 1)).countP (·.summary?.isSome)⟩ ∧
      (r.summary? = none → completions r.noted = []) ∧
      ∀ summary, r.summary? = some summary →
        summary.generation = r.pipeline.status.generation ∧
        completions r.noted = (summary.completion.notedBy handlers).map fun name =>
          ⟨name, summary.completion, r.pipeline.status⟩ := by
  refine ⟨fun p graph c e he hcause => ?_, fun settings analyzer store cores handlers builder graph
    calls n r => ?_⟩
  · rcases (accounts_call p graph c).error e he with ⟨cause, rfl⟩ | untouched
    · rcases hcause with h | ⟨_, h⟩ <;> cases h
    · exact untouched
  · intro reports hr
    obtain ⟨q, before, accounts, hhandlers, hgeneration⟩ := getElem?_reports hr
    have hbefore : q.status.generation = (reports.take n).countP (·.summary?.isSome) :=
      hgeneration.trans (Nat.zero_add _)
    have hcount : (reports.take (n + 1)).countP (·.summary?.isSome) =
        q.status.generation + r.summary?.toList.length := by
      rw [List.take_add_one, hr, List.countP_append, hbefore]
      cases hs : r.summary? <;> simp [hs]
    refine ⟨hcount ▸ accounts.status, fun hnone => ?_, fun summary hsome => ⟨?_, ?_⟩⟩
    · rw [accounts.told, hnone]
      rfl
    · exact accounts.numbered summary hsome
    · rw [accounts.told, hsome, hhandlers]
      simp [ofBuilder]

/-- A module is ingested, and then a second one, which is never parsed: that run is cancelled before.
The first call is the only run that counts, and the second leaves what it found. -/
theorem unconcluded_leaves_no_trace_sample :
    let p := ofBuilder {} none (.table {}) 1 [.recorder "log"] { markers := ["test"] }
    let a := SourceUnit.ofText "src/A.bsl" .sourceModule "Procedure F()\n  G();\nEndProcedure\n"
    let b := SourceUnit.ofText "src/B.bsl" .sourceModule "Procedure G() Export\nEndProcedure\n"
    let first := p.call ({} : PropertyGraph) (.ingestUnits [a] .never)
    let second := first.pipeline.call first.graph (.ingestUnits [b] .passed)
    first.summary?.map (·.upsertedNodes) = some 3 ∧ second.error? = some .cancelled ∧
    second.graph = first.graph ∧ second.pipeline.builder = first.pipeline.builder ∧
    second.pipeline.status = ⟨false, 1⟩ ∧ completions second.noted = [] := by
  intro p a b first second
  have hfirst : first.summary?.map (·.upsertedNodes) = some 3 := by decide +kernel
  have hsecond : second.error? = some .cancelled := by decide +kernel
  have hnone : second.summary? = none := by
    rw [Report.summary?, Report.outcome_of_error? hsecond]
  have untouched := (@unconcluded_leaves_no_trace PropertyGraph _).1 first.pipeline first.graph
    (.ingestUnits [b] .passed) .cancelled (Report.outcome_of_error? hsecond) (.inl rfl)
  obtain ⟨hstatus, hquiet, -⟩ := (@unconcluded_leaves_no_trace PropertyGraph _).2 {} none
    (.table {}) 1 [.recorder "log"] { markers := ["test"] } {}
    [.ingestUnits [a] .never, .ingestUnits [b] .passed] 1 second rfl
  refine ⟨hfirst, hsecond, untouched.1, untouched.2, ?_, hquiet hnone⟩
  obtain ⟨summary, hsummary, -⟩ := Option.map_eq_some_iff.mp hfirst
  rw [hstatus]
  show RunStatus.mk false ([first, second].countP (·.summary?.isSome)) = _
  simp [hsummary, hnone]

end Pipeline

end CodeAtlas
