import CodeAtlas.Proofs.ListRuns
import CodeAtlas.Settings.Layers

/-!
# Settings, one by one

Laying settings over each other, and each of the four layers, is written out field by field. Here the
settings are counted once (`Setting`), each with its table, its name and the form of its values, and
what a layer says about a setting is read off these three: a file has it under the table and the name,
the environment under the capitals of both, and the command line knows four of them. Loading answers
for every setting with the highest layer that sets it (`load_resolves_layers`).

The rest follows from two facts: what is read off an overlay is the upper value, else the lower one
(`get?_overlay`), and settings are the same if every setting is (`ext_get?`). A list is read as set
only where it is not empty, and this is what makes lists behave like all other values.
-/

set_option autoImplicit false

namespace CodeAtlas

/-! ## The settings -/

/-- The form of the values of a setting. -/
inductive Form : Type → Type where
  | size : Form Nat
  | word : Form Nat
  | flag : Form Bool
  | real : Form Float
  | texts : Form (List String)

/-- A list as a value: an empty one sets nothing. -/
def filled? {β : Type} (values : List β) : Option (List β) :=
  if values.isEmpty then none else some values

namespace Form

/-- The value that the text of an environment variable stands for. -/
def ofText? {α : Type} : Form α → String → Option α
  | size => natOfText? UInt64.size
  | word => natOfText? UInt32.size
  | flag => boolOfText?
  | real => floatOfText?
  | texts => fun _ => none

/-- The value that stands in a settings file. -/
def ofToml? {α : Type} : Form α → Toml → Option α
  | size => Toml.asSize?
  | word => Toml.asWord?
  | flag => Toml.asBool?
  | real => Toml.asFloat?
  | texts => fun
    | .arr items => (items.mapM fun
      | .str text => some text
      | _ => none) >>= filled?
    | _ => none

end Form

/-- A single setting, by the type of its values. -/
inductive Setting : Type → Type where
  | maxFileSize : Setting Nat
  | threads : Setting Nat
  | extraIgnore : Setting (List String)
  | followSymlinks : Setting Bool
  | parallelism : Setting Nat
  | deepParse : Setting Bool
  | deepTimeoutMs : Setting Nat
  | deepWorkers : Setting Nat
  | cacheCapacity : Setting Nat
  | testMarkers : Setting (List String)
  | maxDepth : Setting Nat
  | cycleStepBudget : Setting Nat
  | couplingNormalization : Setting Float
  | directWeight : Setting Float
  | transitiveWeight : Setting Float
  | cycleWeight : Setting Float
  | couplingWeight : Setting Float
  | highComplexity : Setting Nat
  | criticalComplexity : Setting Nat
  | minTestsForComplex : Setting Nat
  | lowCoverage : Setting Float

namespace Setting

variable {α : Type}

def form : Setting α → Form α
  | extraIgnore | testMarkers => .texts
  | followSymlinks | deepParse => .flag
  | maxFileSize | threads | parallelism | deepTimeoutMs | deepWorkers | cacheCapacity
  | cycleStepBudget => .size
  | maxDepth | highComplexity | criticalComplexity | minTestsForComplex => .word
  | couplingNormalization | directWeight | transitiveWeight | cycleWeight | couplingWeight
  | lowCoverage => .real

/-- The table that holds the setting in a file. -/
def table : Setting α → String
  | maxFileSize | threads | extraIgnore | followSymlinks => "scan"
  | parallelism | deepParse | deepTimeoutMs | deepWorkers | cacheCapacity => "parser"
  | testMarkers | maxDepth | cycleStepBudget => "graph"
  | couplingNormalization | directWeight | transitiveWeight | cycleWeight | couplingWeight => "metrics"
  | highComplexity | criticalComplexity | minTestsForComplex | lowCoverage => "coverage"

/-- The name of the setting in its table. -/
def name : Setting α → String
  | maxFileSize => "max_file_size"
  | threads => "threads"
  | extraIgnore => "extra_ignore"
  | followSymlinks => "follow_symlinks"
  | parallelism => "parallelism"
  | deepParse => "deep_parse"
  | deepTimeoutMs => "deep_timeout_ms"
  | deepWorkers => "deep_workers"
  | cacheCapacity => "cache_capacity"
  | testMarkers => "test_markers"
  | maxDepth => "max_depth"
  | cycleStepBudget => "cycle_step_budget"
  | couplingNormalization => "coupling_normalization"
  | directWeight => "direct_weight"
  | transitiveWeight => "transitive_weight"
  | cycleWeight => "cycle_weight"
  | couplingWeight => "coupling_weight"
  | highComplexity => "high_complexity"
  | criticalComplexity => "critical_complexity"
  | minTestsForComplex => "min_tests_for_complex"
  | lowCoverage => "low_coverage"

/-- The names of all settings of the same table, in order. -/
def siblings : Setting α → List String
  | maxFileSize | threads | extraIgnore | followSymlinks => ScanSettings.names
  | parallelism | deepParse | deepTimeoutMs | deepWorkers | cacheCapacity => ParserSettings.names
  | testMarkers | maxDepth | cycleStepBudget => GraphSettings.names
  | couplingNormalization | directWeight | transitiveWeight | cycleWeight | couplingWeight =>
    MetricsSettings.names
  | highComplexity | criticalComplexity | minTestsForComplex | lowCoverage => CoverageSettings.names

/-- Whether the environment can set it. -/
def inEnvironment : Setting α → Bool
  | maxFileSize | threads | parallelism | deepParse | deepTimeoutMs | deepWorkers | maxDepth
  | couplingNormalization => true
  | _ => false

/-- What settings hold for a single one, if it is set. -/
def get? : Setting α → Settings → Option α
  | maxFileSize, s => s.scan.maxFileSize
  | threads, s => s.scan.threads
  | extraIgnore, s => filled? s.scan.extraIgnore
  | followSymlinks, s => s.scan.followSymlinks
  | parallelism, s => s.parser.parallelism
  | deepParse, s => s.parser.deepParse
  | deepTimeoutMs, s => s.parser.deepTimeoutMs
  | deepWorkers, s => s.parser.deepWorkers
  | cacheCapacity, s => s.parser.cacheCapacity
  | testMarkers, s => filled? s.graph.testMarkers
  | maxDepth, s => s.graph.maxDepth
  | cycleStepBudget, s => s.graph.cycleStepBudget
  | couplingNormalization, s => s.metrics.couplingNormalization
  | directWeight, s => s.metrics.directWeight
  | transitiveWeight, s => s.metrics.transitiveWeight
  | cycleWeight, s => s.metrics.cycleWeight
  | couplingWeight, s => s.metrics.couplingWeight
  | highComplexity, s => s.coverage.highComplexity
  | criticalComplexity, s => s.coverage.criticalComplexity
  | minTestsForComplex, s => s.coverage.minTestsForComplex
  | lowCoverage, s => s.coverage.lowCoverage

/-! ## What the layers say -/

/-- The value that the command line gives. -/
def onCommandLine? : Setting α → CommandLine → Option α
  | maxFileSize, c => c.maxFileSize
  | parallelism, c => c.parallelism
  | deepParse, c => c.deepParse
  | maxDepth, c => c.maxDepth
  | _, _ => none

/-- The name of the environment variable, without the prefix that all of them share. -/
def variableName? (f : Setting α) : Option String :=
  if f.inEnvironment then
    some (String.ofList ((f.table ++ "_" ++ f.name).toList.map Char.toUpper))
  else none

/-- The value that the environment gives, if its variable is there and can be understood. -/
def inEnvironment? (f : Setting α) (variable_ : String → Option String) : Option α := do
  f.form.ofText? (← variable_ (← f.variableName?))

/-- The value that stands in a document under the setting's table and name. -/
def inDocument? (f : Setting α) (document : Toml) : Option α := do
  let root ← document.fields? ["scan", "parser", "graph", "metrics", "coverage"]
  let fields ← (← root f.table).fields? f.siblings
  f.form.ofToml? (← fields f.name)

/-- The value that a settings file gives. -/
def inFile? (f : Setting α) : SettingsFile → Option α
  | .text _ content => Toml.parse? content >>= f.inDocument?
  | _ => none

end Setting

/-- The layers, as they are laid over each other. -/
inductive Layer where
  | commandLine
  | environment
  | projectFile
  | userFile

/-- All layers, the highest first. -/
def Layer.all : List Layer := [commandLine, environment, projectFile, userFile]

/-- What stands in the four layers. -/
structure Layered where
  user : SettingsFile
  project : SettingsFile
  variable_ : String → Option String
  commandLine : CommandLine

namespace Layered

/-- What a layer says about a setting. -/
def says? {α : Type} (l : Layered) (f : Setting α) : Layer → Option α
  | .commandLine => f.onCommandLine? l.commandLine
  | .environment => f.inEnvironment? l.variable_
  | .projectFile => f.inFile? l.project
  | .userFile => f.inFile? l.user

/-- The settings that all layers give together. -/
def load (l : Layered) : Except SettingsError Settings :=
  Settings.load l.user l.project l.variable_ l.commandLine

end Layered

/-! ## Overlays -/

namespace Setting

variable {α : Type}

theorem filled?_overlayList {β : Type} (upper lower : List β) :
    filled? (overlayList upper lower) = (filled? upper).or (filled? lower) := by
  cases upper with
  | nil => rfl
  | cons first rest => rfl

theorem filled?_inj {β : Type} {a b : List β} (h : filled? a = filled? b) : a = b := by
  cases a with
  | nil =>
    cases b with
    | nil => rfl
    | cons first rest => cases h
  | cons first rest =>
    cases b with
    | nil => cases h
    | cons other others => exact Option.some.inj h

/-- An overlay holds the upper value where it is set, else the lower one. -/
theorem get?_overlay (f : Setting α) (upper lower : Settings) :
    f.get? (upper.overlay lower) = (f.get? upper).or (f.get? lower) := by
  cases f
  case extraIgnore => exact filled?_overlayList _ _
  case testMarkers => exact filled?_overlayList _ _
  all_goals rfl

theorem get?_empty (f : Setting α) : f.get? {} = none := by
  cases f <;> rfl

/-- Settings are the same if they hold the same for every single one. -/
theorem ext_get? {s t : Settings} (h : ∀ (β : Type) (f : Setting β), f.get? s = f.get? t) :
    s = t := by
  obtain ⟨⟨_, _, _, _⟩, ⟨_, _, _, _, _⟩, ⟨_, _, _⟩, ⟨_, _, _, _, _⟩, ⟨_, _, _, _⟩⟩ := s
  obtain ⟨⟨_, _, _, _⟩, ⟨_, _, _, _, _⟩, ⟨_, _, _⟩, ⟨_, _, _, _, _⟩, ⟨_, _, _, _⟩⟩ := t
  congr
  · exact h _ maxFileSize
  · exact h _ threads
  · exact filled?_inj (h _ extraIgnore)
  · exact h _ followSymlinks
  · exact h _ parallelism
  · exact h _ deepParse
  · exact h _ deepTimeoutMs
  · exact h _ deepWorkers
  · exact h _ cacheCapacity
  · exact filled?_inj (h _ testMarkers)
  · exact h _ maxDepth
  · exact h _ cycleStepBudget
  · exact h _ couplingNormalization
  · exact h _ directWeight
  · exact h _ transitiveWeight
  · exact h _ cycleWeight
  · exact h _ couplingWeight
  · exact h _ highComplexity
  · exact h _ criticalComplexity
  · exact h _ minTestsForComplex
  · exact h _ lowCoverage

end Setting

namespace Settings

open Setting

theorem overlay_assoc (a b c : Settings) : (a.overlay b).overlay c = a.overlay (b.overlay c) := by
  refine ext_get? fun β f => ?_
  rw [get?_overlay, get?_overlay, get?_overlay, get?_overlay, Option.or_assoc]

theorem overlay_empty (s : Settings) : s.overlay {} = s := by
  refine ext_get? fun β f => ?_
  rw [get?_overlay, get?_empty, Option.or_none]

theorem empty_overlay (s : Settings) : overlay {} s = s := by
  refine ext_get? fun β f => ?_
  rw [get?_overlay, get?_empty, Option.none_or]

end Settings

/-! ## The command line and the environment -/

namespace Setting

variable {α : Type}

theorem get?_ofCommandLine (f : Setting α) (c : CommandLine) :
    f.get? (.ofCommandLine c) = f.onCommandLine? c := by
  cases f <;> rfl

theorem get?_ofEnvironment (f : Setting α) (variable_ : String → Option String) :
    f.get? (.ofEnvironment variable_) = f.inEnvironment? variable_ := by
  cases f <;> rfl

end Setting

/-! ## Files -/

namespace Toml

variable {fields : Fields} {name : String}

/-- A section is read off the members of its table; one that is missing has no members. -/
theorem of_readSection {β : Type} [Inhabited β] {names : List String} {read : Fields → Option β}
    {root : Fields} {s : β} (missing : read (fun _ => none) = some default)
    (h : readSection names read root name = some s) :
    read (((root name).bind (fields? names)).getD fun _ => none) = some s := by
  unfold readSection at h
  cases hroot : root name with
  | none => rw [hroot] at h; exact missing.trans h
  | some value =>
    rw [hroot] at h
    obtain ⟨fields, hfields, hread⟩ := Option.bind_eq_some_iff.mp h
    rw [Option.bind_some, hfields]
    exact hread

theorem of_optional {β : Type} {read : Toml → Option β} {value : Option β}
    (h : optional read fields name = some value) : value = (fields name).bind read := by
  unfold optional at h
  cases hname : fields name with
  | none => rw [hname] at h; exact (Option.some.inj h).symm
  | some v =>
    rw [hname] at h
    obtain ⟨x, hx, rfl⟩ := Option.map_eq_some_iff.mp h
    exact hx.symm

theorem of_strings {values : List String} (h : strings fields name = some values) :
    filled? values = (fields name).bind Form.texts.ofToml? := by
  unfold strings at h
  cases hname : fields name with
  | none =>
    rw [hname] at h
    rw [← Option.some.inj h]
    rfl
  | some v =>
    rw [hname] at h
    cases v with
    | arr items => exact (congrArg (· >>= filled?) h).symm
    | _ => cases h

end Toml

/-! The members of each section. -/

section Sections

open Toml

variable {fields : Fields}

theorem ScanSettings.of_ofFields? {s : ScanSettings} (h : ofFields? fields = some s) :
    s.maxFileSize = (fields "max_file_size").bind asSize? ∧
    s.threads = (fields "threads").bind asSize? ∧
    filled? s.extraIgnore = (fields "extra_ignore").bind Form.texts.ofToml? ∧
    s.followSymlinks = (fields "follow_symlinks").bind asBool? := by
  simp only [ofFields?, Option.bind_eq_bind, Option.bind_eq_some_iff, Option.pure_def,
    Option.some.injEq] at h
  obtain ⟨_, h₁, _, h₂, _, h₃, _, h₄, rfl⟩ := h
  exact ⟨of_optional h₁, of_optional h₂, of_strings h₃, of_optional h₄⟩

theorem ParserSettings.of_ofFields? {s : ParserSettings} (h : ofFields? fields = some s) :
    s.parallelism = (fields "parallelism").bind asSize? ∧
    s.deepParse = (fields "deep_parse").bind asBool? ∧
    s.deepTimeoutMs = (fields "deep_timeout_ms").bind asSize? ∧
    s.deepWorkers = (fields "deep_workers").bind asSize? ∧
    s.cacheCapacity = (fields "cache_capacity").bind asSize? := by
  simp only [ofFields?, Option.bind_eq_bind, Option.bind_eq_some_iff, Option.pure_def,
    Option.some.injEq] at h
  obtain ⟨_, h₁, _, h₂, _, h₃, _, h₄, _, h₅, rfl⟩ := h
  exact ⟨of_optional h₁, of_optional h₂, of_optional h₃, of_optional h₄, of_optional h₅⟩

theorem GraphSettings.of_ofFields? {s : GraphSettings} (h : ofFields? fields = some s) :
    filled? s.testMarkers = (fields "test_markers").bind Form.texts.ofToml? ∧
    s.maxDepth = (fields "max_depth").bind asWord? ∧
    s.cycleStepBudget = (fields "cycle_step_budget").bind asSize? := by
  simp only [ofFields?, Option.bind_eq_bind, Option.bind_eq_some_iff, Option.pure_def,
    Option.some.injEq] at h
  obtain ⟨_, h₁, _, h₂, _, h₃, rfl⟩ := h
  exact ⟨of_strings h₁, of_optional h₂, of_optional h₃⟩

theorem MetricsSettings.of_ofFields? {s : MetricsSettings} (h : ofFields? fields = some s) :
    s.couplingNormalization = (fields "coupling_normalization").bind asFloat? ∧
    s.directWeight = (fields "direct_weight").bind asFloat? ∧
    s.transitiveWeight = (fields "transitive_weight").bind asFloat? ∧
    s.cycleWeight = (fields "cycle_weight").bind asFloat? ∧
    s.couplingWeight = (fields "coupling_weight").bind asFloat? := by
  simp only [ofFields?, Option.bind_eq_bind, Option.bind_eq_some_iff, Option.pure_def,
    Option.some.injEq] at h
  obtain ⟨_, h₁, _, h₂, _, h₃, _, h₄, _, h₅, rfl⟩ := h
  exact ⟨of_optional h₁, of_optional h₂, of_optional h₃, of_optional h₄, of_optional h₅⟩

theorem CoverageSettings.of_ofFields? {s : CoverageSettings} (h : ofFields? fields = some s) :
    s.highComplexity = (fields "high_complexity").bind asWord? ∧
    s.criticalComplexity = (fields "critical_complexity").bind asWord? ∧
    s.minTestsForComplex = (fields "min_tests_for_complex").bind asWord? ∧
    s.lowCoverage = (fields "low_coverage").bind asFloat? := by
  simp only [ofFields?, Option.bind_eq_bind, Option.bind_eq_some_iff, Option.pure_def,
    Option.some.injEq] at h
  obtain ⟨_, h₁, _, h₂, _, h₃, _, h₄, rfl⟩ := h
  exact ⟨of_optional h₁, of_optional h₂, of_optional h₃, of_optional h₄⟩

end Sections

namespace Setting

variable {α : Type}

/-- A setting is looked up in the members of its table, which has none where it is missing. -/
theorem inDocument?_eq (f : Setting α) {document : Toml} {root : Toml.Fields}
    (h : document.fields? ["scan", "parser", "graph", "metrics", "coverage"] = some root) :
    f.inDocument? document =
      ((((root f.table).bind (Toml.fields? f.siblings)).getD fun _ => none) f.name).bind
        f.form.ofToml? := by
  simp only [inDocument?, h, Option.bind_eq_bind, Option.bind_some]
  rw [← Option.bind_assoc]
  cases (root f.table).bind (Toml.fields? f.siblings) <;> rfl

/-- What the settings of a document hold is what stands in it. -/
theorem get?_ofToml (f : Setting α) {document : Toml} {s : Settings}
    (h : Settings.ofToml? document = some s) : f.get? s = f.inDocument? document := by
  simp only [Settings.ofToml?, Option.bind_eq_bind, Option.bind_eq_some_iff, Option.pure_def,
    Option.some.injEq] at h
  obtain ⟨root, hroot, _, hscan, _, hparser, _, hgraph, _, hmetrics, _, hcoverage, rfl⟩ := h
  rw [inDocument?_eq f hroot]
  obtain ⟨s₁, s₂, s₃, s₄⟩ := ScanSettings.of_ofFields? (Toml.of_readSection rfl hscan)
  obtain ⟨p₁, p₂, p₃, p₄, p₅⟩ := ParserSettings.of_ofFields? (Toml.of_readSection rfl hparser)
  obtain ⟨g₁, g₂, g₃⟩ := GraphSettings.of_ofFields? (Toml.of_readSection rfl hgraph)
  obtain ⟨m₁, m₂, m₃, m₄, m₅⟩ := MetricsSettings.of_ofFields? (Toml.of_readSection rfl hmetrics)
  obtain ⟨c₁, c₂, c₃, c₄⟩ := CoverageSettings.of_ofFields? (Toml.of_readSection rfl hcoverage)
  cases f <;> assumption

/-- What the settings of a usable file hold is what the file gives. -/
theorem get?_settings (f : Setting α) {file : SettingsFile} {s : Settings}
    (h : file.settings = .ok s) : f.get? s = f.inFile? file := by
  cases file with
  | absent => rw [← Except.ok.inj h, get?_empty]; rfl
  | unreadable path => cases h
  | text path content =>
    rw [SettingsFile.settings, Settings.read] at h
    cases hread : Toml.parse? content >>= Settings.ofToml? with
    | none => rw [hread] at h; cases h
    | some settings =>
      rw [hread] at h
      obtain ⟨document, hparse, hdocument⟩ := Option.bind_eq_some_iff.mp hread
      rw [← Except.ok.inj h, get?_ofToml f hdocument, inFile?, hparse]
      rfl

/-- What a file gives is the member of that name in its table, where the table is written as one; where it
is missing the file gives nothing. -/
theorem inFile?_of_members (f : Setting α) {path content : String} {tables : List (String × Toml)}
    (h : Toml.parse? content = some (.table tables)) :
    (∀ members, tables.lookup f.table = some (.table members) →
      f.inFile? (.text path content) = (members.lookup f.name).bind f.form.ofToml?) ∧
    (tables.lookup f.table = none → f.inFile? (.text path content) = none) := by
  have hdocument : f.inFile? (.text path content) = f.inDocument? (.table tables) := by
    rw [inFile?, h]
    rfl
  rw [hdocument, inDocument?_eq f rfl]
  refine ⟨fun members htable => ?_, fun htable => ?_⟩
  · rw [htable]
    rfl
  · rw [htable]
    rfl

theorem get?_settingsIfReadable (f : Setting α) {file : SettingsFile} {s : Settings}
    (h : file.settingsIfReadable = .ok s) : f.get? s = f.inFile? file := by
  cases file with
  | unreadable path => rw [← Except.ok.inj h, get?_empty]; rfl
  | absent => exact get?_settings f h
  | text path content => exact get?_settings f h

end Setting

/-! ## All layers -/

namespace Layered

/-- The layers can be laid over each other: the files that have to be usable are. -/
def Usable (l : Layered) : Prop :=
  (∃ s, l.user.settingsIfReadable = .ok s) ∧ ∃ s, l.project.settings = .ok s

/-- Every setting is what the highest layer says that says anything about it. -/
def Resolves (l : Layered) (s : Settings) : Prop :=
  ∀ (α : Type) (f : Setting α), f.get? s = Layer.all.findSome? (l.says? f)

/-- The overlay of all layers, taken setting by setting. -/
theorem get?_overlays {l : Layered} {user project : Settings}
    (huser : l.user.settingsIfReadable = .ok user) (hproject : l.project.settings = .ok project)
    {α : Type} (f : Setting α) :
    f.get? ((Settings.ofCommandLine l.commandLine).overlay
      ((Settings.ofEnvironment l.variable_).overlay (project.overlay user))) =
      Layer.all.findSome? (l.says? f) := by
  rw [Setting.get?_overlay, Setting.get?_overlay, Setting.get?_overlay,
    Setting.get?_ofCommandLine, Setting.get?_ofEnvironment, Setting.get?_settings f hproject,
    Setting.get?_settingsIfReadable f huser]
  simp only [Layer.all, List.findSome?_cons, List.findSome?_nil, says?]
  cases f.onCommandLine? l.commandLine with
  | some x => rfl
  | none =>
    cases f.inEnvironment? l.variable_ with
    | some x => rfl
    | none =>
      cases f.inFile? l.project with
      | some x => rfl
      | none => cases f.inFile? l.user <;> rfl

theorem load_eq_ok_iff (l : Layered) (s : Settings) :
    l.load = .ok s ↔ l.Usable ∧ l.Resolves s ∧ s.validate = .ok () := by
  constructor
  · intro h
    obtain ⟨user, huser, h⟩ := Except.of_bind_ok h
    obtain ⟨project, hproject, h⟩ := Except.of_bind_ok h
    obtain ⟨_, hvalid, h⟩ := Except.of_bind_ok h
    obtain rfl := Except.ok.inj h
    exact ⟨⟨⟨user, huser⟩, project, hproject⟩, fun α f => get?_overlays huser hproject f, hvalid⟩
  · rintro ⟨⟨⟨user, huser⟩, project, hproject⟩, hresolves, hvalid⟩
    have hs : s = (Settings.ofCommandLine l.commandLine).overlay
        ((Settings.ofEnvironment l.variable_).overlay (project.overlay user)) :=
      Setting.ext_get? fun α f => (hresolves α f).trans (get?_overlays huser hproject f).symm
    rw [load, Settings.load, huser, hproject]
    show (do (Settings.validate _); return _) = _
    rw [← hs, hvalid]
    rfl

/-- Loading succeeds exactly with settings that pass the checks and hold, for every single setting,
what the highest layer gives that gives anything; where none does it is not set. Overlays can be
grouped at will, and settings that set nothing leave the others alone from above and from below. -/
theorem load_resolves_layers (l : Layered) :
    (∀ s, l.load = .ok s ↔ l.Usable ∧ l.Resolves s ∧ s.validate = .ok ()) ∧
    (∀ a b c : Settings, (a.overlay b).overlay c = a.overlay (b.overlay c)) ∧
    ∀ s : Settings, s.overlay {} = s ∧ Settings.overlay {} s = s :=
  ⟨l.load_eq_ok_iff, Settings.overlay_assoc, fun s => ⟨s.overlay_empty, s.empty_overlay⟩⟩

/-- Two files, a variable that can be understood and one that cannot, and an option. -/
def sampleLayers : Layered where
  user := .text "user.toml"
    "[scan]\nthreads = 2\nmax_file_size = 100\n\n[graph]\nmax_depth = 7\ntest_markers = [\"Test\"]\n"
  project := .text "project.toml"
    "[scan]\nthreads = 4\n\n[parser]\nparallelism = 3\ndeep_parse = true\n"
  variable_
    | "SCAN_MAX_FILE_SIZE" => some "200"
    | "PARSER_PARALLELISM" => some "many"
    | _ => none
  commandLine := { maxDepth := some 9 }

/-- Each layer has the last word on some setting. -/
theorem load_resolves_layers_sample :
    ∃ s, sampleLayers.load = .ok s ∧ sampleLayers.Resolves s ∧
      [Setting.maxDepth.get? s, Setting.maxFileSize.get? s, Setting.threads.get? s,
        Setting.parallelism.get? s, Setting.cacheCapacity.get? s] =
          [some 9, some 200, some 4, some 3, none] ∧
      Setting.deepParse.get? s = some true ∧ Setting.testMarkers.get? s = some ["Test"] := by
  have hvalues : sampleLayers.load.toOption.map (fun s =>
      ([Setting.maxDepth.get? s, Setting.maxFileSize.get? s, Setting.threads.get? s,
        Setting.parallelism.get? s, Setting.cacheCapacity.get? s],
      Setting.deepParse.get? s, Setting.testMarkers.get? s)) =
        some ([some 9, some 200, some 4, some 3, none], some true, some ["Test"]) := by
    decide +kernel
  cases hload : sampleLayers.load with
  | error e =>
    rw [hload] at hvalues
    cases hvalues
  | ok s =>
    rw [hload] at hvalues
    obtain ⟨hnumbers, hothers⟩ := Prod.mk.inj (Option.some.inj hvalues)
    obtain ⟨hdeep, hmarkers⟩ := Prod.mk.inj hothers
    obtain ⟨-, hresolves, -⟩ := ((load_resolves_layers sampleLayers).1 s).mp hload
    exact ⟨s, rfl, hresolves, hnumbers, hdeep, hmarkers⟩

end Layered

end CodeAtlas
