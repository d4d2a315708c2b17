import CodeAtlas.Settings.File

/-!
# Layers of settings

Settings come from four layers: the user's file, the project's file, environment variables and the
command line, each laid over the ones before. A user's file that cannot be read is passed over, one
that can be read and is malformed is not. An environment variable whose text cannot be understood
counts as not set. Only the result is judged, so that an upper layer can mend a lower one.
-/

set_option autoImplicit false

namespace CodeAtlas

open Text

/-! ## Texts of numbers -/

/-- A natural number below a bound: decimal digits, with a plus sign before them or not. -/
def natOfText? (bound : Nat) (text : String) : Option Nat :=
  let digits := match text.toList with
    | '+' :: rest => rest
    | cs => cs
  (natOfDigits? digits).filter (· < bound)

def boolOfText? : String → Option Bool
  | "true" => some true
  | "false" => some false
  | _ => none

/-- The exponent at the end of a number; none is zero. -/
def exponentOfText? : List Char → Option Int
  | [] => some 0
  | c :: cs =>
    if c == 'e' || c == 'E' then
      match cs with
      | '-' :: cs => (natOfDigits? cs).map fun n => -(n : Int)
      | '+' :: cs => (natOfDigits? cs).map fun n => (n : Int)
      | cs => (natOfDigits? cs).map fun n => (n : Int)
    else none

/-- A float: a sign or none, then a special name in any case or digits with a point anywhere among
them, then an exponent or none. There is at least one digit. -/
def floatOfText? (text : String) : Option Float :=
  let (negative, cs) := match text.toList with
    | '-' :: rest => (true, rest)
    | '+' :: rest => (false, rest)
    | cs => (false, cs)
  let name := String.ofList (cs.map lowerAscii)
  if name == "inf" || name == "infinity" then some (if negative then -1.0 / 0.0 else 1.0 / 0.0)
  else if name == "nan" then some (0.0 / 0.0)
  else
    let whole := digitsOf cs
    let (fraction, rest) := match cs.dropWhile isDigit with
      | '.' :: rest => (digitsOf rest, rest.dropWhile isDigit)
      | rest => ([], rest)
    if whole.isEmpty && fraction.isEmpty then none
    else (exponentOfText? rest).map fun exponent =>
      (Decimal.ofParts negative whole fraction exponent).toFloat

/-! ## The layers -/

/-- What stands at the path of a settings file. -/
inductive SettingsFile where
  | absent
  /-- Something that is there and is no readable text. -/
  | unreadable (path : String)
  | text (path content : String)

namespace SettingsFile

/-- The settings of a file; a file that is absent sets nothing. -/
def settings : SettingsFile → Except SettingsError Settings
  | absent => .ok {}
  | unreadable path => .error (.fileNotFound path)
  | text path content => Settings.read path content

/-- The settings of a file that is allowed to be unreadable. -/
def settingsIfReadable : SettingsFile → Except SettingsError Settings
  | unreadable _ => .ok {}
  | file => file.settings

end SettingsFile

/-- What the command line can set. -/
structure CommandLine where
  maxFileSize : Option Nat := none
  parallelism : Option Nat := none
  deepParse : Option Bool := none
  maxDepth : Option Nat := none

namespace Settings

/-- The settings that environment variables give, by their names without the prefix that all of them
share. -/
def ofEnvironment (variable_ : String → Option String) : Settings where
  scan :=
    { maxFileSize := variable_ "SCAN_MAX_FILE_SIZE" >>= natOfText? UInt64.size
      threads := variable_ "SCAN_THREADS" >>= natOfText? UInt64.size }
  parser :=
    { parallelism := variable_ "PARSER_PARALLELISM" >>= natOfText? UInt64.size
      deepParse := variable_ "PARSER_DEEP_PARSE" >>= boolOfText?
      deepTimeoutMs := variable_ "PARSER_DEEP_TIMEOUT_MS" >>= natOfText? UInt64.size
      deepWorkers := variable_ "PARSER_DEEP_WORKERS" >>= natOfText? UInt64.size }
  graph := { maxDepth := variable_ "GRAPH_MAX_DEPTH" >>= natOfText? UInt32.size }
  metrics :=
    { couplingNormalization := variable_ "METRICS_COUPLING_NORMALIZATION" >>= floatOfText? }

/-- The settings that the command line gives. -/
def ofCommandLine (c : CommandLine) : Settings where
  scan := { maxFileSize := c.maxFileSize }
  parser := { parallelism := c.parallelism, deepParse := c.deepParse }
  graph := { maxDepth := c.maxDepth }

/-- All layers together. -/
def load (user project : SettingsFile) (variable_ : String → Option String)
    (commandLine : CommandLine) : Except SettingsError Settings := do
  let user ← user.settingsIfReadable
  let project ← project.settings
  let settings := (ofCommandLine commandLine).overlay
    ((ofEnvironment variable_).overlay (project.overlay user))
  settings.validate
  return settings

end Settings

end CodeAtlas
