import CodeAtlas.Json.Basic
import CodeAtlas.Outline

/-!
# Outlines as JSON

The form in which outlines are kept between runs. Each structure is an object with all its members;
reading is a little more generous than writing. Members of other names are passed over, a member that
may be null may be missing, and in place of an object an array with the members in their order will
do. A member that occurs twice is refused, and so are numbers that do not fit 32 bits.
-/

set_option autoImplicit false

namespace CodeAtlas

namespace Json

/-- How a record is read: each member by its name. -/
abbrev Members := String → Option Json

/-- The members of a record, if the value can be one with these names. -/
def members? (names : List String) : Json → Option Members
  | obj ms =>
    if names.all fun name => ms.countP (·.1 == name) ≤ 1 then some fun name => ms.lookup name
    else none
  | arr items =>
    if items.length = names.length then some fun name => (names.zip items).lookup name else none
  | _ => none

/-- A member that has to be there. -/
def required {α : Type} (read : Json → Option α) (ms : Members) (name : String) : Option α :=
  ms name >>= read

/-- A member that may be null or missing. -/
def optional {α : Type} (read : Json → Option α) (ms : Members) (name : String) :
    Option (Option α) :=
  match ms name with
  | none => some none
  | some value => value.asOption? read

/-- A natural number of 32 bits. -/
def asWord? : Json → Option Nat := asNatBelow? UInt32.size

def asStrings? : Json → Option (List String) := asListOf? asString?

/-- One of a few names, as a text or as the name of the only member of an object. -/
def asName? : Json → Option String
  | str name => some name
  | obj [(name, null)] => some name
  | _ => none

/-- A value or null. -/
def ofOption {α : Type} (write : α → Json) : Option α → Json
  | some value => write value
  | none => null

def ofNat (n : Nat) : Json := int n

def ofList {α : Type} (write : α → Json) (values : List α) : Json := arr (values.map write)

end Json

open Json

namespace DeclKind

def tag : DeclKind → String
  | procedure => "procedure"
  | function => "function"

def toJson (kind : DeclKind) : Json := str kind.tag

def ofJson? (value : Json) : Option DeclKind :=
  value.asName? >>= fun name => [procedure, function].find? (·.tag == name)

end DeclKind

namespace MetadataKind

def toJson (kind : MetadataKind) : Json := str kind.name

def ofJson? (value : Json) : Option MetadataKind :=
  value.asName? >>= fun name => (all ++ [other]).find? (·.name == name)

end MetadataKind

namespace FlowMetrics

def toJson (f : FlowMetrics) : Json :=
  obj [("cyclomatic", ofNat f.cyclomatic), ("blocks", ofNat f.blocks),
       ("cf_edges", ofNat f.edges), ("max_nesting", ofNat f.maxNesting)]

def ofJson? (value : Json) : Option FlowMetrics := do
  let ms ← value.members? ["cyclomatic", "blocks", "cf_edges", "max_nesting"]
  return { cyclomatic := ← required asWord? ms "cyclomatic"
           blocks := ← required asWord? ms "blocks"
           edges := ← required asWord? ms "cf_edges"
           maxNesting := ← required asWord? ms "max_nesting" }

end FlowMetrics

namespace Declaration

def toJson (d : Declaration) : Json :=
  obj [("name", str d.name), ("kind", d.kind.toJson), ("is_export", bool d.isExport),
       ("line_range", arr [ofNat d.firstLine, ofNat d.lastLine]),
       ("complexity", ofNat d.complexity), ("params", ofList str d.params),
       ("region", ofOption str d.region), ("directives", ofList str d.directives),
       ("requirements", ofList str d.requirements), ("incidents", ofList str d.incidents),
       ("deep", ofOption FlowMetrics.toJson d.flow)]

/-- A pair of line numbers. -/
def linesOfJson? : Json → Option (Nat × Nat)
  | arr [first, last] => do return (← first.asWord?, ← last.asWord?)
  | _ => none

def ofJson? (value : Json) : Option Declaration := do
  let ms ← value.members? ["name", "kind", "is_export", "line_range", "complexity", "params",
    "region", "directives", "requirements", "incidents", "deep"]
  let (firstLine, lastLine) ← required linesOfJson? ms "line_range"
  return { name := ← required asString? ms "name"
           kind := ← required DeclKind.ofJson? ms "kind"
           isExport := ← required asBool? ms "is_export"
           firstLine
           lastLine
           complexity := ← required asWord? ms "complexity"
           params := ← required asStrings? ms "params"
           region := ← optional asString? ms "region"
           directives := ← required asStrings? ms "directives"
           requirements := ← required asStrings? ms "requirements"
           incidents := ← required asStrings? ms "incidents"
           flow := ← optional FlowMetrics.ofJson? ms "deep" }

end Declaration

namespace CallSite

def toJson (c : CallSite) : Json :=
  obj [("from_decl", ofOption str c.caller), ("callee_name", str c.callee),
       ("qualifier", ofOption str c.qualifier), ("line", ofNat c.line)]

def ofJson? (value : Json) : Option CallSite := do
  let ms ← value.members? ["from_decl", "callee_name", "qualifier", "line"]
  return { caller := ← optional asString? ms "from_decl"
           callee := ← required asString? ms "callee_name"
           qualifier := ← optional asString? ms "qualifier"
           line := ← required asWord? ms "line" }

end CallSite

namespace Mention

def toJson (m : Mention) : Json :=
  obj [("from_decl", ofOption str m.caller), ("kind", m.kind.toJson), ("name", str m.name),
       ("line", ofNat m.line)]

def ofJson? (value : Json) : Option Mention := do
  let ms ← value.members? ["from_decl", "kind", "name", "line"]
  return { caller := ← optional asString? ms "from_decl"
           kind := ← required MetadataKind.ofJson? ms "kind"
           name := ← required asString? ms "name"
           line := ← required asWord? ms "line" }

end Mention

namespace Descriptor

def toJson (d : Descriptor) : Json :=
  obj [("kind", ofOption MetadataKind.toJson d.kind), ("name", str d.name),
       ("child_objects", ofList str d.childObjects), ("type_refs", ofList str d.typeRefs),
       ("attribute_count", ofNat d.attributeCount), ("forms", ofList str d.forms)]

def ofJson? (value : Json) : Option Descriptor := do
  let ms ← value.members?
    ["kind", "name", "child_objects", "type_refs", "attribute_count", "forms"]
  return { kind := ← optional MetadataKind.ofJson? ms "kind"
           name := ← required asString? ms "name"
           childObjects := ← required asStrings? ms "child_objects"
           typeRefs := ← required asStrings? ms "type_refs"
           attributeCount := ← required asWord? ms "attribute_count"
           forms := ← required asStrings? ms "forms" }

end Descriptor

namespace OutlineFlags

def toJson (f : OutlineFlags) : Json :=
  obj [("parse_failed", bool f.parseFailed), ("deep_applied", bool f.deepApplied),
       ("deep_degraded", bool f.deepDegraded)]

def ofJson? (value : Json) : Option OutlineFlags := do
  let ms ← value.members? ["parse_failed", "deep_applied", "deep_degraded"]
  return { parseFailed := ← required asBool? ms "parse_failed"
           deepApplied := ← required asBool? ms "deep_applied"
           deepDegraded := ← required asBool? ms "deep_degraded" }

end OutlineFlags

namespace Outline

def toJson (o : Outline) : Json :=
  obj [("declarations", ofList Declaration.toJson o.declarations),
       ("references", ofList CallSite.toJson o.calls),
       ("metadata_refs", ofList Mention.toJson o.mentions),
       ("descriptor", ofOption Descriptor.toJson o.descriptor),
       ("loc", ofNat o.loc), ("flags", o.flags.toJson)]

def ofJson? (value : Json) : Option Outline := do
  let ms ← value.members?
    ["declarations", "references", "metadata_refs", "descriptor", "loc", "flags"]
  return { declarations := ← required (asListOf? Declaration.ofJson?) ms "declarations"
           calls := ← required (asListOf? CallSite.ofJson?) ms "references"
           mentions := ← required (asListOf? Mention.ofJson?) ms "metadata_refs"
           descriptor := ← optional Descriptor.ofJson? ms "descriptor"
           loc := ← required asWord? ms "loc"
           flags := ← required OutlineFlags.ofJson? ms "flags" }

end Outline

end CodeAtlas
