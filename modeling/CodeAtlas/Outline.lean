import CodeAtlas.Graph.Kind

/-!
# Outlines

An outline is what reading one unit finds: the declarations of a module with the calls and metadata
mentions in them, or the content of a descriptor. It does not know the unit's path, so that units
with the same content share one outline.

Lines and counts are natural numbers. Where they are stored they are 32-bit words, and those of any text
short of a gigabyte are small enough for that (`fits_ofModule`).
-/

set_option autoImplicit false

namespace CodeAtlas

inductive DeclKind where
  | procedure
  | function
deriving DecidableEq, Repr, Inhabited

namespace DeclKind

def keyword : DeclKind → String
  | procedure => "Procedure"
  | function => "Function"

end DeclKind

/-- The control flow of one declaration, measured block by block. -/
structure FlowMetrics where
  cyclomatic : Nat := 0
  blocks : Nat := 0
  edges : Nat := 0
  maxNesting : Nat := 0
deriving DecidableEq, Repr, Inhabited

/-- A procedure or function. -/
structure Declaration where
  name : String
  kind : DeclKind := .procedure
  isExport : Bool := false
  firstLine : Nat
  lastLine : Nat
  /-- An estimate that counts decisions by keyword. -/
  complexity : Nat := 1
  params : List String := []
  region : Option String := none
  directives : List String := []
  requirements : List String := []
  incidents : List String := []
  flow : Option FlowMetrics := none
deriving DecidableEq, Repr, Inhabited

namespace Declaration

/-- The number of lines, both ends counted. It is a 32-bit word and wraps around, as it does in a release
build; a build with overflow checks would stop there. No declaration of a text that is short enough comes
near it. -/
def loc (decl : Declaration) : Nat := (decl.lastLine - decl.firstLine + 1) % UInt32.size

/-- The measured complexity where there is one, else the estimate. -/
def effectiveComplexity (decl : Declaration) : Nat :=
  decl.flow.elim decl.complexity (·.cyclomatic)

/-- The declaration's header as it is shown. -/
def signature (decl : Declaration) : String :=
  let params := ", ".intercalate decl.params
  s!"{decl.kind.keyword} {decl.name}({params})" ++ if decl.isExport then " Export" else ""

end Declaration

/-- A call as it is written. Code outside declarations has no caller. -/
structure CallSite where
  caller : Option String
  callee : String
  qualifier : Option String
  line : Nat
deriving DecidableEq, Repr, Inhabited

/-- A mention of a metadata object. -/
structure Mention where
  caller : Option String
  kind : MetadataKind
  name : String
  line : Nat
deriving DecidableEq, Repr, Inhabited

/-- The content of a descriptor. The descriptor of the configuration itself has no category. -/
structure Descriptor where
  kind : Option MetadataKind := none
  name : String := ""
  /-- The ids of the objects that the configuration lists. -/
  childObjects : List String := []
  /-- The ids of the objects that typed attributes refer to, sorted, each once. -/
  typeRefs : List String := []
  attributeCount : Nat := 0
  forms : List String := []
deriving DecidableEq, Repr, Inhabited

structure OutlineFlags where
  parseFailed : Bool := false
  deepApplied : Bool := false
  deepDegraded : Bool := false
deriving DecidableEq, Repr, Inhabited

/-- What reading one unit finds. -/
structure Outline where
  declarations : List Declaration := []
  calls : List CallSite := []
  mentions : List Mention := []
  descriptor : Option Descriptor := none
  /-- The lines that are not blank. -/
  loc : Nat := 0
  flags : OutlineFlags := {}
deriving DecidableEq, Repr, Inhabited

namespace Outline

/-- The outline of a unit that could not be read. -/
def failed : Outline := { flags := { parseFailed := true } }

end Outline

end CodeAtlas
