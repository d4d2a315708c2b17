import CodeAtlas.Text.Case

/-!
# The kinds of the graph

Nodes and edges carry a kind from a closed list. Every kind has one stored spelling, its tag, and
reading a tag is the inverse of writing it; beyond that, readers are lenient about the case of
ASCII letters exactly where a person may have typed the name (metadata kinds, edge kinds) and
strict everywhere else.
-/

set_option autoImplicit false

namespace CodeAtlas

open Text

/-! ## Metadata objects -/

/-- The categories of metadata objects that the host platform knows. -/
inductive MetadataKind where
  | catalog
  | document
  | informationRegister
  | accumulationRegister
  | accountingRegister
  | calculationRegister
  | enum
  | constant
  | report
  | dataProcessor
  | commonModule
  | chartOfCharacteristicTypes
  | chartOfAccounts
  | businessProcess
  | task
  | exchangePlan
  | documentJournal
  /-- A category without a folder of its own. It is stored and read back, but no name finds it. -/
  | other
deriving DecidableEq, Repr, Inhabited

namespace MetadataKind

/-- The singular name of a category, as it begins an object id. -/
def name : MetadataKind → String
  | catalog => "Catalog"
  | document => "Document"
  | informationRegister => "InformationRegister"
  | accumulationRegister => "AccumulationRegister"
  | accountingRegister => "AccountingRegister"
  | calculationRegister => "CalculationRegister"
  | enum => "Enum"
  | constant => "Constant"
  | report => "Report"
  | dataProcessor => "DataProcessor"
  | commonModule => "CommonModule"
  | chartOfCharacteristicTypes => "ChartOfCharacteristicTypes"
  | chartOfAccounts => "ChartOfAccounts"
  | businessProcess => "BusinessProcess"
  | task => "Task"
  | exchangePlan => "ExchangePlan"
  | documentJournal => "DocumentJournal"
  | other => "Other"

/-- The export folder that holds the objects of a category. -/
def folder : MetadataKind → String
  | catalog => "Catalogs"
  | document => "Documents"
  | informationRegister => "InformationRegisters"
  | accumulationRegister => "AccumulationRegisters"
  | accountingRegister => "AccountingRegisters"
  | calculationRegister => "CalculationRegisters"
  | enum => "Enums"
  | constant => "Constants"
  | report => "Reports"
  | dataProcessor => "DataProcessors"
  | commonModule => "CommonModules"
  | chartOfCharacteristicTypes => "ChartsOfCharacteristicTypes"
  | chartOfAccounts => "ChartsOfAccounts"
  | businessProcess => "BusinessProcesses"
  | task => "Tasks"
  | exchangePlan => "ExchangePlans"
  | documentJournal => "DocumentJournals"
  | other => ""

/-- The seventeen categories that can be named. -/
def all : List MetadataKind :=
  [catalog, document, informationRegister, accumulationRegister, accountingRegister,
   calculationRegister, enum, constant, report, dataProcessor, commonModule,
   chartOfCharacteristicTypes, chartOfAccounts, businessProcess, task, exchangePlan,
   documentJournal]

/-- The category with a given singular name, in any ASCII case. -/
def ofName? (text : String) : Option MetadataKind := all.find? (sameAscii ·.name text)

/-- The category with a given export folder, in any ASCII case. -/
def ofFolder? (text : String) : Option MetadataKind := all.find? (sameAscii ·.folder text)

end MetadataKind

/-! ## Nodes -/

/-- What a node stands for. The kind of a node never changes while the node exists. -/
inductive NodeKind where
  | configuration
  | module
  | function
  | procedure
  | metadataObject (kind : MetadataKind)
  | testCase
  | testSuite
  | requirement
  | incident
  /-- A name that something refers to and nothing declares. -/
  | unknown
deriving DecidableEq, Repr, Inhabited

namespace NodeKind

/-- Whether nodes of this kind are executable declarations outside tests. -/
def isCode : NodeKind → Bool
  | function | procedure => true
  | _ => false

/-- The stored spelling of a kind. -/
def tag : NodeKind → String
  | configuration => "configuration"
  | module => "module"
  | function => "function"
  | procedure => "procedure"
  | metadataObject kind => "metadata:" ++ kind.name
  | testCase => "test_case"
  | testSuite => "test_suite"
  | requirement => "requirement"
  | incident => "incident"
  | unknown => "unknown"

/-- The kinds without a metadata category. -/
def plain : List NodeKind :=
  [configuration, module, function, procedure, testCase, testSuite, requirement, incident, unknown]

/-- The text after a metadata tag's marker, if the text begins with it. -/
def metadataPart? (text : String) : Option String :=
  let marker := "metadata:".toList
  if marker.isPrefixOf text.toList then
    some (String.ofList (text.toList.drop marker.length))
  else none

/-- Reads a tag. The category of a metadata object is found in any ASCII case; everything else is
matched exactly. -/
def ofTag? (text : String) : Option NodeKind :=
  match metadataPart? text with
  | some "Other" => some (metadataObject .other)
  | some name => (MetadataKind.ofName? name).map metadataObject
  | none => plain.find? (·.tag == text)

/-- Why a text is no node kind. -/
def tagRefusal (text : String) : String :=
  match metadataPart? text with
  | some name => s!"unknown metadata kind: {name}"
  | none => s!"unknown node kind: {text}"

end NodeKind

/-! ## Edges -/

/-- What an edge says about its two nodes. The declaration order is the order in which edges of
different kinds are listed. -/
inductive EdgeKind where
  | contains
  | calls
  | usesMetadata
  | dependsOn
  | implements
  | testedBy
  | triggersIncident
deriving DecidableEq, Repr, Inhabited

namespace EdgeKind

/-- The stored spelling of an edge kind. -/
def tag : EdgeKind → String
  | contains => "CONTAINS"
  | calls => "CALLS"
  | usesMetadata => "USES_METADATA"
  | dependsOn => "DEPENDS_ON"
  | implements => "IMPLEMENTS"
  | testedBy => "TESTED_BY"
  | triggersIncident => "TRIGGERS_INCIDENT"

def all : List EdgeKind :=
  [contains, calls, usesMetadata, dependsOn, implements, testedBy, triggersIncident]

/-- The kinds that carry a dependency: these are what traversals follow. -/
def structural : List EdgeKind := [calls, usesMetadata, dependsOn]

/-- The edge kind with a given spelling, in any ASCII case. -/
def ofTag? (text : String) : Option EdgeKind := all.find? (sameAscii ·.tag text)

/-- Why a text is no edge kind. -/
def tagRefusal (text : String) : String := s!"unknown edge kind: {text}"

/-- The position of a kind in the declaration order. -/
def rank : EdgeKind → Nat
  | contains => 0
  | calls => 1
  | usesMetadata => 2
  | dependsOn => 3
  | implements => 4
  | testedBy => 5
  | triggersIncident => 6

theorem rank_inj {a b : EdgeKind} (h : a.rank = b.rank) : a = b := by
  cases a <;> cases b <;> simp_all [rank]

instance : Ord EdgeKind := ⟨compareOn rank⟩

instance : Std.TransOrd EdgeKind := inferInstanceAs (Std.TransCmp (compareOn rank))

instance : Std.LawfulEqOrd EdgeKind where
  eq_of_compare h := rank_inj (Std.LawfulEqOrd.eq_of_compare (α := Nat) h)

end EdgeKind

/-! ## Directions -/

/-- Which way edges are followed from a node. -/
inductive Direction where
  | outgoing
  | incoming
  | both
deriving DecidableEq, Repr, Inhabited

namespace Direction

/-- Whether edges that leave the node are followed. -/
def followsOut : Direction → Bool
  | outgoing | both => true
  | incoming => false

/-- Whether edges that reach the node are followed. -/
def followsIn : Direction → Bool
  | incoming | both => true
  | outgoing => false

end Direction

end CodeAtlas
