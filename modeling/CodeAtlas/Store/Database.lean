import CodeAtlas.Parsing.Cache
import CodeAtlas.Store.Rows

/-!
# Databases

A database holds the rows of the graph and those of the parse cache, in a file or in memory. It has a
schema version, which opening brings up to the latest. A version that is newer than that is left alone.
Versions are written as signed words of 32 bits and read as unsigned ones, so that a negative version
can be stored and not be read.
-/

set_option autoImplicit false

namespace CodeAtlas

/-- A database that is open. -/
structure Database where
  /-- Whether it is kept in a file; one in memory is gone when it is closed. -/
  inFile : Bool
  version : Int := 0
  graph : Tables := {}
  cache : CacheTable := {}

namespace Database

/-- The version that this library writes. -/
def latestVersion : Nat := 1

/-- The stored version, if it can be read. -/
def readVersion? (d : Database) : Option Nat := if 0 ≤ d.version then some d.version.toNat else none

def schemaVersion (d : Database) : Except StorageError Nat :=
  match d.readVersion? with
  | some version => .ok version
  | none => .error (.engine "the schema version is out of range")

/-- Brings the version up to the latest. -/
def migrate (d : Database) : Except StorageError Database :=
  match d.readVersion? with
  | none => .error (.migration 0 "the schema version is out of range")
  | some version =>
    .ok (if version < latestVersion then { d with version := latestVersion } else d)

/-- Opens a database that is kept in a file with some content. An empty file is a new database; a file
with any other content than that of a database is refused. -/
def openFile (content : ByteArray) : Except StorageError Database :=
  if content.isEmpty then migrate { inFile := true } else .error (.engine "file is not a database")

/-- Opens a new database in memory. -/
def openInMemory : Except StorageError Database := migrate { inFile := false }

/-- Closes a database and opens it again. -/
def reopen (d : Database) : Except StorageError Database :=
  if d.inFile then d.migrate else openInMemory

/-- Stores a version. One that a signed word of 32 bits cannot hold is stored as zero. -/
def setVersion (d : Database) (version : Int) : Database :=
  let fits := Int32.minValue.toInt ≤ version ∧ version ≤ Int32.maxValue.toInt
  { d with version := if fits then version else 0 }

/-- Writes are logged ahead only where there is a file. -/
def logsAhead (d : Database) : Bool := d.inFile

/-- The number of readers of a database file that are opened for a number asked for. -/
def readerCount (wanted : Option Nat) : Nat := max 1 (min (wanted.getD 4) 8)

end Database

end CodeAtlas
