import CodeAtlas.ContentHash
import CodeAtlas.Outline.Record
import CodeAtlas.Json.Writer
import CodeAtlas.Json.Reader
import CodeAtlas.Parsing.Error
import Std.Data.ExtTreeMap

/-!
# The parse cache

Outlines are kept by the hash of the content they were read from and by the way it was read. Nothing
of a unit's path enters, so that units with the same content share one outline.

The cache has two layers. The one in memory belongs to one parser and counts its hits and misses. The
one below it, if there is one, is a table that outlives parsers: a row is written once and stays as it
is, and a row that does not decode counts as absent when it is read. A store that fails is passed over
without a word, as if it were empty.
-/

set_option autoImplicit false

namespace CodeAtlas

/-- What an outline is kept under. -/
structure CacheKey where
  hash : ContentHash
  /-- How the content was read. -/
  tag : String
deriving DecidableEq, Inhabited

namespace CacheKey

instance : Ord CacheKey := ⟨compareLex (compareOn (·.hash.word)) (compareOn tag)⟩

instance : Std.TransOrd CacheKey :=
  inferInstanceAs (Std.TransCmp (compareLex (compareOn (·.hash.word)) (compareOn tag)))

instance : Std.LawfulEqOrd CacheKey where
  eq_of_compare {a b} h := by
    have h' : compareLex (compareOn fun k : CacheKey => k.hash.word) (compareOn tag) a b = .eq := h
    simp only [compareLex, compareOn, Ordering.then_eq_eq, Std.LawfulEqOrd.compare_eq_iff_eq] at h'
    obtain ⟨⟨x⟩, s⟩ := a
    obtain ⟨⟨y⟩, t⟩ := b
    simp_all

end CacheKey

/-! ## Rows -/

/-- An outline in a row. -/
inductive StoredOutline where
  /-- Written here. -/
  | written (outline : Outline)
  /-- A text from elsewhere. -/
  | foreign (json : String)

namespace StoredOutline

/-- The outline that reading the row gives. -/
def read? : StoredOutline → Option Outline
  | written outline => some outline
  | foreign json => Json.parseLoosely? json >>= Outline.ofJson?

/-- The text of the row. -/
def text : StoredOutline → String
  | written outline => outline.toJson.write
  | foreign json => json

end StoredOutline

/-- A row of the cache table without its key; later rows have larger stamps. -/
structure CacheRow where
  record : StoredOutline
  stamp : Nat

/-- The cache table. -/
structure CacheTable where
  rows : Std.ExtTreeMap CacheKey CacheRow := ∅
  /-- The stamp of the next row. -/
  nextStamp : Nat := 0

namespace CacheTable

def get? (t : CacheTable) (key : CacheKey) : Option StoredOutline := t.rows[key]?.map (·.record)

/-- Writes a row unless there is one under the key. -/
def insert (t : CacheTable) (key : CacheKey) (record : StoredOutline) : CacheTable :=
  if t.rows.contains key then t
  else { rows := t.rows.insert key ⟨record, t.nextStamp⟩, nextStamp := t.nextStamp + 1 }

def size (t : CacheTable) : Nat := t.rows.size

/-- Removes the rows that are older than a stamp. -/
def prune (t : CacheTable) (cutoff : Nat) : CacheTable :=
  { t with rows := t.rows.filter fun _ row => cutoff ≤ row.stamp }

end CacheTable

/-! ## The store below a cache -/

/-- What stands below a cache. -/
inductive CacheStore where
  | absent
  | table (table : CacheTable)
  /-- A store that fails on every call. -/
  | down (message : String)

namespace CacheStore

/-- The row under a key. -/
def get (store : CacheStore) (key : CacheKey) : Except ParseError (Option StoredOutline) :=
  match store with
  | absent => .ok none
  | table t => .ok (t.get? key)
  | down message => .error (.cache message)

/-- The store with a row, unless it has one under the key. -/
def put (store : CacheStore) (key : CacheKey) (record : StoredOutline) :
    Except ParseError CacheStore :=
  match store with
  | absent => .ok absent
  | table t => .ok (table (t.insert key record))
  | down message => .error (.cache message)

/-- The number of rows; only a store that is there has one. -/
def size? : CacheStore → Except ParseError (Option Nat)
  | absent => .ok none
  | table t => .ok (some t.size)
  | down message => .error (.cache message)

/-- The outline that can be read under a key. -/
def outline? (store : CacheStore) (key : CacheKey) : Option Outline :=
  match store.get key with
  | .ok (some record) => record.read?
  | _ => none

end CacheStore

/-! ## The cache -/

/-- The outlines in memory and how often the cache had an answer. -/
structure ParseCache where
  /-- Whether there is room for anything in memory. -/
  hasRoom : Bool := true
  memory : Std.ExtTreeMap CacheKey Outline := ∅
  hits : Nat := 0
  misses : Nat := 0

namespace ParseCache

/-- Keeps an outline in memory, if there is room. -/
def put (c : ParseCache) (key : CacheKey) (outline : Outline) : ParseCache :=
  if c.hasRoom then { c with memory := c.memory.insert key outline } else c

/-- Looks an outline up. One that is found in the store only is taken into memory. -/
def get (c : ParseCache) (store : CacheStore) (key : CacheKey) : Option Outline × ParseCache :=
  match c.memory[key]? with
  | some outline => (some outline, { c with hits := c.hits + 1 })
  | none =>
    match store.outline? key with
    | some outline => (some outline, { c.put key outline with hits := c.hits + 1 })
    | none => (none, { c with misses := c.misses + 1 })

/-- Forgets what is in memory; the counts stay. -/
def clear (c : ParseCache) : ParseCache := { c with memory := ∅ }

def entries (c : ParseCache) : Nat := c.memory.size

end ParseCache

/-- The store after an outline was written to it; a store that fails stays as it is. -/
def CacheStore.keep (store : CacheStore) (key : CacheKey) (outline : Outline) : CacheStore :=
  match store.put key (.written outline) with
  | .ok store => store
  | .error _ => store

end CodeAtlas
