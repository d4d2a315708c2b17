import CodeAtlas.Toml.Basic

/-!
# Tables under construction

A table may be brought into being in three ways: by being written out, with a header or in braces; by
standing on the way to the table of a header; or by standing on the way to a member with a dotted
name. A table is written out at most once. Dotted names never reach into a table that was written
out, and a table made by dotted names is never written out.
-/

set_option autoImplicit false

namespace CodeAtlas.Toml

/-- How a table came into being. -/
inductive Origin where
  | written
  | implied
  | dotted
deriving DecidableEq, Repr

/-- What a name stands for in a table under construction. -/
inductive Entry where
  /-- A value in its final form. -/
  | value (v : Toml)
  | table (origin : Origin) (members : List (String × Entry))
  /-- The tables of a repeated header, the latest last. -/
  | series (elements : List (List (String × Entry)))

/-- The members of a table under construction. -/
abbrev Members := List (String × Entry)

mutual

/-- The finished value. -/
def Entry.toToml : Entry → Toml
  | .value v => v
  | .table _ ms => .table (finish ms)
  | .series es => .arr (finishAll es)

/-- The finished members of a table. -/
def finish : List (String × Entry) → List (String × Toml)
  | [] => []
  | (name, entry) :: ms => (name, entry.toToml) :: finish ms

/-- The finished tables of a series. -/
def finishAll : List (List (String × Entry)) → List Toml
  | [] => []
  | ms :: es => .table (finish ms) :: finishAll es

end

namespace Members

/-- Replaces the entry under a name that is there. -/
def replace (ms : Members) (name : String) (entry : Entry) : Members :=
  ms.map fun (other, old) => if other == name then (other, entry) else (other, old)

/-- Changes the table at the end of a path. Tables that are missing on the way are made; of a series
the latest table is meant. -/
def descend (dotted : Bool) (change : Origin → Members → Option Members) :
    (path : List String) → Origin → Members → Option Members
  | [], origin, ms => change origin ms
  | name :: path, _, ms =>
    match ms.lookup name with
    | none => do
      let origin := if dotted then Origin.dotted else .implied
      return ms ++ [(name, .table origin (← descend dotted change path origin []))]
    | some (.value _) => none
    | some (.table origin inner) =>
      if dotted && origin = .written then none
      else do return ms.replace name (.table origin (← descend dotted change path origin inner))
    | some (.series es) => do
      let last ← es.getLast?
      return ms.replace name (.series (es.dropLast ++ [← descend dotted change path .written last]))

/-- Adds a member whose name is new. A name with dots ends in a table that dotted names have made, and
a name without dots in one that they have not. -/
def addValue (isDotted : Bool) (name : String) (v : Toml) (origin : Origin) (ms : Members) :
    Option Members :=
  if (origin = .dotted) != isDotted then none
  else if (ms.lookup name).isSome then none
  else some (ms ++ [(name, .value v)])

/-- Adds a value under a possibly dotted name. -/
def assign (path : List String) (v : Toml) (origin : Origin) (ms : Members) : Option Members :=
  match path.getLast? with
  | none => none
  | some name =>
    let way := path.dropLast
    descend true (addValue (!way.isEmpty) name v) way origin ms

/-- Writes out a table, which may have been implied before. -/
def define (name : String) (_ : Origin) (ms : Members) : Option Members :=
  match ms.lookup name with
  | none => some (ms ++ [(name, .table .written [])])
  | some (.table .implied inner) => some (ms.replace name (.table .written inner))
  | _ => none

/-- Adds a table to a series. -/
def extendSeries (name : String) (_ : Origin) (ms : Members) : Option Members :=
  match ms.lookup name with
  | none => some (ms ++ [(name, .series [[]])])
  | some (.series es) => some (ms.replace name (.series (es ++ [[]])))
  | _ => none

end Members

end CodeAtlas.Toml
