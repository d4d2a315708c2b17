/-!
# TOML values

What a settings file holds once it is read. Members of a table keep the order in which they were
written; their names are distinct. Points in time are recognised and otherwise not looked at.
-/

set_option autoImplicit false

namespace CodeAtlas

/-- A TOML value. -/
inductive Toml where
  | bool (value : Bool)
  | int (value : Int)
  | float (value : Float)
  | str (value : String)
  /-- A date, a time, or both. -/
  | moment
  | arr (items : List Toml)
  | table (members : List (String × Toml))
deriving Inhabited

end CodeAtlas
