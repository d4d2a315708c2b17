import CodeAtlas.Text.Blank
import CodeAtlas.Tree.Glob

/-!
# Ignore patterns

A pattern names paths that a scan leaves out: a path that it matches, and everything below it. It is
written as a line of an ignore file. A pattern with a slash before its end is tied to the root of the
scan, any other applies at every depth. One that ends with a slash is for directories only, and one
that ends with `/**` is for what is inside a directory and not for the directory.
-/

set_option autoImplicit false

namespace CodeAtlas

open Text

/-- A pattern of paths that are left out. -/
structure IgnorePattern where
  onlyDirectories : Bool
  glob : Glob

namespace IgnorePattern

/-- The text without the blanks at its end, unless the last of them is escaped. -/
def trimEnd (text : String) : String :=
  if hasSuffix "\\ " text then text
  else String.ofList (text.toList.reverse.dropWhile isBlank).reverse

/-- The text without a slash at its end, if there is one, and without the escape of that slash. -/
def dropSlash? (text : String) : Option String :=
  (stripSuffix? "/" text).map fun text => (stripSuffix? "\\" text).getD text

/-- The glob at every depth, unless it says so itself. -/
def atEveryDepth (glob : String) : String :=
  if hasPrefix "**/" glob || glob == "**" then glob else "**/" ++ glob

/-- The glob for the inside of a directory, if that is what it ends with. -/
def insideOnly (glob : String) : String := if hasSuffix "/**" glob then glob ++ "/*" else glob

/-- Reads a pattern. Every pattern leaves paths out, with a mark of negation before it or without. -/
def parse? (text : String) : Option IgnorePattern := do
  let line := trimEnd ((stripPrefix? "!" text).getD text)
  let tied := hasPrefix "/" line
  let line := (stripPrefix? "/" line).getD line
  let bare := (dropSlash? line).getD line
  let glob := if tied || bare.contains '/' then bare else atEveryDepth bare
  return { onlyDirectories := (dropSlash? line).isSome, glob := ← Glob.parse? (insideOnly glob) }

/-- Whether a pattern is for a path. -/
def appliesTo (p : IgnorePattern) (path : String) (isDirectory : Bool) : Bool :=
  (isDirectory || !p.onlyDirectories) && p.glob.fits path

end IgnorePattern

end CodeAtlas
