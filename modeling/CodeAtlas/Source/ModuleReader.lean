import CodeAtlas.Outline
import CodeAtlas.Source.Annotation
import CodeAtlas.Source.Header
import CodeAtlas.Source.QueryText

/-!
# Reading a module

One pass over the tokens finds the declarations of a module, the calls and metadata mentions in
them, and the annotations above them. The pass never fails: whatever does not fit is passed over.

The tokens already read are kept beside those still to come, nearest first, because the meaning of
an identifier depends on both sides: a point before it, a parenthesis or an equals sign behind it.
-/

set_option autoImplicit false

namespace CodeAtlas.Source

open Text

/-- A declaration whose end has not been reached, with the names that are known to be values inside
it, in small letters. -/
structure OpenDeclaration where
  decl : Declaration
  locals : List String

/-- What has been found so far. -/
structure Reading where
  declarations : List Declaration := []
  calls : List CallSite := []
  mentions : List Mention := []
  current : Option OpenDeclaration := none
  /-- The names of the regions that are open, innermost first; a region may have none. -/
  regions : List String := []
  /-- The directives that wait for a declaration. -/
  directives : List String := []
  /-- The line of the last token that is neither a directive nor a preprocessor line. -/
  lastCodeLine : Nat := 0
  /-- Whether a list of variables is being declared. -/
  inVariables : Bool := false
  /-- Whether a header has just ended. -/
  atBodyStart : Bool := false

namespace Reading

/-- The declaration that code belongs to here. -/
def caller (r : Reading) : Option String := r.current.map (·.decl.name)

/-- Ends the open declaration on the given line, or on its first line if that is later. -/
def close (r : Reading) (line : Nat) : Reading :=
  match r.current with
  | none => r
  | some opened =>
    let decl := { opened.decl with lastLine := max line opened.decl.firstLine }
    { r with current := none, declarations := r.declarations ++ [decl] }

def isLocal (r : Reading) (word : String) : Bool := r.current.any (·.locals.contains word)

def addLocal (r : Reading) (word : String) : Reading :=
  { r with current := r.current.map fun opened => { opened with locals := word :: opened.locals } }

/-- Counts one more decision in the open declaration. -/
def addDecision (r : Reading) : Reading :=
  { r with current := r.current.map fun opened =>
      { opened with decl := { opened.decl with complexity := opened.decl.complexity + 1 } } }

def addMention (r : Reading) (kind : MetadataKind) (name : String) (line : Nat) : Reading :=
  { r with mentions := r.mentions ++ [⟨r.caller, kind, name, line⟩] }

def addCall (r : Reading) (callee : String) (qualifier : Option String) (line : Nat) : Reading :=
  { r with calls := r.calls ++ [⟨r.caller, callee, qualifier, line⟩] }

/-! ## Preprocessor lines, directives and strings -/

/-- Regions are opened and closed by preprocessor lines; all other such lines mean nothing here. -/
def preproc (r : Reading) (text : String) : Reading :=
  match words text with
  | [] => r
  | word :: rest =>
    let word := lower word
    if word == "region" || word == "область" then
      { r with regions := rest.head?.getD "" :: r.regions }
    else if word == "endregion" || word == "конецобласти" then { r with regions := r.regions.tail }
    else r

/-- A directive waits for the next declaration, except inside one. -/
def directive (r : Reading) (text : String) : Reading :=
  if r.current.isNone then { r with directives := r.directives ++ [text] } else r

/-- The metadata mentions in a string literal. -/
def queryText (r : Reading) (token : Token) : Reading :=
  (QueryText.mentions token.text.toList).foldl
    (fun r found => r.addMention found.kind found.name (token.line + found.breaks)) r

/-! ## Declarations -/

/-- Opens the declaration that a header begins. -/
def openWith (r : Reading) (comments : List Comment) (keyword : Token) (kind : DeclKind)
    (header : Header) (lastLine : Nat) : Reading :=
  let keys := fun topic => Annotation.keysBetween topic comments r.lastCodeLine keyword.line
  let decl : Declaration :=
    { name := header.name, kind, isExport := header.isExport
      firstLine := keyword.line, lastLine := keyword.line, params := header.params
      region := r.regions.head?.filter (!·.isEmpty), directives := r.directives
      requirements := keys .requirement, incidents := keys .incident }
  let r := r.close (keyword.line - 1)
  { r with
    current := some ⟨decl, header.params.map lower⟩
    directives := [], lastCodeLine := lastLine, atBodyStart := true }

/-! ## Identifiers -/

/-- The tokens around an identifier: those before it, nearest first, and those behind it. -/
structure Around where
  before : List Token
  after : List Token

namespace Around

def followedBy (a : Around) (c : Char) : Bool := a.after.head?.any (·.isPunct c)

def afterDot (a : Around) : Bool := a.before.head?.any (·.isPunct '.')

/-- The name behind the next token. -/
def nameBehindNext? (a : Around) : Option String := do
  let token ← a.after[1]?
  if token.kind = .ident then return token.text else none

/-- Whether the token before the last names the metadata root. -/
def underMetadataRoot (a : Around) : Bool := a.before[1]?.any (isMetadataRoot <| lower ·.text)

/-- Whether a value is created here. -/
def afterNew (a : Around) : Bool := a.before.head?.any (·.isKeyword .new)

/-- Whether a statement begins here: at the beginning of the module or of a body, after a semicolon,
or after a keyword that opens statements. -/
def startsStatement (a : Around) (atBodyStart : Bool) : Bool :=
  match a.before with
  | [] => true
  | token :: _ =>
    atBodyStart || token.isPunct ';' ||
      (token.kind = .ident && token.keyword?.any Keyword.opensStatement)

end Around

/-- The metadata object that a manager name leads to. The name counts at the front of a chain or
under the metadata root. -/
def managed? (word : String) (a : Around) : Option (MetadataKind × String) := do
  let kind ← managerKind? word
  if (!a.afterDot || a.underMetadataRoot) && a.followedBy '.' then
    return (kind, ← a.nameBehindNext?)
  else none

/-- The qualifier of a call, or nothing if it is no call to configuration code: a platform function,
a method of a value, or the last link of a longer chain. -/
def qualifier? (r : Reading) (word : String) (a : Around) : Option (Option String) :=
  if !a.afterDot then if isBuiltin word then none else some none
  else
    match a.before with
    | _ :: head :: before =>
      if head.kind != .ident || before.head?.any (·.isPunct '.') then none
      else
        let owner := lower head.text
        if isSelfReference owner then some none
        else if r.isLocal owner || (managerKind? owner).isSome || (Keyword.ofWord? owner).isSome then
          none
        else some (some head.text)
    | _ => none

/-- What an identifier that is no keyword means: a variable being declared, a metadata mention, an
assignment that makes a name a value, or a call. -/
def identifier (r : Reading) (token : Token) (word : String) (a : Around) : Reading :=
  if r.inVariables then r.addLocal word
  else
    match managed? word a with
    | some (kind, name) => r.addMention kind name token.line
    | none =>
      if a.followedBy '=' && !a.afterDot && a.startsStatement (r.current.isSome && r.atBodyStart) then
        r.addLocal word
      else if !a.followedBy '(' || a.afterNew then r
      else
        match r.qualifier? word a with
        | some qualifier => r.addCall token.text qualifier token.line
        | none => r

/-- The variable of a loop becomes a value. -/
def loopVariable (r : Reading) (after : List Token) : Reading :=
  let after := if after.head?.any (·.keyword? = some .each) then after.tail else after
  match after.head? with
  | some token => if token.kind = .ident then r.addLocal (lower token.text) else r
  | none => r

/-- What a keyword means outside of headers. -/
def keyword (r : Reading) (token : Token) (after : List Token) : Keyword → Reading
  | .endProcedure | .endFunction => r.close token.line
  | .if | .elsIf | .while => r.addDecision
  | .for => r.addDecision.loopVariable after
  | .var => { r with inVariables := true }
  | _ => r

/-- What a token that begins no header means. -/
def token (r : Reading) (token : Token) (a : Around) : Reading :=
  let r := match token.kind with
    | .str => r.queryText token
    | .punct '?' => if a.followedBy '(' then r.addDecision else r
    | .punct ';' => { r with inVariables := false }
    | .ident =>
      let word := lower token.text
      match Keyword.ofWord? word with
      | some keyword => r.keyword token a.after keyword
      | none => r.identifier token word a
    | _ => r
  { r with lastCodeLine := token.line, atBodyStart := false }

/-- The kind of declaration that a token can begin. -/
def declKind? (token : Token) : Option DeclKind :=
  if token.isKeyword .procedure then some .procedure
  else if token.isKeyword .function then some .function
  else none

/-- The declaration that a token begins, with its header. -/
def header? (token : Token) (after : List Token) : Option (DeclKind × Header) := do
  return (← declKind? token, ← Header.read? after)

theorem length_header?_rest {token : Token} {after : List Token} {kind : DeclKind}
    {header : Header} (h : header? token after = some (kind, header)) :
    header.rest.length < after.length := by
  unfold header? at h
  cases hk : declKind? token with
  | none => simp [hk] at h
  | some k =>
    cases hh : Header.read? after with
    | none => simp [hk, hh] at h
    | some hd =>
      simp [hk, hh] at h
      exact h.2 ▸ Header.length_rest hh

/-- Reads on from a token; `before` holds what has been read, nearest first. -/
def readFrom (comments : List Comment) (before : List Token) (r : Reading) : List Token → Reading
  | [] => r
  | token :: after =>
    match token.kind with
    | .preproc =>
      readFrom comments (token :: before) { r.preproc token.text with atBodyStart := false } after
    | .directive =>
      readFrom comments (token :: before) { r.directive token.text with atBodyStart := false } after
    | _ =>
      match _h : header? token after with
      | some (kind, header) =>
        let read := token :: after.take (after.length - header.rest.length)
        let lastLine := (read.getLast?.getD token).line
        readFrom comments (read.reverse ++ before)
          (r.openWith comments token kind header lastLine) header.rest
      | none => readFrom comments (token :: before) (r.token token ⟨before, after⟩) after
termination_by tokens => tokens.length
decreasing_by
  all_goals simp only [List.length_cons]
  · omega
  · omega
  · have := length_header?_rest _h
    omega
  · omega

end Reading

end CodeAtlas.Source

namespace CodeAtlas

open Text Source

/-- The outline of a source module. A declaration without an end goes to the last line. -/
def Outline.ofModule (text : String) : Outline :=
  let lexed := lex text
  let r := (Reading.readFrom lexed.comments [] {} lexed.tokens).close (max (lineCount text) 1)
  { declarations := r.declarations, calls := r.calls, mentions := r.mentions,
    loc := filledLineCount text }

end CodeAtlas
