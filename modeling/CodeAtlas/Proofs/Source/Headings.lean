import CodeAtlas.Source.ModuleReader
import Mathlib.Data.List.Forall2
import Mathlib.Data.List.TakeDrop
import Mathlib.Tactic.Common

/-!
# Declarations and their headings

The reader of a module takes its tokens in segments: the header of a declaration at once, and any other token
by itself. Which segments there are is a matter of the tokens alone and not of what has been read so far
(`segments`), so that the declarations of a module are known before it is read: there is one for each header
(`sites`), in order.

What is between two headers can end the open declaration and add to what is known of its inside, but it
opens nothing (`Reading.Continues`). So a declaration has the heading that it was opened with, and the
heading is read off the place of its keyword (`map_heading_ofModule`): the header itself, the regions open
there, the directives met since the last declaration ended, and the line of the last code before it.
-/

set_option autoImplicit false

namespace CodeAtlas

/-- What a declaration is from its header on: its end and the decisions in it come later. -/
def Declaration.heading (decl : Declaration) : Declaration :=
  { decl with lastLine := decl.firstLine, complexity := 1 }

namespace Source

open Text

/-! ## Kinds of tokens -/

namespace Token

/-- Directives and preprocessor lines stand beside the code. -/
def isAside (token : Token) : Bool := token.kind = .directive || token.kind = .preproc

theorem isKeyword_iff {token : Token} {keyword : Keyword} :
    token.isKeyword keyword = true ↔ token.kind = .ident ∧ token.keyword? = some keyword := by
  simp [isKeyword]

/-- Whether the token ends declarations. -/
def endsDeclaration (token : Token) : Bool := token.isKeyword .endProcedure || token.isKeyword .endFunction

theorem endsDeclaration_eq_false {token : Token} (h : token.kind ≠ .ident) :
    token.endsDeclaration = false := by
  simp [endsDeclaration, isKeyword, h]

theorem kind_of_endsDeclaration {token : Token} (h : token.endsDeclaration = true) : token.kind = .ident := by
  by_contra hkind
  rw [endsDeclaration_eq_false hkind] at h
  cases h

end Token

/-! ## Headers take tokens off the front -/

theorem readParams_snd_suffix (depth : Nat) (expectName : Bool) (tokens : List Token) :
    (readParams depth expectName tokens).2 <:+ tokens := by
  have behind : ∀ {token : Token} {rest left : List Token}, left <:+ rest → left <:+ token :: rest :=
    fun h => h.trans (List.suffix_cons _ _)
  fun_induction readParams depth expectName tokens with
  | case1 => exact List.suffix_refl _
  | case3 => exact List.suffix_cons _ _
  | case7 _ _ _ _ _ _ names left hread ih =>
    rw [hread] at ih
    exact behind ih
  | case2 _ _ _ _ _ ih | case4 _ _ _ _ _ _ ih | case5 _ _ _ _ _ ih | case6 _ _ _ _ _ ih
  | case8 _ _ _ _ _ _ ih | case9 _ _ _ _ _ _ _ _ _ ih => exact behind ih

theorem readParamList_snd_suffix (tokens : List Token) : (readParamList tokens).2 <:+ tokens := by
  cases tokens with
  | nil => exact List.suffix_refl _
  | cons token rest =>
    rw [readParamList]
    split
    · exact (readParams_snd_suffix 0 true rest).trans (List.suffix_cons token rest)
    · exact List.suffix_refl _

theorem readExport_snd_suffix (tokens : List Token) : (readExport tokens).2 <:+ tokens := by
  cases tokens with
  | nil => exact List.suffix_refl _
  | cons token rest =>
    rw [readExport]
    split
    · exact List.suffix_cons token rest
    · exact List.suffix_refl _

theorem Header.rest_suffix {tokens : List Token} {header : Header} (h : Header.read? tokens = some header) :
    header.rest <:+ tokens := by
  cases tokens with
  | nil => cases h
  | cons name rest =>
    rw [Header.read?] at h
    split at h
    · cases h
      exact ((readExport_snd_suffix _).trans (readParamList_snd_suffix rest)).trans (List.suffix_cons name rest)
    · cases h

namespace Reading

theorem header?_eq_some_iff {token : Token} {after : List Token} {kind : DeclKind} {header : Header} :
    header? token after = some (kind, header) ↔
      declKind? token = some kind ∧ Header.read? after = some header := by
  rw [header?]
  cases declKind? token <;> cases Header.read? after <;> simp

/-- The tokens that a header takes behind its keyword. -/
def taken (header : Header) (after : List Token) : List Token := after.take (after.length - header.rest.length)

theorem taken_append_rest {token : Token} {after : List Token} {kind : DeclKind} {header : Header}
    (h : header? token after = some (kind, header)) : taken header after ++ header.rest = after := by
  have hsuffix := Header.rest_suffix (header?_eq_some_iff.mp h).2
  obtain ⟨front, hfront⟩ := hsuffix
  rw [taken, ← hfront, List.length_append, Nat.add_sub_cancel, List.take_left]

theorem declKind?_eq_none {token : Token} (h : token.kind ≠ .ident) : declKind? token = none := by
  simp [declKind?, Token.isKeyword, h]

theorem header?_eq_none {token : Token} (h : token.kind ≠ .ident) (after : List Token) :
    header? token after = none := by
  rw [header?, declKind?_eq_none h]
  rfl

end Reading

/-! ## Segments -/

/-- What the reader takes at once. -/
inductive Segment where
  | single (token : Token)
  | header (keyword : Token) (kind : DeclKind) (header : Header) (taken : List Token)

namespace Segment

def tokens : Segment → List Token
  | single token => [token]
  | header keyword _ _ taken => keyword :: taken

end Segment

/-- The segments of a list of tokens. -/
def segments : List Token → List Segment
  | [] => []
  | token :: after =>
    match _h : Reading.header? token after with
    | some (kind, header) => .header token kind header (Reading.taken header after) :: segments header.rest
    | none => .single token :: segments after
termination_by tokens => tokens.length
decreasing_by
  · exact Nat.lt_succ_of_lt (Reading.length_header?_rest _h)
  · exact Nat.lt_succ_self _

theorem flatMap_tokens_segments (tokens : List Token) : (segments tokens).flatMap Segment.tokens = tokens := by
  fun_induction segments tokens with
  | case1 => rfl
  | case2 token after kind header h ih =>
    rw [List.flatMap_cons, ih, Segment.tokens, List.cons_append, Reading.taken_append_rest h]
  | case3 token after h ih => rw [List.flatMap_cons, ih]; rfl

theorem segments_cons_single {token : Token} {after : List Token} (h : Reading.header? token after = none) :
    segments (token :: after) = .single token :: segments after := by
  rw [segments]
  split
  · simp_all
  · rfl

theorem segments_cons_header {token : Token} {after : List Token} {kind : DeclKind} {header : Header}
    (h : Reading.header? token after = some (kind, header)) : segments (token :: after) =
      .header token kind header (Reading.taken header after) :: segments header.rest := by
  rw [segments]
  split
  · simp_all
  · simp_all

namespace Reading

variable {r r' r'' : Reading} {token : Token}

/-- Reads a token that begins no header. -/
def single (r : Reading) (token : Token) (around : Around) : Reading :=
  match token.kind with
  | .preproc => { r.preproc token.text with atBodyStart := false }
  | .directive => { r.directive token.text with atBodyStart := false }
  | _ => r.token token around

theorem single_eq_preproc (h : token.kind = .preproc) (around : Around) :
    r.single token around = { r.preproc token.text with atBodyStart := false } := by
  rw [single, h]

theorem single_eq_directive (h : token.kind = .directive) (around : Around) :
    r.single token around = { r.directive token.text with atBodyStart := false } := by
  rw [single, h]

theorem single_eq_token (hpreproc : token.kind ≠ .preproc) (hdirective : token.kind ≠ .directive)
    (around : Around) : r.single token around = r.token token around := by
  rw [single]
  split
  · exact absurd ‹_› hpreproc
  · exact absurd ‹_› hdirective
  · rfl

/-- Reads on, segment by segment. -/
def readSegments (comments : List Comment) : List Token → Reading → List Segment → Reading
  | _, r, [] => r
  | before, r, .single token :: rest =>
    readSegments comments (token :: before)
      (r.single token ⟨before, rest.flatMap Segment.tokens⟩) rest
  | before, r, .header keyword kind header taken :: rest =>
    readSegments comments ((keyword :: taken).reverse ++ before)
      (r.openWith comments keyword kind header (((keyword :: taken).getLast?.getD keyword).line)) rest

theorem readFrom_eq_readSegments (comments : List Comment) (before : List Token) (r : Reading)
    (tokens : List Token) :
    readFrom comments before r tokens = readSegments comments before r (segments tokens) := by
  have hident : ∀ {token : Token} (after : List Token), token.isAside = true → header? token after = none := by
    intro token after haside
    refine header?_eq_none (fun hkind => ?_) after
    simp [Token.isAside, hkind] at haside
  -- The reader's own recursion; asides begin no header, so that it does not matter that they are looked at first.
  fun_induction readFrom comments before r tokens with
  | case1 =>
    rw [segments]
    rfl
  | case2 before r token after hkind ih =>
    rw [ih, segments_cons_single (hident after (by simp [Token.isAside, hkind])), readSegments, single, hkind]
  | case3 before r token after hkind ih =>
    rw [ih, segments_cons_single (hident after (by simp [Token.isAside, hkind])), readSegments, single, hkind]
  | case4 before r token after kind header h read lastLine _ _ ih =>
    rw [ih, segments_cons_header h]
    rfl
  | case5 before r token after h hpreproc hdirective ih =>
    rw [ih, segments_cons_single h, readSegments, flatMap_tokens_segments, single_eq_token hpreproc hdirective]

/-! ## Between two headers -/

/-- What becomes of an open declaration while it stays open. -/
structure Grows (opened opened' : OpenDeclaration) : Prop where
  heading : opened'.decl.heading = opened.decl.heading
  complexity : opened.decl.complexity ≤ opened'.decl.complexity

/-- Reading has gone on within a declaration, or outside of declarations: none has ended and none has begun,
and what was found was found there. -/
structure Stays (r r' : Reading) : Prop where
  declarations : r'.declarations = r.declarations
  current : Option.Rel Grows r.current r'.current
  calls : ∃ new, r'.calls = r.calls ++ new ∧ ∀ call ∈ new, call.caller = r.caller
  mentions : ∃ new, r'.mentions = r.mentions ++ new ∧ ∀ mention ∈ new, mention.caller = r.caller

/-- And no token beside the code has been read. -/
structure Continues (r r' : Reading) : Prop extends Stays r r' where
  regions : r'.regions = r.regions
  directives : r'.directives = r.directives

theorem Grows.refl (opened : OpenDeclaration) : Grows opened opened := ⟨rfl, Nat.le_refl _⟩

theorem Grows.name {opened opened' : OpenDeclaration} (h : Grows opened opened') :
    opened'.decl.name = opened.decl.name := by
  show opened'.decl.heading.name = opened.decl.heading.name
  rw [h.heading]

theorem Grows.firstLine {opened opened' : OpenDeclaration} (h : Grows opened opened') :
    opened'.decl.firstLine = opened.decl.firstLine := by
  show opened'.decl.heading.firstLine = opened.decl.heading.firstLine
  rw [h.heading]

theorem Grows.trans {a b c : OpenDeclaration} (h : Grows a b) (h' : Grows b c) : Grows a c :=
  ⟨h'.heading.trans h.heading, Nat.le_trans h.complexity h'.complexity⟩

theorem rel_grows_refl (current : Option OpenDeclaration) : Option.Rel Grows current current := by
  cases current with
  | none => exact .none
  | some opened => exact .some (.refl opened)

theorem rel_grows_map {f : OpenDeclaration → OpenDeclaration} (h : ∀ opened, Grows opened (f opened))
    (current : Option OpenDeclaration) : Option.Rel Grows current (current.map f) := by
  cases current with
  | none => exact .none
  | some opened => exact .some (h opened)

namespace Stays

theorem refl (r : Reading) : r.Stays r where
  declarations := rfl
  current := rel_grows_refl r.current
  calls := ⟨[], by simp⟩
  mentions := ⟨[], by simp⟩

/-- An open declaration stays open, and none is opened. -/
theorem cases (h : r.Stays r') : r.current = none ∧ r'.current = none ∨
    ∃ opened opened', r.current = some opened ∧ r'.current = some opened' ∧ Grows opened opened' := by
  have hcurrent := h.current
  revert hcurrent
  generalize r.current = current
  generalize r'.current = current'
  rintro (grows | _)
  · exact .inr ⟨_, _, rfl, rfl, grows⟩
  · exact .inl ⟨rfl, rfl⟩

theorem caller (h : r.Stays r') : r'.caller = r.caller := by
  unfold Reading.caller
  rcases h.cases with ⟨hnone, hnone'⟩ | ⟨opened, opened', hsome, hsome', grows⟩
  · rw [hnone, hnone']
  · rw [hsome, hsome']
    exact congrArg some grows.name

theorem isNone_current (h : r.Stays r') : r'.current.isNone = r.current.isNone := by
  rcases h.cases with ⟨hnone, hnone'⟩ | ⟨opened, opened', hsome, hsome', -⟩
  · rw [hnone, hnone']
  · rw [hsome, hsome']
    rfl

theorem trans (h : r.Stays r') (h' : r'.Stays r'') : r.Stays r'' where
  declarations := h'.declarations.trans h.declarations
  current := by
    have hfirst := h.current
    have hthen := h'.current
    revert hfirst hthen
    generalize r.current = a
    generalize r'.current = b
    generalize r''.current = c
    rintro (hab | _) (hbc | _)
    · exact .some (hab.trans hbc)
    · exact .none
  calls := by
    obtain ⟨new, hnew, hcaller⟩ := h.calls
    obtain ⟨new', hnew', hcaller'⟩ := h'.calls
    refine ⟨new ++ new', by rw [hnew', hnew, List.append_assoc], fun call hcall => ?_⟩
    rcases List.mem_append.mp hcall with hcall | hcall
    · exact hcaller call hcall
    · exact (hcaller' call hcall).trans h.caller
  mentions := by
    obtain ⟨new, hnew, hcaller⟩ := h.mentions
    obtain ⟨new', hnew', hcaller'⟩ := h'.mentions
    refine ⟨new ++ new', by rw [hnew', hnew, List.append_assoc], fun mention hmention => ?_⟩
    rcases List.mem_append.mp hmention with hmention | hmention
    · exact hcaller mention hmention
    · exact (hcaller' mention hmention).trans h.caller

/-- The marks of the reader that are no findings do not matter. -/
theorem marked (h : r.Stays r') (lastCodeLine : Nat) (inVariables atBodyStart : Bool) :
    r.Stays { r' with lastCodeLine, inVariables, atBodyStart } :=
  ⟨h.declarations, h.current, h.calls, h.mentions⟩

end Stays

namespace Continues

theorem refl (r : Reading) : r.Continues r := ⟨.refl r, rfl, rfl⟩

theorem trans (h : r.Continues r') (h' : r'.Continues r'') : r.Continues r'' :=
  ⟨h.toStays.trans h'.toStays, h'.regions.trans h.regions, h'.directives.trans h.directives⟩

theorem marked (h : r.Continues r') (lastCodeLine : Nat) (inVariables atBodyStart : Bool) :
    r.Continues { r' with lastCodeLine, inVariables, atBodyStart } :=
  ⟨h.toStays.marked lastCodeLine inVariables atBodyStart, h.regions, h.directives⟩

end Continues

theorem continues_addLocal (word : String) : r.Continues (r.addLocal word) :=
  { Continues.refl r with current := rel_grows_map (by exact fun _ => ⟨rfl, Nat.le_refl _⟩) r.current }

theorem continues_addDecision : r.Continues r.addDecision :=
  { Continues.refl r with current := rel_grows_map (by exact fun _ => ⟨rfl, Nat.le_succ _⟩) r.current }

theorem continues_addMention (kind : MetadataKind) (name : String) (line : Nat) :
    r.Continues (r.addMention kind name line) :=
  { Continues.refl r with mentions := ⟨[⟨r.caller, kind, name, line⟩], rfl, by simp⟩ }

theorem continues_addCall (callee : String) (qualifier : Option String) (line : Nat) :
    r.Continues (r.addCall callee qualifier line) :=
  { Continues.refl r with calls := ⟨[⟨r.caller, callee, qualifier, line⟩], rfl, by simp⟩ }

theorem continues_queryText (token : Token) : r.Continues (r.queryText token) := by
  unfold queryText
  generalize QueryText.mentions token.text.toList = found
  induction found generalizing r with
  | nil => exact .refl r
  | cons first rest ih => exact (continues_addMention _ _ _).trans ih

theorem continues_loopVariable (after : List Token) : r.Continues (r.loopVariable after) := by
  unfold loopVariable
  dsimp only
  split
  · split
    · exact continues_addLocal _
    · exact .refl r
  · exact .refl r

theorem continues_identifier (token : Token) (word : String) (around : Around) :
    r.Continues (r.identifier token word around) := by
  unfold identifier
  split
  · exact continues_addLocal word
  · split
    · exact continues_addMention _ _ _
    · split
      · exact continues_addLocal word
      · split
        · exact .refl r
        · split
          · exact continues_addCall _ _ _
          · exact .refl r

theorem continues_keyword {keyword : Keyword} (hprocedure : keyword ≠ .endProcedure)
    (hfunction : keyword ≠ .endFunction) (token : Token) (after : List Token) :
    r.Continues (r.keyword token after keyword) := by
  unfold Reading.keyword
  split
  · exact absurd rfl hprocedure
  · exact absurd rfl hfunction
  · exact continues_addDecision
  · exact continues_addDecision
  · exact continues_addDecision
  · exact continues_addDecision.trans (continues_loopVariable after)
  · exact (Continues.refl r).marked r.lastCodeLine true r.atBodyStart
  · exact .refl r

/-- A token that ends no declaration neither opens nor ends one. -/
theorem continues_token (h : token.endsDeclaration = false) (around : Around) :
    r.Continues (r.token token around) := by
  unfold Reading.token
  refine Continues.marked ?_ _ _ _
  split
  · exact continues_queryText token
  · split
    · exact continues_addDecision
    · exact .refl r
  · exact (Continues.refl r).marked r.lastCodeLine false r.atBodyStart
  · rename_i hkind
    dsimp only
    split
    · rename_i keyword hkeyword
      have hends : ∀ k, token.isKeyword k = false → keyword ≠ k := by
        rintro k hk rfl
        rw [Token.isKeyword_iff.mpr ⟨hkind, hkeyword⟩] at hk
        cases hk
      have hnot := Bool.or_eq_false_iff.mp h
      exact continues_keyword (hends _ hnot.1) (hends _ hnot.2) token around.after
    · exact continues_identifier token _ around
  · exact .refl r

/-- A token that ends declarations does nothing else. -/
theorem token_eq_close (h : token.endsDeclaration = true) (around : Around) :
    r.token token around = { r.close token.line with lastCodeLine := token.line, atBodyStart := false } := by
  rcases Bool.or_eq_true _ _ ▸ h with h | h
  · obtain ⟨hkind, hword⟩ := Token.isKeyword_iff.mp h
    rw [Token.keyword?] at hword
    simp only [Reading.token, hkind, hword, Reading.keyword]
  · obtain ⟨hkind, hword⟩ := Token.isKeyword_iff.mp h
    rw [Token.keyword?] at hword
    simp only [Reading.token, hkind, hword, Reading.keyword]

end Reading

/-! ## Places of declarations -/

/-- The texts of the directives among tokens. -/
def directiveTexts (tokens : List Token) : List String :=
  (tokens.filter (·.kind = .directive)).map (·.text)

/-- The regions that are open after a preprocessor line. -/
def regionsAfter (regions : List String) (text : String) : List String :=
  (Reading.preproc { regions } text).regions

/-- What the tokens before a place say about it. -/
structure Surroundings where
  /-- The tokens before the place, nearest first. -/
  before : List Token := []
  /-- Those of them that come after the end of the last declaration, nearest first; nothing if it has not
  ended. Where no declaration has begun these are all. -/
  outside : Option (List Token) := some []
  regions : List String := []
  /-- The line of the last code. -/
  codeLine : Nat := 0

namespace Surroundings

/-- The place behind a token that belongs to no header. -/
def pass (s : Surroundings) (token : Token) : Surroundings where
  before := token :: s.before
  outside :=
    match s.outside with
    | some tokens => some (token :: tokens)
    | none => if token.endsDeclaration then some [] else none
  regions := if token.kind = .preproc then regionsAfter s.regions token.text else s.regions
  codeLine := if token.isAside then s.codeLine else token.line

/-- The place behind a header. -/
def enter (s : Surroundings) (keyword : Token) (taken : List Token) : Surroundings where
  before := (keyword :: taken).reverse ++ s.before
  outside := none
  regions := s.regions
  codeLine := ((keyword :: taken).getLast?.getD keyword).line

/-- The directives that wait for a declaration here. -/
def directives (s : Surroundings) : List String := directiveTexts (s.outside.getD []).reverse

end Surroundings

/-- The place of a declaration: what is before its keyword, and its header. -/
structure Site extends Surroundings where
  keyword : Token
  kind : DeclKind
  header : Header

/-- The heading of the declaration that begins here. -/
def Site.heading (comments : List Comment) (site : Site) : Declaration where
  name := site.header.name
  kind := site.kind
  isExport := site.header.isExport
  firstLine := site.keyword.line
  lastLine := site.keyword.line
  params := site.header.params
  region := site.regions.head?.filter (!·.isEmpty)
  directives := site.directives
  requirements := Annotation.keysBetween .requirement comments site.codeLine site.keyword.line
  incidents := Annotation.keysBetween .incident comments site.codeLine site.keyword.line

/-- The places of the declarations among segments. -/
def sitesFrom (s : Surroundings) : List Segment → List Site
  | [] => []
  | .single token :: rest => sitesFrom (s.pass token) rest
  | .header keyword kind header taken :: rest =>
    { s with keyword, kind, header } :: sitesFrom (s.enter keyword taken) rest

/-- The places of the declarations among the tokens of a module. -/
def sites (tokens : List Token) : List Site := sitesFrom {} (segments tokens)

namespace Surroundings

theorem isSome_outside_pass (s : Surroundings) (token : Token) :
    (s.pass token).outside.isSome = (s.outside.isSome || token.endsDeclaration) := by
  unfold pass
  cases s.outside with
  | some tokens => rfl
  | none => cases token.endsDeclaration <;> rfl

/-- Directives wait outside of declarations only. -/
theorem directives_pass (s : Surroundings) (token : Token) : (s.pass token).directives =
    if s.outside.isSome && decide (token.kind = .directive) then s.directives ++ [token.text]
    else s.directives := by
  unfold pass directives
  cases s.outside with
  | some tokens =>
    by_cases hkind : token.kind = .directive <;> simp [directiveTexts, hkind]
  | none => cases token.endsDeclaration <;> rfl

end Surroundings

/-! ## Headings come from places -/

namespace Reading

variable {r r' : Reading} {token : Token} {s : Surroundings}

theorem preproc_eq (r : Reading) (text : String) :
    r.preproc text = { r with regions := regionsAfter r.regions text } := by
  unfold regionsAfter Reading.preproc
  cases words text with
  | nil => rfl
  | cons word rest =>
    dsimp only
    split
    · rfl
    · split <;> rfl

theorem stays_preproc (text : String) : r.Stays (r.preproc text) := by
  rw [preproc_eq]
  exact { Stays.refl r with }

theorem stays_directive (text : String) : r.Stays (r.directive text) := by
  unfold directive
  split
  · exact { Stays.refl r with }
  · exact .refl r

/-- A token that begins no header either ends the open declaration, or none begins and none ends. -/
theorem single_cases (r : Reading) (token : Token) (around : Around) :
    (token.endsDeclaration = false ∧ r.Stays (r.single token around)) ∨
      (token.endsDeclaration = true ∧ r.single token around =
        { r.close token.line with lastCodeLine := token.line, atBodyStart := false }) := by
  by_cases hpreproc : token.kind = .preproc
  · rw [single_eq_preproc hpreproc]
    exact .inl ⟨Token.endsDeclaration_eq_false (by simp [hpreproc]), (stays_preproc _).marked _ _ _⟩
  by_cases hdirective : token.kind = .directive
  · rw [single_eq_directive hdirective]
    exact .inl ⟨Token.endsDeclaration_eq_false (by simp [hdirective]), (stays_directive _).marked _ _ _⟩
  rw [single_eq_token hpreproc hdirective]
  cases hends : token.endsDeclaration with
  | false => exact .inl ⟨rfl, (continues_token hends around).toStays⟩
  | true => exact .inr ⟨rfl, token_eq_close hends around⟩

/-- The declarations that have begun. -/
def begun (r : Reading) : List Declaration := r.declarations ++ (r.current.map (·.decl)).toList

theorem current_close (r : Reading) (line : Nat) : (r.close line).current = none := by
  unfold close
  cases h : r.current with
  | none => exact h
  | some opened => rfl

theorem directives_close (r : Reading) (line : Nat) : (r.close line).directives = r.directives := by
  unfold close
  cases r.current <;> rfl

theorem regions_close (r : Reading) (line : Nat) : (r.close line).regions = r.regions := by
  unfold close
  cases r.current <;> rfl

theorem calls_close (r : Reading) (line : Nat) : (r.close line).calls = r.calls := by
  unfold close
  cases r.current <;> rfl

theorem mentions_close (r : Reading) (line : Nat) : (r.close line).mentions = r.mentions := by
  unfold close
  cases r.current <;> rfl

theorem begun_close (r : Reading) (line : Nat) : (r.close line).begun = (r.close line).declarations := by
  simp [begun, current_close]

theorem map_heading_close (r : Reading) (line : Nat) :
    (r.close line).declarations.map Declaration.heading = r.begun.map Declaration.heading := by
  unfold close begun
  cases r.current with
  | none => simp
  | some opened => simp [Declaration.heading]

theorem Stays.map_heading_begun (h : r.Stays r') :
    r'.begun.map Declaration.heading = r.begun.map Declaration.heading := by
  unfold begun
  rw [h.declarations]
  rcases h.cases with ⟨hnone, hnone'⟩ | ⟨opened, opened', hsome, hsome', grows⟩
  · rw [hnone, hnone']
  · simp [hsome, hsome', grows.heading]

/-- What the reader knows of a place. -/
structure Knows (r : Reading) (s : Surroundings) : Prop where
  current : r.current.isNone = s.outside.isSome
  directives : r.directives = s.directives
  regions : r.regions = s.regions
  codeLine : r.lastCodeLine = s.codeLine

theorem knows_start : ({} : Reading).Knows {} := ⟨rfl, rfl, rfl, rfl⟩

/-- A token that begins no header leaves the headings as they are, and the reader knows the place behind
it. -/
theorem Knows.single (knows : r.Knows s) (token : Token) (around : Around) :
    (r.single token around).Knows (s.pass token) ∧
      (r.single token around).begun.map Declaration.heading = r.begun.map Declaration.heading := by
  -- Preprocessor lines and directives are not code, and only they change what waits at a place. Any other
  -- token moves the line of the last code, and may end the declaration that is open.
  by_cases hpreproc : token.kind = .preproc
  · have hends : token.endsDeclaration = false := Token.endsDeclaration_eq_false (by simp [hpreproc])
    rw [single_eq_preproc hpreproc, preproc_eq]
    refine ⟨⟨?_, ?_, ?_, ?_⟩, rfl⟩
    · simpa [s.isSome_outside_pass, hends] using knows.current
    · simpa [s.directives_pass, hpreproc] using knows.directives
    · simp [Surroundings.pass, hpreproc, knows.regions]
    · simp [Surroundings.pass, Token.isAside, hpreproc, knows.codeLine]
  by_cases hdirective : token.kind = .directive
  · have hends : token.endsDeclaration = false := Token.endsDeclaration_eq_false (by simp [hdirective])
    have hopen := knows.current
    rw [single_eq_directive hdirective, Reading.directive]
    cases hnone : r.current.isNone with
    | true =>
      rw [hnone] at hopen
      refine ⟨⟨?_, ?_, ?_, ?_⟩, rfl⟩
      · simpa [s.isSome_outside_pass, hends, hnone] using hopen
      · simp [s.directives_pass, hdirective, ← hopen, knows.directives]
      · simp [Surroundings.pass, hdirective, knows.regions]
      · simp [Surroundings.pass, Token.isAside, hdirective, knows.codeLine]
    | false =>
      rw [hnone] at hopen
      refine ⟨⟨?_, ?_, ?_, ?_⟩, rfl⟩
      · simpa [s.isSome_outside_pass, hends, hnone] using hopen
      · simp [s.directives_pass, ← hopen, knows.directives]
      · simp [Surroundings.pass, hdirective, knows.regions]
      · simp [Surroundings.pass, Token.isAside, hdirective, knows.codeLine]
  · rw [single_eq_token hpreproc hdirective]
    have haside : token.isAside = false := by simp [Token.isAside, hpreproc, hdirective]
    cases hends : token.endsDeclaration with
    | true =>
      rw [token_eq_close hends]
      refine ⟨⟨?_, ?_, ?_, ?_⟩, ?_⟩
      · simp [s.isSome_outside_pass, hends, current_close]
      · simp [s.directives_pass, hdirective, directives_close, knows.directives]
      · simp [Surroundings.pass, hpreproc, regions_close, knows.regions]
      · simp [Surroundings.pass, haside]
      · exact (congrArg _ (begun_close r token.line)).trans (map_heading_close r token.line)
    | false =>
      have continues : r.Continues (r.token token around) := continues_token hends around
      refine ⟨⟨?_, ?_, ?_, ?_⟩, continues.toStays.map_heading_begun⟩
      · simpa [s.isSome_outside_pass, hends, continues.toStays.isNone_current] using knows.current
      · simpa [s.directives_pass, hdirective, continues.directives] using knows.directives
      · simp [Surroundings.pass, hpreproc, continues.regions, knows.regions]
      · simp [Surroundings.pass, haside, Reading.token]

/-- A header begins a declaration with the heading of its place. -/
theorem Knows.openWith (knows : r.Knows s) (comments : List Comment) (keyword : Token) (kind : DeclKind)
    (header : Header) (taken : List Token) :
    let r' := r.openWith comments keyword kind header ((keyword :: taken).getLast?.getD keyword).line
    r'.Knows (s.enter keyword taken) ∧
      r'.begun.map Declaration.heading = r.begun.map Declaration.heading ++
        [Site.heading comments { s with keyword, kind, header }] := by
  refine ⟨⟨rfl, rfl, ?_, rfl⟩, ?_⟩
  · exact (regions_close r _).trans knows.regions
  · rw [← map_heading_close r (keyword.line - 1)]
    simp [begun, Reading.openWith, Site.heading, Declaration.heading, knows.regions, knows.directives,
      knows.codeLine]

/-- Reading on begins one declaration for each place that is left. -/
theorem Knows.map_heading_readSegments (comments : List Comment) {segs : List Segment} (knows : r.Knows s) :
    (readSegments comments s.before r segs).begun.map Declaration.heading =
      r.begun.map Declaration.heading ++ (sitesFrom s segs).map (Site.heading comments) := by
  induction segs generalizing r s with
  | nil => simp [readSegments, sitesFrom]
  | cons seg rest ih =>
    cases seg with
    | single token =>
      obtain ⟨hknows, hbegun⟩ := knows.single token ⟨s.before, rest.flatMap Segment.tokens⟩
      rw [readSegments, sitesFrom, ← hbegun]
      exact ih hknows
    | header keyword kind header taken =>
      obtain ⟨hknows, hbegun⟩ := knows.openWith comments keyword kind header taken
      rw [readSegments, sitesFrom, List.map_cons, List.append_cons, ← hbegun]
      exact ih hknows

end Reading

/-! ## Places among the tokens -/

/-- Where a place is. -/
def Site.In (site : Site) (tokens : List Token) : Prop :=
  ∃ after, site.before.reverse ++ site.keyword :: after = tokens ∧
    Reading.header? site.keyword after = some (site.kind, site.header)

theorem in_of_mem_sitesFrom (s : Surroundings) (tokens : List Token) :
    ∀ site ∈ sitesFrom s (segments tokens), site.In (s.before.reverse ++ tokens) := by
  fun_induction segments tokens generalizing s with
  | case1 => simp [sitesFrom]
  | case2 token after kind header h ih =>
    refine List.forall_mem_cons.mpr ⟨⟨after, rfl, h⟩, fun site hsite => ?_⟩
    have hin := ih (s.enter token (Reading.taken header after)) site hsite
    have hbefore : (s.enter token (Reading.taken header after)).before.reverse ++ header.rest =
        s.before.reverse ++ token :: after := by
      conv_rhs => rw [← Reading.taken_append_rest h]
      simp [Surroundings.enter]
    rwa [hbefore] at hin
  | case3 token after h ih =>
    intro site hsite
    have hin := ih (s.pass token) site hsite
    have hbefore : (s.pass token).before.reverse ++ after = s.before.reverse ++ token :: after := by
      simp [Surroundings.pass]
    rwa [hbefore] at hin

theorem pairwise_sitesFrom (s : Surroundings) (segs : List Segment) :
    (∀ site ∈ sitesFrom s segs, s.before.length ≤ site.before.length) ∧
      (sitesFrom s segs).Pairwise (·.before.length < ·.before.length) := by
  induction segs generalizing s with
  | nil => simp [sitesFrom]
  | cons seg rest ih =>
    cases seg with
    | single token =>
      obtain ⟨hle, hpairwise⟩ := ih (s.pass token)
      exact ⟨fun site hsite => Nat.le_of_succ_le (hle site hsite), hpairwise⟩
    | header keyword kind header taken =>
      obtain ⟨hle, hpairwise⟩ := ih (s.enter keyword taken)
      have hlt : ∀ site ∈ sitesFrom (s.enter keyword taken) rest, s.before.length < site.before.length := by
        intro site hsite
        have := hle site hsite
        simp only [Surroundings.enter, List.length_append, List.length_reverse, List.length_cons] at this
        omega
      exact ⟨List.forall_mem_cons.mpr ⟨Nat.le_refl _, fun site hsite => Nat.le_of_lt (hlt site hsite)⟩,
        List.pairwise_cons.mpr ⟨hlt, hpairwise⟩⟩

/-- The declarations of a module have the headings of their places, in order. -/
theorem map_heading_ofModule (text : String) :
    (Outline.ofModule text).declarations.map Declaration.heading =
      (sites (lex text).tokens).map (Site.heading (lex text).comments) := by
  show ((Reading.readFrom (lex text).comments [] {} (lex text).tokens).close _).declarations.map _ = _
  rw [Reading.map_heading_close, Reading.readFrom_eq_readSegments]
  exact Reading.knows_start.map_heading_readSegments (lex text).comments

/-- The same, declaration by declaration. -/
theorem forall₂_sites (text : String) :
    List.Forall₂ (fun site decl => site.In (lex text).tokens ∧
        decl.heading = site.heading (lex text).comments)
      (sites (lex text).tokens) (Outline.ofModule text).declarations := by
  have hheadings : List.Forall₂ (fun site decl => decl.heading = Site.heading (lex text).comments site)
      (sites (lex text).tokens) (Outline.ofModule text).declarations := by
    have heq : List.Forall₂ (· = ·) ((sites (lex text).tokens).map (Site.heading (lex text).comments))
        ((Outline.ofModule text).declarations.map Declaration.heading) := by
      rw [List.forall₂_eq_eq_eq, map_heading_ofModule]
    rw [List.forall₂_map_left_iff, List.forall₂_map_right_iff] at heq
    exact heq.imp fun _ _ h => h.symm
  exact (List.forall₂_and_left _ _).mpr ⟨in_of_mem_sitesFrom {} (lex text).tokens, hheadings⟩

end Source

end CodeAtlas
