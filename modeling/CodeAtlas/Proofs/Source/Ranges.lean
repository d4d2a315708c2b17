import CodeAtlas.Proofs.Source.Headings
import CodeAtlas.Proofs.Source.Lexemes

/-!
# The lines of declarations

A declaration begins on the line of its keyword. It ends in one of three ways: on the line of the keyword
that ends it, on the line before the next header, or on the last line of the text. Whatever the text is, the
lines come out in order (`standsIn_ofModule`). Lines of tokens never go down, so that no end comes before its
beginning; a header may stand on the line of the one before it, and then the declaration before it ends on
this line too. Keywords stand on lines that the text has.

All that a step has to know of the lines to come is one line that none of them is before, the floor
(`Reading.Ranged`).
-/

set_option autoImplicit false

namespace CodeAtlas

namespace Source

open Text

/-! ## Lines to come -/

/-- The lines of tokens that are still to be read: they do not go down, none is before the floor, and those
of identifiers are lines of the text. -/
structure Lined (bound floor : Nat) (tokens : List Token) : Prop where
  sorted : tokens.Pairwise (·.line ≤ ·.line)
  above : ∀ token ∈ tokens, floor ≤ token.line
  within : ∀ token ∈ tokens, token.kind = .ident → 1 ≤ token.line ∧ token.line ≤ bound

namespace Lined

variable {bound floor : Nat} {token : Token} {tokens rest : List Token}

theorem tail (lined : Lined bound floor (token :: tokens)) : Lined bound floor tokens where
  sorted := (List.pairwise_cons.mp lined.sorted).2
  above t ht := lined.above t (List.mem_cons_of_mem token ht)
  within t ht := lined.within t (List.mem_cons_of_mem token ht)

/-- Behind a token its line is a floor. -/
theorem raise (lined : Lined bound floor (token :: tokens)) : Lined bound token.line tokens :=
  { lined.tail with above := (List.pairwise_cons.mp lined.sorted).1 }

theorem right (lined : Lined bound floor (tokens ++ rest)) : Lined bound floor rest where
  sorted := (List.pairwise_append.mp lined.sorted).2.1
  above t ht := lined.above t (List.mem_append_right tokens ht)
  within t ht := lined.within t (List.mem_append_right tokens ht)

end Lined

theorem lined_lex (text : String) : Lined (max 1 (lineCount text)) 1 (lex text).tokens where
  sorted := pairwise_line_lex text
  above _ ht := one_le_line_lex ht
  within t ht hkind :=
    ⟨one_le_line_lex ht, Nat.le_trans (line_le_lineCount ht (by simp [hkind])) (Nat.le_max_right _ _)⟩

theorem kind_of_mem_segments {tokens taken : List Token} {keyword : Token} {kind : DeclKind} {header : Header}
    (h : Segment.header keyword kind header taken ∈ segments tokens) : keyword.kind = .ident := by
  fun_induction segments tokens with
  | case1 => cases h
  | case2 token after kind' header' hheader ih =>
    rcases List.mem_cons.mp h with h | h
    · cases h
      by_contra hkind
      rw [Reading.header?_eq_none hkind] at hheader
      cases hheader
    · exact ih h
  | case3 token after _ ih =>
    rcases List.mem_cons.mp h with h | h
    · cases h
    · exact ih h

namespace Reading

variable {r r' : Reading} {bound floor floor' line : Nat}

/-! ## Lines of what has been read -/

/-- The lines of what has been read, where no line to come is before the floor. -/
structure Ranged (bound floor : Nat) (r : Reading) : Prop where
  floor_le : floor ≤ bound
  closed : ∀ decl ∈ r.declarations,
    1 ≤ decl.firstLine ∧ decl.firstLine ≤ decl.lastLine ∧ decl.lastLine ≤ floor ∧ 1 ≤ decl.complexity
  apart : r.declarations.Pairwise (·.lastLine ≤ ·.firstLine)
  opened : ∀ opened, r.current = some opened →
    1 ≤ opened.decl.firstLine ∧ opened.decl.firstLine ≤ floor ∧ 1 ≤ opened.decl.complexity ∧
      ∀ decl ∈ r.declarations, decl.lastLine ≤ opened.decl.firstLine

namespace Ranged

theorem start (h : 1 ≤ bound) : Ranged bound 1 {} where
  floor_le := h
  closed _ hdecl := absurd hdecl List.not_mem_nil
  apart := List.Pairwise.nil
  opened _ hopened := nomatch hopened

theorem stays (ranged : r.Ranged bound floor) (h : r.Stays r') : r'.Ranged bound floor where
  floor_le := ranged.floor_le
  closed := by
    rw [h.declarations]
    exact ranged.closed
  apart := by
    rw [h.declarations]
    exact ranged.apart
  opened := by
    intro opened' hopened'
    rcases h.cases with ⟨-, hnone⟩ | ⟨opened, _, hsome, hsome', grows⟩
    · rw [hnone] at hopened'
      cases hopened'
    · cases hsome'.symm.trans hopened'
      obtain ⟨hfirst, hfloor, hcomplexity, hbefore⟩ := ranged.opened opened hsome
      rw [grows.firstLine, h.declarations]
      exact ⟨hfirst, hfloor, Nat.le_trans hcomplexity grows.complexity, hbefore⟩

/-- A declaration can end on any line that no line to come is before. -/
theorem close (ranged : r.Ranged bound floor) (hline : line ≤ floor') (hfloor : floor ≤ floor')
    (hbound : floor' ≤ bound) : (r.close line).Ranged bound floor' := by
  have hclosed : ∀ decl ∈ r.declarations, 1 ≤ decl.firstLine ∧ decl.firstLine ≤ decl.lastLine ∧
      decl.lastLine ≤ floor' ∧ 1 ≤ decl.complexity := by
    intro decl hdecl
    obtain ⟨hfirst, hordered, hlast, hcomplexity⟩ := ranged.closed decl hdecl
    exact ⟨hfirst, hordered, Nat.le_trans hlast hfloor, hcomplexity⟩
  unfold Reading.close
  cases hcurrent : r.current with
  | none => exact ⟨hbound, hclosed, ranged.apart, fun opened hopened => by simp [hcurrent] at hopened⟩
  | some opened =>
    obtain ⟨hfirst, hopen, hcomplexity, hbefore⟩ := ranged.opened opened hcurrent
    refine ⟨hbound, ?_, ?_, fun opened hopened => by cases hopened⟩
    · intro decl hdecl
      rcases List.mem_append.mp hdecl with hdecl | hdecl
      · exact hclosed decl hdecl
      · cases List.mem_singleton.mp hdecl
        exact ⟨hfirst, Nat.le_max_right _ _, Nat.max_le.mpr ⟨hline, Nat.le_trans hopen hfloor⟩, hcomplexity⟩
    · refine List.pairwise_append.mpr ⟨ranged.apart, List.pairwise_singleton _ _, ?_⟩
      intro decl hdecl last hlast
      cases List.mem_singleton.mp hlast
      exact hbefore decl hdecl

theorem openWith (ranged : r.Ranged bound floor) (comments : List Comment) {keyword : Token} (kind : DeclKind)
    (header : Header) (lastLine : Nat) (hfirst : 1 ≤ keyword.line) (hfloor : floor ≤ keyword.line)
    (hbound : keyword.line ≤ bound) :
    (r.openWith comments keyword kind header lastLine).Ranged bound keyword.line := by
  -- The declaration before ends above the keyword, or on the keyword's own line if it began there.
  have closed : (r.close (keyword.line - 1)).Ranged bound keyword.line :=
    ranged.close (Nat.sub_le _ _) hfloor hbound
  refine ⟨hbound, closed.closed, closed.apart, fun opened hopened => ?_⟩
  cases hopened
  exact ⟨hfirst, Nat.le_refl _, Nat.le_refl _, fun decl hdecl => (closed.closed decl hdecl).2.2.1⟩

theorem readSegments (ranged : r.Ranged bound floor) (comments : List Comment) (before : List Token)
    {segs : List Segment} (lined : Lined bound floor (segs.flatMap Segment.tokens))
    (idents : ∀ keyword kind header taken, Segment.header keyword kind header taken ∈ segs →
      keyword.kind = .ident) :
    ∃ floor', (readSegments comments before r segs).Ranged bound floor' := by
  -- By induction over the segments: the floor rises to the line of each token that begins or ends something.
  induction segs generalizing before r floor with
  | nil => exact ⟨floor, ranged⟩
  | cons seg rest ih =>
    have hidents : ∀ keyword kind header taken, Segment.header keyword kind header taken ∈ rest →
        keyword.kind = .ident :=
      fun keyword kind header taken h => idents keyword kind header taken (List.mem_cons_of_mem seg h)
    cases seg with
    | single token =>
      rcases single_cases r token ⟨before, rest.flatMap Segment.tokens⟩ with ⟨-, hstays⟩ | ⟨hends, hclose⟩
      · exact ih (ranged.stays hstays) (token :: before) lined.tail hidents
      · have hkind := Token.kind_of_endsDeclaration hends
        have hwithin := (lined.within token List.mem_cons_self hkind).2
        have hfloor := lined.above token List.mem_cons_self
        have closed : (r.close token.line).Ranged bound token.line :=
          ranged.close (Nat.le_refl _) hfloor hwithin
        have marked : Ranged bound token.line
            { r.close token.line with lastCodeLine := token.line, atBodyStart := false } :=
          ⟨closed.floor_le, closed.closed, closed.apart, closed.opened⟩
        rw [Reading.readSegments, hclose]
        exact ih marked (token :: before) lined.raise hidents
    | header keyword kind header taken =>
      have hkind := idents keyword kind header taken List.mem_cons_self
      obtain ⟨hfirst, hwithin⟩ := lined.within keyword List.mem_cons_self hkind
      have hfloor := lined.above keyword List.mem_cons_self
      exact ih (ranged.openWith comments kind header _ hfirst hfloor hwithin)
        ((keyword :: taken).reverse ++ before) (Lined.raise lined).right hidents

end Ranged

/-! ## What is found where -/

/-- Whatever was found in a declaration names one that has begun. -/
structure Attributed (r : Reading) : Prop where
  calls : ∀ call ∈ r.calls, ∀ name, call.caller = some name → name ∈ r.begun.map (·.name)
  mentions : ∀ mention ∈ r.mentions, ∀ name, mention.caller = some name → name ∈ r.begun.map (·.name)

theorem map_name_begun (r : Reading) :
    r.begun.map (·.name) = (r.begun.map Declaration.heading).map (·.name) := by
  rw [List.map_map]
  rfl

theorem mem_names_of_caller {name : String} (h : r.caller = some name) : name ∈ r.begun.map (·.name) := by
  obtain ⟨opened, hopened, rfl⟩ := Option.map_eq_some_iff.mp h
  simp [begun, hopened]

namespace Attributed

theorem start : Attributed {} :=
  ⟨fun _ h => absurd h List.not_mem_nil, fun _ h => absurd h List.not_mem_nil⟩

theorem stays (attributed : r.Attributed) (h : r.Stays r') : r'.Attributed := by
  have hnames : r'.begun.map (·.name) = r.begun.map (·.name) := by
    rw [map_name_begun, map_name_begun, h.map_heading_begun]
  constructor
  · obtain ⟨new, hnew, hcaller⟩ := h.calls
    rw [hnew, hnames]
    intro call hcall name hname
    rcases List.mem_append.mp hcall with hcall | hcall
    · exact attributed.calls call hcall name hname
    · exact mem_names_of_caller ((hcaller call hcall).symm.trans hname)
  · obtain ⟨new, hnew, hcaller⟩ := h.mentions
    rw [hnew, hnames]
    intro mention hmention name hname
    rcases List.mem_append.mp hmention with hmention | hmention
    · exact attributed.mentions mention hmention name hname
    · exact mem_names_of_caller ((hcaller mention hmention).symm.trans hname)

/-- What was found stays attributed as long as the names that have begun are kept. -/
theorem mono (attributed : r.Attributed) (hcalls : r'.calls = r.calls) (hmentions : r'.mentions = r.mentions)
    (hnames : r.begun.map (·.name) ⊆ r'.begun.map (·.name)) : r'.Attributed where
  calls call hcall name hname := hnames (attributed.calls call (hcalls ▸ hcall) name hname)
  mentions mention h name hname := hnames (attributed.mentions mention (hmentions ▸ h) name hname)

theorem close (attributed : r.Attributed) (line : Nat) : (r.close line).Attributed := by
  refine attributed.mono (calls_close r line) (mentions_close r line) ?_
  rw [map_name_begun (r.close line), begun_close, map_heading_close, ← map_name_begun]
  exact List.Subset.refl _

theorem openWith (attributed : r.Attributed) (comments : List Comment) (keyword : Token) (kind : DeclKind)
    (header : Header) (lastLine : Nat) : (r.openWith comments keyword kind header lastLine).Attributed := by
  have closed := attributed.close (keyword.line - 1)
  refine closed.mono rfl rfl ?_
  rw [begun_close]
  exact List.map_subset _ (List.subset_append_left _ _)

theorem readSegments (attributed : r.Attributed) (comments : List Comment) (before : List Token)
    (segs : List Segment) : (readSegments comments before r segs).Attributed := by
  induction segs generalizing before r with
  | nil => exact attributed
  | cons seg rest ih =>
    cases seg with
    | single token =>
      rw [Reading.readSegments]
      rcases single_cases r token ⟨before, rest.flatMap Segment.tokens⟩ with ⟨-, hstays⟩ | ⟨-, hclose⟩
      · exact ih (attributed.stays hstays) _
      · rw [hclose]
        have marked : Attributed { r.close token.line with lastCodeLine := token.line, atBodyStart := false } :=
          (attributed.close token.line).mono rfl rfl (List.Subset.refl _)
        exact ih marked _
    | header keyword kind header taken => exact ih (attributed.openWith comments keyword kind header _) _

end Attributed

end Reading

end Source

/-! ## Declarations in their text -/

open Text Source

/-- An outline that stands in its text as it should. -/
structure Outline.StandsIn (outline : Outline) (text : String) : Prop where
  lines : ∀ decl ∈ outline.declarations,
    1 ≤ decl.firstLine ∧ decl.firstLine ≤ decl.lastLine ∧ decl.lastLine ≤ max 1 (lineCount text)
  /-- A declaration begins where those before it have ended, or on a later line. -/
  apart : outline.declarations.Pairwise (·.lastLine ≤ ·.firstLine)
  /-- Each declaration comes from a keyword of its own, in the order of the tokens. -/
  keywords : ∃ places : List Nat, places.Pairwise (· < ·) ∧
    List.Forall₂ (fun place decl => ∃ keyword, (lex text).tokens[place]? = some keyword ∧
      Reading.declKind? keyword = some decl.kind ∧ decl.firstLine = keyword.line) places outline.declarations
  complexity : ∀ decl ∈ outline.declarations, 1 ≤ decl.complexity
  callers : ∀ call ∈ outline.calls, ∀ name, call.caller = some name →
    ∃ decl ∈ outline.declarations, decl.name = name
  mentioners : ∀ mention ∈ outline.mentions, ∀ name, mention.caller = some name →
    ∃ decl ∈ outline.declarations, decl.name = name

namespace Source

theorem exists_keywords (text : String) : ∃ places : List Nat, places.Pairwise (· < ·) ∧
    List.Forall₂ (fun place decl => ∃ keyword, (lex text).tokens[place]? = some keyword ∧
      Reading.declKind? keyword = some decl.kind ∧ decl.firstLine = keyword.line)
      places (Outline.ofModule text).declarations := by
  refine ⟨(sites (lex text).tokens).map (·.before.length),
    List.pairwise_map.mpr (pairwise_sitesFrom {} _).2, ?_⟩
  rw [List.forall₂_map_left_iff]
  refine (forall₂_sites text).imp fun site decl ⟨⟨after, htokens, hheader⟩, hheading⟩ => ?_
  have hkind : decl.kind = site.kind := congrArg Declaration.kind hheading
  have hline : decl.firstLine = site.keyword.line := congrArg Declaration.firstLine hheading
  refine ⟨site.keyword, ?_, ?_, hline⟩
  · rw [← htokens, List.getElem?_append_right (by simp)]
    simp
  · rw [hkind]
    exact (Reading.header?_eq_some_iff.mp hheader).1

/-- The lines of a module that has been read to its end. -/
theorem ranged_read (text : String) :
    ((Reading.readSegments (lex text).comments [] {} (segments (lex text).tokens)).close
      (max (lineCount text) 1)).Ranged (max 1 (lineCount text)) (max 1 (lineCount text)) := by
  have lined : Lined (max 1 (lineCount text)) 1 ((segments (lex text).tokens).flatMap Segment.tokens) := by
    rw [flatMap_tokens_segments]
    exact lined_lex text
  obtain ⟨floor, ranged⟩ := (Reading.Ranged.start (Nat.le_max_left 1 (lineCount text))).readSegments
    (lex text).comments [] lined (fun _ _ _ _ h => kind_of_mem_segments h)
  exact ranged.close (Nat.le_of_eq (Nat.max_comm _ _)) ranged.floor_le (Nat.le_refl _)

/-- **Declarations stand in their text in order**, whatever the text is. -/
theorem standsIn_ofModule (text : String) : (Outline.ofModule text).StandsIn text := by
  let read := Reading.readSegments (lex text).comments [] {} (segments (lex text).tokens)
  have hread : Reading.readFrom (lex text).comments [] {} (lex text).tokens = read :=
    Reading.readFrom_eq_readSegments _ _ _ _
  have closed := ranged_read text
  -- When all has been read and the last declaration has ended, those that have begun are those there are.
  have attributed : (read.close (max (lineCount text) 1)).Attributed :=
    (Reading.Attributed.start.readSegments (lex text).comments [] _).close _
  have hnamed : ∀ name ∈ (read.close (max (lineCount text) 1)).begun.map (·.name),
      ∃ decl ∈ (read.close (max (lineCount text) 1)).declarations, decl.name = name := by
    rw [Reading.begun_close]
    exact fun name hname => List.mem_map.mp hname
  have keywords := exists_keywords text
  simp only [Outline.ofModule, hread] at keywords ⊢
  refine ⟨?lines, closed.apart, keywords, ?complexity, ?callers, ?mentioners⟩
  case lines =>
    intro decl hdecl
    obtain ⟨hfirst, hordered, hlast, -⟩ := closed.closed decl hdecl
    exact ⟨hfirst, hordered, hlast⟩
  case complexity =>
    intro decl hdecl
    obtain ⟨-, -, -, hcomplexity⟩ := closed.closed decl hdecl
    exact hcomplexity
  case callers =>
    intro call hcall name hname
    exact hnamed name (attributed.calls call hcall name hname)
  case mentioners =>
    intro mention hmention name hname
    exact hnamed name (attributed.mentions mention hmention name hname)

/-- Where ends are missing, a declaration ends before the next header, but not before its own. -/
example : ((Outline.ofModule "Procedure F()\n\nProcedure G() Procedure H()\nEndProcedure\n\n").declarations.map
    fun decl => (decl.firstLine, decl.lastLine)) = [(1, 2), (3, 3), (3, 4)] := by
  decide +kernel

end Source

end CodeAtlas
