import CodeAtlas.Parsing.Analyzer
import CodeAtlas.Proofs.Source.Ranges

/-!
# Decisions, estimated and measured

The decisions in a declaration are counted twice. The estimate is made while the module is read, and counts
the tokens from the header to the one that ends the declaration. The measurement comes later; it knows more
keywords, and it takes all tokens that are recorded under the lines of the declaration.

So the measurement counts whatever the estimate counts, as long as the lines of a declaration cover the
tokens in it (`Stretch`). They do, unless the declaration is cut off by the header of the next one: it ends on
the line before that header then, though there may be more of it in front of the header itself. What decides
there is lost to the measurement, and it reports less than the estimate exactly if that is more than what it
counts besides (`complexity_le_cyclomatic_iff`).
-/

set_option autoImplicit false

namespace CodeAtlas

/-- The lines of a declaration and the estimate of its decisions. -/
def Declaration.extent (decl : Declaration) : Nat × Nat × Nat := (decl.firstLine, decl.lastLine, decl.complexity)

namespace Source

open Text

/-! ## Deciding tokens -/

namespace Keyword

/-- The keywords that the estimate counts. -/
def branches : Keyword → Bool
  | .if | .elsIf | .while | .for => true
  | _ => false

/-- The keywords that the measurement counts. -/
def decides : Keyword → Bool
  | .except | .and | .or => true
  | keyword => keyword.branches

theorem decides_of_branches {keyword : Keyword} (h : keyword.branches = true) : keyword.decides = true := by
  cases keyword <;> simp_all [branches, decides]

end Keyword

/-- Whether a token decides, given the keywords that do. A question mark does so before a parenthesis. -/
def Token.decides (counts : Keyword → Bool) (token : Token) (next : Option Token) : Bool :=
  match token.kind with
  | .ident => token.keyword?.any counts
  | .punct '?' => next.any (·.isPunct '(')
  | _ => false

/-- How many of the tokens decide. -/
def decisions (counts : Keyword → Bool) : List Token → Nat
  | [] => 0
  | token :: rest => (token.decides counts rest.head?).toNat + decisions counts rest

section Counting

variable {counts counts' : Keyword → Bool} {token : Token} {tokens tokens' : List Token}

theorem decides_none_le (counts : Keyword → Bool) (token : Token) (next : Option Token) :
    (token.decides counts none).toNat ≤ (token.decides counts next).toNat := by
  unfold Token.decides
  split
  · exact Nat.le_refl _
  · exact Nat.zero_le _
  · exact Nat.le_refl _

theorem decisions_le_length (counts : Keyword → Bool) (tokens : List Token) :
    decisions counts tokens ≤ tokens.length := by
  induction tokens with
  | nil => exact Nat.le_refl _
  | cons token rest ih =>
    rw [decisions, List.length_cons, Nat.add_comm]
    exact Nat.add_le_add ih (Bool.toNat_le _)

/-- What follows can only add to the decisions. -/
theorem decisions_append_le (counts : Keyword → Bool) (tokens tokens' : List Token) :
    decisions counts tokens + decisions counts tokens' ≤ decisions counts (tokens ++ tokens') := by
  induction tokens with
  | nil => simp [decisions]
  | cons token rest ih =>
    have hnext : (token.decides counts rest.head?).toNat ≤
        (token.decides counts (rest ++ tokens').head?).toNat := by
      cases rest with
      | nil => exact decides_none_le counts token _
      | cons next rest => exact Nat.le_refl _
    simp only [List.cons_append, decisions]
    omega

theorem decides_mono (h : ∀ {keyword}, counts keyword = true → counts' keyword = true) (token : Token)
    (next : Option Token) (hdecides : token.decides counts next = true) : token.decides counts' next = true := by
  unfold Token.decides at hdecides ⊢
  split at hdecides
  · cases hkeyword : token.keyword? with
    | none => simp [hkeyword] at hdecides
    | some keyword =>
      simp only [hkeyword, Option.any_some] at hdecides ⊢
      exact h hdecides
  · exact hdecides
  · cases hdecides

theorem decisions_mono (h : ∀ {keyword}, counts keyword = true → counts' keyword = true) (tokens : List Token) :
    decisions counts tokens ≤ decisions counts' tokens := by
  induction tokens with
  | nil => exact Nat.le_refl _
  | cons token rest ih =>
    have hfirst : (token.decides counts rest.head?).toNat ≤ (token.decides counts' rest.head?).toNat := by
      cases hdecides : token.decides counts rest.head? with
      | false => exact Nat.zero_le _
      | true => rw [decides_mono h token _ hdecides]
    simp only [decisions]
    omega

theorem decisions_dates {dates : List Token} (h : ∀ date ∈ dates, date.kind = .date) :
    decisions counts dates = 0 := by
  induction dates with
  | nil => rfl
  | cons date rest ih =>
    obtain ⟨hkind, hrest⟩ := List.forall_mem_cons.mp h
    simp [decisions, Token.decides, hkind, ih hrest]

/-- Dates decide nothing, and nothing decides because of them. -/
theorem decisions_append_dates (counts : Keyword → Bool) (tokens : List Token) {dates : List Token}
    (h : ∀ date ∈ dates, date.kind = .date) : decisions counts (tokens ++ dates) = decisions counts tokens := by
  induction tokens with
  | nil => exact decisions_dates h
  | cons token rest ih =>
    have hnext : token.decides counts (rest ++ dates).head? = token.decides counts rest.head? := by
      cases rest with
      | cons next rest => rfl
      | nil =>
        unfold Token.decides
        split
        · rfl
        · cases dates with
          | nil => rfl
          | cons date dates => simp [Token.isPunct, h date List.mem_cons_self]
        · rfl
    rw [List.cons_append, decisions, decisions, ih, hnext]

end Counting

/-! ## Where declarations end -/

/-- What ends a declaration, and where. -/
structure Ending where
  /-- The tokens in front of it. -/
  inside : List Token
  /-- The keyword of the next header, if this is what cuts the declaration off. -/
  cut : Option Token
  line : Nat

/-- What ends a declaration whose header is followed by the given segments. If nothing does, it goes to the
last line of the text. -/
def ending (last : Nat) : List Segment → Ending
  | [] => ⟨[], none, last⟩
  | .single token :: rest =>
    if token.endsDeclaration then ⟨[], none, token.line⟩
    else { ending last rest with inside := token :: (ending last rest).inside }
  | .header keyword _ _ _ :: _ => ⟨[], some keyword, keyword.line - 1⟩

/-- A declaration among the tokens, from its keyword to its end. -/
structure Stretch extends Ending where
  keyword : Token

/-- The stretches of the declarations among segments. -/
def stretchesFrom (last : Nat) : List Segment → List Stretch
  | [] => []
  | .single _ :: rest => stretchesFrom last rest
  | .header keyword _ _ _ :: rest => { ending last rest with keyword } :: stretchesFrom last rest

/-- The stretches of the declarations of a module. -/
def stretches (text : String) : List Stretch :=
  stretchesFrom (max (lineCount text) 1) (segments (lex text).tokens)

namespace Stretch

/-- A declaration does not end before its first line. -/
def lastLine (stretch : Stretch) : Nat := max stretch.line stretch.keyword.line

/-- Where a stretch is. -/
def In (stretch : Stretch) (tokens : List Token) : Prop :=
  ∃ before header behind, tokens = before ++ (stretch.keyword :: header) ++ stretch.inside ++ behind

/-- The tokens inside that stand on the lines of the declaration. -/
def covered (stretch : Stretch) : List Token := stretch.inside.takeWhile (·.line ≤ stretch.lastLine)

/-- The decisions that the estimate counts and that the lines of the declaration do not cover. -/
def lost (stretch : Stretch) : Nat :=
  decisions Keyword.branches stretch.inside - decisions Keyword.branches stretch.covered

/-- The decisions on the lines of the declaration besides those inside that the estimate counts. -/
def surplus (tokens : List Token) (stretch : Stretch) : Nat :=
  decisions Keyword.decides
      (tokens.filter fun t => stretch.keyword.line ≤ t.line && t.line ≤ stretch.lastLine) -
    decisions Keyword.branches stretch.covered

end Stretch

theorem inside_ending_isPrefix (last : Nat) (segs : List Segment) :
    (ending last segs).inside <+: segs.flatMap Segment.tokens := by
  induction segs with
  | nil => exact List.prefix_refl _
  | cons seg rest ih =>
    cases seg with
    | header keyword kind header taken => exact List.nil_prefix
    | single token =>
      rw [ending]
      split
      · exact List.nil_prefix
      · exact List.prefix_cons_inj token |>.mpr ih

theorem in_of_mem_stretchesFrom {last : Nat} {segs : List Segment} {stretch : Stretch}
    (h : stretch ∈ stretchesFrom last segs) : stretch.In (segs.flatMap Segment.tokens) := by
  induction segs with
  | nil => cases h
  | cons seg rest ih =>
    have behind : ∀ front, stretch.In (rest.flatMap Segment.tokens) →
        stretch.In (front ++ rest.flatMap Segment.tokens) := by
      rintro front ⟨before, header, behind, htokens⟩
      exact ⟨front ++ before, header, behind, by simp [htokens]⟩
    cases seg with
    | single token => exact behind [token] (ih h)
    | header keyword kind header taken =>
      rcases List.mem_cons.mp h with rfl | h
      · obtain ⟨left, hleft⟩ := inside_ending_isPrefix last rest
        exact ⟨[], taken, left, by simp [Segment.tokens, hleft]⟩
      · exact behind (keyword :: taken) (ih h)

/-- A declaration that is not cut off ends no earlier than any line that no token behind its header is before. -/
theorem le_line_ending {last line : Nat} {segs : List Segment} (hcut : (ending last segs).cut = none)
    (hlast : line ≤ last) (above : ∀ token ∈ segs.flatMap Segment.tokens, line ≤ token.line) :
    line ≤ (ending last segs).line := by
  induction segs with
  | nil => exact hlast
  | cons seg rest ih =>
    cases seg with
    | header keyword kind header taken => cases hcut
    | single token =>
      obtain ⟨hfirst, hrest⟩ := List.forall_mem_cons.mp above
      rw [ending] at hcut ⊢
      split
      · exact hfirst
      · rename_i hends
        rw [if_neg hends] at hcut
        exact ih hcut hrest

/-- Whatever stands in a declaration that is not cut off comes no later than its end. Only the line of a date
can be wrong. -/
theorem line_le_ending {last : Nat} {segs : List Segment} (hcut : (ending last segs).cut = none)
    (sorted : (segs.flatMap Segment.tokens).Pairwise (·.line ≤ ·.line))
    (within : ∀ token ∈ segs.flatMap Segment.tokens, token.kind ≠ .date → token.line ≤ last) :
    ∀ token ∈ (ending last segs).inside, token.kind ≠ .date → token.line ≤ (ending last segs).line := by
  induction segs with
  | nil => simp [ending]
  | cons seg rest ih =>
    cases seg with
    | header keyword kind header taken => cases hcut
    | single token =>
      obtain ⟨hfirst, hsorted⟩ := List.pairwise_cons.mp sorted
      obtain ⟨htoken, hwithin⟩ := List.forall_mem_cons.mp within
      rw [ending] at hcut ⊢
      split
      · simp
      · rename_i hends
        rw [if_neg hends] at hcut
        have hbound : token.kind ≠ .date → token.line ≤ (ending last rest).line := by
          intro hkind
          exact le_line_ending hcut (htoken hkind) hfirst
        exact List.forall_mem_cons.mpr ⟨hbound, ih hcut hsorted hwithin⟩

/-! ## The estimate -/

/-- The extent of a declaration of which only the ending is still to be read. -/
def Ending.extent (e : Ending) (firstLine complexity : Nat) : Nat × Nat × Nat :=
  (firstLine, max e.line firstLine, complexity + decisions Keyword.branches e.inside)

namespace Reading

variable {r : Reading}

/-- The first line and the estimate so far of the open declaration. -/
def size (r : Reading) : Option (Nat × Nat) :=
  r.current.map fun opened => (opened.decl.firstLine, opened.decl.complexity)

/-- A size with more decisions. -/
def grown (more : Nat) (size : Nat × Nat) : Nat × Nat := (size.1, size.2 + more)

theorem map_grown_zero (size : Option (Nat × Nat)) : size.map (grown 0) = size := by
  cases size <;> rfl

@[simp] theorem size_addLocal (word : String) : (r.addLocal word).size = r.size := by
  simp [size, addLocal, Function.comp_def]

@[simp] theorem size_addDecision : r.addDecision.size = r.size.map (grown 1) := by
  simp [size, addDecision, grown, Function.comp_def]

@[simp] theorem size_addMention (kind : MetadataKind) (name : String) (line : Nat) :
    (r.addMention kind name line).size = r.size := rfl

@[simp] theorem size_addCall (callee : String) (qualifier : Option String) (line : Nat) :
    (r.addCall callee qualifier line).size = r.size := rfl

@[simp] theorem size_queryText (token : Token) : (r.queryText token).size = r.size := by
  unfold queryText
  generalize QueryText.mentions token.text.toList = found
  induction found generalizing r with
  | nil => rfl
  | cons first rest ih => exact ih

@[simp] theorem size_loopVariable (after : List Token) : (r.loopVariable after).size = r.size := by
  unfold loopVariable
  dsimp only
  split
  · split
    · exact size_addLocal _
    · rfl
  · rfl

@[simp] theorem size_identifier (token : Token) (word : String) (around : Around) :
    (r.identifier token word around).size = r.size := by
  unfold identifier
  split
  · exact size_addLocal word
  · split
    · rfl
    · split
      · exact size_addLocal word
      · split
        · rfl
        · split <;> rfl

theorem size_keyword {keyword : Keyword} (hprocedure : keyword ≠ .endProcedure)
    (hfunction : keyword ≠ .endFunction) (token : Token) (after : List Token) :
    (r.keyword token after keyword).size = r.size.map (grown keyword.branches.toNat) := by
  cases keyword with
  | endProcedure => exact absurd rfl hprocedure
  | endFunction => exact absurd rfl hfunction
  | «if» | elsIf | «while» => exact size_addDecision
  | «for» => exact (size_loopVariable after).trans size_addDecision
  | _ => exact (map_grown_zero r.size).symm

/-- A question mark decides where a bracket follows, and no other punctuation decides anything. -/
theorem size_punct {token : Token} {c : Char} (hkind : token.kind = .punct c) (around : Around) :
    (r.token token around).size =
      r.size.map (grown (token.decides Keyword.branches around.after.head?).toNat) := by
  by_cases hquestion : c = '?'
  · subst hquestion
    rw [Reading.token, Token.decides, hkind]
    show Reading.size (if around.followedBy '(' then r.addDecision else r) = _
    cases hnext : around.followedBy '(' with
    | true =>
      have hdecides : around.after.head?.any (·.isPunct '(') = true := hnext
      simp [hdecides]
    | false =>
      have hdecides : around.after.head?.any (·.isPunct '(') = false := hnext
      simp [hdecides, map_grown_zero]
  · have hdecides : token.decides Keyword.branches around.after.head? = false := by
      rw [Token.decides, hkind]
      split
      · contradiction
      · rename_i heq
        exact absurd (TokenKind.punct.inj heq) hquestion
      · rfl
    rw [hdecides, Reading.token, hkind]
    split
    · contradiction
    · rename_i heq
      exact absurd (TokenKind.punct.inj heq) hquestion
    · exact (map_grown_zero r.size).symm
    · contradiction
    · exact (map_grown_zero r.size).symm

/-- A token that ends no declaration adds to the estimate what it decides. -/
theorem size_single {token : Token} (h : token.endsDeclaration = false) (around : Around) :
    (r.single token around).size =
      r.size.map (grown (token.decides Keyword.branches around.after.head?).toNat) := by
  by_cases hpreproc : token.kind = .preproc
  · rw [single_eq_preproc hpreproc, preproc_eq, Token.decides, hpreproc]
    exact (map_grown_zero r.size).symm
  by_cases hdirective : token.kind = .directive
  · rw [single_eq_directive hdirective, Token.decides, hdirective, directive]
    split <;> exact (map_grown_zero r.size).symm
  rw [single_eq_token hpreproc hdirective]
  cases hkind : token.kind with
  | preproc => exact absurd hkind hpreproc
  | directive => exact absurd hkind hdirective
  | str =>
    rw [Reading.token, Token.decides, hkind]
    exact (size_queryText token).trans (map_grown_zero r.size).symm
  | number | date =>
    rw [Reading.token, Token.decides, hkind]
    exact (map_grown_zero r.size).symm
  | punct c =>
    exact size_punct hkind around
  | ident =>
    have hends := Bool.or_eq_false_iff.mp h
    rw [Reading.token, Token.decides, hkind]
    dsimp only
    cases hkeyword : token.keyword? with
    | none =>
      rw [Token.keyword?] at hkeyword
      rw [hkeyword]
      exact (size_identifier token _ around).trans (map_grown_zero r.size).symm
    | some keyword =>
      have hnot : ∀ k, token.isKeyword k = false → keyword ≠ k := by
        intro k hk heq
        rw [Token.isKeyword_iff.mpr ⟨hkind, heq ▸ hkeyword⟩] at hk
        cases hk
      rw [Token.keyword?] at hkeyword
      rw [hkeyword]
      exact size_keyword (hnot _ hends.1) (hnot _ hends.2) token around.after

theorem map_extent_close (r : Reading) (line : Nat) :
    (r.close line).declarations.map Declaration.extent = r.declarations.map Declaration.extent ++
      (r.size.map fun size => (size.1, max line size.1, size.2)).toList := by
  unfold close size
  cases r.current with
  | none => simp
  | some opened => simp [Declaration.extent]

theorem size_close (r : Reading) (line : Nat) : (r.close line).size = none := by
  rw [size, current_close, Option.map_none]

theorem size_openWith (comments : List Comment) (keyword : Token) (kind : DeclKind) (header : Header)
    (lastLine : Nat) : (r.openWith comments keyword kind header lastLine).size = some (keyword.line, 1) := rfl

end Reading

/-- What follows a token in a declaration is what follows it in the text, as far as deciding is concerned: what
ends a declaration is no parenthesis. -/
theorem decides_ending (last : Nat) {segs : List Segment} (idents : ∀ keyword kind header taken,
      Segment.header keyword kind header taken ∈ segs → keyword.kind = .ident)
    (counts : Keyword → Bool) (token : Token) :
    token.decides counts (ending last segs).inside.head? =
      token.decides counts (segs.flatMap Segment.tokens).head? := by
  have hident : ∀ next : Token, next.kind = .ident →
      token.decides counts none = token.decides counts (some next) := by
    intro next hnext
    unfold Token.decides
    split <;> simp [Token.isPunct, hnext]
  cases segs with
  | nil => rfl
  | cons seg rest =>
    cases seg with
    | header keyword kind header taken => exact hident keyword (idents keyword kind header taken List.mem_cons_self)
    | single next =>
      rw [ending]
      split
      · rename_i hends
        exact hident next (Token.kind_of_endsDeclaration hends)
      · rfl

/-- The extent of a stretch. -/
def Stretch.extent (stretch : Stretch) : Nat × Nat × Nat := stretch.toEnding.extent stretch.keyword.line 1

/-- Reading on ends the open declaration at its ending, and gives every stretch that is left its declaration. -/
theorem map_extent_readSegments (comments : List Comment) (before : List Token) (r : Reading) (last : Nat)
    {segs : List Segment} (idents : ∀ keyword kind header taken,
      Segment.header keyword kind header taken ∈ segs → keyword.kind = .ident) :
    ((Reading.readSegments comments before r segs).close last).declarations.map Declaration.extent =
      r.declarations.map Declaration.extent ++
        (r.size.map fun size => (ending last segs).extent size.1 size.2).toList ++
        (stretchesFrom last segs).map Stretch.extent := by
  -- By induction over the segments: a token of the open declaration moves one decision from its ending to its
  -- size, and a header closes the declaration before it.
  induction segs generalizing before r with
  | nil => simp [Reading.readSegments, Reading.map_extent_close, ending, Ending.extent, stretchesFrom, decisions]
  | cons seg rest ih =>
    have hidents : ∀ keyword kind header taken, Segment.header keyword kind header taken ∈ rest →
        keyword.kind = .ident :=
      fun keyword kind header taken h => idents keyword kind header taken (List.mem_cons_of_mem seg h)
    cases seg with
    | single token =>
      rw [Reading.readSegments, ih _ _ hidents, stretchesFrom, ending]
      rcases Reading.single_cases r token ⟨before, rest.flatMap Segment.tokens⟩ with
        ⟨hends, hstays⟩ | ⟨hends, hclose⟩
      · rw [hstays.declarations, Reading.size_single hends, ← decides_ending last hidents, Option.map_map]
        simp [hends, Function.comp_def, Reading.grown, Ending.extent, decisions, Nat.add_assoc]
      · have hsize : Reading.size
            { r.close token.line with lastCodeLine := token.line, atBodyStart := false } = none :=
          Reading.size_close r token.line
        rw [hclose, hsize]
        simp [hends, Reading.map_extent_close, Ending.extent, decisions]
    | header keyword kind header taken =>
      have hdeclarations : ∀ lastLine, (r.openWith comments keyword kind header lastLine).declarations =
          (r.close (keyword.line - 1)).declarations := fun _ => rfl
      rw [Reading.readSegments, ih _ _ hidents, hdeclarations, Reading.size_openWith, Reading.map_extent_close,
        stretchesFrom, ending]
      simp [Ending.extent, Stretch.extent, decisions]

/-- Every stretch has its declaration, with its lines and the decisions inside. -/
theorem map_extent_ofModule (text : String) :
    (Outline.ofModule text).declarations.map Declaration.extent = (stretches text).map Stretch.extent := by
  show ((Reading.readFrom (lex text).comments [] {} (lex text).tokens).close _).declarations.map _ = _
  rw [Reading.readFrom_eq_readSegments, map_extent_readSegments _ _ _ _ fun _ _ _ _ h => kind_of_mem_segments h]
  rfl

/-! ## The measurement -/

namespace FlowCount

variable {f : FlowCount}

theorem decisions_keyword (f : FlowCount) (keyword : Keyword) :
    (f.keyword keyword).decisions = f.decisions + keyword.decides.toNat := by
  cases keyword <;> rfl

theorem blocks_keyword_le (f : FlowCount) (keyword : Keyword) :
    (f.keyword keyword).blocks ≤ f.blocks + 2 := by
  cases keyword <;> simp [FlowCount.keyword, enter, leave, addBlocks, addDecision]

/-- Every level entered is a block of its own. -/
structure Nested (f : FlowCount) : Prop where
  nesting : f.nesting < f.blocks
  maxNesting : f.maxNesting < f.blocks

theorem nested_start : Nested {} := ⟨Nat.one_pos, Nat.one_pos⟩

theorem Nested.keyword (nested : f.Nested) (keyword : Keyword) : (f.keyword keyword).Nested := by
  obtain ⟨hnesting, hmax⟩ := nested
  cases keyword <;> constructor <;> simp [FlowCount.keyword, enter, leave, addBlocks, addDecision] <;> omega

/-- What one token does to the count. -/
theorem count_cons (f : FlowCount) (token : Token) (rest : List Token) :
    ∃ next : FlowCount, f.count (token :: rest) = next.count rest ∧
      next.decisions = f.decisions + (token.decides Keyword.decides rest.head?).toNat ∧
      next.blocks ≤ f.blocks + 2 ∧ (f.Nested → next.Nested) := by
  rw [count, Token.decides]
  generalize token.kind = kind
  split
  · cases token.keyword? with
    | none => exact ⟨f, rfl, rfl, Nat.le_add_right _ _, id⟩
    | some keyword =>
      exact ⟨f.keyword keyword, rfl, decisions_keyword f keyword, blocks_keyword_le f keyword,
        (·.keyword keyword)⟩
  · split
    · rename_i hnext
      refine ⟨(f.addBlocks 2).addDecision, rfl, ?_, Nat.le_refl _, fun nested => ⟨?_, ?_⟩⟩
      · rw [hnext]
        rfl
      · exact Nat.lt_add_right 2 nested.nesting
      · exact Nat.lt_add_right 2 nested.maxNesting
    · rename_i hnext
      rw [Bool.not_eq_true] at hnext
      exact ⟨f, rfl, by rw [hnext]; rfl, Nat.le_add_right _ _, id⟩
  · exact ⟨f, rfl, by simp_all, Nat.le_add_right _ _, id⟩

theorem decisions_count (f : FlowCount) (tokens : List Token) :
    (f.count tokens).decisions = f.decisions + Source.decisions Keyword.decides tokens := by
  induction tokens generalizing f with
  | nil => rfl
  | cons token rest ih =>
    obtain ⟨next, hcount, hdecisions, -⟩ := count_cons f token rest
    rw [hcount, ih, hdecisions, Source.decisions, Nat.add_assoc]

theorem Nested.count (nested : f.Nested) (tokens : List Token) : (f.count tokens).Nested := by
  induction tokens generalizing f with
  | nil => exact nested
  | cons token rest ih =>
    obtain ⟨next, hcount, -, -, hnested⟩ := count_cons f token rest
    rw [hcount]
    exact ih (hnested nested)

theorem blocks_count_le (f : FlowCount) (tokens : List Token) :
    (f.count tokens).blocks ≤ f.blocks + 2 * tokens.length := by
  induction tokens generalizing f with
  | nil => exact Nat.le_refl _
  | cons token rest ih =>
    obtain ⟨next, hcount, -, hblocks, -⟩ := count_cons f token rest
    have hrest := ih next
    rw [hcount, List.length_cons]
    omega

end FlowCount

theorem takeWhile_line_eq_filter {tokens : List Token} (sorted : tokens.Pairwise (·.line ≤ ·.line)) (last : Nat) :
    tokens.takeWhile (·.line ≤ last) = tokens.filter (·.line ≤ last) := by
  induction tokens with
  | nil => rfl
  | cons token rest ih =>
    obtain ⟨hfirst, hsorted⟩ := List.pairwise_cons.mp sorted
    by_cases hline : token.line ≤ last
    · simp [hline, ih hsorted]
    · have hnone : rest.filter (fun t => decide (t.line ≤ last)) = [] := by
        rw [List.filter_eq_nil_iff]
        intro t ht
        have := hfirst t ht
        simp only [decide_eq_true_eq]
        omega
      simp [hline, hnone]

/-! ## Estimate and measurement compared -/

namespace Stretch

variable {stretch : Stretch} {tokens : List Token}

/-- The lines of a declaration hold what they cover of its inside, in one piece. -/
theorem covered_infix (h : stretch.In tokens) (sorted : tokens.Pairwise (·.line ≤ ·.line)) :
    stretch.covered <:+: tokens.filter fun t => stretch.keyword.line ≤ t.line && t.line ≤ stretch.lastLine := by
  obtain ⟨before, header, behind, rfl⟩ := h
  rw [List.append_assoc, List.append_assoc] at sorted
  have hstretch := (List.pairwise_append.mp sorted).2.1
  obtain ⟨hfirst, htail⟩ := List.pairwise_cons.mp hstretch
  have hinside := (List.pairwise_append.mp (List.pairwise_append.mp htail).2.1).1
  have hcovered : stretch.covered =
      stretch.inside.filter fun t => stretch.keyword.line ≤ t.line && t.line ≤ stretch.lastLine := by
    rw [covered, takeWhile_line_eq_filter hinside]
    refine List.filter_congr fun t ht => ?_
    have habove : stretch.keyword.line ≤ t.line := hfirst t (by simp [ht])
    simp [habove]
  rw [hcovered, List.filter_append, List.filter_append]
  exact ⟨_, _, rfl⟩

theorem decisions_covered_le_inside (stretch : Stretch) (counts : Keyword → Bool) :
    decisions counts stretch.covered ≤ decisions counts stretch.inside := by
  have happend := decisions_append_le counts stretch.covered (stretch.inside.dropWhile (·.line ≤ stretch.lastLine))
  rw [covered, List.takeWhile_append_dropWhile] at happend
  exact Nat.le_of_add_right_le happend

theorem decisions_covered_le_lines (h : stretch.In tokens) (sorted : tokens.Pairwise (·.line ≤ ·.line)) :
    decisions Keyword.branches stretch.covered ≤ decisions Keyword.decides
      (tokens.filter fun t => stretch.keyword.line ≤ t.line && t.line ≤ stretch.lastLine) := by
  obtain ⟨front, back, hlines⟩ := covered_infix h sorted
  have hmono := decisions_mono @Keyword.decides_of_branches stretch.covered
  have hfront := decisions_append_le Keyword.decides (front ++ stretch.covered) back
  have hcovered := decisions_append_le Keyword.decides front stretch.covered
  rw [hlines] at hfront
  omega

/-- A declaration that is not cut off loses nothing. -/
theorem lost_eq_zero (h : ∀ token ∈ stretch.inside, token.kind ≠ .date → token.line ≤ stretch.lastLine)
    (sorted : stretch.inside.Pairwise (·.line ≤ ·.line)) : stretch.lost = 0 := by
  have hdates : ∀ date ∈ stretch.inside.dropWhile (·.line ≤ stretch.lastLine), date.kind = .date := by
    intro date hdate
    by_contra hkind
    have hwithin := h date ((List.dropWhile_sublist _).mem hdate) hkind
    -- The first token that is not covered is past the last line, and no later one comes before it.
    cases hrest : stretch.inside.dropWhile (·.line ≤ stretch.lastLine) with
    | nil => simp [hrest] at hdate
    | cons first rest =>
      have hpast := List.head?_dropWhile_not (fun t : Token => decide (t.line ≤ stretch.lastLine)) stretch.inside
      have hsorted := sorted.sublist (List.dropWhile_sublist (fun t : Token => decide (t.line ≤ stretch.lastLine)))
      rw [hrest] at hpast hsorted hdate
      simp only [List.head?_cons, decide_eq_false_iff_not] at hpast
      rcases List.mem_cons.mp hdate with rfl | hdate
      · exact hpast hwithin
      · have := (List.pairwise_cons.mp hsorted).1 date hdate
        omega
  have hinside := decisions_append_dates Keyword.branches stretch.covered hdates
  rw [covered, List.takeWhile_append_dropWhile] at hinside
  rw [lost, covered, hinside, Nat.sub_self]

end Stretch

/-- How the estimate and the measurement of a declaration compare. -/
structure Stretch.Compares (tokens : List Token) (stretch : Stretch) (measured : Declaration × FlowMetrics) :
    Prop where
  place : stretch.In tokens
  firstLine : measured.1.firstLine = stretch.keyword.line
  lastLine : measured.1.lastLine = stretch.lastLine
  complexity : measured.1.complexity = 1 + decisions Keyword.branches stretch.inside
  /-- A declaration that is not cut off is never measured lower than it was estimated. -/
  uncut : stretch.cut = none → measured.1.complexity ≤ measured.2.cyclomatic
  /-- One that is ends on the line before the header that does it. -/
  cutLine : ∀ next, stretch.cut = some next → stretch.line = next.line - 1
  /-- It is measured lower exactly if it loses more than is counted besides. -/
  balance : measured.1.complexity ≤ measured.2.cyclomatic ↔ stretch.lost ≤ stretch.surplus tokens
  edges : measured.2.edges + 2 = measured.2.blocks + measured.2.cyclomatic
  maxNesting : measured.2.maxNesting + 1 ≤ measured.2.blocks

theorem line_of_cut {last : Nat} {segs : List Segment} {next : Token} (h : (ending last segs).cut = some next) :
    (ending last segs).line = next.line - 1 := by
  induction segs with
  | nil => cases h
  | cons seg rest ih =>
    cases seg with
    | header keyword kind header taken =>
      cases h
      rfl
    | single token =>
      rw [ending] at h ⊢
      split at h
      · cases h
      · rename_i hends
        rw [if_neg hends]
        exact ih h

/-- Every stretch is what its ending says. -/
theorem exists_ending {last : Nat} {segs : List Segment} {stretch : Stretch}
    (h : stretch ∈ stretchesFrom last segs) : ∃ rest, rest <:+ segs ∧ stretch.toEnding = ending last rest := by
  induction segs with
  | nil => cases h
  | cons seg rest ih =>
    have behind : stretch ∈ stretchesFrom last rest →
        ∃ left, left <:+ seg :: rest ∧ stretch.toEnding = ending last left := by
      intro hmem
      obtain ⟨left, hleft, hending⟩ := ih hmem
      exact ⟨left, hleft.trans (List.suffix_cons seg rest), hending⟩
    cases seg with
    | single token => exact behind h
    | header keyword kind header taken =>
      rcases List.mem_cons.mp h with rfl | h
      · exact ⟨rest, List.suffix_cons _ rest, rfl⟩
      · exact behind h

theorem lost_eq_zero_of_uncut {text : String} {stretch : Stretch} (h : stretch ∈ stretches text)
    (hcut : stretch.cut = none) : stretch.lost = 0 := by
  obtain ⟨rest, ⟨front, hfront⟩, hending⟩ := exists_ending h
  have htokens : (front ++ rest).flatMap Segment.tokens = (lex text).tokens := by
    rw [hfront, flatMap_tokens_segments]
  rw [List.flatMap_append] at htokens
  have hsorted : (rest.flatMap Segment.tokens).Pairwise (·.line ≤ ·.line) :=
    (List.pairwise_append.mp (htokens ▸ pairwise_line_lex text)).2.1
  have hwithin : ∀ token ∈ rest.flatMap Segment.tokens, token.kind ≠ .date →
      token.line ≤ max (lineCount text) 1 := by
    intro token htoken hkind
    have hmem : token ∈ (lex text).tokens := htokens ▸ List.mem_append_right _ htoken
    exact Nat.le_trans (line_le_lineCount hmem hkind) (Nat.le_max_left _ _)
  apply Stretch.lost_eq_zero
  · intro token htoken hkind
    rw [hending] at hcut htoken
    have hline := line_le_ending hcut hsorted hwithin token htoken hkind
    rw [Stretch.lastLine, hending]
    exact Nat.le_trans hline (Nat.le_max_left _ _)
  · rw [hending]
    exact hsorted.sublist (inside_ending_isPrefix _ rest).sublist

/-- The measurement of one declaration. -/
def flowOf (tokens : List Token) (decl : Declaration) : FlowMetrics :=
  (FlowCount.count {} (bodyTokens tokens decl)).metrics

theorem cyclomatic_flowOf (tokens : List Token) (decl : Declaration) :
    (flowOf tokens decl).cyclomatic = 1 + decisions Keyword.decides (bodyTokens tokens decl) := by
  show (FlowCount.count {} _).decisions + 1 = _
  rw [FlowCount.decisions_count, Nat.zero_add, Nat.add_comm]

theorem edges_flowOf (tokens : List Token) (decl : Declaration) :
    (flowOf tokens decl).edges + 2 = (flowOf tokens decl).blocks + (flowOf tokens decl).cyclomatic := by
  have hblocks := (FlowCount.nested_start.count (bodyTokens tokens decl)).nesting
  show (FlowCount.count {} _).blocks + (FlowCount.count {} _).decisions - 1 + 2 =
    (FlowCount.count {} _).blocks + ((FlowCount.count {} _).decisions + 1)
  omega

/-- A stretch and its declaration, measured. -/
theorem Stretch.compares_flowOf {text : String} {stretch : Stretch} {decl : Declaration}
    (hmem : stretch ∈ stretches text) (hextent : decl.extent = stretch.extent) :
    stretch.Compares (lex text).tokens (decl, flowOf (lex text).tokens decl) := by
  obtain ⟨hfirst, hlast, hcomplexity⟩ : decl.firstLine = stretch.keyword.line ∧
      decl.lastLine = stretch.lastLine ∧ decl.complexity = 1 + decisions Keyword.branches stretch.inside := by
    simpa [Declaration.extent, Stretch.extent, Ending.extent, Stretch.lastLine] using hextent
  have hplace : stretch.In (lex text).tokens := by
    have hin := in_of_mem_stretchesFrom hmem
    rwa [flatMap_tokens_segments] at hin
  have hbody : bodyTokens (lex text).tokens decl =
      (lex text).tokens.filter fun t => stretch.keyword.line ≤ t.line && t.line ≤ stretch.lastLine := by
    rw [bodyTokens, hfirst, hlast]
  have hbalance : decl.complexity ≤ (flowOf (lex text).tokens decl).cyclomatic ↔
      stretch.lost ≤ stretch.surplus (lex text).tokens := by
    have hlines := Stretch.decisions_covered_le_lines hplace (pairwise_line_lex text)
    have hinside := stretch.decisions_covered_le_inside Keyword.branches
    rw [hcomplexity, cyclomatic_flowOf, hbody, Stretch.lost, Stretch.surplus]
    omega
  refine ⟨hplace, hfirst, hlast, hcomplexity, ?uncut, ?cutLine, hbalance, edges_flowOf _ decl, ?maxNesting⟩
  case uncut =>
    intro hcut
    rw [hbalance, lost_eq_zero_of_uncut hmem hcut]
    exact Nat.zero_le _
  case cutLine =>
    intro next hcut
    obtain ⟨rest, -, hending⟩ := exists_ending hmem
    rw [hending] at hcut ⊢
    exact line_of_cut hcut
  case maxNesting => exact (FlowCount.nested_start.count (bodyTokens (lex text).tokens decl)).maxNesting

theorem forall₂_stretches (text : String) :
    List.Forall₂ (fun stretch decl => stretch ∈ stretches text ∧ decl.extent = stretch.extent)
      (stretches text) (Outline.ofModule text).declarations := by
  have hextents : List.Forall₂ (fun stretch decl => decl.extent = Stretch.extent stretch)
      (stretches text) (Outline.ofModule text).declarations := by
    have heq : List.Forall₂ (· = ·) ((stretches text).map Stretch.extent)
        ((Outline.ofModule text).declarations.map Declaration.extent) := by
      rw [List.forall₂_eq_eq_eq, ← map_extent_ofModule]
    rw [List.forall₂_map_left_iff, List.forall₂_map_right_iff] at heq
    exact heq.imp fun _ _ h => h.symm
  exact (List.forall₂_and_left _ _).mpr ⟨fun _ h => h, hextents⟩

/-- **When the measurement reports less than the estimate.** The analyzer measures the declarations of every
module, one after the other. A declaration that no header cuts off is never measured lower than it was
estimated; any other is exactly if the decisions in front of that header outnumber those that only the
measurement counts. Edges follow from blocks and complexity, and there are more blocks than levels. -/
theorem complexity_le_cyclomatic_iff (text : String) :
    ∃ flows, Analyzer.blockStructure.analyze text (Outline.ofModule text).declarations = .measured flows ∧
      flows.length = (Outline.ofModule text).declarations.length ∧
      List.Forall₂ (Stretch.Compares (lex text).tokens) (stretches text)
        ((Outline.ofModule text).declarations.zip flows) := by
  refine ⟨(Outline.ofModule text).declarations.map (flowOf (lex text).tokens), rfl, List.length_map _, ?_⟩
  rw [← List.map_prod_left_eq_zip, List.forall₂_map_right_iff]
  exact (forall₂_stretches text).imp fun _ _ h => Stretch.compares_flowOf h.1 h.2

/-- **A decision in front of the next header is lost**: the second line is not the first declaration's. -/
theorem cut_off_is_measured_lower :
    let text := "Procedure A()\nIf X Then Procedure B()\nEndProcedure\n"
    (Outline.ofModule text).declarations.map (·.complexity) = [2, 1] ∧
      (measureFlow text (Outline.ofModule text).declarations).map (·.cyclomatic) = [1, 2] := by
  decide +kernel

end Source

end CodeAtlas
