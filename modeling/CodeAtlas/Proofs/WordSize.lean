import CodeAtlas.Parsing.Parser
import CodeAtlas.Proofs.Resume
import CodeAtlas.Proofs.Source.Decisions
import CodeAtlas.Proofs.Source.Mentions

/-!
# Numbers that fit

Lines and counts are natural numbers here, and 32-bit words in an outline that is stored. For the texts
there are this is no difference: a line break, a token and a decision each take a character, so that
nothing that is counted in a text comes to more than three times its length (`fits_ofModule`). Outlines that
come of parsing such texts have the lines that resuming asks for (`linesFit_of_short`).
-/

set_option autoImplicit false

namespace CodeAtlas

open Text Source

/-- A text so short that nothing counted in it exceeds a 32-bit word. -/
def IsShort (text : String) : Prop := 3 * text.length + 1 < UInt32.size

/-- The numbers of a measurement are 32-bit words. Edges are counted from the sum of the two other counts. -/
structure FlowMetrics.Fits (flow : FlowMetrics) : Prop where
  cyclomatic : flow.cyclomatic < UInt32.size
  blocks : flow.blocks < UInt32.size
  edges : flow.edges + 1 < UInt32.size
  maxNesting : flow.maxNesting < UInt32.size

/-- The numbers of an outline are 32-bit words. -/
structure Outline.Fits (outline : Outline) : Prop where
  lines : ∀ decl ∈ outline.declarations, decl.firstLine < UInt32.size ∧ decl.lastLine < UInt32.size
  /-- The number of lines of a declaration does not wrap around. -/
  loc_eq : ∀ decl ∈ outline.declarations, decl.loc = decl.lastLine - decl.firstLine + 1
  complexity : ∀ decl ∈ outline.declarations, decl.complexity < UInt32.size
  calls : ∀ call ∈ outline.calls, call.line < UInt32.size
  mentions : ∀ mention ∈ outline.mentions, mention.line < UInt32.size
  loc : outline.loc < UInt32.size

namespace Source

variable {text : String}

/-! ## Tokens and lines -/

theorem length_linesOfChars_le (cs : List Char) : (linesOfChars cs).length ≤ cs.length := by
  induction cs with
  | nil => exact Nat.le_refl 0
  | cons c cs ih =>
    rw [length_linesOfChars_cons, List.length_cons]
    split
    · exact Nat.succ_le_succ ih
    · exact Nat.max_le.mpr ⟨Nat.le_add_left 1 _, Nat.le_succ_of_le ih⟩

theorem lineCount_le (text : String) : lineCount text ≤ text.length := by
  rw [← String.length_toList]
  exact length_linesOfChars_le text.toList

theorem filledLineCount_le (text : String) : filledLineCount text ≤ text.length :=
  Nat.le_trans (List.length_filter_le _ _) (lineCount_le text)

/-- A lexeme covers no more line breaks than it takes characters off. -/
theorem Lexeme.breaks_add_length_rest_le (c : Char) (cs : List Char) :
    (next c cs).breaks + (next c cs).rest.length ≤ cs.length + 1 := by
  have hbreaks : (next c cs).breaks ≤ (span c cs).length := by
    rw [(covers_span c cs).breaks]
    exact List.count_le_length
  have hlength := congrArg List.length (span_append_rest c cs)
  rw [List.length_append, List.length_cons] at hlength
  omega

/-- What is found in so many characters, the first of which stands on a line: no more tokens than
characters, and no line further down than that. -/
structure Lexed.Within (line size : Nat) (lexed : Lexed) : Prop where
  few : lexed.tokens.length ≤ size
  tokens : ∀ t ∈ lexed.tokens, t.line ≤ line + size
  comments : ∀ c ∈ lexed.comments, c.line ≤ line + size

theorem Lexed.Within.mono {line line' size size' : Nat} {lexed : Lexed} (within : lexed.Within line' size')
    (hsize : size' ≤ size) (hline : line' + size' ≤ line + size) : lexed.Within line size where
  few := Nat.le_trans within.few hsize
  tokens t ht := Nat.le_trans (within.tokens t ht) hline
  comments c hc := Nat.le_trans (within.comments c hc) hline

theorem within_lexFrom (line : Nat) (cs : List Char) : (lexFrom line cs).Within line cs.length := by
  have hlead := fun (c : Char) (cs : List Char) => Nat.le_trans (Lexeme.lead_le_breaks c cs)
    (Nat.le_trans (Nat.le_add_right _ _) (Lexeme.breaks_add_length_rest_le c cs))
  have hafter : ∀ {line : Nat} {c : Char} {cs : List Char} {lexed : Lexed},
      lexed.Within (line + (Lexeme.next c cs).breaks) (Lexeme.next c cs).rest.length →
        lexed.Within line (cs.length + 1) := by
    intro line c cs lexed within
    have hbreaks := Lexeme.breaks_add_length_rest_le c cs
    have hrest := Lexeme.length_next_rest c cs
    exact within.mono (by omega) (by omega)
  fun_induction lexFrom line cs with
  | case1 => exact ⟨Nat.le_refl 0, by simp, by simp⟩
  | case2 line c cs lexeme after hitem ih => exact hafter ih
  | case3 line c cs lexeme after text hitem ih =>
    obtain ⟨few, tokens, comments⟩ := hafter ih
    exact ⟨few, tokens, List.forall_mem_cons.mpr ⟨Nat.add_le_add_left (hlead c cs) line, comments⟩⟩
  | case4 line c cs lexeme after kind text hitem ih =>
    obtain ⟨-, tokens, comments⟩ := hafter ih
    have few : after.tokens.length ≤ cs.length := Nat.le_trans ih.few (Lexeme.length_next_rest c cs)
    exact ⟨Nat.succ_le_succ few,
      List.forall_mem_cons.mpr ⟨Nat.add_le_add_left (hlead c cs) line, tokens⟩, comments⟩

theorem within_lex (text : String) : (lex text).Within 1 text.length := by
  rw [← String.length_toList]
  exact within_lexFrom 1 text.toList

/-! ## Calls and mentions -/

namespace Reading

variable {r : Reading} {token : Token}

theorem calls_queryText (r : Reading) (token : Token) : (r.queryText token).calls = r.calls :=
  List.foldlRecOn (motive := fun r' : Reading => r'.calls = r.calls) _ _ rfl fun _ h _ _ => h

theorem calls_loopVariable (r : Reading) (after : List Token) : (r.loopVariable after).calls = r.calls := by
  unfold loopVariable
  dsimp only
  split
  · split <;> rfl
  · rfl

theorem calls_keyword (r : Reading) (token : Token) (after : List Token) (keyword : Keyword) :
    (r.keyword token after keyword).calls = r.calls := by
  cases keyword with
  | endProcedure | endFunction => exact calls_close r token.line
  | «for» => exact calls_loopVariable r.addDecision after
  | _ => rfl

theorem line_of_mem_calls_identifier {word : String} {around : Around} {call : CallSite}
    (h : call ∈ (r.identifier token word around).calls) : call ∈ r.calls ∨ call.line = token.line := by
  unfold identifier at h
  split at h
  · exact .inl h
  split at h
  · exact .inl h
  split at h
  · exact .inl h
  split at h
  · exact .inl h
  split at h
  · refine (List.mem_append.mp h).imp_right fun h => ?_
    rw [List.mem_singleton.mp h]
  · exact .inl h

/-- A token adds a call on its own line, or none. -/
theorem line_of_mem_calls_single {around : Around} {call : CallSite}
    (h : call ∈ (r.single token around).calls) : call ∈ r.calls ∨ call.line = token.line := by
  by_cases hpreproc : token.kind = .preproc
  · rw [single_eq_preproc hpreproc, preproc_eq] at h
    exact .inl h
  by_cases hdirective : token.kind = .directive
  · rw [single_eq_directive hdirective, directive] at h
    split at h <;> exact .inl h
  rw [single_eq_token hpreproc hdirective] at h
  unfold Reading.token at h
  split at h
  · exact .inl (calls_queryText r token ▸ h)
  · split at h <;> exact .inl h
  · exact .inl h
  · dsimp only at h
    split at h
    · exact .inl (calls_keyword r token around.after _ ▸ h)
    · exact line_of_mem_calls_identifier h
  · exact .inl h

theorem line_le_of_mem_calls {bound : Nat} (comments : List Comment) (before : List Token)
    {segs : List Segment} (htokens : ∀ t ∈ segs.flatMap Segment.tokens, t.line ≤ bound)
    (hcalls : ∀ call ∈ r.calls, call.line ≤ bound) :
    ∀ call ∈ (readSegments comments before r segs).calls, call.line ≤ bound := by
  induction segs generalizing before r with
  | nil => exact hcalls
  | cons seg rest ih =>
    rw [List.flatMap_cons, List.forall_mem_append] at htokens
    cases seg with
    | single token =>
      refine ih (token :: before) htokens.2 fun call hcall => ?_
      rcases line_of_mem_calls_single hcall with hold | hline
      · exact hcalls call hold
      · rw [hline]
        exact htokens.1 token (List.mem_singleton_self token)
    | header keyword kind header taken =>
      refine ih ((keyword :: taken).reverse ++ before) htokens.2 ?_
      have hsame := calls_close r (keyword.line - 1)
      intro call hcall
      exact hcalls call (hsame ▸ hcall)

end Reading

theorem line_le_of_mem_chunk {seg : Segment} {chunk : List Mention}
    (hyields : seg.Yields text chunk) (htokens : ∀ t ∈ seg.tokens, t.line ≤ 1 + text.length) :
    ∀ mention ∈ chunk, mention.line ≤ 1 + text.length := by
  intro mention hmention
  cases seg with
  | header keyword kind header taken =>
    rw [Segment.Yields] at hyields
    rw [hyields] at hmention
    cases hmention
  | single t =>
    rw [Segment.Yields] at hyields
    split at hyields
    · obtain ⟨p, -, -, ms, -, hrecorded⟩ := hyields
      obtain ⟨m, -, word, name, -, -, hprefix, -, -, hline, -⟩ := exists_left_of_forall₂ hrecorded hmention
      rw [hline]
      refine Nat.add_le_add_left ?_ 1
      have hlength := hprefix.length_le
      rw [String.length_toList] at hlength
      refine Nat.le_trans (Nat.le_trans List.count_le_length ?_) hlength
      simp
      omega
    · rw [hyields.2 mention hmention]
      exact htokens t (List.mem_singleton_self t)

/-- Mentions stand on lines of tokens or of places in literals. -/
theorem line_le_of_mem_mentions {segs : List Segment}
    (hsegs : segs.flatMap Segment.tokens ⊆ (lex text).tokens) (comments : List Comment)
    (before : List Token) :
    ∀ mention ∈ (Reading.readSegments comments before {} segs).mentions,
      mention.line ≤ 1 + text.length := by
  intro mention hmention
  obtain ⟨chunks, hchunks, hall⟩ := exists_yields_readSegments hsegs comments before {}
  rw [hchunks] at hmention
  obtain ⟨chunk, hchunk, hmention⟩ := List.mem_flatten.mp hmention
  obtain ⟨seg, hseg, hyields⟩ := exists_left_of_forall₂ hall hchunk
  refine line_le_of_mem_chunk hyields (fun t ht => ?_) mention hmention
  exact (within_lex text).tokens t (hsegs (List.mem_flatMap.mpr ⟨seg, hseg, ht⟩))

/-! ## Complexities -/

theorem complexity_le {decl : Declaration} (h : decl ∈ (Outline.ofModule text).declarations) :
    decl.complexity ≤ 1 + text.length := by
  obtain ⟨stretch, -, hmem, hextent⟩ := exists_left_of_forall₂ (forall₂_stretches text) h
  have hcomplexity : decl.complexity = 1 + decisions Keyword.branches stretch.inside :=
    congrArg (·.2.2) hextent
  have hin := in_of_mem_stretchesFrom hmem
  rw [flatMap_tokens_segments] at hin
  obtain ⟨before, header, behind, htokens⟩ := hin
  have hinside : stretch.inside.length ≤ (lex text).tokens.length := by
    rw [htokens, List.length_append, List.length_append]
    omega
  rw [hcomplexity]
  exact Nat.add_le_add_left (Nat.le_trans (decisions_le_length _ _)
    (Nat.le_trans hinside (within_lex text).few)) 1

theorem fits_flowOf (short : IsShort text) (decl : Declaration) :
    (flowOf (lex text).tokens decl).Fits := by
  have hsize : (bodyTokens (lex text).tokens decl).length ≤ text.length :=
    Nat.le_trans (List.length_filter_le _ _) (within_lex text).few
  have hdecisions := decisions_le_length Keyword.decides (bodyTokens (lex text).tokens decl)
  have hcyclomatic := cyclomatic_flowOf (lex text).tokens decl
  have hedges := edges_flowOf (lex text).tokens decl
  have hblocks : (flowOf (lex text).tokens decl).blocks ≤
      1 + 2 * (bodyTokens (lex text).tokens decl).length :=
    FlowCount.blocks_count_le {} _
  have hnesting :
      (flowOf (lex text).tokens decl).maxNesting < (flowOf (lex text).tokens decl).blocks :=
    (FlowCount.nested_start.count (bodyTokens (lex text).tokens decl)).maxNesting
  unfold IsShort at short
  constructor <;> omega

end Source

/-! ## Outlines -/

/-- **What is read in a short text fits**: lines of tokens and comments, the outline, and the measurements. -/
theorem fits_ofModule {text : String} (short : IsShort text) :
    (∀ t ∈ (lex text).tokens, t.line < UInt32.size) ∧
      (∀ c ∈ (lex text).comments, c.line < UInt32.size) ∧
      (Outline.ofModule text).Fits ∧
      ∀ flow ∈ measureFlow text (Outline.ofModule text).declarations, flow.Fits := by
  have hbound : 1 + text.length < UInt32.size := by
    unfold IsShort at short
    omega
  have within := within_lex text
  have hsegs : (segments (lex text).tokens).flatMap Segment.tokens = (lex text).tokens :=
    flatMap_tokens_segments _
  have hread := Reading.readFrom_eq_readSegments (lex text).comments [] {} (lex text).tokens
  have hlines : ∀ decl ∈ (Outline.ofModule text).declarations,
      1 ≤ decl.firstLine ∧ decl.firstLine ≤ decl.lastLine ∧ decl.lastLine ≤ 1 + text.length := by
    intro decl hdecl
    simp only [Outline.ofModule, hread] at hdecl
    obtain ⟨hfirst, hordered, hlast, -⟩ := (ranged_read text).closed decl hdecl
    have := lineCount_le text
    exact ⟨hfirst, hordered, by omega⟩
  refine ⟨fun t ht => Nat.lt_of_le_of_lt (within.tokens t ht) hbound,
    fun c hc => Nat.lt_of_le_of_lt (within.comments c hc) hbound, ?_, fun flow hflow => ?_⟩
  · constructor
    case lines =>
      intro decl hdecl
      obtain ⟨-, hordered, hlast⟩ := hlines decl hdecl
      exact ⟨by omega, by omega⟩
    case loc_eq =>
      intro decl hdecl
      obtain ⟨hfirst, hordered, hlast⟩ := hlines decl hdecl
      exact Nat.mod_eq_of_lt (by omega)
    case complexity =>
      intro decl hdecl
      exact Nat.lt_of_le_of_lt (complexity_le hdecl) hbound
    case calls =>
      intro call hcall
      simp only [Outline.ofModule, hread, Reading.calls_close] at hcall
      refine Nat.lt_of_le_of_lt (Reading.line_le_of_mem_calls _ _ ?_ (by simp) call hcall) hbound
      rw [hsegs]
      exact within.tokens
    case mentions =>
      intro mention hmention
      simp only [Outline.ofModule, hread, Reading.mentions_close] at hmention
      refine Nat.lt_of_le_of_lt (line_le_of_mem_mentions ?_ _ _ mention hmention) hbound
      rw [hsegs]
      exact List.Subset.refl _
    case loc => exact Nat.lt_of_le_of_lt (filledLineCount_le text) (by omega)
  · obtain ⟨decl, -, rfl⟩ := List.mem_map.mp hflow
    exact fits_flowOf short decl

/-! ## Units -/

/-- Reading a unit changes no call and no mention that its text has. -/
theorem Parser.calls_read (p : Parser) (pool : WorkerPool) (unit : SourceUnit) :
    (p.read pool unit).1.outline.calls = (Outline.ofContent unit.kind unit.content).calls ∧
      (p.read pool unit).1.outline.mentions = (Outline.ofContent unit.kind unit.content).mentions := by
  rcases hanalyzer : p.analyzerFor? unit (Outline.ofContent unit.kind unit.content) with _ | a
  · simp only [read, hanalyzer, and_self]
  · simp only [read, hanalyzer]
    split <;> exact ⟨rfl, rfl⟩

/-- Units that come of parsing short texts have lines that fit. -/
theorem linesFit_of_short {units : ParsedUnit → Prop}
    (h : ∀ p, units p → ∃ (parser : Parser) (pool : WorkerPool) (unit : SourceUnit),
      IsShort unit.content ∧ p.outline = (parser.read pool unit).1.outline) : LinesFit units := by
  intro p hp
  obtain ⟨parser, pool, unit, short, houtline⟩ := h p hp
  obtain ⟨hcalls, hmentions⟩ := parser.calls_read pool unit
  rw [houtline, hcalls, hmentions, Outline.ofContent]
  split
  · -- A descriptor has neither.
    unfold Outline.ofDescriptor
    split <;> exact ⟨by simp [Outline.failed], by simp [Outline.failed]⟩
  · obtain ⟨-, -, fits, -⟩ := fits_ofModule short
    exact ⟨fits.calls, fits.mentions⟩

end CodeAtlas
