import CodeAtlas.Proofs.Source.Spellings

/-!
# Outlines with open names

Two texts that differ in nothing but the spelling of keywords have the same outline, except for names that are
keywords. An outline with open names (`OutlineForm`) has places of tokens where names are, and for each text
there is one that every other spelling of the text fills with its own tokens (`ofModule_respelled`). Open are the
names of declarations, as such and as callers, of parameters, and of metadata objects. All else is the same.

The proof compares two readings step by step (`Reading.Follows`). They may differ in what is known as a value,
since a keyword can be a parameter or the variable of a loop. It does not matter: no keyword is ever looked up
there.
-/

set_option autoImplicit false

namespace CodeAtlas

namespace Source

open Text

/-! ## Outlines with names left open -/

/-- A declaration whose name and parameters are the texts at places; the frame has the rest. -/
structure DeclarationForm where
  frame : Declaration
  name : Nat
  params : List Nat

/-- A call in a declaration whose name is the text at a place. -/
structure CallForm where
  frame : CallSite
  caller : Option Nat

/-- A mention in such a declaration. The name of the object may be the text at a place too. -/
structure MentionForm where
  frame : Mention
  caller : Option Nat
  name : Option Nat

structure OutlineForm where
  declarations : List DeclarationForm
  calls : List CallForm
  mentions : List MentionForm
  loc : Nat

def DeclarationForm.fill (form : DeclarationForm) (texts : Nat → String) : Declaration :=
  { form.frame with name := texts form.name, params := form.params.map texts }

def CallForm.fill (form : CallForm) (texts : Nat → String) : CallSite :=
  { form.frame with caller := form.caller.map texts }

def MentionForm.fill (form : MentionForm) (texts : Nat → String) : Mention :=
  { form.frame with caller := form.caller.map texts, name := (form.name.map texts).getD form.frame.name }

def OutlineForm.fill (form : OutlineForm) (texts : Nat → String) : Outline where
  declarations := form.declarations.map (·.fill texts)
  calls := form.calls.map (·.fill texts)
  mentions := form.mentions.map (·.fill texts)
  loc := form.loc

/-! ## Two readings -/

/-- What has been found, with names left open. -/
structure Findings where
  declarations : List DeclarationForm := []
  calls : List CallForm := []
  mentions : List MentionForm := []
  current : Option DeclarationForm := none

namespace Findings

def addDecision (found : Findings) : Findings :=
  { found with current := found.current.map fun form =>
      { form with frame := { form.frame with complexity := form.frame.complexity + 1 } } }

def addMention (found : Findings) (frame : Mention) (name : Option Nat) : Findings :=
  { found with mentions := found.mentions ++ [⟨frame, found.current.map (·.name), name⟩] }

def addCall (found : Findings) (frame : CallSite) : Findings :=
  { found with calls := found.calls ++ [⟨frame, found.current.map (·.name)⟩] }

def close (found : Findings) (line : Nat) : Findings :=
  let ended := found.current.map fun form =>
    { form with frame := { form.frame with lastLine := max line form.frame.firstLine } }
  { found with current := none, declarations := found.declarations ++ ended.toList }

end Findings

namespace Reading

/-- A reading of tokens and one of another spelling of them: the marks are the same, words that are no keywords
are known as values in both or in none, and what the other one has found is what is left open here, filled with
its own texts. -/
structure Follows (texts : Nat → String) (found : Findings) (r r' : Reading) : Prop where
  declarations : r'.declarations = found.declarations.map (·.fill texts)
  calls : r'.calls = found.calls.map (·.fill texts)
  mentions : r'.mentions = found.mentions.map (·.fill texts)
  current : r'.current.map (·.decl) = found.current.map (·.fill texts)
  isSome_current : r'.current.isSome = r.current.isSome
  isLocal : ∀ word, Keyword.ofWord? word = none → r'.isLocal word = r.isLocal word
  regions : r'.regions = r.regions
  directives : r'.directives = r.directives
  lastCodeLine : r'.lastCodeLine = r.lastCodeLine
  inVariables : r'.inVariables = r.inVariables
  atBodyStart : r'.atBodyStart = r.atBodyStart

theorem isLocal_addDecision (r : Reading) (word : String) : r.addDecision.isLocal word = r.isLocal word := by
  unfold isLocal addDecision
  cases r.current <;> rfl

theorem isLocal_addLocal (r : Reading) (word other : String) :
    (r.addLocal word).isLocal other = (r.current.isSome && (other == word || r.isLocal other)) := by
  unfold isLocal addLocal
  cases r.current with
  | none => rfl
  | some opened => exact List.contains_cons

theorem declarations_close (r : Reading) (line : Nat) : (r.close line).declarations = r.declarations ++
    ((r.current.map (·.decl)).map fun decl => { decl with lastLine := max line decl.firstLine }).toList := by
  unfold close
  cases r.current with
  | none => simp
  | some opened => rfl

theorem isLocal_close (r : Reading) (line : Nat) (word : String) : (r.close line).isLocal word = false := by
  rw [isLocal, current_close]
  rfl

theorem marks_close (r : Reading) (line : Nat) : (r.close line).lastCodeLine = r.lastCodeLine ∧
    (r.close line).inVariables = r.inVariables ∧ (r.close line).atBodyStart = r.atBodyStart := by
  unfold close
  cases r.current <;> exact ⟨rfl, rfl, rfl⟩

variable {texts : Nat → String} {found : Findings} {r r' : Reading}

namespace Follows

theorem start (texts : Nat → String) : Follows texts {} {} {} where
  declarations := rfl
  calls := rfl
  mentions := rfl
  current := rfl
  isSome_current := rfl
  isLocal _ _ := rfl
  regions := rfl
  directives := rfl
  lastCodeLine := rfl
  inVariables := rfl
  atBodyStart := rfl

theorem caller (h : Follows texts found r r') : r'.caller = (found.current.map (·.name)).map texts := by
  have hcurrent := congrArg (Option.map (·.name)) h.current
  rw [Option.map_map, Option.map_map] at hcurrent
  rw [Option.map_map]
  exact hcurrent

theorem addDecision (h : Follows texts found r r') :
    Follows texts found.addDecision r.addDecision r'.addDecision where
  __ := h
  current := by
    have hcurrent := congrArg (Option.map fun decl : Declaration => { decl with complexity := decl.complexity + 1 })
      h.current
    rw [Option.map_map, Option.map_map] at hcurrent
    simpa [Reading.addDecision, Findings.addDecision, Function.comp_def, DeclarationForm.fill] using hcurrent
  isSome_current := by simpa [Reading.addDecision] using h.isSome_current
  isLocal word hword := by simpa [isLocal_addDecision] using h.isLocal word hword

theorem addCall (h : Follows texts found r r') (callee : String) (qualifier : Option String) (line : Nat) :
    Follows texts (found.addCall ⟨none, callee, qualifier, line⟩) (r.addCall callee qualifier line)
      (r'.addCall callee qualifier line) where
  __ := h
  calls := by simp [Reading.addCall, Findings.addCall, h.calls, h.caller, CallForm.fill]

/-- A mention by a name that is the text at a place. -/
theorem addMention (h : Follows texts found r r') (kind : MetadataKind) (name : String) (place : Option Nat)
    (line : Nat) : Follows texts (found.addMention ⟨none, kind, name, line⟩ place) (r.addMention kind name line)
      (r'.addMention kind ((place.map texts).getD name) line) where
  __ := h
  mentions := by simp [Reading.addMention, Findings.addMention, h.mentions, h.caller, MentionForm.fill]

theorem addLocal (h : Follows texts found r r') {word word' : String} (hword : SameWord word word') :
    Follows texts found (r.addLocal word) (r'.addLocal word') where
  __ := h
  current := by
    rw [← h.current]
    simp [Reading.addLocal, Option.map_map, Function.comp_def]
  isSome_current := by simpa [Reading.addLocal] using h.isSome_current
  isLocal other hother := by
    rw [isLocal_addLocal, isLocal_addLocal, h.isSome_current, h.isLocal other hother, hword.beq_eq hother]

/-- The end of a declaration may be later than the line, never earlier than its beginning. -/
theorem close (h : Follows texts found r r') (line : Nat) :
    Follows texts (found.close line) (r.close line) (r'.close line) where
  declarations := by
    rw [declarations_close, h.declarations, h.current, Findings.close]
    cases found.current with
    | none => simp
    | some form => simp [DeclarationForm.fill]
  calls := (calls_close r' line).trans h.calls
  mentions := (mentions_close r' line).trans h.mentions
  current := by
    rw [current_close]
    rfl
  isSome_current := by rw [current_close, current_close]
  isLocal word _ := (isLocal_close r' line word).trans (isLocal_close r line word).symm
  regions := by rw [regions_close, regions_close, h.regions]
  directives := by rw [directives_close, directives_close, h.directives]
  lastCodeLine := by rw [(marks_close r' line).1, (marks_close r line).1, h.lastCodeLine]
  inVariables := by rw [(marks_close r' line).2.1, (marks_close r line).2.1, h.inVariables]
  atBodyStart := by rw [(marks_close r' line).2.2, (marks_close r line).2.2, h.atBodyStart]

theorem behind (h : Follows texts found r r') (line : Nat) :
    Follows texts found { r with lastCodeLine := line, atBodyStart := false }
      { r' with lastCodeLine := line, atBodyStart := false } :=
  { h with lastCodeLine := rfl, atBodyStart := rfl }

end Follows

/-! ### Headers -/

theorem contains_respelled {names names' : List String} (h : List.Forall₂ SameName names names') {word : String}
    (hword : Keyword.ofWord? word = none) :
    (names'.map lower).contains word = (names.map lower).contains word := by
  induction h with
  | nil => rfl
  | cons hname _ ih =>
    rw [List.map_cons, List.map_cons, List.contains_cons, List.contains_cons, hname.beq_eq hword, ih]

/-- The declaration that a header begins. -/
def declared (r : Reading) (comments : List Comment) (keyword : Token) (kind : DeclKind) (header : Header) :
    Declaration where
  name := header.name
  kind := kind
  isExport := header.isExport
  firstLine := keyword.line
  lastLine := keyword.line
  params := header.params
  region := r.regions.head?.filter (!·.isEmpty)
  directives := r.directives
  requirements := Annotation.keysBetween .requirement comments r.lastCodeLine keyword.line
  incidents := Annotation.keysBetween .incident comments r.lastCodeLine keyword.line

theorem Follows.openWith (h : Follows texts found r r') (comments : List Comment) {keyword keyword' : Token}
    (hkeyword : keyword.Respells keyword') (kind : DeclKind) {header header' : Header} {name : Nat}
    {params : List Nat} (hheader : header.Respells texts name params header') (lastLine : Nat) :
    Follows texts
      { found.close (keyword.line - 1) with
        current := some ⟨r.declared comments keyword kind header, name, params⟩ }
      (r.openWith comments keyword kind header lastLine) (r'.openWith comments keyword' kind header' lastLine) := by
  have hclose := h.close (keyword.line - 1)
  have hdecl : r'.declared comments keyword' kind header' =
      { r.declared comments keyword kind header with name := texts name, params := params.map texts } := by
    simp only [declared, hheader.name, hheader.params, hheader.isExport, hkeyword.line, h.regions, h.directives,
      h.lastCodeLine]
  unfold Reading.openWith
  rw [hkeyword.line]
  exact { hclose with
    current := congrArg some (by rw [← hkeyword.line]; exact hdecl)
    isSome_current := rfl
    isLocal := fun word hword => contains_respelled hheader.sameParams hword
    directives := rfl
    lastCodeLine := rfl
    atBodyStart := rfl }

/-! ### Identifiers -/

/-- What an identifier that is no keyword does. -/
inductive Meaning where
  /-- The word is a value from here on. -/
  | value
  | mention (kind : MetadataKind) (name : String)
  | call (qualifier : Option String)
  | nothing

def meaning (r : Reading) (word : String) (a : Around) : Meaning :=
  if r.inVariables then .value
  else
    match managed? word a with
    | some (kind, name) => .mention kind name
    | none =>
      if a.followedBy '=' && !a.afterDot && a.startsStatement (r.current.isSome && r.atBodyStart) then .value
      else if !a.followedBy '(' || a.afterNew then .nothing
      else
        match r.qualifier? word a with
        | some qualifier => .call qualifier
        | none => .nothing

def apply (r : Reading) (token : Token) (word : String) : Meaning → Reading
  | .value => r.addLocal word
  | .mention kind name => r.addMention kind name token.line
  | .call qualifier => r.addCall token.text qualifier token.line
  | .nothing => r

theorem identifier_eq (r : Reading) (token : Token) (word : String) (a : Around) :
    r.identifier token word a = r.apply token word (r.meaning word a) := by
  unfold identifier meaning
  split
  · rfl
  cases managed? word a with
  | some managed => rfl
  | none =>
    dsimp only
    split
    · rfl
    split
    · rfl
    cases r.qualifier? word a <;> rfl

/-- The meaning with another name of the object. -/
def Meaning.named (name : String) : Meaning → Meaning
  | .mention kind _ => .mention kind name
  | meaning => meaning

section Identifier

variable {a a' : Around}

theorem Around.Respells.managed? (h : a.Respells a') {start : Nat} (htexts : TextsFrom texts start a'.after)
    (word : String) :
    managed? word a' = (Reading.managed? word a).map fun managed => (managed.1, texts (start + 1)) := by
  unfold Reading.managed?
  rw [h.afterDot, h.underMetadataRoot, h.followedBy, h.nameBehindNext? htexts]
  cases managerKind? word with
  | none => rfl
  | some kind =>
    simp only [Option.bind_eq_bind, Option.bind_some]
    split
    · cases a.nameBehindNext? <;> rfl
    · rfl

/-- The owner in a call is no keyword, so that it is spelled in one way. -/
theorem Follows.qualifier?_eq (h : Follows texts found r r') (ha : a.Respells a') (word : String) :
    r'.qualifier? word a' = r.qualifier? word a := by
  have hbefore := ha.before
  unfold qualifier?
  rw [ha.afterDot]
  split
  · rfl
  revert hbefore
  generalize a.before = before
  generalize a'.before = before'
  intro hbefore
  cases hbefore with
  | nil => rfl
  | cons _ hbefore =>
    cases hbefore with
    | nil => rfl
    | @cons head head' front front' hhead hfront =>
      have hdot : front'.head?.any (·.isPunct '.') = front.head?.any (·.isPunct '.') :=
        any_eq_of_rel (fun ht => ht.isPunct '.') (rel_head? hfront)
      dsimp only
      rw [hhead.kind, hdot]
      split
      · rfl
      cases hkeyword : head.keyword? with
      | none =>
        rw [hhead.eq_of_keyword?_eq_none hkeyword, h.isLocal _ hkeyword]
      | some keyword =>
        have hsome : (Keyword.ofWord? (lower head.text)).isSome := Option.isSome_of_eq_some hkeyword
        have hsome' : (Keyword.ofWord? (lower head'.text)).isSome :=
          Option.isSome_of_eq_some (hhead.keyword?.trans hkeyword)
        simp only [(not_root_of_isSome hsome).2, (not_root_of_isSome hsome').2, hsome, hsome', Bool.or_true,
          Bool.false_eq_true, if_false, if_true]

theorem Follows.meaning_eq (h : Follows texts found r r') (ha : a.Respells a') {start : Nat}
    (htexts : TextsFrom texts start a'.after) (word : String) :
    r'.meaning word a' = (r.meaning word a).named (texts (start + 1)) := by
  unfold meaning
  rw [ha.managed? htexts, h.inVariables, h.isSome_current, h.atBodyStart, ha.followedBy, ha.followedBy, ha.afterDot,
    ha.startsStatement, ha.afterNew, h.qualifier?_eq ha]
  split
  · rfl
  cases managed? word a with
  | some managed => rfl
  | none =>
    dsimp only [Option.map_none]
    split
    · rfl
    split
    · rfl
    cases r.qualifier? word a <;> rfl

end Identifier

theorem exists_follows_identifier (found : Findings) (r : Reading) (token : Token) (before after : List Token) :
    ∃ found', ∀ {texts : Nat → String} {before' after' : List Token} {r' : Reading},
      Respelling texts before (token :: after) before' (token :: after') → Follows texts found r r' →
        Follows texts found' (r.identifier token (lower token.text) ⟨before, after⟩)
          (r'.identifier token (lower token.text) ⟨before', after'⟩) := by
  cases hmeaning : r.meaning (lower token.text) ⟨before, after⟩ with
  | value =>
    refine ⟨found, fun hrespells h => ?_⟩
    rw [identifier_eq, identifier_eq, h.meaning_eq hrespells.around hrespells.texts.tail, hmeaning]
    exact h.addLocal (.inl rfl)
  | mention kind name =>
    refine ⟨found.addMention ⟨none, kind, name, token.line⟩ (some (before.length + 1 + 1)), fun hrespells h => ?_⟩
    rw [identifier_eq, identifier_eq, h.meaning_eq hrespells.around hrespells.texts.tail, hmeaning]
    exact h.addMention kind name (some (before.length + 1 + 1)) token.line
  | call qualifier =>
    refine ⟨found.addCall ⟨none, token.text, qualifier, token.line⟩, fun hrespells h => ?_⟩
    rw [identifier_eq, identifier_eq, h.meaning_eq hrespells.around hrespells.texts.tail, hmeaning]
    exact h.addCall token.text qualifier token.line
  | nothing =>
    refine ⟨found, fun hrespells h => ?_⟩
    rw [identifier_eq, identifier_eq, h.meaning_eq hrespells.around hrespells.texts.tail, hmeaning]
    exact h

/-! ### Tokens -/

theorem Follows.loopVariable (h : Follows texts found r r') {after after' : List Token}
    (hafter : List.Forall₂ Token.Respells after after') :
    Follows texts found (r.loopVariable after) (r'.loopVariable after') := by
  have heach : after'.head?.any (·.keyword? = some .each) = after.head?.any (·.keyword? = some .each) :=
    any_eq_of_rel (fun ht => by rw [ht.keyword?]) (rel_head? hafter)
  have hrest : List.Forall₂ Token.Respells
      (if after.head?.any (·.keyword? = some .each) then after.tail else after)
      (if after.head?.any (·.keyword? = some .each) then after'.tail else after') := by
    split
    · cases hafter with
      | nil => exact .nil
      | cons _ htail => exact htail
    · exact hafter
  unfold Reading.loopVariable
  rw [heach]
  revert hrest
  dsimp only
  generalize (if after.head?.any (·.keyword? = some .each) then after.tail else after) = rest
  generalize (if after.head?.any (·.keyword? = some .each) then after'.tail else after') = rest'
  intro hrest
  cases hrest with
  | nil => exact h
  | cons ht _ =>
    dsimp only [List.head?_cons]
    rw [ht.kind]
    split
    · exact h.addLocal ht.sameWord
    · exact h

theorem exists_follows_keyword (found : Findings) (r : Reading) (token : Token) (after : List Token)
    (keyword : Keyword) : ∃ found', ∀ {texts : Nat → String} {token' : Token} {after' : List Token} {r' : Reading},
      token.Respells token' → List.Forall₂ Token.Respells after after' → Follows texts found r r' →
        Follows texts found' (r.keyword token after keyword) (r'.keyword token' after' keyword) := by
  cases keyword
  case endProcedure | endFunction =>
    refine ⟨found.close token.line, fun ht _ h => ?_⟩
    unfold Reading.keyword
    rw [ht.line]
    exact h.close token.line
  case «if» | elsIf | «while» => exact ⟨found.addDecision, fun _ _ h => h.addDecision⟩
  case «for» => exact ⟨found.addDecision, fun _ hafter h => h.addDecision.loopVariable hafter⟩
  case var => exact ⟨found, fun _ _ h => { h with inVariables := rfl }⟩
  all_goals exact ⟨found, fun _ _ h => h⟩

theorem exists_follows_queryText (found : Findings) (r : Reading) (token : Token) :
    ∃ found', ∀ {texts : Nat → String} {r' : Reading}, Follows texts found r r' →
      Follows texts found' (r.queryText token) (r'.queryText token) := by
  unfold Reading.queryText
  generalize QueryText.mentions token.text.toList = mentions
  induction mentions generalizing found r with
  | nil => exact ⟨found, id⟩
  | cons mention mentions ih =>
    let line := token.line + mention.breaks
    obtain ⟨found', hfound'⟩ := ih (found.addMention ⟨none, mention.kind, mention.name, line⟩ none)
      (r.addMention mention.kind mention.name line)
    exact ⟨found', fun h => hfound' (h.addMention mention.kind mention.name none line)⟩

/-- What a token does, apart from the marks that it leaves. -/
def effect (r : Reading) (token : Token) (a : Around) : Reading :=
  match token.kind with
  | .str => r.queryText token
  | .punct '?' => if a.followedBy '(' then r.addDecision else r
  | .punct ';' => { r with inVariables := false }
  | .ident =>
    match token.keyword? with
    | some keyword => r.keyword token a.after keyword
    | none => r.identifier token (lower token.text) a
  | _ => r

theorem token_eq (r : Reading) (token : Token) (a : Around) :
    r.token token a = { r.effect token a with lastCodeLine := token.line, atBodyStart := false } := rfl

theorem exists_follows_effect (found : Findings) (r : Reading) (token : Token) (before after : List Token) :
    ∃ found', ∀ {texts : Nat → String} {token' : Token} {before' after' : List Token} {r' : Reading},
      Respelling texts before (token :: after) before' (token' :: after') → Follows texts found r r' →
        Follows texts found' (r.effect token ⟨before, after⟩) (r'.effect token' ⟨before', after'⟩) := by
  unfold effect
  -- Identifiers may be spelled otherwise; other tokens are the same.
  by_cases hident : token.kind = .ident
  · cases hkeyword : token.keyword? with
    | some keyword =>
      obtain ⟨found', hfound'⟩ := exists_follows_keyword found r token after keyword
      refine ⟨found', fun hrespells h => ?_⟩
      have ht := hrespells.pass.1
      rw [ht.kind, ht.keyword?, hident, hkeyword]
      exact hfound' ht hrespells.around.after h
    | none =>
      obtain ⟨found', hfound'⟩ := exists_follows_identifier found r token before after
      refine ⟨found', fun hrespells h => ?_⟩
      have ht := hrespells.pass.1.eq_of_keyword?_eq_none hkeyword
      rw [ht] at hrespells ⊢
      rw [hident, hkeyword]
      exact hfound' hrespells h
  by_cases hstr : token.kind = .str
  · obtain ⟨found', hfound'⟩ := exists_follows_queryText found r token
    refine ⟨found', fun hrespells h => ?_⟩
    rw [hrespells.pass.1.eq_of_kind_ne hident, hstr]
    exact hfound' h
  by_cases hquestion : token.kind = .punct '?'
  · cases hopen : Around.followedBy ⟨before, after⟩ '(' with
    | true =>
      refine ⟨found.addDecision, fun hrespells h => ?_⟩
      rw [hrespells.pass.1.eq_of_kind_ne hident, hquestion]
      dsimp only
      rw [hrespells.around.followedBy, hopen]
      exact h.addDecision
    | false =>
      refine ⟨found, fun hrespells h => ?_⟩
      rw [hrespells.pass.1.eq_of_kind_ne hident, hquestion]
      dsimp only
      rw [hrespells.around.followedBy, hopen]
      exact h
  by_cases hsemicolon : token.kind = .punct ';'
  · refine ⟨found, fun hrespells h => ?_⟩
    rw [hrespells.pass.1.eq_of_kind_ne hident, hsemicolon]
    exact { h with inVariables := rfl }
  · refine ⟨found, fun hrespells h => ?_⟩
    rw [hrespells.pass.1.eq_of_kind_ne hident]
    split
    · exact absurd ‹_› hstr
    · exact absurd ‹_› hquestion
    · exact absurd ‹_› hsemicolon
    · exact absurd ‹_› hident
    · exact h

theorem Follows.directive (h : Follows texts found r r') (text : String) :
    Follows texts found (r.directive text) (r'.directive text) := by
  have hnone : r'.current.isNone = r.current.isNone := by
    rw [← Option.not_isSome, ← Option.not_isSome, h.isSome_current]
  unfold Reading.directive
  rw [hnone]
  split
  · exact { h with directives := congrArg (· ++ [text]) h.directives }
  · exact h

/-- A token that begins no header leads both readings on alike. -/
theorem exists_follows_single (found : Findings) (r : Reading) (token : Token) (before after : List Token) :
    ∃ found', ∀ {texts : Nat → String} {token' : Token} {before' after' : List Token} {r' : Reading},
      Respelling texts before (token :: after) before' (token' :: after') → Follows texts found r r' →
        Follows texts found' (r.single token ⟨before, after⟩) (r'.single token' ⟨before', after'⟩) := by
  by_cases hpreproc : token.kind = .preproc
  · refine ⟨found, fun hrespells h => ?_⟩
    rw [hrespells.pass.1.eq_of_kind_ne (by simp [hpreproc]), single_eq_preproc hpreproc, single_eq_preproc hpreproc,
      preproc_eq, preproc_eq, h.regions]
    exact { h with regions := rfl, atBodyStart := rfl }
  by_cases hdirective : token.kind = .directive
  · refine ⟨found, fun hrespells h => ?_⟩
    rw [hrespells.pass.1.eq_of_kind_ne (by simp [hdirective]), single_eq_directive hdirective,
      single_eq_directive hdirective]
    exact { h.directive token.text with atBodyStart := rfl }
  obtain ⟨found', hfound'⟩ := exists_follows_effect found r token before after
  refine ⟨found', fun hrespells h => ?_⟩
  have ht := hrespells.pass.1
  rw [single_eq_token hpreproc hdirective, single_eq_token (by rwa [ht.kind]) (by rwa [ht.kind]), token_eq,
    token_eq, ht.line]
  exact (hfound' hrespells h).behind token.line

/-! ### Segments -/

theorem declKind?_respelled {t t' : Token} (h : t.Respells t') : declKind? t' = declKind? t := by
  rw [declKind?, declKind?, h.isKeyword, h.isKeyword]

theorem header?_eq_none_respelled {t t' : Token} {after after' : List Token} (ht : t.Respells t')
    (hafter : List.Forall₂ Token.Respells after after') (hnone : header? t after = none) :
    header? t' after' = none := by
  rw [header?, declKind?_respelled ht]
  rw [header?] at hnone
  cases hkind : declKind? t with
  | none => rfl
  | some kind =>
    rw [hkind] at hnone
    cases hheader : Header.read? after with
    | none =>
      rw [Header.read?_eq_none_respelled hafter hheader]
      rfl
    | some header =>
      rw [hheader] at hnone
      cases hnone

theorem taken_respelled {header header' : Header} {after after' : List Token}
    (hafter : List.Forall₂ Token.Respells after after')
    (hrest : List.Forall₂ Token.Respells header.rest header'.rest) :
    List.Forall₂ Token.Respells (taken header after) (taken header' after') := by
  rw [taken, taken, ← hafter.length_eq, ← hrest.length_eq]
  exact List.forall₂_take _ hafter

theorem line_getLast?_respelled {tokens tokens' : List Token} (h : List.Forall₂ Token.Respells tokens tokens')
    {t t' : Token} (ht : t.Respells t') : (tokens'.getLast?.getD t').line = (tokens.getLast?.getD t).line := by
  have hrel : Option.Rel Token.Respells tokens.getLast? tokens'.getLast? := by
    rw [List.getLast?_eq_head?_reverse, List.getLast?_eq_head?_reverse]
    exact rel_head? (List.rel_reverse h)
  revert hrel
  generalize tokens.getLast? = last
  generalize tokens'.getLast? = last'
  intro hrel
  cases hrel with
  | some hlast => exact hlast.line
  | none => exact ht.line

/-- A header leads both readings on alike: its names are taken from the same places. -/
theorem exists_follows_openWith (found : Findings) (r : Reading) (comments : List Comment) (before : List Token)
    {token : Token} {after : List Token} {kind : DeclKind} {header : Header}
    (hheader : header? token after = some (kind, header)) :
    ∃ found', ∀ {texts : Nat → String} {token' : Token} {before' after' : List Token} {r' : Reading},
      Respelling texts before (token :: after) before' (token' :: after') → Follows texts found r r' →
        ∃ header', header? token' after' = some (kind, header') ∧
          Respelling texts ((token :: taken header after).reverse ++ before) header.rest
            ((token' :: taken header' after').reverse ++ before') header'.rest ∧
          Follows texts found'
            (r.openWith comments token kind header ((token :: taken header after).getLast?.getD token).line)
            (r'.openWith comments token' kind header'
              ((token' :: taken header' after').getLast?.getD token').line) := by
  obtain ⟨hkind, hread⟩ := header?_eq_some_iff.mp hheader
  obtain ⟨params, hparams⟩ := Header.exists_places hread (before.length + 1)
  refine ⟨{ found.close (token.line - 1) with
    current := some ⟨r.declared comments token kind header, before.length + 1, params⟩ }, ?_⟩
  intro texts token' before' after' r' hrespells h
  obtain ⟨ht, hnext⟩ := hrespells.pass
  obtain ⟨header', hread', hrespells'⟩ := hparams _ _ hnext.right hnext.texts
  have hheader' := header?_eq_some_iff.mpr ⟨(declKind?_respelled ht).trans hkind, hread'⟩
  have htaken := taken_respelled hnext.right hrespells'.rest
  refine ⟨header', hheader', ⟨?_, hrespells'.rest, ?_⟩, ?_⟩
  · exact List.rel_append (List.rel_reverse (.cons ht htaken)) hrespells.left
  · have htexts := hnext.texts
    rw [← taken_append_rest hheader'] at htexts
    have hlength : ((token :: taken header after).reverse ++ before).length =
        (token :: before).length + (taken header' after').length := by
      simp [htaken.length_eq]
      omega
    rw [hlength]
    exact htexts.append
  · rw [line_getLast?_respelled (.cons ht htaken) ht]
    exact h.openWith comments ht kind hrespells' _

theorem exists_follows_readSegments (comments : List Comment) (tokens : List Token) (found : Findings) (r : Reading)
    (before : List Token) : ∃ found', ∀ {texts : Nat → String} {before' tokens' : List Token} {r' : Reading},
      Respelling texts before tokens before' tokens' → Follows texts found r r' →
        Follows texts found' (readSegments comments before r (segments tokens))
          (readSegments comments before' r' (segments tokens')) := by
  fun_induction segments tokens generalizing found r before with
  | case1 =>
    refine ⟨found, fun hrespells h => ?_⟩
    cases hrespells.right
    rw [segments]
    exact h
  | case2 token after kind header hheader ih =>
    obtain ⟨opened, hopened⟩ := exists_follows_openWith found r comments before hheader
    obtain ⟨found', hfound'⟩ := ih opened
      (r.openWith comments token kind header ((token :: taken header after).getLast?.getD token).line)
      ((token :: taken header after).reverse ++ before)
    refine ⟨found', fun hrespells h => ?_⟩
    obtain ⟨token', after', -, -, rfl⟩ := List.forall₂_cons_left_iff.mp hrespells.right
    obtain ⟨header', hheader', hnext, hfollows⟩ := hopened hrespells h
    rw [segments_cons_header hheader']
    exact hfound' hnext hfollows
  | case3 token after hnone ih =>
    obtain ⟨read, hread⟩ := exists_follows_single found r token before after
    obtain ⟨found', hfound'⟩ := ih read (r.single token ⟨before, after⟩) (token :: before)
    refine ⟨found', fun hrespells h => ?_⟩
    obtain ⟨token', after', ht, hafter, rfl⟩ := List.forall₂_cons_left_iff.mp hrespells.right
    rw [segments_cons_single (header?_eq_none_respelled ht hafter hnone), readSegments, readSegments,
      flatMap_tokens_segments, flatMap_tokens_segments]
    exact hfound' hrespells.pass.2 (hread hrespells h)

end Reading

/-! ## Outlines -/

theorem Respelled.lineCount {text text' : String} (h : Respelled text text') :
    lineCount text' = lineCount text := by
  have hlength := congrArg List.length h.lines
  rwa [blankLines, blankLines, List.length_map, List.length_map] at hlength

theorem Respelled.filledLineCount {text text' : String} (h : Respelled text text') :
    filledLineCount text' = filledLineCount text := by
  have hcount : ∀ text, Text.filledLineCount text = ((blankLines text).filter (!·)).length := by
    intro text
    rw [blankLines, List.filter_map, List.length_map]
    rfl
  rw [hcount, hcount, h.lines]

theorem ofModule_eq (text : String) : Outline.ofModule text =
    let r := (Reading.readSegments (lex text).comments [] {} (segments (lex text).tokens)).close
      (max (lineCount text) 1)
    { declarations := r.declarations, calls := r.calls, mentions := r.mentions, loc := filledLineCount text } := by
  rw [← Reading.readFrom_eq_readSegments]
  rfl

/-- **How keywords are spelled does not matter.** The outline of a text has names that are the texts of tokens:
those of declarations, as such and as callers, of parameters, and of metadata objects. Whatever other spelling of
the text there is, its outline is the same one with its own tokens in these places. -/
theorem ofModule_respelled (text : String) : ∃ form : OutlineForm,
    Outline.ofModule text = form.fill (textAt (lex text).tokens) ∧
      ∀ text', Respelled text text' → Outline.ofModule text' = form.fill (textAt (lex text').tokens) := by
  obtain ⟨found, hfound⟩ := Reading.exists_follows_readSegments (lex text).comments (lex text).tokens {} {} []
  let closed := found.close (max (lineCount text) 1)
  let form : OutlineForm := ⟨closed.declarations, closed.calls, closed.mentions, filledLineCount text⟩
  have hform : ∀ text', Respelled text text' → Outline.ofModule text' = form.fill (textAt (lex text').tokens) := by
    intro text' h
    have hfollows := (hfound ⟨.nil, h.tokens, textsFrom_textAt _⟩ (.start _)).close (max (lineCount text) 1)
    rw [ofModule_eq, h.comments, h.lineCount, h.filledLineCount]
    dsimp only
    rw [hfollows.declarations, hfollows.calls, hfollows.mentions]
    rfl
  exact ⟨form, hform text (.refl text), hform⟩

/-- Keywords serve as names here, and the other text spells them in the other language. -/
theorem ofModule_respelled_two_languages :
    Respelled "Procedure If(To, Val In) Export\n  X = Catalogs.Or;\nEndProcedure\n"
      "ПРОЦЕДУРА Если(по, ЗНАЧ Из) экспорт\n  X = Catalogs.ИЛИ;\nКонецПроцедуры\n" ∧
    ∃ form : OutlineForm,
      Outline.ofModule "Procedure If(To, Val In) Export\n  X = Catalogs.Or;\nEndProcedure\n" =
        form.fill (textAt (lex "Procedure If(To, Val In) Export\n  X = Catalogs.Or;\nEndProcedure\n").tokens) ∧
      Outline.ofModule "ПРОЦЕДУРА Если(по, ЗНАЧ Из) экспорт\n  X = Catalogs.ИЛИ;\nКонецПроцедуры\n" =
        form.fill (textAt
          (lex "ПРОЦЕДУРА Если(по, ЗНАЧ Из) экспорт\n  X = Catalogs.ИЛИ;\nКонецПроцедуры\n").tokens) := by
  have hrespelled : Respelled "Procedure If(To, Val In) Export\n  X = Catalogs.Or;\nEndProcedure\n"
      "ПРОЦЕДУРА Если(по, ЗНАЧ Из) экспорт\n  X = Catalogs.ИЛИ;\nКонецПроцедуры\n" :=
    ⟨by decide +kernel, by decide +kernel, by decide +kernel⟩
  obtain ⟨form, hform, hforms⟩ :=
    ofModule_respelled "Procedure If(To, Val In) Export\n  X = Catalogs.Or;\nEndProcedure\n"
  exact ⟨hrespelled, form, hform, hforms _ hrespelled⟩

end Source

end CodeAtlas
