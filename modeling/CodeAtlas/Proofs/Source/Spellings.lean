import CodeAtlas.Proofs.Source.Headings
import Mathlib.Data.List.Forall2
import Mathlib.Tactic.Common

/-!
# Spellings of keywords

Keywords have an English and a Russian spelling, and case does not matter. Another spelling of a text
(`Respelled`) differs from it in nothing else. What the reader of a module tests is the kind of a token, the keyword
that it spells, or the text of a token that is no keyword, and on these the two agree (`Token.Respells`,
`Reading.Around.Respells`).

A keyword may also serve as a name, and then it is recorded as it is spelled. Such a name is the text of the token
at a place, and the place does not depend on the spelling: the header of a declaration has its names from the same
places in every spelling (`Header.exists_places`).
-/

set_option autoImplicit false

namespace CodeAtlas

namespace Source

open Text

/-! ## Other spellings -/

/-- A token and another spelling of it: the two are equal, except that an identifier which spells a keyword may
spell it otherwise. -/
def Token.Respells (t t' : Token) : Prop :=
  t'.kind = t.kind ∧ t'.line = t.line ∧
    (t'.text = t.text ∨ t.kind = .ident ∧ t.keyword?.isSome ∧ t'.keyword? = t.keyword?)

instance (t t' : Token) : Decidable (t.Respells t') := by
  unfold Token.Respells
  infer_instance

/-- Which lines of a text are blank. -/
def blankLines (text : String) : List Bool := (linesOfChars text.toList).map (·.all isBlank)

/-- Two texts that differ in spellings of keywords only. -/
structure Respelled (text text' : String) : Prop where
  tokens : List.Forall₂ Token.Respells (lex text).tokens (lex text').tokens
  comments : (lex text').comments = (lex text).comments
  lines : blankLines text' = blankLines text

/-- Words with the same meaning: the same word, or spellings of the same keyword. -/
def SameWord (word word' : String) : Prop :=
  word' = word ∨ (Keyword.ofWord? word).isSome ∧ Keyword.ofWord? word' = Keyword.ofWord? word

theorem SameWord.ofWord?_eq {word word' : String} (h : SameWord word word') :
    Keyword.ofWord? word' = Keyword.ofWord? word := by
  rcases h with rfl | ⟨-, h⟩
  · rfl
  · exact h

/-- To a word that is no keyword the two are alike. -/
theorem SameWord.beq_eq {word word' other : String} (h : SameWord word word')
    (hother : Keyword.ofWord? other = none) : (other == word') = (other == word) := by
  rcases h with rfl | ⟨hsome, heq⟩
  · rfl
  · have hne : ∀ w, (Keyword.ofWord? w).isSome → (other == w) = false := by
      intro w hw
      rw [beq_eq_false_iff_ne]
      rintro rfl
      rw [hother] at hw
      cases hw
    rw [hne word' (heq ▸ hsome), hne word hsome]

/-- No keyword is the root of the metadata tree or the module's own object. -/
theorem not_root_of_isSome {word : String} (h : (Keyword.ofWord? word).isSome) :
    isMetadataRoot word = false ∧ isSelfReference word = false := by
  have htable : ∀ entry ∈ Keyword.table, isMetadataRoot entry.1 = false ∧ isSelfReference entry.1 = false := by
    decide +kernel
  obtain ⟨keyword, hkeyword⟩ := Option.isSome_iff_exists.mp h
  obtain ⟨front, back, hsplit, -⟩ := List.lookup_eq_some_iff.mp hkeyword
  exact htable (word, keyword) (hsplit ▸ by simp)

namespace Token.Respells

variable {t t' : Token} (h : t.Respells t')

include h

theorem kind : t'.kind = t.kind := h.1

theorem line : t'.line = t.line := h.2.1

theorem sameWord : SameWord (lower t.text) (lower t'.text) := by
  rcases h.2.2 with htext | ⟨-, hsome, hkeyword⟩
  · exact .inl (congrArg lower htext)
  · exact .inr ⟨hsome, hkeyword⟩

theorem keyword? : t'.keyword? = t.keyword? := h.sameWord.ofWord?_eq

theorem isKeyword (keyword : Keyword) : t'.isKeyword keyword = t.isKeyword keyword := by
  rw [Token.isKeyword, Token.isKeyword, h.kind, h.keyword?]

theorem isPunct (c : Char) : t'.isPunct c = t.isPunct c := by
  rw [Token.isPunct, Token.isPunct, h.kind]

/-- What is no keyword has one spelling. -/
theorem eq_of_keyword?_eq_none (hnone : t.keyword? = none) : t' = t := by
  obtain ⟨kind, text, line⟩ := t
  obtain ⟨kind', text', line'⟩ := t'
  obtain ⟨rfl, rfl, htext | ⟨-, hsome, -⟩⟩ := h
  · exact congrArg (Token.mk kind' · line') htext
  · rw [hnone] at hsome
    cases hsome

theorem eq_of_kind_ne (hkind : t.kind ≠ .ident) : t' = t := by
  obtain ⟨kind, text, line⟩ := t
  obtain ⟨kind', text', line'⟩ := t'
  obtain ⟨rfl, rfl, htext | ⟨hident, -⟩⟩ := h
  · exact congrArg (Token.mk kind' · line') htext
  · exact absurd hident hkind

theorem isMetadataRoot : isMetadataRoot (lower t'.text) = isMetadataRoot (lower t.text) := by
  rcases h.sameWord with heq | ⟨hsome, hword⟩
  · rw [heq]
  · rw [(not_root_of_isSome hsome).1, (not_root_of_isSome (hword ▸ hsome)).1]

end Token.Respells

theorem Token.Respells.refl (t : Token) : t.Respells t := ⟨rfl, rfl, .inl rfl⟩

theorem Respelled.refl (text : String) : Respelled text text :=
  ⟨List.forall₂_same.mpr fun t _ => .refl t, rfl, rfl⟩

/-! ## Places -/

/-- The texts of some tokens, which come after a number of others. -/
def TextsFrom (textAt : Nat → String) (start : Nat) (tokens : List Token) : Prop :=
  ∀ i t, tokens[i]? = some t → textAt (start + i) = t.text

/-- The text of the token at a place. -/
def textAt (tokens : List Token) (place : Nat) : String := (tokens[place]?.map (·.text)).getD ""

theorem textsFrom_textAt (tokens : List Token) : TextsFrom (textAt tokens) 0 tokens := by
  intro i t ht
  simp [textAt, ht]

namespace TextsFrom

variable {texts : Nat → String} {start : Nat} {t : Token} {tokens : List Token}

theorem head (h : TextsFrom texts start (t :: tokens)) : texts start = t.text := h 0 t rfl

theorem append {front : List Token} (h : TextsFrom texts start (front ++ tokens)) :
    TextsFrom texts (start + front.length) tokens := by
  intro i t ht
  rw [Nat.add_assoc]
  refine h (front.length + i) t ?_
  rw [List.getElem?_append_right (Nat.le_add_right _ _), Nat.add_sub_cancel_left, ht]

theorem tail (h : TextsFrom texts start (t :: tokens)) : TextsFrom texts (start + 1) tokens := by
  have hfront : TextsFrom texts start ([t] ++ tokens) := h
  exact hfront.append

end TextsFrom

/-- The tokens around a place, and another spelling of them. -/
structure Respelling (texts : Nat → String) (before after before' after' : List Token) : Prop where
  left : List.Forall₂ Token.Respells before before'
  right : List.Forall₂ Token.Respells after after'
  texts : TextsFrom texts before.length after'

namespace Respelling

variable {texts : Nat → String} {before after before' after' : List Token} {t t' : Token}

theorem pass (h : Respelling texts before (t :: after) before' (t' :: after')) :
    t.Respells t' ∧ Respelling texts (t :: before) after (t' :: before') after' := by
  obtain ⟨ht, hright⟩ := List.forall₂_cons.mp h.right
  exact ⟨ht, .cons ht h.left, hright, h.texts.tail⟩

end Respelling

theorem any_eq_of_rel {p : Token → Bool} (hp : ∀ {t t' : Token}, t.Respells t' → p t' = p t) {o o' : Option Token}
    (h : Option.Rel Token.Respells o o') : o'.any p = o.any p := by
  cases h with
  | some ht => exact hp ht
  | none => rfl

theorem rel_getElem? {tokens tokens' : List Token} (h : List.Forall₂ Token.Respells tokens tokens') (i : Nat) :
    Option.Rel Token.Respells tokens[i]? tokens'[i]? := by
  induction h generalizing i with
  | nil => exact .none
  | cons ht _ ih =>
    cases i with
    | zero => exact .some ht
    | succ i => exact ih i

theorem rel_head? {tokens tokens' : List Token} (h : List.Forall₂ Token.Respells tokens tokens') :
    Option.Rel Token.Respells tokens.head? tokens'.head? := by
  simpa [List.head?_eq_getElem?] using rel_getElem? h 0

namespace Reading

/-- The tokens around an identifier, and another spelling of them. -/
structure Around.Respells (a a' : Around) : Prop where
  before : List.Forall₂ Token.Respells a.before a'.before
  after : List.Forall₂ Token.Respells a.after a'.after

namespace Around.Respells

variable {a a' : Around} (h : a.Respells a')

include h

theorem followedBy (c : Char) : a'.followedBy c = a.followedBy c :=
  any_eq_of_rel (fun ht => ht.isPunct c) (rel_head? h.after)

theorem afterDot : a'.afterDot = a.afterDot :=
  any_eq_of_rel (fun ht => ht.isPunct '.') (rel_head? h.before)

theorem underMetadataRoot : a'.underMetadataRoot = a.underMetadataRoot :=
  any_eq_of_rel (fun ht => ht.isMetadataRoot) (rel_getElem? h.before 1)

theorem afterNew : a'.afterNew = a.afterNew :=
  any_eq_of_rel (fun ht => ht.isKeyword .new) (rel_head? h.before)

theorem startsStatement (atBodyStart : Bool) : a'.startsStatement atBodyStart = a.startsStatement atBodyStart := by
  have hbefore := h.before
  unfold Around.startsStatement
  revert hbefore
  generalize a.before = before
  generalize a'.before = before'
  intro hbefore
  cases hbefore with
  | nil => rfl
  | cons ht _ => simp only [ht.isPunct, ht.kind, ht.keyword?]

/-- The name behind the next token may be a keyword, and is spelled as it is. -/
theorem nameBehindNext? {texts : Nat → String} {start : Nat} (htexts : TextsFrom texts start a'.after) :
    a'.nameBehindNext? = a.nameBehindNext?.map fun _ => texts (start + 1) := by
  have hrel := rel_getElem? h.after 1
  have htext := htexts 1
  unfold Around.nameBehindNext?
  revert hrel htext
  generalize a.after[1]? = o
  generalize a'.after[1]? = o'
  intro hrel htext
  cases hrel with
  | none => rfl
  | @some t t' ht =>
    simp only [Option.bind_eq_bind, Option.bind_some, ht.kind]
    split
    · exact congrArg some (htext t' rfl).symm
    · rfl

end Around.Respells

end Reading

theorem Respelling.around {texts : Nat → String} {before after before' after' : List Token} {t t' : Token}
    (h : Respelling texts before (t :: after) before' (t' :: after')) :
    Reading.Around.Respells ⟨before, after⟩ ⟨before', after'⟩ :=
  ⟨h.left, h.pass.2.right⟩

/-! ## Headers -/

/-- What a token does where parameters are read. -/
structure ParamStep where
  depth : Nat
  expectName : Bool
  isName : Bool := false

/-- How reading parameters goes on behind a token, unless it ends there. -/
def paramStep? (depth : Nat) (expectName : Bool) (token : Token) : Option ParamStep :=
  match token.kind with
  | .punct '(' => some { depth := depth + 1, expectName }
  | .punct ')' => if depth = 0 then none else some { depth := depth - 1, expectName }
  | .punct ',' => some { depth, expectName := expectName || depth == 0 }
  | .punct '=' => some { depth, expectName := false }
  | .ident =>
    if expectName && token.keyword? != some .val then some { depth, expectName := false, isName := true }
    else some { depth, expectName }
  | _ => some { depth, expectName }

section ReadParams

variable {depth : Nat} {expectName : Bool} {token : Token}

theorem readParams_of_none (h : paramStep? depth expectName token = none) (rest : List Token) :
    readParams depth expectName (token :: rest) = ([], rest) := by
  unfold paramStep? at h
  split at h
  · cases h
  · rename_i hkind
    split at h
    · rename_i hdepth
      simp [readParams, hkind, hdepth]
    · cases h
  · cases h
  · cases h
  · split at h <;> cases h
  · cases h

theorem readParams_of_some {step : ParamStep} (h : paramStep? depth expectName token = some step)
    (rest : List Token) : readParams depth expectName (token :: rest) =
      let read := readParams step.depth step.expectName rest
      (if step.isName then token.text :: read.1 else read.1, read.2) := by
  unfold paramStep? at h
  split at h
  · rename_i hkind
    cases h
    simp [readParams, hkind]
  · rename_i hkind
    split at h
    · cases h
    · rename_i hdepth
      cases h
      simp [readParams, hkind, hdepth]
  · rename_i hkind
    cases h
    simp [readParams, hkind]
  · rename_i hkind
    cases h
    simp [readParams, hkind]
  · rename_i hkind
    split at h
    · rename_i hname
      cases h
      rw [readParams, hkind]
      exact if_pos hname
    · rename_i hname
      cases h
      rw [readParams, hkind]
      exact if_neg hname
  · cases h
    rw [readParams]
    split <;> simp_all

end ReadParams

theorem Token.Respells.paramStep? {t t' : Token} (h : t.Respells t') (depth : Nat) (expectName : Bool) :
    paramStep? depth expectName t' = Source.paramStep? depth expectName t := by
  unfold Source.paramStep?
  rw [h.kind, h.keyword?]

/-- Names that are known as the same values. -/
def SameName (name name' : String) : Prop := SameWord (lower name) (lower name')

/-- Parameters with the tokens behind them, and those of another spelling: their names are the texts at the same
places. -/
structure ParamsRespell (texts : Nat → String) (places : List Nat) (read read' : List String × List Token) :
    Prop where
  names : read'.1 = places.map texts
  same : List.Forall₂ SameName read.1 read'.1
  rest : List.Forall₂ Token.Respells read.2 read'.2

theorem exists_places_readParams (tokens : List Token) (depth : Nat) (expectName : Bool) (start : Nat) :
    ∃ places, ∀ texts tokens', List.Forall₂ Token.Respells tokens tokens' → TextsFrom texts start tokens' →
      ParamsRespell texts places (readParams depth expectName tokens) (readParams depth expectName tokens') := by
  induction tokens generalizing depth expectName start with
  | nil =>
    refine ⟨[], fun texts tokens' h _ => ?_⟩
    cases h
    exact ⟨rfl, .nil, .nil⟩
  | cons t tokens ih =>
    cases hstep : paramStep? depth expectName t with
    | none =>
      refine ⟨[], fun texts tokens' h _ => ?_⟩
      cases h with
      | cons ht htokens =>
        rw [readParams_of_none hstep, readParams_of_none ((ht.paramStep? depth expectName).trans hstep)]
        exact ⟨rfl, .nil, htokens⟩
    | some step =>
      obtain ⟨places, hplaces⟩ := ih step.depth step.expectName (start + 1)
      refine ⟨if step.isName then start :: places else places, fun texts tokens' h htexts => ?_⟩
      cases h with
      | cons ht htokens =>
        have hread := hplaces texts _ htokens htexts.tail
        rw [readParams_of_some hstep, readParams_of_some ((ht.paramStep? depth expectName).trans hstep)]
        cases step.isName with
        | true => exact ⟨congrArg₂ List.cons htexts.head.symm hread.names, .cons ht.sameWord hread.same, hread.rest⟩
        | false => exact ⟨hread.names, hread.same, hread.rest⟩

theorem exists_places_readParamList (tokens : List Token) (start : Nat) :
    ∃ places, ∀ texts tokens', List.Forall₂ Token.Respells tokens tokens' → TextsFrom texts start tokens' →
      ParamsRespell texts places (readParamList tokens) (readParamList tokens') := by
  cases tokens with
  | nil =>
    refine ⟨[], fun texts tokens' h _ => ?_⟩
    cases h
    exact ⟨rfl, .nil, .nil⟩
  | cons t tokens =>
    rw [readParamList]
    split
    · rename_i hopen
      obtain ⟨places, hplaces⟩ := exists_places_readParams tokens 0 true (start + 1)
      refine ⟨places, fun texts tokens' h htexts => ?_⟩
      cases h with
      | cons ht htokens =>
        rw [readParamList, ht.isPunct, if_pos hopen]
        exact hplaces texts _ htokens htexts.tail
    · rename_i hopen
      refine ⟨[], fun texts tokens' h _ => ?_⟩
      cases h with
      | cons ht htokens =>
        rw [readParamList, ht.isPunct, if_neg hopen]
        exact ⟨rfl, .nil, .cons ht htokens⟩

theorem readExport_respelled {tokens tokens' : List Token} (h : List.Forall₂ Token.Respells tokens tokens') :
    (readExport tokens').1 = (readExport tokens).1 ∧
      List.Forall₂ Token.Respells (readExport tokens).2 (readExport tokens').2 := by
  cases h with
  | nil => exact ⟨rfl, .nil⟩
  | cons ht htokens =>
    rw [readExport, readExport, ht.isKeyword]
    split
    · exact ⟨rfl, htokens⟩
    · exact ⟨rfl, .cons ht htokens⟩

/-- A header, and the header that another spelling of its tokens makes: its names are the texts at the same
places. -/
structure Header.Respells (texts : Nat → String) (name : Nat) (params : List Nat) (header header' : Header) :
    Prop where
  name : header'.name = texts name
  params : header'.params = params.map texts
  sameParams : List.Forall₂ SameName header.params header'.params
  isExport : header'.isExport = header.isExport
  rest : List.Forall₂ Token.Respells header.rest header'.rest

theorem Header.read?_eq_none_respelled {tokens tokens' : List Token}
    (h : List.Forall₂ Token.Respells tokens tokens') (hnone : Header.read? tokens = none) :
    Header.read? tokens' = none := by
  cases h with
  | nil => rfl
  | cons ht _ =>
    rw [Header.read?] at hnone ⊢
    rw [ht.kind]
    split at hnone
    · cases hnone
    · rename_i hkind
      rw [if_neg hkind]

theorem Header.exists_places {tokens : List Token} {header : Header} (h : Header.read? tokens = some header)
    (start : Nat) : ∃ params : List Nat, ∀ texts tokens', List.Forall₂ Token.Respells tokens tokens' →
      TextsFrom texts start tokens' → ∃ header', Header.read? tokens' = some header' ∧
        header.Respells texts start params header' := by
  cases tokens with
  | nil => cases h
  | cons name rest =>
    rw [Header.read?] at h
    split at h
    · rename_i hkind
      cases h
      obtain ⟨params, hparams⟩ := exists_places_readParamList rest (start + 1)
      refine ⟨params, fun texts tokens' hrespells htexts => ?_⟩
      cases hrespells with
      | cons ht hrest =>
        have hread := hparams texts _ hrest htexts.tail
        obtain ⟨hexport, hleft⟩ := readExport_respelled hread.rest
        rw [Header.read?, if_pos (ht.kind.trans hkind)]
        exact ⟨_, rfl, htexts.head.symm, hread.names, hread.same, hexport, hleft⟩
    · cases h

end Source

end CodeAtlas
