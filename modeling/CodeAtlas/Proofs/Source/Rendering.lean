import CodeAtlas.Proofs.Source.Lexemes
import Mathlib.Data.List.DropRight

/-!
# Tokens written again

A token knows how it is written: as it is, between its quotes, or behind its mark. Written each on a line of
its own, tokens stand apart, so that reading them again gives the same ones (`lex_render_lex`).

What makes this work is what a token's text can hold (`Fits`): an identifier goes on as long as it can, so
that the line break ends it, and the body of a literal holds no delimiter that could end it early. A string
that was not closed before is closed now; its body is none the shorter, because its quotes come in pairs. A
preprocessor line has no blanks at its ends left to lose.
-/

set_option autoImplicit false

namespace CodeAtlas.Text

theorem trimChars_trimChars (cs : List Char) : trimChars (trimChars cs) = trimChars cs := by
  have htrim : ∀ cs, trimChars cs = (cs.dropWhile isBlank).rdropWhile isBlank := fun _ => rfl
  have hfront : (trimChars cs).dropWhile isBlank = trimChars cs := by
    rw [htrim]
    obtain ⟨tail, htail⟩ := List.rdropWhile_prefix isBlank (cs.dropWhile isBlank)
    cases h : (cs.dropWhile isBlank).rdropWhile isBlank with
    | nil => rfl
    | cons c front =>
      have hhead := List.head?_dropWhile_not isBlank cs
      rw [← htail, h] at hhead
      exact List.dropWhile_cons_of_neg (by simpa using hhead)
  rw [htrim (trimChars cs), hfront, htrim, List.rdropWhile_idempotent]

theorem mem_of_mem_trimChars {c : Char} {cs : List Char} (h : c ∈ trimChars cs) : c ∈ cs :=
  (List.dropWhile_sublist isBlank).mem ((List.rdropWhile_prefix isBlank _).mem h)

end CodeAtlas.Text

namespace CodeAtlas.Source

open Text

/-! ## How tokens are written -/

/-- A token of the given kind and text, with the delimiters that its text leaves out. -/
def TokenKind.written (kind : TokenKind) (text : List Char) : List Char :=
  match kind with
  | .ident | .number | .punct _ => text
  | .str => '"' :: (text ++ ['"'])
  | .date => dateQuote :: (text ++ [dateQuote])
  | .directive => '&' :: text
  | .preproc => '#' :: text

/-- A token on a line of its own. -/
def Token.writtenLine (t : Token) : List Char := t.kind.written t.text.toList ++ ['\n']

/-- Tokens, each on a line of its own. -/
def render (tokens : List Token) : String := String.ofList (tokens.flatMap Token.writtenLine)

/-! ## What a token's text can hold -/

inductive Fits : TokenKind → List Char → Prop
  | str {text : List Char} (h : Quoted text) : Fits .str text
  | date {text : List Char} (h : ∀ c ∈ text, inDate c = true) : Fits .date text
  | preproc {text : List Char} (h : ∀ c ∈ text, inLine c = true) (trimmed : trimChars text = text) :
      Fits .preproc text
  | directive {text : List Char} (h : ∀ c ∈ text, isIdentContinue c = true) : Fits .directive text
  | ident {c : Char} {text : List Char} (start : isIdentStart c = true)
      (h : ∀ c ∈ text, isIdentContinue c = true) : Fits .ident (c :: text)
  | number {c : Char} {text : List Char} (start : isDigit c = true)
      (h : ∀ c ∈ text, isNumberContinue c = true) : Fits .number (c :: text)
  | punct {c : Char} (lone : Lexeme.Lone c) : Fits (.punct c) [c]

theorem Spells.fits {kind : TokenKind} {text span : List Char} (spells : Spells (.token kind text) span) :
    Fits kind text := by
  cases spells with
  | str h => exact .str h
  | date h => exact .date h
  | preproc h => exact .preproc (fun c hc => h c (mem_of_mem_trimChars hc)) (trimChars_trimChars _)
  | directive h => exact .directive h
  | ident start h => exact .ident start h
  | number start h => exact .number start h
  | punct lone => exact .punct lone

theorem fits_of_mem_lex {text : String} {t : Token} (ht : t ∈ (lex text).tokens) :
    Fits t.kind t.text.toList := by
  obtain ⟨p, hp, records⟩ := exists_piece ht
  exact (records.item ▸ (tiles_pieces text).spelled p hp).fits

/-! ## Reading a written token -/

/-- A body whose quotes come in pairs ends where its literal is closed, unless a further quote follows. -/
theorem stringBody_quoted {body : List Char} (h : Quoted body) (rest : List Char) :
    stringBody (body ++ '"' :: '\n' :: rest) = (body, '\n' :: rest) := by
  induction h with
  | nil => simp [stringBody]
  | pair _ ih => simp [stringBody, ih]
  | other hc _ ih => simp [stringBody, hc, ih]

theorem takeWhile_body {p : Char → Bool} {body : List Char} (h : ∀ c ∈ body, p c = true) {stop : Char}
    (hstop : p stop = false) (rest : List Char) : (body ++ stop :: rest).takeWhile p = body := by
  rw [List.takeWhile_append_of_pos h, List.takeWhile_cons_of_neg (by simp [hstop]), List.append_nil]

theorem dropWhile_body {p : Char → Bool} {body : List Char} (h : ∀ c ∈ body, p c = true) {stop : Char}
    (hstop : p stop = false) (rest : List Char) :
    (body ++ stop :: rest).dropWhile p = stop :: rest := by
  rw [List.dropWhile_append_of_pos h, List.dropWhile_cons_of_neg (by simp [hstop])]

/-- A written token at the end of its line is one lexeme. -/
theorem Fits.next {kind : TokenKind} {text : List Char} (fits : Fits kind text) (rest : List Char) :
    ∃ c cs, kind.written text ++ '\n' :: rest = c :: cs ∧
      (Lexeme.next c cs).item = .token kind text ∧ (Lexeme.next c cs).rest = '\n' :: rest := by
  cases fits with
  | str h =>
    refine ⟨'"', text ++ '"' :: '\n' :: rest, by simp [TokenKind.written], ?_, ?_⟩
    · rw [Lexeme.next_str, stringBody_quoted h]
    · rw [Lexeme.next_str, stringBody_quoted h]
  | date h =>
    have hquote : inDate dateQuote = false := rfl
    refine ⟨dateQuote, text ++ dateQuote :: '\n' :: rest, by simp [TokenKind.written], ?_, ?_⟩
    · rw [Lexeme.next_date, takeWhile_body h hquote]
    · rw [Lexeme.next_date, dropWhile_body h hquote, List.tail_cons]
  | preproc h trimmed =>
    refine ⟨'#', text ++ '\n' :: rest, rfl, ?_, ?_⟩
    · rw [Lexeme.next_preproc, takeWhile_body h rfl, trimmed]
    · rw [Lexeme.next_preproc, dropWhile_body h rfl]
  | directive h =>
    refine ⟨'&', text ++ '\n' :: rest, rfl, ?_, ?_⟩
    · rw [Lexeme.next_directive, takeWhile_body h rfl]
    · rw [Lexeme.next_directive, dropWhile_body h rfl]
  | @ident c body start h =>
    refine ⟨c, body ++ '\n' :: rest, rfl, ?_, ?_⟩
    · rw [Lexeme.next_ident start, takeWhile_body h rfl]
    · rw [Lexeme.next_ident start, dropWhile_body h rfl]
  | @number c body start h =>
    refine ⟨c, body ++ '\n' :: rest, rfl, ?_, ?_⟩
    · rw [Lexeme.next_number start, takeWhile_body h rfl]
    · rw [Lexeme.next_number start, dropWhile_body h rfl]
  | @punct c lone =>
    -- Two slashes would be a comment, but what follows is the end of the line.
    have hslash : c = '/' → ('\n' :: rest).head? ≠ some '/' := by simp
    refine ⟨c, '\n' :: rest, rfl, ?_, ?_⟩
    · rw [Lexeme.next_punct lone hslash]
    · rw [Lexeme.next_punct lone hslash]

theorem lexFrom_lineBreak (line : Nat) (cs : List Char) : lexFrom line ('\n' :: cs) = lexFrom (line + 1) cs := by
  rw [lexFrom, Lexeme.next_blank rfl]
  rfl

/-- A written line gives its token and nothing else. -/
theorem Fits.lexFrom {kind : TokenKind} {text : List Char} (fits : Fits kind text) (line : Nat)
    (rest : List Char) : ∃ recorded behind,
      Source.lexFrom line (kind.written text ++ '\n' :: rest) =
        { Source.lexFrom behind rest with
          tokens := ⟨kind, String.ofList text, recorded⟩ :: (Source.lexFrom behind rest).tokens } := by
  obtain ⟨c, cs, hwritten, hitem, hrest⟩ := fits.next rest
  refine ⟨line + (Lexeme.next c cs).lead, line + (Lexeme.next c cs).breaks + 1, ?_⟩
  rw [hwritten, Source.lexFrom, hitem, hrest, lexFrom_lineBreak]

/-- What a token is, wherever it stands. -/
def Token.kindAndText (t : Token) : TokenKind × String := (t.kind, t.text)

theorem lexFrom_writtenLines (line : Nat) {tokens : List Token}
    (h : ∀ t ∈ tokens, Fits t.kind t.text.toList) :
    (lexFrom line (tokens.flatMap Token.writtenLine)).tokens.map Token.kindAndText =
        tokens.map Token.kindAndText ∧
      (lexFrom line (tokens.flatMap Token.writtenLine)).comments = [] := by
  induction tokens generalizing line with
  | nil =>
    rw [List.flatMap_nil, lexFrom]
    exact ⟨rfl, rfl⟩
  | cons t tokens ih =>
    obtain ⟨hfirst, hothers⟩ := List.forall_mem_cons.mp h
    obtain ⟨recorded, behind, hlex⟩ := hfirst.lexFrom line (tokens.flatMap Token.writtenLine)
    obtain ⟨htokens, hcomments⟩ := ih behind hothers
    rw [List.flatMap_cons, Token.writtenLine, List.append_assoc, List.singleton_append, hlex]
    exact ⟨by simp [htokens, Token.kindAndText], hcomments⟩

/-- **Tokens are the same when they are written and read again**, whatever text they come from, and there are
no comments among them. -/
theorem lex_render_lex (text : String) :
    (lex (render (lex text).tokens)).tokens.map Token.kindAndText =
        (lex text).tokens.map Token.kindAndText ∧
      (lex (render (lex text).tokens)).comments = [] := by
  rw [render, lex, String.toList_ofList]
  exact lexFrom_writtenLines 1 fun t ht => fits_of_mem_lex ht

end CodeAtlas.Source
