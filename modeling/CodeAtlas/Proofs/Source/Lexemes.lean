import CodeAtlas.Source.Token
import Mathlib.Data.List.Forall2
import Mathlib.Data.List.TakeWhile
import Mathlib.Tactic.Common

/-!
# Where tokens stand

A text is cut into lexemes, one after the other, with nothing between them and nothing lost (`Tiles`). What
its first character begins is told by that character, except that a slash has to see whether another one
follows (`Lexeme.opening`). How a lexeme is written is known in turn from its item (`Spells`).

So every token and every comment has a place in its text, and its line can be compared with the line breaks
before that place (`line_eq_iff_not_cut`). The two agree, with one exception: a date literal that the end of
its line cuts off is recorded one line late (`cut_date_is_late`). Lines never go down all the same, and no
other token is recorded under a line that the text does not have.
-/

set_option autoImplicit false

namespace CodeAtlas.Text

/-! ## Lines of a text -/

theorem splitOnChars_ne_nil (sep : Char → Bool) (cs : List Char) : splitOnChars sep cs ≠ [] := by
  fun_induction splitOnChars sep cs <;> simp_all

/-- A line break begins a line of its own; any other character stands on the first line. -/
theorem length_linesOfChars_cons (c : Char) (cs : List Char) :
    (linesOfChars (c :: cs)).length =
      if c = '\n' then (linesOfChars cs).length + 1 else max 1 (linesOfChars cs).length := by
  -- The piece behind the last break is no line if it is empty, so that it matters which piece is the last one.
  obtain ⟨piece, rest, hsplit⟩ := List.exists_cons_of_ne_nil (splitOnChars_ne_nil (· == '\n') cs)
  by_cases hc : c = '\n'
  · subst hc
    simp only [linesOfChars, splitOnChars, beq_self_eq_true, hsplit, List.getLast?_cons_cons, if_true]
    split <;> simp
  · have hc' : (c == '\n') = false := beq_eq_false_iff_ne.mpr hc
    simp only [linesOfChars, splitOnChars, hc', hsplit, if_neg hc]
    cases rest with
    | nil =>
      cases piece <;> simp
    | cons next rest =>
      simp only [List.getLast?_cons_cons]
      split <;> simp

/-- A character that breaks no line stands on one of the lines. -/
theorem lt_length_linesOfChars (before : List Char) {c : Char} (hc : c ≠ '\n') (after : List Char) :
    before.count '\n' < (linesOfChars (before ++ c :: after)).length := by
  induction before with
  | nil =>
    rw [List.nil_append, length_linesOfChars_cons, if_neg hc]
    exact Nat.lt_of_lt_of_le Nat.one_pos (Nat.le_max_left _ _)
  | cons d before ih =>
    rw [List.cons_append, length_linesOfChars_cons]
    by_cases hd : d = '\n'
    · rw [if_pos hd, hd, List.count_cons_self]
      exact Nat.succ_lt_succ ih
    · rw [if_neg hd, List.count_cons_of_ne hd]
      exact Nat.lt_of_lt_of_le ih (Nat.le_max_right _ _)

end CodeAtlas.Text

namespace CodeAtlas.Source

open Text

/-! ## Classes of characters -/

/-- The blanks one by one. -/
def blankPoints : List Nat :=
  [9, 10, 11, 12, 13, 32, 133, 160, 5760, 8192, 8193, 8194, 8195, 8196, 8197, 8198, 8199, 8200, 8201, 8202,
   8232, 8233, 8239, 8287, 12288]

theorem mem_blankPoints {c : Char} (h : isBlank c = true) : c.toNat ∈ blankPoints := by
  simp [isBlank, CodeRanges.contains, CodeRanges.containsPoint, blankRanges] at h
  simp [blankPoints]
  omega

/-- No identifier begins with a blank. -/
theorem isBlank_of_isIdentStart {c : Char} (h : isIdentStart c = true) : isBlank c = false := by
  have hpoints : ∀ n ∈ blankPoints, alphabeticRanges.containsPoint n = false ∧ n ≠ '_'.toNat := by
    decide +kernel
  by_contra hb
  obtain ⟨halpha, hne⟩ := hpoints _ (mem_blankPoints (eq_true_of_ne_false hb))
  rcases Bool.or_eq_true _ _ ▸ h with h | h
  · exact absurd (halpha.symm.trans h) (by simp)
  · exact hne (congrArg Char.toNat (eq_of_beq h))

theorem mem_digitPoints {c : Char} (h : isDigit c = true) : c.toNat ∈ List.range' 48 10 := by
  have hbounds : '0'.toNat ≤ c.toNat ∧ c.toNat ≤ '9'.toNat := by
    simpa [isDigit, Char.le_def, UInt32.le_iff_toNat_le] using h
  exact List.mem_range'_1.mpr ⟨hbounds.1, Nat.lt_succ_of_le hbounds.2⟩

namespace Lexeme

variable {c : Char}

theorem next_str (cs : List Char) : next '"' cs =
    { item := .token .str (stringBody cs).1, breaks := lineBreaks (stringBody cs).1,
      rest := (stringBody cs).2 } := rfl

theorem next_date (cs : List Char) : next dateQuote cs =
    { item := .token .date (cs.takeWhile inDate)
      lead := if (cs.dropWhile inDate).head? == some '\n' then 1 else 0
      breaks := if (cs.dropWhile inDate).head? == some '\n' then 1 else 0
      rest := (cs.dropWhile inDate).tail } := rfl

theorem next_comment (cs : List Char) : next '/' ('/' :: cs) =
    { item := .comment (cs.takeWhile inLine), rest := cs.dropWhile inLine } := rfl

theorem next_preproc (cs : List Char) : next '#' cs =
    { item := .token .preproc (trimChars (cs.takeWhile inLine)), rest := cs.dropWhile inLine } := rfl

theorem next_directive (cs : List Char) : next '&' cs =
    { item := .token .directive (cs.takeWhile isIdentContinue), rest := cs.dropWhile isIdentContinue } := rfl

theorem next_blank (h : isBlank c = true) (cs : List Char) : next c cs =
    { item := .skip, breaks := lineBreaks [c], rest := cs } := by
  unfold next
  by_cases hc : c = '\n'
  · subst hc
    rfl
  · simp [hc, h, lineBreaks]

theorem next_ident (h : isIdentStart c = true) (cs : List Char) : next c cs =
    { item := .token .ident (c :: cs.takeWhile isIdentContinue), rest := cs.dropWhile isIdentContinue } := by
  have hne : ∀ d, isIdentStart d = false → (c == d) = false := by
    intro d hd
    rw [beq_eq_false_iff_ne]
    rintro rfl
    rw [h] at hd
    cases hd
  simp only [next, hne '\n' rfl, isBlank_of_isIdentStart h, hne '/' rfl, hne '"' rfl, hne dateQuote rfl,
    hne '#' rfl, hne '&' rfl, h, Bool.false_and, Bool.false_eq_true, if_false, if_true]

theorem next_number (h : isDigit c = true) (cs : List Char) : next c cs =
    { item := .token .number (c :: cs.takeWhile isNumberContinue), rest := cs.dropWhile isNumberContinue } := by
  have hpoints : ∀ n ∈ List.range' 48 10, blankRanges.containsPoint n = false ∧
      alphabeticRanges.containsPoint n = false := by
    decide +kernel
  obtain ⟨hblank, halpha⟩ := hpoints _ (mem_digitPoints h)
  have hne : ∀ d, isDigit d = false → (c == d) = false := by
    intro d hd
    rw [beq_eq_false_iff_ne]
    rintro rfl
    rw [h] at hd
    cases hd
  have hstart : isIdentStart c = false := by
    rw [isIdentStart, hne '_' rfl, Bool.or_false]
    exact halpha
  have hb : isBlank c = false := hblank
  simp only [next, hne '\n' rfl, hb, hne '/' rfl, hne '"' rfl, hne dateQuote rfl, hne '#' rfl, hne '&' rfl,
    hstart, h, Bool.false_and, Bool.false_eq_true, if_false, if_true]

/-- A character that begins nothing but punctuation; two slashes are another matter. -/
structure Lone (c : Char) : Prop where
  notBlank : isBlank c = false
  notMark : c ∉ ['"', dateQuote, '#', '&']
  notStart : isIdentStart c = false
  notDigit : isDigit c = false

theorem next_punct (lone : Lone c) {cs : List Char} (h : c = '/' → cs.head? ≠ some '/') : next c cs =
    { item := .token (.punct c) [c], rest := cs } := by
  have hbreak : (c == '\n') = false := by
    rw [beq_eq_false_iff_ne]
    rintro rfl
    exact absurd lone.notBlank (by decide)
  have hslash : (c == '/' && cs.head? == some '/') = false := by
    rw [Bool.and_eq_false_imp]
    exact fun hc => beq_eq_false_iff_ne.mpr (h (eq_of_beq hc))
  have hmarks := lone.notMark
  simp only [List.mem_cons, List.not_mem_nil, or_false, not_or, ← beq_eq_false_iff_ne] at hmarks
  simp only [next, hbreak, lone.notBlank, hslash, hmarks, lone.notStart, lone.notDigit, Bool.false_eq_true,
    if_false]

/-- What the first character of a text begins. -/
inductive Opening : Char → List Char → Prop
  | blank {c : Char} {cs : List Char} (h : isBlank c = true) : Opening c cs
  | comment (cs : List Char) : Opening '/' ('/' :: cs)
  | str (cs : List Char) : Opening '"' cs
  | date (cs : List Char) : Opening dateQuote cs
  | preproc (cs : List Char) : Opening '#' cs
  | directive (cs : List Char) : Opening '&' cs
  | ident {c : Char} {cs : List Char} (h : isIdentStart c = true) : Opening c cs
  | number {c : Char} {cs : List Char} (h : isDigit c = true) : Opening c cs
  | punct {c : Char} {cs : List Char} (lone : Lone c) (h : c = '/' → cs.head? ≠ some '/') : Opening c cs

theorem opening (c : Char) (cs : List Char) : Opening c cs := by
  by_cases hblank : isBlank c = true
  · exact .blank hblank
  by_cases hcomment : c = '/' ∧ cs.head? = some '/'
  · obtain ⟨rfl, hhead⟩ := hcomment
    obtain ⟨tail, rfl⟩ := List.head?_eq_some_iff.mp hhead
    exact .comment tail
  by_cases hmark : c ∈ ['"', dateQuote, '#', '&']
  · simp only [List.mem_cons, List.not_mem_nil, or_false] at hmark
    rcases hmark with rfl | rfl | rfl | rfl
    · exact .str cs
    · exact .date cs
    · exact .preproc cs
    · exact .directive cs
  by_cases hstart : isIdentStart c = true
  · exact .ident hstart
  by_cases hdigit : isDigit c = true
  · exact .number hdigit
  rw [Bool.not_eq_true] at hblank hstart hdigit
  exact .punct ⟨hblank, hmark, hstart, hdigit⟩ fun hc hhead => hcomment ⟨hc, hhead⟩

end Lexeme

/-! ## What lexemes are written as -/

/-- The body of a string literal: a quote stands in it only twice in a row. -/
inductive Quoted : List Char → Prop
  | nil : Quoted []
  | pair {cs : List Char} : Quoted cs → Quoted ('"' :: '"' :: cs)
  | other {c : Char} {cs : List Char} : c ≠ '"' → Quoted cs → Quoted (c :: cs)

theorem quoted_stringBody (cs : List Char) : Quoted (stringBody cs).1 := by
  fun_induction stringBody cs with
  | case1 => exact .nil
  | case2 cs body rest h ih =>
    rw [h] at ih
    exact .pair ih
  | case3 => exact .nil
  | case4 c cs _ hne body rest h ih =>
    rw [h] at ih
    exact .other hne ih

/-- A string literal ends at its closing quote, or with the text. -/
theorem stringBody_eq (cs : List Char) :
    cs = (stringBody cs).1 ++ '"' :: (stringBody cs).2 ∨
      cs = (stringBody cs).1 ∧ (stringBody cs).2 = [] := by
  fun_induction stringBody cs with
  | case1 => exact .inr ⟨rfl, rfl⟩
  | case2 cs body rest h ih => simpa [h] using ih
  | case3 => exact .inl rfl
  | case4 c cs _ hne body rest h ih => simpa [h] using ih

/-! ## Line breaks -/

@[simp] theorem lineBreaks_nil : lineBreaks [] = 0 := rfl

@[simp] theorem lineBreaks_append (left right : List Char) :
    lineBreaks (left ++ right) = lineBreaks left + lineBreaks right := List.count_append

theorem lineBreaks_cons {c : Char} (h : c ≠ '\n') (cs : List Char) : lineBreaks (c :: cs) = lineBreaks cs :=
  List.count_cons_of_ne h

/-- A class without the line break holds nothing that breaks a line. -/
theorem lineBreaks_eq_zero {p : Char → Bool} (hp : p '\n' = false) {cs : List Char}
    (h : ∀ c ∈ cs, p c = true) : lineBreaks cs = 0 := by
  refine List.count_eq_zero.mpr fun hmem => ?_
  rw [h _ hmem] at hp
  cases hp

/-- How an item is written. Only a string or a date may lack its end, a string where the text ends and a date
where the line or the text ends. -/
inductive Spells : Item → List Char → Prop
  | blank {c : Char} (h : isBlank c = true) : Spells .skip [c]
  | comment {body : List Char} (h : ∀ c ∈ body, inLine c = true) :
      Spells (.comment body) ('/' :: '/' :: body)
  | str {body close : List Char} (h : Quoted body) (ends : close = ['"'] ∨ close = []) :
      Spells (.token .str body) ('"' :: (body ++ close))
  | date {body close : List Char} (h : ∀ c ∈ body, inDate c = true)
      (ends : close = [dateQuote] ∨ close = ['\n'] ∨ close = []) :
      Spells (.token .date body) (dateQuote :: (body ++ close))
  | preproc {body : List Char} (h : ∀ c ∈ body, inLine c = true) :
      Spells (.token .preproc (trimChars body)) ('#' :: body)
  | directive {body : List Char} (h : ∀ c ∈ body, isIdentContinue c = true) :
      Spells (.token .directive body) ('&' :: body)
  | ident {c : Char} {body : List Char} (start : isIdentStart c = true)
      (h : ∀ c ∈ body, isIdentContinue c = true) : Spells (.token .ident (c :: body)) (c :: body)
  | number {c : Char} {body : List Char} (start : isDigit c = true)
      (h : ∀ c ∈ body, isNumberContinue c = true) : Spells (.token .number (c :: body)) (c :: body)
  | punct {c : Char} (lone : Lexeme.Lone c) : Spells (.token (.punct c) [c]) [c]

def Item.isDate : Item → Bool
  | .token .date _ => true
  | _ => false

namespace Lexeme

/-- What a lexeme takes off the front of a text, and what it knows of the line breaks in it. -/
structure Covers (l : Lexeme) (span : List Char) : Prop where
  spells : Spells l.item span
  breaks : l.breaks = lineBreaks span
  lead : l.lead = if l.item.isDate then lineBreaks span else 0

theorem covers_date (cs : List Char) : ∃ span, dateQuote :: cs = span ++ (next dateQuote cs).rest ∧
    (next dateQuote cs).Covers span := by
  have hbody : ∀ c ∈ cs.takeWhile inDate, inDate c = true := fun _ => List.mem_takeWhile_imp
  have hbreaks : ∀ close : List Char,
      lineBreaks (dateQuote :: (cs.takeWhile inDate ++ close)) = lineBreaks close := by
    intro close
    rw [lineBreaks_cons (by decide), lineBreaks_append, lineBreaks_eq_zero rfl hbody, Nat.zero_add]
  have hsplit : cs.takeWhile inDate ++ cs.dropWhile inDate = cs := List.takeWhile_append_dropWhile
  rw [next_date]
  cases hrest : cs.dropWhile inDate with
  | nil =>
    rw [hrest] at hsplit
    exact ⟨dateQuote :: (cs.takeWhile inDate ++ []), by simp [hsplit], .date hbody (.inr (.inr rfl)),
      (hbreaks []).symm, (hbreaks []).symm⟩
  | cons d rest =>
    have hspan : dateQuote :: cs = dateQuote :: (cs.takeWhile inDate ++ [d]) ++ rest := by
      rw [List.cons_append, List.append_assoc, List.singleton_append, ← hrest, hsplit]
    have hd : inDate d = false := by
      have := List.head?_dropWhile_not inDate cs
      rw [hrest] at this
      exact this
    have hends : d = dateQuote ∨ d = '\n' := by
      by_contra hno
      simp [inDate, not_or.mp hno] at hd
    rcases hends with rfl | rfl
    · exact ⟨_, hspan, .date hbody (.inl rfl), (hbreaks [dateQuote]).symm, (hbreaks [dateQuote]).symm⟩
    · exact ⟨_, hspan, .date hbody (.inr (.inl rfl)), (hbreaks ['\n']).symm, (hbreaks ['\n']).symm⟩

/-- A lexeme is a piece of the text. -/
theorem exists_covers (c : Char) (cs : List Char) :
    ∃ span, c :: cs = span ++ (next c cs).rest ∧ (next c cs).Covers span := by
  have hsplit : ∀ p : Char → Bool, ∀ cs : List Char, cs = cs.takeWhile p ++ cs.dropWhile p :=
    fun p cs => List.takeWhile_append_dropWhile.symm
  have hnone : ∀ p : Char → Bool, p '\n' = false → ∀ cs : List Char, lineBreaks (cs.takeWhile p) = 0 :=
    fun p hp cs => lineBreaks_eq_zero hp fun _ => List.mem_takeWhile_imp
  cases opening c cs with
  | blank h =>
    rw [next_blank h]
    exact ⟨[c], rfl, .blank h, rfl, rfl⟩
  | comment body =>
    rw [next_comment]
    refine ⟨'/' :: '/' :: body.takeWhile inLine, by simp, .comment (fun _ => List.mem_takeWhile_imp), ?_, rfl⟩
    rw [lineBreaks_cons (by decide), lineBreaks_cons (by decide), hnone inLine rfl]
  | str cs =>
    rw [next_str]
    rcases stringBody_eq cs with he | ⟨he, hrest⟩
    · refine ⟨'"' :: ((stringBody cs).1 ++ ['"']), ?_, .str (quoted_stringBody cs) (.inl rfl), ?_, rfl⟩
      · rw [List.cons_append, List.append_assoc, List.singleton_append, ← he]
      · simp [lineBreaks_cons]
    · refine ⟨'"' :: ((stringBody cs).1 ++ []), ?_, .str (quoted_stringBody cs) (.inr rfl), ?_, rfl⟩
      · rw [hrest, List.append_nil, List.append_nil, ← he]
      · simp [lineBreaks_cons]
  | date cs => exact covers_date cs
  | preproc cs =>
    rw [next_preproc]
    refine ⟨'#' :: cs.takeWhile inLine, by simp, .preproc (fun _ => List.mem_takeWhile_imp), ?_, rfl⟩
    rw [lineBreaks_cons (by decide), hnone inLine rfl]
  | directive cs =>
    rw [next_directive]
    refine ⟨'&' :: cs.takeWhile isIdentContinue, by simp, .directive (fun _ => List.mem_takeWhile_imp), ?_, rfl⟩
    rw [lineBreaks_cons (by decide), hnone isIdentContinue rfl]
  | ident h =>
    rw [next_ident h]
    refine ⟨c :: cs.takeWhile isIdentContinue, by simp, .ident h (fun _ => List.mem_takeWhile_imp), ?_, rfl⟩
    rw [lineBreaks_cons (by rintro rfl; cases h), hnone isIdentContinue rfl]
  | number h =>
    rw [next_number h]
    refine ⟨c :: cs.takeWhile isNumberContinue, by simp, .number h (fun _ => List.mem_takeWhile_imp), ?_, rfl⟩
    rw [lineBreaks_cons (by rintro rfl; cases h), hnone isNumberContinue rfl]
  | punct lone h =>
    rw [next_punct lone h]
    refine ⟨[c], rfl, .punct lone, ?_, rfl⟩
    rw [lineBreaks_cons (by rintro rfl; exact absurd lone.notBlank (by decide))]
    rfl

/-- The characters of a text that its first lexeme takes. -/
def span (c : Char) (cs : List Char) : List Char :=
  (c :: cs).take ((c :: cs).length - (next c cs).rest.length)

theorem span_eq {c : Char} {cs span' : List Char} (h : c :: cs = span' ++ (next c cs).rest) :
    span c cs = span' := by
  have hlength : (c :: cs).length - (next c cs).rest.length = span'.length := by
    rw [congrArg List.length h, List.length_append, Nat.add_sub_cancel]
  rw [span, hlength]
  conv_lhs => rw [h]
  exact List.take_left

theorem span_append_rest (c : Char) (cs : List Char) : span c cs ++ (next c cs).rest = c :: cs := by
  obtain ⟨span', hsplit, -⟩ := exists_covers c cs
  rw [span_eq hsplit, ← hsplit]

theorem covers_span (c : Char) (cs : List Char) : (next c cs).Covers (span c cs) := by
  obtain ⟨span', hsplit, covers⟩ := exists_covers c cs
  exact span_eq hsplit ▸ covers

theorem lead_le_breaks (c : Char) (cs : List Char) : (next c cs).lead ≤ (next c cs).breaks := by
  have covers := covers_span c cs
  rw [covers.lead, covers.breaks]
  split <;> omega

end Lexeme

/-! ## Pieces of a text -/

/-- A lexeme in its place: what stands before it, and how it is written. -/
structure Piece where
  before : List Char
  span : List Char
  item : Item

namespace Piece

/-- The line of the first character, counted in the text. -/
def line (p : Piece) : Nat := 1 + lineBreaks p.before

/-- Whether this is a date literal that the end of its line cuts off. -/
def isCutDate (p : Piece) : Bool := p.item.isDate && p.span.contains '\n'

end Piece

def Item.isToken : Item → Bool
  | .token .. => true
  | _ => false

def Item.isComment : Item → Bool
  | .comment _ => true
  | _ => false

def piecesFrom (before : List Char) : List Char → List Piece
  | [] => []
  | c :: cs =>
    ⟨before, Lexeme.span c cs, (Lexeme.next c cs).item⟩ ::
      piecesFrom (before ++ Lexeme.span c cs) (Lexeme.next c cs).rest
termination_by cs => cs.length
decreasing_by exact Nat.lt_succ_of_le (Lexeme.length_next_rest c cs)

/-- The lexemes of a text, one after the other. -/
def pieces (text : String) : List Piece := piecesFrom [] text.toList

/-- Pieces that make up a text: each begins where the one before it ends. -/
structure Tiles (text : List Char) (ps : List Piece) : Prop where
  cover : ps.flatMap (·.span) = text
  spelled : ∀ p ∈ ps, Spells p.item p.span
  before : ∀ left p right, ps = left ++ p :: right → p.before = left.flatMap (·.span)

theorem flatMap_span_piecesFrom (before cs : List Char) : (piecesFrom before cs).flatMap (·.span) = cs := by
  fun_induction piecesFrom before cs with
  | case1 => rfl
  | case2 before c cs ih => rw [List.flatMap_cons, ih, Lexeme.span_append_rest]

theorem spells_piecesFrom (before cs : List Char) : ∀ p ∈ piecesFrom before cs, Spells p.item p.span := by
  fun_induction piecesFrom before cs with
  | case1 => simp
  | case2 before c cs ih => exact List.forall_mem_cons.mpr ⟨(Lexeme.covers_span c cs).spells, ih⟩

theorem before_piecesFrom {before cs : List Char} {left right : List Piece} {p : Piece}
    (h : piecesFrom before cs = left ++ p :: right) : p.before = before ++ left.flatMap (·.span) := by
  fun_induction piecesFrom before cs generalizing left with
  | case1 => simp at h
  | case2 before c cs ih =>
    cases left with
    | nil =>
      obtain ⟨rfl, -⟩ := List.cons.inj h
      simp
    | cons q left =>
      obtain ⟨rfl, hrest⟩ := List.cons.inj h
      rw [ih hrest, List.flatMap_cons, List.append_assoc]

theorem tiles_pieces (text : String) : Tiles text.toList (pieces text) where
  cover := flatMap_span_piecesFrom [] text.toList
  spelled := spells_piecesFrom [] text.toList
  before _ _ _ h := before_piecesFrom h

/-! ## Lines -/

/-- A date covers one line break at most, the one that cuts it off. -/
theorem Spells.lineBreaks_date {item : Item} {span : List Char} (spells : Spells item span)
    (h : item.isDate = true) : lineBreaks span = if span.contains '\n' then 1 else 0 := by
  cases spells with
  | @date body close hbody ends =>
    have hnone : lineBreaks body = 0 := lineBreaks_eq_zero rfl hbody
    have hmem : '\n' ∉ body := List.count_eq_zero.mp hnone
    have hopen : '\n' ≠ dateQuote := by decide
    rw [lineBreaks_cons hopen.symm, lineBreaks_append, hnone, Nat.zero_add]
    rcases ends with rfl | rfl | rfl <;> simp [hmem, hopen] <;> decide
  | blank | comment | str | preproc | directive | ident | number | punct => cases h

namespace Piece

/-- What the tokenizer records of a piece: the line is that of the first character, save for a date that is
cut off, which is a line late. -/
structure Records (p : Piece) (t : Token) : Prop where
  item : p.item = .token t.kind t.text.toList
  line : t.line = p.line + if p.isCutDate then 1 else 0

structure Notes (p : Piece) (c : Comment) : Prop where
  item : p.item = .comment c.text.toList
  line : c.line = p.line

end Piece

theorem forall₂_lexFrom (before cs : List Char) :
    List.Forall₂ Piece.Records ((piecesFrom before cs).filter (·.item.isToken))
      (lexFrom (1 + lineBreaks before) cs).tokens ∧
    List.Forall₂ Piece.Notes ((piecesFrom before cs).filter (·.item.isComment))
      (lexFrom (1 + lineBreaks before) cs).comments := by
  -- The line that the tokenizer has counted up to is told by what it has read, dates included: what a date is
  -- late by is in the breaks of its lexeme too.
  fun_induction piecesFrom before cs with
  | case1 =>
    rw [lexFrom]
    exact ⟨.nil, .nil⟩
  | case2 before c cs ih =>
    have covers := Lexeme.covers_span c cs
    have hbreaks : 1 + lineBreaks (before ++ Lexeme.span c cs) =
        1 + lineBreaks before + (Lexeme.next c cs).breaks := by
      rw [covers.breaks, lineBreaks_append, Nat.add_assoc]
    have hlead : (Lexeme.next c cs).lead =
        if (Lexeme.next c cs).item.isDate && (Lexeme.span c cs).contains '\n' then 1 else 0 := by
      rw [covers.lead]
      cases hdate : (Lexeme.next c cs).item.isDate with
      | true => simpa using covers.spells.lineBreaks_date hdate
      | false => rfl
    rw [hbreaks] at ih
    rw [lexFrom]
    cases hitem : (Lexeme.next c cs).item with
    | skip => exact ih
    | comment text =>
      rw [hitem] at hlead
      exact ⟨ih.1, .cons ⟨by simp, congrArg (1 + lineBreaks before + ·) hlead⟩ ih.2⟩
    | token kind text =>
      rw [hitem] at hlead
      exact ⟨.cons ⟨by simp, congrArg (1 + lineBreaks before + ·) hlead⟩ ih.1, ih.2⟩

/-- **Lines are those of the first characters, save for dates that are cut off.** The pieces make up the text.
Those that are tokens are recorded in order, each under the line on which it begins exactly if it is no date
that the end of its line cuts off, which is recorded one line late; and those that are comments are recorded
under the lines on which they begin. -/
theorem line_eq_iff_not_cut (text : String) :
    Tiles text.toList (pieces text) ∧
      List.Forall₂ (fun p t => p.Records t ∧ (t.line = p.line ↔ p.isCutDate = false))
        ((pieces text).filter (·.item.isToken)) (lex text).tokens ∧
      List.Forall₂ Piece.Notes ((pieces text).filter (·.item.isComment)) (lex text).comments := by
  obtain ⟨records, notes⟩ := forall₂_lexFrom [] text.toList
  refine ⟨tiles_pieces text, records.imp fun p t h => ⟨h, ?_⟩, notes⟩
  rw [h.line]
  cases p.isCutDate <;> simp

/-- **A date that is cut off is late.** The apostrophe stands on the first line. -/
theorem cut_date_is_late :
    ((pieces "\x27abc\nX").filter (·.item.isToken)).map (·.line) = [1, 2] ∧
      (lex "\x27abc\nX").tokens.map (·.line) = [2, 2] := by
  decide +kernel

/-! ## Lines of tokens -/

/-- Lines do not come before the line where reading begins, and they go up. -/
theorem lines_lexFrom (line : Nat) (cs : List Char) :
    (∀ t ∈ (lexFrom line cs).tokens, line ≤ t.line) ∧
      (lexFrom line cs).tokens.Pairwise (·.line ≤ ·.line) := by
  fun_induction lexFrom line cs with
  | case1 => simp
  | case2 line c cs lexeme after hitem ih =>
    exact ⟨fun t ht => Nat.le_trans (Nat.le_add_right _ _) (ih.1 t ht), ih.2⟩
  | case3 line c cs lexeme after text hitem ih =>
    exact ⟨fun t ht => Nat.le_trans (Nat.le_add_right _ _) (ih.1 t ht), ih.2⟩
  | case4 line c cs lexeme after kind text hitem ih =>
    refine ⟨List.forall_mem_cons.mpr ⟨Nat.le_add_right _ _, fun t ht => ?_⟩,
      List.pairwise_cons.mpr ⟨fun t ht => ?_, ih.2⟩⟩
    · exact Nat.le_trans (Nat.le_add_right _ _) (ih.1 t ht)
    · exact Nat.le_trans (Nat.add_le_add_left (Lexeme.lead_le_breaks c cs) line) (ih.1 t ht)

theorem pairwise_line_lex (text : String) : (lex text).tokens.Pairwise (·.line ≤ ·.line) :=
  (lines_lexFrom 1 text.toList).2

theorem one_le_line_lex {text : String} {t : Token} (ht : t ∈ (lex text).tokens) : 1 ≤ t.line :=
  (lines_lexFrom 1 text.toList).1 t ht

/-- Blanks apart, no lexeme begins with a line break. -/
theorem Spells.exists_cons {kind : TokenKind} {text span : List Char} (spells : Spells (.token kind text) span) :
    ∃ c body, span = c :: body ∧ c ≠ '\n' := by
  cases spells with
  | str | date | preproc | directive => exact ⟨_, _, rfl, by decide⟩
  | ident start | number start => exact ⟨_, _, rfl, by rintro rfl; cases start⟩
  | punct lone => exact ⟨_, _, rfl, by rintro rfl; exact absurd lone.notBlank (by decide)⟩

theorem exists_left_of_forall₂ {α β : Type} {R : α → β → Prop} {xs : List α} {ys : List β}
    (h : List.Forall₂ R xs ys) {y : β} (hy : y ∈ ys) : ∃ x ∈ xs, R x y := by
  induction h with
  | nil => cases hy
  | cons hr _ ih =>
    rcases List.mem_cons.mp hy with rfl | hy
    · exact ⟨_, List.mem_cons_self, hr⟩
    · obtain ⟨x, hx, hxy⟩ := ih hy
      exact ⟨x, List.mem_cons_of_mem _ hx, hxy⟩

/-- A token has a place in its text. -/
theorem exists_piece {text : String} {t : Token} (ht : t ∈ (lex text).tokens) :
    ∃ p ∈ pieces text, p.Records t := by
  obtain ⟨p, hp, records⟩ := exists_left_of_forall₂ (forall₂_lexFrom [] text.toList).1 ht
  exact ⟨p, (List.mem_filter.mp hp).1, records⟩

/-- All tokens but dates are recorded under lines that the text has. -/
theorem line_le_lineCount {text : String} {t : Token} (ht : t ∈ (lex text).tokens) (hkind : t.kind ≠ .date) :
    t.line ≤ lineCount text := by
  have tiles := tiles_pieces text
  obtain ⟨p, hmem, records⟩ := exists_piece ht
  obtain ⟨left, right, hpieces⟩ := List.append_of_mem hmem
  obtain ⟨c, body, hspan, hc⟩ := (records.item ▸ tiles.spelled p hmem).exists_cons
  have htext : text.toList = p.before ++ c :: (body ++ right.flatMap (·.span)) := by
    rw [← tiles.cover, tiles.before left p right hpieces, hpieces, List.flatMap_append, List.flatMap_cons, hspan]
    rfl
  have hline : t.line = 1 + lineBreaks p.before := by
    have hcut : p.isCutDate = false := by
      rw [Piece.isCutDate, records.item]
      cases hk : t.kind <;> simp_all [Item.isDate]
    rw [records.line, hcut]
    rfl
  rw [hline, lineCount, htext, Nat.add_comm]
  exact lt_length_linesOfChars p.before hc _

end CodeAtlas.Source
