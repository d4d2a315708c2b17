import CodeAtlas.Text.Case
import CodeAtlas.Text.Pattern
import Mathlib.Data.List.Basic
import Mathlib.Tactic.Common

/-!
# What patterns find

A pattern is written with classes of characters, and can match at a place of a text in several ways. The ways
have an order: of two alternatives the first comes first, a repetition takes as much as it can before it
settles for less, and what may be there is tried before it is left out (`Pattern.ways`). What counts is the
first way at the leftmost place where there is one (`Pattern.searchFrom`), and the search for the next match
begins where the last one ended (`Pattern.Finds`).

Case does not matter to words (`Pattern.word`): their characters are compared up to `fold`.
-/

set_option autoImplicit false

namespace CodeAtlas.Text

/-! ## Words in any case -/

theorem afterWord?_eq_some_iff {word cs rest : List Char} :
    afterWord? word cs = some rest ↔ ∃ taken, cs = taken ++ rest ∧ taken.map fold = word := by
  induction word generalizing cs with
  | nil =>
    constructor
    · intro h
      cases h
      exact ⟨[], rfl, rfl⟩
    · rintro ⟨taken, rfl, htaken⟩
      rw [List.map_eq_nil_iff.mp htaken]
      rfl
  | cons w word ih =>
    cases cs with
    | nil =>
      constructor
      · intro h
        cases h
      · rintro ⟨taken, hcs, htaken⟩
        obtain ⟨rfl, -⟩ := List.append_eq_nil_iff.mp hcs.symm
        cases htaken
    | cons c cs =>
      rw [afterWord?]
      constructor
      · intro h
        split at h
        · rename_i hc
          obtain ⟨taken, rfl, htaken⟩ := ih.mp h
          exact ⟨c :: taken, rfl, by rw [List.map_cons, eq_of_beq hc, htaken]⟩
        · cases h
      · rintro ⟨taken, hcs, htaken⟩
        cases taken with
        | nil => cases htaken
        | cons d taken =>
          obtain ⟨rfl, rfl⟩ := List.cons.inj hcs
          obtain ⟨hc, htaken⟩ := List.cons.inj htaken
          rw [if_pos (beq_iff_eq.mpr hc)]
          exact ih.mpr ⟨taken, rfl, htaken⟩

/-! ## Patterns -/

inductive Pattern where
  | nothing
  /-- One character of a class. -/
  | one (among : Char → Bool)
  /-- Any number of characters of a class. -/
  | many (among : Char → Bool)
  | seq (first second : Pattern)
  | either (first second : Pattern)
  | maybe (inner : Pattern)
  /-- What the inner pattern matches is kept under the number. -/
  | group (number : Nat) (inner : Pattern)
  /-- A place with a word character on one side and none on the other. -/
  | wordEdge
  | textStart
  | textEnd

/-- What a group has kept, with all that stands before it. -/
structure Capture where
  before : List Char
  text : List Char
deriving DecidableEq, Repr

/-- A place in a text. -/
structure Cursor where
  /-- What stands before the place, nearest first. -/
  before : List Char
  after : List Char
  groups : List (Nat × Capture) := []
deriving DecidableEq, Repr

namespace Cursor

/-- Keeps what stands between an earlier place and this one. -/
def keep (start : Cursor) (number : Nat) (stop : Cursor) : Cursor :=
  { stop with groups :=
      (number, ⟨start.before.reverse, start.after.take (start.after.length - stop.after.length)⟩) :: stop.groups }

/-- What a group has kept. -/
def group? (c : Cursor) (number : Nat) : Option Capture := c.groups.lookup number

/-- The place after a word. -/
def past (c : Cursor) (word rest : List Char) : Cursor :=
  { c with before := word.reverse ++ c.before, after := rest }

@[simp] theorem after_past (c : Cursor) (word rest : List Char) : (c.past word rest).after = rest := rfl

theorem past_past (c : Cursor) (word rest word' rest' : List Char) :
    (c.past word rest).past word' rest' = c.past (word ++ word') rest' := by
  simp [past]

/-- A group around what is passed keeps it. -/
theorem keep_past {c : Cursor} {word rest : List Char} (h : c.after = word ++ rest) (number : Nat) :
    c.keep number (c.past word rest) =
      ⟨word.reverse ++ c.before, rest, (number, ⟨c.before.reverse, word⟩) :: c.groups⟩ := by
  simp [keep, past, h]

end Cursor

namespace Pattern

/-- The ways to pass over characters of a class, the longest first. -/
def runs (among : Char → Bool) (groups : List (Nat × Capture)) : List Char → List Char → List Cursor
  | before, [] => [⟨before, [], groups⟩]
  | before, c :: after =>
    if among c then runs among groups (c :: before) after ++ [⟨before, c :: after, groups⟩]
    else [⟨before, c :: after, groups⟩]

/-- The places that a pattern can lead to, in the order in which they are tried. -/
def ways : Pattern → Cursor → List Cursor
  | nothing, c => [c]
  | one among, c =>
    match c.after with
    | [] => []
    | x :: rest => if among x then [c.past [x] rest] else []
  | many among, c => runs among c.groups c.before c.after
  | seq first second, c => (first.ways c).flatMap second.ways
  | either first second, c => first.ways c ++ second.ways c
  | maybe inner, c => inner.ways c ++ [c]
  | group number inner, c => (inner.ways c).map (c.keep number)
  | wordEdge, c =>
    if (c.before.head?.any isPatternWordChar) != (c.after.head?.any isPatternWordChar) then [c] else []
  | textStart, c => if c.before.isEmpty then [c] else []
  | textEnd, c => if c.after.isEmpty then [c] else []

section Ways

variable (among : Char → Bool) (p q : Pattern) (c : Cursor)

@[simp] theorem ways_nothing : nothing.ways c = [c] := rfl

@[simp] theorem ways_one_nil (before : List Char) (groups : List (Nat × Capture)) :
    (one among).ways ⟨before, [], groups⟩ = [] := rfl

@[simp] theorem ways_one_cons (before : List Char) (x : Char) (after : List Char) (groups : List (Nat × Capture)) :
    (one among).ways ⟨before, x :: after, groups⟩ = if among x then [⟨x :: before, after, groups⟩] else [] := rfl

@[simp] theorem ways_many : (many among).ways c = runs among c.groups c.before c.after := rfl

@[simp] theorem ways_seq : (seq p q).ways c = (p.ways c).flatMap q.ways := rfl

@[simp] theorem ways_either : (either p q).ways c = p.ways c ++ q.ways c := rfl

@[simp] theorem ways_maybe : (maybe p).ways c = p.ways c ++ [c] := rfl

@[simp] theorem ways_group (number : Nat) : (group number p).ways c = (p.ways c).map (c.keep number) := rfl

@[simp] theorem ways_wordEdge : wordEdge.ways c =
    if (c.before.head?.any isPatternWordChar) != (c.after.head?.any isPatternWordChar) then [c] else [] := rfl

@[simp] theorem ways_textEnd : textEnd.ways c = if c.after.isEmpty then [c] else [] := rfl

end Ways

/-- A word in any case. -/
def word : List Char → Pattern
  | [] => nothing
  | w :: ws => seq (one (fold · == w)) (word ws)

/-- One of several patterns; those at the front come first. -/
def anyOf : List Pattern → Pattern
  | [] => one fun _ => false
  | p :: ps => either p (anyOf ps)

/-- The end of the first match that begins at a place or behind it. -/
def searchFrom (p : Pattern) : List Char → List Char → Option Cursor
  | before, [] => (p.ways ⟨before, [], []⟩).head?
  | before, c :: after => (p.ways ⟨before, c :: after, []⟩).head? <|> searchFrom p (c :: before) after

/-- The first match in a text. -/
def search (p : Pattern) (text : List Char) : Option Cursor := p.searchFrom [] text

/-- The matches from a place on, one after the other. -/
inductive Finds (p : Pattern) : List Char → List Char → List Cursor → Prop
  | none {before after : List Char} (h : p.searchFrom before after = none) : Finds p before after []
  | some {before after : List Char} {found : Cursor} {others : List Cursor}
      (h : p.searchFrom before after = some found) (next : Finds p found.before found.after others) :
      Finds p before after (found :: others)

/-- What is found depends on where the next match is only. -/
theorem Finds.of_searchFrom_eq {p : Pattern} {before after before' after' : List Char} {ms : List Cursor}
    (h : p.searchFrom before after = p.searchFrom before' after') (finds : p.Finds before' after' ms) :
    p.Finds before after ms := by
  cases finds with
  | none hnone => exact .none (h.trans hnone)
  | some hsome next => exact .some (h.trans hsome) next

/-! ## The first way -/

variable {c : Cursor}

theorem head?_ways_seq (first second : Pattern) (c : Cursor) :
    ((seq first second).ways c).head? = (first.ways c).findSome? fun d => (second.ways d).head? :=
  List.head?_flatMap

/-- If what comes first can go on in its first way, then this is the first way of both. -/
theorem head?_ways_seq_of_head {first second : Pattern} {d stop : Cursor} (hfirst : (first.ways c).head? = some d)
    (hsecond : (second.ways d).head? = some stop) : ((seq first second).ways c).head? = some stop := by
  obtain ⟨others, hways⟩ := List.head?_eq_some_iff.mp hfirst
  rw [head?_ways_seq, hways, List.findSome?_cons, hsecond]

theorem head?_ways_either_seq (p p' q : Pattern) (c : Cursor) : ((seq (either p p') q).ways c).head? =
    (((seq p q).ways c).head? <|> ((seq p' q).ways c).head?) := by
  show (((p.ways c ++ p'.ways c).flatMap q.ways)).head? = _
  rw [List.flatMap_append, List.head?_append, Option.or_eq_orElse]
  rfl

theorem head?_ways_group (number : Nat) (inner : Pattern) (c : Cursor) :
    ((group number inner).ways c).head? = (inner.ways c).head?.map (c.keep number) := by
  rw [ways_group, List.head?_map]

theorem head?_runs (among : Char → Bool) (groups : List (Nat × Capture)) (before after : List Char) :
    (runs among groups before after).head? =
      some ⟨(after.takeWhile among).reverse ++ before, after.dropWhile among, groups⟩ := by
  induction after generalizing before with
  | nil => rfl
  | cons x after ih =>
    rw [runs]
    split
    · rename_i hx
      simp [List.head?_append, ih, hx]
    · rename_i hx
      simp [hx]

/-- A repetition takes all it can. -/
theorem head?_ways_many (among : Char → Bool) (c : Cursor) :
    ((many among).ways c).head? = some (c.past (c.after.takeWhile among) (c.after.dropWhile among)) :=
  head?_runs among c.groups c.before c.after

/-- A repetition that has to go on to the end of the text takes all of it or fails. -/
theorem head?_ways_many_textEnd (among : Char → Bool) (c : Cursor) :
    ((seq (many among) textEnd).ways c).head? =
      if c.after.all among then some (c.past c.after []) else none := by
  obtain ⟨before, after, groups⟩ := c
  rw [head?_ways_seq, ways_many]
  induction after generalizing before with
  | nil => rfl
  | cons x after ih =>
    rw [runs]
    split
    · rename_i hx
      rw [List.findSome?_append, ih (x :: before)]
      simp [hx, Cursor.past]
    · rename_i hx
      simp [hx]

theorem head?_ways_one_seq (among : Char → Bool) (p : Pattern) (before : List Char) (x : Char)
    (after : List Char) (groups : List (Nat × Capture)) :
    ((seq (one among) p).ways ⟨before, x :: after, groups⟩).head? =
      if among x then (p.ways ⟨x :: before, after, groups⟩).head? else none := by
  rw [head?_ways_seq, ways_one_cons]
  split
  · simp
  · rfl

theorem head?_ways_textStart_seq (p : Pattern) (after : List Char) (groups : List (Nat × Capture)) :
    ((seq textStart p).ways ⟨[], after, groups⟩).head? = (p.ways ⟨[], after, groups⟩).head? := by
  rw [head?_ways_seq]
  exact List.findSome?_singleton

theorem head?_ways_textStart_seq_cons (p : Pattern) (x : Char) (before after : List Char)
    (groups : List (Nat × Capture)) : ((seq textStart p).ways ⟨x :: before, after, groups⟩).head? = none := rfl

/-- What may be there is taken. -/
theorem head?_ways_maybe_one (among : Char → Bool) (c : Cursor) : ((maybe (one among)).ways c).head? =
    some (if c.after.head?.any among then c.past (c.after.take 1) c.after.tail else c) := by
  obtain ⟨before, after, groups⟩ := c
  cases after with
  | nil => rfl
  | cons x after =>
    rw [ways_maybe, ways_one_cons]
    split
    · rename_i hx
      simp [hx, Cursor.past]
    · rename_i hx
      simp [hx]

theorem head?_ways_wordEdge_seq (p : Pattern) (c : Cursor) :
    ((seq wordEdge p).ways c).head? =
      if (c.before.head?.any isPatternWordChar) != (c.after.head?.any isPatternWordChar) then (p.ways c).head?
      else none := by
  rw [head?_ways_seq, ways_wordEdge]
  split
  · simp
  · rfl

theorem ways_anyOf (ps : List Pattern) (c : Cursor) : (anyOf ps).ways c = ps.flatMap (·.ways c) := by
  induction ps with
  | nil =>
    obtain ⟨before, after, groups⟩ := c
    cases after <;> rfl
  | cons p ps ih => rw [anyOf, ways_either, ih, List.flatMap_cons]

/-- A word can be passed in one way only. -/
theorem ways_word (w : List Char) (c : Cursor) :
    (word w).ways c = ((afterWord? w c.after).map (c.past (c.after.take w.length))).toList := by
  induction w generalizing c with
  | nil => simp [word, afterWord?, Cursor.past]
  | cons x w ih =>
    obtain ⟨before, after, groups⟩ := c
    cases after with
    | nil => simp [word, afterWord?]
    | cons y rest =>
      rw [word, ways_seq, ways_one_cons, afterWord?]
      split
      · rw [List.flatMap_singleton, ih]
        have hpast : Cursor.past ⟨y :: before, rest, groups⟩ (rest.take w.length) =
            Cursor.past ⟨before, y :: rest, groups⟩ (y :: rest.take w.length) :=
          funext fun behind => Cursor.past_past ⟨before, y :: rest, groups⟩ [y] rest _ behind
        simp [hpast]
      · rfl

/-- Alternatives are tried one after the other. -/
theorem head?_ways_group_anyOf_seq (number : Nat) (ps : List Pattern) (q : Pattern) (c : Cursor) :
    ((seq (group number (anyOf ps)) q).ways c).head? =
      ps.findSome? fun p => ((seq (group number p) q).ways c).head? := by
  rw [ways_seq, ways_group, ways_anyOf, List.map_flatMap, List.flatMap_assoc, List.head?_flatMap]
  rfl

/-- A word that is kept is passed in one way only. -/
theorem head?_ways_group_word_seq (number : Nat) (w : List Char) (q : Pattern) (c : Cursor) :
    ((seq (group number (word w)) q).ways c).head? =
      (afterWord? w c.after).bind fun rest =>
        (q.ways ⟨(c.after.take w.length).reverse ++ c.before, rest,
          (number, ⟨c.before.reverse, c.after.take w.length⟩) :: c.groups⟩).head? := by
  rw [ways_seq, ways_group, ways_word]
  cases hrest : afterWord? w c.after with
  | none => rfl
  | some rest =>
    obtain ⟨taken, hafter, htaken⟩ := afterWord?_eq_some_iff.mp hrest
    have htake : c.after.take w.length = taken := by
      rw [hafter, ← htaken, List.length_map, List.take_left]
    simp [htake, Cursor.keep_past hafter]

end Pattern

end CodeAtlas.Text
