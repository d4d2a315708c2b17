import CodeAtlas.Proofs.Source.Headings
import CodeAtlas.Proofs.Source.Lexemes
import CodeAtlas.Proofs.Text.Matching

/-!
# Lines of mentions in query text

A mention in a string literal is recorded under a line of its own: that of the literal, and one more for each
line break in the literal before the place where the pattern matches. The match takes the character in front of
the category along, so that this character's own line break is not counted.

So the line is that of the category unless the category comes first on its line (`mention_line_eq_iff`), where it is
the line above.
-/

set_option autoImplicit false

namespace CodeAtlas.Source

open Text

namespace QueryText

/-! ## The pattern -/

/-- A category, a point, and the name of an object. -/
def namePattern : Pattern :=
  .seq (.group 1 (.anyOf (queryWords.map (.word ·.toList)))) <| .seq (.one (· == '.')) <|
  .group 2 (.seq (.one isNameStart) (.many isNameContinue))

/-- The category comes first in the text, or does not continue a longer name. -/
def pattern : Pattern := .seq (.either .textStart (.one isBoundary)) namePattern

/-- A point and a name at the front: the name, and what follows it. -/
def nameBehindDot? : List Char → Option (List Char × List Char)
  | '.' :: c :: rest =>
    if isNameStart c then some (c :: rest.takeWhile isNameContinue, rest.dropWhile isNameContinue) else none
  | _ => none

theorem nameBehindDot?_cons_of_ne {c : Char} (h : c ≠ '.') (cs : List Char) : nameBehindDot? (c :: cs) = none := by
  unfold nameBehindDot?
  split
  · rename_i heq
    exact absurd (List.cons.inj heq).1 h
  · rfl

theorem hitWith?_eq (word : String) (cs : List Char) : hitWith? word cs =
    (afterWord? word.toList cs).bind fun rest =>
      (nameBehindDot? rest).map fun found => ⟨cs.take word.toList.length, found.1, found.2⟩ := by
  unfold hitWith?
  split
  · rename_i c rest h
    rw [h, Option.bind_some, nameBehindDot?]
    split <;> rfl
  · rename_i hnone
    cases h : afterWord? word.toList cs with
    | none => rfl
    | some rest =>
      have hrest : nameBehindDot? rest = none := by
        unfold nameBehindDot?
        split
        · exact absurd h (hnone _ _)
        · rfl
      rw [Option.bind_some, hrest]
      rfl

theorem hit?_eq_some {cs : List Char} {hit : Hit} (h : hit? cs = some hit) :
    cs = hit.category ++ '.' :: (hit.name ++ hit.rest) := by
  obtain ⟨word, -, hword⟩ := List.exists_of_findSome?_eq_some h
  rw [hitWith?] at hword
  split at hword
  · rename_i c rest hafter
    obtain ⟨taken, rfl, htaken⟩ := afterWord?_eq_some_iff.mp hafter
    split at hword
    · cases hword
      simp [← htaken]
    · cases hword
  · cases hword

theorem head?_ways_dot_name (before cs : List Char) (groups : List (Nat × Capture)) :
    ((Pattern.seq (.one (· == '.')) (.group 2 (.seq (.one isNameStart) (.many isNameContinue)))).ways
        ⟨before, cs, groups⟩).head? =
      (nameBehindDot? cs).map fun found =>
        ⟨found.1.reverse ++ '.' :: before, found.2, (2, ⟨('.' :: before).reverse, found.1⟩) :: groups⟩ := by
  cases cs with
  | nil => rfl
  | cons x cs =>
    rw [Pattern.head?_ways_one_seq]
    by_cases hx : x = '.'
    · subst hx
      rw [if_pos (beq_self_eq_true '.'), Pattern.head?_ways_group]
      cases cs with
      | nil => rfl
      | cons c rest =>
        rw [Pattern.head?_ways_one_seq, nameBehindDot?]
        split
        · have hsplit : c :: rest = (c :: rest.takeWhile isNameContinue) ++ rest.dropWhile isNameContinue := by
            simp
          have hpast : Cursor.past ⟨c :: '.' :: before, rest, groups⟩ (rest.takeWhile isNameContinue)
                (rest.dropWhile isNameContinue) =
              Cursor.past ⟨'.' :: before, c :: rest, groups⟩ (c :: rest.takeWhile isNameContinue)
                (rest.dropWhile isNameContinue) :=
            Cursor.past_past ⟨'.' :: before, c :: rest, groups⟩ [c] rest _ _
          rw [Pattern.head?_ways_many, Option.map_some, hpast, Cursor.keep_past hsplit]
          rfl
        · rfl
    · rw [if_neg (by simpa using hx), nameBehindDot?_cons_of_ne hx]
      rfl

/-- Where a match ends that is found after some characters, the nearest of which comes first. -/
def Hit.cursor (hit : Hit) (before : List Char) : Cursor :=
  let beforeName := '.' :: (hit.category.reverse ++ before)
  { before := hit.name.reverse ++ beforeName, after := hit.rest
    groups := [(2, ⟨beforeName.reverse, hit.name⟩), (1, ⟨before.reverse, hit.category⟩)] }

theorem head?_ways_namePattern (before cs : List Char) :
    (namePattern.ways ⟨before, cs, []⟩).head? = (hit? cs).map (·.cursor before) := by
  have hword : ∀ word : String, ((Pattern.seq (.group 1 (.word word.toList)) (.seq (.one (· == '.'))
      (.group 2 (.seq (.one isNameStart) (.many isNameContinue))))).ways ⟨before, cs, []⟩).head? =
        (hitWith? word cs).map (·.cursor before) := by
    intro word
    rw [Pattern.head?_ways_group_word_seq, hitWith?_eq, Option.map_bind]
    refine congrArg _ (funext fun rest => ?_)
    rw [head?_ways_dot_name, Function.comp_apply, Option.map_map]
    rfl
  rw [namePattern, Pattern.head?_ways_group_anyOf_seq, List.findSome?_map, hit?, List.map_findSome?]
  exact congrArg (List.findSome? · queryWords) (funext hword)

/-! ## Matches one after the other -/

/-- At the beginning of a literal a category may stand as it is. -/
theorem head?_ways_pattern_start {cs : List Char} {hit : Hit} (h : hit? cs = some hit) :
    (pattern.ways ⟨[], cs, []⟩).head? = some (hit.cursor []) := by
  rw [pattern, Pattern.head?_ways_either_seq, Pattern.head?_ways_textStart_seq, head?_ways_namePattern, h]
  rfl

/-- Elsewhere it needs a boundary in front of it. -/
theorem head?_ways_pattern_inside {before cs : List Char} (h : before ≠ [] ∨ hit? cs = none) :
    (pattern.ways ⟨before, cs, []⟩).head? =
      ((Pattern.seq (.one isBoundary) namePattern).ways ⟨before, cs, []⟩).head? := by
  have hstart : ((Pattern.seq .textStart namePattern).ways ⟨before, cs, []⟩).head? = none := by
    cases before with
    | nil =>
      have hnone := h.resolve_left (by simp)
      rw [Pattern.head?_ways_textStart_seq, head?_ways_namePattern, hnone]
      rfl
    | cons c before => exact Pattern.head?_ways_textStart_seq_cons _ c before cs []
  rw [pattern, Pattern.head?_ways_either_seq, hstart]
  rfl

theorem head?_ways_pattern_cons {before cs : List Char} {c : Char} (h : before ≠ [] ∨ hit? (c :: cs) = none) :
    (pattern.ways ⟨before, c :: cs, []⟩).head? =
      (if isBoundary c then hit? cs else none).map (·.cursor (c :: before)) := by
  rw [head?_ways_pattern_inside h, Pattern.head?_ways_one_seq, head?_ways_namePattern]
  split <;> rfl

/-- The category that a match names. -/
def category? (m : Cursor) : Option MetadataKind :=
  (m.group? 1).bind fun word => singularKind? (lower (String.ofList word.text))

/-- What is found by a match in a literal. The line breaks are those before the character in front of the
category. -/
def Says (body : List Char) (m : Cursor) (found : Found) : Prop :=
  ∃ word name : Capture, m.group? 1 = some word ∧ m.group? 2 = some name ∧
    word.before ++ word.text ++ '.' :: name.text <+: body ∧
    singularKind? (lower (String.ofList word.text)) = some found.kind ∧
    found.name = String.ofList name.text ∧ found.breaks = lineBreaks word.before.dropLast

theorem forall₂_says_hit {body before cs : List Char} {hit : Hit} (hbody : before.reverse ++ cs = body)
    (hcs : cs = hit.category ++ '.' :: (hit.name ++ hit.rest)) :
    List.Forall₂ (Says body) ([hit.cursor before].filter (category? · |>.isSome))
      (hit.found? (lineBreaks before.tail)).toList := by
  have hcategory : category? (hit.cursor before) = singularKind? (lower (String.ofList hit.category)) := rfl
  rw [List.filter_cons, hcategory, Hit.found?]
  cases hkind : singularKind? (lower (String.ofList hit.category)) with
  | none => exact .nil
  | some kind =>
    refine .cons ⟨⟨before.reverse, hit.category⟩, ⟨_, hit.name⟩, rfl, rfl, ⟨hit.rest, ?_⟩, hkind, rfl, ?_⟩ .nil
    · rw [← hbody, hcs]
      simp
    · show lineBreaks before.tail = lineBreaks before.reverse.dropLast
      rw [List.dropLast_reverse]
      exact (List.count_reverse).symm

theorem lineBreaks_reverse (cs : List Char) : lineBreaks cs.reverse = lineBreaks cs := List.count_reverse

/-- The line breaks before the end of a match. What it covers may begin in front of the hit. -/
theorem lineBreaks_cursor (front : List Char) {cs : List Char} {hit : Hit}
    (h : cs = hit.category ++ '.' :: (hit.name ++ hit.rest)) (before : List Char) : lineBreaks before +
        lineBreaks ((front ++ cs).take ((front ++ cs).length - hit.rest.length)) =
      lineBreaks (hit.cursor (front.reverse ++ before)).before := by
  have hsplit : front ++ cs = front ++ (hit.category ++ '.' :: hit.name) ++ hit.rest := by
    rw [h]
    simp
  have hcovered : (front ++ cs).take ((front ++ cs).length - hit.rest.length) =
      front ++ (hit.category ++ '.' :: hit.name) := by
    rw [hsplit, List.length_append, Nat.add_sub_cancel, List.take_left]
  have hcursor : (hit.cursor (front.reverse ++ before)).before =
      (front ++ (hit.category ++ '.' :: hit.name)).reverse ++ before := by
    simp [Hit.cursor]
  rw [hcovered, hcursor, lineBreaks_append (List.reverse _), lineBreaks_reverse, Nat.add_comm]

theorem reverse_cursor_append {before : List Char} {cs : List Char} {hit : Hit}
    (h : cs = hit.category ++ '.' :: (hit.name ++ hit.rest)) :
    (hit.cursor before).before.reverse ++ hit.rest = before.reverse ++ cs := by
  rw [h]
  simp [Hit.cursor]

/-- Behind the beginning of a literal, or where no hit begins there, the reader finds what the pattern does. -/
theorem exists_finds_inside {body before after : List Char} {breaks : Nat} (hbody : before.reverse ++ after = body)
    (hbreaks : breaks = lineBreaks before) (hstart : before ≠ [] ∨ hit? after = none) :
    ∃ ms, pattern.Finds before after ms ∧
      List.Forall₂ (Says body) (ms.filter (category? · |>.isSome)) (inside breaks after) := by
  fun_induction inside breaks after generalizing before with
  | case1 breaks =>
    have hnone : pattern.searchFrom before [] = none := by
      rw [Pattern.searchFrom, head?_ways_pattern_inside hstart]
      rfl
    exact ⟨[], .none hnone, .nil⟩
  | case2 breaks c cs hit hfront covered =>
    rename_i ih
    subst hbreaks
    have hhit : (if isBoundary c then hit? cs else none) = some hit := hfront
    have hsome : pattern.searchFrom before (c :: cs) = some (hit.cursor (c :: before)) := by
      rw [Pattern.searchFrom, head?_ways_pattern_cons hstart, hhit]
      rfl
    have hcs : cs = hit.category ++ '.' :: (hit.name ++ hit.rest) := by
      split at hhit
      · exact hit?_eq_some hhit
      · cases hhit
    have hbody' : (c :: before).reverse ++ cs = body := by simpa using hbody
    obtain ⟨ms, hfinds, hsaid⟩ := ih ((reverse_cursor_append hcs).trans hbody')
      (lineBreaks_cursor [c] hcs before) (.inl (by simp [Hit.cursor]))
    refine ⟨hit.cursor (c :: before) :: ms, .some hsome hfinds, ?_⟩
    rw [← List.singleton_append, List.filter_append]
    exact List.rel_append (forall₂_says_hit hbody' hcs) hsaid
  | case3 breaks c cs hfront ih =>
    subst hbreaks
    have hhit : (if isBoundary c then hit? cs else none) = none := hfront
    have hnone : pattern.searchFrom before (c :: cs) = pattern.searchFrom (c :: before) cs := by
      rw [Pattern.searchFrom, head?_ways_pattern_cons hstart, hhit]
      rfl
    have hbreaks' : (lineBreaks before + if c == '\n' then 1 else 0) = lineBreaks (c :: before) :=
      List.count_cons.symm
    obtain ⟨ms, hfinds, hsaid⟩ := ih (by simpa using hbody) hbreaks' (.inl (by simp))
    exact ⟨ms, hfinds.of_searchFrom_eq hnone, hsaid⟩

/-- What is found in a literal is what the matches of the pattern say, in order. -/
theorem exists_finds_mentions (body : List Char) : ∃ ms, pattern.Finds [] body ms ∧
    List.Forall₂ (Says body) (ms.filter (category? · |>.isSome)) (mentions body) := by
  rw [mentions]
  split
  · rename_i hit hhit
    have hcs := hit?_eq_some hhit
    have hsome : pattern.searchFrom [] body = some (hit.cursor []) := by
      cases body with
      | nil => exact head?_ways_pattern_start hhit
      | cons c cs =>
        rw [Pattern.searchFrom, head?_ways_pattern_start hhit]
        rfl
    have hbreaks := (Nat.zero_add _).symm.trans (lineBreaks_cursor [] hcs [])
    obtain ⟨ms, hfinds, hsaid⟩ := exists_finds_inside (reverse_cursor_append hcs) hbreaks
      (.inl (by simp [Hit.cursor]))
    refine ⟨hit.cursor [] :: ms, .some hsome hfinds, ?_⟩
    rw [← List.singleton_append, List.filter_append]
    exact List.rel_append (forall₂_says_hit rfl hcs) hsaid
  · rename_i hnone
    exact exists_finds_inside rfl rfl (.inr hnone)

end QueryText

/-! ## Where categories stand -/

/-- What a match in a literal is recorded as: the category stands somewhere in the text, and the line breaks
before it are counted, except for one that is right in front of it. -/
def RecordedFrom (text : String) (p : Piece) (m : Cursor) (mention : Mention) : Prop :=
  ∃ word name : Capture, m.group? 1 = some word ∧ m.group? 2 = some name ∧
    let front := p.before ++ '"' :: word.before
    front ++ word.text ++ '.' :: name.text <+: text.toList ∧
    singularKind? (lower (String.ofList word.text)) = some mention.kind ∧
    mention.name = String.ofList name.text ∧
    mention.line = 1 + lineBreaks front.dropLast ∧
    (mention.line = 1 + lineBreaks front ↔ front.getLast? ≠ some '\n')

theorem lineBreaks_dropLast_add {cs : List Char} (h : cs ≠ []) :
    lineBreaks cs = lineBreaks cs.dropLast + if cs.getLast? = some '\n' then 1 else 0 := by
  have hsplit := List.dropLast_append_getLast h
  conv_lhs => rw [← hsplit]
  rw [lineBreaks_append, List.getLast?_eq_some_getLast h]
  by_cases hlast : cs.getLast h = '\n' <;> simp [hlast, lineBreaks]

theorem lineBreaks_front (before inner : List Char) :
    lineBreaks (before ++ '"' :: inner).dropLast = lineBreaks before + lineBreaks inner.dropLast := by
  cases inner with
  | nil => simp
  | cons c inner =>
    rw [List.dropLast_append_of_ne_nil (by simp), List.dropLast_cons_of_ne_nil (by simp), lineBreaks_append,
      lineBreaks_cons (by decide)]

theorem prefix_of_str {text : String} {p : Piece} {body : List Char} (hp : p ∈ pieces text)
    (hitem : p.item = .token .str body) : p.before ++ '"' :: body <+: text.toList := by
  have tiles := tiles_pieces text
  obtain ⟨left, right, hpieces⟩ := List.append_of_mem hp
  have hspan := tiles.spelled p hp
  have hcover := tiles.cover
  rw [hpieces, List.flatMap_append, List.flatMap_cons, ← tiles.before left p right hpieces] at hcover
  rw [hitem] at hspan
  revert hspan hcover
  generalize p.span = span
  intro hspan hcover
  cases hspan with
  | @str _ close _ _ => exact ⟨close ++ right.flatMap (·.span), by rw [← hcover]; simp⟩

theorem Piece.Records.recordedFrom {text : String} {p : Piece} {t : Token} (records : p.Records t)
    (hp : p ∈ pieces text) (hkind : t.kind = .str) {m : Cursor} {found : QueryText.Found}
    (hfound : QueryText.Says t.text.toList m found) (caller : Option String) :
    RecordedFrom text p m ⟨caller, found.kind, found.name, t.line + found.breaks⟩ := by
  obtain ⟨word, name, hword, hname, hprefix, hcategory, hobject, hbreaks⟩ := hfound
  have hitem : p.item = .token .str t.text.toList := hkind ▸ records.item
  have hline : t.line + found.breaks = 1 + lineBreaks (p.before ++ '"' :: word.before).dropLast := by
    have hcut : p.isCutDate = false := by
      rw [Piece.isCutDate, hitem]
      rfl
    rw [records.line, hcut, hbreaks, lineBreaks_front, Piece.line, if_neg Bool.false_ne_true, Nat.add_zero,
      Nat.add_assoc]
  refine ⟨word, name, hword, hname, ?_, hcategory, hobject, hline, ?_⟩
  · refine List.IsPrefix.trans ?_ (prefix_of_str hp hitem)
    simpa using hprefix
  · show t.line + found.breaks = _ ↔ _
    rw [hline, lineBreaks_dropLast_add (by simp : p.before ++ '"' :: word.before ≠ [])]
    split
    · rename_i hlast
      simp [hlast]
    · rename_i hlast
      exact iff_of_true rfl hlast

namespace Reading

variable {r : Reading} {token : Token}

/-- Reading on has added one mention at most, under a given line. -/
def AddsOneAt (line : Nat) (r r' : Reading) : Prop :=
  ∃ new, r'.mentions = r.mentions ++ new ∧ new.length ≤ 1 ∧ ∀ mention ∈ new, mention.line = line

theorem AddsOneAt.of_eq {line : Nat} {r r' : Reading} (h : r'.mentions = r.mentions) : AddsOneAt line r r' :=
  ⟨[], by simpa using h, by simp, by simp⟩

theorem mentions_queryText (r : Reading) (token : Token) : (r.queryText token).mentions =
    r.mentions ++ (QueryText.mentions token.text.toList).map fun found =>
      ⟨r.caller, found.kind, found.name, token.line + found.breaks⟩ := by
  unfold queryText
  generalize QueryText.mentions token.text.toList = founds
  induction founds generalizing r with
  | nil => simp
  | cons found founds ih =>
    rw [List.foldl_cons, ih, List.map_cons, List.append_cons]
    rfl

theorem mentions_loopVariable (r : Reading) (after : List Token) :
    (r.loopVariable after).mentions = r.mentions := by
  unfold loopVariable
  dsimp only
  split
  · split <;> rfl
  · rfl

theorem mentions_keyword (r : Reading) (token : Token) (after : List Token) (keyword : Keyword) :
    (r.keyword token after keyword).mentions = r.mentions := by
  unfold Reading.keyword
  split
  · exact mentions_close r token.line
  · exact mentions_close r token.line
  · rfl
  · rfl
  · rfl
  · exact mentions_loopVariable r.addDecision after
  · rfl
  · rfl

theorem addsOneAt_identifier (r : Reading) (token : Token) (word : String) (around : Around) :
    AddsOneAt token.line r (r.identifier token word around) := by
  unfold identifier
  split
  · exact .of_eq rfl
  split
  · exact ⟨[_], rfl, by simp, by simp⟩
  split
  · exact .of_eq rfl
  split
  · exact .of_eq rfl
  split
  · exact .of_eq rfl
  · exact .of_eq rfl

/-- Tokens that are no literals name objects on their own line. -/
theorem addsOneAt_single (r : Reading) (hkind : token.kind ≠ .str) (around : Around) :
    AddsOneAt token.line r (r.single token around) := by
  by_cases hpreproc : token.kind = .preproc
  · rw [single_eq_preproc hpreproc, preproc_eq]
    exact .of_eq rfl
  by_cases hdirective : token.kind = .directive
  · rw [single_eq_directive hdirective, directive]
    split <;> exact .of_eq rfl
  rw [single_eq_token hpreproc hdirective]
  unfold Reading.token
  split
  · exact absurd ‹_› hkind
  · split <;> exact .of_eq rfl
  · exact .of_eq rfl
  · dsimp only
    split
    · exact .of_eq (mentions_keyword r token around.after _)
    · exact addsOneAt_identifier r token _ around
  · exact .of_eq rfl

theorem mentions_single_str (r : Reading) (hkind : token.kind = .str) (around : Around) :
    (r.single token around).mentions = (r.queryText token).mentions := by
  rw [single_eq_token (by simp [hkind]) (by simp [hkind])]
  simp only [Reading.token, hkind]

theorem mentions_openWith (r : Reading) (comments : List Comment) (keyword : Token) (kind : DeclKind)
    (header : Header) (lastLine : Nat) :
    (r.openWith comments keyword kind header lastLine).mentions = r.mentions :=
  mentions_close r (keyword.line - 1)

end Reading

/-- The mentions that a segment of a module contributes. -/
def Segment.Yields (text : String) : Segment → List Mention → Prop
  | .header .., chunk => chunk = []
  | .single t, chunk =>
    if t.kind = .str then
      ∃ p ∈ pieces text, p.Records t ∧ ∃ ms, QueryText.pattern.Finds [] t.text.toList ms ∧
        List.Forall₂ (RecordedFrom text p) (ms.filter (QueryText.category? · |>.isSome)) chunk
    else chunk.length ≤ 1 ∧ ∀ mention ∈ chunk, mention.line = t.line

theorem Segment.exists_yields_single {text : String} {t : Token} (ht : t ∈ (lex text).tokens) (r : Reading)
    (around : Reading.Around) : ∃ chunk, (r.single t around).mentions = r.mentions ++ chunk ∧
      Yields text (.single t) chunk := by
  by_cases hkind : t.kind = .str
  · obtain ⟨p, hp, records⟩ := exists_piece ht
    obtain ⟨ms, hfinds, hsaid⟩ := QueryText.exists_finds_mentions t.text.toList
    refine ⟨_, (r.mentions_single_str hkind around).trans (r.mentions_queryText t), ?_⟩
    rw [Yields, if_pos hkind]
    refine ⟨p, hp, records, ms, hfinds, List.forall₂_map_right_iff.mpr (hsaid.imp fun m found hfound => ?_)⟩
    exact records.recordedFrom hp hkind hfound r.caller
  · obtain ⟨new, hnew, hlength, hline⟩ := r.addsOneAt_single hkind around
    refine ⟨new, hnew, ?_⟩
    rw [Yields, if_neg hkind]
    exact ⟨hlength, hline⟩

theorem exists_yields_readSegments {text : String} {segs : List Segment}
    (hsegs : segs.flatMap Segment.tokens ⊆ (lex text).tokens) (comments : List Comment) (before : List Token)
    (r : Reading) : ∃ chunks : List (List Mention),
      (Reading.readSegments comments before r segs).mentions = r.mentions ++ chunks.flatten ∧
      List.Forall₂ (Segment.Yields text) segs chunks := by
  induction segs generalizing before r with
  | nil => exact ⟨[], by simp [Reading.readSegments], .nil⟩
  | cons seg rest ih =>
    rw [List.flatMap_cons] at hsegs
    have hrest := ih (List.Subset.trans (List.subset_append_right _ _) hsegs)
    cases seg with
    | single t =>
      have ht : t ∈ (lex text).tokens := hsegs (List.mem_append_left _ (List.mem_singleton_self t))
      obtain ⟨chunk, hchunk, hyields⟩ :=
        Segment.exists_yields_single ht r ⟨before, rest.flatMap Segment.tokens⟩
      obtain ⟨chunks, hchunks, hall⟩ := hrest (t :: before) (r.single t ⟨before, rest.flatMap Segment.tokens⟩)
      refine ⟨chunk :: chunks, ?_, .cons hyields hall⟩
      rw [Reading.readSegments, hchunks, hchunk, List.flatten_cons, List.append_assoc]
    | header keyword kind header taken =>
      obtain ⟨chunks, hchunks, hall⟩ := hrest ((keyword :: taken).reverse ++ before)
        (r.openWith comments keyword kind header (((keyword :: taken).getLast?.getD keyword).line))
      refine ⟨[] :: chunks, ?_, .cons rfl hall⟩
      rw [Reading.readSegments, hchunks, Reading.mentions_openWith, List.flatten_cons, List.nil_append]

/-- **A mention in a literal is recorded under the line of its category, unless the category comes first on its
line.** The mentions of a module come from its segments, in order: none from headers, one at most from a token
that is no literal, and from a literal one for each match of the pattern that names a category. -/
theorem mention_line_eq_iff (text : String) : ∃ chunks : List (List Mention),
    chunks.flatten = (Outline.ofModule text).mentions ∧
      List.Forall₂ (Segment.Yields text) (segments (lex text).tokens) chunks := by
  have hsegs : (segments (lex text).tokens).flatMap Segment.tokens ⊆ (lex text).tokens := by
    rw [flatMap_tokens_segments]
    exact List.Subset.refl _
  obtain ⟨chunks, hchunks, hall⟩ := exists_yields_readSegments hsegs (lex text).comments [] {}
  refine ⟨chunks, ?_, hall⟩
  show _ = ((Reading.readFrom (lex text).comments [] {} (lex text).tokens).close _).mentions
  rw [Reading.mentions_close, Reading.readFrom_eq_readSegments, hchunks]
  rfl

/-- **A category that comes first on its line is recorded under the line above.** The literal begins on the first
line, and the category stands on the second. -/
theorem category_behind_break_is_early :
    (Outline.ofModule "X = \"SELECT * FROM\nCatalog.Units\";").mentions.map (fun m => (m.name, m.line)) =
        [("Units", 1)] ∧
      "X = \"SELECT * FROM\n".toList ++ "Catalog".toList ++ '.' :: "Units".toList <+:
        "X = \"SELECT * FROM\nCatalog.Units\";".toList ∧
      1 + lineBreaks "X = \"SELECT * FROM\n".toList = 2 := by
  decide +kernel

end CodeAtlas.Source
