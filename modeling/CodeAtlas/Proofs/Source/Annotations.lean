import CodeAtlas.Proofs.Source.Headings
import CodeAtlas.Proofs.Source.Lexemes
import CodeAtlas.Proofs.Text.Matching

/-!
# Annotations of declarations

A declaration has the keys of the annotations in the comments above it: those between the last code before its
keyword and the keyword itself (`Site.leads`). The reader keeps the line of the last code in passing, and sets
it again behind each header. It is always the line of the last token that is neither a directive nor a
preprocessor line (`codeLine_of_mem_sites`): a header is read as far as it goes, but it ends in such a token
unless it takes all that is left (`Header.endsInCode`). So no comment stands above two declarations
(`pairwise_leads`).

What an annotation is, and what its keys are, is said by patterns (`Annotation.pattern`,
`Annotation.keyPattern`). The reader has a search of its own for them, which finds the same
(`Annotation.found?_eq`).
-/

set_option autoImplicit false

namespace CodeAtlas

namespace Text

/-! ## Letters in any case -/

theorem mem_of_lowerShift? {runs : List CaseRun} {n : Nat} {shift : Int} (h : lowerShift? runs n = some shift) :
    ∃ run ∈ runs, run.first ≤ n ∧ n ≤ run.last ∧ run.shift = shift := by
  induction runs with
  | nil => cases h
  | cons run runs ih =>
    rw [lowerShift?] at h
    split at h
    · cases h
    · rename_i hfirst
      split at h
      · rename_i hlast
        cases h
        simp only [Bool.and_eq_true, decide_eq_true_eq] at hlast
        exact ⟨run, List.mem_cons_self, Nat.le_of_not_lt hfirst, hlast.1, rfl⟩
      · obtain ⟨found, hmem, hbounds⟩ := ih h
        exact ⟨found, List.mem_cons_of_mem run hmem, hbounds⟩

/-- The letters of the two words for annotations. There is more than one capital for some other letters. -/
def plainLetters : List Char := "requirementincident".toList

/-- What is tried for each letter of a list is tried for those letters only, and not for all characters. -/
theorem forall_mem_of_all {p : Char → Prop} [DecidablePred p] {letters : List Char}
    (h : letters.all (fun c => decide (p c)) = true) : ∀ c ∈ letters, p c :=
  fun c hc => of_decide_eq_true (List.all_eq_true.mp h c hc)

/-- A letter folds to one of these only if it is the letter itself or its capital. -/
theorem of_fold {c w : Char} (h : fold c = w) (hw : w ∈ plainLetters) : c = w ∨ c.toNat + 32 = w.toNat := by
  have hvariants : ∀ pair ∈ variantLetters, pair.2 ∉ plainLetters := by decide
  have hruns : ∀ w ∈ plainLetters, ∀ run ∈ lowerCaseRuns, (run.first : Int) ≤ w.toNat - run.shift →
      (w.toNat - run.shift : Int) ≤ run.last → run.shift = 32 :=
    forall_mem_of_all (by decide +kernel)
  have hletters : ∀ w ∈ plainLetters, w.toNat ≠ 0 := forall_mem_of_all (by decide)
  unfold fold at h
  split at h
  · rename_i hdotted
    rw [← h, eq_of_beq hdotted] at hw
    exact absurd hw (by decide)
  split at h
  · rename_i small hsmall
    obtain ⟨front, back, hvariant, -⟩ := List.lookup_eq_some_iff.mp hsmall
    exact absurd (h ▸ hw) (hvariants (c, small) (hvariant ▸ by simp))
  · unfold lowerSimple at h
    split at h
    · rename_i shift hshift
      obtain ⟨run, hrun, hfirst, hlast, rfl⟩ := mem_of_lowerShift? hshift
      have hpoint : (c.toNat + run.shift).toNat = w.toNat := by
        by_cases hvalid : (c.toNat + run.shift).toNat.isValidChar
        · rw [Char.ofNat, dif_pos hvalid] at h
          rw [← h]
          rfl
        · rw [Char.ofNat, dif_neg hvalid] at h
          exact absurd (congrArg Char.toNat h).symm (hletters w hw)
      have := hruns w hw run hrun
      have := hletters w hw
      omega
    · exact .inl h

theorem lowerAscii_of_fold {c : Char} (h : fold c ∈ plainLetters) : lowerAscii c = fold c := by
  have hsmall : ∀ w ∈ plainLetters, lowerAscii w = w := forall_mem_of_all (by decide)
  have hcapital : ∀ w ∈ plainLetters, lowerAscii (Char.ofNat (w.toNat - 32)) = w := forall_mem_of_all (by decide)
  rcases of_fold rfl h with heq | hcap
  · rw [← heq] at h ⊢
    exact hsmall c h
  · have hpoint : c.toNat = (fold c).toNat - 32 := by omega
    have hlower := hcapital (fold c) h
    rwa [← hpoint, Char.ofNat_toNat] at hlower

theorem isPatternWordChar_of_fold {c : Char} (h : fold c ∈ plainLetters) : isPatternWordChar c = true := by
  have hsmall : ∀ w ∈ plainLetters, isPatternWordChar w = true := List.all_eq_true.mp (by decide +kernel)
  have hcapital : ∀ w ∈ plainLetters, isPatternWordChar (Char.ofNat (w.toNat - 32)) = true :=
    forall_mem_of_all (by decide +kernel)
  rcases of_fold rfl h with heq | hcap
  · rw [← heq] at h
    exact hsmall c h
  · have hpoint : c.toNat = (fold c).toNat - 32 := by omega
    have hword := hcapital (fold c) h
    rwa [← hpoint, Char.ofNat_toNat] at hword

end Text

namespace Source

open Text

/-! ## The patterns -/

namespace Annotation

/-- Perhaps a colon, and the rest of the comment. -/
def tailPattern : Pattern :=
  .seq (.many isBlank) <| .seq (.maybe (.one (· == ':'))) <| .seq (.many isBlank) <|
  .seq (.group 2 (.many inLine)) .textEnd

/-- An at-sign, one of two words, perhaps a colon, and the rest of the comment. -/
def pattern : Pattern :=
  .seq (.one (· == '@')) <|
  .seq (.group 1 (.anyOf [.word "requirement".toList, .word "incident".toList])) <|
  .seq .wordEdge tailPattern

/-- A whole text of letters, numbers, underscores, points and hyphens. -/
def keyPattern : Pattern := .seq .textStart <| .seq (.one isKeyChar) <| .seq (.many isKeyChar) .textEnd

/-- What a match of the pattern says. -/
def ofMatch? (found : Cursor) : Option Annotation := do
  let word ← found.group? 1
  let keys ← found.group? 2
  let pieces := (splitOnChars isSeparator keys.text).filter fun piece => (keyPattern.search piece).isSome
  return { topic := if sameAsciiChars word.text "requirement".toList then .requirement else .incident
           keys := pieces.map String.ofList }

theorem searchFrom_keyPattern {before : List Char} (h : before ≠ []) (after : List Char) :
    keyPattern.searchFrom before after = none := by
  obtain ⟨last, before, rfl⟩ := List.exists_cons_of_ne_nil h
  induction after generalizing last before with
  | nil => rfl
  | cons c after ih => exact ih c (last :: before) (by simp)

/-- Keys are the texts that the pattern for keys matches. -/
theorem search_keyPattern (piece : List Char) : (keyPattern.search piece).isSome = isKey piece := by
  cases piece with
  | nil => rfl
  | cons c cs =>
    have hways : (keyPattern.ways ⟨[], c :: cs, []⟩).head?.isSome = isKey (c :: cs) := by
      rw [keyPattern, Pattern.head?_ways_textStart_seq, Pattern.head?_ways_one_seq,
        Pattern.head?_ways_many_textEnd]
      cases hc : isKeyChar c <;> cases hcs : cs.all isKeyChar <;> simp [isKey, hc, hcs]
    rw [Pattern.search, Pattern.searchFrom, searchFrom_keyPattern (by simp), ← hways]
    cases (keyPattern.ways ⟨[], c :: cs, []⟩).head? <;> rfl

/-- The text after blanks, a colon and blanks, of which there may be none. -/
def afterColon (cs : List Char) : List Char :=
  let cs := cs.dropWhile isBlank
  (if cs.head? == some ':' then cs.tail else cs).dropWhile isBlank

theorem mem_of_mem_afterColon {c : Char} {cs : List Char} (h : c ∈ afterColon cs) : c ∈ cs := by
  have hcs := (List.dropWhile_sublist _).mem h
  split at hcs
  · exact (List.dropWhile_sublist _).mem (List.mem_of_mem_tail hcs)
  · exact (List.dropWhile_sublist _).mem hcs

/-- What follows the words is never refused where the line goes on to the end of the text. -/
theorem head?_ways_tailPattern {c : Cursor} (h : '\n' ∉ c.after) : ∃ before keep,
    (tailPattern.ways c).head? = some ⟨before, [], (2, ⟨keep, afterColon c.after⟩) :: c.groups⟩ := by
  -- Each part goes on in its first way, so that the first ways of all parts are put together.
  obtain ⟨d, hd, hdafter, hdgroups⟩ : ∃ d, ((Pattern.many isBlank).ways c).head? = some d ∧
      d.after = c.after.dropWhile isBlank ∧ d.groups = c.groups :=
    ⟨_, Pattern.head?_ways_many isBlank c, rfl, rfl⟩
  obtain ⟨e, he, heafter, hegroups⟩ : ∃ e, ((Pattern.maybe (.one (· == ':'))).ways d).head? = some e ∧
      e.after = (if d.after.head? == some ':' then d.after.tail else d.after) ∧ e.groups = d.groups := by
    refine ⟨_, Pattern.head?_ways_maybe_one (· == ':') d, ?_, ?_⟩
    · cases hafter : d.after with
      | nil => simp [hafter]
      | cons x rest =>
        by_cases hx : x = ':' <;> simp [hafter, hx]
    · split <;> rfl
  obtain ⟨f, hf, hfafter, hfgroups⟩ : ∃ f, ((Pattern.many isBlank).ways e).head? = some f ∧
      f.after = e.after.dropWhile isBlank ∧ f.groups = e.groups :=
    ⟨_, Pattern.head?_ways_many isBlank e, rfl, rfl⟩
  have hrest : f.after = afterColon c.after := by
    rw [hfafter, heafter, hdafter]
    rfl
  have hline : ∀ x ∈ f.after, inLine x = true := by
    intro x hx
    have hmem : x ∈ c.after := by
      rw [hrest] at hx
      exact mem_of_mem_afterColon hx
    simpa [inLine] using fun heq : x = '\n' => h (heq ▸ hmem)
  have hall : f.after.takeWhile inLine = f.after := List.takeWhile_eq_self_iff.mpr hline
  have hnone : f.after.dropWhile inLine = [] := List.dropWhile_eq_nil_iff.mpr hline
  obtain ⟨g, hg, hgafter, hggroups⟩ : ∃ g, ((Pattern.group 2 (.many inLine)).ways f).head? = some g ∧
      g.after = [] ∧ g.groups = (2, ⟨f.before.reverse, f.after⟩) :: f.groups := by
    refine ⟨f.keep 2 (f.past f.after []), ?_, rfl, by simp [Cursor.keep, Cursor.past]⟩
    rw [Pattern.head?_ways_group, Pattern.head?_ways_many, hall, hnone]
    rfl
  have hend : (Pattern.textEnd.ways g).head? = some g := by
    rw [Pattern.ways_textEnd, hgafter]
    rfl
  refine ⟨g.before, f.before.reverse, ?_⟩
  have hways : (tailPattern.ways c).head? = some g :=
    Pattern.head?_ways_seq_of_head hd <| Pattern.head?_ways_seq_of_head he <|
      Pattern.head?_ways_seq_of_head hf <| Pattern.head?_ways_seq_of_head hg hend
  rw [hways, ← hrest, ← hdgroups, ← hegroups, ← hfgroups, ← hggroups, ← hgafter]

/-- Leading separators make no key. -/
theorem filter_split_dropWhile {p : Char → Bool} (h : ∀ c, p c = true → isSeparator c = true) (cs : List Char) :
    (splitOnChars isSeparator (cs.dropWhile p)).filter isKey = (splitOnChars isSeparator cs).filter isKey := by
  induction cs with
  | nil => rfl
  | cons c cs ih =>
    cases hc : p c with
    | false => rw [List.dropWhile_cons_of_neg (by simp [hc])]
    | true =>
      rw [List.dropWhile_cons_of_pos hc, ih]
      simp [splitOnChars, h c hc, isKey]

theorem keysOf_eq (cs : List Char) : keysOf cs =
    ((splitOnChars isSeparator (afterColon cs)).filter isKey).map String.ofList := by
  have hblank : ∀ c, isBlank c = true → isSeparator c = true := by
    intro c hc
    simp [isSeparator, hc]
  rw [afterColon, filter_split_dropWhile hblank]
  rfl

theorem rel_orElse {α β : Type} {R : α → β → Prop} {a a' : Option α} {b b' : Option β}
    (h : Option.Rel R a b) (h' : Option.Rel R a' b') : Option.Rel R (a <|> a') (b <|> b') := by
  cases h with
  | some hr => exact .some hr
  | none => exact h'

theorem rel_findSome {ι κ α β : Type} {R : α → β → Prop} {f : ι → Option α} {g : κ → Option β}
    {xs : List ι} {ys : List κ} (h : List.Forall₂ (fun x y => Option.Rel R (f x) (g y)) xs ys) :
    Option.Rel R (xs.findSome? f) (ys.findSome? g) := by
  induction h with
  | nil => exact .none
  | @cons x y xs ys hxy _ ih =>
    have hf : (x :: xs).findSome? f = (f x <|> xs.findSome? f) := by
      rw [List.findSome?_cons]
      cases f x <;> rfl
    have hg : (y :: ys).findSome? g = (g y <|> ys.findSome? g) := by
      rw [List.findSome?_cons]
      cases g y <;> rfl
    rw [hf, hg]
    exact rel_orElse hxy ih

/-- A match of a pattern and the annotation that it says. -/
def Says (found : Cursor) (meant : Annotation) : Prop := ofMatch? found = some meant

/-- The small letters of the two words, and which of the two is meant. -/
theorem of_mem_topicWords {word : String} {topic : Topic} (h : (word, topic) ∈ topicWords) :
    word.toList ⊆ plainLetters ∧ word.toList ≠ [] ∧ word.toList.map lowerAscii = word.toList ∧
      (if sameAsciiChars word.toList "requirement".toList then Topic.requirement else .incident) = topic := by
  have hall : ∀ entry ∈ topicWords, entry.1.toList ⊆ plainLetters ∧ entry.1.toList ≠ [] ∧
      entry.1.toList.map lowerAscii = entry.1.toList ∧
      (if sameAsciiChars entry.1.toList "requirement".toList then Topic.requirement else .incident) = entry.2 := by
    decide
  exact hall (word, topic) h

section Taken

variable {word : String} {topic : Topic} {taken : List Char} (hmem : (word, topic) ∈ topicWords)
  (htaken : taken.map fold = word.toList)

include hmem htaken

theorem fold_mem_of_taken {c : Char} (hc : c ∈ taken) : fold c ∈ plainLetters :=
  (of_mem_topicWords hmem).1 (htaken ▸ List.mem_map_of_mem hc)

/-- Letters that the pattern takes for those of a word tell which word it is. -/
theorem topic_of_taken :
    (if sameAsciiChars taken "requirement".toList then Topic.requirement else .incident) = topic := by
  obtain ⟨-, -, hsmall, htopic⟩ := of_mem_topicWords hmem
  have hlower : taken.map lowerAscii = word.toList := by
    rw [← htaken]
    exact List.map_congr_left fun c hc => lowerAscii_of_fold (fold_mem_of_taken hmem htaken hc)
  rw [sameAsciiChars, hlower, ← hsmall]
  exact htopic

theorem isPatternWordChar_head?_taken (before : List Char) :
    (taken.reverse ++ before).head?.any isPatternWordChar = true := by
  cases hreverse : taken.reverse with
  | nil =>
    rw [List.reverse_eq_nil_iff.mp hreverse] at htaken
    exact absurd htaken.symm (of_mem_topicWords hmem).2.1
  | cons c others =>
    have hc : c ∈ taken := List.mem_reverse.mp (hreverse ▸ List.mem_cons_self)
    simpa using isPatternWordChar_of_fold (fold_mem_of_taken hmem htaken hc)

end Taken

/-- Behind a word nothing more of the word may follow, and the rest holds the keys. -/
theorem rel_afterWholeWord {word : String} {topic : Topic} (hmem : (word, topic) ∈ topicWords)
    (before : List Char) {cs : List Char} (hline : '\n' ∉ cs) :
    Option.Rel Says
      ((Pattern.seq (.group 1 (.word word.toList)) (.seq .wordEdge tailPattern)).ways ⟨before, cs, []⟩).head?
      ((afterWholeWord? word cs).map (⟨topic, keysOf ·⟩)) := by
  rw [Pattern.head?_ways_group_word_seq, afterWholeWord?]
  cases hrest : afterWord? word.toList cs with
  | none => exact .none
  | some rest =>
    obtain ⟨taken, rfl, htaken⟩ := afterWord?_eq_some_iff.mp hrest
    have htake : (taken ++ rest).take word.toList.length = taken := by
      rw [← htaken, List.length_map, List.take_left]
    show Option.Rel Says ((Pattern.seq .wordEdge tailPattern).ways ⟨_, rest, _⟩).head?
      (Option.map _ (if rest.head?.any isPatternWordChar then none else some rest))
    rw [htake, Pattern.head?_ways_wordEdge_seq, isPatternWordChar_head?_taken hmem htaken before]
    cases hmore : rest.head?.any isPatternWordChar with
    | true => exact .none
    | false =>
      have hrestLine : '\n' ∉ rest := fun h => hline (List.mem_append_right taken h)
      obtain ⟨before', keep, hways⟩ := head?_ways_tailPattern
        (c := ⟨taken.reverse ++ before, rest, [(1, ⟨before.reverse, taken⟩)]⟩) hrestLine
      have hkeys : ((splitOnChars isSeparator (afterColon rest)).filter fun piece =>
          (keyPattern.search piece).isSome).map String.ofList = keysOf rest := by
        rw [keysOf_eq]
        simp only [search_keyPattern]
      rw [Bool.true_bne, Bool.not_false, if_pos rfl, hways, if_neg Bool.false_ne_true]
      refine .some ?_
      show some { topic := if sameAsciiChars taken "requirement".toList then .requirement else .incident
                  keys := _ : Annotation } = some _
      rw [topic_of_taken hmem htaken, hkeys]

theorem rel_afterAt {before cs : List Char} (hline : '\n' ∉ cs) :
    Option.Rel Says (pattern.ways ⟨before, '@' :: cs, []⟩).head? (afterAt? cs) := by
  rw [pattern, Pattern.head?_ways_one_seq, if_pos (beq_self_eq_true '@'), Pattern.head?_ways_group_anyOf_seq]
  have hwords : ∀ entry ∈ topicWords, Option.Rel Says
      ((Pattern.seq (.group 1 (.word entry.1.toList)) (.seq .wordEdge tailPattern)).ways
        ⟨'@' :: before, cs, []⟩).head?
      ((afterWholeWord? entry.1 cs).map (⟨entry.2, keysOf ·⟩)) :=
    fun entry hmem => rel_afterWholeWord hmem ('@' :: before) hline
  exact rel_findSome (.cons (hwords ("requirement", .requirement) (by decide))
    (.cons (hwords ("incident", .incident) (by decide)) .nil))

theorem rel_searchFrom {before cs : List Char} (hline : '\n' ∉ cs) :
    Option.Rel Says (pattern.searchFrom before cs) (first? cs) := by
  induction cs generalizing before with
  | nil => exact .none
  | cons c cs ih =>
    have hrest : '\n' ∉ cs := fun h => hline (List.mem_cons_of_mem c h)
    have hhere : Option.Rel Says (pattern.ways ⟨before, c :: cs, []⟩).head?
        (if c == '@' then afterAt? cs else none) := by
      by_cases hc : c = '@'
      · rw [hc]
        exact rel_afterAt hrest
      · have hne : (c == '@') = false := beq_eq_false_iff_ne.mpr hc
        rw [pattern, Pattern.head?_ways_one_seq, hne]
        exact .none
    exact rel_orElse hhere (ih hrest)

/-- What the first match in a comment says. -/
def found? (comment : Comment) : Option Annotation := (pattern.search comment.text.toList).bind ofMatch?

/-- The annotation of a comment is what the pattern finds. -/
theorem found?_eq {comment : Comment} (hline : '\n' ∉ comment.text.toList) :
    found? comment = ofComment? comment := by
  have hrel : Option.Rel Says (pattern.search comment.text.toList) (ofComment? comment) := rel_searchFrom hline
  unfold found?
  revert hrel
  generalize pattern.search comment.text.toList = found
  generalize ofComment? comment = meant
  intro hrel
  cases hrel with
  | some hsaid => exact hsaid
  | none => rfl

/-! ## Each key once -/

theorem distinct_eq_eraseDups (keys : List String) : distinct keys = keys.eraseDups := by
  have hfold : ∀ (seen : List String), keys.foldl (fun seen key =>
      if seen.contains key then seen else seen ++ [key]) seen =
        seen ++ (keys.filter (fun key => !seen.contains key)).eraseDups := by
    induction keys with
    | nil => simp
    | cons key keys ih =>
      intro seen
      rw [List.foldl_cons]
      by_cases hkey : seen.contains key = true
      · rw [if_pos hkey, ih, List.filter_cons_of_neg (by simpa using hkey)]
      · have hfilter : (keys.filter fun other => !(seen ++ [key]).contains other) =
            (keys.filter fun other => !seen.contains other).filter (!· == key) := by
          rw [List.filter_filter]
          refine List.filter_congr fun other _ => ?_
          by_cases heq : other = key <;> simp [heq]
        rw [if_neg hkey, ih, hfilter, List.filter_cons_of_pos (by simpa using hkey), List.eraseDups_cons,
          List.append_assoc, List.singleton_append]
  simpa [distinct] using hfold []

end Annotation

/-! ## Headers end in code -/

/-- What has been taken off the front of some tokens is all of them, or it ends in code. -/
def EndsInCode (tokens rest : List Token) : Prop :=
  rest = [] ∨ ∃ front last, tokens = front ++ last :: rest ∧ last.isAside = false

theorem EndsInCode.cons {tokens rest : List Token} (h : EndsInCode tokens rest) (token : Token) :
    EndsInCode (token :: tokens) rest := by
  rcases h with hnil | ⟨front, last, rfl, hlast⟩
  · exact .inl hnil
  · exact .inr ⟨token :: front, last, rfl, hlast⟩

theorem Token.isAside_of_isKeyword {token : Token} {keyword : Keyword} (h : token.isKeyword keyword = true) :
    token.isAside = false := by
  simp [Token.isAside, (Token.isKeyword_iff.mp h).1]

theorem endsInCode_readParams (depth : Nat) (expectName : Bool) (tokens : List Token) :
    EndsInCode tokens (readParams depth expectName tokens).2 := by
  fun_induction readParams depth expectName tokens with
  | case1 => exact .inl rfl
  | case3 _ token rest hkind => exact .inr ⟨[], token, rfl, by simp [Token.isAside, hkind]⟩
  | case7 _ _ _ _ _ _ names left hread ih =>
    rw [hread] at ih
    exact ih.cons _
  | case2 _ _ _ _ _ ih | case4 _ _ _ _ _ _ ih | case5 _ _ _ _ _ ih | case6 _ _ _ _ _ ih
  | case8 _ _ _ _ _ _ ih | case9 _ _ _ _ _ _ _ _ _ ih => exact ih.cons _

theorem endsInCode_readParamList {name : Token} (hname : name.isAside = false) (tokens : List Token) :
    EndsInCode (name :: tokens) (readParamList tokens).2 := by
  cases tokens with
  | nil => exact .inl rfl
  | cons token rest =>
    rw [readParamList]
    split
    · exact ((endsInCode_readParams 0 true rest).cons token).cons name
    · exact .inr ⟨[], name, rfl, hname⟩

theorem EndsInCode.readExport {tokens rest : List Token} (h : EndsInCode tokens rest) :
    EndsInCode tokens (readExport rest).2 := by
  cases rest with
  | nil => exact .inl rfl
  | cons token rest =>
    rw [Source.readExport]
    split
    · rename_i hexport
      rcases h with hnil | ⟨front, last, rfl, -⟩
      · cases hnil
      · exact .inr ⟨front ++ [last], token, by simp, Token.isAside_of_isKeyword hexport⟩
    · exact h

theorem Header.endsInCode {tokens : List Token} {header : Header} (h : Header.read? tokens = some header) :
    EndsInCode tokens header.rest := by
  cases tokens with
  | nil => cases h
  | cons name rest =>
    rw [Header.read?] at h
    split at h
    · rename_i hname
      cases h
      exact (endsInCode_readParamList (by simp [Token.isAside, hname]) rest).readExport
    · cases h

/-! ## The line of the last code -/

/-- The line of the last code among tokens, the nearest of which comes first; 0 if there is none. -/
def lineOfCode (before : List Token) : Nat := ((before.find? (!·.isAside)).map (·.line)).getD 0

theorem lineOfCode_cons (token : Token) (before : List Token) :
    lineOfCode (token :: before) = if token.isAside then lineOfCode before else token.line := by
  unfold lineOfCode
  cases h : token.isAside <;> simp [h]

theorem lineOfCode_enter {s : Surroundings} {token : Token} {after : List Token} {kind : DeclKind}
    {header : Header} (h : Reading.header? token after = some (kind, header)) (hrest : header.rest ≠ []) :
    let s' := s.enter token (Reading.taken header after)
    s'.codeLine = lineOfCode s'.before := by
  rcases Header.endsInCode (Reading.header?_eq_some_iff.mp h).2 with hnil | ⟨front, last, hafter, hlast⟩
  · exact absurd hnil hrest
  · have htaken : Reading.taken header after = front ++ [last] := by
      have hsplit := (Reading.taken_append_rest h).trans hafter
      rw [List.append_cons] at hsplit
      exact List.append_cancel_right hsplit
    have hends : (token :: (front ++ [last])).getLast? = some last := by
      rw [← List.cons_append, List.getLast?_concat]
    simp [Surroundings.enter, htaken, hends, lineOfCode_cons, hlast]

theorem codeLine_of_mem_sitesFrom {s : Surroundings} (hs : s.codeLine = lineOfCode s.before) (tokens : List Token) :
    ∀ site ∈ sitesFrom s (segments tokens), site.codeLine = lineOfCode site.before := by
  fun_induction segments tokens generalizing s with
  | case1 => simp [sitesFrom]
  | case2 token after kind header h ih =>
    refine List.forall_mem_cons.mpr ⟨hs, ?_⟩
    by_cases hrest : header.rest = []
    · rw [hrest, segments]
      simp [sitesFrom]
    · exact ih (lineOfCode_enter h hrest)
  | case3 token after h ih =>
    refine ih ?_
    simp [Surroundings.pass, lineOfCode_cons, hs]

theorem codeLine_of_mem_sites {tokens : List Token} {site : Site} (h : site ∈ sites tokens) :
    site.codeLine = lineOfCode site.before :=
  codeLine_of_mem_sitesFrom rfl tokens site h

/-! ## The comments above a declaration -/

/-- Keywords of declarations come before all that follows them. -/
theorem mem_before_of_mem_sitesFrom (s : Surroundings) (segs : List Segment) :
    (∀ site ∈ sitesFrom s segs, s.before ⊆ site.before) ∧
      (sitesFrom s segs).Pairwise fun first second => first.keyword ∈ second.before := by
  induction segs generalizing s with
  | nil => simp [sitesFrom]
  | cons seg rest ih =>
    cases seg with
    | single token =>
      obtain ⟨hsubset, hpairwise⟩ := ih (s.pass token)
      refine ⟨fun site hsite => ?_, hpairwise⟩
      exact List.Subset.trans (List.subset_cons_self token s.before) (hsubset site hsite)
    | header keyword kind header taken =>
      obtain ⟨hsubset, hpairwise⟩ := ih (s.enter keyword taken)
      refine ⟨List.forall_mem_cons.mpr ⟨List.Subset.refl _, fun site hsite t ht => ?_⟩,
        List.pairwise_cons.mpr ⟨fun site hsite => ?_, hpairwise⟩⟩
      · exact hsubset site hsite (List.mem_append_right _ ht)
      · exact hsubset site hsite (List.mem_append_left _ (by simp))

/-- Where lines go up, no code comes after the last code. -/
theorem line_le_lineOfCode {before : List Token} (hlines : before.Pairwise (·.line ≥ ·.line)) {token : Token}
    (hmem : token ∈ before) (hcode : token.isAside = false) : token.line ≤ lineOfCode before := by
  induction before with
  | nil => cases hmem
  | cons nearest before ih =>
    obtain ⟨hnearest, hlines⟩ := List.pairwise_cons.mp hlines
    rw [lineOfCode_cons]
    rcases List.mem_cons.mp hmem with rfl | hmem
    · rw [hcode]
      exact Nat.le_refl _
    · split
      · exact ih hlines hmem
      · exact hnearest token hmem

/-- A comment ends with its line. -/
theorem newline_not_mem_comment {text : String} {comment : Comment} (h : comment ∈ (lex text).comments) :
    '\n' ∉ comment.text.toList := by
  obtain ⟨p, hp, notes⟩ := exists_left_of_forall₂ (forall₂_lexFrom [] text.toList).2 h
  have hspells := (tiles_pieces text).spelled p (List.mem_filter.mp hp).1
  rw [notes.item] at hspells
  generalize comment.text.toList = body at hspells
  generalize p.span = span at hspells
  intro hmem
  cases hspells with
  | comment hbody => exact absurd (hbody _ hmem) (by decide)

namespace Site

/-- Whether a comment stands above the declaration: after the last code before its keyword, and before the
line of the keyword. -/
def leads (site : Site) (comment : Comment) : Bool :=
  lineOfCode site.before < comment.line && comment.line < site.keyword.line

theorem isAside_keyword {site : Site} {tokens : List Token} (h : site.In tokens) :
    site.keyword.isAside = false := by
  obtain ⟨after, -, hheader⟩ := h
  have hkind : site.keyword.kind = .ident := by
    by_contra hne
    rw [Reading.header?_eq_none hne] at hheader
    cases hheader
  simp [Token.isAside, hkind]

theorem pairwise_before {site : Site} {tokens : List Token} (h : site.In tokens)
    (hlines : tokens.Pairwise (·.line ≤ ·.line)) : site.before.Pairwise (·.line ≥ ·.line) := by
  obtain ⟨after, rfl, -⟩ := h
  exact List.pairwise_reverse.mp (List.pairwise_append.mp hlines).1

/-- The keys about one topic in the comments above the declaration, each once. -/
def keysAbove (site : Site) (topic : Annotation.Topic) (comments : List Comment) : List String :=
  let annotations := (comments.filter site.leads).filterMap Annotation.found?
  ((annotations.filter (·.topic = topic)).flatMap (·.keys)).eraseDups

theorem keysBetween_eq {text : String} {site : Site} (h : site ∈ sites (lex text).tokens)
    (topic : Annotation.Topic) :
    Annotation.keysBetween topic (lex text).comments site.codeLine site.keyword.line =
      site.keysAbove topic (lex text).comments := by
  have hfound : ∀ comment ∈ (lex text).comments.filter site.leads,
      Annotation.ofComment? comment = Annotation.found? comment := by
    intro comment hmem
    have hline := newline_not_mem_comment (List.mem_filter.mp hmem).1
    symm
    exact Annotation.found?_eq hline
  unfold Annotation.keysBetween keysAbove
  rw [codeLine_of_mem_sites h, Annotation.distinct_eq_eraseDups, ← List.filterMap_congr hfound]
  rfl

end Site

/-- No comment stands above two declarations. -/
theorem pairwise_leads (text : String) : (sites (lex text).tokens).Pairwise fun first second =>
    ∀ comment, ¬(first.leads comment ∧ second.leads comment) := by
  have hin := in_of_mem_sitesFrom {} (lex text).tokens
  have hbefore := (mem_before_of_mem_sitesFrom {} (segments (lex text).tokens)).2
  refine hbefore.imp_of_mem fun {first second} hfirst hsecond hmem comment h => ?_
  have hline : first.keyword.line ≤ lineOfCode second.before :=
    line_le_lineOfCode (Site.pairwise_before (hin second hsecond) (pairwise_line_lex text)) hmem
      (Site.isAside_keyword (hin first hfirst))
  simp only [Site.leads, Bool.and_eq_true, decide_eq_true_eq] at h
  omega

/-- **Annotations belong to the declaration below them, and to no other.** There is one declaration for each
place where one begins, in order. Its keys are those in the comments above it, each where it first occurs; and
no comment stands above two declarations. -/
theorem annotations_lead_one (text : String) :
    List.Forall₂ (fun site decl => site.In (lex text).tokens ∧
        decl.name = site.header.name ∧ decl.kind = site.kind ∧ decl.firstLine = site.keyword.line ∧
        decl.requirements = site.keysAbove .requirement (lex text).comments ∧
        decl.incidents = site.keysAbove .incident (lex text).comments)
      (sites (lex text).tokens) (Outline.ofModule text).declarations ∧
    (sites (lex text).tokens).Pairwise fun first second =>
      ∀ comment, ¬(first.leads comment ∧ second.leads comment) := by
  refine ⟨?_, pairwise_leads text⟩
  refine ((List.forall₂_and_left _ _).mpr ⟨fun site hsite => hsite, forall₂_sites text⟩).imp ?_
  rintro site decl ⟨hsite, hin, hheading⟩
  refine ⟨hin, congrArg (·.name) hheading, congrArg (·.kind) hheading, congrArg (·.firstLine) hheading, ?_, ?_⟩
  · exact (congrArg (·.requirements) hheading).trans (Site.keysBetween_eq hsite .requirement)
  · exact (congrArg (·.incidents) hheading).trans (Site.keysBetween_eq hsite .incident)

end Source

end CodeAtlas
