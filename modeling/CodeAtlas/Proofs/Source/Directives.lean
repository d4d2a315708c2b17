import CodeAtlas.Proofs.Source.Headings

/-!
# Directives and declarations

A directive belongs to the declaration it precedes, with nothing but directives and preprocessor lines
between the two. These are the leading directives of a declaration (`Site.leading`); comments that annotate
it are looked for in the same place.

The reader goes another way: it keeps the directives that it meets outside of declarations until the next
header. Both come to the same unless the reader is disturbed, and there are two ways to disturb it
(`Site.Undisturbed`). Code that takes a directive for itself, such as a variable of the module, does not take
it from the reader, which gives it to the next declaration. And where the declaration before was not ended,
the reader passes over the directive as one that stands in code.
-/

set_option autoImplicit false

namespace CodeAtlas.Source

/-! ## Outside of declarations -/

/-- Which of the tokens before a place, nearest first, are outside of declarations. -/
inductive Outside : Option (List Token) → List Token → Prop where
  /-- Those behind the token that ended the last declaration, or all. -/
  | since (tokens rest : List Token) (ends : ∀ token ∈ rest.head?, token.endsDeclaration = true) :
      Outside (some tokens) (tokens ++ rest)
  /-- None, where no token has ended the declaration behind whose header the place is. -/
  | within (inside taken rest : List Token) {keyword : Token} (begins : (Reading.declKind? keyword).isSome)
      (stays : ∀ token ∈ inside, token.endsDeclaration = false) :
      Outside none (inside ++ ((keyword :: taken).reverse ++ rest))

/-- Before all tokens there is nothing else. -/
theorem outside_start : Outside (some []) [] := .since [] [] (by simp)

theorem Outside.pass {s : Surroundings} (h : Outside s.outside s.before) (token : Token) :
    Outside (s.pass token).outside (s.pass token).before := by
  obtain ⟨before, outside, regions, codeLine⟩ := s
  unfold Surroundings.pass
  cases h with
  | since tokens rest ends => exact .since (token :: tokens) rest ends
  | within inside taken rest begins stays =>
    cases hends : token.endsDeclaration with
    | true => exact .since [] (token :: _) (by simpa using hends)
    | false => exact .within (token :: inside) taken rest begins (List.forall_mem_cons.mpr ⟨hends, stays⟩)

theorem outside_of_mem_sitesFrom {s : Surroundings} (h : Outside s.outside s.before) (tokens : List Token) :
    ∀ site ∈ sitesFrom s (segments tokens), Outside site.outside site.before := by
  fun_induction segments tokens generalizing s with
  | case1 => simp [sitesFrom]
  | case2 token after kind header hheader ih =>
    have hbegins : (Reading.declKind? token).isSome := by
      simp [(Reading.header?_eq_some_iff.mp hheader).1]
    have henter : Outside none ((token :: Reading.taken header after).reverse ++ s.before) :=
      .within [] _ s.before hbegins (by simp)
    exact List.forall_mem_cons.mpr ⟨h, ih henter⟩
  | case3 token after _ ih => exact ih (h.pass token)

/-! ## Leading directives -/

namespace Site

/-- The directives between the keyword and the code before it. -/
def leading (site : Site) : List String := directiveTexts (site.before.takeWhile Token.isAside).reverse

/-- Nothing disturbs the reader: outside of declarations no directive has other code behind it, and within a
declaration no directive leads the next one. -/
def Undisturbed (site : Site) : Prop :=
  match site.outside with
  | some tokens => ∀ token ∈ tokens.dropWhile Token.isAside, token.kind ≠ .directive
  | none => ∀ token ∈ site.before.takeWhile Token.isAside, token.kind ≠ .directive

end Site

theorem directiveTexts_append (tokens tokens' : List Token) :
    directiveTexts (tokens ++ tokens') = directiveTexts tokens ++ directiveTexts tokens' := by
  simp [directiveTexts]

theorem directiveTexts_eq_nil_iff {tokens : List Token} :
    directiveTexts tokens = [] ↔ ∀ token ∈ tokens, token.kind ≠ .directive := by
  simp [directiveTexts, List.filter_eq_nil_iff]

/-- The end of a declaration stands between it and what leads the next. -/
theorem Outside.takeWhile_before {tokens before : List Token} (h : Outside (some tokens) before) :
    before.takeWhile Token.isAside = tokens.takeWhile Token.isAside := by
  cases h with
  | since tokens rest ends =>
    have hrest : rest.takeWhile Token.isAside = [] := by
      cases rest with
      | nil => rfl
      | cons token rest =>
        have hkind := Token.kind_of_endsDeclaration (ends token rfl)
        simp [Token.isAside, hkind]
    rw [List.takeWhile_append, hrest, List.append_nil]
    split
    · exact (List.takeWhile_prefix _).eq_of_length ‹_› |>.symm
    · rfl

/-- The directives of a place are those that lead its declaration if nothing disturbs the reader, and only
then. -/
theorem Site.directives_iff {site : Site} (h : Outside site.outside site.before) :
    site.directives = site.leading ↔ site.Undisturbed := by
  unfold Surroundings.directives leading Undisturbed
  cases houtside : site.outside with
  | none =>
    show [] = _ ↔ _
    rw [eq_comm, directiveTexts_eq_nil_iff]
    simp only [List.mem_reverse]
  | some tokens =>
    rw [houtside] at h
    have hsplit : directiveTexts tokens.reverse = directiveTexts (tokens.dropWhile Token.isAside).reverse ++
        directiveTexts (tokens.takeWhile Token.isAside).reverse := by
      rw [← directiveTexts_append, ← List.reverse_append, List.takeWhile_append_dropWhile]
    rw [h.takeWhile_before, Option.getD_some, hsplit, List.append_left_eq_self, directiveTexts_eq_nil_iff]
    simp only [List.mem_reverse]

/-- **When a declaration has the directives that lead it**: each declaration of a module, in order, comes from
its place among the tokens, and has its leading directives exactly if nothing disturbs the reader there. -/
theorem directives_eq_leading_iff (text : String) :
    List.Forall₂ (fun site decl => site.In (lex text).tokens ∧ Outside site.outside site.before ∧
        decl.heading = site.heading (lex text).comments ∧
        (decl.directives = site.leading ↔ site.Undisturbed))
      (sites (lex text).tokens) (Outline.ofModule text).declarations := by
  have hsites := (List.forall₂_and_left _ _).mpr
    ⟨outside_of_mem_sitesFrom outside_start (lex text).tokens, forall₂_sites text⟩
  refine hsites.imp fun site decl ⟨houtside, hin, hheading⟩ => ⟨hin, houtside, hheading, ?_⟩
  have hdirectives : decl.directives = site.directives := congrArg Declaration.directives hheading
  rw [hdirectives]
  exact Site.directives_iff houtside

/-- The directive of a variable goes to the next declaration. -/
theorem directive_of_variable_passes_on :
    let text := "&AtClient\nVar X;\nProcedure F()\nEndProcedure\n"
    (Outline.ofModule text).declarations.map (·.directives) = [["AtClient"]] ∧
      (sites (lex text).tokens).map Site.leading = [[]] := by
  decide +kernel

/-- Behind a declaration without an end, the directive of the next one is lost. -/
example :
    let text := "Procedure F()\n&AtServer\nProcedure G()\nEndProcedure\n"
    (Outline.ofModule text).declarations.map (·.directives) = [[], []] ∧
      (sites (lex text).tokens).map Site.leading = [[], ["AtServer"]] := by
  decide +kernel

end CodeAtlas.Source
