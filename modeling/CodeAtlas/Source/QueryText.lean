import CodeAtlas.Source.Keyword
import CodeAtlas.Source.Token
import CodeAtlas.Text.Pattern

/-!
# Metadata in query text

Queries are written in string literals, so their mentions of metadata objects are found by pattern
and not by token: the name of a category, a point, the name of an object. The category must not be
the tail of a longer name. It is compared character by character up to `Text.fold`, which is wider
than the table of categories; a spelling that only the pattern knows is passed over.

Mentions do not overlap: the search goes on after the object's name.
-/

set_option autoImplicit false

namespace CodeAtlas.Source

open Text

/-- The categories that query text can name. -/
def queryWords : List String :=
  ["справочник", "catalog", "документ", "document", "регистрсведений", "informationregister",
   "регистрнакопления", "accumulationregister", "регистрбухгалтерии", "accountingregister",
   "регистррасчета", "calculationregister", "перечисление", "enum", "константа", "constant",
   "планвидовхарактеристик", "chartofcharacteristictypes", "плансчетов", "chartofaccounts",
   "бизнеспроцесс", "businessprocess", "задача", "task", "планобмена", "exchangeplan",
   "журналдокументов", "documentjournal"]

namespace QueryText

/-- A letter, or the one mark that differs from a letter in case only. -/
def isNameLetter (c : Char) : Bool := isPatternLetter c || c == '\u0345'

def isNameStart (c : Char) : Bool := isNameLetter c || c == '_'

def isNameContinue (c : Char) : Bool := isNameLetter c || isPatternNumber c || c == '_'

/-- Whether a category may begin right after this character. -/
def isBoundary (c : Char) : Bool := !isNameContinue c && c != '.'

/-- The spelling of a category, the name of an object, and what follows. -/
structure Hit where
  category : List Char
  name : List Char
  rest : List Char

/-- The mention that begins with a given category word. -/
def hitWith? (word : String) (cs : List Char) : Option Hit :=
  match afterWord? word.toList cs with
  | some ('.' :: c :: rest) =>
    if isNameStart c then
      some ⟨cs.take word.toList.length, c :: rest.takeWhile isNameContinue,
        rest.dropWhile isNameContinue⟩
    else none
  | _ => none

/-- The mention at the front of a text. -/
def hit? (cs : List Char) : Option Hit := queryWords.findSome? (hitWith? · cs)

theorem length_afterWord? {word cs rest : List Char} (h : afterWord? word cs = some rest) :
    rest.length ≤ cs.length := by
  fun_induction afterWord? word cs <;> simp_all
  omega

theorem length_hit?_rest {cs : List Char} {hit : Hit} (h : hit? cs = some hit) :
    hit.rest.length < cs.length := by
  obtain ⟨word, _, hw⟩ := List.exists_of_findSome?_eq_some h
  unfold hitWith? at hw
  split at hw
  · rename_i c rest heq
    have hlen := length_afterWord? heq
    split at hw
    · injection hw with hw
      subst hw
      have := Lexeme.length_dropWhile_le isNameContinue rest
      simp only [List.length_cons] at hlen
      show (rest.dropWhile isNameContinue).length < cs.length
      omega
    · simp at hw
  · simp at hw

/-- A mention, with the number of line breaks before the place where it was found. That place is
the boundary character, where there is one. -/
structure Found where
  kind : MetadataKind
  name : String
  breaks : Nat
deriving DecidableEq, Repr

/-- What a hit says, unless only the pattern knows its category. -/
def Hit.found? (hit : Hit) (breaks : Nat) : Option Found :=
  (singularKind? (lower (String.ofList hit.category))).map (⟨·, String.ofList hit.name, breaks⟩)

/-- The mentions in a text that does not begin where the literal begins; `breaks` line breaks come
before it. -/
def inside (breaks : Nat) : List Char → List Found
  | [] => []
  | c :: cs =>
    match h : if isBoundary c then hit? cs else none with
    | some hit =>
      let covered := (c :: cs).take ((c :: cs).length - hit.rest.length)
      (hit.found? breaks).toList ++ inside (breaks + lineBreaks covered) hit.rest
    | none => inside (breaks + if c == '\n' then 1 else 0) cs
termination_by cs => cs.length
decreasing_by
  · split at h
    · have := length_hit?_rest h
      simp only [List.length_cons]
      omega
    · simp at h
  · simp

/-- The mentions in the text of a string literal. At its beginning no boundary is needed. -/
def mentions (cs : List Char) : List Found :=
  match hit? cs with
  | some hit =>
    (hit.found? 0).toList ++ inside (lineBreaks (cs.take (cs.length - hit.rest.length))) hit.rest
  | none => inside 0 cs

end QueryText

end CodeAtlas.Source
