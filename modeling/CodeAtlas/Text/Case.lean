import CodeAtlas.Text.CaseTable

/-!
# Letter case

Names are matched without regard to case in three different ways, and each has its own place here.

* `lower` is the lower-casing of a whole text. It is a function of texts and not of characters: a
  capital sigma at the end of a word becomes a final sigma, and the dotted capital I becomes two
  characters.
* `fold` identifies characters one by one. It is what matching a fixed Latin or Cyrillic word
  inside a text needs; besides capitals it knows the handful of letters that are variants of a small
  letter without being its capital.
* `sameAscii` looks at the 26 letters of ASCII alone. It is for the names that this library itself
  fixes: kinds, folders, file names.
-/

set_option autoImplicit false

namespace CodeAtlas.Text

/-! ## Lower-casing -/

/-- The shift to the small letter, if the code point is a capital of one of the runs. -/
def lowerShift? : List CaseRun → Nat → Option Int
  | [], _ => none
  | run :: rest, n =>
    if n < run.first then none
    else if n ≤ run.last && (n - run.first) % run.step == 0 then some run.shift
    else lowerShift? rest n

/-- The small letter of a capital, and any other character itself. -/
def lowerSimple (c : Char) : Char :=
  match lowerShift? lowerCaseRuns c.toNat with
  | some shift => Char.ofNat (c.toNat + shift).toNat
  | none => c

/-- Whether a character occurs in an upper, lower or title-case form. -/
def isCased (c : Char) : Bool := casedRanges.contains c

/-- Whether the end of a word is sought beyond this character. -/
def isCaseIgnorable (c : Char) : Bool := caseIgnorableRanges.contains c

/-- Whether the first character that is not looked through is cased. -/
def meetsCased (cs : List Char) : Bool :=
  match cs.dropWhile isCaseIgnorable with
  | [] => false
  | c :: _ => isCased c

/-- Lower-cases the second list; the first holds what stands before it, nearest character first. -/
def lowerFrom : List Char → List Char → List Char
  | _, [] => []
  | before, c :: after =>
    let small :=
      if c == 'Σ' then
        if meetsCased before && !meetsCased after then ['ς'] else ['σ']
      else if c == 'İ' then ['i', '\u0307']
      else [lowerSimple c]
    small ++ lowerFrom (c :: before) after

/-- The lower-case form of a list of characters. -/
def lowerChars (cs : List Char) : List Char := lowerFrom [] cs

/-- The lower-case form of a text. -/
def lower (s : String) : String := String.ofList (lowerChars s.toList)

/-! ## Folding single characters -/

/-- The letters that are variants of a small Latin or Cyrillic letter and not its capital. -/
def variantLetters : List (Char × Char) :=
  [('ſ', 's'), ('ᲀ', 'в'), ('ᲁ', 'д'), ('ᲂ', 'о'), ('ᲃ', 'с'), ('ᲄ', 'т'), ('ᲅ', 'т'),
   ('ᲆ', 'ъ'), ('ᲇ', 'ѣ')]

/-- The representative of a character among those that differ in case only. The dotted capital I
stands for itself: it is no form of the letter i. -/
def fold (c : Char) : Char :=
  if c == 'İ' then c else
  match variantLetters.lookup c with
  | some small => small
  | none => lowerSimple c

/-- The rest of a text after a word, matched character by character up to `fold`. The word is given
in its folded form. -/
def afterWord? : List Char → List Char → Option (List Char)
  | [], text => some text
  | w :: ws, c :: cs => if fold c == w then afterWord? ws cs else none
  | _ :: _, [] => none

/-! ## ASCII -/

/-- The small letter of an ASCII capital, and any other character itself. -/
def lowerAscii (c : Char) : Char :=
  if 'A' ≤ c && c ≤ 'Z' then Char.ofNat (c.toNat + 32) else c

/-- Whether two lists of characters agree up to the case of ASCII letters. -/
def sameAsciiChars (a b : List Char) : Bool := a.map lowerAscii == b.map lowerAscii

/-- Whether two texts agree up to the case of ASCII letters. -/
def sameAscii (a b : String) : Bool := sameAsciiChars a.toList b.toList

/-- The text with its ASCII capitals made small. -/
def toLowerAscii (s : String) : String := String.ofList (s.toList.map lowerAscii)

end CodeAtlas.Text
