import CodeAtlas.Source.Token
import CodeAtlas.Text.Case
import CodeAtlas.Text.Pattern

/-!
# Annotations in comments

A comment can tie the declaration below it to requirements and incidents: an at-sign, one of two
words in any case, an optional colon, and keys separated by commas, semicolons or blanks. The first
place in the comment where this fits is the one that counts, and what is no key is passed over.
-/

set_option autoImplicit false

namespace CodeAtlas.Source

open Text

/-- What an annotation is about. -/
inductive Annotation.Topic where
  | requirement
  | incident
deriving DecidableEq, Repr

/-- An annotation with its keys, as they are written. -/
structure Annotation where
  topic : Annotation.Topic
  keys : List String
deriving DecidableEq, Repr

namespace Annotation

/-- The words that follow the at-sign. -/
def topicWords : List (String × Topic) := [("requirement", .requirement), ("incident", .incident)]

/-- The text after a whole word: nothing that would continue the word may follow. -/
def afterWholeWord? (word : String) (cs : List Char) : Option (List Char) := do
  let rest ← afterWord? word.toList cs
  if rest.head?.any isPatternWordChar then none else return rest

def isKeyChar (c : Char) : Bool :=
  isPatternLetter c || isPatternNumber c || c == '_' || c == '.' || c == '-'

def isKey (cs : List Char) : Bool := !cs.isEmpty && cs.all isKeyChar

def isSeparator (c : Char) : Bool := c == ',' || c == ';' || isBlank c

/-- The keys in the text after the word. -/
def keysOf (cs : List Char) : List String :=
  let cs := cs.dropWhile isBlank
  let cs := if cs.head? == some ':' then cs.tail else cs
  ((splitOnChars isSeparator cs).filter isKey).map String.ofList

/-- The annotation that begins right after an at-sign. -/
def afterAt? (cs : List Char) : Option Annotation :=
  topicWords.findSome? fun (word, topic) => (afterWholeWord? word cs).map (⟨topic, keysOf ·⟩)

/-- The first annotation in a text. -/
def first? : List Char → Option Annotation
  | [] => none
  | c :: cs => (if c == '@' then afterAt? cs else none) <|> first? cs

/-- The annotation of a comment, if it has one. -/
def ofComment? (comment : Comment) : Option Annotation := first? comment.text.toList

/-- The members of a list, each where it first occurs. -/
def distinct (keys : List String) : List String :=
  keys.foldl (fun seen key => if seen.contains key then seen else seen ++ [key]) []

/-- The keys about one topic in the comments strictly between two lines, each once. -/
def keysBetween (topic : Topic) (comments : List Comment) (after before : Nat) : List String :=
  let between := comments.filter fun c => after < c.line && c.line < before
  distinct (((between.filterMap ofComment?).filter (·.topic = topic)).flatMap (·.keys))

end Annotation

end CodeAtlas.Source
