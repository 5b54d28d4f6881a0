/-
Cutting a text into sentences by its punctuation.

Lines that are not blank and stand together form a paragraph, whose words are joined by single
spaces; so a line break inside a paragraph is white space like any other.  Within a paragraph a
sentence ends after a terminator (`.`, `!` or `?`) and the terminators and closing marks directly
after it, provided that white space or the paragraph's end follows.
-/
import XmlHarvest.Text.Basic

namespace XmlHarvest.Text

/-! ### Paragraphs -/

/-- The paragraphs of some lines, each as the text of its lines with their line feeds.  A blank
line ends a paragraph, be it an empty one. -/
def paragraphs : List (List Char) → List (List Char)
  | [] => [[]]
  | l :: ls =>
    if l.all isBlank then [] :: paragraphs ls
    else
      match paragraphs ls with
      | [] => [l ++ ['\n']]
      | p :: ps => (l ++ '\n' :: p) :: ps

/-! ### Sentences of a paragraph -/

/-- The marks that end a sentence. -/
def isTerminator (c : Char) : Bool :=
  c == '.' || c == '!' || c == '?'

/-- The marks that may stand between a terminator and the end of its sentence. -/
def isCloser (c : Char) : Bool :=
  c == '"' || c == '\'' || c == ')' || c == ']' || c == '\u201d'

/-- Cut at each blank that follows an ended sentence.  The flag says whether the characters just
before form a terminator with the terminators and closing marks after it. -/
def pieces (ended : Bool) : List Char → List (List Char)
  | [] => [[]]
  | c :: cs =>
    if ended && isBlank c then [] :: extendFirst c (pieces false cs)
    else extendFirst c (pieces (isTerminator c || (ended && isCloser c)) cs)

/-- The sentences of a paragraph, without the blanks at their ends; blank ones are left out. -/
def paragraphSentences (paragraph : List Char) : List (List Char) :=
  ((pieces false (squeeze paragraph)).map trimChars).filter (!·.isEmpty)

/-! ### Sentences of a text -/

/-- The sentences of a text, paragraph by paragraph. -/
def sentences (text : String) : List String :=
  ((paragraphs (lines text.toList)).flatMap paragraphSentences).map String.ofList

end XmlHarvest.Text
