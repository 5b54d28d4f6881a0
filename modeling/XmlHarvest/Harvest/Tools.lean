/-
What extraction works with, and why it can fail.

Extraction is written once for every way to compile expressions: anew each time, or through a
cache.  The ways differ in the monad `m`, which also carries the errors.
-/
import XmlHarvest.Text.Sentences
import XmlHarvest.XPath.Cache

namespace XmlHarvest

/-! ### Errors -/

/-- Why documents cannot be extracted. -/
inductive ExtractionError
  /-- The file is missing or no text. -/
  | unreadable
  /-- The text is no well-formed XML. -/
  | malformed
  /-- An expression of the grammar does not compile. -/
  | expression (invalid : XPath.Invalid)
  /-- The tokenizer refuses a text. -/
  | refused (reason : String)
  deriving DecidableEq, Repr

/-- The texts of those errors that have one of their own. -/
def ExtractionError.message? : ExtractionError → Option String
  | unreadable | malformed => none
  | expression invalid => some invalid.message
  | refused reason => some ("Tokenizer failed: " ++ reason)

/-! ### Tools -/

/-- A way to cut a text into sentences, or to refuse it for a reason. -/
abbrev Tokenizer := String → Except String (List String)

/-- The tokenizer that goes by punctuation.  It refuses nothing. -/
def Tokenizer.punctuation : Tokenizer := fun text => .ok (Text.sentences text)

/-- How to compile expressions, and how to cut the text of a block; without a way to cut, each
block stays whole. -/
structure Tools (m : Type → Type) where
  compiled : String → m XPath.Expression
  split : Option (String → m (List String))

/-- Apply a function to each item in order and join the lists that it gives. -/
def gather {m : Type → Type} [Monad m] {α β : Type} (f : α → m (List β)) : List α → m (List β)
  | [] => pure []
  | x :: xs => do
    let first ← f x
    let others ← gather f xs
    return first ++ others

/-- Tools that compile every expression anew. -/
def Tools.direct (split : Option Tokenizer) : Tools (Except ExtractionError) where
  compiled e := (XPath.compile e).mapError .expression
  split := split.map fun cut text => (cut text).mapError .refused

/-- Extraction with the expressions that were compiled before at hand.  They stay when it
fails. -/
abbrev Cached := ExceptT ExtractionError (StateM XPath.Cache)

/-- Tools that keep what they compile. -/
def Tools.cached (split : Option Tokenizer) : Tools Cached where
  compiled e := (XPath.Cache.get e).adapt .expression
  split := split.map fun cut text => ExceptT.mk (pure ((cut text).mapError .refused))

end XmlHarvest
