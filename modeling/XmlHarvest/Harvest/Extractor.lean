/-
Extracting the documents of an XML text: a grammar, a tokenizer, and whether to use it.
-/
import XmlHarvest.Harvest.Units
import XmlHarvest.Xml.Reader

namespace XmlHarvest

/-- A grammar with the way to cut texts into sentences, which may be switched off. -/
structure Extractor where
  grammar : Rule
  tokenizer : Tokenizer
  tokenize : Bool

/-- The tokenizer if it is switched on. -/
def Extractor.split (x : Extractor) : Option Tokenizer :=
  if x.tokenize then some x.tokenizer else none

/-- The units that the grammar makes of a document. -/
def Extractor.unitsOf (x : Extractor) (t : Xml.Tree) :
    Except ExtractionError (List (TextUnit Passage)) :=
  unitsUnder (Tools.direct x.split) t x.grammar Xml.Tree.rootNumber

/-- The documents of an XML document. -/
def Extractor.documentsOf (x : Extractor) (t : Xml.Tree) :
    Except ExtractionError (List Document) :=
  (x.unitsOf t).map fun us => us.map fun u => Document.ofUnit u.spread

/-- The documents of an XML text. -/
def Extractor.extract (x : Extractor) (text : String) : Except ExtractionError (List Document) :=
  match Xml.read? text with
  | none => .error .malformed
  | some t => x.documentsOf t

/-- The documents of a file, which may be no text. -/
def Extractor.extractFile (x : Extractor) (content : Option String) :
    Except ExtractionError (List Document) :=
  match content with
  | none => .error .unreadable
  | some text => x.extract text

/-! ### With a cache -/

/-- The units that the grammar makes of a document, by way of the cache. -/
def Extractor.unitsCached (x : Extractor) (t : Xml.Tree) : Cached (List (TextUnit Passage)) :=
  unitsUnder (Tools.cached x.split) t x.grammar Xml.Tree.rootNumber

/-- The documents of an XML text, by way of the cache. -/
def Extractor.extractCached (x : Extractor) (text : String) : Cached (List Document) :=
  match Xml.read? text with
  | none => throw .malformed
  | some t => (fun us => us.map fun u => Document.ofUnit u.spread) <$> x.unitsCached t

end XmlHarvest
