/-
The character classes of XML.
-/
import XmlHarvest.Text.Classes

namespace XmlHarvest.Xml

/-- The white space of markup. -/
def isSpace (c : Char) : Bool :=
  c == ' ' || c == '\t' || c == '\n' || c == '\r'

/-- The characters that may occur in a document at all. -/
def isAllowed (c : Char) : Bool :=
  let n := c.toNat
  if n < 0x20 then isSpace c else n != 0xFFFE && n != 0xFFFF

/-- The characters that begin a name, the colon excepted. -/
def nameStartRanges : List (Nat × Nat) :=
  [(0x41, 0x5A), (0x5F, 0x5F), (0x61, 0x7A), (0xC0, 0xD6), (0xD8, 0xF6), (0xF8, 0x2FF),
   (0x370, 0x37D), (0x37F, 0x1FFF), (0x200C, 0x200D), (0x2070, 0x218F), (0x2C00, 0x2FEF),
   (0x3001, 0xD7FF), (0xF900, 0xFDCF), (0xFDF0, 0xFFFD), (0x10000, 0xEFFFF)]

/-- The further characters that continue a name. -/
def nameExtraRanges : List (Nat × Nat) :=
  [(0x2D, 0x2E), (0x30, 0x39), (0xB7, 0xB7), (0x300, 0x36F), (0x203F, 0x2040)]

/-- The characters that begin a name, with the colon, which namespaces treat apart. -/
def isNameStart (c : Char) : Bool :=
  c == ':' || Text.inRanges nameStartRanges c

/-- The characters that continue a name. -/
def isNameChar (c : Char) : Bool :=
  isNameStart c || Text.inRanges nameExtraRanges c

end XmlHarvest.Xml
