/-
The pieces of markup: names, references, attributes, tags, comments and sections.

Every reader here takes characters from the front of a text and gives them back with the rest, or
nothing when the text does not begin with what it reads.  No document is accepted that declares
entities, so the five predefined ones and character references are all there are.
-/
import XmlHarvest.Text.Numerals
import XmlHarvest.Text.Basic
import XmlHarvest.Xml.Character

namespace XmlHarvest.Xml

/-! ### Fixed texts and delimited ones -/

/-- The rest after a fixed text. -/
def skip? (word : List Char) (cs : List Char) : Option (List Char) :=
  if word.isPrefixOf cs then some (cs.drop word.length) else none

def skipSpaces (cs : List Char) : List Char :=
  cs.dropWhile isSpace

/-- The allowed characters before a delimiter, and the rest after it. -/
def cutAt (delimiter : List Char) : List Char → Option (List Char × List Char)
  | [] => none
  | c :: cs =>
    if delimiter.isPrefixOf (c :: cs) then some ([], (c :: cs).drop delimiter.length)
    else if isAllowed c then (cutAt delimiter cs).map fun (content, rest) => (c :: content, rest)
    else none

/-! ### Names -/

/-- A name as it is written: the label before the colon, empty if there is none, and the part
after it. -/
structure QualifiedName where
  label : String
  base : String
  deriving DecidableEq, Repr

/-- Whether the characters begin as a name does. -/
def beginsName (cs : List Char) : Bool :=
  cs.head?.any isNameStart

/-- A name that may hold one colon, which separates two names.  The part before the colon may be
missing, the other may not. -/
def qualifiedName (cs : List Char) : Option (QualifiedName × List Char) :=
  let written := cs.takeWhile isNameChar
  let rest := cs.dropWhile isNameChar
  match written.dropWhile (· != ':') with
  | [] =>
    if beginsName written then some (⟨"", String.ofList written⟩, rest) else none
  | _ :: base =>
    let label := written.takeWhile (· != ':')
    if (label.isEmpty || beginsName label) && beginsName base && !base.contains ':' then
      some (⟨String.ofList label, String.ofList base⟩, rest)
    else none

/-! ### References -/

/-- A character of a text: written as such, or by a reference. -/
inductive Piece
  | literal (c : Char)
  | reference (c : Char)
  deriving DecidableEq, Repr

/-- The character with a number.  Numbers that fit a word but name no character give the
replacement character. -/
def numberedChar (n : Nat) : Option Char :=
  if n < 0x100000000 then
    let c := if h : n.isValidChar then Char.ofNatAux n h else '\ufffd'
    if isAllowed c then some c else none
  else none

/-- The character of a predefined entity. -/
def entity? : String → Option Char
  | "quot" => some '"'
  | "amp" => some '&'
  | "apos" => some '\''
  | "lt" => some '<'
  | "gt" => some '>'
  | _ => none

/-- A character reference after its mark, by its digits and what they write. -/
def numericReference (number : List Char → Nat) (isDigit : Char → Bool) (cs : List Char) :
    Option (Char × List Char) := do
  let digits := cs.takeWhile isDigit
  if digits.isEmpty then none
  else
    let c ← numberedChar (number digits)
    let rest ← skip? [';'] (cs.dropWhile isDigit)
    return (c, rest)

/-- What a reference stands for, read after its ampersand. -/
def reference : List Char → Option (Char × List Char)
  | '#' :: 'x' :: cs => numericReference Text.hexadecimal Text.isHexDigit cs
  | '#' :: cs => numericReference Text.decimal Char.isDigit cs
  | cs => do
    let c ← entity? (String.ofList (cs.takeWhile isNameChar))
    let rest ← skip? [';'] (cs.dropWhile isNameChar)
    return (c, rest)

/-- The pieces of a text, of which there are at most as many as the bound says. -/
def piecesWithin : Nat → List Char → Option (List Piece)
  | _, [] => some []
  | 0, _ => none
  | bound + 1, '&' :: cs => do
    let (c, rest) ← reference cs
    return .reference c :: (← piecesWithin bound rest)
  | bound + 1, c :: cs => do
    return .literal c :: (← piecesWithin bound cs)

/-- The pieces of a text. -/
def Piece.ofText? (cs : List Char) : Option (List Piece) :=
  piecesWithin cs.length cs

/-- The characters of a text node.  A line ends in one line feed however it was written; but a
carriage return directly before a reference stays, and so does one that is all that follows the
last reference. -/
def Piece.content : List Piece → List Char
  | [] => []
  | .literal '\r' :: .literal '\n' :: ps => '\n' :: content ps
  | .literal '\r' :: .reference c :: ps => '\r' :: content (.reference c :: ps)
  | .literal '\r' :: ps => '\n' :: content ps
  | [.reference c, .literal '\r'] => [c, '\r']
  | .literal c :: ps | .reference c :: ps => c :: content ps

/-- The characters of an attribute's value.  White space that is written as such becomes a space,
a carriage return and line feed together one space. -/
def Piece.value : List Piece → List Char
  | [] => []
  | .literal '\r' :: .literal '\n' :: ps => ' ' :: value ps
  | .literal c :: ps => (if isSpace c then ' ' else c) :: value ps
  | .reference c :: ps => c :: value ps

/-! ### Tags -/

/-- An attribute as it is written, its value already read. -/
structure Setting where
  name : QualifiedName
  value : String
  deriving DecidableEq, Repr

/-- An attribute whose value is left as it is written: name, equals sign, and a value in quotes,
which holds no `<`. -/
def rawSetting (cs : List Char) : Option (QualifiedName × List Char × List Char) := do
  let (name, cs) ← qualifiedName cs
  let cs ← skip? ['='] (skipSpaces cs)
  match skipSpaces cs with
  | quote :: cs =>
    if quote == '"' || quote == '\'' then
      let (raw, rest) ← cutAt [quote] cs
      if raw.contains '<' then none else return (name, raw, rest)
    else none
  | [] => none

/-- An attribute. -/
def setting (cs : List Char) : Option (Setting × List Char) := do
  let (name, raw, rest) ← rawSetting cs
  return (⟨name, String.ofList (Piece.value (← Piece.ofText? raw))⟩, rest)

/-- The attributes up to the end of a tag, at most as many as the bound says, and whether the tag
is one of an empty element.  White space stands before each attribute. -/
def settingsWithin : Nat → List Char → Option (List Setting × Bool × List Char)
  | 0, _ => none
  | bound + 1, cs =>
    match skipSpaces cs with
    | '>' :: rest => some ([], false, rest)
    | '/' :: '>' :: rest => some ([], true, rest)
    | next => do
      if !cs.head?.any isSpace then none
      else
        let (s, rest) ← setting next
        let (ss, empty, rest) ← settingsWithin bound rest
        return (s :: ss, empty, rest)

/-! ### Events -/

/-- A piece of a document.  Text is still as it was written. -/
inductive Event
  | opened (name : QualifiedName) (settings : List Setting) (empty : Bool)
  | closed (name : QualifiedName)
  | text (raw : List Char)
  | section (content : List Char)
  | comment (content : List Char)
  | instruction
  deriving Repr

/-- The first event of a text, in which no tag has as many attributes as the bound says. -/
def Event.read (bound : Nat) : List Char → Option (Event × List Char)
  | '<' :: '!' :: '-' :: '-' :: cs => do
    let (content, rest) ← cutAt ['-', '-', '>'] cs
    if Text.occursIn ['-', '-'] content || content.getLast? == some '-' then none
    else return (.comment content, rest)
  | '<' :: '!' :: cs => do
    let cs ← skip? "[CDATA[".toList cs
    let (content, rest) ← cutAt [']', ']', '>'] cs
    return (.section content, rest)
  | '<' :: '?' :: cs =>
    if "xml ".toList.isPrefixOf cs || !beginsName cs then none
    else do
      let (_, rest) ← cutAt ['?', '>'] (skipSpaces (cs.dropWhile isNameChar))
      return (.instruction, rest)
  | '<' :: '/' :: cs => do
    let (name, cs) ← qualifiedName cs
    let rest ← skip? ['>'] (skipSpaces cs)
    return (.closed name, rest)
  | '<' :: cs => do
    let (name, cs) ← qualifiedName cs
    let (settings, empty, rest) ← settingsWithin bound cs
    return (.opened name settings empty, rest)
  | cs =>
    let raw := cs.takeWhile (· != '<')
    if raw.all isAllowed && !Text.occursIn [']', ']', '>'] raw then
      some (.text raw, cs.dropWhile (· != '<'))
    else none

/-- The events of a text that is no longer than the bound says. -/
def eventsWithin : Nat → List Char → Option (List Event)
  | _, [] => some []
  | 0, _ => none
  | bound + 1, cs => do
    let (e, rest) ← Event.read (bound + 1) cs
    return e :: (← eventsWithin bound rest)

/-! ### The declaration -/

/-- White space inside a declaration, which may be missing only at its end. -/
def declarationSpaces (cs : List Char) : Option (List Char) :=
  if cs.head?.any isSpace then some (skipSpaces cs)
  else if ['?', '>'].isPrefixOf cs || cs.isEmpty then some cs
  else none

/-- An attribute of the declaration whose name begins in a given way; another text is left.  Its
value is not looked into. -/
def declarationSetting (word : String) (cs : List Char) : Option (List Char) :=
  if word.toList.isPrefixOf cs then (rawSetting cs).map (·.2.2) else some cs

/-- The rest after the XML declaration of a text that has one. -/
def skipDeclaration (cs : List Char) : Option (List Char) :=
  match skip? "<?xml ".toList cs with
  | none => some cs
  | some cs => do
    let cs := skipSpaces cs
    if !"version".toList.isPrefixOf cs then none
    else
      let cs ← declarationSpaces (← declarationSetting "version" cs)
      let cs ←
        if "encoding".toList.isPrefixOf cs then
          declarationSpaces (← declarationSetting "encoding" cs)
        else some cs
      let cs ← declarationSetting "standalone" cs
      skip? ['?', '>'] (skipSpaces cs)

/-- The events of a whole document, without its byte order mark and declaration. -/
def Event.ofDocument? (cs : List Char) : Option (List Event) := do
  let cs := if cs.head? == some '\ufeff' then cs.tail else cs
  let cs ← skipDeclaration cs
  eventsWithin cs.length cs

end XmlHarvest.Xml
