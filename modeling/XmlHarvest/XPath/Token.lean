/-
The tokens of an expression, and how messages show them.
-/
import XmlHarvest.Text.Quoted

namespace XmlHarvest.XPath

/-- A token.  White space between tokens has none. -/
inductive Token
  | slash
  | doubleSlash
  | dot
  | doubleDot
  | atSign
  | star
  | leftBracket
  | rightBracket
  | leftParen
  | rightParen
  | pipe
  | equal
  | notEqual
  /-- An axis name, which was followed by two colons. -/
  | axis (name : String)
  /-- A name with at most one colon in it, after a namespace label. -/
  | name (text : String)
  /-- The text between two quotes of one kind. -/
  | literal (text : String)
  | number (value : Nat)
  deriving DecidableEq, Repr

/-- The token as messages show it. -/
def Token.display : Token → String
  | slash => "Slash"
  | doubleSlash => "DoubleSlash"
  | dot => "Dot"
  | doubleDot => "DotDot"
  | atSign => "At"
  | star => "Star"
  | leftBracket => "LBracket"
  | rightBracket => "RBracket"
  | leftParen => "LParen"
  | rightParen => "RParen"
  | pipe => "Pipe"
  | equal => "Eq"
  | notEqual => "NotEq"
  | axis n => "Axis(" ++ Text.quoted n ++ ")"
  | name n => "Name(" ++ Text.quoted n ++ ")"
  | literal t => "Literal(" ++ Text.quoted t ++ ")"
  | number n => "Number(" ++ toString n ++ ")"

/-- The token at a place where there may be none. -/
def Token.displayOption : Option Token → String
  | some t => "Some(" ++ t.display ++ ")"
  | none => "None"

end XmlHarvest.XPath
