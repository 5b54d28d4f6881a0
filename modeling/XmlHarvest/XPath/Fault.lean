/-
Why an expression does not compile.
-/
import XmlHarvest.XPath.Token

namespace XmlHarvest.XPath

/-- What is wrong with an expression. -/
inductive Fault
  /-- A blank expression, which only stands for "this node". -/
  | empty
  /-- A literal without its closing quote. -/
  | unterminatedLiteral
  /-- A number that 64 bits cannot hold. -/
  | numberOutOfRange (digits : String)
  /-- A character that begins no token; the offset counts characters. -/
  | unexpectedCharacter (character : Char) (offset : Nat)
  /-- A token after a complete expression. -/
  | trailing (token : Token)
  | expected (token : Token) (found : Option Token)
  | unsupportedAxis (name : String)
  | unsupportedTest (name : String)
  | expectedTest (found : Option Token)
  | expectedLiteral (found : Option Token)
  | positionZero
  deriving DecidableEq, Repr

/-- The text of a fault. -/
def Fault.message : Fault → String
  | empty => "empty expression"
  | unterminatedLiteral => "unterminated string literal"
  | numberOutOfRange digits => "number out of range: " ++ digits
  | unexpectedCharacter c offset =>
    "unexpected character `" ++ c.toString ++ "` at offset " ++ toString offset
  | trailing t => "unexpected trailing token " ++ t.display
  | expected t found => "expected " ++ t.display ++ ", found " ++ Token.displayOption found
  | unsupportedAxis n => "unsupported axis `" ++ n ++ "`"
  | unsupportedTest n => "unsupported node test `" ++ n ++ "()`"
  | expectedTest found => "expected a node test, found " ++ Token.displayOption found
  | expectedLiteral found => "expected a literal, found " ++ Token.displayOption found
  | positionZero => "positions start at 1"

/-- An expression that does not compile, and why. -/
structure Invalid where
  expression : String
  fault : Fault
  deriving DecidableEq, Repr

/-- The text of the error. -/
def Invalid.message (e : Invalid) : String :=
  "Invalid XPath `" ++ e.expression ++ "`: " ++ e.fault.message

end XmlHarvest.XPath
