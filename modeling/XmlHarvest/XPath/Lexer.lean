/-
Cutting an expression into tokens.

A token is the longest one that begins at the first character that is no white space.  A name
runs over letters, digits, `_`, `-` and `.`; it is an axis name when two colons follow, and it
takes one colon along when a name follows that colon, as in `tei:p`.
-/
import XmlHarvest.Text.Classes
import XmlHarvest.Text.Basic
import XmlHarvest.Text.Numerals
import XmlHarvest.XPath.Fault

namespace XmlHarvest.XPath

/-! ### Character classes -/

/-- The characters that begin a name. -/
def isNameStart (c : Char) : Bool :=
  Text.isAlphabetic c || c == '_'

/-- The characters that continue a name. -/
def isNameChar (c : Char) : Bool :=
  Text.isAlphabetic c || Text.isNumeric c || c == '_' || c == '-' || c == '.'

/-- A name goes on with every character that may begin one. -/
theorem isNameChar_of_isNameStart {c : Char} (h : isNameStart c) : isNameChar c := by
  simp only [isNameStart, Bool.or_eq_true] at h
  rcases h with h | h <;> simp [isNameChar, h]

/-! ### One token -/

/-- The largest number a token holds. -/
def maxNumber : Nat := 0xffffffffffffffff

/-- A name or axis name: the characters it takes after the first, and the token they make. -/
def nameToken (first : Char) (cs : List Char) : Token × List Char :=
  let name := first :: cs.takeWhile isNameChar
  match cs.dropWhile isNameChar with
  | ':' :: ':' :: rest => (.axis (String.ofList name), rest)
  | ':' :: c :: rest =>
    if isNameStart c then
      (.name (String.ofList (name ++ ':' :: (c :: rest).takeWhile isNameChar)),
        (c :: rest).dropWhile isNameChar)
    else (.name (String.ofList name), ':' :: c :: rest)
  | rest => (.name (String.ofList name), rest)

/-- A literal up to the next quote of the kind that opened it. -/
def literalToken (quote : Char) (cs : List Char) : Except Fault (Token × List Char) :=
  match cs.dropWhile (· != quote) with
  | [] => .error .unterminatedLiteral
  | _ :: rest => .ok (.literal (String.ofList (cs.takeWhile (· != quote))), rest)

/-- A number: all the digits that stand together. -/
def numberToken (cs : List Char) : Except Fault (Token × List Char) :=
  let digits := cs.takeWhile Char.isDigit
  if Text.decimal digits ≤ maxNumber then
    .ok (.number (Text.decimal digits), cs.dropWhile Char.isDigit)
  else .error (.numberOutOfRange (String.ofList digits))

/-- The token that begins with the character `c` and what follows it.  The length of the whole
expression is for the message when there is no such token, which gives the offset of `c`. -/
def firstToken (total : Nat) (c : Char) (cs : List Char) : Except Fault (Token × List Char) :=
  match c, cs with
  | '/', '/' :: rest => .ok (.doubleSlash, rest)
  | '/', rest => .ok (.slash, rest)
  | '.', '.' :: rest => .ok (.doubleDot, rest)
  | '.', rest => .ok (.dot, rest)
  | '@', rest => .ok (.atSign, rest)
  | '*', rest => .ok (.star, rest)
  | '[', rest => .ok (.leftBracket, rest)
  | ']', rest => .ok (.rightBracket, rest)
  | '(', rest => .ok (.leftParen, rest)
  | ')', rest => .ok (.rightParen, rest)
  | '|', rest => .ok (.pipe, rest)
  | '=', rest => .ok (.equal, rest)
  | '!', '=' :: rest => .ok (.notEqual, rest)
  | '\'', rest => literalToken '\'' rest
  | '"', rest => literalToken '"' rest
  | c, rest =>
    if c.isDigit then numberToken (c :: rest)
    else if isNameStart c then .ok (nameToken c rest)
    else .error (.unexpectedCharacter c (total - (rest.length + 1)))

/-! ### The rest is shorter -/

theorem nameToken_length (first : Char) (cs : List Char) :
    (nameToken first cs).2.length ≤ cs.length := by
  have h := (List.dropWhile_sublist isNameChar (l := cs)).length_le
  unfold nameToken
  split
  · rename_i rest e
    rw [e] at h
    simp at h ⊢
    omega
  · rename_i c rest _ e
    rw [e] at h
    split
    · have h' := (List.dropWhile_sublist isNameChar (l := c :: rest)).length_le
      simp at h h' ⊢
      omega
    · simpa using h
  · exact h

theorem literalToken_length {quote : Char} {cs : List Char} {t : Token} {rest : List Char}
    (h : literalToken quote cs = .ok (t, rest)) : rest.length ≤ cs.length := by
  have hl := (List.dropWhile_sublist (· != quote) (l := cs)).length_le
  unfold literalToken at h
  split at h
  · simp at h
  · rename_i e
    rw [e] at hl
    simp only [Except.ok.injEq, Prod.mk.injEq] at h
    obtain ⟨-, rfl⟩ := h
    simp at hl
    omega

theorem numberToken_length {c : Char} {cs : List Char} {t : Token} {rest : List Char}
    (hc : c.isDigit) (h : numberToken (c :: cs) = .ok (t, rest)) : rest.length ≤ cs.length := by
  have hl := (List.dropWhile_sublist Char.isDigit (l := cs)).length_le
  unfold numberToken at h
  simp only [List.dropWhile_cons, hc, if_true] at h
  split at h
  · simp only [Except.ok.injEq, Prod.mk.injEq] at h
    obtain ⟨-, rfl⟩ := h
    exact hl
  · simp at h

/-- A token takes at least its first character. -/
theorem firstToken_length {total : Nat} {c : Char} {cs : List Char} {t : Token}
    {rest : List Char} (h : firstToken total c cs = .ok (t, rest)) :
    rest.length ≤ cs.length := by
  unfold firstToken at h
  split at h
  case h_14 => exact literalToken_length h
  case h_15 => exact literalToken_length h
  case h_16 =>
    split at h
    · exact numberToken_length ‹_› h
    · split at h
      · simp only [Except.ok.injEq] at h
        rw [show rest = (nameToken c cs).2 by rw [h]]
        exact nameToken_length _ _
      · simp at h
  all_goals
    simp only [Except.ok.injEq, Prod.mk.injEq] at h
    obtain ⟨-, rfl⟩ := h
    simp

/-! ### All tokens -/

/-- The tokens of the last characters of an expression, whose length is given. -/
def tokensFrom (total : Nat) (cs : List Char) : Except Fault (List Token) :=
  match cs with
  | [] => .ok []
  | c :: cs =>
    if Text.isBlank c then tokensFrom total cs
    else
      match h : firstToken total c cs with
      | .error e => .error e
      | .ok (t, rest) =>
        have : rest.length < (c :: cs).length := Nat.lt_succ_of_le (firstToken_length h)
        (tokensFrom total rest).map (t :: ·)
  termination_by cs.length
  decreasing_by
    · exact Nat.lt_succ_self cs.length
    · exact this

/-- The tokens of an expression. -/
def tokens (expression : String) : Except Fault (List Token) :=
  let cs := expression.toList
  tokensFrom cs.length cs

end XmlHarvest.XPath
