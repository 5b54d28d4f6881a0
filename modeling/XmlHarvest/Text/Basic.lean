/-
White space, the cuts of a text that depend on it (trimming, words and lines), and whether one text
occurs in another.

A blank is a character with the Unicode property White_Space, which is more than the ASCII blanks
and less than all invisible characters (the zero width space and the byte order mark are no
blanks).  A line ends at a line feed and nowhere else; one carriage return directly before the
line feed belongs to the line's end.
-/
namespace XmlHarvest.Text

/-! ### Blanks -/

/-- The characters with the Unicode property White_Space. -/
def isBlank (c : Char) : Bool :=
  let n := c.toNat
  (9 ≤ n && n ≤ 13) || n == 32 || n == 0x85 || n == 0xA0 || n == 0x1680 ||
    (0x2000 ≤ n && n ≤ 0x200A) || n == 0x2028 || n == 0x2029 || n == 0x202F || n == 0x205F ||
    n == 0x3000

/-- The characters without the blanks at either end. -/
def trimChars (cs : List Char) : List Char :=
  ((cs.dropWhile isBlank).reverse.dropWhile isBlank).reverse

/-- The text without the blanks at either end. -/
def trim (s : String) : String :=
  String.ofList (trimChars s.toList)

/-- A text of blanks only; the empty text is one. -/
def allBlank (s : String) : Bool :=
  s.toList.all isBlank

/-! ### Words -/

/-- Put a character in front of the first piece. -/
def extendFirst (c : Char) : List (List Char) → List (List Char)
  | [] => [[c]]
  | w :: ws => (c :: w) :: ws

/-- The maximal runs of characters that are no separators, in order. -/
def runsBetween (separator : Char → Bool) : List Char → List (List Char)
  | [] => []
  | c :: cs =>
    if separator c then runsBetween separator cs
    else if cs.head?.any (fun d => !separator d) then extendFirst c (runsBetween separator cs)
    else [c] :: runsBetween separator cs

/-- The words of a text: its maximal runs of characters that are not blank. -/
def words (cs : List Char) : List (List Char) := runsBetween isBlank cs

/-- The words of a text joined by single spaces. -/
def squeeze (cs : List Char) : List Char :=
  List.intercalate [' '] (words cs)

/-! ### Lines -/

/-- The lines of a text.  A line feed ends a line and takes one carriage return before it along;
a text that ends in a line feed has no further, empty line. -/
def lines : List Char → List (List Char)
  | [] => []
  | '\n' :: cs => [] :: lines cs
  | '\r' :: '\n' :: cs => [] :: lines cs
  | c :: cs => extendFirst c (lines cs)

/-! ### Occurrence -/

/-- Whether the characters `word` stand somewhere in `cs`, one after the other. -/
def occursIn (word : List Char) : List Char → Bool
  | [] => word.isEmpty
  | c :: cs => word.isPrefixOf (c :: cs) || occursIn word cs

/-- A text occurs in another exactly when it is an infix of it. -/
theorem occursIn_iff {word cs : List Char} : occursIn word cs ↔ word <:+: cs := by
  induction cs with
  | nil => simp [occursIn]
  | cons c cs ih =>
    rw [occursIn, Bool.or_eq_true, ih, List.isPrefixOf_iff_prefix, List.infix_cons_iff]

/-- Whether a string occurs in another. -/
def contains (s word : String) : Bool :=
  occursIn word.toList s.toList

end XmlHarvest.Text
