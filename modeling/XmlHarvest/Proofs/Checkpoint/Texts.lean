/-
The texts of the ledger say what was written.

Flags, numbers and the marks of recorded files are kept as texts, and reading them back is a search
in a text.  Main statements: a flag reads as it was set (`saysDone_flagText`), a number is read
back exactly when 64 bits hold it (`integer?_toString`), and among marks that stand one after the
other the mark of a file is found exactly when it is one of them (`contains_marks_iff`).
-/
import XmlHarvest.Checkpoint
import Mathlib.Data.List.Infix

namespace XmlHarvest

/-! ### Flags -/

@[simp] theorem Checkpoint.saysDone_flagText (done : Bool) :
    Checkpoint.saysDone (Checkpoint.flagText done) = done := by
  cases done <;> decide

@[simp] theorem Checkpoint.saysDone_empty : Checkpoint.saysDone "" = false := by decide

theorem Stage.flagKey_injective {s s' : Stage} (h : s.flagKey = s'.flagKey) : s = s' := by
  revert h
  cases s <;> cases s' <;> decide

theorem Stage.flagKey_ne_recordedKey (s : Stage) : s.flagKey ≠ Checkpoint.recordedKey := by
  cases s <;> decide

theorem Stage.flagKey_ne_parsedKey (s : Stage) : s.flagKey ≠ Checkpoint.parsedKey := by
  cases s <;> decide

theorem Checkpoint.recordedKey_ne_parsedKey : Checkpoint.recordedKey ≠ Checkpoint.parsedKey := by
  decide

/-! ### Numbers -/

namespace Text

theorem toList_toString (n : Nat) : (toString n).toList = Nat.toDigits 10 n := Nat.toList_repr

theorem isDigit_of_mem_toDigits {c : Char} {n : Nat} (h : c ∈ Nat.toDigits 10 n) :
    c.isDigit :=
  Nat.isDigit_of_mem_toDigits (by omega) (by omega) h

@[simp] theorem decimal_toDigits (n : Nat) : decimal (Nat.toDigits 10 n) = n :=
  Nat.ofDigitChars_ten_toDigits

@[simp] theorem natural?_toDigits (n : Nat) : natural? (Nat.toDigits 10 n) = some n := by
  have hall : (Nat.toDigits 10 n).all Char.isDigit := by
    rw [List.all_eq_true]
    intro c hc
    exact isDigit_of_mem_toDigits hc
  have hne : (Nat.toDigits 10 n).isEmpty = false := by
    simp [List.isEmpty_eq_false_iff, Nat.toDigits_ne_nil]
  simp [natural?, hall, hne]

/-- The text of a number: its digits, after a minus sign if it is negative. -/
theorem toList_toString_int (i : Int) :
    (toString i).toList =
      if i < 0 then '-' :: Nat.toDigits 10 i.natAbs else Nat.toDigits 10 i.natAbs := by
  cases i with
  | ofNat n =>
    have hn : ¬ (Int.ofNat n < 0) := by simp
    rw [if_neg hn]
    exact toList_toString n
  | negSucc n =>
    rw [if_pos (Int.negSucc_lt_zero n)]
    show ("-" ++ toString (n + 1)).toList = _
    rw [String.toList_append, toList_toString]
    rfl

/-- A number is read back if 64 bits hold it, and otherwise not at all. -/
theorem integer?_toString (i : Int) :
    integer? (toString i).toList = if fitsSigned i then some i else none := by
  rw [toList_toString_int]
  split
  · next h =>
    have hi : -((i.natAbs : Nat) : Int) = i := by omega
    simp only [integer?, natural?_toDigits, Option.bind_eq_bind, Option.bind_some, Option.pure_def,
      Option.map_some, hi, Option.filter_some]
  · next h =>
    have hi : ((i.natAbs : Nat) : Int) = i := by omega
    -- no digit is a sign, so the number is read as it stands
    have hd : ∀ c ∈ Nat.toDigits 10 i.natAbs, c.isDigit := fun c hc => isDigit_of_mem_toDigits hc
    unfold integer?
    split
    · next ds e => exact absurd (hd '+' (by simp [e])) (by decide)
    · next ds e => exact absurd (hd '-' (by simp [e])) (by decide)
    · simp only [natural?_toDigits, Option.bind_eq_bind, Option.bind_some, Option.pure_def,
        Option.map_some, hi, Option.filter_some]

/-! ### Blanks around a text -/

/-- A text without blanks stays as it is. -/
theorem trimChars_of_not_blank {cs : List Char} (h : ∀ c ∈ cs, isBlank c = false) :
    trimChars cs = cs := by
  have hd : ∀ ds : List Char, (∀ c ∈ ds, isBlank c = false) → ds.dropWhile isBlank = ds := by
    intro ds hds
    cases ds with
    | nil => rfl
    | cons d ds => simp [hds d]
  rw [trimChars, hd cs h, hd cs.reverse (by simpa using h), List.reverse_reverse]

theorem isBlank_of_isDigit {c : Char} (h : c.isDigit) : isBlank c = false := by
  rw [Char.isDigit_iff_toNat] at h
  obtain ⟨h0, h9⟩ := h
  change 48 ≤ c.toNat at h0
  change c.toNat ≤ 57 at h9
  -- Every blank lies before `0` or behind `9`.
  simp only [isBlank, Bool.or_eq_false_iff, Bool.and_eq_false_iff, decide_eq_false_iff_not,
    beq_eq_false_iff_ne]
  omega

@[simp] theorem trim_toString (i : Int) : trim (toString i) = toString i := by
  have h : ∀ c ∈ (toString i).toList, isBlank c = false := by
    intro c hc
    rw [toList_toString_int] at hc
    split at hc
    · rcases List.mem_cons.mp hc with rfl | hc
      · decide
      · exact isBlank_of_isDigit (isDigit_of_mem_toDigits hc)
    · exact isBlank_of_isDigit (isDigit_of_mem_toDigits hc)
  rw [trim, trimChars_of_not_blank h, String.ofList_toList]

/-- The text of a number is not empty. -/
theorem toString_int_ne_empty (i : Int) : toString i ≠ "" := by
  rw [Ne, ← String.toList_eq_nil_iff, toList_toString_int]
  split
  · exact List.cons_ne_nil _ _
  · exact Nat.toDigits_ne_nil

end Text

/-- The mark of the document parsed last is read back exactly when 64 bits hold it. -/
theorem Checkpoint.latestParsed_of_value {db : Database} {id : Int}
    (h : Access.ledgerValue parsedKey db = .ok (toString id) db) :
    latestParsed db =
      if Text.fitsSigned id then .ok id db else .error (.badMark parsedKey (toString id)) db := by
  simp only [latestParsed, bind, EStateM.bind, h, Text.trim_toString,
    if_neg (Text.toString_int_ne_empty id), Text.integer?_toString]
  cases Text.fitsSigned id <;> rfl

/-! ### Marks -/

namespace Checkpoint

/-- A word in brackets, as a mark is. -/
def bracketed (ds : List Char) : List Char := '[' :: (ds ++ [']'])

/-- A bracketed word is not found across characters that are no opening brackets. -/
theorem bracketed_infix_append {ds pre rest : List Char} (h : '[' ∉ pre) :
    bracketed ds <:+: pre ++ rest ↔ bracketed ds <:+: rest := by
  induction pre with
  | nil => rfl
  | cons c pre ih =>
    simp only [List.mem_cons, not_or] at h
    obtain ⟨hc, hpre⟩ := h
    rw [List.cons_append, List.infix_cons_iff, ih hpre]
    constructor
    · rintro (hpref | hin)
      · -- The word cannot begin here, where no bracket opens.
        obtain ⟨heq, -⟩ := List.cons_prefix_cons.mp hpref
        exact absurd heq hc
      · exact hin
    · exact Or.inr

/-- Where two words without closing brackets are closed at the same place they are the same. -/
theorem eq_of_closed_prefix {ds es rest : List Char} (hds : ']' ∉ ds) (hes : ']' ∉ es)
    (h : ds ++ [']'] <+: es ++ ']' :: rest) : ds = es := by
  induction ds generalizing es with
  | nil =>
    cases es with
    | nil => rfl
    | cons e es =>
      obtain ⟨rfl, -⟩ := List.cons_prefix_cons.mp h
      simp at hes
  | cons d ds ih =>
    cases es with
    | nil =>
      -- The first word would go on where the second is closed.
      obtain ⟨rfl, -⟩ := List.cons_prefix_cons.mp h
      simp at hds
    | cons e es =>
      obtain ⟨rfl, hrest⟩ := List.cons_prefix_cons.mp h
      simp only [List.mem_cons, not_or] at hds hes
      rw [ih hds.2 hes.2 hrest]

/-- Behind a bracketed word, a bracketed word is found if it is that word or is found further
on. -/
theorem bracketed_infix_cons {ds es rest : List Char} (hds : ']' ∉ ds) (hes : ']' ∉ es)
    (hopen : '[' ∉ es) :
    bracketed ds <:+: bracketed es ++ rest ↔ ds = es ∨ bracketed ds <:+: rest := by
  -- Behind the first bracket no other opens before `rest`, so only the front is to be compared.
  have hsplit : bracketed es ++ rest = '[' :: ((es ++ [']']) ++ rest) := rfl
  rw [hsplit, List.infix_cons_iff, bracketed_infix_append (by simp [hopen])]
  refine or_congr ?_ Iff.rfl
  constructor
  · intro h
    obtain ⟨-, htail⟩ := List.cons_prefix_cons.mp h
    have hclosed : ds ++ [']'] <+: es ++ ']' :: rest := by simpa using htail
    exact eq_of_closed_prefix hds hes hclosed
  · rintro rfl
    exact ⟨rest, rfl⟩

theorem toList_fileMark (i : Nat) : (fileMark i).toList = bracketed (Nat.toDigits 10 i) := by
  simp [fileMark, bracketed]

theorem not_mem_toDigits {c : Char} (hc : c.isDigit = false) (n : Nat) :
    c ∉ Nat.toDigits 10 n := by
  intro h
  rw [Text.isDigit_of_mem_toDigits h] at hc
  cases hc

/-- The marks of some files, one after the other. -/
def marks (indices : List Nat) : String := String.join (indices.map fileMark)

@[simp] theorem marks_append_singleton (indices : List Nat) (i : Nat) :
    marks (indices ++ [i]) = marks indices ++ fileMark i := by
  simp [marks, String.join_append, String.join_cons]

/-- Among the marks of some files the mark of a file is found exactly when it is one of these
files. -/
theorem contains_marks_iff {indices : List Nat} {i : Nat} :
    Text.contains (marks indices) (fileMark i) ↔ i ∈ indices := by
  rw [Text.contains, Text.occursIn_iff, toList_fileMark]
  induction indices with
  | nil => simp [marks, bracketed]
  | cons j indices ih =>
    have hjoin : (marks (j :: indices)).toList =
        bracketed (Nat.toDigits 10 j) ++ (marks indices).toList := by
      simp [marks, String.join_cons, toList_fileMark]
    -- Marks are the same only if their numbers are, since digits are read back.
    have hdigits : Nat.toDigits 10 i = Nat.toDigits 10 j ↔ i = j := by
      constructor
      · intro h
        rw [← Text.decimal_toDigits i, h, Text.decimal_toDigits]
      · rintro rfl
        rfl
    rw [hjoin, bracketed_infix_cons (not_mem_toDigits (by decide) i)
      (not_mem_toDigits (by decide) j) (not_mem_toDigits (by decide) j), hdigits, ih,
      List.mem_cons]

end Checkpoint

end XmlHarvest
