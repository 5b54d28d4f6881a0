/-
Values that are written in one line are read back.

The reader is bounded in the depth of its calls, and each call takes up at least one character, so
the length of a text is bound enough for the value that it writes (`readValue_compactChars`).  This
is for values made of texts, arrays and objects (`Value.Textual`), which is what documents are
written as.
-/
import XmlHarvest.Json.Reader
import XmlHarvest.Json.Writer

namespace XmlHarvest.Json

/-! ### Strings -/

/-- The part writes one character, whatever follows. -/
def StringPart.Writes (part : StringPart) (c : Char) : Prop :=
  ∀ ps, StringPart.characters? (part :: ps) = (StringPart.characters? ps).map (c :: ·)

theorem StringPart.Writes.char (c : Char) : (StringPart.char c).Writes c := by
  intro ps
  rfl

/-- A number below the surrogates writes its character. -/
theorem StringPart.Writes.word {c : Char} (h : c.toNat < 0xD800) :
    (StringPart.word c.toNat).Writes c := by
  have hhigh : isHighSurrogate c.toNat = false := by simp [isHighSurrogate]; omega
  have hlow : isLowSurrogate c.toNat = false := by simp [isLowSurrogate]; omega
  intro ps
  cases ps with
  | nil => simp [characters?, hhigh, hlow]
  | cons p ps => cases p <;> simp [characters?, hhigh, hlow]

/-- Below the space the two digits of an escape are those of the character. -/
theorem hexWord?_digitChar :
    ∀ n < 0x20, hexWord? '0' '0' (Nat.digitChar (n / 16)) (Nat.digitChar (n % 16)) = some n := by
  decide

theorem stringParts_short {e c : Char} (h : shortEscape? e = some c) (he : e ≠ 'u')
    (cs : List Char) :
    stringParts ('\\' :: e :: cs) =
      (stringParts cs).map fun (parts, rest) => (.char c :: parts, rest) := by
  rw [stringParts.eq_3 e cs (by rintro a b c d rest rfl rfl; exact he rfl), h]
  cases stringParts cs <;> rfl

theorem stringParts_plain {c : Char} (hquote : c ≠ '"') (hslash : c ≠ '\\')
    (hspace : ¬ c.toNat < 0x20) (cs : List Char) :
    stringParts (c :: cs) =
      (stringParts cs).map fun (parts, rest) => (.char c :: parts, rest) := by
  rw [stringParts]
  · simp only [hspace, decide_false, beq_eq_false_iff_ne.mpr hslash, Bool.or_self]
    cases stringParts cs <;> rfl
  all_goals grind

/-- What is written for a character is one part of a string, which writes this character. -/
theorem stringParts_escapedChar (c : Char) :
    ∃ part : StringPart, part.Writes c ∧
      ∀ cs, stringParts (escapedChar c ++ cs) =
        (stringParts cs).map fun (parts, rest) => (part :: parts, rest) := by
  by_cases hshort : ∃ e, shortEscape? e = some c ∧ e ≠ 'u' ∧ escapedChar c = ['\\', e]
  · obtain ⟨e, he, hu, hwritten⟩ := hshort
    refine ⟨.char c, .char c, ?_⟩
    intro cs
    rw [hwritten]
    exact stringParts_short he hu cs
  · -- Seven characters have a short escape; the others are written as they are or by their number.
    have hne : ∀ d ∈ ['"', '\\', '\x08', '\x0c', '\n', '\r', '\t'], c ≠ d := by
      rintro d hd rfl
      apply hshort
      simp only [List.mem_cons, List.not_mem_nil, or_false] at hd
      rcases hd with rfl | rfl | rfl | rfl | rfl | rfl | rfl
      · exact ⟨'"', by decide⟩
      · exact ⟨'\\', by decide⟩
      · exact ⟨'b', by decide⟩
      · exact ⟨'f', by decide⟩
      · exact ⟨'n', by decide⟩
      · exact ⟨'r', by decide⟩
      · exact ⟨'t', by decide⟩
    have hwritten : escapedChar c = if c.toNat < 0x20 then controlEscape c else [c] := by
      simp [escapedChar, hne]
    rw [hwritten]
    split
    · next hspace =>
      refine ⟨.word c.toNat, .word (by omega), ?_⟩
      intro cs
      simp only [controlEscape, List.cons_append, List.nil_append, stringParts,
        hexWord?_digitChar _ hspace]
      cases stringParts cs <;> rfl
    · next hspace =>
      refine ⟨.char c, .char c, ?_⟩
      intro cs
      exact stringParts_plain (hne '"' (by decide)) (hne '\\' (by decide)) hspace cs

theorem writeString_some (s : String) :
    writeString (some s) = '"' :: (s.toList.flatMap escapedChar ++ ['"']) := rfl

theorem skipSpaces_writeString (s : String) (rest : List Char) :
    skipSpaces (writeString (some s) ++ rest) = writeString (some s) ++ rest := rfl

/-- A text is read back from what is written between its quotes. -/
theorem stringBody_written (s : String) (rest : List Char) :
    stringBody (s.toList.flatMap escapedChar ++ '"' :: rest) = some (some s, rest) := by
  have h : ∀ cs : List Char, ∃ parts, StringPart.characters? parts = some cs ∧
      stringParts (cs.flatMap escapedChar ++ '"' :: rest) = some (parts, rest) := by
    intro cs
    induction cs with
    | nil => exact ⟨[], rfl, by simp [stringParts]⟩
    | cons c cs ih =>
      obtain ⟨parts, hparts, hread⟩ := ih
      obtain ⟨part, hpart, hfirst⟩ := stringParts_escapedChar c
      refine ⟨part :: parts, by rw [hpart, hparts, Option.map_some], ?_⟩
      rw [List.flatMap_cons, List.append_assoc, hfirst, hread, Option.map_some]
  obtain ⟨parts, hparts, hread⟩ := h s.toList
  simp only [stringBody, hread, Option.map_some, hparts, String.ofList_toList]

/-! ### Values -/

mutual

/-- The value is made of texts, arrays and objects. -/
def Value.Textual : Value → Prop
  | .string (some _) => True
  | .array vs => Value.TextualItems vs
  | .object ms => Value.TextualMembers ms
  | _ => False

def Value.TextualItems : List Value → Prop
  | [] => True
  | v :: vs => v.Textual ∧ Value.TextualItems vs

def Value.TextualMembers : List (Option String × Value) → Prop
  | [] => True
  | (k, v) :: ms => k.isSome ∧ v.Textual ∧ Value.TextualMembers ms

end

/-- No white space and no closing bracket stands at the front of a value. -/
theorem Value.Textual.front {v : Value} (h : v.Textual) :
    ∃ c cs, v.compactChars = c :: cs ∧ (c = '"' ∨ c = '[' ∨ c = '\x7b') := by
  cases v with
  | string s =>
    cases s with
    | none => exact h.elim
    | some s => exact ⟨_, _, rfl, .inl rfl⟩
  | array vs => cases vs <;> exact ⟨_, _, rfl, .inr (.inl rfl)⟩
  | object ms => cases ms <;> exact ⟨_, _, rfl, .inr (.inr rfl)⟩
  | null => exact h.elim
  | bool b => exact h.elim
  | number literal => exact h.elim

theorem Value.Textual.skipSpaces_compactChars {v : Value} (h : v.Textual) (rest : List Char) :
    skipSpaces (v.compactChars ++ rest) = v.compactChars ++ rest := by
  obtain ⟨c, cs, hfront, rfl | rfl | rfl⟩ := h.front <;> rw [hfront] <;> rfl

theorem readValue_array {n : Nat} {v : Value} {vs : List Value} (h : v.Textual) (rest : List Char) :
    readValue (n + 1) ((Value.array (v :: vs)).compactChars ++ rest) =
      (readItems n (v.compactChars ++ Value.compactItems vs ++ rest)).map
        fun (items, rest) => (.array items, rest) := by
  have hskip := h.skipSpaces_compactChars (Value.compactItems vs ++ rest)
  -- The reader looks for a closing bracket first, which does not stand at the front of an item.
  obtain ⟨c, cs, hfront, hc⟩ := h.front
  simp only [Value.compactChars, List.cons_append, List.append_assoc, readValue]
  rw [hskip, hfront]
  rcases hc with rfl | rfl | rfl <;>
    simp only [List.cons_append, Option.map_eq_bind] <;> rfl

theorem readValue_object {n : Nat} (k : String) (v : Value) (ms : List (Option String × Value))
    (rest : List Char) :
    readValue (n + 1) ((Value.object ((some k, v) :: ms)).compactChars ++ rest) =
      (readMembers n
        (writeString (some k) ++ ':' :: (v.compactChars ++ Value.compactMembers ms ++ rest))).map
        fun (members, rest) => (.object members, rest) := by
  have hskip : ∀ cs, skipSpaces ('"' :: cs) = '"' :: cs := fun _ => rfl
  simp only [Value.compactChars, writeString_some, List.cons_append, List.append_assoc, readValue,
    hskip, Option.map_eq_bind]
  rfl

theorem readMembers_last {n : Nat} (k : String) {v : Value} {cs rest : List Char}
    (hcs : skipSpaces cs = cs) (hv : readValue n cs = some (v, '\x7d' :: rest)) :
    readMembers (n + 1) (writeString (some k) ++ ':' :: cs) = some ([(some k, v)], rest) := by
  simp only [writeString_some, List.cons_append, List.append_assoc, List.nil_append, readMembers,
    stringBody_written, Option.bind_eq_bind, Option.bind_some]
  rw [show skipSpaces (':' :: cs) = ':' :: cs from rfl]
  simp only [hcs, hv, Option.bind_some]
  rfl

theorem readMembers_more {n : Nat} (k : String) {v : Value} {ms : List (Option String × Value)}
    {cs cs' rest : List Char} (hcs : skipSpaces cs = cs) (hcs' : skipSpaces cs' = cs')
    (hv : readValue n cs = some (v, ',' :: cs')) (hms : readMembers n cs' = some (ms, rest)) :
    readMembers (n + 1) (writeString (some k) ++ ':' :: cs) = some ((some k, v) :: ms, rest) := by
  simp only [writeString_some, List.cons_append, List.append_assoc, List.nil_append, readMembers,
    stringBody_written, Option.bind_eq_bind, Option.bind_some]
  rw [show skipSpaces (':' :: cs) = ':' :: cs from rfl]
  simp only [hcs, hv, Option.bind_some]
  rw [show skipSpaces (',' :: cs') = ',' :: cs' from rfl]
  simp only [hcs', hms, Option.bind_some]
  rfl

mutual

/-- A value is read back whatever follows it, if the bound is not below its length. -/
theorem readValue_compactChars : ∀ (v : Value) (n : Nat) (rest : List Char), v.Textual →
    v.compactChars.length ≤ n → readValue n (v.compactChars ++ rest) = some (v, rest)
  | .string (some s), n + 1, rest, _, _ => by
    simp only [Value.compactChars, writeString_some, List.cons_append, List.append_assoc, readValue,
      List.nil_append, stringBody_written, Option.map_some]
  | .array [], n + 1, rest, _, _ => rfl
  | .array (v :: vs), n + 1, rest, h, hn => by
    have hlength : (v.compactChars ++ Value.compactItems vs).length ≤ n := by
      simpa [Value.compactChars] using hn
    rw [readValue_array h.1, readItems_compactItems vs v n rest h hlength
      (fun m rest hm => readValue_compactChars v m rest h.1 hm)]
    rfl
  | .object [], n + 1, rest, _, _ => rfl
  | .object ((some k, v) :: ms), n + 1, rest, h, hn => by
    have hlength : (v.compactChars ++ Value.compactMembers ms).length ≤ n := by
      simp [Value.compactChars, writeString_some] at hn
      simp
      omega
    rw [readValue_object, readMembers_compactMembers ms k v n rest h hlength
      (fun m rest hm => readValue_compactChars v m rest h.2.1 hm)]
    rfl
  | v, 0, rest, h, hn => by
    -- No value is written with no characters.
    obtain ⟨c, cs, hfront, -⟩ := h.front
    rw [hfront] at hn
    cases hn

/-- The induction is on the items after the first. -/
theorem readItems_compactItems : ∀ (vs : List Value) (v : Value) (n : Nat) (rest : List Char),
    Value.TextualItems (v :: vs) → (v.compactChars ++ Value.compactItems vs).length ≤ n →
    (∀ m rest, v.compactChars.length ≤ m → readValue m (v.compactChars ++ rest) = some (v, rest)) →
    readItems n (v.compactChars ++ Value.compactItems vs ++ rest) = some (v :: vs, rest)
  | vs, v, 0, rest, h, hn, _ => by
    obtain ⟨c, cs, hfront, -⟩ := h.1.front
    rw [hfront] at hn
    cases hn
  | [], v, n + 1, rest, h, hn, hv => by
    have hm : v.compactChars.length ≤ n := by simpa [Value.compactItems] using hn
    rw [readItems, List.append_assoc, hv n _ hm]
    rfl
  | w :: vs, v, n + 1, rest, h, hn, hv => by
    simp only [Value.compactItems, List.length_append, List.length_cons] at hn
    have hlength : (w.compactChars ++ Value.compactItems vs).length ≤ n := by
      simp only [List.length_append]
      omega
    -- The comma takes up the character by which the bound of the later items is smaller.
    have hskip := h.2.1.skipSpaces_compactChars (Value.compactItems vs ++ rest)
    have hlater := readItems_compactItems vs w n rest h.2 hlength
      (fun m rest hm => readValue_compactChars w m rest h.2.1 hm)
    rw [List.append_assoc] at hlater
    rw [readItems, List.append_assoc, hv n _ (by omega)]
    simp only [Value.compactItems, List.cons_append, List.append_assoc, Option.bind_eq_bind,
      Option.bind_some]
    rw [show ∀ cs, skipSpaces (',' :: cs) = ',' :: cs from fun _ => rfl]
    simp only [hskip, hlater, Option.bind_some]
    rfl

/-- The induction is on the members after the first. -/
theorem readMembers_compactMembers : ∀ (ms : List (Option String × Value)) (k : String)
    (v : Value) (n : Nat) (rest : List Char),
    Value.TextualMembers ((some k, v) :: ms) →
    (v.compactChars ++ Value.compactMembers ms).length ≤ n →
    (∀ m rest, v.compactChars.length ≤ m → readValue m (v.compactChars ++ rest) = some (v, rest)) →
    readMembers n
      (writeString (some k) ++ ':' :: (v.compactChars ++ Value.compactMembers ms ++ rest)) =
        some ((some k, v) :: ms, rest)
  | ms, k, v, 0, rest, h, hn, _ => by
    obtain ⟨c, cs, hfront, -⟩ := h.2.1.front
    rw [hfront] at hn
    cases hn
  | [], k, v, n + 1, rest, h, hn, hv => by
    have hm : v.compactChars.length ≤ n := by simpa [Value.compactMembers] using hn
    have hskip := h.2.1.skipSpaces_compactChars (Value.compactMembers [] ++ rest)
    rw [List.append_assoc]
    exact readMembers_last k hskip (hv n _ hm)
  | (some l, w) :: ms, k, v, n + 1, rest, h, hn, hv => by
    simp only [Value.compactMembers, List.length_append, List.length_cons] at hn
    have hlength : (w.compactChars ++ Value.compactMembers ms).length ≤ n := by
      simp only [List.length_append]
      omega
    have hskip := h.2.1.skipSpaces_compactChars (Value.compactMembers ((some l, w) :: ms) ++ rest)
    have hlater := readMembers_compactMembers ms l w n rest h.2.2 hlength
      (fun m rest hm => readValue_compactChars w m rest h.2.2.2.1 hm)
    rw [List.append_assoc] at hlater
    have hfirst := hv n (Value.compactMembers ((some l, w) :: ms) ++ rest) (by omega)
    rw [List.append_assoc]
    refine readMembers_more k hskip ?_ (hfirst.trans ?_) hlater
    · exact skipSpaces_writeString l _
    · simp only [Value.compactMembers, List.cons_append, List.append_assoc]
  | (none, w) :: ms, k, v, n + 1, rest, h, hn, hv => absurd h.2.2.1 (by simp)

end

/-- A value made of texts, arrays and objects is read back. -/
theorem Value.read?_compact {v : Value} (h : v.Textual) : Value.read? v.compact = some v := by
  have hskip := h.skipSpaces_compactChars []
  rw [List.append_nil] at hskip
  have hread := readValue_compactChars v (2 * v.compactChars.length + 2) [] h (by omega)
  rw [List.append_nil] at hread
  simp only [Value.read?, Value.compact, String.toList_ofList, hskip, Option.bind_eq_bind, hread,
    Option.bind_some]
  rfl

end XmlHarvest.Json
