/-
JSON texts, and the values that they write.

`Value.Spelled` is the grammar of JSON: which characters write which value, with white space
wherever it may stand.  The reader takes exactly the texts of this grammar, each as the value that
it writes (`Value.read?_eq_some`).  It is bounded in the depth of its calls, and the length of a
text is bound enough (`Value.Spelled.read`).
-/
import XmlHarvest.Proofs.Json.RoundTrip
import XmlHarvest.Proofs.Text.Words
import Mathlib.Data.List.TakeWhile

namespace XmlHarvest.Json

/-! ### The grammar -/

/-- Nothing but white space. -/
def Spaces (cs : List Char) : Prop := ∀ c ∈ cs, isSpace c = true

/-- One digit or more. -/
structure Digits (ds : List Char) : Prop where
  ne_nil : ds ≠ []
  all : ∀ d ∈ ds, d.isDigit = true

/-- Digits that begin with a zero only when it is the only one. -/
def WholePart (ds : List Char) : Prop := ds = ['0'] ∨ Digits ds ∧ ds.head? ≠ some '0'

/-- A fraction, or none. -/
inductive FractionPart : List Char → Prop
  | missing : FractionPart []
  | point {ds : List Char} (h : Digits ds) : FractionPart ('.' :: ds)

/-- An exponent, with a sign or without one, or none. -/
inductive ExponentPart : List Char → Prop
  | missing : ExponentPart []
  | power {mark : Char} {sign ds : List Char} (hmark : mark = 'e' ∨ mark = 'E')
      (hsign : sign = [] ∨ sign = ['+'] ∨ sign = ['-']) (h : Digits ds) :
      ExponentPart (mark :: (sign ++ ds))

/-- The literal of a number. -/
inductive NumberLiteral : List Char → Prop
  | parts {sign whole fraction exponent : List Char} (hsign : sign = [] ∨ sign = ['-'])
      (hwhole : WholePart whole) (hfraction : FractionPart fraction)
      (hexponent : ExponentPart exponent) :
      NumberLiteral (sign ++ (whole ++ fraction ++ exponent))

/-- What stands between the quotes of a string, with the parts that it writes. -/
inductive StringPart.Spelled : List StringPart → List Char → Prop
  | nil : Spelled [] []
  | plain {c : Char} {ps : List StringPart} {cs : List Char} (hcontrol : ¬c.toNat < 0x20)
      (hquote : c ≠ '"') (hslash : c ≠ '\\') (h : Spelled ps cs) :
      Spelled (.char c :: ps) (c :: cs)
  | short {e c : Char} {ps : List StringPart} {cs : List Char} (he : shortEscape? e = some c)
      (h : Spelled ps cs) : Spelled (.char c :: ps) ('\\' :: e :: cs)
  | word {a b c d : Char} {n : Nat} {ps : List StringPart} {cs : List Char}
      (hn : hexWord? a b c d = some n) (h : Spelled ps cs) :
      Spelled (.word n :: ps) ('\\' :: 'u' :: a :: b :: c :: d :: cs)

/-- What stands between the quotes of a string, with its text. -/
inductive StringSpelled : Option String → List Char → Prop
  | parts {ps : List StringPart} {cs : List Char} (h : StringPart.Spelled ps cs) :
      StringSpelled ((StringPart.characters? ps).map String.ofList) cs

mutual

/-- The characters write the value. -/
inductive Value.Spelled : Value → List Char → Prop
  | null : Value.Spelled .null ['n', 'u', 'l', 'l']
  | boolTrue : Value.Spelled (.bool true) ['t', 'r', 'u', 'e']
  | boolFalse : Value.Spelled (.bool false) ['f', 'a', 'l', 's', 'e']
  | number {cs : List Char} (h : NumberLiteral cs) : Value.Spelled (.number cs) cs
  | string {s : Option String} {cs : List Char} (h : StringSpelled s cs) :
      Value.Spelled (.string s) ('"' :: (cs ++ ['"']))
  | noItems {gap : List Char} (hgap : Spaces gap) :
      Value.Spelled (.array []) ('[' :: (gap ++ [']']))
  | items {gap cs : List Char} {vs : List Value} (hgap : Spaces gap)
      (h : Value.ItemsSpelled vs cs) : Value.Spelled (.array vs) ('[' :: (gap ++ cs ++ [']']))
  | noMembers {gap : List Char} (hgap : Spaces gap) :
      Value.Spelled (.object []) ('\x7b' :: (gap ++ ['\x7d']))
  | members {gap cs : List Char} {ms : List (Option String × Value)} (hgap : Spaces gap)
      (h : Value.MembersSpelled ms cs) :
      Value.Spelled (.object ms) ('\x7b' :: (gap ++ cs ++ ['\x7d']))

/-- The characters write items, at least one, with commas between them. -/
inductive Value.ItemsSpelled : List Value → List Char → Prop
  | last {v : Value} {cs gap : List Char} (h : v.Spelled cs) (hgap : Spaces gap) :
      Value.ItemsSpelled [v] (cs ++ gap)
  | more {v : Value} {vs : List Value} {cs gap gap' cs' : List Char} (h : v.Spelled cs)
      (hgap : Spaces gap) (hgap' : Spaces gap') (hvs : Value.ItemsSpelled vs cs') :
      Value.ItemsSpelled (v :: vs) (cs ++ gap ++ ',' :: (gap' ++ cs'))

/-- The characters write a key, a colon and a value. -/
inductive Value.MemberSpelled : Option String × Value → List Char → Prop
  | pair {k : Option String} {v : Value} {ks gap gap' cs : List Char} (hk : StringSpelled k ks)
      (hgap : Spaces gap) (hgap' : Spaces gap') (h : v.Spelled cs) :
      Value.MemberSpelled (k, v) ('"' :: (ks ++ '"' :: (gap ++ ':' :: (gap' ++ cs))))

/-- The characters write members, at least one, with commas between them. -/
inductive Value.MembersSpelled : List (Option String × Value) → List Char → Prop
  | last {m : Option String × Value} {cs gap : List Char} (h : Value.MemberSpelled m cs)
      (hgap : Spaces gap) : Value.MembersSpelled [m] (cs ++ gap)
  | more {m : Option String × Value} {ms : List (Option String × Value)}
      {cs gap gap' cs' : List Char} (h : Value.MemberSpelled m cs) (hgap : Spaces gap)
      (hgap' : Spaces gap') (hms : Value.MembersSpelled ms cs') :
      Value.MembersSpelled (m :: ms) (cs ++ gap ++ ',' :: (gap' ++ cs'))

end

/-- The text writes the value, with white space around it or not. -/
def Value.WrittenAs (v : Value) (text : String) : Prop :=
  ∃ gap cs gap', Spaces gap ∧ v.Spelled cs ∧ Spaces gap' ∧ text.toList = gap ++ cs ++ gap'

/-! ### White space and numbers -/

variable {cs w gap rest : List Char}

theorem skipSpaces_eq (cs : List Char) : ∃ gap, Spaces gap ∧ cs = gap ++ skipSpaces cs := by
  refine ⟨cs.takeWhile isSpace, fun c hc => List.mem_takeWhile_imp hc, ?_⟩
  exact List.takeWhile_append_dropWhile.symm

theorem skipSpaces_append (hgap : Spaces gap) (hrest : ∀ c ∈ rest.head?, isSpace c = false) :
    skipSpaces (gap ++ rest) = rest :=
  (Text.cut_append hgap hrest).2

theorem digits_sound {ds : List Char} (h : digits cs = some (ds, rest)) :
    Digits ds ∧ cs = ds ++ rest := by
  rw [digits, Option.ite_none_right_eq_some, Option.some_inj, Prod.mk.injEq] at h
  obtain ⟨hhead, rfl, rfl⟩ := h
  refine ⟨⟨?_, fun d hd => List.mem_takeWhile_imp hd⟩, List.takeWhile_append_dropWhile.symm⟩
  cases cs with
  | nil => cases hhead
  | cons c cs =>
    have hc : c.isDigit = true := hhead
    rw [List.takeWhile_cons_of_pos hc]
    exact List.cons_ne_nil _ _

theorem Digits.read {ds : List Char} (h : Digits ds) (hrest : ∀ c ∈ rest.head?, c.isDigit = false) :
    digits (ds ++ rest) = some (ds, rest) := by
  obtain ⟨htake, hdrop⟩ := Text.cut_append h.all hrest
  have hhead : (ds ++ rest).head?.any Char.isDigit = true := by
    obtain ⟨d, ds, rfl⟩ := List.exists_cons_of_ne_nil h.ne_nil
    exact h.all d List.mem_cons_self
  rw [digits, if_pos hhead, htake, hdrop]

theorem wholePart_sound {ds : List Char} (h : wholePart cs = some (ds, rest)) :
    WholePart ds ∧ cs = ds ++ rest := by
  unfold wholePart at h
  split at h
  · next cs =>
    rw [Option.ite_none_left_eq_some, Option.some_inj, Prod.mk.injEq] at h
    obtain ⟨-, rfl, rfl⟩ := h
    exact ⟨.inl rfl, rfl⟩
  · next hzero =>
    obtain ⟨hdigits, rfl⟩ := digits_sound h
    refine ⟨.inr ⟨hdigits, fun hhead => ?_⟩, rfl⟩
    obtain ⟨ds', rfl⟩ := List.head?_eq_some_iff.mp hhead
    exact hzero _ rfl

theorem WholePart.read {ds : List Char} (h : WholePart ds)
    (hrest : ∀ c ∈ rest.head?, c.isDigit = false) : wholePart (ds ++ rest) = some (ds, rest) := by
  rcases h with rfl | ⟨hdigits, hzero⟩
  · have hnot : ¬rest.head?.any Char.isDigit = true := by
      cases rest with
      | nil => exact Bool.false_ne_true
      | cons c rest =>
        rw [List.head?_cons, Option.any_some, hrest c rfl]
        exact Bool.false_ne_true
    exact if_neg hnot
  · obtain ⟨d, ds, rfl⟩ := List.exists_cons_of_ne_nil hdigits.ne_nil
    rw [List.cons_append, wholePart, ← List.cons_append]
    · exact hdigits.read hrest
    · rintro _ ⟨⟩
      exact hzero rfl

theorem fractionPart_sound (h : fractionPart cs = some (w, rest)) :
    FractionPart w ∧ cs = w ++ rest := by
  unfold fractionPart at h
  split at h
  · obtain ⟨⟨ds, rest'⟩, hds, h⟩ := Option.map_eq_some_iff.mp h
    obtain ⟨rfl, rfl⟩ := Prod.mk.inj h
    obtain ⟨hdigits, rfl⟩ := digits_sound hds
    exact ⟨.point hdigits, rfl⟩
  · obtain ⟨rfl, rfl⟩ := Prod.mk.inj (Option.some.inj h)
    exact ⟨.missing, rfl⟩

theorem FractionPart.read (h : FractionPart w)
    (hrest : ∀ c ∈ rest.head?, c.isDigit = false ∧ c ≠ '.') :
    fractionPart (w ++ rest) = some (w, rest) := by
  cases h with
  | missing =>
    rw [List.nil_append, fractionPart]
    rintro cs rfl
    exact (hrest '.' rfl).2 rfl
  | point hdigits =>
    rw [List.cons_append, fractionPart, hdigits.read fun c hc => (hrest c hc).1]
    rfl

theorem signedDigits_sound (h : signedDigits cs = some (w, rest)) :
    ∃ sign ds, (sign = [] ∨ sign = ['+'] ∨ sign = ['-']) ∧ Digits ds ∧ w = sign ++ ds ∧
      cs = w ++ rest := by
  have hsigned : ∀ (c : Char) (cs : List Char),
      (digits cs).map (fun read => (c :: read.1, read.2)) = some (w, rest) →
        ∃ ds, Digits ds ∧ w = c :: ds ∧ c :: cs = w ++ rest := by
    intro c cs h
    obtain ⟨⟨ds, rest'⟩, hds, h⟩ := Option.map_eq_some_iff.mp h
    obtain ⟨rfl, rfl⟩ := Prod.mk.inj h
    obtain ⟨hdigits, rfl⟩ := digits_sound hds
    exact ⟨ds, hdigits, rfl, rfl⟩
  unfold signedDigits at h
  split at h
  · obtain ⟨ds, hdigits, hw, hcs⟩ := hsigned '+' _ h
    exact ⟨['+'], ds, .inr (.inl rfl), hdigits, hw, hcs⟩
  · obtain ⟨ds, hdigits, hw, hcs⟩ := hsigned '-' _ h
    exact ⟨['-'], ds, .inr (.inr rfl), hdigits, hw, hcs⟩
  · obtain ⟨hdigits, hcs⟩ := digits_sound h
    exact ⟨[], w, .inl rfl, hdigits, rfl, hcs⟩

theorem Digits.readSigned {sign ds : List Char} (h : Digits ds)
    (hsign : sign = [] ∨ sign = ['+'] ∨ sign = ['-'])
    (hrest : ∀ c ∈ rest.head?, c.isDigit = false) :
    signedDigits (sign ++ ds ++ rest) = some (sign ++ ds, rest) := by
  have hread := h.read hrest
  rcases hsign with rfl | rfl | rfl
  · obtain ⟨d, ds, rfl⟩ := List.exists_cons_of_ne_nil h.ne_nil
    have hd := h.all d List.mem_cons_self
    rw [List.nil_append, List.cons_append, signedDigits, ← List.cons_append]
    · exact hread
    · rintro _ ⟨⟩
      cases hd
    · rintro _ ⟨⟩
      cases hd
  · exact congrArg (Option.map _) hread
  · exact congrArg (Option.map _) hread

theorem exponentPart_sound (h : exponentPart cs = some (w, rest)) :
    ExponentPart w ∧ cs = w ++ rest := by
  have hmarked : ∀ (mark : Char) (cs : List Char), (mark = 'e' ∨ mark = 'E') →
      (signedDigits cs).map (fun read => (mark :: read.1, read.2)) = some (w, rest) →
        ExponentPart w ∧ mark :: cs = w ++ rest := by
    intro mark cs hmark h
    obtain ⟨⟨ds, rest'⟩, hds, h⟩ := Option.map_eq_some_iff.mp h
    obtain ⟨rfl, rfl⟩ := Prod.mk.inj h
    obtain ⟨sign, ds', hsign, hdigits, rfl, rfl⟩ := signedDigits_sound hds
    exact ⟨.power hmark hsign hdigits, rfl⟩
  unfold exponentPart at h
  split at h
  · exact hmarked 'e' _ (.inl rfl) h
  · exact hmarked 'E' _ (.inr rfl) h
  · obtain ⟨rfl, rfl⟩ := Prod.mk.inj (Option.some.inj h)
    exact ⟨.missing, rfl⟩

theorem ExponentPart.read (h : ExponentPart w)
    (hrest : ∀ c ∈ rest.head?, c.isDigit = false ∧ c ≠ 'e' ∧ c ≠ 'E') :
    exponentPart (w ++ rest) = some (w, rest) := by
  cases h with
  | missing =>
    rw [List.nil_append, exponentPart]
    · rintro cs rfl
      exact (hrest 'e' rfl).2.1 rfl
    · rintro cs rfl
      exact (hrest 'E' rfl).2.2 rfl
  | power hmark hsign hdigits =>
    have hread := hdigits.readSigned hsign fun c hc => (hrest c hc).1
    rcases hmark with rfl | rfl
    · exact congrArg (Option.map _) hread
    · exact congrArg (Option.map _) hread

/-- A number does not run on into the text behind it. -/
def EndsNumber (rest : List Char) : Prop :=
  ∀ c ∈ rest.head?, c.isDigit = false ∧ c ≠ '.' ∧ c ≠ 'e' ∧ c ≠ 'E'

theorem unsigned_sound (h : unsigned cs = some (w, rest)) :
    ∃ whole fraction exponent, WholePart whole ∧ FractionPart fraction ∧ ExponentPart exponent ∧
      w = whole ++ fraction ++ exponent ∧ cs = w ++ rest := by
  obtain ⟨⟨whole, cs'⟩, hreadWhole, h⟩ := Option.bind_eq_some_iff.mp h
  obtain ⟨⟨fraction, cs''⟩, hreadFraction, h⟩ := Option.bind_eq_some_iff.mp h
  obtain ⟨⟨exponent, rest'⟩, hreadExponent, h⟩ := Option.bind_eq_some_iff.mp h
  obtain ⟨rfl, rfl⟩ := Prod.mk.inj (Option.some.inj h)
  obtain ⟨hwhole, rfl⟩ := wholePart_sound hreadWhole
  obtain ⟨hfraction, rfl⟩ := fractionPart_sound hreadFraction
  obtain ⟨hexponent, rfl⟩ := exponentPart_sound hreadExponent
  exact ⟨whole, fraction, exponent, hwhole, hfraction, hexponent, rfl, by simp⟩

/-- What reads as a number is written as one. -/
theorem numberLiteral_sound (h : numberLiteral cs = some (w, rest)) :
    NumberLiteral w ∧ cs = w ++ rest := by
  unfold numberLiteral at h
  split at h
  · obtain ⟨⟨w', rest'⟩, hread, h⟩ := Option.map_eq_some_iff.mp h
    obtain ⟨rfl, rfl⟩ := Prod.mk.inj h
    obtain ⟨whole, fraction, exponent, hwhole, hfraction, hexponent, rfl, rfl⟩ :=
      unsigned_sound hread
    exact ⟨.parts (.inr rfl) hwhole hfraction hexponent, rfl⟩
  · obtain ⟨whole, fraction, exponent, hwhole, hfraction, hexponent, rfl, rfl⟩ := unsigned_sound h
    exact ⟨.parts (.inl rfl) hwhole hfraction hexponent, rfl⟩

theorem ExponentPart.head (h : ExponentPart w) (hrest : EndsNumber rest) :
    ∀ c ∈ (w ++ rest).head?, c.isDigit = false ∧ c ≠ '.' := by
  cases h with
  | missing => exact fun c hc => ⟨(hrest c hc).1, (hrest c hc).2.1⟩
  | power hmark =>
    rintro _ ⟨⟩
    rcases hmark with rfl | rfl
    · decide
    · decide

theorem FractionPart.head (h : FractionPart w) (hrest : ∀ c ∈ rest.head?, c.isDigit = false) :
    ∀ c ∈ (w ++ rest).head?, c.isDigit = false := by
  cases h with
  | missing => exact hrest
  | point =>
    rintro _ ⟨⟩
    rfl

theorem WholePart.head {ds : List Char} (h : WholePart ds) :
    ∃ d ds', ds = d :: ds' ∧ d.isDigit = true := by
  rcases h with rfl | ⟨h, -⟩
  · exact ⟨'0', [], rfl, rfl⟩
  · obtain ⟨d, ds, rfl⟩ := List.exists_cons_of_ne_nil h.ne_nil
    exact ⟨d, ds, rfl, h.all d List.mem_cons_self⟩

theorem unsigned_append {whole fraction exponent : List Char} (hwhole : WholePart whole)
    (hfraction : FractionPart fraction) (hexponent : ExponentPart exponent)
    (hrest : EndsNumber rest) :
    unsigned (whole ++ fraction ++ exponent ++ rest) =
      some (whole ++ fraction ++ exponent, rest) := by
  have hbehind := hexponent.head hrest
  have hreadWhole := hwhole.read (hfraction.head fun c hc => (hbehind c hc).1)
  have hreadFraction := hfraction.read hbehind
  have hreadExponent := hexponent.read fun c hc => ⟨(hrest c hc).1, (hrest c hc).2.2⟩
  rw [List.append_assoc, List.append_assoc, unsigned, hreadWhole, Option.bind_eq_bind,
    Option.bind_some]
  dsimp only
  rw [hreadFraction, Option.bind_some]
  dsimp only
  rw [hreadExponent]
  rfl

/-- A number is read up to what ends it. -/
theorem NumberLiteral.read (h : NumberLiteral w) (hrest : EndsNumber rest) :
    numberLiteral (w ++ rest) = some (w, rest) := by
  cases h with
  | @parts sign whole fraction exponent hsign hwhole hfraction hexponent =>
    have hread := unsigned_append hwhole hfraction hexponent hrest
    rcases hsign with rfl | rfl
    · obtain ⟨d, ds, rfl, hd⟩ := hwhole.head
      rw [List.nil_append, List.cons_append, List.cons_append, List.cons_append, numberLiteral]
      · exact hread
      · rintro _ ⟨⟩
        cases hd
    · exact congrArg (Option.map _) hread

/-! ### Strings -/

/-- What is read as the parts of a string is written between its quotes. -/
theorem stringParts_sound {ps : List StringPart} (h : stringParts cs = some (ps, rest)) :
    ∃ w, StringPart.Spelled ps w ∧ cs = w ++ '"' :: rest := by
  fun_induction stringParts cs generalizing ps with
  | case1 rest' =>
    cases h
    exact ⟨[], .nil, rfl⟩
  | case2 rest' a b c d ih =>
    obtain ⟨n, hn, h⟩ := Option.bind_eq_some_iff.mp h
    obtain ⟨⟨ps', rest''⟩, hps, h⟩ := Option.bind_eq_some_iff.mp h
    cases h
    obtain ⟨w, hw, rfl⟩ := ih hps
    exact ⟨_, .word hn hw, rfl⟩
  | case3 e rest' _ ih =>
    obtain ⟨c, hc, h⟩ := Option.bind_eq_some_iff.mp h
    obtain ⟨⟨ps', rest''⟩, hps, h⟩ := Option.bind_eq_some_iff.mp h
    cases h
    obtain ⟨w, hw, rfl⟩ := ih hps
    exact ⟨_, .short hc hw, rfl⟩
  | case4 => cases h
  | case5 c rest' hquote _ _ hplain ih =>
    obtain ⟨⟨ps', rest''⟩, hps, h⟩ := Option.bind_eq_some_iff.mp h
    cases h
    obtain ⟨w, hw, rfl⟩ := ih hps
    rw [Bool.or_eq_true, decide_eq_true_iff, beq_iff_eq, not_or] at hplain
    exact ⟨_, .plain hplain.1 hquote hplain.2 hw, rfl⟩
  | case6 => cases h

/-- The parts of a string are read up to the closing quote. -/
theorem StringPart.Spelled.read {ps : List StringPart} (h : StringPart.Spelled ps w) :
    stringParts (w ++ '"' :: rest) = some (ps, rest) := by
  induction h with
  | nil => rfl
  | plain hcontrol hquote hslash _ ih =>
    rw [List.cons_append, stringParts_plain hquote hslash hcontrol, ih, Option.map_some]
  | @short e c ps cs he _ ih =>
    have hu : e ≠ 'u' := by
      rintro rfl
      cases he
    rw [List.cons_append, List.cons_append, stringParts_short he hu, ih, Option.map_some]
  | word hn _ ih =>
    simp only [List.cons_append, stringParts, hn, ih, Option.bind_eq_bind, Option.bind_some,
      Option.pure_def]

theorem stringBody_sound {s : Option String} (h : stringBody cs = some (s, rest)) :
    ∃ w, StringSpelled s w ∧ cs = w ++ '"' :: rest := by
  obtain ⟨⟨ps, rest'⟩, hps, h⟩ := Option.map_eq_some_iff.mp h
  cases h
  obtain ⟨w, hw, rfl⟩ := stringParts_sound hps
  exact ⟨w, .parts hw, rfl⟩

theorem StringSpelled.read {s : Option String} (h : StringSpelled s w) :
    stringBody (w ++ '"' :: rest) = some (s, rest) := by
  obtain ⟨h⟩ := h
  rw [stringBody, h.read, Option.map_some]

/-! ### Values that are read -/

mutual

/-- What is read as a value is written as one. -/
theorem readValue_sound : ∀ (bound : Nat) {cs rest : List Char} {v : Value},
    readValue bound cs = some (v, rest) → ∃ w, v.Spelled w ∧ cs = w ++ rest := by
  intro bound cs rest v h
  cases bound with
  | zero =>
    rw [readValue] at h
    cases h
  | succ bound =>
    unfold readValue at h
    split at h
    next => cases h
    next =>
      cases h
      exact ⟨_, .null, rfl⟩
    next =>
      cases h
      exact ⟨_, .boolTrue, rfl⟩
    next =>
      cases h
      exact ⟨_, .boolFalse, rfl⟩
    next =>
      obtain ⟨⟨s, rest'⟩, hs, h⟩ := Option.map_eq_some_iff.mp h
      cases h
      obtain ⟨w, hw, rfl⟩ := stringBody_sound hs
      exact ⟨_, .string hw, by simp⟩
    next bound' cs hbound =>
      cases hbound
      obtain ⟨gap, hgap, hcs⟩ := skipSpaces_eq cs
      split at h
      next hrest =>
        cases h
        rw [hcs, hrest]
        exact ⟨_, .noItems hgap, by simp⟩
      next =>
        obtain ⟨⟨vs, rest'⟩, hvs, h⟩ := Option.bind_eq_some_iff.mp h
        cases h
        obtain ⟨w, hw, hcs'⟩ := readItems_sound bound hvs
        rw [hcs, hcs']
        exact ⟨_, .items hgap hw, by simp⟩
    next bound' cs hbound =>
      cases hbound
      obtain ⟨gap, hgap, hcs⟩ := skipSpaces_eq cs
      split at h
      next hrest =>
        cases h
        rw [hcs, hrest]
        exact ⟨_, .noMembers hgap, by simp⟩
      next =>
        obtain ⟨⟨ms, rest'⟩, hms, h⟩ := Option.bind_eq_some_iff.mp h
        cases h
        obtain ⟨w, hw, hcs'⟩ := readMembers_sound bound hms
        rw [hcs, hcs']
        exact ⟨_, .members hgap hw, by simp⟩
    next =>
      obtain ⟨⟨ds, rest'⟩, hds, h⟩ := Option.map_eq_some_iff.mp h
      cases h
      obtain ⟨hnumber, rfl⟩ := numberLiteral_sound hds
      exact ⟨_, .number hnumber, rfl⟩

theorem readItems_sound : ∀ (bound : Nat) {cs rest : List Char} {vs : List Value},
    readItems bound cs = some (vs, rest) →
      ∃ w, Value.ItemsSpelled vs w ∧ cs = w ++ ']' :: rest := by
  intro bound cs rest vs h
  cases bound with
  | zero =>
    rw [readItems] at h
    cases h
  | succ bound =>
    rw [readItems] at h
    obtain ⟨⟨v, cs'⟩, hv, h⟩ := Option.bind_eq_some_iff.mp h
    obtain ⟨w, hw, hvalue⟩ := readValue_sound bound hv
    obtain ⟨gap, hgap, hcs⟩ := skipSpaces_eq cs'
    dsimp only at h
    split at h
    next cs'' hcomma =>
      obtain ⟨⟨vs', rest'⟩, hvs, h⟩ := Option.bind_eq_some_iff.mp h
      cases h
      obtain ⟨gap', hgap', hcs'⟩ := skipSpaces_eq cs''
      obtain ⟨w', hw', hitems⟩ := readItems_sound bound hvs
      rw [hvalue, hcs, hcomma, hcs', hitems]
      exact ⟨_, .more hw hgap hgap' hw', by simp⟩
    next hclose =>
      cases h
      rw [hvalue, hcs, hclose]
      exact ⟨_, .last hw hgap, by simp⟩
    next => cases h

theorem readMembers_sound : ∀ (bound : Nat) {cs rest : List Char}
    {ms : List (Option String × Value)}, readMembers bound cs = some (ms, rest) →
      ∃ w, Value.MembersSpelled ms w ∧ cs = w ++ '\x7d' :: rest := by
  intro bound cs rest ms h
  unfold readMembers at h
  split at h
  next bound cs =>
    obtain ⟨⟨k, cs'⟩, hk, h⟩ := Option.bind_eq_some_iff.mp h
    obtain ⟨ks, hks, hkey⟩ := stringBody_sound hk
    obtain ⟨gap, hgap, hcs⟩ := skipSpaces_eq cs'
    dsimp only at h
    split at h
    next cs'' hcolon =>
      obtain ⟨gap', hgap', hcs'⟩ := skipSpaces_eq cs''
      obtain ⟨⟨v, rest'⟩, hv, h⟩ := Option.bind_eq_some_iff.mp h
      obtain ⟨w, hw, hvalue⟩ := readValue_sound bound hv
      obtain ⟨gapBehind, hgapBehind, hrest⟩ := skipSpaces_eq rest'
      have hm : Value.MemberSpelled (k, v) _ := .pair hks hgap hgap' hw
      dsimp only at h
      split at h
      next csNext hcomma =>
        obtain ⟨⟨ms', rest''⟩, hms, h⟩ := Option.bind_eq_some_iff.mp h
        cases h
        obtain ⟨gapNext, hgapNext, hcs''⟩ := skipSpaces_eq csNext
        obtain ⟨w', hw', hmembers⟩ := readMembers_sound bound hms
        rw [hkey, hcs, hcolon, hcs', hvalue, hrest, hcomma, hcs'', hmembers]
        exact ⟨_, .more hm hgapBehind hgapNext hw', by simp⟩
      next hclose =>
        cases h
        rw [hkey, hcs, hcolon, hcs', hvalue, hrest, hclose]
        exact ⟨_, .last hm hgapBehind, by simp⟩
      next => cases h
    next => cases h
  next => cases h

end

/-! ### Values that are written -/

theorem endsNumber_nil : EndsNumber [] := by
  rintro _ ⟨⟩

theorem Spaces.endsNumber (hgap : Spaces gap) (hrest : EndsNumber rest) :
    EndsNumber (gap ++ rest) := by
  cases gap with
  | nil => exact hrest
  | cons c gap =>
    rintro _ ⟨⟩
    have hc := hgap c List.mem_cons_self
    simp only [isSpace, Bool.or_eq_true, beq_iff_eq] at hc
    obtain ((rfl | rfl) | rfl) | rfl := hc
    · decide
    · decide
    · decide
    · decide

/-- The mark ends a number. -/
theorem endsNumber_cons {c : Char} (hc : c = ',' ∨ c = ']' ∨ c = '\x7d') (cs : List Char) :
    EndsNumber (c :: cs) := by
  rintro _ ⟨⟩
  obtain rfl | rfl | rfl := hc
  · decide
  · decide
  · decide

theorem isSpace_eq_false_of_isDigit {d : Char} (hd : d.isDigit = true) : isSpace d = false := by
  rw [Bool.eq_false_iff]
  intro hspace
  simp only [isSpace, Bool.or_eq_true, beq_iff_eq] at hspace
  obtain ((rfl | rfl) | rfl) | rfl := hspace
  · cases hd
  · cases hd
  · cases hd
  · cases hd

/-- A number begins with its sign or with a digit. -/
theorem NumberLiteral.head (h : NumberLiteral w) :
    ∃ c cs, w = c :: cs ∧ (c = '-' ∨ c.isDigit = true) := by
  obtain ⟨rfl | rfl, hwhole, -, -⟩ := h
  · obtain ⟨d, ds, rfl, hd⟩ := hwhole.head
    exact ⟨d, _, rfl, .inr hd⟩
  · exact ⟨'-', _, rfl, .inl rfl⟩

/-- No white space and no closing bracket stands at the front of a value. -/
theorem Value.Spelled.head {v : Value} (h : v.Spelled w) :
    ∃ c cs, w = c :: cs ∧ isSpace c = false ∧ c ≠ ']' := by
  cases h with
  | null => exact ⟨'n', _, rfl, by decide⟩
  | boolTrue => exact ⟨'t', _, rfl, by decide⟩
  | boolFalse => exact ⟨'f', _, rfl, by decide⟩
  | number h =>
    obtain ⟨c, cs, rfl, rfl | hc⟩ := h.head
    · exact ⟨'-', cs, rfl, by decide⟩
    · refine ⟨c, cs, rfl, isSpace_eq_false_of_isDigit hc, ?_⟩
      rintro rfl
      cases hc
  | string => exact ⟨'"', _, rfl, by decide⟩
  | noItems => exact ⟨'[', _, rfl, by decide⟩
  | items => exact ⟨'[', _, rfl, by decide⟩
  | noMembers => exact ⟨'\x7b', _, rfl, by decide⟩
  | members => exact ⟨'\x7b', _, rfl, by decide⟩

theorem Value.ItemsSpelled.head {vs : List Value} (h : ItemsSpelled vs w) :
    ∃ c cs, w = c :: cs ∧ isSpace c = false ∧ c ≠ ']' := by
  cases h with
  | last h =>
    obtain ⟨c, cs, rfl, hc⟩ := h.head
    exact ⟨c, _, rfl, hc⟩
  | more h =>
    obtain ⟨c, cs, rfl, hc⟩ := h.head
    exact ⟨c, _, rfl, hc⟩

theorem Value.MembersSpelled.head {ms : List (Option String × Value)} (h : MembersSpelled ms w) :
    ∃ cs, w = '"' :: cs := by
  cases h with
  | last h =>
    obtain ⟨-, -, -, -⟩ := h
    exact ⟨_, rfl⟩
  | more h =>
    obtain ⟨-, -, -, -⟩ := h
    exact ⟨_, rfl⟩

theorem Spaces.skip {c : Char} (hgap : Spaces gap) (hc : isSpace c = false) (cs : List Char) :
    skipSpaces (gap ++ c :: cs) = c :: cs := by
  apply skipSpaces_append hgap
  rintro _ ⟨⟩
  exact hc

theorem Value.Spelled.skip {v : Value} (h : v.Spelled w) (hgap : Spaces gap) (rest : List Char) :
    skipSpaces (gap ++ (w ++ rest)) = w ++ rest := by
  obtain ⟨c, cs, rfl, hc, -⟩ := h.head
  exact hgap.skip hc _

theorem Value.ItemsSpelled.skip {vs : List Value} (h : ItemsSpelled vs w) (hgap : Spaces gap)
    (rest : List Char) : skipSpaces (gap ++ (w ++ rest)) = w ++ rest := by
  obtain ⟨c, cs, rfl, hc, -⟩ := h.head
  exact hgap.skip hc _

theorem Value.MembersSpelled.skip {ms : List (Option String × Value)} (h : MembersSpelled ms w)
    (hgap : Spaces gap) (rest : List Char) : skipSpaces (gap ++ (w ++ rest)) = w ++ rest := by
  obtain ⟨cs, rfl⟩ := h.head
  exact hgap.skip rfl _

theorem readValue_number (bound : Nat) (h : NumberLiteral w) (hrest : EndsNumber rest) :
    readValue (bound + 1) (w ++ rest) = some (.number w, rest) := by
  have hread := h.read hrest
  obtain ⟨c, cs, rfl, hc⟩ := h.head
  rw [List.cons_append] at hread ⊢
  rw [readValue, hread]
  · rfl
  all_goals
    rintro _ hcs
    obtain ⟨rfl, -⟩ := List.cons.inj hcs
    simp at hc

theorem readValue_items {bound : Nat} {vs : List Value} (hgap : Spaces gap)
    (h : Value.ItemsSpelled vs w) (hread : readItems bound (w ++ ']' :: rest) = some (vs, rest)) :
    readValue (bound + 1) ('[' :: (gap ++ w ++ [']']) ++ rest) = some (.array vs, rest) := by
  have hskip := h.skip hgap (']' :: rest)
  obtain ⟨c, cs, rfl, -, hclose⟩ := h.head
  simp only [List.cons_append, List.append_assoc, List.nil_append] at hskip hread ⊢
  rw [readValue, hskip]
  dsimp only
  split
  next heq => exact absurd (List.cons.inj heq).1 hclose
  next =>
    rw [hread]
    rfl

theorem readValue_members {bound : Nat} {ms : List (Option String × Value)} (hgap : Spaces gap)
    (h : Value.MembersSpelled ms w)
    (hread : readMembers bound (w ++ '\x7d' :: rest) = some (ms, rest)) :
    readValue (bound + 1) ('\x7b' :: (gap ++ w ++ ['\x7d']) ++ rest) =
      some (.object ms, rest) := by
  have hskip := h.skip hgap ('\x7d' :: rest)
  obtain ⟨cs, rfl⟩ := h.head
  simp only [List.cons_append, List.append_assoc, List.nil_append] at hskip hread ⊢
  rw [readValue, hskip]
  dsimp only
  split
  next heq => cases heq
  next =>
    rw [hread]
    rfl

mutual

-- The recursion follows the calls of the reader.  What a call reads next is shorter than what it
-- was given, but for the only item of a list, and for it the strict bound of lists leaves room.

/-- A value is read up to what ends a number, when the bound is its length or more. -/
theorem Value.Spelled.read : ∀ (bound : Nat) {v : Value} {w rest : List Char}, v.Spelled w →
    EndsNumber rest → w.length ≤ bound → readValue bound (w ++ rest) = some (v, rest) := by
  intro bound v w rest h hrest hbound
  cases bound with
  | zero =>
    obtain ⟨c, cs, rfl, -⟩ := h.head
    cases hbound
  | succ bound =>
    cases h with
    | null => rfl
    | boolTrue => rfl
    | boolFalse => rfl
    | number h => exact readValue_number bound h hrest
    | string h =>
      simp only [List.cons_append, List.append_assoc, List.nil_append, readValue, h.read,
        Option.map_some]
    | noItems hgap =>
      have hclose := hgap.skip (c := ']') rfl
      simp only [List.cons_append, List.append_assoc, List.nil_append, readValue, hclose]
    | items hgap h =>
      simp only [List.length_cons, List.length_append] at hbound
      exact readValue_items hgap h (Value.ItemsSpelled.read bound h (by omega))
    | noMembers hgap =>
      have hclose := hgap.skip (c := '\x7d') rfl
      simp only [List.cons_append, List.append_assoc, List.nil_append, readValue, hclose]
    | members hgap h =>
      simp only [List.length_cons, List.length_append] at hbound
      exact readValue_members hgap h (Value.MembersSpelled.read bound h (by omega))

theorem Value.ItemsSpelled.read : ∀ (bound : Nat) {vs : List Value} {w rest : List Char},
    ItemsSpelled vs w → w.length < bound →
      readItems bound (w ++ ']' :: rest) = some (vs, rest) := by
  intro bound vs w rest h hbound
  cases bound with
  | zero => cases hbound
  | succ bound =>
    cases h with
    | @last v cs gap h hgap =>
      have hends := hgap.endsNumber (endsNumber_cons (c := ']') (by decide) rest)
      have hclose := hgap.skip (c := ']') rfl
      rw [List.length_append] at hbound
      have hread := Value.Spelled.read bound h hends (by omega)
      simp only [List.append_assoc, readItems, hread, hclose, Option.bind_eq_bind,
        Option.bind_some, Option.pure_def]
    | @more v vs cs gap gap' cs' h hgap hgap' hvs =>
      have hends := hgap.endsNumber
        (endsNumber_cons (c := ',') (by decide) (gap' ++ (cs' ++ ']' :: rest)))
      have hcomma := hgap.skip (c := ',') rfl
      simp only [List.length_append, List.length_cons] at hbound
      have hread := Value.Spelled.read bound h hends (by omega)
      have hread' : readItems bound (cs' ++ ']' :: rest) = some (vs, rest) :=
        Value.ItemsSpelled.read bound hvs (by omega)
      simp only [List.append_assoc, List.cons_append, readItems, hread, hcomma, hvs.skip hgap',
        hread', Option.bind_eq_bind, Option.bind_some, Option.pure_def]

theorem Value.MembersSpelled.read : ∀ (bound : Nat) {ms : List (Option String × Value)}
    {w rest : List Char}, MembersSpelled ms w → w.length < bound →
      readMembers bound (w ++ '\x7d' :: rest) = some (ms, rest) := by
  intro bound ms w rest h hbound
  cases bound with
  | zero => cases hbound
  | succ bound =>
    cases h with
    | @last m cs gapBehind hm hgapBehind =>
      obtain @⟨k, v, ks, gap, gap', cs, hk, hgap, hgap', h⟩ := hm
      have hends := hgapBehind.endsNumber (endsNumber_cons (c := '\x7d') (by decide) rest)
      have hcolon := hgap.skip (c := ':') rfl
      have hclose := hgapBehind.skip (c := '\x7d') rfl
      simp only [List.length_append, List.length_cons] at hbound
      have hread := Value.Spelled.read bound h hends (by omega)
      simp only [List.append_assoc, List.cons_append, readMembers, hk.read, hcolon, h.skip hgap',
        hread, hclose, Option.bind_eq_bind, Option.bind_some, Option.pure_def]
    | @more m ms cs gapBehind gapNext cs' hm hgapBehind hgapNext hms =>
      obtain @⟨k, v, ks, gap, gap', cs, hk, hgap, hgap', h⟩ := hm
      have hends := hgapBehind.endsNumber
        (endsNumber_cons (c := ',') (by decide) (gapNext ++ (cs' ++ '\x7d' :: rest)))
      have hcolon := hgap.skip (c := ':') rfl
      have hcomma := hgapBehind.skip (c := ',') rfl
      simp only [List.length_append, List.length_cons] at hbound
      have hread := Value.Spelled.read bound h hends (by omega)
      have hread' : readMembers bound (cs' ++ '\x7d' :: rest) = some (ms, rest) :=
        Value.MembersSpelled.read bound hms (by omega)
      simp only [List.append_assoc, List.cons_append, readMembers, hk.read, hcolon, h.skip hgap',
        hread, hcomma, hms.skip hgapNext, hread', Option.bind_eq_bind, Option.bind_some,
        Option.pure_def]

end

/-- The reader takes exactly the texts that write a value, each as the value that it writes. -/
theorem Value.read?_eq_some {text : String} {v : Value} :
    Value.read? text = some v ↔ v.WrittenAs text := by
  rw [WrittenAs]
  constructor
  · intro h
    obtain ⟨⟨v', rest⟩, hv, h⟩ := Option.bind_eq_some_iff.mp h
    obtain ⟨gap, hgap, htext⟩ := skipSpaces_eq text.toList
    obtain ⟨w, hw, hcs⟩ := readValue_sound _ hv
    obtain ⟨gap', hgap', hrest⟩ := skipSpaces_eq rest
    dsimp only at h
    rw [Option.ite_none_right_eq_some, List.isEmpty_iff] at h
    obtain ⟨hempty, ⟨⟩⟩ := h
    rw [hempty, List.append_nil] at hrest
    subst hrest
    exact ⟨gap, w, rest, hgap, hw, hgap', by rw [htext, hcs, List.append_assoc]⟩
  · rintro ⟨gap, w, gap', hgap, hw, hgap', htext⟩
    have hskip : skipSpaces text.toList = w ++ gap' := by
      rw [htext, List.append_assoc]
      exact hw.skip hgap gap'
    have hends : EndsNumber gap' := by
      have h := hgap'.endsNumber endsNumber_nil
      rwa [List.append_nil] at h
    have hread := hw.read (2 * (w ++ gap').length + 2) hends
      (by rw [List.length_append]; omega)
    have hempty : skipSpaces gap' = [] := List.dropWhile_eq_nil_iff.mpr hgap'
    simp only [read?, hskip, hread, hempty, Option.bind_eq_bind, Option.bind_some,
      List.isEmpty_nil, if_true]

end XmlHarvest.Json
