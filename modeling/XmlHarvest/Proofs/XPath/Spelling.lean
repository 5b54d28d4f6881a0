/-
How tokens are written, and that the lexer reads back what is written.

Most tokens have one spelling; a literal has one for each quote that it does not hold, and a number
may begin with zeros (`Token.Spelled`).  An expression is cut into pieces, each the spelling of a
token with the white space before it, and two pieces without white space between them must not run
together (`Token.Stops`).  Whatever has tokens is made of pieces, and nothing is skipped
(`Piece.exists_written`), and whatever is made of pieces has their tokens
(`Piece.Written.tokensFrom_text`).  No other pieces of a text have the same tokens: to cut a number
in two would leave one too many (`Piece.Written.not_inside`).  Main statement: `tokens_readBack`.
-/
import XmlHarvest.Proofs.Checkpoint.Texts
import XmlHarvest.Proofs.Results
import XmlHarvest.Proofs.Text.Words
import XmlHarvest.XPath.Lexer
import Mathlib.Algebra.Group.Nat.Defs
import Mathlib.Data.List.Chain
import Mathlib.Data.List.TakeWhile

namespace XmlHarvest.XPath

open Text (isBlank decimal cut_append)

/-! ### Spellings -/

/-- The tokens that are always written by the same signs, and these signs. -/
def Token.signs? : Token → Option (List Char)
  | slash => some ['/']
  | doubleSlash => some ['/', '/']
  | dot => some ['.']
  | doubleDot => some ['.', '.']
  | atSign => some ['@']
  | star => some ['*']
  | leftBracket => some ['[']
  | rightBracket => some [']']
  | leftParen => some ['(']
  | rightParen => some [')']
  | pipe => some ['|']
  | equal => some ['=']
  | notEqual => some ['!', '=']
  | axis _ | name _ | literal _ | number _ => none

/-- A name without a label: a character that begins names, and then such as continue them. -/
structure PlainName (cs : List Char) : Prop where
  start : ∃ c ∈ cs.head?, isNameStart c
  all : ∀ c ∈ cs, isNameChar c

/-- A name, after a label or not. -/
def AnyName (cs : List Char) : Prop :=
  PlainName cs ∨ ∃ label rest, cs = label ++ ':' :: rest ∧ PlainName label ∧ PlainName rest

/-- The characters are a spelling of the token. -/
inductive Token.Spelled : Token → List Char → Prop
  | signs {t : Token} {cs : List Char} (h : t.signs? = some cs) : Spelled t cs
  | axis {n : String} (h : PlainName n.toList) : Spelled (.axis n) (n.toList ++ [':', ':'])
  | name {n : String} (h : AnyName n.toList) : Spelled (.name n) n.toList
  | literal {quote : Char} {s : String} (hquote : quote = '\'' ∨ quote = '"')
      (h : quote ∉ s.toList) : Spelled (.literal s) (quote :: s.toList ++ [quote])
  | number {n : Nat} {ds : List Char} (hne : ds ≠ []) (h : ∀ d ∈ ds, d.isDigit)
      (hn : decimal ds = n) (hmax : n < 2 ^ 64) : Spelled (.number n) ds

namespace Token.Spelled

theorem axis_ofList {cs : List Char} (h : PlainName cs) :
    Spelled (.axis (String.ofList cs)) (cs ++ [':', ':']) := by
  simpa using axis (n := String.ofList cs) (by simpa using h)

theorem name_ofList {cs : List Char} (h : AnyName cs) :
    Spelled (.name (String.ofList cs)) cs := by
  simpa using name (n := String.ofList cs) (by simpa using h)

theorem literal_ofList {quote : Char} {cs : List Char} (hquote : quote = '\'' ∨ quote = '"')
    (h : quote ∉ cs) : Spelled (.literal (String.ofList cs)) (quote :: cs ++ [quote]) := by
  simpa using literal (s := String.ofList cs) hquote (by simpa using h)

end Token.Spelled

/-- The token can be written. -/
def Token.WellFormed : Token → Prop
  | axis n => PlainName n.toList
  | name n => AnyName n.toList
  | literal s => '\'' ∉ s.toList ∨ '"' ∉ s.toList
  | number n => n < 2 ^ 64
  | _ => True

/-- The token does not run on into the text behind it. -/
def Token.Stops (t : Token) (rest : List Char) : Prop :=
  ∀ c ∈ rest.head?,
    match t with
    | slash => c ≠ '/'
    | dot => c ≠ '.'
    | name _ => isNameChar c = false ∧ c ≠ ':'
    | number _ => c.isDigit = false
    | _ => True

/-- Exactly the tokens that can be written have spellings. -/
theorem Token.wellFormed_iff (t : Token) : t.WellFormed ↔ ∃ cs, t.Spelled cs := by
  constructor
  · intro h
    cases t with
    | axis n => exact ⟨_, .axis h⟩
    | name n => exact ⟨_, .name h⟩
    | literal s =>
      rcases h with h | h
      · exact ⟨_, .literal (.inl rfl) h⟩
      · exact ⟨_, .literal (.inr rfl) h⟩
    | number n =>
      refine ⟨Nat.toDigits 10 n, .number Nat.toDigits_ne_nil ?_ (Text.decimal_toDigits n) h⟩
      intro d hd
      exact Text.isDigit_of_mem_toDigits hd
    | _ => exact ⟨_, .signs rfl⟩
  · rintro ⟨cs, h⟩
    cases h with
    | signs h => cases t <;> trivial
    | axis h => exact h
    | name h => exact h
    | literal hquote h =>
      rcases hquote with rfl | rfl
      · exact .inl h
      · exact .inr h
    | number _ _ _ hmax => exact hmax

/-! ### Kinds of characters -/

/-- The signs that begin tokens, and the colon, which begins none. -/
def signs : List Char := "/.@*[]()|=!'\":".toList

theorem kinds_of_mem_signs :
    ∀ c ∈ signs, isNameStart c = false ∧ c.isDigit = false ∧ isBlank c = false := by
  have hall : signs.all fun c => !(isNameStart c || c.isDigit || isBlank c) := by decide +kernel
  intro c hc
  simpa [and_assoc] using List.all_eq_true.mp hall c hc

theorem not_isDigit_of_isNameStart {c : Char} (h : isNameStart c = true) : c.isDigit = false := by
  have hletters : ∀ r ∈ Text.alphabeticRanges, 0x39 < r.1 := by decide +kernel
  rw [isNameStart, Bool.or_eq_true, beq_iff_eq] at h
  rcases h with h | rfl
  · obtain ⟨r, hr, hlow, -⟩ := Text.inRanges_iff.mp h
    have hlt := (hletters r hr).trans_le hlow
    by_contra hdigit
    simp only [Bool.not_eq_false, Char.isDigit, Bool.and_eq_true, decide_eq_true_eq] at hdigit
    exact absurd hdigit.2 (Nat.not_le.mpr hlt)
  · rfl

/-- No blank belongs to a name. -/
theorem not_isBlank_of_isNameChar {c : Char} (h : isNameChar c = true) : isBlank c = false := by
  have hnone : ∀ n ∈ ([9, 10, 11, 12, 13, 0x20, 0x85, 0xA0, 0x1680, 0x2000, 0x2001, 0x2002, 0x2003,
      0x2004, 0x2005, 0x2006, 0x2007, 0x2008, 0x2009, 0x200A, 0x2028, 0x2029, 0x202F, 0x205F,
      0x3000] : List Nat), isNameChar (Char.ofNat n) = false := by
    decide +kernel
  by_contra hblank
  rw [Bool.not_eq_false, isBlank] at hblank
  refine absurd h (Bool.eq_false_iff.mp ?_)
  rw [← Char.ofNat_toNat c]
  apply hnone
  simp only [Bool.or_eq_true, Bool.and_eq_true, decide_eq_true_eq, beq_iff_eq] at hblank
  simp only [List.mem_cons, List.not_mem_nil, or_false]
  omega

theorem isNameChar_colon : isNameChar ':' = false := by decide +kernel

/-! ### The first token -/

variable {total : Nat} {t : Token} {c : Char} {cs s rest : List Char}

theorem firstToken_name (h : isNameStart c = true) :
    firstToken total c cs = .ok (nameToken c cs) := by
  have hsign : c ∉ signs := fun hc =>
    Bool.false_ne_true ((kinds_of_mem_signs c hc).1.symm.trans h)
  unfold firstToken
  split
  case h_16 => rw [if_neg (by simp [not_isDigit_of_isNameStart h]), if_pos h]
  all_goals exact absurd (by decide) hsign

theorem firstToken_number (h : c.isDigit = true) :
    firstToken total c cs = numberToken (c :: cs) := by
  have hsign : c ∉ signs := fun hc =>
    Bool.false_ne_true ((kinds_of_mem_signs c hc).2.1.symm.trans h)
  unfold firstToken
  split
  case h_16 => rw [if_pos h]
  all_goals exact absurd (by decide) hsign

theorem PlainName.exists_cons (h : PlainName cs) :
    ∃ c rest, cs = c :: rest ∧ isNameStart c = true ∧ ∀ d ∈ rest, isNameChar d = true := by
  obtain ⟨⟨c, hc, hstart⟩, hall⟩ := h
  cases cs with
  | nil => cases hc
  | cons d rest =>
    obtain rfl : d = c := Option.some.inj hc
    exact ⟨d, rest, rfl, hstart, fun e he => hall e (List.mem_cons_of_mem _ he)⟩

theorem nameToken_axis (hcs : ∀ d ∈ cs, isNameChar d = true) :
    nameToken c (cs ++ ':' :: ':' :: rest) = (.axis (String.ofList (c :: cs)), rest) := by
  obtain ⟨htake, hdrop⟩ := cut_append (r := ':' :: ':' :: rest) hcs (by simp [isNameChar_colon])
  rw [nameToken, htake, hdrop]
  rfl

theorem nameToken_plain (hcs : ∀ d ∈ cs, isNameChar d = true)
    (hrest : ∀ d ∈ rest.head?, isNameChar d = false ∧ d ≠ ':') :
    nameToken c (cs ++ rest) = (.name (String.ofList (c :: cs)), rest) := by
  obtain ⟨htake, hdrop⟩ := cut_append hcs fun d hd => (hrest d hd).1
  rw [nameToken, htake, hdrop]
  split
  · exact absurd rfl (hrest ':' rfl).2
  · exact absurd rfl (hrest ':' rfl).2
  · rfl

theorem nameToken_labelled (hlabel : ∀ d ∈ s, isNameChar d = true) (hcs : PlainName cs)
    (hrest : ∀ d ∈ rest.head?, isNameChar d = false) :
    nameToken c (s ++ ':' :: (cs ++ rest)) =
      (.name (String.ofList (c :: s ++ ':' :: cs)), rest) := by
  obtain ⟨d, cs', rfl, hd, hcs'⟩ := hcs.exists_cons
  obtain ⟨htake, hdrop⟩ := cut_append (r := ':' :: (d :: cs' ++ rest)) hlabel
    (by simp [isNameChar_colon])
  obtain ⟨htake', hdrop'⟩ := cut_append hcs.all hrest
  have hcolon : d ≠ ':' := by
    rintro rfl
    exact Bool.false_ne_true ((kinds_of_mem_signs ':' (by decide)).1.symm.trans hd)
  rw [nameToken, htake, hdrop]
  simp only [List.cons_append] at htake' hdrop' ⊢
  rw [if_pos hd, htake', hdrop']

theorem literalToken_append (h : c ∉ cs) :
    literalToken c (cs ++ c :: rest) = .ok (.literal (String.ofList cs), rest) := by
  have hcs : ∀ d ∈ cs, (d != c) = true := fun d hd => bne_iff_ne.mpr fun e => h (e ▸ hd)
  obtain ⟨htake, hdrop⟩ := cut_append (r := c :: rest) hcs (by simp)
  rw [literalToken, htake, hdrop]

theorem numberToken_append (hcs : ∀ d ∈ cs, d.isDigit = true)
    (hrest : ∀ d ∈ rest.head?, d.isDigit = false) (hmax : decimal cs ≤ maxNumber) :
    numberToken (cs ++ rest) = .ok (.number (decimal cs), rest) := by
  obtain ⟨htake, hdrop⟩ := cut_append hcs hrest
  rw [numberToken, htake, hdrop, if_pos hmax]

/-- The lexer takes exactly a spelling that does not run on. -/
theorem firstToken_spelled (h : t.Spelled (c :: s)) (hstops : t.Stops rest) :
    firstToken total c (s ++ rest) = .ok (t, rest) := by
  generalize hcs : c :: s = cs at h
  cases h with
  | signs h =>
    subst hcs
    cases t with
    | slash =>
      obtain ⟨rfl, rfl⟩ : '/' = c ∧ [] = s := by simpa [Token.signs?] using h
      cases rest with
      | nil => rfl
      | cons d rest =>
        have hd : d ≠ '/' := hstops d rfl
        simp [firstToken, hd]
    | dot =>
      obtain ⟨rfl, rfl⟩ : '.' = c ∧ [] = s := by simpa [Token.signs?] using h
      cases rest with
      | nil => rfl
      | cons d rest =>
        have hd : d ≠ '.' := hstops d rfl
        simp [firstToken, hd]
    | axis | name | literal | number => cases h
    | _ =>
      obtain ⟨rfl, rfl⟩ := List.cons.inj (Option.some.inj h)
      rfl
  | @axis n h =>
    obtain ⟨d, n', hn, hd, hn'⟩ := h.exists_cons
    rw [hn, List.cons_append] at hcs
    obtain ⟨rfl, rfl⟩ := List.cons.inj hcs
    rw [firstToken_name hd, List.append_assoc]
    show Except.ok (nameToken c (n' ++ ':' :: ':' :: rest)) = _
    rw [nameToken_axis hn', ← hn, String.ofList_toList]
  | @name n h =>
    rcases h with h | ⟨label, l, hn, hlabel, hl⟩
    · obtain ⟨d, n', hn, hd, hn'⟩ := h.exists_cons
      rw [hn] at hcs
      obtain ⟨rfl, rfl⟩ := List.cons.inj hcs
      rw [firstToken_name hd, nameToken_plain hn' hstops, ← hn, String.ofList_toList]
    · obtain ⟨d, label', rfl, hd, hlabel'⟩ := hlabel.exists_cons
      rw [hn, List.cons_append] at hcs
      obtain ⟨rfl, rfl⟩ := List.cons.inj hcs
      rw [firstToken_name hd, List.append_assoc, List.cons_append,
        nameToken_labelled hlabel' hl fun e he => (hstops e he).1, ← hn, String.ofList_toList]
  | @literal quote body hquote hbody =>
    rw [List.cons_append] at hcs
    obtain ⟨rfl, rfl⟩ := List.cons.inj hcs
    have hliteral := @literalToken_append _ _ rest hbody
    rw [String.ofList_toList] at hliteral
    rw [List.append_assoc, List.singleton_append]
    rcases hquote with rfl | rfl
    · exact hliteral
    · exact hliteral
  | @number n ds hne hds hn hmax =>
    subst hcs hn
    rw [firstToken_number (hds c List.mem_cons_self), ← List.cons_append]
    exact numberToken_append hds hstops (Nat.le_of_lt_succ hmax)

/-- What is left of some characters when those of a kind at their front are taken away. -/
theorem kind_of_head?_dropWhile (kind : Char → Bool) (cs : List Char) :
    ∀ c ∈ (cs.dropWhile kind).head?, kind c = false := by
  intro c hc
  simpa [Option.mem_def.mp hc] using List.head?_dropWhile_not kind cs

theorem plainName_takeWhile (hc : isNameStart c = true) (cs : List Char) :
    PlainName (c :: cs.takeWhile isNameChar) where
  start := ⟨c, rfl, hc⟩
  all d hd := by
    rcases List.mem_cons.mp hd with rfl | hd
    · exact isNameChar_of_isNameStart hc
    · exact List.mem_takeWhile_imp hd

theorem spelled_of_nameToken (hc : isNameStart c = true) (h : nameToken c cs = (t, rest)) :
    ∃ s, cs = s ++ rest ∧ t.Spelled (c :: s) ∧ (rest.head? ≠ some ':' → t.Stops rest) := by
  have hplain := plainName_takeWhile hc cs
  have hcs := List.takeWhile_append_dropWhile (p := isNameChar) (l := cs)
  have hend := kind_of_head?_dropWhile isNameChar cs
  unfold nameToken at h
  split at h
  · next behind hdrop =>
    obtain ⟨rfl, rfl⟩ := Prod.mk.inj h
    refine ⟨cs.takeWhile isNameChar ++ [':', ':'], ?_, ?_, fun _ _ _ => trivial⟩
    · rw [List.append_assoc, List.cons_append, List.singleton_append, ← hdrop, hcs]
    · exact .axis_ofList hplain
  · next d behind hnot hdrop =>
    split at h
    · next hd =>
      obtain ⟨rfl, rfl⟩ := Prod.mk.inj h
      have hbehind := List.takeWhile_append_dropWhile (p := isNameChar) (l := d :: behind)
      refine ⟨cs.takeWhile isNameChar ++ ':' :: (d :: behind).takeWhile isNameChar, ?_, ?_, ?_⟩
      · rw [List.append_assoc, List.cons_append, hbehind, ← hdrop, hcs]
      · apply Token.Spelled.name_ofList
        refine .inr ⟨_, _, rfl, hplain, ?_⟩
        rw [List.takeWhile_cons_of_pos (isNameChar_of_isNameStart hd)]
        exact plainName_takeWhile hd behind
      · intro hcolon e he
        exact ⟨kind_of_head?_dropWhile isNameChar _ e he, fun h => hcolon (h ▸ he)⟩
    · obtain ⟨rfl, rfl⟩ := Prod.mk.inj h
      refine ⟨cs.takeWhile isNameChar, ?_, .name_ofList (.inl hplain), fun h => absurd rfl h⟩
      rw [← hdrop, hcs]
  · next hnot hnot' =>
    obtain ⟨rfl, rfl⟩ := Prod.mk.inj h
    refine ⟨cs.takeWhile isNameChar, hcs.symm, .name_ofList (.inl hplain), ?_⟩
    intro hcolon e he
    exact ⟨hend e he, fun h => hcolon (h ▸ he)⟩

theorem spelled_of_literalToken {quote : Char} (hquote : quote = '\'' ∨ quote = '"')
    (h : literalToken quote cs = .ok (t, rest)) :
    ∃ s, cs = s ++ rest ∧ t.Spelled (quote :: s) ∧ t.Stops rest := by
  have hcs := List.takeWhile_append_dropWhile (p := (· != quote)) (l := cs)
  have hend := kind_of_head?_dropWhile (· != quote) cs
  unfold literalToken at h
  split at h
  · cases h
  · next d behind hdrop =>
    obtain ⟨rfl, rfl⟩ := Prod.mk.inj (Except.ok.inj h)
    obtain rfl : d = quote := by simpa using hend d (by rw [hdrop]; rfl)
    refine ⟨cs.takeWhile (· != d) ++ [d], ?_, .literal_ofList hquote ?_, fun _ _ => trivial⟩
    · rw [List.append_assoc, List.singleton_append, ← hdrop, hcs]
    · intro hd
      simpa using List.mem_takeWhile_imp hd

theorem spelled_of_numberToken (hc : c.isDigit = true) (h : numberToken (c :: cs) = .ok (t, rest)) :
    ∃ s, cs = s ++ rest ∧ t.Spelled (c :: s) ∧ t.Stops rest := by
  have hcs := List.takeWhile_append_dropWhile (p := Char.isDigit) (l := cs)
  have hend := kind_of_head?_dropWhile Char.isDigit cs
  rw [numberToken, List.takeWhile_cons_of_pos hc, List.dropWhile_cons_of_pos hc] at h
  split at h
  · next hmax =>
    obtain ⟨rfl, rfl⟩ := Prod.mk.inj (Except.ok.inj h)
    refine ⟨cs.takeWhile Char.isDigit, hcs.symm, ?_, hend⟩
    refine .number (List.cons_ne_nil _ _) ?_ rfl (Nat.lt_succ_of_le hmax)
    intro d hd
    rcases List.mem_cons.mp hd with rfl | hd
    · exact hc
    · exact List.mem_takeWhile_imp hd
  · cases h

/-- The lexer takes a spelling of the token, which runs on at most into a colon. -/
theorem spelled_of_firstToken (h : firstToken total c cs = .ok (t, rest)) :
    ∃ s, cs = s ++ rest ∧ t.Spelled (c :: s) ∧ (rest.head? ≠ some ':' → t.Stops rest) := by
  unfold firstToken at h
  split at h
  case h_14 =>
    obtain ⟨s, hs, hspelled, hstops⟩ := spelled_of_literalToken (.inl rfl) h
    exact ⟨s, hs, hspelled, fun _ => hstops⟩
  case h_15 =>
    obtain ⟨s, hs, hspelled, hstops⟩ := spelled_of_literalToken (.inr rfl) h
    exact ⟨s, hs, hspelled, fun _ => hstops⟩
  case h_16 =>
    split at h
    · next hdigit =>
      obtain ⟨s, hs, hspelled, hstops⟩ := spelled_of_numberToken hdigit h
      exact ⟨s, hs, hspelled, fun _ => hstops⟩
    · split at h
      · next hstart => exact spelled_of_nameToken hstart (Except.ok.inj h)
      · cases h
  all_goals obtain ⟨rfl, rfl⟩ := Prod.mk.inj (Except.ok.inj h)
  case h_1 | h_3 | h_13 => exact ⟨_, rfl, .signs rfl, fun _ _ _ => trivial⟩
  case h_2 hne =>
    refine ⟨[], rfl, .signs rfl, fun _ d hd hd' => ?_⟩
    obtain ⟨behind, hcs⟩ := List.head?_eq_some_iff.mp (hd' ▸ hd)
    exact hne behind hcs
  case h_4 hne =>
    refine ⟨[], rfl, .signs rfl, fun _ d hd hd' => ?_⟩
    obtain ⟨behind, hcs⟩ := List.head?_eq_some_iff.mp (hd' ▸ hd)
    exact hne behind hcs
  all_goals exact ⟨[], rfl, .signs rfl, fun _ _ _ => trivial⟩

/-- A spelling begins neither with white space nor with a colon. -/
theorem Token.Spelled.head (h : t.Spelled cs) :
    ∃ c s, cs = c :: s ∧ isBlank c = false ∧ c ≠ ':' := by
  have hname : ∀ n, PlainName n → ∃ c s, n = c :: s ∧ isBlank c = false ∧ c ≠ ':' := by
    intro n hn
    obtain ⟨c, s, rfl, hc, -⟩ := hn.exists_cons
    refine ⟨c, s, rfl, not_isBlank_of_isNameChar (isNameChar_of_isNameStart hc), ?_⟩
    rintro rfl
    exact Bool.false_ne_true (isNameChar_colon.symm.trans (isNameChar_of_isNameStart hc))
  cases h with
  | signs h =>
    cases t with
    | axis | name | literal | number => cases h
    | _ =>
      obtain rfl := Option.some.inj h
      exact ⟨_, _, rfl, by decide, by decide⟩
  | axis h =>
    obtain ⟨c, s, hn, hc⟩ := hname _ h
    exact ⟨c, s ++ [':', ':'], by rw [hn, List.cons_append], hc⟩
  | name h =>
    rcases h with h | ⟨label, rest, hn, hlabel, -⟩
    · exact hname _ h
    · obtain ⟨c, s, rfl, hc⟩ := hname _ hlabel
      exact ⟨c, s ++ ':' :: rest, by rw [hn, List.cons_append], hc⟩
  | literal hquote h =>
    refine ⟨_, _, List.cons_append, ?_⟩
    rcases hquote with rfl | rfl
    · exact ⟨by decide, by decide⟩
    · exact ⟨by decide, by decide⟩
  | number hne h =>
    obtain ⟨d, ds, rfl⟩ := List.exists_cons_of_ne_nil hne
    have hd := h d List.mem_cons_self
    refine ⟨d, ds, rfl, Text.isBlank_of_isDigit hd, ?_⟩
    rintro rfl
    cases hd

/-! ### All tokens -/

theorem tokensFrom_blanks (total : Nat) {gap : List Char} (h : ∀ c ∈ gap, isBlank c = true)
    (cs : List Char) : tokensFrom total (gap ++ cs) = tokensFrom total cs := by
  induction gap with
  | nil => rfl
  | cons c gap ih =>
    obtain ⟨hc, hgap⟩ := List.forall_mem_cons.mp h
    rw [List.cons_append, tokensFrom, if_pos hc, ih hgap]

theorem tokensFrom_of_firstToken (hc : isBlank c = false)
    (h : firstToken total c cs = .ok (t, rest)) :
    tokensFrom total (c :: cs) = (tokensFrom total rest).map (t :: ·) := by
  rw [tokensFrom, if_neg (by simp [hc])]
  split
  · next hfirst => cases h.symm.trans hfirst
  · next hfirst =>
    obtain ⟨rfl, rfl⟩ := Prod.mk.inj (Except.ok.inj (h.symm.trans hfirst))
    rfl

/-- What begins with a token that is not blank has tokens only if it has a first one. -/
theorem exists_firstToken {ts : List Token} (hc : isBlank c = false)
    (h : tokensFrom total (c :: cs) = .ok ts) :
    ∃ t rest ts', firstToken total c cs = .ok (t, rest) ∧ tokensFrom total rest = .ok ts' ∧
      ts = t :: ts' := by
  cases hfirst : firstToken total c cs with
  | error e =>
    rw [tokensFrom, if_neg (by simp [hc])] at h
    split at h
    · cases h
    · next hok => cases hfirst.symm.trans hok
  | ok r =>
    obtain ⟨t, rest⟩ := r
    rw [tokensFrom_of_firstToken hc hfirst] at h
    obtain ⟨ts', hts', rfl⟩ := map_eq_ok h
    exact ⟨t, rest, ts', rfl, hts', rfl⟩

theorem tokensFrom_colon : ∀ ts, tokensFrom total (':' :: cs) ≠ .ok ts := by
  intro ts h
  obtain ⟨t, rest, -, hfirst, -⟩ := exists_firstToken (by decide) h
  obtain ⟨s, -, hspelled, -⟩ := spelled_of_firstToken hfirst
  obtain ⟨c, s', hcs, -, hcolon⟩ := hspelled.head
  exact hcolon (List.cons.inj hcs).1.symm

/-- The first token of a text, the white space before it, its spelling, and what follows. -/
theorem exists_first {ts : List Token} (h : tokensFrom total cs = .ok (t :: ts)) :
    ∃ gap s rest, cs = gap ++ (s ++ rest) ∧ (∀ c ∈ gap, isBlank c = true) ∧ t.Spelled s ∧
      t.Stops rest ∧ tokensFrom total rest = .ok ts := by
  have hgap : ∀ c ∈ cs.takeWhile isBlank, isBlank c = true := fun c hc => List.mem_takeWhile_imp hc
  have hcs := List.takeWhile_append_dropWhile (p := isBlank) (l := cs)
  have hend := kind_of_head?_dropWhile isBlank cs
  rw [← hcs, tokensFrom_blanks total hgap] at h
  cases hbehind : cs.dropWhile isBlank with
  | nil =>
    rw [hbehind, tokensFrom] at h
    cases h
  | cons c behind =>
    rw [hbehind] at h hcs hend
    obtain ⟨t', rest, ts', hfirst, hts, heq⟩ := exists_firstToken (hend c rfl) h
    obtain ⟨rfl, rfl⟩ := List.cons.inj heq
    obtain ⟨s, rfl, hspelled, hstops⟩ := spelled_of_firstToken hfirst
    refine ⟨_, c :: s, rest, hcs.symm, hgap, hspelled, hstops fun hcolon => ?_, hts⟩
    obtain ⟨rest', rfl⟩ := List.head?_eq_some_iff.mp hcolon
    exact tokensFrom_colon ts hts

theorem isBlank_of_tokensFrom_nil (h : tokensFrom total cs = .ok []) :
    ∀ c ∈ cs, isBlank c = true := by
  induction cs with
  | nil => exact fun c hc => nomatch hc
  | cons c cs ih =>
    by_cases hc : isBlank c = true
    · rw [tokensFrom, if_pos hc] at h
      exact List.forall_mem_cons.mpr ⟨hc, ih h⟩
    · obtain ⟨t, rest, ts, -, -, heq⟩ := exists_firstToken (Bool.not_eq_true _ ▸ hc) h
      cases heq

/-! ### Pieces of an expression -/

/-- The spelling of a token with the white space before it. -/
structure Piece where
  gap : List Char
  token : Token
  spelling : List Char

namespace Piece

/-- The text of some pieces, with what is behind them. -/
def text (ps : List Piece) (tail : List Char) : List Char :=
  ps.flatMap (fun p => p.gap ++ p.spelling) ++ tail

/-- The pieces are such, and there is only white space behind them. -/
structure Written (ps : List Piece) (tail : List Char) : Prop where
  gaps : ∀ p ∈ ps, ∀ c ∈ p.gap, isBlank c = true
  spelled : ∀ p ∈ ps, p.token.Spelled p.spelling
  tail : ∀ c ∈ tail, isBlank c = true

/-- Two pieces without white space between them do not run together. -/
def Apart (ps : List Piece) : Prop :=
  ps.IsChain fun p q => q.gap = [] → p.token.Stops q.spelling

/-- The second piece has more white space before it. -/
structure Widened (p q : Piece) : Prop where
  gap : p.gap.Sublist q.gap
  token : q.token = p.token
  spelling : q.spelling = p.spelling

variable {p q : Piece} {ps qs : List Piece} {tail tail' : List Char}

theorem text_cons (p : Piece) (ps : List Piece) (tail : List Char) :
    text (p :: ps) tail = p.gap ++ (p.spelling ++ text ps tail) := by
  simp [text]

theorem Written.cons (hgap : ∀ c ∈ p.gap, isBlank c = true) (hp : p.token.Spelled p.spelling)
    (h : Written ps tail) : Written (p :: ps) tail :=
  ⟨List.forall_mem_cons.mpr ⟨hgap, h.gaps⟩, List.forall_mem_cons.mpr ⟨hp, h.spelled⟩, h.tail⟩

theorem Written.of_cons (h : Written (p :: ps) tail) : Written ps tail :=
  ⟨fun q hq => h.gaps q (List.mem_cons_of_mem _ hq),
    fun q hq => h.spelled q (List.mem_cons_of_mem _ hq), h.tail⟩

end Piece

/-- A token does not run on into white space. -/
theorem Token.stops_of_isBlank (t : Token) (h : ∀ c ∈ rest.head?, isBlank c = true) :
    t.Stops rest := by
  intro c hc
  have hblank := h c hc
  have hsign : c ∉ signs := fun hc =>
    Bool.false_ne_true ((kinds_of_mem_signs c hc).2.2.symm.trans hblank)
  cases t with
  | slash | dot =>
    rintro rfl
    exact hsign (by decide)
  | name n =>
    refine ⟨Bool.eq_false_iff.mpr fun hname => ?_, ?_⟩
    · exact Bool.false_ne_true ((not_isBlank_of_isNameChar hname).symm.trans hblank)
    · rintro rfl
      exact hsign (by decide)
  | number n =>
    refine Bool.eq_false_iff.mpr fun hdigit => ?_
    exact Bool.false_ne_true ((Text.isBlank_of_isDigit hdigit).symm.trans hblank)
  | _ => trivial

/-- Whether a token runs on is told by the next character. -/
theorem Token.stops_append (t : Token) (hs : s ≠ []) : t.Stops (s ++ rest) ↔ t.Stops s := by
  rw [Token.Stops, Token.Stops, List.head?_append_of_ne_nil _ hs]

namespace Piece

variable {p q : Piece} {ps qs : List Piece} {tail tail' : List Char}

/-- A token that is followed by pieces does not run on into them. -/
theorem Written.stops_text (h : Written ps tail) (t : Token)
    (hstops : ∀ q ∈ ps.head?, q.gap = [] → t.Stops q.spelling) : t.Stops (text ps tail) := by
  cases ps with
  | nil => exact t.stops_of_isBlank fun c hc => h.tail c (List.mem_of_mem_head? hc)
  | cons q ps =>
    rw [text_cons]
    by_cases hgap : q.gap = []
    · obtain ⟨c, s, hs, -⟩ := (h.spelled q List.mem_cons_self).head
      rw [hgap, List.nil_append, t.stops_append (by simp [hs])]
      exact hstops q rfl hgap
    · rw [t.stops_append hgap]
      apply t.stops_of_isBlank
      intro c hc
      exact h.gaps q List.mem_cons_self c (List.mem_of_mem_head? hc)

/-- What is made of pieces has their tokens. -/
theorem Written.tokensFrom_text (h : Written ps tail) (hapart : Apart ps) :
    tokensFrom total (text ps tail) = .ok (ps.map token) := by
  induction ps with
  | nil =>
    have hblank := tokensFrom_blanks total h.tail []
    rw [List.append_nil] at hblank
    show tokensFrom total tail = _
    rw [hblank, tokensFrom]
    rfl
  | cons p ps ih =>
    obtain ⟨c, s, hs, hc, -⟩ := (h.spelled p List.mem_cons_self).head
    have hspelled := h.spelled p List.mem_cons_self
    rw [hs] at hspelled
    obtain ⟨hnext, hapart⟩ := List.isChain_cons.mp hapart
    have hstops : p.token.Stops (text ps tail) := h.of_cons.stops_text p.token hnext
    rw [text_cons, tokensFrom_blanks total (h.gaps p List.mem_cons_self), hs, List.cons_append,
      tokensFrom_of_firstToken hc (firstToken_spelled hspelled hstops), ih h.of_cons hapart]
    rfl

/-- Whatever has tokens is made of pieces. -/
theorem exists_written {ts : List Token} (h : tokensFrom total cs = .ok ts) :
    ∃ ps tail, Written ps tail ∧ ps.map token = ts ∧ text ps tail = cs := by
  induction ts generalizing cs with
  | nil => exact ⟨[], cs, ⟨nofun, nofun, isBlank_of_tokensFrom_nil h⟩, rfl, rfl⟩
  | cons t ts ih =>
    obtain ⟨gap, s, rest, rfl, hgap, hspelled, -, hts⟩ := exists_first h
    obtain ⟨ps, tail, hps, rfl, rfl⟩ := ih hts
    exact ⟨⟨gap, t, s⟩ :: ps, tail, hps.cons hgap hspelled, rfl, text_cons _ _ _⟩

end Piece

/-! ### No other pieces -/

/-- What begins with a digit is a number. -/
theorem Token.Spelled.of_isDigit (h : t.Spelled cs) (hc : ∀ c ∈ cs.head?, c.isDigit = true) :
    ∃ n, t = .number n := by
  have hname : ∀ n s, PlainName n → (∀ c ∈ (n ++ s).head?, c.isDigit = true) → False := by
    intro n s hn hdigit
    obtain ⟨c, rest, rfl, hstart, -⟩ := hn.exists_cons
    exact Bool.false_ne_true ((not_isDigit_of_isNameStart hstart).symm.trans (hdigit c rfl))
  cases h with
  | signs h =>
    cases t with
    | axis | name | literal | number => cases h
    | _ =>
      obtain rfl := Option.some.inj h
      cases hc _ rfl
  | axis h => exact (hname _ _ h hc).elim
  | name h =>
    rcases h with h | ⟨label, rest, hn, hlabel, -⟩
    · exact (hname _ [] h (by simpa using hc)).elim
    · exact (hname _ _ hlabel (hn ▸ hc)).elim
  | literal hquote h =>
    rcases hquote with rfl | rfl
    · cases hc _ rfl
    · cases hc _ rfl
  | number => exact ⟨_, rfl⟩

theorem Token.Spelled.digits {n : Nat} (h : (Token.number n).Spelled cs) :
    cs ≠ [] ∧ ∀ c ∈ cs, c.isDigit = true := by
  cases h with
  | signs h => cases h
  | number hne h => exact ⟨hne, h⟩

/-- Two spellings of one token at the front of one text are the same, unless it is a number. -/
theorem Token.Spelled.eq_of_append {s' rest' : List Char} (h : t.Spelled s) (h' : t.Spelled s')
    (heq : s ++ rest = s' ++ rest') (ht : ∀ n, t ≠ .number n) : s = s' := by
  cases h with
  | signs h =>
    cases h' with
    | signs h' => exact Option.some.inj (h.symm.trans h')
    | _ => cases h
  | axis h =>
    cases h' with
    | signs h' => cases h'
    | axis => rfl
  | name h =>
    cases h' with
    | signs h' => cases h'
    | name => rfl
  | literal hquote h =>
    cases h' with
    | signs h' => cases h'
    | literal hquote' h' =>
      obtain ⟨rfl, -⟩ := List.cons.inj heq
      rfl
  | number => exact absurd rfl (ht _)

namespace Piece

variable {p q : Piece} {ps qs : List Piece} {tail tail' : List Char}

/-- Pieces that begin inside a number, and run to the end of a text, are not those of the text
behind this number: they are too many.  The induction moves on from number to number. -/
theorem Written.not_inside (h : Written ps tail) (front : List Char) {d : Char}
    (hd : d.isDigit = true) (hfront : ∀ c ∈ front, c.isDigit = true ∨ isBlank c = true)
    (hrest : ∀ c ∈ rest.head?, c.isDigit = false) (htext : text ps tail = front ++ d :: rest) :
    tokensFrom total rest ≠ .ok (ps.map token) := by
  induction ps generalizing front d rest with
  | nil =>
    have hblank : isBlank d = true := by
      apply h.tail
      rw [show tail = front ++ d :: rest from htext]
      simp
    exact absurd hblank (by simp [Text.isBlank_of_isDigit hd])
  | cons p ps ih =>
    intro htokens
    have hgap := h.gaps p List.mem_cons_self
    have hspelled := h.spelled p List.mem_cons_self
    rw [text_cons] at htext
    -- The white space before the first piece ends before the last digit.
    obtain ⟨a, hfront', hbehind⟩ : ∃ a, front = p.gap ++ a ∧
        p.spelling ++ text ps tail = a ++ d :: rest := by
      rcases List.append_eq_append_iff.mp htext with h | ⟨b, hb, hbehind⟩
      · exact h
      · cases b with
        | nil => exact ⟨[], by simpa using hb.symm, hbehind.symm⟩
        | cons e b =>
          obtain ⟨rfl, -⟩ := List.cons.inj hbehind
          exact absurd (hgap d (by simp [hb])) (by simp [Text.isBlank_of_isDigit hd])
    have ha : ∀ c ∈ a ++ [d], c.isDigit = true ∨ isBlank c = true := by
      intro c hc
      rcases List.mem_append.mp hc with hc | hc
      · exact hfront c (by simp [hfront', hc])
      · exact .inl (List.mem_singleton.mp hc ▸ hd)
    -- So the first piece begins with a digit and is a number.
    obtain ⟨c, s, hs, hc, -⟩ := hspelled.head
    obtain ⟨n, hn⟩ : ∃ n, p.token = .number n := by
      apply hspelled.of_isDigit
      rw [hs] at hbehind ⊢
      rintro _ ⟨⟩
      refine (ha c ?_).resolve_right (by simp [hc])
      cases a with
      | nil => simp [(List.cons.inj hbehind).1]
      | cons e a => simp [(List.cons.inj hbehind).1]
    rw [hn] at hspelled
    obtain ⟨-, hdigits⟩ := hspelled.digits
    -- It ends within the number, which is all that is before the text behind.
    obtain ⟨b, hb, htail⟩ : ∃ b, a ++ [d] = p.spelling ++ b ∧ text ps tail = b ++ rest := by
      rw [← List.singleton_append, ← List.append_assoc] at hbehind
      rcases List.append_eq_append_iff.mp hbehind with h | ⟨b, hb, hover⟩
      · exact h
      · cases b with
        | nil => exact ⟨[], by simpa using hb.symm, hover.symm⟩
        | cons e b =>
          have he := hdigits e (by simp [hb])
          exact absurd he (by simp [hrest e (by simp [hover])])
    -- The text behind has this number first, and the other pieces begin before it ends.
    rw [List.map_cons, hn] at htokens
    obtain ⟨gap, s', rest', rfl, hgap', hspelled', hstops, hlater⟩ := exists_first htokens
    obtain ⟨hne, hdigits'⟩ := hspelled'.digits
    obtain ⟨front', d', rfl⟩ := (List.eq_nil_or_concat' s').resolve_left hne
    refine ih h.of_cons (b ++ (gap ++ front')) (d := d') (hdigits' d' (by simp)) ?_ hstops
      ?_ hlater
    · intro c hc
      rw [List.mem_append, List.mem_append] at hc
      rcases hc with hc | hc | hc
      · exact ha c (by simp [hb, hc])
      · exact .inr (hgap' c hc)
      · exact .inl (hdigits' c (by simp [hc]))
    · simpa using htail

/-- Blanks before something else can be told from it. -/
theorem eq_of_append_of_blank {gap gap' : List Char} (hgap : ∀ c ∈ gap, isBlank c = true)
    (hgap' : ∀ c ∈ gap', isBlank c = true) {s' rest' : List Char} {t' : Token}
    (hs : t.Spelled s) (hs' : t'.Spelled s')
    (h : gap ++ (s ++ rest) = gap' ++ (s' ++ rest')) : gap = gap' ∧ s ++ rest = s' ++ rest' := by
  obtain ⟨c, cs, rfl, hc, -⟩ := hs.head
  obtain ⟨c', cs', rfl, hc', -⟩ := hs'.head
  obtain ⟨htake, hdrop⟩ := cut_append (r := c :: cs ++ rest) hgap (by simpa using hc)
  obtain ⟨htake', hdrop'⟩ := cut_append (r := c' :: cs' ++ rest') hgap' (by simpa using hc')
  exact ⟨htake.symm.trans (h ▸ htake'), hdrop.symm.trans (h ▸ hdrop')⟩

/-- Pieces that have the tokens of their text do not run together. -/
theorem Written.apart (h : Written ps tail)
    (htokens : tokensFrom total (text ps tail) = .ok (ps.map token)) : Apart ps := by
  induction ps with
  | nil => exact .nil
  | cons p ps ih =>
    have hspelled := h.spelled p List.mem_cons_self
    rw [text_cons] at htokens
    obtain ⟨gap, s, rest, hcut, hgap, hspelled', hstops, htokens⟩ := exists_first htokens
    obtain ⟨-, hcut⟩ := eq_of_append_of_blank (h.gaps p List.mem_cons_self) hgap hspelled
      hspelled' hcut
    obtain rfl : text ps tail = rest := by
      by_cases hn : ∃ n, p.token = .number n
      · obtain ⟨n, hn⟩ := hn
        rw [hn] at hspelled hspelled' hstops
        rcases List.append_eq_append_iff.mp hcut with ⟨a, ha, hrest⟩ | ⟨a, ha, hrest⟩
        · -- The piece ends before the number does.
          rcases List.eq_nil_or_concat' a with rfl | ⟨front, d, rfl⟩
          · exact hrest
          · have hdigits : ∀ c ∈ front ++ [d], c.isDigit = true :=
              fun c hc => hspelled'.digits.2 c (ha ▸ List.mem_append_right _ hc)
            refine absurd htokens
              (h.of_cons.not_inside front (hdigits d (by simp)) ?_ hstops ?_)
            · exact fun c hc => .inl (hdigits c (by simp [hc]))
            · simpa using hrest
        · -- The number goes on as long as there are digits.
          cases a with
          | nil => exact hrest.symm
          | cons e a =>
            have he := hspelled.digits.2 e (by simp [ha])
            exact absurd he (by simp [show e.isDigit = false from hstops e (by simp [hrest])])
      · have hs := hspelled.eq_of_append hspelled' hcut fun n hn' => hn ⟨n, hn'⟩
        rw [hs] at hcut
        exact List.append_cancel_left hcut
    refine List.isChain_cons.mpr ⟨?_, ih h.of_cons htokens⟩
    intro q hq hnone
    obtain ⟨qs, rfl⟩ := List.head?_eq_some_iff.mp hq
    obtain ⟨c, s', hs', -⟩ := (h.of_cons.spelled q List.mem_cons_self).head
    rw [text_cons, hnone, List.nil_append, Token.stops_append _ (by simp [hs'])] at hstops
    exact hstops

/-- White space keeps pieces apart. -/
theorem apart_of_gaps (h : ∀ p ∈ ps.tail, p.gap ≠ []) : Apart ps := by
  cases ps with
  | nil => exact .nil
  | cons p ps =>
    refine List.IsChain.imp (R := fun _ q => q.gap ≠ []) (fun _ _ h hnone => absurd hnone h) ?_
    induction ps generalizing p with
    | nil => exact .singleton p
    | cons q ps ih =>
      exact .cons_cons (h q List.mem_cons_self) (ih q fun r hr => h r (List.mem_cons_of_mem _ hr))

/-- More white space keeps pieces apart. -/
theorem Apart.widened (h : Apart ps) (hwide : List.Forall₂ Widened ps qs) : Apart qs := by
  induction hwide with
  | nil => exact h
  | @cons p q ps qs hpq hwide ih =>
    obtain ⟨hnext, h⟩ := List.isChain_cons.mp h
    refine List.isChain_cons.mpr ⟨?_, ih h⟩
    cases hwide with
    | nil => exact fun _ hq => nomatch hq
    | @cons p' q' _ _ hpq' _ =>
      rintro _ ⟨⟩ hnone
      rw [hpq.token, hpq'.spelling]
      exact hnext p' rfl (List.sublist_nil.mp (hnone ▸ hpq'.gap))

theorem map_token_widened (hwide : List.Forall₂ Widened ps qs) : qs.map token = ps.map token := by
  induction hwide with
  | nil => rfl
  | cons hpq _ ih => rw [List.map_cons, List.map_cons, hpq.token, ih]

theorem tokens_ofList (cs : List Char) : tokens (String.ofList cs) = tokensFrom cs.length cs := by
  rw [tokens, String.toList_ofList]

end Piece

open Piece

/-- Tokens that are written with white space between them are read back; the tokens that can be
written are the well-formed ones.  Whatever is read is nothing but spellings of its tokens and white
space, and for all such spellings it makes no difference how much more white space there is. -/
theorem tokens_readBack :
    (∀ t : Token, t.WellFormed ↔ ∃ cs, t.Spelled cs) ∧
      (∀ ps tail, Written ps tail → (∀ p ∈ ps.tail, p.gap ≠ []) →
        tokens (String.ofList (text ps tail)) = .ok (ps.map token)) ∧
      ∀ expression ts, tokens expression = .ok ts →
        (∃ ps tail, Written ps tail ∧ ps.map token = ts ∧ text ps tail = expression.toList) ∧
          ∀ ps tail, Written ps tail → ps.map token = ts → text ps tail = expression.toList →
            ∀ qs tail', List.Forall₂ Widened ps qs → Written qs tail' →
              tokens (String.ofList (text qs tail')) = .ok ts := by
  refine ⟨Token.wellFormed_iff, ?_, ?_⟩
  · intro ps tail hwritten hgaps
    rw [tokens_ofList]
    exact hwritten.tokensFrom_text (apart_of_gaps hgaps)
  · intro expression ts hts
    refine ⟨exists_written hts, ?_⟩
    rintro ps tail hwritten rfl htext qs tail' hwide hwritten'
    rw [tokens, ← htext] at hts
    rw [tokens_ofList, hwritten'.tokensFrom_text ((hwritten.apart hts).widened hwide),
      map_token_widened hwide]

/-- A label, dots and hyphens in names, a quote in a literal, and zeros before a number. -/
theorem tokens_readBack_spaced :
    let ps : List Piece := [⟨[], .axis "child", "child::".toList⟩,
      ⟨[' '], .name "tei:p.1-a", "tei:p.1-a".toList⟩, ⟨['\t'], .literal "it's", "\"it's\"".toList⟩,
      ⟨['\u3000'], .number 7, "007".toList⟩, ⟨[' '], .number 0, "0".toList⟩]
    let ts : List Token := [.axis "child", .name "tei:p.1-a", .literal "it's", .number 7, .number 0]
    Written ps ['\n'] ∧ tokens (String.ofList (text ps ['\n'])) = .ok ts := by
  intro ps ts
  have hname : PlainName "child".toList ∧ PlainName "tei".toList ∧ PlainName "p.1-a".toList :=
    ⟨⟨⟨'c', rfl, by decide +kernel⟩, List.all_eq_true.mp (by decide +kernel)⟩,
      ⟨⟨'t', rfl, by decide +kernel⟩, List.all_eq_true.mp (by decide +kernel)⟩,
      ⟨⟨'p', rfl, by decide +kernel⟩, List.all_eq_true.mp (by decide +kernel)⟩⟩
  obtain ⟨hchild, hlabel, hp⟩ := hname
  have hnumbers : (Token.number 7).Spelled "007".toList ∧ (Token.number 0).Spelled "0".toList :=
    ⟨.number (by decide) (List.all_eq_true.mp (by decide)) rfl (by decide),
      .number (by decide) (List.all_eq_true.mp (by decide)) rfl (by decide)⟩
  have hwritten : Written ps ['\n'] := by
    refine ⟨?_, ?_, ?_⟩
    · have hblank : ps.all fun p => p.gap.all isBlank := by decide
      exact fun p hp => List.all_eq_true.mp (List.all_eq_true.mp hblank p hp)
    · simp only [ps, List.forall_mem_cons]
      exact ⟨.axis hchild, .name (.inr ⟨_, _, rfl, hlabel, hp⟩), .literal (.inr rfl) (by decide),
        hnumbers.1, hnumbers.2, nofun⟩
    · exact List.all_eq_true.mp (by decide)
  exact ⟨hwritten, tokens_readBack.2.1 ps ['\n'] hwritten (by decide)⟩

end XmlHarvest.XPath
