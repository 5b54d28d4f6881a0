/-
The order of texts.

Texts are compared character by character.  A character has a UTF-8 form of one to four bytes, and
of two characters the smaller one has the smaller form, whatever follows either of them.  So
comparing texts is comparing the bytes they are written in.  Main statement: `bytes_lt_bytes_iff`.
-/
import Mathlib.Data.String.Basic

namespace XmlHarvest.Text

/-- The bytes of the UTF-8 form of a text. -/
def bytes (s : String) : List UInt8 := s.toUTF8.data.toList

theorem bytes_eq_flatMap (s : String) : bytes s = s.toList.flatMap String.utf8EncodeChar := by
  rw [bytes, String.toUTF8_eq_toByteArray, ← String.utf8Encode_toList, List.utf8Encode,
    List.toList_data_toByteArray]

/-! ### Characters -/

/-- The form of a character: its number is cut into digits, the lower ones below 64, and the size of
the number says how many bytes there are. -/
theorem utf8EncodeChar_cases (c : Char) :
    (c.toNat < 128 ∧ String.utf8EncodeChar c = [UInt8.ofNat c.toNat]) ∨
    (∃ a b, a < 32 ∧ b < 64 ∧ c.toNat = 64 * a + b ∧ 128 ≤ c.toNat ∧
      String.utf8EncodeChar c = [UInt8.ofNat (a + 192), UInt8.ofNat (b + 128)]) ∨
    (∃ a b d, a < 16 ∧ b < 64 ∧ d < 64 ∧ c.toNat = 4096 * a + 64 * b + d ∧ 2048 ≤ c.toNat ∧
      String.utf8EncodeChar c =
        [UInt8.ofNat (a + 224), UInt8.ofNat (b + 128), UInt8.ofNat (d + 128)]) ∨
    (∃ a b d e, a < 8 ∧ b < 64 ∧ d < 64 ∧ e < 64 ∧
      c.toNat = 262144 * a + 4096 * b + 64 * d + e ∧ 65536 ≤ c.toNat ∧
      String.utf8EncodeChar c = [UInt8.ofNat (a + 240), UInt8.ofNat (b + 128),
        UInt8.ofNat (d + 128), UInt8.ofNat (e + 128)]) := by
  have hlt : c.toNat < 1114112 := c.valid.elim (fun h => Nat.lt_trans h (by decide)) fun h => h.2
  simp only [String.utf8EncodeChar, Char.toNat] at hlt ⊢
  generalize c.val.toNat = n at hlt ⊢
  by_cases h1 : n ≤ 127
  · exact .inl ⟨by omega, if_pos h1⟩
  rw [if_neg h1]
  by_cases h2 : n ≤ 2047
  · exact .inr (.inl ⟨n / 64 % 32, n % 64, by omega, by omega, by omega, by omega, if_pos h2⟩)
  rw [if_neg h2]
  by_cases h3 : n ≤ 65535
  · exact .inr (.inr (.inl ⟨n / 4096 % 16, n / 64 % 64, n % 64, by omega, by omega, by omega,
      by omega, by omega, if_pos h3⟩))
  · exact .inr (.inr (.inr ⟨n / 262144 % 8, n / 4096 % 64, n / 64 % 64, n % 64, by omega,
      by omega, by omega, by omega, by omega, by omega, if_neg h3⟩))

theorem cons_ofNat_lt_cons_ofNat_iff {m n : Nat} (hm : m < 256) (hn : n < 256)
    {xs ys : List UInt8} :
    UInt8.ofNat m :: xs < UInt8.ofNat n :: ys ↔ m < n ∨ m = n ∧ xs < ys := by
  rw [List.cons_lt_cons_iff, UInt8.ofNat_lt_iff_lt hm hn, ← UInt8.toNat_inj,
    UInt8.toNat_ofNat_of_lt' hm, UInt8.toNat_ofNat_of_lt' hn]

/-- The form of the smaller one of two characters comes first, whatever follows them. -/
theorem utf8EncodeChar_append_lt {c d : Char} (h : c < d) (xs ys : List UInt8) :
    String.utf8EncodeChar c ++ xs < String.utf8EncodeChar d ++ ys := by
  have hlt : c.toNat < d.toNat := h
  rcases utf8EncodeChar_cases c with ⟨_, hc⟩ | ⟨_, _, _, _, _, _, hc⟩ |
      ⟨_, _, _, _, _, _, _, _, hc⟩ | ⟨_, _, _, _, _, _, _, _, _, _, hc⟩ <;>
    rcases utf8EncodeChar_cases d with ⟨_, hd⟩ | ⟨_, _, _, _, _, _, hd⟩ |
      ⟨_, _, _, _, _, _, _, _, hd⟩ | ⟨_, _, _, _, _, _, _, _, _, _, hd⟩ <;>
    rw [hc, hd] <;>
    clear hc hd <;>
    simp (disch := omega) only [List.cons_append, List.nil_append, cons_ofNat_lt_cons_ofNat_iff] <;>
    omega

/-! ### Texts -/

theorem flatMap_utf8EncodeChar_lt {cs ds : List Char} (h : cs < ds) :
    cs.flatMap String.utf8EncodeChar < ds.flatMap String.utf8EncodeChar := by
  induction cs generalizing ds with
  | nil =>
    cases ds with
    | nil => exact absurd h (List.not_lt_nil _)
    | cons d ds =>
      obtain ⟨b, bs, hd⟩ := List.exists_cons_of_ne_nil (String.utf8EncodeChar_ne_nil (c := d))
      rw [List.flatMap_nil, List.flatMap_cons, hd]
      exact List.nil_lt_cons _ _
  | cons c cs ih =>
    cases ds with
    | nil => exact absurd h (List.not_lt_nil _)
    | cons d ds =>
      rw [List.flatMap_cons, List.flatMap_cons]
      rcases List.cons_lt_cons_iff.mp h with hcd | ⟨rfl, hrest⟩
      · exact utf8EncodeChar_append_lt hcd _ _
      · exact List.append_left_lt (ih hrest)

/-- Of two texts the one comes first whose bytes come first. -/
theorem bytes_lt_bytes_iff {s t : String} : bytes s < bytes t ↔ s < t := by
  have hmono : ∀ {s t : String}, s < t → bytes s < bytes t := fun {s t} h => by
    rw [bytes_eq_flatMap, bytes_eq_flatMap]
    exact flatMap_utf8EncodeChar_lt h
  refine ⟨fun h => ?_, hmono⟩
  by_contra hst
  rcases eq_or_ne s t with rfl | hne
  · exact List.lt_irrefl _ h
  · exact List.lt_asymm h (hmono (Std.lt_of_le_of_ne (String.not_lt.mp hst) hne.symm))

end XmlHarvest.Text
