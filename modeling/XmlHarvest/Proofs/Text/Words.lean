/-
Words, lines, and what cutting a text leaves of its words.

The words of a text are its longest runs of characters that are no blanks (`words_eq_runs`), and its
lines are what its line feeds leave (`lines_eq_cutLines`).  Runs are cut at every separator
(`runs_append_cons`).  From this one law it follows that neither trimming a text, nor cutting it
into lines, nor joining texts by blanks changes which words there are and in which order they stand
(`words_trimChars`, `flatMap_words_lines`, `words_intercalate`).
-/
import XmlHarvest.Text.Basic
import Mathlib.Data.List.DropRight

namespace XmlHarvest.Text

variable {α : Type}

/-! ### Runs -/

/-- Items of a kind, and then others: they are cut where the kind changes. -/
theorem cut_append {kind : α → Bool} {xs r : List α} (h : ∀ x ∈ xs, kind x = true)
    (hr : ∀ x ∈ r.head?, kind x = false) :
    (xs ++ r).takeWhile kind = xs ∧ (xs ++ r).dropWhile kind = r := by
  rw [List.takeWhile_append_of_pos h, List.dropWhile_append_of_pos h]
  cases r with
  | nil => simp
  | cons x r => simp [hr x rfl]

/-- The longest runs of items that are no separators, in order. -/
def runs (separator : α → Bool) (xs : List α) : List (List α) :=
  (xs.splitOnP separator).filter (!·.isEmpty)

section Runs

variable {separator : α → Bool}

@[simp] theorem runs_nil : runs separator [] = [] := rfl

/-- Runs are cut at every separator. -/
theorem runs_append_cons {s : α} (h : separator s = true) (xs ys : List α) :
    runs separator (xs ++ s :: ys) = runs separator xs ++ runs separator ys := by
  rw [runs, List.splitOnP_append_cons xs ys h, List.filter_append]
  rfl

theorem runs_cons_separator {s : α} (h : separator s = true) (xs : List α) :
    runs separator (s :: xs) = runs separator xs :=
  runs_append_cons h [] xs

/-- Items that are no separators are one run. -/
theorem runs_of_forall {xs : List α} (hne : xs ≠ []) (h : ∀ x ∈ xs, separator x = false) :
    runs separator xs = [xs] := by
  rw [runs, List.splitOnP_eq_singleton h]
  simp [hne]

/-- No run holds a separator, and none is empty. -/
theorem of_mem_runs {xs w : List α} (h : w ∈ runs separator xs) :
    w ≠ [] ∧ ∀ x ∈ w, separator x = false := by
  obtain ⟨hw, hne⟩ := List.mem_filter.mp h
  refine ⟨by simpa using hne, ?_⟩
  clear h hne
  induction xs generalizing w with
  | nil => simp_all
  | cons x xs ih =>
    obtain ⟨first, others, hsplit⟩ :=
      List.exists_cons_of_ne_nil (List.splitOnP_ne_nil separator xs)
    rw [List.splitOnP_cons_eq_if_modifyHead] at hw
    cases hx : separator x with
    | true =>
      rw [if_pos hx] at hw
      rcases List.mem_cons.mp hw with rfl | hw
      · exact List.forall_mem_nil _
      · exact ih hw
    | false =>
      -- The item stands in the first piece, whose others are those of the rest.
      simp only [hx, Bool.false_eq_true, if_false, hsplit, List.modifyHead_cons,
        List.mem_cons] at hw
      rcases hw with rfl | hw
      · exact List.forall_mem_cons.mpr ⟨hx, ih (by simp [hsplit])⟩
      · exact ih (by simp [hsplit, hw])

end Runs

theorem extendFirst_eq_modifyHead (c : Char) {ws : List (List Char)} (h : ws ≠ []) :
    extendFirst c ws = ws.modifyHead (List.cons c) := by
  obtain ⟨w, ws, rfl⟩ := List.exists_cons_of_ne_nil h
  rfl

/-- The runs that are read character by character are those between the separators. -/
theorem runsBetween_eq_runs (separator : Char → Bool) (cs : List Char) :
    runsBetween separator cs = runs separator cs := by
  induction cs with
  | nil => rfl
  | cons c cs ih =>
    rw [runsBetween, ih]
    cases hc : separator c with
    | true => simp [runs_cons_separator hc]
    | false =>
      cases cs with
      | nil => simp [runs_of_forall (List.cons_ne_nil c []) (by simpa using hc)]
      | cons d cs =>
        obtain ⟨first, others, hsplit⟩ :=
          List.exists_cons_of_ne_nil (List.splitOnP_ne_nil separator cs)
        cases hd : separator d with
        | true => simp [hd, hc, runs, List.splitOnP_cons_eq_if_modifyHead]
        | false => simp [hd, hc, hsplit, runs, List.splitOnP_cons_eq_if_modifyHead, extendFirst]

/-! ### Words -/

theorem words_eq_runs (cs : List Char) : words cs = runs isBlank cs :=
  runsBetween_eq_runs isBlank cs

@[simp] theorem words_nil : words [] = [] := rfl

/-- A word is not empty and holds no blank. -/
theorem mem_words {cs w : List Char} (h : w ∈ words cs) :
    w ≠ [] ∧ ∀ c ∈ w, isBlank c = false := by
  rw [words_eq_runs] at h
  exact of_mem_runs h

/-- Words are cut at every blank. -/
theorem words_append_cons {b : Char} (h : isBlank b = true) (xs ys : List Char) :
    words (xs ++ b :: ys) = words xs ++ words ys := by
  simp only [words_eq_runs, runs_append_cons h]

/-- Blanks in front of a text belong to no word. -/
theorem words_append_left {bs : List Char} (h : ∀ b ∈ bs, isBlank b = true) (cs : List Char) :
    words (bs ++ cs) = words cs := by
  induction bs with
  | nil => rfl
  | cons b bs ih =>
    obtain ⟨hb, hbs⟩ := List.forall_mem_cons.mp h
    show words ([] ++ b :: (bs ++ cs)) = words cs
    rw [words_append_cons hb, ih hbs, words_nil, List.nil_append]

/-- Blanks behind a text belong to no word. -/
theorem words_append_right {bs : List Char} (h : ∀ b ∈ bs, isBlank b = true) (cs : List Char) :
    words (cs ++ bs) = words cs := by
  cases bs with
  | nil => rw [List.append_nil]
  | cons b bs =>
    obtain ⟨hb, hbs⟩ := List.forall_mem_cons.mp h
    have hblank := words_append_left hbs []
    rw [List.append_nil, words_nil] at hblank
    rw [words_append_cons hb, hblank, List.append_nil]

theorem words_eq_nil {bs : List Char} (h : ∀ b ∈ bs, isBlank b = true) : words bs = [] := by
  simpa using words_append_left h []

/-- A text without blanks is one word. -/
theorem words_of_forall {w : List Char} (hne : w ≠ []) (h : ∀ c ∈ w, isBlank c = false) :
    words w = [w] := by
  rw [words_eq_runs, runs_of_forall hne h]

/-- A text is trimmed at both ends of the words in it. -/
theorem words_trimChars (cs : List Char) : words (trimChars cs) = words cs := by
  have hfront := List.takeWhile_append_dropWhile (p := isBlank) (l := cs)
  have hback := List.rdropWhile_append_rtakeWhile (p := isBlank) (l := cs.dropWhile isBlank)
  calc words (trimChars cs)
      = words ((cs.dropWhile isBlank).rdropWhile isBlank ++
          (cs.dropWhile isBlank).rtakeWhile isBlank) :=
        (words_append_right (fun b hb => List.mem_rtakeWhile_imp hb) _).symm
    _ = words (cs.takeWhile isBlank ++ cs.dropWhile isBlank) := by
        rw [hback, words_append_left fun b hb => List.mem_takeWhile_imp hb]
    _ = words cs := by rw [hfront]

/-- Joining texts by a blank joins their words. -/
theorem words_intercalate {b : Char} (h : isBlank b = true) (ls : List (List Char)) :
    words (List.intercalate [b] ls) = ls.flatMap words := by
  induction ls with
  | nil => rfl
  | cons l ls ih =>
    by_cases hls : ls = []
    · simp [hls]
    · rw [List.intercalate_cons_of_ne_nil hls, List.append_assoc, List.singleton_append,
        words_append_cons h, ih, List.flatMap_cons]

/-! ### Lines -/

/-- A line without the carriage return at its end. -/
def dropReturn (l : List Char) : List Char :=
  if l.getLast? = some '\r' then l.dropLast else l

/-- A text cut at its line feeds.  A line that ends in a line feed loses one carriage return before
it, and behind the last line feed there is a line only if something stands there. -/
def cutLines (cs : List Char) : List (List Char) :=
  (cs.splitOn '\n').dropLast.map dropReturn ++ (cs.splitOn '\n').getLast?.toList.filter (!·.isEmpty)

theorem cutLines_append_feed {l : List Char} (h : '\n' ∉ l) (cs : List Char) :
    cutLines (l ++ '\n' :: cs) = dropReturn l :: cutLines cs := by
  obtain ⟨first, others, hsplit⟩ := List.exists_cons_of_ne_nil (List.splitOn_ne_nil '\n' cs)
  simp [cutLines, List.splitOn_append_cons_self_of_not_mem h, hsplit]

theorem cutLines_of_not_mem {l : List Char} (h : '\n' ∉ l) :
    cutLines l = [l].filter (!·.isEmpty) := by
  simp [cutLines, List.splitOn_eq_singleton h]

theorem lines_cons {c : Char} {cs : List Char} (hc : c ≠ '\n')
    (hreturn : c = '\r' → cs.head? ≠ some '\n') : lines (c :: cs) = extendFirst c (lines cs) := by
  rw [lines]
  · exact hc
  · rintro ds rfl rfl
    exact hreturn rfl rfl

theorem dropReturn_cons {c : Char} {l : List Char} (h : c = '\r' → l ≠ []) :
    dropReturn (c :: l) = c :: dropReturn l := by
  cases l with
  | nil => simp [dropReturn, show c ≠ '\r' from fun hc => h hc rfl]
  | cons d l => simp [dropReturn, List.getLast?_cons_cons, apply_ite (List.cons c)]

theorem lines_append_feed {l : List Char} (h : '\n' ∉ l) (cs : List Char) :
    lines (l ++ '\n' :: cs) = dropReturn l :: lines cs := by
  induction l with
  | nil => rfl
  | cons c l ih =>
    obtain ⟨hc, hl⟩ : '\n' ≠ c ∧ '\n' ∉ l := by simpa using h
    by_cases hreturn : c = '\r' ∧ l = []
    · obtain ⟨rfl, rfl⟩ := hreturn
      rfl
    · have hne : c = '\r' → l ≠ [] := fun hc hl => hreturn ⟨hc, hl⟩
      have hhead : c = '\r' → (l ++ '\n' :: cs).head? ≠ some '\n' := by
        intro hc
        obtain ⟨d, l, rfl⟩ := List.exists_cons_of_ne_nil (hne hc)
        have hd : '\n' ≠ d := List.ne_of_not_mem_cons hl
        simpa using hd.symm
      rw [List.cons_append, lines_cons hc.symm hhead, ih hl, dropReturn_cons hne]
      rfl

theorem lines_of_not_mem {l : List Char} (h : '\n' ∉ l) : lines l = [l].filter (!·.isEmpty) := by
  induction l with
  | nil => rfl
  | cons c l ih =>
    obtain ⟨hc, hl⟩ : '\n' ≠ c ∧ '\n' ∉ l := by simpa using h
    have hhead : c = '\r' → l.head? ≠ some '\n' := fun _ hhead => hl (List.mem_of_head? hhead)
    rw [lines_cons hc.symm hhead, ih hl]
    cases l <;> rfl

/-- Induction along the lines of a text. -/
theorem feed_induction {P : List Char → Prop} (last : ∀ l, '\n' ∉ l → P l)
    (line : ∀ l cs, '\n' ∉ l → P cs → P (l ++ '\n' :: cs)) (cs : List Char) : P cs := by
  induction hn : cs.length using Nat.strongRecOn generalizing cs with
  | ind n ih =>
    by_cases hfeed : '\n' ∈ cs
    · obtain ⟨l, rest, rfl, hl⟩ := List.eq_append_cons_of_mem hfeed
      have hlt : rest.length < n := by
        simp only [List.length_append, List.length_cons] at hn
        omega
      exact line l rest hl (ih _ hlt rest rfl)
    · exact last cs hfeed

/-- The lines that are read character by character are those between the line feeds. -/
theorem lines_eq_cutLines (cs : List Char) : lines cs = cutLines cs := by
  induction cs using feed_induction with
  | last l hl => rw [lines_of_not_mem hl, cutLines_of_not_mem hl]
  | line l cs hl ih => rw [lines_append_feed hl, cutLines_append_feed hl, ih]

theorem words_dropReturn (l : List Char) : words (dropReturn l) = words l := by
  unfold dropReturn
  split
  · next h =>
    obtain ⟨l, rfl⟩ := List.getLast?_eq_some_iff.mp h
    have hreturn : ∀ b ∈ ['\r'], isBlank b = true := List.forall_mem_singleton.mpr (by decide)
    rw [List.dropLast_concat, words_append_right hreturn]
  · rfl

/-- The words of the lines of a text are the words of the text. -/
theorem flatMap_words_lines (cs : List Char) : (lines cs).flatMap words = words cs := by
  induction cs using feed_induction with
  | last l hl =>
    rw [lines_of_not_mem hl]
    cases l <;> simp
  | line l cs hl ih =>
    rw [lines_append_feed hl, List.flatMap_cons, ih, words_dropReturn, words_append_cons (by decide)]

end XmlHarvest.Text
