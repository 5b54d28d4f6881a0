/-
Sentences as a normal form.

A blank line ends a sentence whatever stands around it, so two texts with a blank line between them
have the sentences of the one and then those of the other (`sentences_append`).  A sentence that is
read again is one sentence, as no cut was left out in it (`sentences_of_mem`).  Main statement:
`punctuation_normalForm`.
-/
import XmlHarvest.Proofs.Text.Sentences

namespace XmlHarvest.Text

/-! ### Paragraphs between line feeds -/

theorem splitOnP_map {α β : Type} (f : α → β) (separator : β → Bool) (xs : List α) :
    (xs.map f).splitOnP separator = (xs.splitOnP (separator ∘ f)).map (List.map f) := by
  induction xs with
  | nil => rfl
  | cons x xs ih =>
    obtain ⟨first, others, hsplit⟩ :=
      List.exists_cons_of_ne_nil (List.splitOnP_ne_nil (separator ∘ f) xs)
    rw [List.map_cons, List.splitOnP_cons_eq_if_modifyHead, List.splitOnP_cons_eq_if_modifyHead, ih,
      hsplit]
    cases hx : separator (f x) <;> simp [hx]

/-- Runs are told apart by what an item is taken to. -/
theorem runs_map {α β : Type} (f : α → β) (separator : β → Bool) (xs : List α) :
    runs separator (xs.map f) = (runs (separator ∘ f) xs).map (List.map f) := by
  have hempty : (fun l : List β => !l.isEmpty) ∘ List.map f = fun l => !l.isEmpty := by
    funext l
    simp
  rw [runs, runs, splitOnP_map, List.filter_map, hempty]

/-- A line without words is a blank one. -/
theorem isEmpty_words (l : List Char) : (words l).isEmpty = l.all isBlank := by
  induction l with
  | nil => rfl
  | cons c l ih =>
    rw [words, runsBetween, List.all_cons]
    cases isBlank c with
    | true => simpa [words] using ih
    | false =>
      simp only [Bool.false_eq_true, if_false, Bool.false_and]
      split
      · unfold extendFirst
        split <;> rfl
      · rfl

/-- Of the lines of a text only the words count, and there are words only between the line feeds. -/
theorem sentencesByWords_eq_splitOn (cs : List Char) :
    sentencesByWords cs =
      (runs List.isEmpty ((cs.splitOn '\n').map words)).flatMap fun ws =>
        joinSentences ws.flatten := by
  have hblank : List.isEmpty ∘ words = fun l => l.all isBlank := funext isEmpty_words
  have hwords : (runs isBlank : List Char → _) = words := (funext words_eq_runs).symm
  have hlines : runs List.isEmpty ((cs.splitOn '\n').map words) =
      runs List.isEmpty ((cutLines cs).map words) := by
    obtain ⟨front, last, hsplit⟩ : ∃ front last, cs.splitOn '\n' = front ++ [last] :=
      ⟨_, _, (List.dropLast_concat_getLast (List.splitOn_ne_nil '\n' cs)).symm⟩
    have hreturn : words ∘ dropReturn = words := funext words_dropReturn
    rw [cutLines, hsplit, List.dropLast_concat, List.getLast?_concat, List.map_append,
      List.map_append, List.map_map, hreturn]
    -- Behind the last line feed there may be nothing, which is no line.
    cases last with
    | nil =>
      have hempty : (words []).isEmpty = true := rfl
      simpa using runs_append_cons hempty (front.map words) []
    | cons c last => rfl
  rw [hlines, runs_map, hblank, List.flatMap_map, sentencesByWords, hwords]
  rfl

/-! ### Texts with a blank line between them -/

theorem sentencesByWords_append (as bs : List Char) :
    sentencesByWords (as ++ '\n' :: '\n' :: bs) = sentencesByWords as ++ sentencesByWords bs := by
  have hsplit : (as ++ '\n' :: '\n' :: bs).splitOn '\n' =
      as.splitOn '\n' ++ [] :: bs.splitOn '\n' := by
    rw [List.splitOn_append_cons_self]
    exact congrArg _ (List.splitOn_append_cons_self_of_not_mem List.not_mem_nil bs)
  simp only [sentencesByWords_eq_splitOn]
  rw [hsplit, List.map_append, List.map_cons, words_nil, runs_append_cons rfl, List.flatMap_append]

/-- Texts with a blank line between them are cut apart from each other. -/
theorem sentences_append (a b : String) :
    sentences (a ++ "\n\n" ++ b) = sentences a ++ sentences b := by
  have hjoin : (a ++ "\n\n" ++ b).toList = a.toList ++ '\n' :: '\n' :: b.toList := by simp
  rw [sentences_eq, sentences_eq, sentences_eq, hjoin, sentencesByWords_append, List.map_append]

theorem sentences_intercalate (ss : List String) :
    sentences ("\n\n".intercalate ss) = ss.flatMap sentences := by
  induction ss with
  | nil => decide
  | cons s ss ih =>
    by_cases hss : ss = []
    · simp [hss]
    · rw [String.intercalate_cons_of_ne_nil hss, sentences_append, ih, List.flatMap_cons]

/-! ### Sentences of a sentence -/

theorem mem_of_mem_intercalate {b c : Char} {g : List (List Char)}
    (h : c ∈ List.intercalate [b] g) : c = b ∨ ∃ w ∈ g, c ∈ w := by
  induction g with
  | nil => cases h
  | cons w g ih =>
    by_cases hg : g = []
    · subst hg
      exact .inr ⟨w, List.mem_cons_self, by simpa using h⟩
    · rw [List.intercalate_cons_of_ne_nil hg, List.append_assoc, List.singleton_append,
        List.mem_append, List.mem_cons] at h
      rcases h with h | rfl | h
      · exact .inr ⟨w, List.mem_cons_self, h⟩
      · exact .inl rfl
      · obtain hc | ⟨v, hv, hc⟩ := ih h
        · exact .inl hc
        · exact .inr ⟨v, List.mem_cons_of_mem w hv, hc⟩

/-- Words of which none but the last ends a sentence are one sentence. -/
theorem sentencesByWords_intercalate {g : List (List Char)} (hne : g ≠ [])
    (hwords : ∀ w ∈ g, w ≠ [] ∧ ∀ c ∈ w, isBlank c = false)
    (hwhole : g.IsChain fun w _ => (!endsSentence w) = true) :
    sentencesByWords (List.intercalate [' '] g) = [List.intercalate [' '] g] := by
  have hfeed : '\n' ∉ List.intercalate [' '] g := by
    intro hmem
    obtain hc | ⟨w, hw, hc⟩ := mem_of_mem_intercalate hmem
    · cases hc
    · cases (hwords w hw).2 '\n' hc
  have hrun : runs List.isEmpty [g] = [[g]] := runs_of_forall (List.cons_ne_nil g []) (by simpa)
  rw [sentencesByWords_eq_splitOn, List.splitOn_eq_singleton hfeed, List.map_singleton,
    words_intercalate_words hwords, hrun]
  simp [joinSentences, List.splitBy_of_isChain hne hwhole]

/-- A sentence of a text is its own only sentence. -/
theorem sentences_of_mem {text s : String} (h : s ∈ sentences text) : sentences s = [s] := by
  rw [sentences_eq, List.mem_map] at h
  obtain ⟨cs, hcs, rfl⟩ := h
  obtain ⟨ls, -, hcs⟩ := List.mem_flatMap.mp hcs
  obtain ⟨g, hg, rfl⟩ := List.mem_map.mp hcs
  have hwords : ∀ w ∈ g, w ≠ [] ∧ ∀ c ∈ w, isBlank c = false := by
    intro w hw
    obtain ⟨l, -, hw⟩ := List.mem_flatMap.mp (mem_of_mem_splitBy hg hw)
    exact of_mem_runs hw
  rw [sentences_eq, String.toList_ofList, sentencesByWords_intercalate
    (List.ne_nil_of_mem_splitBy hg) hwords (List.isChain_of_mem_splitBy hg)]
  rfl

end XmlHarvest.Text

namespace XmlHarvest

open Text

/-- The tokenizer that goes by punctuation cuts texts with a blank line between them apart from each
other.  The sentences that it makes are final: each is its own only sentence, and with blank lines
between them they make a text that has exactly these sentences. -/
theorem Tokenizer.punctuation_normalForm :
    (∀ a b : String, ∃ ss ss', Tokenizer.punctuation a = .ok ss ∧ Tokenizer.punctuation b = .ok ss' ∧
        Tokenizer.punctuation (a ++ "\n\n" ++ b) = .ok (ss ++ ss')) ∧
      ∀ text : String, ∃ ss, Tokenizer.punctuation text = .ok ss ∧
        (∀ s ∈ ss, Tokenizer.punctuation s = .ok [s]) ∧
        Tokenizer.punctuation ("\n\n".intercalate ss) = .ok ss := by
  constructor
  · intro a b
    exact ⟨sentences a, sentences b, rfl, rfl, congrArg Except.ok (sentences_append a b)⟩
  · intro text
    have hsingle : ∀ s ∈ sentences text, sentences s = [s] := fun s hs => sentences_of_mem hs
    have hjoined : sentences ("\n\n".intercalate (sentences text)) = sentences text := by
      rw [sentences_intercalate, List.flatMap_congr hsingle, List.flatMap_singleton']
    exact ⟨sentences text, rfl, fun s hs => congrArg Except.ok (hsingle s hs),
      congrArg Except.ok hjoined⟩

end XmlHarvest
