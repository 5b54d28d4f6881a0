/-
Sentences by words.

`sentencesByWords` says what the sentences of a text are without reading it character by character:
the lines that are not blank form paragraphs, and the words of a paragraph are cut behind every word
that ends a sentence, which its last characters tell.  Reading a text gives these sentences, and
neither loses nor moves a word.  Main statement: `punctuation_byWords`.
-/
import XmlHarvest.Harvest.Tools
import XmlHarvest.Proofs.Text.Words
import Mathlib.Data.List.SplitBy

namespace XmlHarvest.Text

/-! ### Sentences by words -/

/-- A word ends a sentence if there is a terminator among the terminators and closing marks at its
end. -/
def endsSentence (w : List Char) : Bool :=
  (w.rtakeWhile fun c => isTerminator c || isCloser c).any isTerminator

/-- Words cut behind each that ends a sentence, and joined by single spaces. -/
def joinSentences (ws : List (List Char)) : List (List Char) :=
  (ws.splitBy fun w _ => !endsSentence w).map (List.intercalate [' '])

/-- The sentences of a text: the longest runs of lines that are not blank are its paragraphs, and the
words of a paragraph make its sentences. -/
def sentencesByWords (cs : List Char) : List (List Char) :=
  (runs (·.all isBlank) (cutLines cs)).flatMap fun ls =>
    joinSentences (ls.flatMap (runs isBlank))

/-! ### Paragraphs -/

theorem paragraphs_ne_nil (ls : List (List Char)) : paragraphs ls ≠ [] := by
  unfold paragraphs
  split
  · exact List.cons_ne_nil _ _
  · split
    · exact List.cons_ne_nil _ _
    · split <;> exact List.cons_ne_nil _ _

/-- The words of the paragraphs are those of the lines between the blank lines. -/
theorem map_words_paragraphs (ls : List (List Char)) :
    (paragraphs ls).map words =
      (ls.splitOnP fun l => l.all isBlank).map fun ls => ls.flatMap words := by
  induction ls with
  | nil => rfl
  | cons l ls ih =>
    rw [paragraphs, List.splitOnP_cons_eq_if_modifyHead]
    split
    · simp [ih]
    · obtain ⟨p, ps, hps⟩ := List.exists_cons_of_ne_nil (paragraphs_ne_nil ls)
      obtain ⟨first, others, hsplit⟩ :=
        List.exists_cons_of_ne_nil (List.splitOnP_ne_nil (fun l : List Char => l.all isBlank) ls)
      rw [hps, hsplit] at ih ⊢
      obtain ⟨hfirst, hothers⟩ := List.cons.inj ih
      have hline : words (l ++ '\n' :: p) = words l ++ words p := words_append_cons (by decide) l p
      simp [hline, hfirst, hothers]

/-! ### Pieces -/

theorem pieces_ne_nil (ended : Bool) (cs : List Char) : pieces ended cs ≠ [] := by
  cases cs with
  | nil => exact List.cons_ne_nil _ _
  | cons c cs =>
    unfold pieces extendFirst
    split
    · exact List.cons_ne_nil _ _
    · split <;> exact List.cons_ne_nil _ _

/-- Whether the characters just before form the end of a sentence, once `w` has been read. -/
def endedAfter (ended : Bool) (w : List Char) : Bool :=
  w.foldl (fun ended c => isTerminator c || (ended && isCloser c)) ended

/-- Reading a word tells whether it ends a sentence. -/
theorem endedAfter_eq_endsSentence (w : List Char) : endedAfter false w = endsSentence w := by
  induction w using List.reverseRecOn with
  | nil => rfl
  | append_singleton w c ih =>
    have hstep : endedAfter false (w ++ [c]) =
        (isTerminator c || (endedAfter false w && isCloser c)) := by
      simp [endedAfter]
    rw [hstep, ih, endsSentence, endsSentence, List.rtakeWhile_concat]
    cases ht : isTerminator c <;> cases hc : isCloser c <;> simp [ht]

/-- No cut is made within a word. -/
theorem pieces_append {w : List Char} (h : ∀ c ∈ w, isBlank c = false) (ended : Bool)
    (cs : List Char) :
    pieces ended (w ++ cs) = (pieces (endedAfter ended w) cs).modifyHead (w ++ ·) := by
  induction w generalizing ended with
  | nil => exact (congrFun List.modifyHead_id _).symm
  | cons c w ih =>
    obtain ⟨hc, hw⟩ := List.forall_mem_cons.mp h
    rw [List.cons_append, pieces, hc, Bool.and_false, if_neg Bool.false_ne_true,
      extendFirst_eq_modifyHead c (pieces_ne_nil _ _), ih hw, List.modifyHead_modifyHead]
    rfl

/-- A cut is made at the space behind a word exactly when the word ends a sentence. -/
theorem pieces_word_space {w : List Char} (h : ∀ c ∈ w, isBlank c = false) (cs : List Char) :
    pieces false (w ++ ' ' :: cs) =
      if endsSentence w then w :: (pieces false cs).modifyHead (List.cons ' ')
      else (pieces false cs).modifyHead fun p => w ++ ' ' :: p := by
  have hblank : isBlank ' ' = true := by decide
  have hmark : isTerminator ' ' = false ∧ isCloser ' ' = false := by decide
  rw [pieces_append h, endedAfter_eq_endsSentence, pieces, hblank, Bool.and_true, hmark.1, hmark.2,
    Bool.and_false, Bool.or_false, extendFirst_eq_modifyHead ' ' (pieces_ne_nil _ _)]
  split
  · simp
  · rw [List.modifyHead_modifyHead]
    rfl

/-! ### Cutting a list behind some of its items -/

/-- The first item goes with the second, or alone. -/
theorem splitBy_cons_cons {α : Type} {r : α → α → Bool} (a b : α) (l : List α) :
    (a :: b :: l).splitBy r =
      if r a b then ((b :: l).splitBy r).modifyHead (List.cons a)
      else [a] :: (b :: l).splitBy r := by
  split
  · next hr =>
    obtain ⟨g, gs, hsplit⟩ : ∃ g gs, (b :: l).splitBy r = g :: gs :=
      List.exists_cons_of_ne_nil (List.splitBy_ne_nil.mpr (List.cons_ne_nil b l))
    obtain ⟨hflat, hne, hchain, hcuts⟩ := List.splitBy_eq_iff.mp hsplit
    obtain ⟨c, g, rfl⟩ := List.exists_cons_of_ne_nil (List.ne_of_not_mem_cons hne).symm
    obtain ⟨rfl, hrest⟩ : b = c ∧ l = g ++ gs.flatten := by simpa using hflat
    rw [hsplit, List.modifyHead_cons, List.splitBy_eq_iff]
    refine ⟨by simp [hrest], by simpa using hne, ?_, ?_⟩
    · obtain ⟨hfirst, hothers⟩ := List.forall_mem_cons.mp hchain
      exact List.forall_mem_cons.mpr ⟨List.isChain_cons_cons.mpr ⟨hr, hfirst⟩, hothers⟩
    · cases gs with
      | nil => exact List.isChain_singleton _
      | cons g' gs =>
        obtain ⟨⟨_, hb, hcut⟩, hcuts⟩ := List.isChain_cons_cons.mp hcuts
        refine List.isChain_cons_cons.mpr ⟨⟨List.cons_ne_nil _ _, hb, ?_⟩, hcuts⟩
        rwa [List.getLast_cons_cons]
  · next hr =>
    have hcut : ∀ x ∈ [a].getLast?, r x b = false := by simpa using hr
    exact List.splitBy_append_cons l hcut

/-! ### Sentences of a paragraph -/

@[simp] theorem joinSentences_singleton (w : List Char) : joinSentences [w] = [w] := by
  simp [joinSentences, List.splitBy, List.splitBy.loop]

theorem joinSentences_ne_nil (w : List Char) (ws : List (List Char)) :
    joinSentences (w :: ws) ≠ [] := by
  simp [joinSentences]

theorem joinSentences_cons_cons (w v : List Char) (ws : List (List Char)) :
    joinSentences (w :: v :: ws) =
      if endsSentence w then w :: joinSentences (v :: ws)
      else (joinSentences (v :: ws)).modifyHead fun s => w ++ ' ' :: s := by
  obtain ⟨g, gs, hsplit⟩ : ∃ g gs, (v :: ws).splitBy (fun w _ => !endsSentence w) = g :: gs :=
    List.exists_cons_of_ne_nil (List.splitBy_ne_nil.mpr (List.cons_ne_nil v ws))
  have hne : g ≠ [] := List.ne_nil_of_mem_splitBy (hsplit ▸ List.mem_cons_self)
  cases hw : endsSentence w <;>
    simp [joinSentences, splitBy_cons_cons, hsplit, hw, List.intercalate_cons_of_ne_nil hne]

/-- The pieces of words joined by spaces are the sentences of the words, with a space in front of
each but the first. -/
theorem pieces_intercalate {w : List Char} {ws : List (List Char)}
    (h : ∀ v ∈ w :: ws, ∀ c ∈ v, isBlank c = false) :
    ∃ s ss, joinSentences (w :: ws) = s :: ss ∧
      pieces false (List.intercalate [' '] (w :: ws)) = s :: ss.map (List.cons ' ') := by
  induction ws generalizing w with
  | nil =>
    have hword := pieces_append (List.forall_mem_cons.mp h).1 false []
    rw [List.append_nil] at hword
    exact ⟨w, [], by simp, by simp [hword, pieces]⟩
  | cons v ws ih =>
    obtain ⟨hw, hws⟩ := List.forall_mem_cons.mp h
    obtain ⟨s, ss, hjoin, hpieces⟩ := ih hws
    rw [List.intercalate_cons_of_ne_nil (List.cons_ne_nil v ws), List.append_assoc,
      List.singleton_append, pieces_word_space hw, hpieces, joinSentences_cons_cons, hjoin]
    split
    · exact ⟨w, s :: ss, rfl, rfl⟩
    · exact ⟨_, ss, rfl, rfl⟩

/-- A text with something in it and no blank at an end. -/
structure Tight (cs : List Char) : Prop where
  nonempty : cs ≠ []
  first : ∀ c ∈ cs.head?, isBlank c = false
  last : ∀ c ∈ cs.getLast?, isBlank c = false

namespace Tight

theorem of_forall {w : List Char} (hne : w ≠ []) (h : ∀ c ∈ w, isBlank c = false) : Tight w :=
  ⟨hne, fun c hc => h c (List.mem_of_head? hc), fun c hc => h c (List.mem_of_getLast? hc)⟩

theorem append_space {w s : List Char} (hw : Tight w) (hs : Tight s) : Tight (w ++ ' ' :: s) := by
  obtain ⟨c, w, rfl⟩ := List.exists_cons_of_ne_nil hw.nonempty
  obtain ⟨d, s, rfl⟩ := List.exists_cons_of_ne_nil hs.nonempty
  refine ⟨List.cons_ne_nil _ _, hw.first, ?_⟩
  rw [List.getLast?_append_of_ne_nil _ (List.cons_ne_nil _ _), List.getLast?_cons_cons]
  exact hs.last

/-- Nothing is trimmed where no blank stands at an end. -/
theorem trimChars_eq {cs : List Char} (h : Tight cs) : trimChars cs = cs := by
  have hfront : cs.dropWhile isBlank = cs := by
    obtain ⟨c, cs, rfl⟩ := List.exists_cons_of_ne_nil h.nonempty
    simp [h.first c rfl]
  show (cs.dropWhile isBlank).rdropWhile isBlank = cs
  rw [hfront, List.rdropWhile_eq_self_iff]
  intro hne
  simp [h.last _ (List.getLast?_eq_some_getLast hne)]

end Tight

/-- The sentences of words have no blank at an end. -/
theorem tight_of_mem_joinSentences {ws : List (List Char)}
    (h : ∀ w ∈ ws, w ≠ [] ∧ ∀ c ∈ w, isBlank c = false) : ∀ s ∈ joinSentences ws, Tight s := by
  induction ws with
  | nil => exact List.forall_mem_nil _
  | cons w ws ih =>
    obtain ⟨⟨hne, hw⟩, hws⟩ := List.forall_mem_cons.mp h
    have htight : Tight w := .of_forall hne hw
    cases ws with
    | nil => simpa using htight
    | cons v ws =>
      rw [joinSentences_cons_cons]
      split
      · exact List.forall_mem_cons.mpr ⟨htight, ih hws⟩
      · intro s hs
        obtain ⟨first, others, hjoin⟩ := List.exists_cons_of_ne_nil (joinSentences_ne_nil v ws)
        rw [hjoin] at hs ih
        obtain ⟨hfirst, hothers⟩ := List.forall_mem_cons.mp (ih hws)
        rcases List.mem_cons.mp hs with rfl | hs
        · exact htight.append_space hfirst
        · exact hothers s hs

/-- The sentences of a paragraph are those of its words. -/
theorem paragraphSentences_eq (p : List Char) : paragraphSentences p = joinSentences (words p) := by
  have hwords : ∀ w ∈ words p, w ≠ [] ∧ ∀ c ∈ w, isBlank c = false := fun w hw => mem_words hw
  have htight := tight_of_mem_joinSentences hwords
  rw [paragraphSentences, squeeze]
  generalize words p = ws at hwords htight
  cases ws with
  | nil => rfl
  | cons w ws =>
    obtain ⟨s, ss, hjoin, hpieces⟩ := pieces_intercalate fun v hv => (hwords v hv).2
    rw [hjoin] at htight ⊢
    -- Trimming removes the spaces that the cuts have left in front.
    have htrim : (s :: ss.map (List.cons ' ')).map trimChars = s :: ss := by
      obtain ⟨hs, hss⟩ := List.forall_mem_cons.mp htight
      have hspace : ∀ t ∈ ss, trimChars (' ' :: t) = t := fun t ht => (hss t ht).trimChars_eq
      rw [List.map_cons, hs.trimChars_eq, List.map_map]
      exact congrArg (s :: ·) ((List.map_congr_left hspace).trans (List.map_id ss))
    rw [hpieces, htrim, List.filter_eq_self]
    intro t ht
    simpa using (htight t ht).nonempty

/-! ### Sentences of a text -/

theorem flatMap_filter_of_nil {α β : Type} {p : α → Bool} {f : α → List β} {xs : List α}
    (h : ∀ x ∈ xs, p x = false → f x = []) : (xs.filter p).flatMap f = xs.flatMap f := by
  induction xs with
  | nil => rfl
  | cons x xs ih =>
    obtain ⟨hx, hxs⟩ := List.forall_mem_cons.mp h
    cases hp : p x with
    | true => simp [hp, ih hxs]
    | false => simp [hp, ih hxs, hx hp]

/-- The sentences of a text are those by words. -/
theorem sentences_eq (text : String) :
    sentences text = (sentencesByWords text.toList).map String.ofList := by
  have hparagraphs : (paragraphs (lines text.toList)).flatMap paragraphSentences =
      ((paragraphs (lines text.toList)).map words).flatMap joinSentences := by
    rw [List.flatMap_map]
    exact List.flatMap_congr fun p _ => paragraphSentences_eq p
  have hwords : (words : List Char → _) = runs isBlank := funext words_eq_runs
  -- Where two blank lines meet there is an empty run, which makes no sentence.
  rw [sentences, hparagraphs, map_words_paragraphs, sentencesByWords, runs, lines_eq_cutLines,
    hwords, List.flatMap_map, flatMap_filter_of_nil]
  intro ls _ hempty
  obtain rfl : ls = [] := by simpa using hempty
  rfl

example : (sentencesByWords "Go.\" It is 3.5 (now?)\r\n\r\nEnd".toList).map String.ofList =
    ["Go.\"", "It is 3.5 (now?)", "End"] := by decide

/-! ### Words of the sentences -/

theorem flatMap_words_paragraphs (ls : List (List Char)) :
    (paragraphs ls).flatMap words = ls.flatMap words := by
  induction ls with
  | nil => rfl
  | cons l ls ih =>
    rw [paragraphs, List.flatMap_cons, ← ih]
    split
    · next hblank =>
      rw [words_eq_nil (List.all_eq_true.mp hblank)]
      rfl
    · obtain ⟨p, ps, hps⟩ := List.exists_cons_of_ne_nil (paragraphs_ne_nil ls)
      have hline : words (l ++ '\n' :: p) = words l ++ words p := words_append_cons (by decide) l p
      rw [hps, List.flatMap_cons, hline, List.flatMap_cons, List.append_assoc]

/-- Joining words by spaces keeps the words in their order. -/
theorem words_intercalate_words {ws : List (List Char)}
    (h : ∀ w ∈ ws, w ≠ [] ∧ ∀ c ∈ w, isBlank c = false) :
    words (List.intercalate [' '] ws) = ws := by
  have hword : ∀ w ∈ ws, words w = [w] := fun w hw => words_of_forall (h w hw).1 (h w hw).2
  rw [words_intercalate (by decide), List.flatMap_congr hword, List.flatMap_singleton']

/-- The groups that a list is cut into hold its items only. -/
theorem mem_of_mem_splitBy {α : Type} {r : α → α → Bool} {xs g : List α} {x : α}
    (hg : g ∈ xs.splitBy r) (hx : x ∈ g) : x ∈ xs := by
  rw [← List.flatten_splitBy r xs]
  exact List.mem_flatten.mpr ⟨g, hg, hx⟩

/-- Joining words to sentences keeps the words in their order. -/
theorem flatMap_words_joinSentences {ws : List (List Char)}
    (h : ∀ w ∈ ws, w ≠ [] ∧ ∀ c ∈ w, isBlank c = false) :
    (joinSentences ws).flatMap words = ws := by
  have hgroup : ∀ g ∈ ws.splitBy (fun w _ => !endsSentence w),
      words (List.intercalate [' '] g) = g := by
    intro g hg
    exact words_intercalate_words fun w hw => h w (mem_of_mem_splitBy hg hw)
  rw [joinSentences, List.flatMap_map, List.flatMap_congr hgroup]
  exact List.flatMap_id.trans (List.flatten_splitBy _ ws)

/-- The words of the sentences of a text are the words of the text. -/
theorem flatMap_words_sentences (text : String) :
    ((sentences text).flatMap fun s => words s.toList) = words text.toList := by
  have hparagraph : ∀ p ∈ paragraphs (lines text.toList),
      (paragraphSentences p).flatMap words = words p := by
    intro p _
    rw [paragraphSentences_eq, flatMap_words_joinSentences fun w hw => mem_words hw]
  rw [sentences, List.flatMap_map]
  simp only [String.toList_ofList]
  rw [List.flatMap_assoc, List.flatMap_congr hparagraph, flatMap_words_paragraphs,
    flatMap_words_lines]

theorem ne_empty_of_mem_sentences {text s : String} (h : s ∈ sentences text) : s ≠ "" := by
  obtain ⟨cs, hcs, rfl⟩ := List.mem_map.mp h
  obtain ⟨p, -, hcs⟩ := List.mem_flatMap.mp hcs
  have hne : cs ≠ [] := by simpa using (List.mem_filter.mp hcs).2
  simpa using hne

end XmlHarvest.Text

namespace XmlHarvest

open Text

/-- The tokenizer that goes by punctuation makes the sentences of a text by its words.  So every word
of the text stands in one of them, in order and once, and none is empty. -/
theorem Tokenizer.punctuation_byWords (text : String) :
    ∃ ss, Tokenizer.punctuation text = .ok ss ∧
      ss = (sentencesByWords text.toList).map String.ofList ∧
      (ss.flatMap fun s => words s.toList) = words text.toList ∧ ∀ s ∈ ss, s ≠ "" :=
  ⟨sentences text, rfl, sentences_eq text, flatMap_words_sentences text,
    fun _ hs => ne_empty_of_mem_sentences hs⟩

end XmlHarvest
