/-
The words of trees, read and told apart.

Each part of an expression is read from the word of its tree and yields what the tree denotes, given
that tokens follow which may follow this part, and given six calls for each token.  A word with such
tokens behind it comes from one tree only: where trees could be confused, the first tokens decide,
and a name is a test of its own unless a parenthesis follows.
-/
import Mathlib.Data.List.TakeWhile
import XmlHarvest.Proofs.XPath.Derivation

namespace XmlHarvest.XPath

/-! ### Names -/

theorem Axis.ofName?_name (a : Axis) : Axis.ofName? a.name = some a := by
  cases a <;> rfl

theorem Axis.eq_name_of_ofName? {n : String} {a : Axis} (h : Axis.ofName? n = some a) :
    n = a.name := by
  unfold Axis.ofName? at h
  split at h <;> cases h <;> rfl

theorem localPart_plain {name : String} (h : ':' ∉ name.toList) : localPart name = name := by
  have hdrop : name.toList.dropWhile (· != ':') = [] := by
    rw [List.dropWhile_eq_nil_iff]
    intro c hc
    exact bne_iff_ne.mpr fun heq => h (heq ▸ hc)
  rw [localPart, hdrop]

theorem localPart_labelled {label name : String} (h : ':' ∉ label.toList) :
    localPart (label ++ ":" ++ name) = name := by
  have hlabel : ∀ c ∈ label.toList, (c != ':') = true := by
    intro c hc
    exact bne_iff_ne.mpr fun heq => h (heq ▸ hc)
  have hdrop : (label ++ ":" ++ name).toList.dropWhile (· != ':') = ':' :: name.toList := by
    rw [String.toList_append, String.toList_append, List.append_assoc,
      List.dropWhile_append_of_pos hlabel]
    rfl
  rw [localPart, hdrop]
  exact String.ofList_toList

/-- A name begins with a label or has none. -/
theorem TestTree.exists_of_name (n : String) :
    ∃ test : TestTree, test.word = [.name n] ∧ test.test = .name (localPart n) := by
  by_cases h : ':' ∈ n.toList
  · obtain ⟨label, name, hn, hlabel⟩ := List.eq_append_cons_of_mem h
    obtain rfl : n = String.ofList label ++ ":" ++ String.ofList name := by
      apply String.toList_injective
      simp [hn]
    have hlabel : ':' ∉ (String.ofList label).toList := by rwa [String.toList_ofList]
    exact ⟨.labelled _ _ hlabel, rfl, by rw [localPart_labelled hlabel]; rfl⟩
  · exact ⟨.plain n h, rfl, by rw [localPart_plain h]; rfl⟩

/-! ### Steps without their predicates -/

theorem readAxis_word (mark : AxisMark) (test : TestTree) (rest : List Token) :
    readAxis (mark.word ++ (test.word ++ rest)) = .ok (mark.axis, test.word ++ rest) := by
  cases mark with
  | omitted => cases test <;> rfl
  | atSign => rfl
  | named a =>
    show readAxis (.axis a.name :: (test.word ++ rest)) = _
    simp only [readAxis, Axis.ofName?_name]
    rfl

theorem readTest_name {n : String} {rest : List Token} (h : rest.head? ≠ some .leftParen) :
    readTest (.name n :: rest) = .ok (.name (localPart n), rest) := by
  cases rest with
  | nil => rfl
  | cons t ts =>
    cases t with
    | leftParen => exact absurd rfl h
    | _ => rfl

theorem readTest_word (test : TestTree) {rest : List Token} (h : rest.head? ≠ some .leftParen) :
    readTest (test.word ++ rest) = .ok (test.test, rest) := by
  cases test with
  | plain name hname =>
    show readTest (.name name :: rest) = _
    rw [readTest_name h, localPart_plain hname]
    rfl
  | labelled label name hlabel =>
    show readTest (.name (label ++ ":" ++ name) :: rest) = _
    rw [readTest_name h, localPart_labelled hlabel]
    rfl
  | _ => rfl

/-- After its axis and its test, a step goes on with its predicates. -/
theorem readStep_along (mark : AxisMark) (test : TestTree) {depth : Nat} {rest : List Token}
    (h : rest.head? ≠ some .leftParen) :
    readStep (depth + 1) (mark.word ++ (test.word ++ rest)) =
      readPredicates depth rest >>= fun r => .ok (.mk mark.axis test.test r.1, r.2) := by
  have hunfold : readStep (depth + 1) (mark.word ++ (test.word ++ rest)) =
      readAxis (mark.word ++ (test.word ++ rest)) >>= fun axis =>
        readTest axis.2 >>= fun test =>
          readPredicates depth test.2 >>= fun r => .ok (.mk axis.1 test.1 r.1, r.2) := by
    cases mark <;> cases test <;> rfl
  rw [hunfold, readAxis_word]
  show (readTest (test.word ++ rest) >>= _) = _
  rw [readTest_word test h]
  rfl

/-! ### Every word is read -/

theorem readPath_relative {depth : Nat} {ts : List Token} (h : startsStep ts = true) :
    readPath (depth + 1) ts = readSteps depth ts >>= fun r => .ok (.mk false r.1, r.2) := by
  cases ts with
  | nil => cases h
  | cons t ts => cases t <;> first | rfl | cases h

/-- A path that is read as a predicate is neither a number nor `last()`. -/
theorem readPredicate_path (path : PathTree) {depth : Nat} {rest : List Token} (h : EndsPath rest) :
    readPredicate (depth + 1) (path.word ++ rest) = (do
      let (path, ts) ← readPath depth (path.word ++ rest)
      match ts with
      | .equal :: ts =>
        let (literal, ts) ← readLiteral ts
        return (.compare path .equal literal, ts)
      | .notEqual :: ts =>
        let (literal, ts) ← readLiteral ts
        return (.compare path .notEqual literal, ts)
      | ts => return (.nonempty path, ts)) := by
  generalize hts : path.word ++ rest = ts
  unfold readPredicate
  split
  · next heq => cases heq
  · exact absurd hts path.ne_number
  · exact absurd hts (path.ne_last h)
  · next heq _ _ =>
    obtain rfl := Nat.succ.inj heq
    rfl

/-- A word that is not empty needs a call. -/
theorem exists_succ {n depth k : Nat} (hn : 0 < n) (hdepth : 6 * n ≤ depth + k)
    (hk : k ≤ 4) : ∃ d, depth = d + 1 :=
  ⟨depth - 1, by omega⟩

mutual

/-- A part needs one call more than the part it begins with, so what is added to the depth grows
from `2` for a path to `4` for a step; a step takes a token before its predicates, which pays for
six calls. -/
theorem readPath_word : ∀ (p : PathTree) {depth : Nat} {rest : List Token}, EndsPath rest →
    6 * p.word.length ≤ depth + 2 → readPath depth (p.word ++ rest) = .ok (p.path, rest)
  | .root, depth, rest, hrest, hdepth => by
    obtain ⟨depth, rfl⟩ := exists_succ Nat.one_pos hdepth (by decide)
    show readPath (depth + 1) (.slash :: rest) = _
    rw [readPath, hrest.startsStep]
    rfl
  | .fromRoot ss, depth, rest, hrest, hdepth => by
    obtain ⟨depth, rfl⟩ := exists_succ (Nat.succ_pos _) hdepth (by decide)
    rw [PathTree.word, List.length_cons] at hdepth
    have hsteps : readSteps depth (ss.word ++ rest) = .ok (ss.steps, rest) :=
      readSteps_word ss hrest (by omega)
    show readPath (depth + 1) (.slash :: (ss.word ++ rest)) = _
    rw [readPath, if_pos (ss.startsStep_word rest), hsteps]
    rfl
  | .anyDepth ss, depth, rest, hrest, hdepth => by
    obtain ⟨depth, rfl⟩ := exists_succ (Nat.succ_pos _) hdepth (by decide)
    rw [PathTree.word, List.length_cons] at hdepth
    have hsteps : readSteps depth (ss.word ++ rest) = .ok (ss.steps, rest) :=
      readSteps_word ss hrest (by omega)
    show readPath (depth + 1) (.doubleSlash :: (ss.word ++ rest)) = _
    rw [readPath, hsteps]
    rfl
  | .relative ss, depth, rest, hrest, hdepth => by
    obtain ⟨depth, rfl⟩ := exists_succ ss.length_word_pos hdepth (by decide)
    rw [PathTree.word] at hdepth
    have hsteps : readSteps depth (ss.word ++ rest) = .ok (ss.steps, rest) :=
      readSteps_word ss hrest (by omega)
    rw [PathTree.word, readPath_relative (ss.startsStep_word rest), hsteps]
    rfl

theorem readSteps_word : ∀ (ss : StepsTree) {depth : Nat} {rest : List Token}, EndsPath rest →
    6 * ss.word.length ≤ depth + 3 → readSteps depth (ss.word ++ rest) = .ok (ss.steps, rest)
  | .one s, depth, rest, hrest, hdepth => by
    obtain ⟨depth, rfl⟩ := exists_succ s.length_word_pos hdepth (by decide)
    rw [StepsTree.word] at hdepth
    have hstep : readStep depth (s.word ++ rest) = .ok (s.step, rest) :=
      readStep_word s (.path hrest) (by omega)
    rw [StepsTree.word, readSteps, hstep]
    cases hrest <;> rfl
  | .more s separator ss, depth, rest, hrest, hdepth => by
    rw [StepsTree.word, List.length_append, List.length_cons] at hdepth
    have hpos := s.length_word_pos
    obtain ⟨depth, rfl⟩ : ∃ d, depth = d + 1 := ⟨depth - 1, by omega⟩
    have hstep : readStep depth (s.word ++ separator.token :: (ss.word ++ rest)) =
        .ok (s.step, separator.token :: (ss.word ++ rest)) :=
      readStep_word s (endsStep_separator separator _) (by omega)
    have hothers : readSteps depth (ss.word ++ rest) = .ok (ss.steps, rest) :=
      readSteps_word ss hrest (by omega)
    rw [StepsTree.word, List.append_assoc, List.cons_append, readSteps, hstep]
    cases separator with
    | slash =>
      show (readSteps depth (ss.word ++ rest) >>= _) = _
      rw [hothers]
      rfl
    | doubleSlash =>
      show (readSteps depth (ss.word ++ rest) >>= _) = _
      rw [hothers]
      rfl

theorem readStep_word : ∀ (s : StepTree) {depth : Nat} {rest : List Token}, EndsStep rest →
    6 * s.word.length ≤ depth + 4 → readStep depth (s.word ++ rest) = .ok (s.step, rest)
  | .here, depth, rest, hrest, hdepth => by
    obtain ⟨depth, rfl⟩ := exists_succ Nat.one_pos hdepth (by decide)
    rfl
  | .up, depth, rest, hrest, hdepth => by
    obtain ⟨depth, rfl⟩ := exists_succ Nat.one_pos hdepth (by decide)
    rfl
  | .along mark test ps, depth, rest, hrest, hdepth => by
    obtain ⟨depth, rfl⟩ := exists_succ (StepTree.length_word_pos _) hdepth (by decide)
    have hpos := test.length_word_pos
    rw [StepTree.word, List.length_append, List.length_append] at hdepth
    have hps : readPredicates depth (PredicateTree.words ps ++ rest) =
        .ok (PredicateTree.predicates ps, rest) :=
      readPredicates_words ps hrest.head?_ne.2 (by omega)
    have hparen := PredicateTree.head?_words_ne ps hrest.head?_ne.1
    rw [StepTree.word, List.append_assoc, List.append_assoc, readStep_along mark test hparen, hps]
    rfl

theorem readPredicates_words : ∀ (ps : List PredicateTree) {depth : Nat} {rest : List Token},
    rest.head? ≠ some .leftBracket → 6 * (PredicateTree.words ps).length + 1 ≤ depth →
    readPredicates depth (PredicateTree.words ps ++ rest) = .ok (PredicateTree.predicates ps, rest)
  | [], depth, rest, hrest, hdepth => by
    obtain ⟨depth, rfl⟩ : ∃ d, depth = d + 1 := ⟨depth - 1, by omega⟩
    rw [PredicateTree.words, List.nil_append, readPredicates]
    · rfl
    · rintro us rfl
      exact hrest rfl
  | p :: ps, depth, rest, hrest, hdepth => by
    obtain ⟨depth, rfl⟩ : ∃ d, depth = d + 1 := ⟨depth - 1, by omega⟩
    rw [PredicateTree.words, List.length_cons, List.length_append, List.length_cons] at hdepth
    have hp : readPredicate depth (p.word ++ .rightBracket :: (PredicateTree.words ps ++ rest)) =
        .ok (p.predicate, .rightBracket :: (PredicateTree.words ps ++ rest)) :=
      readPredicate_word p (by omega)
    have hps : readPredicates depth (PredicateTree.words ps ++ rest) =
        .ok (PredicateTree.predicates ps, rest) :=
      readPredicates_words ps hrest (by omega)
    rw [PredicateTree.words, List.cons_append, List.append_assoc, List.cons_append, readPredicates,
      hp]
    show (readPredicates depth (PredicateTree.words ps ++ rest) >>= _) = _
    rw [hps]
    rfl

theorem readPredicate_word : ∀ (p : PredicateTree) {depth : Nat} {rest : List Token},
    6 * p.word.length ≤ depth + 1 →
    readPredicate depth (p.word ++ .rightBracket :: rest) = .ok (p.predicate, .rightBracket :: rest)
  | .position n hn, depth, rest, hdepth => by
    obtain ⟨depth, rfl⟩ := exists_succ Nat.one_pos hdepth (by decide)
    show readPredicate (depth + 1) (.number n :: .rightBracket :: rest) = _
    rw [readPredicate, if_neg (by omega)]
    rfl
  | .last, depth, rest, hdepth => by
    obtain ⟨depth, rfl⟩ := exists_succ (Nat.succ_pos 2) hdepth (by decide)
    rfl
  | .nonempty path, depth, rest, hdepth => by
    obtain ⟨depth, rfl⟩ := exists_succ path.length_word_pos hdepth (by decide)
    rw [PredicateTree.word] at hdepth
    have hpath : readPath depth (path.word ++ .rightBracket :: rest) =
        .ok (path.path, .rightBracket :: rest) :=
      readPath_word path (.rightBracket rest) (by omega)
    rw [PredicateTree.word, readPredicate_path path (.rightBracket rest), hpath]
    rfl
  | .compare path comparison operand, depth, rest, hdepth => by
    rw [PredicateTree.word, List.length_append] at hdepth
    have hpos := path.length_word_pos
    obtain ⟨depth, rfl⟩ : ∃ d, depth = d + 1 := ⟨depth - 1, by omega⟩
    have hends := endsPath_comparison comparison (operand.token :: .rightBracket :: rest)
    have hpath : readPath depth
        (path.word ++ comparison.token :: operand.token :: .rightBracket :: rest) =
        .ok (path.path, comparison.token :: operand.token :: .rightBracket :: rest) :=
      readPath_word path hends (by omega)
    rw [PredicateTree.compare_word_append, readPredicate_path path hends, hpath]
    cases comparison <;> cases operand <;> rfl

end

/-! ### No word has two trees -/

theorem Axis.name_injective {a a' : Axis} (h : a.name = a'.name) : a = a' := by
  have hname := a.ofName?_name
  rw [h, a'.ofName?_name] at hname
  exact (Option.some.inj hname).symm

theorem Separator.token_injective {s s' : Separator} (h : s.token = s'.token) : s = s' := by
  cases s <;> cases s' <;> first | rfl | cases h

theorem Comparison.token_injective {c c' : Comparison} (h : c.token = c'.token) : c = c' := by
  cases c <;> cases c' <;> first | rfl | cases h

theorem OperandTree.token_injective {o o' : OperandTree} (h : o.token = o'.token) : o = o' := by
  cases o <;> cases o' <;> cases h <;> rfl

theorem AxisMark.eq_of_append {mark mark' : AxisMark} {test test' : TestTree}
    {rest rest' : List Token}
    (heq : mark.word ++ (test.word ++ rest) = mark'.word ++ (test'.word ++ rest')) :
    mark = mark' ∧ test.word ++ rest = test'.word ++ rest' := by
  cases mark with
  | omitted =>
    cases mark' with
    | omitted => exact ⟨rfl, heq⟩
    | atSign => cases test <;> cases heq
    | named a' => cases test <;> cases heq
  | atSign =>
    cases mark' with
    | omitted => cases test' <;> cases heq
    | atSign => exact ⟨rfl, (List.cons.inj heq).2⟩
    | named a' => cases heq
  | named a =>
    cases mark' with
    | omitted => cases test' <;> cases heq
    | atSign => cases heq
    | named a' =>
      obtain ⟨hname, htest⟩ := List.cons.inj heq
      obtain rfl := Axis.name_injective (Token.axis.inj hname)
      exact ⟨rfl, htest⟩

/-- Tests with one word that stand for the same have the same label. -/
theorem TestTree.eq_of_word_eq {test test' : TestTree} (hword : test.word = test'.word)
    (htest : test.test = test'.test) : test = test' := by
  cases test with
  | any => cases test' <;> first | rfl | cases htest
  | text => cases test' <;> first | rfl | cases htest
  | node => cases test' <;> first | rfl | cases htest
  | plain name hname =>
    cases test' with
    | any => cases htest
    | text => cases htest
    | node => cases htest
    | plain name' _ =>
      obtain rfl := NodeTest.name.inj htest
      rfl
    | labelled label' name' _ =>
      obtain rfl := Token.name.inj (List.cons.inj hword).1
      exact absurd (by simp) hname
  | labelled label name hlabel =>
    cases test' with
    | any => cases htest
    | text => cases htest
    | node => cases htest
    | plain name' hname' =>
      obtain rfl := Token.name.inj (List.cons.inj hword).1
      exact absurd (by simp) hname'
    | labelled label' name' _ =>
      obtain rfl := NodeTest.name.inj htest
      have htoken := Token.name.inj (List.cons.inj hword).1
      obtain rfl : label = label' := by simpa [String.append_assoc] using htoken
      rfl

theorem TestTree.eq_of_append {test test' : TestTree} {rest rest' : List Token}
    (h : rest.head? ≠ some .leftParen) (h' : rest'.head? ≠ some .leftParen)
    (heq : test.word ++ rest = test'.word ++ rest') : test = test' ∧ rest = rest' := by
  have hread := readTest_word test h
  rw [heq, readTest_word test' h'] at hread
  obtain ⟨htest, rfl⟩ := Prod.mk.inj (Except.ok.inj hread)
  exact ⟨TestTree.eq_of_word_eq (List.append_cancel_right heq) htest.symm, rfl⟩

mutual

/-- The induction is on the first tree; the second has the same first token. -/
theorem PathTree.eq_of_append : ∀ (p p' : PathTree) {rest rest' : List Token}, EndsPath rest →
    EndsPath rest' → p.word ++ rest = p'.word ++ rest' → p = p' ∧ rest = rest'
  | .root, p', rest, rest', h, h', heq => by
    have hslash : p'.word ++ rest' = .slash :: rest := heq.symm
    rcases PathTree.of_slash hslash with ⟨rfl, hrest⟩ | ⟨ss', rfl, hrest⟩
    · exact ⟨rfl, hrest.symm⟩
    · exact absurd hrest (ss'.word_append_ne h.startsStep)
  | .fromRoot ss, p', rest, rest', h, h', heq => by
    have hslash : p'.word ++ rest' = .slash :: (ss.word ++ rest) := heq.symm
    rcases PathTree.of_slash hslash with ⟨rfl, hrest⟩ | ⟨ss', rfl, hsteps⟩
    · exact absurd hrest.symm (ss.word_append_ne h'.startsStep)
    · obtain ⟨rfl, hrest⟩ := StepsTree.eq_of_append ss ss' h h' hsteps.symm
      exact ⟨rfl, hrest⟩
  | .anyDepth ss, p', rest, rest', h, h', heq => by
    obtain ⟨ss', rfl, hsteps⟩ := PathTree.of_doubleSlash heq.symm
    obtain ⟨rfl, hrest⟩ := StepsTree.eq_of_append ss ss' h h' hsteps.symm
    exact ⟨rfl, hrest⟩
  | .relative ss, p', rest, rest', h, h', heq => by
    obtain ⟨ss', rfl⟩ : ∃ ss', p' = .relative ss' := by
      apply PathTree.of_startsStep
      rw [← heq]
      exact ss.startsStep_word rest
    obtain ⟨rfl, hrest⟩ := StepsTree.eq_of_append ss ss' h h' heq
    exact ⟨rfl, hrest⟩

theorem StepsTree.eq_of_append : ∀ (ss ss' : StepsTree) {rest rest' : List Token}, EndsPath rest →
    EndsPath rest' → ss.word ++ rest = ss'.word ++ rest' → ss = ss' ∧ rest = rest'
  | .one s, .one s', rest, rest', h, h', heq => by
    obtain ⟨rfl, hrest⟩ := StepTree.eq_of_append s s' (.path h) (.path h') heq
    exact ⟨rfl, hrest⟩
  | .one s, .more s' separator' ss', rest, rest', h, h', heq => by
    rw [StepsTree.word, StepsTree.word, List.append_assoc] at heq
    obtain ⟨-, hrest⟩ := StepTree.eq_of_append s s' (.path h) (endsStep_separator _ _) heq
    exact absurd hrest (h.ne_separator separator')
  | .more s separator ss, .one s', rest, rest', h, h', heq => by
    rw [StepsTree.word, StepsTree.word, List.append_assoc] at heq
    obtain ⟨-, hrest⟩ := StepTree.eq_of_append s s' (endsStep_separator _ _) (.path h') heq
    exact absurd hrest.symm (h'.ne_separator separator)
  | .more s separator ss, .more s' separator' ss', rest, rest', h, h', heq => by
    rw [StepsTree.word, StepsTree.word, List.append_assoc, List.append_assoc] at heq
    obtain ⟨rfl, htail⟩ :=
      StepTree.eq_of_append s s' (endsStep_separator _ _) (endsStep_separator _ _) heq
    obtain ⟨htoken, hothers⟩ := List.cons.inj htail
    obtain rfl := Separator.token_injective htoken
    obtain ⟨rfl, hrest⟩ := StepsTree.eq_of_append ss ss' h h' hothers
    exact ⟨rfl, hrest⟩

theorem StepTree.eq_of_append : ∀ (s s' : StepTree) {rest rest' : List Token}, EndsStep rest →
    EndsStep rest' → s.word ++ rest = s'.word ++ rest' → s = s' ∧ rest = rest'
  | .here, s', rest, rest', h, h', heq => by
    obtain ⟨rfl, hrest⟩ := StepTree.of_dot heq.symm
    exact ⟨rfl, hrest.symm⟩
  | .up, s', rest, rest', h, h', heq => by
    obtain ⟨rfl, hrest⟩ := StepTree.of_doubleDot heq.symm
    exact ⟨rfl, hrest.symm⟩
  | .along mark test ps, .here, rest, rest', h, h', heq => nomatch (StepTree.of_dot heq).1
  | .along mark test ps, .up, rest, rest', h, h', heq => nomatch (StepTree.of_doubleDot heq).1
  | .along mark test ps, .along mark' test' ps', rest, rest', h, h', heq => by
    simp only [StepTree.word, List.append_assoc] at heq
    obtain ⟨rfl, htest⟩ := AxisMark.eq_of_append heq
    obtain ⟨rfl, hps⟩ := TestTree.eq_of_append (PredicateTree.head?_words_ne ps h.head?_ne.1)
      (PredicateTree.head?_words_ne ps' h'.head?_ne.1) htest
    obtain ⟨rfl, hrest⟩ := PredicateTree.words_eq_of_append ps ps' h.head?_ne.2 h'.head?_ne.2 hps
    exact ⟨rfl, hrest⟩

theorem PredicateTree.words_eq_of_append : ∀ (ps ps' : List PredicateTree)
    {rest rest' : List Token}, rest.head? ≠ some .leftBracket → rest'.head? ≠ some .leftBracket →
    PredicateTree.words ps ++ rest = PredicateTree.words ps' ++ rest' → ps = ps' ∧ rest = rest'
  | [], [], rest, rest', h, h', heq => ⟨rfl, heq⟩
  | [], p' :: ps', rest, rest', h, h', heq => absurd (congrArg List.head? heq) h
  | p :: ps, [], rest, rest', h, h', heq => absurd (congrArg List.head? heq).symm h'
  | p :: ps, p' :: ps', rest, rest', h, h', heq => by
    simp only [PredicateTree.words, List.cons_append, List.append_assoc] at heq
    obtain ⟨rfl, hothers⟩ := PredicateTree.eq_of_append p p' (List.cons.inj heq).2
    obtain ⟨rfl, hrest⟩ := PredicateTree.words_eq_of_append ps ps' h h' hothers
    exact ⟨rfl, hrest⟩

theorem PredicateTree.eq_of_append : ∀ (p p' : PredicateTree) {rest rest' : List Token},
    p.word ++ .rightBracket :: rest = p'.word ++ .rightBracket :: rest' → p = p' ∧ rest = rest'
  | .position n hn, p', rest, rest', heq => by
    obtain ⟨h, rfl, hrest⟩ := PredicateTree.of_number heq.symm
    exact ⟨rfl, (List.cons.inj hrest).2.symm⟩
  | .last, p', rest, rest', heq => by
    obtain ⟨rfl, hrest⟩ := PredicateTree.of_last heq.symm
    exact ⟨rfl, (List.cons.inj (List.cons.inj hrest).2).2.symm⟩
  | .nonempty path, .position n hn, rest, rest', heq => absurd heq path.ne_number
  | .nonempty path, .last, rest, rest', heq => absurd heq (path.ne_last (.rightBracket rest))
  | .nonempty path, .nonempty path', rest, rest', heq => by
    obtain ⟨rfl, htail⟩ :=
      PathTree.eq_of_append path path' (.rightBracket rest) (.rightBracket rest') heq
    exact ⟨rfl, (List.cons.inj htail).2⟩
  | .nonempty path, .compare path' c' o', rest, rest', heq => by
    rw [PredicateTree.compare_word_append] at heq
    obtain ⟨-, htail⟩ :=
      PathTree.eq_of_append path path' (.rightBracket rest) (endsPath_comparison c' _) heq
    cases c' <;> cases htail
  | .compare path c o, .position n hn, rest, rest', heq => by
    rw [PredicateTree.compare_word_append] at heq
    exact absurd heq path.ne_number
  | .compare path c o, .last, rest, rest', heq => by
    rw [PredicateTree.compare_word_append] at heq
    exact absurd heq (path.ne_last (endsPath_comparison c _))
  | .compare path c o, .nonempty path', rest, rest', heq => by
    rw [PredicateTree.compare_word_append] at heq
    obtain ⟨-, htail⟩ :=
      PathTree.eq_of_append path path' (endsPath_comparison c _) (.rightBracket rest') heq
    cases c <;> cases htail
  | .compare path c o, .compare path' c' o', rest, rest', heq => by
    rw [PredicateTree.compare_word_append, PredicateTree.compare_word_append] at heq
    obtain ⟨rfl, htail⟩ :=
      PathTree.eq_of_append path path' (endsPath_comparison c _) (endsPath_comparison c' _) heq
    obtain ⟨hcomparison, htail⟩ := List.cons.inj htail
    obtain ⟨hoperand, hrest⟩ := List.cons.inj htail
    obtain rfl := Comparison.token_injective hcomparison
    obtain rfl := OperandTree.token_injective hoperand
    exact ⟨rfl, (List.cons.inj hrest).2⟩

end

/-! ### Expressions -/

theorem readUnion_word (e : ExpressionTree) {depth : Nat} (h : 6 * e.word.length ≤ depth + 1) :
    readUnion depth e.word = .ok (e.paths, []) := by
  induction e generalizing depth with
  | one path =>
    obtain ⟨depth, rfl⟩ := exists_succ path.length_word_pos h (by decide)
    rw [ExpressionTree.word] at h
    have hpath : readPath depth (path.word ++ []) = .ok (path.path, []) :=
      readPath_word path .nil (by omega)
    rw [List.append_nil] at hpath
    rw [ExpressionTree.word, readUnion, hpath]
    rfl
  | more path others ih =>
    rw [ExpressionTree.word, List.length_append, List.length_cons] at h
    have hpos := path.length_word_pos
    obtain ⟨depth, rfl⟩ : ∃ d, depth = d + 1 := ⟨depth - 1, by omega⟩
    have hpath : readPath depth (path.word ++ .pipe :: others.word) =
        .ok (path.path, .pipe :: others.word) :=
      readPath_word path (.pipe others.word) (by omega)
    have hothers : readUnion depth others.word = .ok (others.paths, []) := ih (by omega)
    rw [ExpressionTree.word, readUnion, hpath]
    show (readUnion depth others.word >>= _) = _
    rw [hothers]
    rfl

/-- No two trees have the same word. -/
theorem ExpressionTree.eq_of_word_eq {e e' : ExpressionTree} (h : e.word = e'.word) : e = e' := by
  induction e generalizing e' with
  | one path =>
    rw [word, ← path.word.append_nil] at h
    cases e' with
    | one path' =>
      rw [word, ← path'.word.append_nil] at h
      obtain ⟨rfl, -⟩ := PathTree.eq_of_append path path' .nil .nil h
      rfl
    | more path' others' =>
      obtain ⟨-, hrest⟩ := PathTree.eq_of_append path path' .nil (.pipe _) h
      cases hrest
  | more path others ih =>
    cases e' with
    | one path' =>
      rw [word, word, ← path'.word.append_nil] at h
      obtain ⟨-, hrest⟩ := PathTree.eq_of_append path path' (.pipe _) .nil h
      cases hrest
    | more path' others' =>
      obtain ⟨rfl, hrest⟩ := PathTree.eq_of_append path path' (.pipe _) (.pipe _) h
      rw [ih (List.cons.inj hrest).2]

end XmlHarvest.XPath
