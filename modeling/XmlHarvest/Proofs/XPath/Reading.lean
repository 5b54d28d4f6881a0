/-
Reading accepts exactly the grammar of expressions.

What is read has a tree and is what the tree denotes (`exists_expressionTree`), and the word of every
tree is read (`readUnion_word`).  Main statement: `Expression.ofTokens_grammar`.
-/
import XmlHarvest.Proofs.Results
import XmlHarvest.Proofs.XPath.Words

namespace XmlHarvest.XPath

/-! ### What is read has a tree -/

section

variable {ts rest : List Token}

theorem eq_cons_of_expect {t : Token} (h : expect t ts = .ok rest) : ts = t :: rest := by
  cases ts with
  | nil => cases h
  | cons u us =>
    rw [expect] at h
    split at h
    · next heq => rw [heq, Except.ok.inj h]
    · cases h

theorem exists_axisMark {a : Axis} (h : readAxis ts = .ok (a, rest)) :
    ∃ mark : AxisMark, mark.axis = a ∧ mark.word ++ rest = ts := by
  unfold readAxis at h
  split at h
  · obtain ⟨rfl, rfl⟩ := Prod.mk.inj (Except.ok.inj h)
    exact ⟨.atSign, rfl, rfl⟩
  · split at h
    · next ha =>
      obtain ⟨rfl, rfl⟩ := Prod.mk.inj (Except.ok.inj h)
      obtain rfl := Axis.eq_name_of_ofName? ha
      exact ⟨.named _, rfl, rfl⟩
    · cases h
  · obtain ⟨rfl, rfl⟩ := Prod.mk.inj (Except.ok.inj h)
    exact ⟨.omitted, rfl, rfl⟩

theorem exists_testTree {test : NodeTest} (h : readTest ts = .ok (test, rest)) :
    ∃ t : TestTree, t.test = test ∧ t.word ++ rest = ts := by
  unfold readTest at h
  split at h
  · obtain ⟨rfl, rfl⟩ := Prod.mk.inj (Except.ok.inj h)
    exact ⟨.any, rfl, rfl⟩
  · obtain ⟨us, hparen, h⟩ := bind_eq_ok h
    obtain rfl := eq_cons_of_expect hparen
    split at h
    · obtain ⟨rfl, rfl⟩ := Prod.mk.inj (Except.ok.inj h)
      exact ⟨.text, rfl, rfl⟩
    · obtain ⟨rfl, rfl⟩ := Prod.mk.inj (Except.ok.inj h)
      exact ⟨.node, rfl, rfl⟩
    · cases h
  · next n us _ =>
    obtain ⟨rfl, rfl⟩ := Prod.mk.inj (Except.ok.inj h)
    obtain ⟨t, hword, htest⟩ := TestTree.exists_of_name n
    exact ⟨t, htest, by rw [hword]; rfl⟩
  · cases h
  · cases h

theorem exists_operandTree {text : String} (h : readLiteral ts = .ok (text, rest)) :
    ∃ o : OperandTree, o.text = text ∧ o.token :: rest = ts := by
  unfold readLiteral at h
  split at h
  · obtain ⟨rfl, rfl⟩ := Prod.mk.inj (Except.ok.inj h)
    exact ⟨.literal _, rfl, rfl⟩
  · obtain ⟨rfl, rfl⟩ := Prod.mk.inj (Except.ok.inj h)
    exact ⟨.number _, rfl, rfl⟩
  · cases h
  · cases h

end

mutual

theorem exists_pathTree : ∀ {depth : Nat} {ts rest : List Token} {p : Path},
    readPath depth ts = .ok (p, rest) → ∃ t : PathTree, t.path = p ∧ t.word ++ rest = ts
  | 0, _, _, _, h => nomatch h
  | depth + 1, ts, rest, p, h => by
    unfold readPath at h
    split at h
    · next heq => cases heq
    · next heq =>
      obtain rfl := Nat.succ.inj heq
      split at h
      · obtain ⟨⟨steps, us⟩, hsteps, h⟩ := bind_eq_ok h
        obtain ⟨rfl, rfl⟩ := Prod.mk.inj (Except.ok.inj h)
        obtain ⟨ss, rfl, rfl⟩ := exists_stepsTree hsteps
        exact ⟨.fromRoot ss, rfl, rfl⟩
      · obtain ⟨rfl, rfl⟩ := Prod.mk.inj (Except.ok.inj h)
        exact ⟨.root, rfl, rfl⟩
    · next heq =>
      obtain rfl := Nat.succ.inj heq
      obtain ⟨⟨steps, us⟩, hsteps, h⟩ := bind_eq_ok h
      obtain ⟨rfl, rfl⟩ := Prod.mk.inj (Except.ok.inj h)
      obtain ⟨ss, rfl, rfl⟩ := exists_stepsTree hsteps
      exact ⟨.anyDepth ss, rfl, rfl⟩
    · next heq _ _ =>
      obtain rfl := Nat.succ.inj heq
      obtain ⟨⟨steps, us⟩, hsteps, h⟩ := bind_eq_ok h
      obtain ⟨rfl, rfl⟩ := Prod.mk.inj (Except.ok.inj h)
      obtain ⟨ss, rfl, rfl⟩ := exists_stepsTree hsteps
      exact ⟨.relative ss, rfl, rfl⟩

theorem exists_stepsTree : ∀ {depth : Nat} {ts rest : List Token} {steps : List Step},
    readSteps depth ts = .ok (steps, rest) → ∃ t : StepsTree, t.steps = steps ∧ t.word ++ rest = ts
  | 0, _, _, _, h => nomatch h
  | depth + 1, ts, rest, steps, h => by
    rw [readSteps] at h
    obtain ⟨⟨step, us⟩, hstep, hafter⟩ := bind_eq_ok h
    obtain ⟨s, rfl, rfl⟩ := exists_stepTree hstep
    dsimp only at hafter
    split at hafter
    · obtain ⟨⟨others, us⟩, hothers, hafter⟩ := bind_eq_ok hafter
      obtain ⟨rfl, rfl⟩ := Prod.mk.inj (Except.ok.inj hafter)
      obtain ⟨ss, rfl, rfl⟩ := exists_stepsTree hothers
      exact ⟨.more s .slash ss, rfl, List.append_assoc ..⟩
    · obtain ⟨⟨others, us⟩, hothers, hafter⟩ := bind_eq_ok hafter
      obtain ⟨rfl, rfl⟩ := Prod.mk.inj (Except.ok.inj hafter)
      obtain ⟨ss, rfl, rfl⟩ := exists_stepsTree hothers
      exact ⟨.more s .doubleSlash ss, rfl, List.append_assoc ..⟩
    · obtain ⟨rfl, rfl⟩ := Prod.mk.inj (Except.ok.inj hafter)
      exact ⟨.one s, rfl, rfl⟩

theorem exists_stepTree : ∀ {depth : Nat} {ts rest : List Token} {step : Step},
    readStep depth ts = .ok (step, rest) → ∃ t : StepTree, t.step = step ∧ t.word ++ rest = ts
  | 0, _, _, _, h => nomatch h
  | depth + 1, ts, rest, step, h => by
    unfold readStep at h
    split at h
    · next heq => cases heq
    · obtain ⟨rfl, rfl⟩ := Prod.mk.inj (Except.ok.inj h)
      exact ⟨.here, rfl, rfl⟩
    · obtain ⟨rfl, rfl⟩ := Prod.mk.inj (Except.ok.inj h)
      exact ⟨.up, rfl, rfl⟩
    · next heq _ _ =>
      obtain rfl := Nat.succ.inj heq
      obtain ⟨⟨axis, us⟩, haxis, h⟩ := bind_eq_ok h
      obtain ⟨⟨test, us'⟩, htest, h⟩ := bind_eq_ok h
      obtain ⟨⟨predicates, us''⟩, hpredicates, h⟩ := bind_eq_ok h
      obtain ⟨rfl, rfl⟩ := Prod.mk.inj (Except.ok.inj h)
      obtain ⟨mark, rfl, rfl⟩ := exists_axisMark haxis
      obtain ⟨t, rfl, rfl⟩ := exists_testTree htest
      obtain ⟨ps, rfl, rfl⟩ := exists_predicateTrees hpredicates
      refine ⟨.along mark t ps, rfl, ?_⟩
      rw [StepTree.word, List.append_assoc, List.append_assoc]

theorem exists_predicateTrees : ∀ {depth : Nat} {ts rest : List Token} {ps : List Predicate},
    readPredicates depth ts = .ok (ps, rest) →
    ∃ t : List PredicateTree, PredicateTree.predicates t = ps ∧ PredicateTree.words t ++ rest = ts
  | 0, _, _, _, h => nomatch h
  | depth + 1, ts, rest, ps, h => by
    unfold readPredicates at h
    split at h
    · next heq => cases heq
    · next heq =>
      obtain rfl := Nat.succ.inj heq
      obtain ⟨⟨predicate, us⟩, hpredicate, h⟩ := bind_eq_ok h
      obtain ⟨us', hbracket, h⟩ := bind_eq_ok h
      obtain ⟨⟨others, us''⟩, hothers, h⟩ := bind_eq_ok h
      obtain ⟨rfl, rfl⟩ := Prod.mk.inj (Except.ok.inj h)
      obtain rfl := eq_cons_of_expect hbracket
      obtain ⟨p, rfl, rfl⟩ := exists_predicateTree hpredicate
      obtain ⟨ps, rfl, rfl⟩ := exists_predicateTrees hothers
      refine ⟨p :: ps, rfl, ?_⟩
      rw [PredicateTree.words, List.cons_append, List.append_assoc]
      rfl
    · obtain ⟨rfl, rfl⟩ := Prod.mk.inj (Except.ok.inj h)
      exact ⟨[], rfl, rfl⟩

theorem exists_predicateTree : ∀ {depth : Nat} {ts rest : List Token} {p : Predicate},
    readPredicate depth ts = .ok (p, rest) →
    ∃ t : PredicateTree, t.predicate = p ∧ t.word ++ rest = ts
  | 0, _, _, _, h => nomatch h
  | depth + 1, ts, rest, p, h => by
    unfold readPredicate at h
    split at h
    · next heq => cases heq
    · split at h
      · cases h
      · next hn =>
        obtain ⟨rfl, rfl⟩ := Prod.mk.inj (Except.ok.inj h)
        exact ⟨.position _ (Nat.pos_of_ne_zero hn), rfl, rfl⟩
    · obtain ⟨us, hparen, h⟩ := bind_eq_ok h
      obtain ⟨rfl, rfl⟩ := Prod.mk.inj (Except.ok.inj h)
      obtain rfl := eq_cons_of_expect hparen
      exact ⟨.last, rfl, rfl⟩
    · next heq _ _ =>
      obtain rfl := Nat.succ.inj heq
      obtain ⟨⟨path, us⟩, hpath, hafter⟩ := bind_eq_ok h
      obtain ⟨t, rfl, rfl⟩ := exists_pathTree hpath
      dsimp only at hafter
      split at hafter
      · obtain ⟨⟨literal, us'⟩, hliteral, hafter⟩ := bind_eq_ok hafter
        obtain ⟨rfl, rfl⟩ := Prod.mk.inj (Except.ok.inj hafter)
        obtain ⟨o, rfl, rfl⟩ := exists_operandTree hliteral
        exact ⟨.compare t .equal o, rfl, PredicateTree.compare_word_append t .equal o _⟩
      · obtain ⟨⟨literal, us'⟩, hliteral, hafter⟩ := bind_eq_ok hafter
        obtain ⟨rfl, rfl⟩ := Prod.mk.inj (Except.ok.inj hafter)
        obtain ⟨o, rfl, rfl⟩ := exists_operandTree hliteral
        exact ⟨.compare t .notEqual o, rfl, PredicateTree.compare_word_append t .notEqual o _⟩
      · obtain ⟨rfl, rfl⟩ := Prod.mk.inj (Except.ok.inj hafter)
        exact ⟨.nonempty t, rfl, rfl⟩

end

/-! ### Expressions -/

theorem exists_expressionTree {depth : Nat} {ts rest : List Token} {ps : List Path}
    (h : readUnion depth ts = .ok (ps, rest)) :
    ∃ e : ExpressionTree, e.paths = ps ∧ e.word ++ rest = ts := by
  induction depth generalizing ts rest ps with
  | zero => cases h
  | succ depth ih =>
    rw [readUnion] at h
    obtain ⟨⟨path, us⟩, hpath, hafter⟩ := bind_eq_ok h
    obtain ⟨t, rfl, rfl⟩ := exists_pathTree hpath
    dsimp only at hafter
    split at hafter
    · obtain ⟨⟨others, us⟩, hothers, hafter⟩ := bind_eq_ok hafter
      obtain ⟨rfl, rfl⟩ := Prod.mk.inj (Except.ok.inj hafter)
      obtain ⟨e, rfl, rfl⟩ := ih hothers
      exact ⟨.more t e, rfl, List.append_assoc ..⟩
    · obtain ⟨rfl, rfl⟩ := Prod.mk.inj (Except.ok.inj hafter)
      exact ⟨.one t, rfl, rfl⟩

/-- Blanks have no tokens. -/
theorem tokensFrom_blank (total : Nat) {cs : List Char} (h : cs.all Text.isBlank = true) :
    tokensFrom total cs = .ok [] := by
  induction cs with
  | nil =>
    unfold tokensFrom
    rfl
  | cons c cs ih =>
    rw [List.all_cons, Bool.and_eq_true] at h
    unfold tokensFrom
    rw [if_pos h.1]
    exact ih h.2

namespace Expression

theorem ofTokens_word (e : ExpressionTree) : ofTokens e.word = .ok e.expression := by
  have hread : readUnion (depthFor e.word) e.word = .ok (e.paths, []) := by
    apply readUnion_word
    rw [depthFor]
    omega
  rw [ofTokens, hread]
  rfl

theorem exists_tree {ts : List Token} {x : Expression} (h : ofTokens ts = .ok x) :
    ∃ e : ExpressionTree, e.word = ts := by
  obtain ⟨⟨paths, rest⟩, hread, hafter⟩ := bind_eq_ok h
  obtain ⟨e, rfl, rfl⟩ := exists_expressionTree hread
  cases rest with
  | nil => exact ⟨e, (List.append_nil _).symm⟩
  | cons t ts => cases hafter

/-- Compiling a text is reading its tokens. -/
theorem compile_eq_ok_iff {s : String} {ts : List Token} (h : tokens s = .ok ts) (x : Expression) :
    compile s = .ok x ↔ ofTokens ts = .ok x := by
  by_cases hself : isSelf s = true
  · obtain rfl : [] = ts := Except.ok.inj ((tokensFrom_blank _ hself).symm.trans h)
    rw [compile, if_pos hself]
    exact ⟨nofun, nofun⟩
  · rw [compile, if_neg hself, h]
    show (ofTokens ts).mapError _ = _ ↔ _
    cases ofTokens ts with
    | error f => exact ⟨nofun, nofun⟩
    | ok y => exact ⟨fun hy => by rw [Except.ok.inj hy], fun hy => by rw [Except.ok.inj hy]; rfl⟩

/-- Tokens are read exactly when they are the word of a tree.  There is one such tree then, and what
is read is what it denotes.  The text of the tokens is read in the same way. -/
theorem ofTokens_grammar (ts : List Token) :
    ((∃ x, ofTokens ts = .ok x) ↔ ∃ e : ExpressionTree, e.word = ts) ∧
      (∀ e : ExpressionTree, e.word = ts →
        ofTokens ts = .ok e.expression ∧ ∀ e' : ExpressionTree, e'.word = ts → e' = e) ∧
      ∀ s : String, tokens s = .ok ts → ∀ x, compile s = .ok x ↔ ofTokens ts = .ok x := by
  refine ⟨⟨?_, ?_⟩, ?_, ?_⟩
  · rintro ⟨x, hx⟩
    exact exists_tree hx
  · rintro ⟨e, rfl⟩
    exact ⟨e.expression, ofTokens_word e⟩
  · rintro e rfl
    exact ⟨ofTokens_word e, fun e' he' => ExpressionTree.eq_of_word_eq he'⟩
  · intro s hs x
    exact compile_eq_ok_iff hs x

/-- A union of which one path has a predicate and the other is the root alone. -/
theorem ofTokens_grammar_union :
    let e : ExpressionTree := .more (.anyDepth (.one (.along .omitted
      (.labelled "tei" "p" (by decide)) [.last]))) (.one .root)
    let ts : List Token := [.doubleSlash, .name "tei:p", .leftBracket, .name "last", .leftParen,
      .rightParen, .rightBracket, .pipe, .slash]
    e.word = ts ∧ tokens "//tei:p[last()]|/" = .ok ts ∧ compile "//tei:p[last()]|/" = .ok ⟨[
      .mk true [.anyDepth, .mk .child (.name "p") [.last]], .mk true []]⟩ := by
  intro e ts
  have hword : e.word = ts := by decide +kernel
  have htokens : tokens "//tei:p[last()]|/" = .ok ts := by decide +kernel
  have hgrammar := ofTokens_grammar ts
  exact ⟨hword, htokens, (hgrammar.2.2 _ htokens _).mpr (hgrammar.2.1 e hword).1⟩

end Expression

end XmlHarvest.XPath
