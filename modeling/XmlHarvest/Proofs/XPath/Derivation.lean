/-
The grammar of expressions.

A tree is a derivation of the grammar

    Expression = Path ('|' Path)*
    Path       = '/' | '/' Steps | '//' Steps | Steps
    Steps      = Step (('/' | '//') Step)*
    Step       = '.' | '..' | ('@' | axis '::')? Test ('[' Predicate ']')*
    Test       = '*' | name | 'text' '(' ')' | 'node' '(' ')'
    Predicate  = number | 'last' '(' ')' | Path (('=' | '!=') (literal | number))?

in which an axis is one of the nine and a number that is a predicate is not zero.  A tree derives
its word, and it denotes a part of an expression; several trees may denote the same.
-/
import XmlHarvest.XPath.Parser

namespace XmlHarvest.XPath

/-! ### Trees -/

/-- How a step gives its axis. -/
inductive AxisMark
  | omitted
  | atSign
  | named (a : Axis)

/-- A derivation of a node test.  A name may have a namespace label, which ends at the first
colon. -/
inductive TestTree
  | any
  | plain (name : String) (h : ':' ∉ name.toList)
  | labelled (label name : String) (h : ':' ∉ label.toList)
  | text
  | node

/-- What stands between two steps. -/
inductive Separator
  | slash
  | doubleSlash

/-- A derivation of what a path is compared with. -/
inductive OperandTree
  | literal (text : String)
  | number (n : Nat)

mutual

/-- A derivation of a path. -/
inductive PathTree
  | root
  | fromRoot (steps : StepsTree)
  | anyDepth (steps : StepsTree)
  | relative (steps : StepsTree)

/-- A derivation of one step or several. -/
inductive StepsTree
  | one (step : StepTree)
  | more (step : StepTree) (separator : Separator) (others : StepsTree)

/-- A derivation of a step. -/
inductive StepTree
  | here
  | up
  | along (mark : AxisMark) (test : TestTree) (predicates : List PredicateTree)

/-- A derivation of what stands between the brackets of a predicate. -/
inductive PredicateTree
  | position (n : Nat) (h : 1 ≤ n)
  | last
  | nonempty (path : PathTree)
  | compare (path : PathTree) (comparison : Comparison) (operand : OperandTree)

end

/-- A derivation of an expression. -/
inductive ExpressionTree
  | one (path : PathTree)
  | more (path : PathTree) (others : ExpressionTree)

/-! ### Words -/

/-- The name of an axis. -/
def Axis.name : Axis → String
  | child => "child"
  | descendant => "descendant"
  | descendantOrSelf => "descendant-or-self"
  | self => "self"
  | parent => "parent"
  | ancestor => "ancestor"
  | attributes => "attribute"
  | followingSibling => "following-sibling"
  | precedingSibling => "preceding-sibling"

def Comparison.token : Comparison → Token
  | equal => .equal
  | notEqual => .notEqual

def AxisMark.word : AxisMark → List Token
  | omitted => []
  | atSign => [.atSign]
  | named a => [.axis a.name]

def TestTree.word : TestTree → List Token
  | any => [.star]
  | plain name _ => [.name name]
  | labelled label name _ => [.name (label ++ ":" ++ name)]
  | text => [.name "text", .leftParen, .rightParen]
  | node => [.name "node", .leftParen, .rightParen]

def Separator.token : Separator → Token
  | slash => .slash
  | doubleSlash => .doubleSlash

def OperandTree.token : OperandTree → Token
  | literal text => .literal text
  | number n => .number n

mutual

def PathTree.word : PathTree → List Token
  | .root => [.slash]
  | .fromRoot ss => .slash :: ss.word
  | .anyDepth ss => .doubleSlash :: ss.word
  | .relative ss => ss.word

def StepsTree.word : StepsTree → List Token
  | .one s => s.word
  | .more s separator ss => s.word ++ separator.token :: ss.word

def StepTree.word : StepTree → List Token
  | .here => [.dot]
  | .up => [.doubleDot]
  | .along mark test ps => mark.word ++ test.word ++ PredicateTree.words ps

/-- The word of predicates one after the other, each in its brackets. -/
def PredicateTree.words : List PredicateTree → List Token
  | [] => []
  | p :: ps => .leftBracket :: (p.word ++ .rightBracket :: PredicateTree.words ps)

def PredicateTree.word : PredicateTree → List Token
  | .position n _ => [.number n]
  | .last => [.name "last", .leftParen, .rightParen]
  | .nonempty path => path.word
  | .compare path comparison operand => path.word ++ [comparison.token, operand.token]

end

/-- The tokens that a tree derives. -/
def ExpressionTree.word : ExpressionTree → List Token
  | one path => path.word
  | more path others => path.word ++ .pipe :: others.word

/-! ### What trees denote -/

/-- The axis is that of the children by default. -/
def AxisMark.axis : AxisMark → Axis
  | omitted => .child
  | atSign => .attributes
  | named a => a

/-- A namespace label does not count. -/
def TestTree.test : TestTree → NodeTest
  | any => .any
  | plain name _ => .name name
  | labelled _ name _ => .name name
  | text => .text
  | node => .node

/-- What two slashes insert between two steps. -/
def Separator.inserted : Separator → List Step
  | slash => []
  | doubleSlash => [.mk .descendantOrSelf .node []]

/-- A number stands for its decimal text. -/
def OperandTree.text : OperandTree → String
  | literal text => text
  | number n => toString n

mutual

def PathTree.path : PathTree → Path
  | .root => .mk true []
  | .fromRoot ss => .mk true ss.steps
  | .anyDepth ss => .mk true (.mk .descendantOrSelf .node [] :: ss.steps)
  | .relative ss => .mk false ss.steps

def StepsTree.steps : StepsTree → List Step
  | .one s => [s.step]
  | .more s separator ss => s.step :: (separator.inserted ++ ss.steps)

def StepTree.step : StepTree → Step
  | .here => .mk .self .node []
  | .up => .mk .parent .node []
  | .along mark test ps => .mk mark.axis test.test (PredicateTree.predicates ps)

def PredicateTree.predicates : List PredicateTree → List Predicate
  | [] => []
  | p :: ps => p.predicate :: PredicateTree.predicates ps

def PredicateTree.predicate : PredicateTree → Predicate
  | .position n _ => .position n
  | .last => .last
  | .nonempty path => .nonempty path.path
  | .compare path comparison operand => .compare path.path comparison operand.text

end

def ExpressionTree.paths : ExpressionTree → List Path
  | one path => [path.path]
  | more path others => path.path :: others.paths

/-- The expression that a tree denotes. -/
def ExpressionTree.expression (e : ExpressionTree) : Expression := ⟨e.paths⟩

/-! ### What may follow -/

/-- The tokens begin with one that may follow a path, or there are none. -/
inductive EndsPath : List Token → Prop
  | nil : EndsPath []
  | pipe (ts : List Token) : EndsPath (.pipe :: ts)
  | rightBracket (ts : List Token) : EndsPath (.rightBracket :: ts)
  | equal (ts : List Token) : EndsPath (.equal :: ts)
  | notEqual (ts : List Token) : EndsPath (.notEqual :: ts)

/-- The tokens begin with one that may follow a step, or there are none. -/
inductive EndsStep : List Token → Prop
  | path {ts : List Token} (h : EndsPath ts) : EndsStep ts
  | slash (ts : List Token) : EndsStep (.slash :: ts)
  | doubleSlash (ts : List Token) : EndsStep (.doubleSlash :: ts)

theorem endsPath_comparison (c : Comparison) (ts : List Token) : EndsPath (c.token :: ts) := by
  cases c with
  | equal => exact .equal ts
  | notEqual => exact .notEqual ts

theorem endsStep_separator (s : Separator) (ts : List Token) : EndsStep (s.token :: ts) := by
  cases s with
  | slash => exact .slash ts
  | doubleSlash => exact .doubleSlash ts

theorem EndsPath.startsStep {ts : List Token} (h : EndsPath ts) : startsStep ts = false := by
  cases h <;> rfl

theorem EndsPath.ne_separator {ts us : List Token} (h : EndsPath ts) (s : Separator) :
    ts ≠ s.token :: us := by
  rintro rfl
  cases s <;> cases h

theorem EndsStep.head?_ne {ts : List Token} (h : EndsStep ts) :
    ts.head? ≠ some .leftParen ∧ ts.head? ≠ some .leftBracket := by
  cases h with
  | path h => cases h <;> exact ⟨nofun, nofun⟩
  | _ => exact ⟨nofun, nofun⟩

/-! ### First tokens -/

section

variable {rest us : List Token}

theorem TestTree.startsStep_word (test : TestTree) (rest : List Token) :
    startsStep (test.word ++ rest) = true := by
  cases test <;> rfl

theorem StepTree.startsStep_word (s : StepTree) (rest : List Token) :
    startsStep (s.word ++ rest) = true := by
  cases s with
  | here => rfl
  | up => rfl
  | along mark test ps =>
    rw [word, List.append_assoc, List.append_assoc]
    cases mark with
    | omitted => exact test.startsStep_word _
    | atSign => rfl
    | named a => rfl

theorem StepsTree.startsStep_word (ss : StepsTree) (rest : List Token) :
    startsStep (ss.word ++ rest) = true := by
  cases ss with
  | one s => exact s.startsStep_word rest
  | more s separator ss =>
    rw [word, List.append_assoc]
    exact s.startsStep_word _

theorem StepsTree.word_append_ne (ss : StepsTree) (h : startsStep us = false) :
    ss.word ++ rest ≠ us := by
  rintro rfl
  rw [ss.startsStep_word rest] at h
  cases h

theorem length_pos_of_startsStep {ts : List Token} (h : startsStep ts = true) : 0 < ts.length := by
  cases ts with
  | nil => cases h
  | cons t ts => exact Nat.succ_pos _

theorem TestTree.length_word_pos (test : TestTree) : 0 < test.word.length := by
  cases test <;> exact Nat.succ_pos _

theorem StepTree.length_word_pos (s : StepTree) : 0 < s.word.length := by
  have h := s.startsStep_word []
  rw [List.append_nil] at h
  exact length_pos_of_startsStep h

theorem StepsTree.length_word_pos (ss : StepsTree) : 0 < ss.word.length := by
  have h := ss.startsStep_word []
  rw [List.append_nil] at h
  exact length_pos_of_startsStep h

theorem PathTree.length_word_pos (p : PathTree) : 0 < p.word.length := by
  cases p with
  | relative ss => exact ss.length_word_pos
  | _ => exact Nat.succ_pos _

/-! ### Trees by their first tokens -/

theorem PathTree.of_slash {p : PathTree} (h : p.word ++ rest = .slash :: us) :
    p = .root ∧ rest = us ∨ ∃ ss, p = .fromRoot ss ∧ ss.word ++ rest = us := by
  cases p with
  | root => exact .inl ⟨rfl, (List.cons.inj h).2⟩
  | fromRoot ss => exact .inr ⟨ss, rfl, (List.cons.inj h).2⟩
  | anyDepth ss => cases h
  | relative ss => exact absurd h (ss.word_append_ne rfl)

theorem PathTree.of_doubleSlash {p : PathTree} (h : p.word ++ rest = .doubleSlash :: us) :
    ∃ ss, p = .anyDepth ss ∧ ss.word ++ rest = us := by
  cases p with
  | root => cases h
  | fromRoot ss => cases h
  | anyDepth ss => exact ⟨ss, rfl, (List.cons.inj h).2⟩
  | relative ss => exact absurd h (ss.word_append_ne rfl)

theorem PathTree.of_startsStep {p : PathTree} (h : startsStep (p.word ++ rest) = true) :
    ∃ ss, p = .relative ss := by
  cases p with
  | relative ss => exact ⟨ss, rfl⟩
  | _ => cases h

/-- A path does not begin with a number. -/
theorem PathTree.ne_number {p : PathTree} {n : Nat} : p.word ++ rest ≠ .number n :: us := by
  intro h
  cases p with
  | relative ss => exact absurd h (ss.word_append_ne rfl)
  | _ => cases h

theorem PredicateTree.head?_words_ne (ps : List PredicateTree)
    (h : rest.head? ≠ some .leftParen) : (words ps ++ rest).head? ≠ some .leftParen := by
  cases ps with
  | nil => exact h
  | cons p ps => exact nofun

theorem StepTree.of_dot {s : StepTree} (h : s.word ++ rest = .dot :: us) :
    s = .here ∧ rest = us := by
  cases s with
  | here => exact ⟨rfl, (List.cons.inj h).2⟩
  | up => cases h
  | along mark test ps => cases mark <;> cases test <;> cases h

theorem StepTree.of_doubleDot {s : StepTree} (h : s.word ++ rest = .doubleDot :: us) :
    s = .up ∧ rest = us := by
  cases s with
  | here => cases h
  | up => exact ⟨rfl, (List.cons.inj h).2⟩
  | along mark test ps => cases mark <;> cases test <;> cases h

/-- Where a step begins with a name and a parenthesis, it is one of the two tests that have one. -/
theorem StepTree.name_of_leftParen {s : StepTree} {n : String} (hrest : EndsStep rest)
    (h : s.word ++ rest = .name n :: .leftParen :: us) : n = "text" ∨ n = "node" := by
  cases s with
  | here => cases h
  | up => cases h
  | along mark test ps =>
    rw [word, List.append_assoc, List.append_assoc] at h
    have hparen := PredicateTree.head?_words_ne ps hrest.head?_ne.1
    cases mark with
    | atSign => cases h
    | named a => cases h
    | omitted =>
      cases test with
      | any => cases h
      | text => exact .inl (Token.name.inj (List.cons.inj h).1).symm
      | node => exact .inr (Token.name.inj (List.cons.inj h).1).symm
      | plain name _ => exact absurd (congrArg List.head? (List.cons.inj h).2) hparen
      | labelled label name _ => exact absurd (congrArg List.head? (List.cons.inj h).2) hparen

/-- A path does not begin with `last()`. -/
theorem PathTree.ne_last {p : PathTree} (hrest : EndsPath rest) :
    p.word ++ rest ≠ .name "last" :: .leftParen :: us := by
  intro h
  obtain ⟨ss, rfl⟩ : ∃ ss, p = .relative ss := of_startsStep (by rw [h]; rfl)
  have hname : "last" = "text" ∨ "last" = "node" := by
    cases ss with
    | one s => exact StepTree.name_of_leftParen (.path hrest) h
    | more s separator ss =>
      rw [word, StepsTree.word, List.append_assoc] at h
      exact StepTree.name_of_leftParen (endsStep_separator separator _) h
  revert hname
  decide

theorem PredicateTree.compare_word_append (path : PathTree) (c : Comparison) (o : OperandTree)
    (rest : List Token) :
    (compare path c o).word ++ rest = path.word ++ c.token :: o.token :: rest := by
  rw [word, List.append_assoc]
  rfl

theorem PredicateTree.of_number {p : PredicateTree} {n : Nat}
    (h : p.word ++ rest = .number n :: us) : ∃ hn, p = .position n hn ∧ rest = us := by
  cases p with
  | position m hm =>
    obtain rfl : m = n := Token.number.inj (List.cons.inj h).1
    exact ⟨hm, rfl, (List.cons.inj h).2⟩
  | last => cases h
  | nonempty path => exact absurd h path.ne_number
  | compare path c o =>
    rw [compare_word_append] at h
    exact absurd h path.ne_number

theorem PredicateTree.of_last {p : PredicateTree}
    (h : p.word ++ .rightBracket :: rest = .name "last" :: .leftParen :: us) :
    p = .last ∧ .rightParen :: .rightBracket :: rest = us := by
  cases p with
  | position n hn => cases h
  | last => exact ⟨rfl, (List.cons.inj (List.cons.inj h).2).2⟩
  | nonempty path => exact absurd h (path.ne_last (.rightBracket rest))
  | compare path c o =>
    rw [compare_word_append] at h
    exact absurd h (path.ne_last (endsPath_comparison c _))

end

end XmlHarvest.XPath
