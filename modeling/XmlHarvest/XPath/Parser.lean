/-
Reading an expression from its tokens, by recursive descent.

Every function takes a bound on the depth of its calls, so that the recursion is on the bound;
`Expression.ofTokens` starts with more than the tokens can use up, and no caller sees the bound.
-/
import XmlHarvest.XPath.Lexer
import XmlHarvest.XPath.Path

namespace XmlHarvest.XPath

/-! ### Single tokens -/

/-- Take the given token away or fail. -/
def expect (t : Token) : List Token → Except Fault (List Token)
  | [] => .error (.expected t none)
  | u :: ts => if u = t then .ok ts else .error (.expected t (some u))

/-- Whether a step may begin with the first of the tokens.  After a first slash this decides
whether the path ends there. -/
def startsStep : List Token → Bool
  | .dot :: _ | .doubleDot :: _ | .atSign :: _ | .star :: _ | .axis _ :: _ | .name _ :: _ => true
  | _ => false

/-- The part of a name after its namespace label, if it has one. -/
def localPart (name : String) : String :=
  match name.toList.dropWhile (· != ':') with
  | [] => name
  | _ :: cs => String.ofList cs

/-- The axis that a step names, `child` by default. -/
def readAxis : List Token → Except Fault (Axis × List Token)
  | .atSign :: ts => .ok (.attributes, ts)
  | .axis n :: ts =>
    match Axis.ofName? n with
    | some a => .ok (a, ts)
    | none => .error (.unsupportedAxis n)
  | ts => .ok (.child, ts)

/-- A node test: a star, a name, or one of the two tests with parentheses. -/
def readTest : List Token → Except Fault (NodeTest × List Token)
  | .star :: ts => .ok (.any, ts)
  | .name n :: .leftParen :: ts => do
    let ts ← expect .rightParen ts
    match n with
    | "text" => .ok (.text, ts)
    | "node" => .ok (.node, ts)
    | _ => .error (.unsupportedTest n)
  | .name n :: ts => .ok (.name (localPart n), ts)
  | [] => .error (.expectedTest none)
  | t :: _ => .error (.expectedTest (some t))

/-- The literal of a comparison; a number is its decimal text. -/
def readLiteral : List Token → Except Fault (String × List Token)
  | .literal s :: ts => .ok (s, ts)
  | .number n :: ts => .ok (toString n, ts)
  | [] => .error (.expectedLiteral none)
  | t :: _ => .error (.expectedLiteral (some t))

/-! ### Paths -/

mutual

/-- A location path. -/
def readPath : Nat → List Token → Except Fault (Path × List Token)
  | 0, _ => .error .empty
  | depth + 1, .slash :: ts =>
    if startsStep ts then do
      let (steps, ts) ← readSteps depth ts
      return (.mk true steps, ts)
    else .ok (.mk true [], ts)
  | depth + 1, .doubleSlash :: ts => do
    let (steps, ts) ← readSteps depth ts
    return (.mk true (.anyDepth :: steps), ts)
  | depth + 1, ts => do
    let (steps, ts) ← readSteps depth ts
    return (.mk false steps, ts)

/-- One step or several with slashes between them. -/
def readSteps : Nat → List Token → Except Fault (List Step × List Token)
  | 0, _ => .error .empty
  | depth + 1, ts => do
    let (step, ts) ← readStep depth ts
    match ts with
    | .slash :: ts =>
      let (steps, ts) ← readSteps depth ts
      return (step :: steps, ts)
    | .doubleSlash :: ts =>
      let (steps, ts) ← readSteps depth ts
      return (step :: .anyDepth :: steps, ts)
    | ts => return ([step], ts)

/-- A step.  The abbreviations `.` and `..` take no predicates. -/
def readStep : Nat → List Token → Except Fault (Step × List Token)
  | 0, _ => .error .empty
  | _ + 1, .dot :: ts => .ok (.here, ts)
  | _ + 1, .doubleDot :: ts => .ok (.up, ts)
  | depth + 1, ts => do
    let (axis, ts) ← readAxis ts
    let (test, ts) ← readTest ts
    let (predicates, ts) ← readPredicates depth ts
    return (.mk axis test predicates, ts)

/-- The predicates that follow one another, each in its brackets. -/
def readPredicates : Nat → List Token → Except Fault (List Predicate × List Token)
  | 0, _ => .error .empty
  | depth + 1, .leftBracket :: ts => do
    let (predicate, ts) ← readPredicate depth ts
    let ts ← expect .rightBracket ts
    let (predicates, ts) ← readPredicates depth ts
    return (predicate :: predicates, ts)
  | _ + 1, ts => .ok ([], ts)

/-- What stands between the brackets of a predicate. -/
def readPredicate : Nat → List Token → Except Fault (Predicate × List Token)
  | 0, _ => .error .empty
  | _ + 1, .number n :: ts => if n = 0 then .error .positionZero else .ok (.position n, ts)
  | _ + 1, .name "last" :: .leftParen :: ts => do
    let ts ← expect .rightParen ts
    return (.last, ts)
  | depth + 1, ts => do
    let (path, ts) ← readPath depth ts
    match ts with
    | .equal :: ts =>
      let (literal, ts) ← readLiteral ts
      return (.compare path .equal literal, ts)
    | .notEqual :: ts =>
      let (literal, ts) ← readLiteral ts
      return (.compare path .notEqual literal, ts)
    | ts => return (.nonempty path, ts)

end

/-- Paths with bars between them. -/
def readUnion : Nat → List Token → Except Fault (List Path × List Token)
  | 0, _ => .error .empty
  | depth + 1, ts => do
    let (path, ts) ← readPath depth ts
    match ts with
    | .pipe :: ts =>
      let (paths, ts) ← readUnion depth ts
      return (path :: paths, ts)
    | ts => return ([path], ts)

/-! ### Expressions -/

/-- A depth of calls that no reading of so many tokens exceeds: each token is met by at most one
call of each of the six functions. -/
def depthFor (ts : List Token) : Nat := 6 * ts.length + 6

/-- The expression that all the tokens together write. -/
def Expression.ofTokens (ts : List Token) : Except Fault Expression := do
  let (paths, rest) ← readUnion (depthFor ts) ts
  match rest with
  | [] => return ⟨paths⟩
  | t :: _ => .error (.trailing t)

/-- Whether the text is the blank expression, which stands for the node itself. -/
def isSelf (expression : String) : Bool :=
  Text.allBlank expression

/-- Read an expression. -/
def compile (expression : String) : Except Invalid Expression :=
  let result := if isSelf expression then .error .empty else tokens expression >>= Expression.ofTokens
  result.mapError fun fault => ⟨expression, fault⟩

end XmlHarvest.XPath
