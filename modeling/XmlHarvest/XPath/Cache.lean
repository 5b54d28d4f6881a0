/-
Compiled expressions, kept so that each is compiled once.

The cache holds expressions that compile and nothing else, each under its own text.
-/
import XmlHarvest.XPath.Parser
import XmlHarvest.XPath.Selection

namespace XmlHarvest.XPath

open Xml (Item Tree)

/-! ### Resolution -/

/-- What an expression selects from a node, given a way to compile it.  The blank
expression selects the node itself and is not compiled. -/
def resolve {m : Type → Type} [Monad m] (compiled : String → m Expression) (t : Tree)
    (expression : String) (k : Nat) : m (List Item) :=
  if isSelf expression then pure [.node k]
  else (fun e => e.select t k) <$> compiled expression

/-! ### The cache -/

/-- Expressions under the texts that they were compiled from. -/
structure Cache where
  entries : List (String × Expression)

/-- The cache before any use. -/
def Cache.empty : Cache := ⟨[]⟩

/-- The compiled expression of a text, from the cache if it is there, and otherwise compiled and
kept.  What does not compile is not kept. -/
def Cache.get (expression : String) : ExceptT Invalid (StateM Cache) Expression := fun cache =>
  match cache.entries.lookup expression with
  | some e => (.ok e, cache)
  | none =>
    match compile expression with
    | .ok e => (.ok e, ⟨(expression, e) :: cache.entries⟩)
    | .error fault => (.error fault, cache)

/-- What an expression selects from a node, by way of the cache. -/
def Cache.resolve (t : Tree) (expression : String) (k : Nat) :
    ExceptT Invalid (StateM Cache) (List Item) :=
  XPath.resolve Cache.get t expression k

end XmlHarvest.XPath
