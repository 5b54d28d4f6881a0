/-
The sentences that a terminal rule makes at an element.

All that the rule matches is one block of text: the texts of the matches without the blanks around
them, a line feed after each.  The sentences of the block share one metadata list, to which every
match that is a node adds; attributes add text only.
-/
import XmlHarvest.Harvest.Metadata

namespace XmlHarvest

open Xml (Item Tree)

/-- The sentences of a block and the metadata list that they share. -/
structure Passage where
  metadata : List Metadata
  texts : List String
  deriving DecidableEq, Repr

/-- The sentences, each with the list. -/
def Passage.sentences (b : Passage) : List Sentence :=
  b.texts.map fun t => ⟨t, b.metadata⟩

/-- What a match adds to its block. -/
structure Match where
  text : String
  metadata : List Metadata
  deriving DecidableEq, Repr

variable {m : Type → Type} [Monad m]

/-- What an item adds to its block. -/
def matchOf (tools : Tools m) (t : Tree) (rules : List MetadataRule) (x : Item) : m Match :=
  let text := Text.trim (x.text t) ++ "\n"
  match x.nodeNumber? with
  | some k => (fun metadata => ⟨text, metadata⟩) <$> metadataAt tools t rules k
  | none => pure ⟨text, []⟩

/-- The matches of a rule at an element, expression by expression. -/
def matchesAt (tools : Tools m) (t : Tree) (head : RuleHead) (k : Nat) : m (List Match) :=
  gather (fun e => do
    let items ← XPath.resolve tools.compiled t e k
    gather (fun x => (fun b => [b]) <$> matchOf tools t head.metadata x) items) head.xpaths

/-- The block that some matches form.  Without a way to cut it is one sentence, even without
matches; with one, nothing is cut where nothing matched. -/
def passageOf (tools : Tools m) (ms : List Match) : m Passage :=
  let text := String.join (ms.map Match.text)
  let metadata := ms.flatMap Match.metadata
  match tools.split with
  | none => pure ⟨metadata, [text]⟩
  | some split =>
    if ms.isEmpty then pure ⟨metadata, []⟩
    else (fun texts => ⟨metadata, texts⟩) <$> split text

/-- The passage that a terminal rule makes at an element. -/
def passageAt (tools : Tools m) (t : Tree) (head : RuleHead) (k : Nat) : m Passage := do
  passageOf tools (← matchesAt tools t head k)

end XmlHarvest
