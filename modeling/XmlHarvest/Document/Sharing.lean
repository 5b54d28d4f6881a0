/-
Which sentences hold the same metadata list.

The sentences of one block of text hold one list.  A document that is read back has a list for
each sentence at first; then every sentence takes over the list of the sentence before it in its
unit when the two are equal.
-/
import XmlHarvest.Document.Basic

namespace XmlHarvest

/-- A sentence with the number of the list object that it holds. -/
structure Held where
  sentence : Sentence
  list : Nat
  deriving DecidableEq, Repr

mutual

/-- The tree in which every sentence holds a list of its own, numbered from `next` on. -/
def TextUnit.apart (next : Nat) : TextUnit Sentence → TextUnit Held
  | ⟨name, metadata, units, sentences⟩ =>
    ⟨name, metadata, TextUnit.apartAll (next + sentences.length) units,
      (sentences.zipIdx next).map fun (s, k) => ⟨s, k⟩⟩

def TextUnit.apartAll (next : Nat) : List (TextUnit Sentence) → List (TextUnit Held)
  | [] => []
  | u :: us => u.apart next :: TextUnit.apartAll (next + u.leaves.length) us

end

/-- Take over the list of the sentence before when it is equal. -/
def Held.follow (before h : Held) : Held :=
  if before.sentence.metadata = h.sentence.metadata then
    ⟨⟨h.sentence.text, before.sentence.metadata⟩, before.list⟩
  else h

/-- Each sentence after `before` takes over the list before it when it is equal. -/
def Held.shareAfter (before : Held) : List Held → List Held
  | [] => []
  | h :: hs => before.follow h :: Held.shareAfter (before.follow h) hs

/-- The sentences of one unit with the lists of neighbours shared. -/
def Held.share : List Held → List Held
  | [] => []
  | h :: hs => h :: Held.shareAfter h hs

/-- The tree with the lists of neighbouring sentences shared in every unit. -/
def TextUnit.share (u : TextUnit Held) : TextUnit Held := u.mapOwn Held.share

/-- The tree without its list numbers. -/
def TextUnit.values (u : TextUnit Held) : TextUnit Sentence := u.mapOwn (·.map Held.sentence)

/-- Numbers given anew from zero in the order of first appearance. -/
def renumber (labels : List Nat) : List Nat :=
  labels.map fun l => labels.eraseDups.idxOf l

/-- For each sentence of a tree the number of its list, in the order of first appearance. -/
def TextUnit.sharing (u : TextUnit Held) : List Nat :=
  renumber (u.leaves.map Held.list)

end XmlHarvest
