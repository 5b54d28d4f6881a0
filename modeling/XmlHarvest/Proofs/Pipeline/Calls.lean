/-
Which documents the parsers take, over any attempts one after the other.

The attempts may differ in everything: the files, the settings, the parser and where they stop.
`Attempt.Course` is how the progress runs through them.  Main statement: the documents are taken in
the order of their ids, and one is taken again only after an attempt that lost its mark; every
document that the mark has reached was taken; and when the flag of the parsing stage is set, so is
that of the first stage, and every stored document was taken (`Attempt.TakenInOrder`).
-/
import XmlHarvest.Proofs.Pipeline.Stages

namespace XmlHarvest

open Checkpoint

variable {σ : Type}

/-! ### What a database answers -/

section Answers

variable {db : Database} {p : Progress}

theorem answer_stageDone (h : db.Shows p) (s : Stage) :
    (stageDone s).answer? db = some true ↔ p.flag s = some true := by
  rw [Access.answer?, h.stageDone]
  simp

theorem answer_latestParsed (h : db.Shows p) :
    latestParsed.answer? db =
      if p.parsedCount < 2 ^ 63 then some (p.parsedCount : Int) else none := by
  rw [Access.answer?, h.latestParsed]
  by_cases hfits : p.parsedCount < 2 ^ 63
  · rw [if_pos hfits, if_pos hfits]
  · rw [if_neg hfits, if_neg hfits]

/-- The document behind the mark is not the one that is read as parsed last. -/
theorem answer_latestParsed_ne (h : db.Shows p) :
    latestParsed.answer? db ≠ some ((p.parsedCount + 1 : Nat) : Int) := by
  rw [answer_latestParsed h]
  split
  · intro heq
    have hcount := Option.some.inj heq
    omega
  · exact fun heq => nomatch heq

end Answers

namespace Attempt

/-! ### Single attempts -/

/-- The ids of the documents that the parser took in the run on a database, in their order. -/
def taken (a : Attempt) (db : Database) : List Nat := takenIn (Run.last (a.outcome db)).calls

/-- The run on a database stopped since the mark could not be set to the document that the parser
had just taken, and the mark that it left is another one. -/
def LosesMark (a : Attempt) (db : Database) (id : Nat) : Prop :=
  ∃ e r, a.outcome db = .error e r ∧ r.calls.getLast? = some (id, true) ∧
    a.limits.Refuses ⟨parsedKey, toString (id : Int), .update⟩ e ∧
    latestParsed.answer? (a.after db) ≠ some (id : Int)

theorem start_shows (a : Attempt) {db : Database} {p : Progress} (hdb : db.Shows p) :
    (a.start db).Shows a.limits p :=
  ⟨⟨hdb.closed, hdb.tables⟩, rfl, rfl⟩

/-- What an attempt brings about, whatever its collection, its settings and its parser are. -/
theorem ran_after {a : Attempt} {db : Database} {p : Progress} (hdb : db.Shows p) :
    ∃ p', (a.after db).Shows p' ∧ a.pipeline.Ran p p' ∧
      (a.taken db = p.passed p' ∨
        a.taken db = p.passed p' ++ [p'.parsedCount + 1] ∧
          a.LosesMark db (p'.parsedCount + 1)) := by
  have hstart := start_shows a hdb
  unfold taken LosesMark after
  cases hrun : a.outcome db with
  | ok s r =>
    obtain ⟨p', calls, hr, hcalls, hwent, -⟩ := Pipeline.brings_process.of_ok hstart hrun
    obtain rfl : r.calls = calls := hcalls
    exact ⟨p', hr.database, hwent.ran, .inl hwent.taken⟩
  | error e r =>
    obtain ⟨p', calls, hr, hcalls, hran, htaken⟩ := Pipeline.brings_process.of_error hstart hrun
    obtain rfl : r.calls = calls := hcalls
    refine ⟨p', hr.database, hran, htaken.imp_right fun hlost => ?_⟩
    exact ⟨hlost.taken, e, r, rfl, hlost.last, hlost.refused, answer_latestParsed_ne hr.database⟩

/-! ### Attempts one after the other -/

/-- How the progress runs through some attempts on a new database, and what their parsers take. -/
inductive Course : List Attempt → Progress → Prop
  | nil : Course [] .none
  | append {as : List Attempt} {a : Attempt} {p p' : Progress} (before : Course as p)
      (ran : a.pipeline.Ran p p') (shown : (afterAll as).Shows p)
      (taken : a.taken (afterAll as) = p.passed p' ∨
        a.taken (afterAll as) = p.passed p' ++ [p'.parsedCount + 1] ∧
          a.LosesMark (afterAll as) (p'.parsedCount + 1))
      (shown' : (afterAll (as ++ [a])).Shows p') : Course (as ++ [a]) p'

variable {as : List Attempt} {p : Progress}

theorem Course.shows (h : Course as p) : (afterAll as).Shows p := by
  cases h with
  | nil => exact .migrated
  | append _ _ _ _ shown' => exact shown'

theorem course_afterAll (as : List Attempt) : ∃ p, Course as p := by
  induction as using List.reverseRecOn with
  | nil => exact ⟨.none, .nil⟩
  | append_singleton as a ih =>
    obtain ⟨p, hp⟩ := ih
    obtain ⟨p', hdb', hran, htaken⟩ := ran_after (a := a) hp.shows
    exact ⟨p', .append hp hran hp.shows htaken (by rwa [afterAll_append_singleton])⟩

end Attempt

/-! ### The mark, the flags and the documents -/

/-- The mark of the parsed documents and the flags of the first two stages fit each other. -/
structure Progress.InStep (p : Progress) : Prop where
  within : p.parsedCount ≤ p.documents.length
  waiting : p.flag .textAndMetadata ≠ some true →
    p.parsedCount = 0 ∧ p.flag .grammaticalProcessing ≠ some true
  done : p.flag .grammaticalProcessing = some true → p.documents.length ≤ p.parsedCount

namespace Progress.InStep

theorem none : Progress.none.InStep :=
  ⟨Nat.zero_le _, fun _ => ⟨rfl, fun h => nomatch h⟩, fun h => nomatch h⟩

theorem ran {pl : Pipeline σ} {p p' : Progress} (hp : p.InStep) (h : pl.Ran p p') : p'.InStep where
  within := h.within hp.within
  waiting hopened := by
    have hopened' : p.flag .textAndMetadata ≠ some true := fun hdone =>
      hopened (h.skipped hdone).2
    obtain ⟨hparsed, hflag⟩ := h.waiting hopened
    rw [parsedCount, hparsed, hflag]
    exact hp.waiting hopened'
  done hdone := by
    rcases h.done hdone with hbefore | ⟨hall, -⟩
    · -- Both stages were done already, so neither the documents nor the mark have changed.
      have htext : p.flag .textAndMetadata = some true :=
        Decidable.byContradiction fun hopened => (hp.waiting hopened).2 hbefore
      have hdocuments : p'.documents = p.documents := by
        rw [documents, documents, (h.skipped htext).1]
      rw [hdocuments, parsedCount, (h.settled hbefore).2]
      exact hp.done hbefore
    · exact hall

end Progress.InStep

namespace Attempt

variable {as : List Attempt} {p : Progress}

theorem Course.inStep (h : Course as p) : p.InStep := by
  induction h with
  | nil => exact .none
  | append _ ran _ _ _ ih => exact ih.ran ran

/-! ### What the parsers took -/

/-- What the parsers took in all attempts, one after the other: each document by its id, with the
number of the attempt in which it was taken. -/
def history (as : List Attempt) : List (Nat × Nat) :=
  as.zipIdx.flatMap fun e => (e.1.taken (afterAll (as.take e.2))).map fun id => (e.2, id)

/-- The attempt with number `i` took the document and lost its mark. -/
def MarkLost (as : List Attempt) (i id : Nat) : Prop :=
  ∃ a, as[i]? = some a ∧ a.LosesMark (afterAll (as.take i)) id

theorem history_append_singleton (as : List Attempt) (a : Attempt) :
    history (as ++ [a]) = history as ++ (a.taken (afterAll as)).map fun id => (as.length, id) := by
  have hbefore : ∀ e ∈ as.zipIdx, (as ++ [a]).take e.2 = as.take e.2 := by
    intro e he
    have hlt := List.snd_lt_of_mem_zipIdx he
    exact List.take_append_of_le_length (by omega)
  unfold history
  rw [List.zipIdx_append, List.flatMap_append]
  congr 1
  · apply List.flatMap_congr
    intro e he
    rw [hbefore e he]
  · simp

theorem lt_length_of_mem_history {x : Nat × Nat} (h : x ∈ history as) : x.1 < as.length := by
  obtain ⟨e, he, hx⟩ := List.mem_flatMap.mp h
  obtain ⟨id, -, rfl⟩ := List.mem_map.mp hx
  have hlt := List.snd_lt_of_mem_zipIdx he
  omega

theorem MarkLost.append {i id : Nat} (h : MarkLost as i id) (a : Attempt) :
    MarkLost (as ++ [a]) i id := by
  obtain ⟨b, hb, hloses⟩ := h
  have hlt : i < as.length := (List.getElem?_eq_some_iff.mp hb).1
  refine ⟨b, ?_, ?_⟩
  · rw [List.getElem?_append_left hlt, hb]
  · rwa [List.take_append_of_le_length (by omega)]

/-- The document is taken before another one.  If this is the same document, it is taken by a later
attempt, and the mark of the first time was lost. -/
def Precedes (as : List Attempt) (x y : Nat × Nat) : Prop :=
  x.2 ≤ y.2 ∧ (x.2 = y.2 → x.1 < y.1 ∧ MarkLost as x.1 x.2)

theorem Precedes.append {x y : Nat × Nat} (h : Precedes as x y) (a : Attempt) :
    Precedes (as ++ [a]) x y := by
  refine ⟨h.1, fun heq => ?_⟩
  obtain ⟨hlt, hlost⟩ := h.2 heq
  exact ⟨hlt, hlost.append a⟩

/-- The progress fits what the parsers took: they took all documents that the mark has reached, and
beyond it only the next one, as often as its mark was lost. -/
structure Accounts (as : List Attempt) (p : Progress) : Prop where
  reached : ∀ id, 0 < id → id ≤ p.parsedCount → ∃ i, (i, id) ∈ history as
  ahead : ∀ x ∈ history as,
    x.2 ≤ p.parsedCount ∨ x.2 = p.parsedCount + 1 ∧ MarkLost as x.1 x.2
  order : (history as).Pairwise (Precedes as)

namespace Accounts

variable {a : Attempt} {p' : Progress}

theorem nil : Accounts [] .none where
  reached id hpos hle := absurd hpos (Nat.not_lt.mpr hle)
  ahead x hx := by cases hx
  order := .nil

/-- The next attempt takes documents behind the mark, in their order. -/
theorem append (h : Accounts as p) {ids : List Nat} (htaken : a.taken (afterAll as) = ids)
    (hle : p.parsedCount ≤ p'.parsedCount) (hpassed : ∀ id ∈ p.passed p', id ∈ ids)
    (hids : ids.Pairwise (· < ·))
    (hahead : ∀ id ∈ ids, p.parsedCount < id ∧ (id ≤ p'.parsedCount ∨
      id = p'.parsedCount + 1 ∧ MarkLost (as ++ [a]) as.length id)) :
    Accounts (as ++ [a]) p' where
  reached id hpos hreached := by
    simp only [history_append_singleton, htaken, List.mem_append]
    by_cases hold : id ≤ p.parsedCount
    · obtain ⟨i, hi⟩ := h.reached id hpos hold
      exact ⟨i, .inl hi⟩
    · have hnew : id ∈ p.passed p' := by
        rw [Progress.passed, List.mem_range'_1]
        omega
      exact ⟨as.length, .inr (List.mem_map_of_mem (hpassed id hnew))⟩
  ahead x hx := by
    rw [history_append_singleton, htaken, List.mem_append] at hx
    rcases hx with hold | hnew
    · rcases h.ahead x hold with hreached | ⟨hnext, hlost⟩
      · exact .inl (hreached.trans hle)
      · -- Either the mark has got beyond the document, or it still is the next one.
        by_cases hmoved : x.2 ≤ p'.parsedCount
        · exact .inl hmoved
        · exact .inr ⟨by omega, hlost.append a⟩
    · obtain ⟨id, hid, rfl⟩ := List.mem_map.mp hnew
      exact (hahead id hid).2
  order := by
    rw [history_append_singleton, htaken, List.pairwise_append]
    refine ⟨h.order.imp fun hxy => hxy.append a, ?_, ?_⟩
    · rw [List.pairwise_map]
      exact hids.imp fun hlt => ⟨Nat.le_of_lt hlt, fun heq => absurd heq (Nat.ne_of_lt hlt)⟩
    · intro x hx y hy
      obtain ⟨id, hid, rfl⟩ := List.mem_map.mp hy
      have hbehind := (hahead id hid).1
      rcases h.ahead x hx with hreached | ⟨hnext, hlost⟩
      · exact ⟨by omega, fun heq => by omega⟩
      · exact ⟨by omega, fun _ => ⟨lt_length_of_mem_history hx, hlost.append a⟩⟩

end Accounts

theorem Course.accounts (h : Course as p) : Accounts as p := by
  induction h with
  | nil => exact .nil
  | @append as a p p' before ran shown taken shown' ih =>
    have hpassed : ∀ id ∈ p.passed p', p.parsedCount < id ∧ id ≤ p'.parsedCount := by
      intro id hid
      rw [Progress.passed, List.mem_range'_1] at hid
      omega
    have hsorted : (p.passed p').Pairwise (· < ·) := List.pairwise_lt_range'
    rcases taken with htaken | ⟨htaken, hloses⟩
    · refine ih.append htaken ran.le (fun _ hid => hid) hsorted ?_
      intro id hid
      exact ⟨(hpassed id hid).1, .inl (hpassed id hid).2⟩
    · have hlost : MarkLost (as ++ [a]) as.length (p'.parsedCount + 1) := by
        refine ⟨a, by simp, ?_⟩
        rwa [List.take_left]
      refine ih.append htaken ran.le (fun _ hid => List.mem_append_left _ hid) ?_ ?_
      · rw [List.pairwise_append]
        refine ⟨hsorted, List.pairwise_singleton _ _, ?_⟩
        intro id hid next hnext
        rw [List.mem_singleton.mp hnext]
        exact Nat.lt_succ_of_le (hpassed id hid).2
      · intro id hid
        rcases List.mem_append.mp hid with hid | hid
        · exact ⟨(hpassed id hid).1, .inl (hpassed id hid).2⟩
        · rw [List.mem_singleton.mp hid]
          exact ⟨Nat.lt_succ_of_le ran.le, .inr ⟨rfl, hlost⟩⟩

/-! ### What the database says of it -/

/-- The attempts have left the documents with the ids and the mark of the document parsed last, and
what their parsers took fits both. -/
structure TakenInOrder (as : List Attempt) (ids : List Nat) (mark : Nat) : Prop where
  stored : Access.ids.answer? (afterAll as) = some ids
  text : mark ≠ 0 → (Access.ledgerValue parsedKey).answer? (afterAll as) = some (toString mark)
  read : latestParsed.answer? (afterAll as) = if mark < 2 ^ 63 then some (mark : Int) else none
  order : (history as).Pairwise (Precedes as)
  reached : ∀ id ∈ ids, id ≤ mark → ∃ i, (i, id) ∈ history as
  done : (stageDone .grammaticalProcessing).answer? (afterAll as) = some true →
    (stageDone .textAndMetadata).answer? (afterAll as) = some true ∧
      ∀ id ∈ ids, ∃ i, (i, id) ∈ history as

/-- However the attempts differ and wherever they stop, no document is left out, and none is taken
twice unless its mark was lost. -/
theorem takenInOrder_afterAll (as : List Attempt) : ∃ ids mark, TakenInOrder as ids mark := by
  obtain ⟨p, hcourse⟩ := course_afterAll as
  have hdb := hcourse.shows
  have hinStep := hcourse.inStep
  have haccounts := hcourse.accounts
  have hids : ∀ id ∈ List.range' 1 p.documents.length, 0 < id ∧ id ≤ p.documents.length := by
    intro id hid
    rw [List.mem_range'_1] at hid
    omega
  refine ⟨List.range' 1 p.documents.length, p.parsedCount, ?_, ?_, ?_, haccounts.order, ?_, ?_⟩
  · rw [Access.answer?, hdb.ids]
  · intro hset
    have hparsed : p.parsed = some p.parsedCount := by
      unfold Progress.parsedCount at hset ⊢
      cases hm : p.parsed with
      | none => exact absurd (by rw [hm]; rfl) hset
      | some m => rfl
    rw [Access.answer?, hdb.ledgerValue, Progress.text?_parsedKey, hparsed]
    rfl
  · exact answer_latestParsed hdb
  · intro id hid hle
    exact haccounts.reached id (hids id hid).1 hle
  · intro hdone
    rw [answer_stageDone hdb] at hdone
    have htext : p.flag .textAndMetadata = some true :=
      Decidable.byContradiction fun hopened => (hinStep.waiting hopened).2 hdone
    refine ⟨(answer_stageDone hdb _).mpr htext, fun id hid => ?_⟩
    · obtain ⟨hpos, hle⟩ := hids id hid
      exact haccounts.reached id hpos (hle.trans (hinStep.done hdone))

end Attempt

end XmlHarvest
