/-
The operations of a pipeline in any order, and what the flag of the parsing stage says then.

A run of all stages sets the flag of the parsing stage when no document is left, but recording
files is an operation of its own, and it leaves this flag alone.  So the flag tells of the time at
which it was set: the documents that were stored since then are not parsed, and no run parses them
while the flag is set.  Main statement: `Use.flagMeaning_afterAll`.
-/
import XmlHarvest.Proofs.Pipeline.Calls

namespace XmlHarvest

open Checkpoint Step

variable {σ α : Type}

/-! ### Operations -/

/-- What is asked of a pipeline from outside. -/
inductive Operation
  | process (scratch : Bool)
  | extractRecord
  | parseDocuments
  | finishParsing

/-- The operation as a step, without what it yields. -/
def Operation.step (pl : Pipeline σ) : Operation → Step σ Unit
  | process scratch => do
    let _ ← pl.process scratch
  | extractRecord => do
    let _ ← pl.extractRecord
  | parseDocuments => do
    let _ ← pl.parseDocuments
  | finishParsing => Pipeline.finishParsing

/-- An operation that is to be made, with all that bears on it. -/
structure Use where
  attempt : Attempt
  operation : Operation

namespace Use

/-- The database that the operation leaves. -/
def after (u : Use) (db : Database) : Database :=
  (Run.last (u.operation.step u.attempt.pipeline (u.attempt.start db))).database

/-- The database after some operations on a new one. -/
def afterAll (us : List Use) : Database := us.foldl (fun db u => u.after db) .migrated

@[simp] theorem afterAll_append_singleton (us : List Use) (u : Use) :
    afterAll (us ++ [u]) = u.after (afterAll us) := by
  simp [afterAll]

end Use

/-! ### What one operation does to the flag -/

/-- An operation has led from the one progress to the other.  The flag of the parsing stage is set
after it because no document was left, or because it was set before and the mark has stayed in its
place, whatever was stored. -/
structure Progress.Carried (p p' : Progress) : Prop where
  within : p.parsedCount ≤ p.documents.length → p'.parsedCount ≤ p'.documents.length
  done : p'.flag .grammaticalProcessing = some true →
    (p.flag .grammaticalProcessing = some true ∧ p'.parsed = p.parsed ∧
        p.documents <+: p'.documents) ∨
      p'.documents.length ≤ p'.parsedCount ∧ p'.parsedCount < 2 ^ 63

namespace Progress.Carried

variable {pl : Pipeline σ} {fs : List (String × Option String)} {p p' : Progress}

theorem refl (p : Progress) : p.Carried p :=
  ⟨fun h => h, fun h => .inl ⟨h, rfl, List.prefix_refl _⟩⟩

theorem of_recorded (h : pl.Recorded fs p p') : p.Carried p' where
  within hle := by
    rw [parsedCount, h.parsed]
    exact hle.trans (documents_begin h.files.kept).length_le
  done hdone := by
    rw [h.flag _ (by decide)] at hdone
    exact .inl ⟨hdone, h.parsed, documents_begin h.files.kept⟩

theorem of_advanced (h : p.Advanced p') : p.Carried p' where
  within := h.within
  done hdone := by
    refine (h.done hdone).imp_left ?_
    rintro ⟨hdone, hparsed⟩
    exact ⟨hdone, hparsed, by rw [h.documents]⟩

theorem of_ran (h : pl.Ran p p') : p.Carried p' where
  within := h.within
  done hdone := by
    refine (h.done hdone).imp_left ?_
    intro hdone
    exact ⟨hdone, (h.settled hdone).2, documents_begin h.files.kept⟩

/-- After everything was cleared, the flag is set only because no document is left. -/
theorem of_ran_none (h : pl.Ran .none p') : p.Carried p' where
  within _ := h.within (Nat.zero_le _)
  done hdone := .inr ((h.done hdone).resolve_left fun h => nomatch h)

end Progress.Carried

namespace Pipeline

variable {pl : Pipeline σ} {l : Limits} {p : Progress}

theorem brings_reset :
    Brings l p (commit Access.reset : Step σ Unit) (fun _ q calls => q = .none ∧ calls = [])
      (fun _ q calls => q = p ∧ calls = []) := by
  intro r hr
  obtain ⟨t, ht, -⟩ := hr.database.tables
  unfold Ends commit
  by_cases hcut : r.writesLeft = some 0
  · rw [if_pos hcut]
    exact ⟨p, [], hr, (List.append_nil _).symm, rfl, rfl⟩
  · simp only [if_neg hcut, Access.reset, hr.database.closed, ht]
    refine ⟨.none, [], ⟨⟨rfl, .empty, rfl, .none⟩, hr.rejected, ?_⟩,
      (List.append_nil _).symm, rfl, rfl⟩
    rw [← hr.cut]
    cases r.writesLeft <;> rfl

theorem process_scratch (pl : Pipeline σ) :
    pl.process true = commit Access.reset >>= fun _ => pl.process false := rfl

/-- A run from scratch goes on from nothing, unless it is cut off before. -/
theorem brings_process_scratch :
    Brings l p (pl.process true)
      (fun _ q calls => pl.Went .none q calls ∧
        (pl.config.needsParsing = true → q.flag .grammaticalProcessing = some true))
      (fun e q calls => q = p ∨ pl.Stopped l .none e q calls) := by
  rw [process_scratch]
  refine brings_bind brings_reset ?_ ?_
  · rintro _ _ _ ⟨rfl, rfl⟩
    exact .inl rfl
  · rintro _ _ _ ⟨rfl, rfl⟩
    exact brings_process.mono (fun _ _ _ h => h) (fun _ _ _ h => .inr h)

/-- What is made of a step is forgotten. -/
theorem brings_carried {x : Step σ α} {Q : α → Progress → List (Nat × Bool) → Prop}
    {E : RunError → Progress → List (Nat × Bool) → Prop} (hx : Brings l p x Q E)
    (hQ : ∀ a q calls, Q a q calls → p.Carried q) (hE : ∀ e q calls, E e q calls → p.Carried q) :
    Brings l p (do let _ ← x) (fun _ q _ => p.Carried q) (fun _ q _ => p.Carried q) :=
  brings_bind (hx.mono hQ hE) (fun _ _ _ h => h) fun _ _ _ h => brings_pure h

/-- Every operation carries the progress on, whether it ends or stops. -/
theorem brings_step (o : Operation) :
    Brings l p (o.step pl) (fun _ q _ => p.Carried q) (fun _ q _ => p.Carried q) := by
  cases o with
  | process scratch =>
    cases scratch with
    | false =>
      refine brings_carried brings_process ?_ ?_
      · exact fun _ _ _ h => .of_ran h.1.ran
      · exact fun _ _ _ h => .of_ran h.1
    | true =>
      refine brings_carried brings_process_scratch ?_ ?_
      · exact fun _ _ _ h => .of_ran_none h.1.ran
      · rintro _ _ _ (rfl | h)
        · exact .refl _
        · exact .of_ran_none h.1
  | extractRecord =>
    refine brings_carried brings_extractRecord ?_ ?_
    · exact fun _ _ _ h => .of_recorded h.1.1
    · exact fun _ _ _ h => .of_recorded h.1
  | parseDocuments =>
    refine brings_carried brings_parseDocuments ?_ ?_
    · exact fun _ _ _ h => .of_advanced h.1.1
    · exact fun _ _ _ h => .of_advanced h.1
  | finishParsing =>
    refine brings_finishParsing.mono ?_ ?_
    · exact fun _ _ _ h => .of_advanced h.1.1
    · rintro _ _ _ ⟨rfl, -⟩
      exact .refl _

end Pipeline

/-! ### Operations one after the other -/

/-- What is said of the progress when a step is over, whether it ends or stops. -/
theorem Step.Brings.last {x : Step σ α} {l : Limits} {p : Progress} {S : Progress → Prop}
    (h : Brings l p x (fun _ q _ => S q) (fun _ q _ => S q)) {r : Run σ} (hr : r.Shows l p) :
    ∃ p', (Run.last (x r)).database.Shows p' ∧ S p' := by
  cases hx : x r with
  | ok a r' =>
    obtain ⟨p', _, hr', -, hS⟩ := h.of_ok hr hx
    exact ⟨p', hr'.database, hS⟩
  | error e r' =>
    obtain ⟨p', _, hr', -, hS⟩ := h.of_error hr hx
    exact ⟨p', hr'.database, hS⟩

/-- The documents behind the mark, where 64 bits hold the mark. -/
theorem answer_pending {db : Database} {p : Progress} (h : db.Shows p)
    (hfits : p.parsedCount < 2 ^ 63) :
    Pipeline.pending.answer? db =
      some (List.range' (p.parsedCount + 1) (p.documents.length - p.parsedCount)) := by
  rw [Access.answer?, h.pending, if_pos hfits]

/-- With the one progress the flag of the parsing stage was set, and no document was left.  Since
then only documents were stored. -/
structure Progress.GrownFrom (p₀ p : Progress) : Prop where
  within : p₀.parsedCount ≤ p₀.documents.length
  all : p₀.documents.length ≤ p₀.parsedCount
  fits : p₀.parsedCount < 2 ^ 63
  done : p₀.flag .grammaticalProcessing = some true
  parsed : p.parsed = p₀.parsed
  documents : p₀.documents <+: p.documents

namespace Use

variable {us : List Use} {p : Progress}

theorem shows_after {u : Use} {db : Database} (hdb : db.Shows p) :
    ∃ p', (u.after db).Shows p' ∧ p.Carried p' :=
  (Pipeline.brings_step u.operation).last (u.attempt.start_shows hdb)

/-- The induction carries along when the flag was set. -/
theorem shows_afterAll (us : List Use) :
    ∃ p, (afterAll us).Shows p ∧ p.parsedCount ≤ p.documents.length ∧
      (p.flag .grammaticalProcessing = some true →
        ∃ before since p₀, us = before ++ since ∧ (afterAll before).Shows p₀ ∧ p₀.GrownFrom p) := by
  induction us using List.reverseRecOn with
  | nil => exact ⟨.none, .migrated, Nat.zero_le _, fun h => nomatch h⟩
  | append_singleton us u ih =>
    obtain ⟨p, hdb, hwithin, hset⟩ := ih
    obtain ⟨p', hdb', hcarried⟩ := shows_after (u := u) hdb
    rw [← afterAll_append_singleton] at hdb'
    refine ⟨p', hdb', hcarried.within hwithin, fun hdone => ?_⟩
    rcases hcarried.done hdone with ⟨hbefore, hparsed, hdocuments⟩ | ⟨hall, hfits⟩
    · -- The flag was set before, and this operation has stored documents at most.
      obtain ⟨before, since, p₀, rfl, hdb₀, hgrown⟩ := hset hbefore
      refine ⟨before, since ++ [u], p₀, by simp, hdb₀, hgrown.within, hgrown.all, hgrown.fits,
        hgrown.done, hparsed.trans hgrown.parsed, hgrown.documents.trans hdocuments⟩
    · -- Either this operation has set the flag, or it might have.
      exact ⟨us ++ [u], [], p', by simp, hdb', hcarried.within hwithin, hall, hfits, hdone, rfl,
        List.prefix_refl _⟩

/-- What the flag of the parsing stage says after some operations, and what a run of all stages
makes of it. -/
structure FlagMeaning (us : List Use) : Prop where
  /-- There was a time when the flag was set and no document was pending.  The documents that were
  stored since then are pending now. -/
  done : (stageDone .grammaticalProcessing).answer? (afterAll us) = some true →
    ∃ before since ids later, us = before ++ since ∧
      (stageDone .grammaticalProcessing).answer? (afterAll before) = some true ∧
      Pipeline.pending.answer? (afterAll before) = some [] ∧
      Access.ids.answer? (afterAll before) = some ids ∧
      Access.ids.answer? (afterAll us) = some (ids ++ later) ∧
      Pipeline.pending.answer? (afterAll us) = some later
  /-- While the flag is set, a run parses nothing, and what is pending stays so. -/
  skipped : ∀ (z : Attempt) s r ids,
    (stageDone .grammaticalProcessing).answer? (afterAll us) = some true →
      Pipeline.pending.answer? (afterAll us) = some ids →
      z.pipeline.process false (z.start (afterAll us)) = .ok s r →
      r.calls = [] ∧ ∃ new, Pipeline.pending.answer? r.database = some (ids ++ new)
  /-- A run that is to parse and that ends leaves nothing pending, if it begins from scratch or the
  flag is not set. -/
  parsed : ∀ (z : Attempt) scratch s r, z.pipeline.config.needsParsing = true →
    (scratch = true ∨ (stageDone .grammaticalProcessing).answer? (afterAll us) ≠ some true) →
      z.pipeline.process scratch (z.start (afterAll us)) = .ok s r →
      Pipeline.pending.answer? r.database = some []

/-- Of the numbers behind `m` up to `n'` those up to `n` come first. -/
theorem range'_behind {m n n' : Nat} (hm : m ≤ n) (hle : n ≤ n') :
    List.range' (m + 1) (n' - m) =
      List.range' (m + 1) (n - m) ++ List.range' (n + 1) (n' - n) := by
  have hcount : n' - m = (n - m) + (n' - n) := by omega
  have hnext : n + 1 = m + 1 + (n - m) := by omega
  rw [hcount, ← List.range'_append_1, ← hnext]

/-- The documents that were stored since the flag was set are those behind the mark. -/
theorem later_of_grownFrom {before : List Use} {p₀ : Progress} (hdb₀ : (afterAll before).Shows p₀)
    (hdb : (afterAll us).Shows p) (h : p₀.GrownFrom p) :
    ∃ ids later, Pipeline.pending.answer? (afterAll before) = some [] ∧
      Access.ids.answer? (afterAll before) = some ids ∧
      Access.ids.answer? (afterAll us) = some (ids ++ later) ∧
      Pipeline.pending.answer? (afterAll us) = some later := by
  have hmark : p₀.parsedCount = p₀.documents.length := Nat.le_antisymm h.within h.all
  have hcount : p.parsedCount = p₀.documents.length := by
    rw [← hmark, Progress.parsedCount, h.parsed, Progress.parsedCount]
  have hfits : p.parsedCount < 2 ^ 63 := by
    rw [hcount, ← hmark]
    exact h.fits
  refine ⟨List.range' 1 p₀.documents.length,
    List.range' (p₀.documents.length + 1) (p.documents.length - p₀.documents.length),
    ?_, ?_, ?_, ?_⟩
  · rw [answer_pending hdb₀ h.fits, hmark, Nat.sub_self]
    rfl
  · rw [Access.answer?, hdb₀.ids]
  · rw [Access.answer?, hdb.ids]
    exact congrArg some (range'_behind (Nat.zero_le _) h.documents.length_le)
  · rw [answer_pending hdb hfits, hcount]

/-- While the flag is set, a run leaves the mark where it is and keeps the documents. -/
theorem skipped_of_done {z : Attempt} {s : Summary} {r : Run z.σ} {ids : List Nat}
    (hdb : (afterAll us).Shows p) (hwithin : p.parsedCount ≤ p.documents.length)
    (hdone : p.flag .grammaticalProcessing = some true)
    (hpending : Pipeline.pending.answer? (afterAll us) = some ids)
    (hends : z.pipeline.process false (z.start (afterAll us)) = .ok s r) :
    r.calls = [] ∧ ∃ new, Pipeline.pending.answer? r.database = some (ids ++ new) := by
  obtain ⟨q, calls, hr, hcalls, hwent, -⟩ := Pipeline.brings_process.of_ok (z.start_shows hdb) hends
  have hfits : p.parsedCount < 2 ^ 63 := by
    refine Decidable.byContradiction fun hbig => ?_
    rw [Access.answer?, hdb.pending, if_neg hbig] at hpending
    cases hpending
  have hcount : q.parsedCount = p.parsedCount := by
    rw [Progress.parsedCount, (hwent.ran.settled hdone).2, Progress.parsedCount]
  have hle := (Progress.documents_begin hwent.ran.files.kept).length_le
  rw [answer_pending hdb hfits] at hpending
  obtain rfl := Option.some.inj hpending
  refine ⟨by rw [hcalls, hwent.idle hdone]; rfl,
    List.range' (p.documents.length + 1) (q.documents.length - p.documents.length), ?_⟩
  rw [answer_pending hr.database (by rwa [hcount]), hcount, range'_behind hwithin hle]

/-- A run that is to parse and that ends leaves no document behind the mark, if it begins from
scratch or the flag is not set: it finds the flag not set and sets it itself. -/
theorem all_of_opened {z : Attempt} {scratch : Bool} {s : Summary} {r : Run z.σ}
    (hdb : (afterAll us).Shows p) (hasked : z.pipeline.config.needsParsing = true)
    (hopened : scratch = true ∨ p.flag .grammaticalProcessing ≠ some true)
    (hends : z.pipeline.process scratch (z.start (afterAll us)) = .ok s r) :
    ∃ q, r.database.Shows q ∧ q.documents.length ≤ q.parsedCount ∧ q.parsedCount < 2 ^ 63 := by
  cases scratch with
  | false =>
    obtain ⟨q, calls, hr, -, hwent, hdone⟩ :=
      Pipeline.brings_process.of_ok (z.start_shows hdb) hends
    have hopened' := hopened.resolve_left fun h => nomatch h
    exact ⟨q, hr.database, (hwent.ran.done (hdone hasked)).resolve_left hopened'⟩
  | true =>
    obtain ⟨q, calls, hr, -, hwent, hdone⟩ :=
      Pipeline.brings_process_scratch.of_ok (z.start_shows hdb) hends
    exact ⟨q, hr.database, (hwent.ran.done (hdone hasked)).resolve_left fun h => nomatch h⟩

/-- The flag tells of the time at which it was set. -/
theorem flagMeaning_afterAll (us : List Use) : FlagMeaning us := by
  obtain ⟨p, hdb, hwithin, hset⟩ := shows_afterAll us
  refine ⟨?_, ?_, ?_⟩
  · intro hdone
    obtain ⟨before, since, p₀, hus, hdb₀, hgrown⟩ := hset ((answer_stageDone hdb _).mp hdone)
    obtain ⟨ids, later, hnone, hids, hids', hlater⟩ := later_of_grownFrom hdb₀ hdb hgrown
    exact ⟨before, since, ids, later, hus, (answer_stageDone hdb₀ _).mpr hgrown.done, hnone, hids,
      hids', hlater⟩
  · intro z s r ids hdone hpending hends
    exact skipped_of_done hdb hwithin ((answer_stageDone hdb _).mp hdone) hpending hends
  · intro z scratch s r hasked hopened hends
    rw [Ne, answer_stageDone hdb] at hopened
    obtain ⟨q, hq, hall, hfits⟩ := all_of_opened hdb hasked hopened hends
    rw [answer_pending hq hfits, Nat.sub_eq_zero_of_le hall]
    rfl

/-- The parsing stage is finished before anything is recorded; then a run records a document. -/
def finishedEarly : List Use :=
  let a : Attempt := {
    pipeline := ⟨{ Config.default with grammaticalProcessing := true },
      ⟨.nested ⟨"text", ["text"], []⟩ [], .punctuation, true⟩,
      ⟨"texts", some [(.text "a.xml", .file (some "<text/>"))]⟩, Parser.idle⟩
    parser := ()
    rejected := []
    writesLeft := none }
  [⟨a, .finishParsing⟩, ⟨a, .process false⟩]

/-- The flag was set when nothing was stored, and the document stored since is pending. -/
theorem flagMeaning_finishedEarly :
    (stageDone .grammaticalProcessing).answer? (afterAll finishedEarly) = some true ∧
      Pipeline.pending.answer? (afterAll finishedEarly) = some [1] ∧
      ∃ before since ids later, finishedEarly = before ++ since ∧
        (stageDone .grammaticalProcessing).answer? (afterAll before) = some true ∧
        Pipeline.pending.answer? (afterAll before) = some [] ∧
        Access.ids.answer? (afterAll before) = some ids ∧
        Access.ids.answer? (afterAll finishedEarly) = some (ids ++ later) ∧
        Pipeline.pending.answer? (afterAll finishedEarly) = some later := by
  have hdone : (stageDone .grammaticalProcessing).answer? (afterAll finishedEarly) = some true := by
    decide +kernel
  have hpending : Pipeline.pending.answer? (afterAll finishedEarly) = some [1] := by
    decide +kernel
  exact ⟨hdone, hpending, (flagMeaning_afterAll finishedEarly).done hdone⟩

end Use

end XmlHarvest
