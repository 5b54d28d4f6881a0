/-
What each stage of a run brings about, from whatever progress it begins.

`Step.Brings` says to which progress a step leads and which calls of the parser it makes, whether it
ends or stops.  Recording adds files and leaves the parsed documents alone (`Pipeline.Recorded`).
Parsing takes the documents behind the mark one after the other and moves the mark along with them
(`Progress.Advanced`), so the parser was called with exactly those that the mark has passed, and
with one more if the mark could not be set to it (`MarkRefused`).  Nothing here supposes that the
stages are run in their order; `Pipeline.Ran` says what a run of all stages has to show.
-/
import XmlHarvest.Proofs.Pipeline.Resumption

namespace XmlHarvest

open Checkpoint

variable {σ α β : Type}

/-! ### Steps and the calls that they make -/

/-- The ids of the documents that the parser took in some calls, in their order. -/
def takenIn (calls : List (Nat × Bool)) : List Nat := (calls.filter (·.2)).map (·.1)

@[simp] theorem takenIn_nil : takenIn [] = [] := rfl

@[simp] theorem takenIn_append (calls later : List (Nat × Bool)) :
    takenIn (calls ++ later) = takenIn calls ++ takenIn later := by
  simp [takenIn]

/-- Begun in a run that stands at the progress `p`, the step ends at a progress with `Q` or stops at
one with `E`.  Both are told of the further calls of the parser. -/
def Step.Brings (l : Limits) (p : Progress) (x : Step σ α)
    (Q : α → Progress → List (Nat × Bool) → Prop)
    (E : RunError → Progress → List (Nat × Bool) → Prop) : Prop :=
  ∀ r : Run σ, r.Shows l p → x.Ends r
    (fun a r' => ∃ p' calls, r'.Shows l p' ∧ r'.calls = r.calls ++ calls ∧ Q a p' calls)
    (fun e r' => ∃ p' calls, r'.Shows l p' ∧ r'.calls = r.calls ++ calls ∧ E e p' calls)

namespace Step

variable {l : Limits} {p p' : Progress} {Q : α → Progress → List (Nat × Bool) → Prop}
  {E : RunError → Progress → List (Nat × Bool) → Prop}

theorem brings_pure {a : α} (h : Q a p []) : Brings l p (pure a : Step σ α) Q E := by
  intro r hr
  rw [ends_pure]
  exact ⟨p, [], hr, (List.append_nil _).symm, h⟩

theorem brings_throw {e : RunError} (h : E e p []) : Brings l p (throw e : Step σ α) Q E := by
  intro r hr
  rw [ends_throw]
  exact ⟨p, [], hr, (List.append_nil _).symm, h⟩

theorem brings_bind {x : Step σ β} {f : β → Step σ α} {M : β → Progress → List (Nat × Bool) → Prop}
    {F : RunError → Progress → List (Nat × Bool) → Prop} (hx : Brings l p x M F)
    (hE : ∀ e p' calls, F e p' calls → E e p' calls)
    (hf : ∀ b p' calls, M b p' calls → Brings l p' (f b)
      (fun a q later => Q a q (calls ++ later)) (fun e q later => E e q (calls ++ later))) :
    Brings l p (x >>= f) Q E := by
  intro r hr
  rw [ends_bind]
  refine (hx r hr).mono ?_ ?_
  · rintro b r' ⟨p', calls, hr', hcalls, hM⟩
    refine (hf b p' calls hM r' hr').mono ?_ ?_
    · rintro a r'' ⟨q, later, hr'', hlater, hQ⟩
      exact ⟨q, calls ++ later, hr'', by rw [hlater, hcalls, List.append_assoc], hQ⟩
    · rintro e r'' ⟨q, later, hr'', hlater, hE'⟩
      exact ⟨q, calls ++ later, hr'', by rw [hlater, hcalls, List.append_assoc], hE'⟩
  · rintro e r' ⟨p', calls, hr', hcalls, hF⟩
    exact ⟨p', calls, hr', hcalls, hE e p' calls hF⟩

theorem Brings.mono {x : Step σ α} {Q' : α → Progress → List (Nat × Bool) → Prop}
    {E' : RunError → Progress → List (Nat × Bool) → Prop} (h : Brings l p x Q E)
    (hQ : ∀ a p' calls, Q a p' calls → Q' a p' calls)
    (hE : ∀ e p' calls, E e p' calls → E' e p' calls) : Brings l p x Q' E' := by
  intro r hr
  refine (h r hr).mono ?_ ?_
  · rintro a r' ⟨p', calls, hr', hcalls, hq⟩
    exact ⟨p', calls, hr', hcalls, hQ a p' calls hq⟩
  · rintro e r' ⟨p', calls, hr', hcalls, he⟩
    exact ⟨p', calls, hr', hcalls, hE e p' calls he⟩

theorem Brings.of_ok {x : Step σ α} {a : α} {r r' : Run σ} (h : Brings l p x Q E)
    (hr : r.Shows l p) (hends : x r = .ok a r') :
    ∃ q calls, r'.Shows l q ∧ r'.calls = r.calls ++ calls ∧ Q a q calls := by
  have hx := h r hr
  unfold Ends at hx
  rwa [hends] at hx

theorem Brings.of_error {x : Step σ α} {e : RunError} {r r' : Run σ} (h : Brings l p x Q E)
    (hr : r.Shows l p) (hends : x r = .error e r') :
    ∃ q calls, r'.Shows l q ∧ r'.calls = r.calls ++ calls ∧ E e q calls := by
  have hx := h r hr
  unfold Ends at hx
  rwa [hends] at hx

/-- What only reads is as good as what it answers. -/
theorem brings_consult {access : Access β} {b : β} {f : β → Step σ α}
    (h : ∀ db : Database, db.Shows p → access db = .ok b db) (hf : Brings l p (f b) Q E) :
    Brings l p (consult access >>= f) Q E := by
  intro r hr
  rw [ends_bind, ends_consult (h _ hr.database)]
  exact hf r hr

theorem brings_consult_error {access : Access β} {e : StoreError} {f : β → Step σ α}
    (h : ∀ db : Database, db.Shows p → access db = .error e db) (hE : E (.store e) p []) :
    Brings l p (consult access >>= f) Q E := by
  intro r hr
  rw [ends_bind, ends_consult_error (h _ hr.database)]
  exact ⟨p, [], hr, (List.append_nil _).symm, hE⟩

/-- A write leads to the next progress or is refused. -/
theorem brings_write {x : Step σ α} {w : LedgerWrite}
    (hx : ∀ {r : Run σ} {Q : α → Run σ → Prop} {E : RunError → Run σ → Prop}, r.Shows l p →
      (∀ a r', r'.Shows l p' → r'.calls = r.calls → Q a r') → (∀ e, l.Refuses w e → E e r) →
      Ends x r Q E) :
    Brings l p x (fun _ q calls => q = p' ∧ calls = [])
      (fun e q calls => l.Refuses w e ∧ q = p ∧ calls = []) := by
  intro r hr
  apply hx hr
  · intro _ r' hr' hcalls
    exact ⟨p', [], hr', by rw [hcalls, List.append_nil], rfl, rfl⟩
  · intro e he
    exact ⟨p, [], hr, (List.append_nil _).symm, he, rfl, rfl⟩

theorem brings_setStage {s : Stage} {done : Bool} :
    Brings l p (commit (setStage s done) : Step σ Unit)
      (fun _ q calls => q = p.setFlag s done ∧ calls = [])
      (fun e q calls => l.Refuses ⟨s.flagKey, flagText done, .replace⟩ e ∧ q = p ∧ calls = []) :=
  brings_write fun hr hQ hE => hr.ends_setStage (hQ ()) hE

end Step

open Step

namespace Pipeline

variable {pl : Pipeline σ} {fs : List (String × Option String)} {l : Limits}
  {p p' p'' : Progress}

/-! ### Recording files -/

/-- Recording has led from the one progress to the other: of the flags it has touched only its own,
and it has set this only when all files were recorded. -/
structure Recorded (pl : Pipeline σ) (fs : List (String × Option String)) (p p' : Progress) :
    Prop where
  files : pl.Extends fs p p'
  parsed : p'.parsed = p.parsed
  flag : ∀ s, s ≠ .textAndMetadata → p'.flag s = p.flag s
  done : p'.flag .textAndMetadata = some true →
    p.flag .textAndMetadata = some true ∨ fs.length ≤ p'.files.length

namespace Recorded

theorem refl (p : Progress) : pl.Recorded fs p p :=
  ⟨.of_files_eq rfl, rfl, fun _ _ => rfl, .inl⟩

theorem trans (h : pl.Recorded fs p p') (h' : pl.Recorded fs p' p'') : pl.Recorded fs p p'' where
  files := h.files.trans h'.files
  parsed := h'.parsed.trans h.parsed
  flag s hs := (h'.flag s hs).trans (h.flag s hs)
  done hdone := by
    rcases h'.done hdone with hdone | hall
    · rcases h.done hdone with hdone | hall
      · exact .inl hdone
      · exact .inr (hall.trans h'.files.kept.length_le)
    · exact .inr hall

theorem setFlag {done : Bool} (h : done = true → fs.length ≤ p.files.length) :
    pl.Recorded fs p (p.setFlag .textAndMetadata done) where
  files := .of_files_eq rfl
  parsed := rfl
  flag s hs := Progress.flag_setFlag_other hs done p
  done hdone := by
    rw [Progress.flag_setFlag_same] at hdone
    exact .inr (h (Option.some.inj hdone))

theorem record {name : String} {content : Option String} {ds : List Document}
    (next : fs[p.files.length]? = some (name, content))
    (extracted : pl.extractor.extractFile content = .ok ds) :
    pl.Recorded fs p (p.record name ds) where
  files := by
    refine ⟨List.prefix_append _ _, ?_⟩
    intro j e hj he
    rw [Progress.files_record, List.getElem?_append_right hj, List.getElem?_singleton] at he
    split at he
    · next hzero =>
      obtain rfl : j = p.files.length := by omega
      obtain rfl : (name, ds) = e := by simpa using he
      exact ⟨content, next, extracted⟩
    · cases he
  parsed := rfl
  flag _ _ := rfl
  done := .inl

end Recorded

theorem brings_recordOne {name : String} {content : Option String}
    (next : fs[p.files.length]? = some (name, content)) :
    Brings l p (pl.recordOne (p.files.length + 1) name content)
      (fun _ q calls => (pl.Recorded fs p q ∧ q.files.length = p.files.length + 1) ∧ calls = [])
      (fun _ q calls => pl.Recorded fs p q ∧ calls = []) := by
  have hreopened : pl.Recorded fs p (p.setFlag .textAndMetadata false) :=
    .setFlag fun h => nomatch h
  unfold recordOne
  refine brings_bind brings_setStage ?_ ?_
  · rintro _ _ _ ⟨-, rfl, rfl⟩
    exact ⟨.refl _, rfl⟩
  · rintro _ _ _ ⟨rfl, rfl⟩
    cases hd : pl.extractor.extractFile content with
    | error e => exact brings_throw ⟨hreopened, rfl⟩
    | ok ds =>
      refine brings_bind (brings_write fun hr hQ hE => hr.ends_recordFile hQ hE) ?_ ?_
      · rintro _ _ _ ⟨-, rfl, rfl⟩
        exact ⟨hreopened, rfl⟩
      · rintro _ _ _ ⟨rfl, rfl⟩
        have hrecorded : pl.Recorded fs (p.setFlag .textAndMetadata false)
            ((p.setFlag .textAndMetadata false).record name ds) := .record next hd
        exact brings_pure ⟨⟨hreopened.trans hrecorded, by simp⟩, rfl⟩

/-- The induction is on the files that are still to be looked at; all before them are recorded. -/
theorem brings_recordFrom {k : Nat} {gs : List (String × Option String)} (hgs : fs.drop k = gs)
    (hk : k ≤ p.files.length) :
    Brings l p (pl.recordFrom (k + 1) gs)
      (fun _ q calls => (pl.Recorded fs p q ∧ fs.length ≤ q.files.length) ∧ calls = [])
      (fun _ q calls => pl.Recorded fs p q ∧ calls = []) := by
  induction gs generalizing k p with
  | nil =>
    have hlen : fs.length ≤ k := List.drop_eq_nil_iff.mp hgs
    exact brings_pure ⟨⟨.refl p, by omega⟩, rfl⟩
  | cons g gs ih =>
    obtain ⟨name, content⟩ := g
    have hget : fs[k]? = some (name, content) := by
      rw [← List.head?_drop, hgs]
      rfl
    have htail : fs.drop (k + 1) = gs := by
      rw [← List.tail_drop, hgs]
      rfl
    unfold recordFrom
    refine brings_consult (fun _ hdb => hdb.fileRecorded (Nat.succ_pos k)) ?_
    split
    · next h => exact ih htail (of_decide_eq_true h)
    · next h =>
      -- A file without a mark is the first that is not recorded.
      have hle : ¬ k + 1 ≤ p.files.length := fun hle => h (decide_eq_true hle)
      obtain rfl : k = p.files.length := by omega
      refine brings_bind (brings_recordOne hget) (fun _ _ _ h => h) ?_
      rintro _ q _ ⟨⟨hq, hlength⟩, rfl⟩
      refine brings_bind (ih htail (by omega)) ?_ ?_
      · rintro _ q' _ ⟨hq', rfl⟩
        exact ⟨hq.trans hq', rfl⟩
      · rintro _ q' _ ⟨⟨hq', hall⟩, rfl⟩
        exact brings_pure ⟨⟨hq.trans hq', hall⟩, rfl⟩

/-- The files of the collection; none, if it cannot be listed. -/
def listing (pl : Pipeline σ) : List (String × Option String) :=
  (pl.collection.files pl.config).getD []

theorem brings_extractRecord :
    Brings l p pl.extractRecord
      (fun _ q calls => (pl.Recorded pl.listing p q ∧ q.flag .textAndMetadata = some true) ∧
        calls = [])
      (fun _ q calls => pl.Recorded pl.listing p q ∧ calls = []) := by
  unfold extractRecord listing
  cases pl.collection.files pl.config with
  | none => exact brings_throw ⟨.refl p, rfl⟩
  | some fs =>
    refine brings_bind (brings_recordFrom (k := 0) rfl (Nat.zero_le _)) (fun _ _ _ h => h) ?_
    rintro _ q _ ⟨⟨hq, hall⟩, rfl⟩
    refine brings_bind brings_setStage ?_ ?_
    · rintro _ _ _ ⟨-, rfl, rfl⟩
      exact ⟨hq, rfl⟩
    · rintro _ _ _ ⟨rfl, rfl⟩
      exact brings_pure ⟨⟨hq.trans (.setFlag fun _ => hall), Progress.flag_setFlag_same ..⟩, rfl⟩

end Pipeline

/-! ### Parsing documents -/

/-- Parsing has led from the one progress to the other: it has moved the mark along the stored
documents, and the flag of its stage is set only as it was before with the mark in its place, or
because no document is left. -/
structure Progress.Advanced (p p' : Progress) : Prop where
  files : p'.files = p.files
  flag : ∀ s, s ≠ .grammaticalProcessing → p'.flag s = p.flag s
  le : p.parsedCount ≤ p'.parsedCount
  within : p.parsedCount ≤ p.documents.length → p'.parsedCount ≤ p'.documents.length
  done : p'.flag .grammaticalProcessing = some true →
    p.flag .grammaticalProcessing = some true ∧ p'.parsed = p.parsed ∨
      p'.documents.length ≤ p'.parsedCount ∧ p'.parsedCount < 2 ^ 63

/-- The ids of the documents that the mark has passed from the one progress to the other. -/
def Progress.passed (p p' : Progress) : List Nat :=
  List.range' (p.parsedCount + 1) (p'.parsedCount - p.parsedCount)

/-- The parser took the document behind the mark, and the mark could not be set to it. -/
structure MarkRefused (l : Limits) (e : RunError) (p p' : Progress) (calls : List (Nat × Bool)) :
    Prop where
  taken : takenIn calls = p.passed p' ++ [p'.parsedCount + 1]
  last : calls.getLast? = some (p'.parsedCount + 1, true)
  refused : l.Refuses ⟨parsedKey, toString ((p'.parsedCount + 1 : Nat) : Int), .update⟩ e

namespace Progress

variable {p p' p'' : Progress}

@[simp] theorem passed_self (p : Progress) : p.passed p = [] := by simp [passed]

theorem passed_append (h : p.parsedCount ≤ p'.parsedCount) (h' : p'.parsedCount ≤ p''.parsedCount) :
    p.passed p' ++ p'.passed p'' = p.passed p'' := by
  have hstart : p'.parsedCount + 1 = p.parsedCount + 1 + (p'.parsedCount - p.parsedCount) := by
    omega
  have hcount : p''.parsedCount - p.parsedCount =
      (p'.parsedCount - p.parsedCount) + (p''.parsedCount - p'.parsedCount) := by omega
  rw [passed, passed, passed, hstart, List.range'_append_1, hcount]

namespace Advanced

theorem refl (p : Progress) : p.Advanced p :=
  ⟨rfl, fun _ _ => rfl, Nat.le_refl _, fun h => h, fun h => .inl ⟨h, rfl⟩⟩

theorem documents (h : p.Advanced p') : p'.documents = p.documents := by
  rw [Progress.documents, Progress.documents, h.files]

theorem trans (h : p.Advanced p') (h' : p'.Advanced p'') : p.Advanced p'' where
  files := h'.files.trans h.files
  flag s hs := (h'.flag s hs).trans (h.flag s hs)
  le := h.le.trans h'.le
  within := h'.within ∘ h.within
  done hdone := by
    rcases h'.done hdone with ⟨hdone, hparsed⟩ | hall
    · rcases h.done hdone with ⟨hdone, hparsed'⟩ | hall
      · exact .inl ⟨hdone, hparsed.trans hparsed'⟩
      · -- The mark has not moved since no document was left.
        right
        rwa [h'.documents, parsedCount, hparsed]
    · exact .inr hall

/-- The flag of the stage is taken back, or set where no document is left. -/
theorem setFlag {done : Bool}
    (h : done = true → p.documents.length ≤ p.parsedCount ∧ p.parsedCount < 2 ^ 63) :
    p.Advanced (p.setFlag .grammaticalProcessing done) where
  files := rfl
  flag s hs := flag_setFlag_other hs done p
  le := Nat.le_refl _
  within h := h
  done hdone := by
    rw [flag_setFlag_same] at hdone
    exact .inr (h (Option.some.inj hdone))

/-- The mark is set to the next document, which the flag of the stage does not count as parsed. -/
theorem setParsed (hopened : p.flag .grammaticalProcessing ≠ some true)
    (hleft : p.parsedCount < p.documents.length) :
    p.Advanced (p.setParsed (p.parsedCount + 1)) where
  files := rfl
  flag _ _ := rfl
  le := Nat.le_succ _
  within _ := hleft
  done hdone := absurd hdone hopened

end Advanced

end Progress

/-- What was taken before the mark was refused belongs to what was passed. -/
theorem MarkRefused.after {l : Limits} {e : RunError} {p p' p'' : Progress}
    {calls later : List (Nat × Bool)} (h : MarkRefused l e p' p'' later)
    (hcalls : takenIn calls = p.passed p') (hle : p.parsedCount ≤ p'.parsedCount)
    (hle' : p'.parsedCount ≤ p''.parsedCount) : MarkRefused l e p p'' (calls ++ later) where
  taken := by
    rw [takenIn_append, hcalls, h.taken, ← List.append_assoc, Progress.passed_append hle hle']
  last := by rw [List.getLast?_append, h.last, Option.some_or]
  refused := h.refused

namespace Pipeline

variable {pl : Pipeline σ} {l : Limits} {p : Progress}

/-- Parsing came to an end: the parser took exactly the documents that the mark has passed. -/
def Parsed (p p' : Progress) (calls : List (Nat × Bool)) : Prop :=
  p.Advanced p' ∧ takenIn calls = p.passed p'

/-- Parsing was stopped: the parser took the documents that the mark has passed, and perhaps the
next one, if the mark could not be set to it. -/
def ParsingStopped (l : Limits) (p : Progress) (e : RunError) (p' : Progress)
    (calls : List (Nat × Bool)) : Prop :=
  p.Advanced p' ∧ (takenIn calls = p.passed p' ∨ MarkRefused l e p p' calls)

theorem parsed_refl (p : Progress) : Parsed p p [] := ⟨.refl p, p.passed_self.symm⟩

theorem Parsed.trans {p' p'' : Progress} {calls later : List (Nat × Bool)} (h : Parsed p p' calls)
    (h' : Parsed p' p'' later) : Parsed p p'' (calls ++ later) := by
  refine ⟨h.1.trans h'.1, ?_⟩
  rw [takenIn_append, h.2, h'.2, Progress.passed_append h.1.le h'.1.le]

theorem Parsed.stopped {p' p'' : Progress} {e : RunError} {calls later : List (Nat × Bool)}
    (h : Parsed p p' calls) (h' : ParsingStopped l p' e p'' later) :
    ParsingStopped l p e p'' (calls ++ later) := by
  obtain ⟨hadvanced, htaken | hrefused⟩ := h'
  · obtain ⟨hadvanced', htaken'⟩ := h.trans ⟨hadvanced, htaken⟩
    exact ⟨hadvanced', .inl htaken'⟩
  · exact ⟨h.1.trans hadvanced, .inr (hrefused.after h.2 h.1.le hadvanced.le)⟩

theorem parsingStopped_refl (p : Progress) (e : RunError) : ParsingStopped l p e p [] :=
  ⟨.refl p, .inl p.passed_self.symm⟩

/-- The parser is called until it takes the document, so only the last call may be a success. -/
theorem brings_parseWithin {d : StoredDocument} (retries : Nat) :
    Brings l p (parseWithin pl.parser d retries)
      (fun _ q calls => q = p ∧ takenIn calls = [d.id] ∧ calls.getLast? = some (d.id, true))
      (fun _ q calls => q = p ∧ takenIn calls = []) := by
  have hcall : Brings l p (callParser pl.parser d)
      (fun v q calls => q = p ∧ calls = [(d.id, v.isOk)])
      (fun _ _ _ => False) := by
    intro r hr
    rw [ends_callParser]
    exact ⟨p, _, ⟨hr.database, hr.rejected, hr.cut⟩, rfl, rfl, rfl⟩
  induction retries with
  | zero =>
    refine brings_bind hcall (fun _ _ _ h => h.elim) ?_
    rintro v _ _ ⟨rfl, rfl⟩
    cases v with
    | ok _ => exact brings_pure ⟨rfl, rfl, rfl⟩
    | error reason => exact brings_throw ⟨rfl, rfl⟩
  | succ retries ih =>
    refine brings_bind hcall (fun _ _ _ h => h.elim) ?_
    rintro v _ _ ⟨rfl, rfl⟩
    cases v with
    | ok _ => exact brings_pure ⟨rfl, rfl, rfl⟩
    | error reason =>
      refine ih.mono ?_ ?_
      · rintro _ _ calls ⟨hq, htaken, hlast⟩
        exact ⟨hq, by rw [takenIn_append, htaken]; rfl, by simp [List.getLast?_cons, hlast]⟩
      · rintro _ _ calls ⟨hq, htaken⟩
        exact ⟨hq, by rw [takenIn_append, htaken]; rfl⟩

theorem brings_parseOne (hopened : p.flag .grammaticalProcessing ≠ some true)
    (hleft : p.parsedCount < p.documents.length) :
    Brings l p (pl.parseOne (p.parsedCount + 1))
      (fun _ q calls => q = p.setParsed (p.parsedCount + 1) ∧ Parsed p q calls)
      (ParsingStopped l p) := by
  obtain ⟨⟨name, d⟩, hd⟩ : ∃ e, p.documents[p.parsedCount]? = some e :=
    ⟨_, List.getElem?_eq_getElem hleft⟩
  unfold parseOne
  cases hs : (Row.ofDocument name (p.parsedCount + 1) d).document? with
  | none =>
    refine brings_consult_error (e := .corrupt (p.parsedCount + 1)) ?_ (parsingStopped_refl p _)
    intro db hdb
    rw [hdb.document? hd, hs]
  | some s =>
    have hid : s.id = p.parsedCount + 1 := by
      obtain ⟨_, _, rfl⟩ := Option.map_eq_some_iff.mp hs
      rfl
    refine brings_consult (b := some s) ?_ ?_
    · intro db hdb
      rw [hdb.document? hd, hs]
    · refine brings_bind (brings_parseWithin _) ?_ ?_
      · rintro e _ calls ⟨rfl, htaken⟩
        exact ⟨.refl _, .inl (by rw [htaken, Progress.passed_self])⟩
      · rintro _ _ calls ⟨rfl, htaken, hlast⟩
        rw [hid] at htaken hlast
        refine (brings_write fun hr hQ hE => hr.ends_setLatestParsed (hQ ()) hE).mono ?_ ?_
        · rintro _ _ _ ⟨rfl, rfl⟩
          refine ⟨rfl, .setParsed hopened hleft, ?_⟩
          rw [List.append_nil, htaken, Progress.passed]
          simp [Progress.parsedCount]
        · rintro e _ _ ⟨hrefused, rfl, rfl⟩
          rw [List.append_nil]
          refine ⟨.refl _, .inr ⟨?_, hlast, hrefused⟩⟩
          rw [htaken, Progress.passed_self, List.nil_append]

/-- The induction is on the number of documents that are left, which are those behind the mark. -/
theorem brings_parseEach (hopened : p.flag .grammaticalProcessing ≠ some true) {n : Nat}
    (hn : p.parsedCount + n = p.documents.length) :
    Brings l p (pl.parseEach (List.range' (p.parsedCount + 1) n))
      (fun _ q calls => Parsed p q calls ∧ q.documents.length ≤ q.parsedCount)
      (ParsingStopped l p) := by
  induction n generalizing p with
  | zero => exact brings_pure ⟨parsed_refl p, by omega⟩
  | succ n ih =>
    rw [List.range'_succ]
    unfold parseEach
    refine brings_bind (brings_parseOne hopened (by omega)) (fun _ _ _ h => h) ?_
    rintro _ _ calls ⟨rfl, hparsed⟩
    have hrest := ih (p := p.setParsed (p.parsedCount + 1)) hopened
      (show p.parsedCount + 1 + n = p.documents.length by omega)
    refine hrest.mono ?_ ?_
    · rintro _ q later ⟨hparsed', hall⟩
      exact ⟨hparsed.trans hparsed', hall⟩
    · intro e q later hstopped
      exact hparsed.stopped hstopped

theorem brings_parseDocuments :
    Brings l p pl.parseDocuments
      (fun _ q calls => Parsed p q calls ∧ q.documents.length ≤ q.parsedCount)
      (ParsingStopped l p) := by
  unfold parseDocuments
  by_cases hfits : p.parsedCount < 2 ^ 63
  · refine brings_consult (fun _ hdb => by rw [hdb.pending, if_pos hfits]) ?_
    split
    · next h =>
      have hnone : p.documents.length - p.parsedCount = 0 := by simpa using h
      exact brings_pure ⟨parsed_refl p, by omega⟩
    · next h =>
      have hsome : p.documents.length - p.parsedCount ≠ 0 := by simpa using h
      refine brings_bind brings_setStage ?_ ?_
      · rintro e _ _ ⟨-, rfl, rfl⟩
        exact parsingStopped_refl _ e
      · rintro _ _ _ ⟨rfl, rfl⟩
        -- The flag is taken back before the first document is parsed.
        have hopened : Parsed p (p.setFlag .grammaticalProcessing false) [] :=
          ⟨.setFlag (fun h => nomatch h), p.passed_self.symm⟩
        have hflag :
            (p.setFlag .grammaticalProcessing false).flag .grammaticalProcessing ≠ some true := by
          rw [Progress.flag_setFlag_same]
          decide
        refine brings_bind (brings_parseEach hflag ?_) ?_ ?_
        · show p.parsedCount + (p.documents.length - p.parsedCount) = p.documents.length
          omega
        · intro e q calls hstopped
          exact hopened.stopped hstopped
        · rintro _ q calls ⟨hparsed, hall⟩
          refine brings_pure ⟨?_, hall⟩
          rw [List.append_nil]
          exact hopened.trans hparsed
  · exact brings_consult_error (fun _ hdb => by rw [hdb.pending, if_neg hfits])
      (parsingStopped_refl p _)

theorem brings_finishParsing :
    Brings l p (finishParsing : Step σ Unit)
      (fun _ q calls => (p.Advanced q ∧ q.parsed = p.parsed ∧
        q.flag .grammaticalProcessing = some true) ∧ calls = [])
      (fun _ q calls => q = p ∧ calls = []) := by
  unfold finishParsing
  by_cases hfits : p.parsedCount < 2 ^ 63
  · refine brings_consult (fun _ hdb => by rw [hdb.pending, if_pos hfits]) ?_
    split
    · next h =>
      have hnone : p.documents.length - p.parsedCount = 0 := by simpa using h
      refine brings_setStage.mono ?_ ?_
      · rintro _ _ _ ⟨rfl, rfl⟩
        exact ⟨⟨.setFlag fun _ => ⟨by omega, hfits⟩, rfl, Progress.flag_setFlag_same ..⟩, rfl⟩
      · rintro _ _ _ ⟨-, hq, hcalls⟩
        exact ⟨hq, hcalls⟩
    · exact brings_throw ⟨rfl, rfl⟩
  · exact brings_consult_error (fun _ hdb => by rw [hdb.pending, if_neg hfits]) ⟨rfl, rfl⟩

/-! ### All stages -/

theorem brings_unlessDone {s : Stage} {work : Step σ α}
    {Q : Option α → Progress → List (Nat × Bool) → Prop}
    {E : RunError → Progress → List (Nat × Bool) → Prop}
    (hdone : p.flag s = some true → Q none p [])
    (hwork : p.flag s ≠ some true → Brings l p work (fun a q calls => Q (some a) q calls) E) :
    Brings l p (unlessDone s work) Q E := by
  unfold unlessDone
  refine brings_consult (fun _ hdb => hdb.stageDone s) ?_
  split
  · next h => exact brings_pure (hdone (of_decide_eq_true h))
  · next h =>
    refine brings_bind (hwork fun hs => h (decide_eq_true hs)) (fun _ _ _ hE => hE) ?_
    intro a q calls hQ
    exact brings_pure (by rwa [List.append_nil])

theorem brings_ifAsked {asked : Bool} {work : Step σ (Option α)}
    {Q : Option α → Progress → List (Nat × Bool) → Prop}
    {E : RunError → Progress → List (Nat × Bool) → Prop}
    (hwork : asked = true → Brings l p work Q E) (hnot : asked ≠ true → Q none p []) :
    Brings l p (ifAsked asked work) Q E := by
  unfold ifAsked
  split
  · next h => exact hwork h
  · next h => exact brings_pure (hnot h)

theorem brings_flagOnly {s : Stage} :
    Brings l p (flagOnly s : Step σ (Option Unit))
      (fun _ q calls => (q = p ∨ q = p.setFlag s true) ∧ calls = [])
      (fun _ q calls => q = p ∧ calls = []) := by
  refine brings_unlessDone (fun _ => ⟨.inl rfl, rfl⟩) fun _ => ?_
  refine brings_setStage.mono ?_ ?_
  · rintro _ _ _ ⟨rfl, rfl⟩
    exact ⟨.inr rfl, rfl⟩
  · rintro _ _ _ ⟨-, hq, hcalls⟩
    exact ⟨hq, hcalls⟩

/-- A run of all stages has led from the one progress to the other, whether it ended or stopped. -/
structure Ran (pl : Pipeline σ) (p p' : Progress) : Prop where
  files : pl.Extends pl.listing p p'
  /-- A first stage that is done is left out. -/
  skipped : p.flag .textAndMetadata = some true →
    p'.files = p.files ∧ p'.flag .textAndMetadata = some true
  recorded : p'.flag .textAndMetadata = some true →
    p.flag .textAndMetadata = some true ∨ pl.listing.length ≤ p'.files.length
  /-- Nothing is parsed before the first stage is done. -/
  waiting : p'.flag .textAndMetadata ≠ some true →
    p'.parsed = p.parsed ∧ p'.flag .grammaticalProcessing = p.flag .grammaticalProcessing
  le : p.parsedCount ≤ p'.parsedCount
  within : p.parsedCount ≤ p.documents.length → p'.parsedCount ≤ p'.documents.length
  /-- A parsing stage that is done is left out. -/
  settled : p.flag .grammaticalProcessing = some true →
    p'.flag .grammaticalProcessing = some true ∧ p'.parsed = p.parsed
  done : p'.flag .grammaticalProcessing = some true →
    p.flag .grammaticalProcessing = some true ∨
      p'.documents.length ≤ p'.parsedCount ∧ p'.parsedCount < 2 ^ 63

namespace Ran

variable {p' p'' : Progress}

theorem refl (p : Progress) : pl.Ran p p where
  files := .of_files_eq rfl
  skipped h := ⟨rfl, h⟩
  recorded := .inl
  waiting _ := ⟨rfl, rfl⟩
  le := Nat.le_refl _
  within h := h
  settled h := ⟨h, rfl⟩
  done := .inl

theorem of_recorded (hopened : p.flag .textAndMetadata ≠ some true)
    (h : pl.Recorded pl.listing p p') : pl.Ran p p' := by
  have hflag : p'.flag .grammaticalProcessing = p.flag .grammaticalProcessing :=
    h.flag _ (by decide)
  have hcount : p'.parsedCount = p.parsedCount := by
    rw [Progress.parsedCount, Progress.parsedCount, h.parsed]
  refine ⟨h.files, fun hdone => absurd hdone hopened, h.done, fun _ => ⟨h.parsed, hflag⟩,
    hcount.ge, ?_, ?_, ?_⟩
  · intro hle
    have hgrown := (Progress.documents_begin h.files.kept).length_le
    omega
  · intro hdone
    exact ⟨hflag.trans hdone, h.parsed⟩
  · intro hdone
    exact .inl (hflag.symm.trans hdone)

theorem advanced (h : pl.Ran p p') (htext : p'.flag .textAndMetadata = some true)
    (hopened : p'.flag .grammaticalProcessing ≠ some true) (h' : p'.Advanced p'') :
    pl.Ran p p'' := by
  have hflag : p''.flag .textAndMetadata = some true := (h'.flag _ (by decide)).trans htext
  refine ⟨h.files.trans (.of_files_eq h'.files), ?_, ?_, fun hne => absurd hflag hne,
    h.le.trans h'.le, h'.within ∘ h.within, ?_, ?_⟩
  · intro hdone
    exact ⟨h'.files.trans (h.skipped hdone).1, hflag⟩
  · intro _
    rw [h'.files]
    exact h.recorded htext
  · intro hdone
    exact absurd (h.settled hdone).1 hopened
  · intro hdone
    rcases h'.done hdone with ⟨hdone, -⟩ | hall
    · exact absurd hdone hopened
    · exact .inr hall

theorem flagged (h : pl.Ran p p') {s : Stage} (htext : s ≠ .textAndMetadata)
    (hgrammatical : s ≠ .grammaticalProcessing) : pl.Ran p (p'.setFlag s true) := by
  have htext' := Progress.flag_setFlag_other htext.symm true p'
  have hgrammatical' := Progress.flag_setFlag_other hgrammatical.symm true p'
  refine ⟨h.files.trans (.of_files_eq rfl), ?_, ?_, ?_, h.le, h.within, ?_, ?_⟩
  · rw [htext']
    exact h.skipped
  · rw [htext']
    exact h.recorded
  · rw [htext', hgrammatical']
    exact h.waiting
  · rw [hgrammatical']
    exact h.settled
  · rw [hgrammatical']
    exact h.done

end Ran

/-- The stages so far have led to the progress, and the parser took what the mark has passed. -/
structure Went (pl : Pipeline σ) (p p' : Progress) (calls : List (Nat × Bool)) : Prop where
  ran : pl.Ran p p'
  taken : takenIn calls = p.passed p'
  /-- A parsing stage that is done makes no calls. -/
  idle : p.flag .grammaticalProcessing = some true → calls = []

/-- A run has stopped at the progress; the mark of the document that the parser took last may be
missing. -/
def Stopped (pl : Pipeline σ) (l : Limits) (p : Progress) (e : RunError) (p' : Progress)
    (calls : List (Nat × Bool)) : Prop :=
  pl.Ran p p' ∧ (takenIn calls = p.passed p' ∨ MarkRefused l e p p' calls)

variable {p' : Progress} {calls : List (Nat × Bool)}

theorem Went.stopped (h : pl.Went p p' calls) (e : RunError) : pl.Stopped l p e p' calls :=
  ⟨h.ran, .inl h.taken⟩

theorem Went.of_recorded (hopened : p.flag .textAndMetadata ≠ some true)
    (h : pl.Recorded pl.listing p p') : pl.Went p p' [] where
  ran := .of_recorded hopened h
  taken := by simp [Progress.passed, Progress.parsedCount, h.parsed]
  idle _ := rfl

theorem brings_recording :
    Brings l p (unlessDone .textAndMetadata pl.extractRecord)
      (fun _ q calls => pl.Went p q calls ∧ q.flag .textAndMetadata = some true)
      (pl.Stopped l p) := by
  refine brings_unlessDone ?_ fun hopened => ?_
  · intro hdone
    exact ⟨⟨.refl p, p.passed_self.symm, fun _ => rfl⟩, hdone⟩
  · refine brings_extractRecord.mono ?_ ?_
    · rintro _ q _ ⟨⟨hq, hflag⟩, rfl⟩
      exact ⟨.of_recorded hopened hq, hflag⟩
    · rintro e q _ ⟨hq, rfl⟩
      exact (Went.of_recorded hopened hq).stopped e

/-- The parsing stage goes on from where the first stage has led. -/
theorem brings_parsing {p₀ : Progress} (h : pl.Went p₀ p calls)
    (htext : p.flag .textAndMetadata = some true) :
    Brings l p
      (ifAsked pl.config.needsParsing (unlessDone .grammaticalProcessing do
        let count ← pl.parseDocuments
        finishParsing
        return count))
      (fun _ q later => pl.Went p₀ q (calls ++ later) ∧
        (pl.config.needsParsing = true → q.flag .grammaticalProcessing = some true))
      (fun e q later => pl.Stopped l p₀ e q (calls ++ later)) := by
  refine brings_ifAsked (fun _ => brings_unlessDone ?_ fun hopened => ?_) ?_
  · intro hdone
    rw [List.append_nil]
    exact ⟨h, fun _ => hdone⟩
  · -- The stage was not done when the run began, since it would be done still.
    have hidle : p₀.flag .grammaticalProcessing ≠ some true :=
      fun hdone => hopened (h.ran.settled hdone).1
    refine brings_bind brings_parseDocuments ?_ ?_
    · rintro e q later ⟨hadvanced, hcalls⟩
      refine ⟨h.ran.advanced htext hopened hadvanced, ?_⟩
      rcases hcalls with htaken | hrefused
      · left
        rw [takenIn_append, h.taken, htaken, Progress.passed_append h.ran.le hadvanced.le]
      · exact .inr (hrefused.after h.taken h.ran.le hadvanced.le)
    · rintro _ q later ⟨⟨hadvanced, htaken⟩, -⟩
      have htaken' : takenIn (calls ++ later) = p₀.passed q := by
        rw [takenIn_append, h.taken, htaken, Progress.passed_append h.ran.le hadvanced.le]
      refine brings_bind brings_finishParsing ?_ ?_
      · rintro e _ _ ⟨rfl, rfl⟩
        rw [List.append_nil]
        exact ⟨h.ran.advanced htext hopened hadvanced, .inl htaken'⟩
      · rintro _ q' _ ⟨⟨hfinished, hparsed, hdone⟩, rfl⟩
        refine brings_pure ⟨⟨h.ran.advanced htext hopened (hadvanced.trans hfinished), ?_, ?_⟩,
          fun _ => hdone⟩
        · simpa [Progress.passed, Progress.parsedCount, hparsed] using htaken'
        · exact fun hdone => absurd hdone hidle
  · intro hnot
    rw [List.append_nil]
    exact ⟨h, fun hasked => absurd hasked hnot⟩

/-- The stages behind the first two only set their own flags. -/
theorem brings_flagged {p₀ : Progress} {s : Stage} (htext : s ≠ .textAndMetadata)
    (hgrammatical : s ≠ .grammaticalProcessing) (h : pl.Went p₀ p calls)
    (hdone : pl.config.needsParsing = true → p.flag .grammaticalProcessing = some true) :
    Brings l p (flagOnly s : Step σ (Option Unit))
      (fun _ q later => pl.Went p₀ q (calls ++ later) ∧
        (pl.config.needsParsing = true → q.flag .grammaticalProcessing = some true))
      (fun e q later => pl.Stopped l p₀ e q (calls ++ later)) := by
  refine brings_flagOnly.mono ?_ ?_
  · rintro _ _ _ ⟨rfl | rfl, rfl⟩
    · rw [List.append_nil]
      exact ⟨h, hdone⟩
    · rw [List.append_nil, Progress.flag_setFlag_other hgrammatical.symm]
      exact ⟨⟨h.ran.flagged htext hgrammatical, h.taken, h.idle⟩, hdone⟩
  · rintro e _ _ ⟨rfl, rfl⟩
    rw [List.append_nil]
    exact h.stopped e

/-- A run from any progress: the parser took exactly the documents that the mark has passed, and
with one more only if it stopped because the mark could not be set to this one. -/
theorem brings_process :
    Brings l p (pl.process false)
      (fun _ q calls => pl.Went p q calls ∧
        (pl.config.needsParsing = true → q.flag .grammaticalProcessing = some true))
      (pl.Stopped l p) := by
  unfold process
  refine brings_bind brings_recording (fun _ _ _ h => h) ?_
  rintro _ p₁ calls₁ ⟨h₁, htext⟩
  refine brings_bind (brings_parsing h₁ htext) (fun _ _ _ h => h) ?_
  rintro _ p₂ calls₂ ⟨h₂, hdone₂⟩
  simp only [← List.append_assoc]
  refine brings_bind (brings_flagged (by decide) (by decide) h₂ hdone₂) (fun _ _ _ h => h) ?_
  rintro _ p₃ calls₃ ⟨h₃, hdone₃⟩
  simp only [← List.append_assoc]
  refine brings_bind (brings_flagged (by decide) (by decide) h₃ hdone₃) (fun _ _ _ h => h) ?_
  rintro _ p₄ calls₄ ⟨h₄, hdone₄⟩
  simp only [← List.append_assoc]
  refine brings_bind (brings_ifAsked (fun _ => brings_flagged (by decide) (by decide) h₄ hdone₄) ?_)
    (fun _ _ _ h => h) ?_
  · intro _
    rw [List.append_nil]
    exact ⟨h₄, hdone₄⟩
  · rintro _ p₅ calls₅ h₅
    refine brings_pure ?_
    rwa [List.append_nil]

end Pipeline

end XmlHarvest
