/-
What the summary of a run says, and what the run has done to the database.

A run counts as it goes: the files that it records, their documents, the documents that it parses,
and the stages that it does not leave out.  Each stage is looked at by itself (`of_extractRecord`,
`of_parsing`, `of_flagOnly`): what it counts is what it has changed, and it changes nothing that
another stage counts.  Main statement: `Pipeline.process_truthful`.
-/
import XmlHarvest.Proofs.Pipeline.Finished
import XmlHarvest.Proofs.Pipeline.Trials

namespace XmlHarvest

open Checkpoint

variable {σ α β : Type}

/-! ### Steps that end -/

namespace Step

variable {r r' : Run σ} {a : α}

theorem of_bind_ok {x : Step σ β} {f : β → Step σ α} (h : (x >>= f) r = .ok a r') :
    ∃ b r₁, x r = .ok b r₁ ∧ f b r₁ = .ok a r' := by
  simp only [bind, EStateM.bind] at h
  cases hx : x r with
  | ok b r₁ =>
    rw [hx] at h
    exact ⟨b, r₁, rfl, h⟩
  | error e r₁ =>
    rw [hx] at h
    cases h

theorem of_commit_ok {access : Access α} (h : commit access r = .ok a r') :
    access r.database = .ok a r'.database := by
  unfold commit at h
  split at h
  · cases h
  · cases haccess : access r.database with
    | ok b db =>
      simp only [haccess] at h
      obtain ⟨rfl, rfl⟩ := EStateM.Result.ok.inj h
      rfl
    | error e db =>
      simp only [haccess] at h
      cases h

/-- What is made of an entry of the ledger when it is looked at. -/
theorem of_consult_entry {f : String → α} {key : String}
    (h : consult (f <$> Access.ledgerValue key) r = .ok a r') :
    r' = r ∧ (∃ t, r.database.contents.tables = some t) ∧
      a = f ((r.database.logged? key).getD "") := by
  cases ht : r.database.contents.tables with
  | none =>
    simp only [consult, Functor.map, EStateM.map, Access.ledgerValue, Access.look, ht] at h
    cases h
  | some t =>
    simp only [consult, Functor.map, EStateM.map, Database.ledgerValue_eq ht] at h
    obtain ⟨rfl, rfl⟩ := EStateM.Result.ok.inj h
    exact ⟨rfl, ⟨t, rfl⟩, rfl⟩

theorem of_consult_pending {ids : List Nat} (h : consult Pipeline.pending r = .ok ids r') :
    r' = r ∧ ∃ t mark, r.database.contents.tables = some t ∧
      latestParsed r.database = .ok mark r.database ∧ ids = Pipeline.behind t mark := by
  unfold consult at h
  obtain ⟨mark, hmark⟩ | ⟨e, he⟩ := Database.latestParsed_cases r.database
  · cases ht : r.database.contents.tables with
    | none =>
      simp only [latestParsed, bind, EStateM.bind, Access.ledgerValue, Access.look, ht] at hmark
      cases hmark
    | some t =>
      simp only [Pipeline.pending_eq ht hmark] at h
      obtain ⟨rfl, rfl⟩ := EStateM.Result.ok.inj h
      exact ⟨rfl, t, mark, rfl, hmark, rfl⟩
  · simp only [Pipeline.pending_error he] at h
    cases h

end Step

/-! ### What stages change -/

namespace Database

variable {db db' db'' : Database} {s : Stage}

/-- Whether the flag of the stage is set. -/
def isDone (db : Database) (s : Stage) : Bool := saysDone ((db.logged? s.flagKey).getD "")

theorem isDone_congr (h : db'.logged? s.flagKey = db.logged? s.flagKey) :
    db'.isDone s = db.isDone s := by
  rw [isDone, isDone, h]

/-- The stage was done after but not before. -/
def finishes (db db' : Database) (s : Stage) : Bool := !db.isDone s && db'.isDone s

/-- The stage was run or left out, and no other stage was finished or opened by it. -/
structure Staged (s : Stage) (ran : Bool) (db db' : Database) : Prop where
  own : db.finishes db' s = ran
  others : ∀ s', s' ≠ s → db'.isDone s' = db.isDone s'

theorem Staged.refl (s : Stage) (db : Database) : Staged s false db db :=
  ⟨by simp [finishes], fun _ _ => rfl⟩

/-- The stages with these numbers were gone through one after the other. -/
inductive Passes : List (Stage × Bool) → Database → Database → Prop
  | nil (db : Database) : Passes [] db db
  | cons {s : Stage} {ran : Bool} {stages : List (Stage × Bool)} {db db' db'' : Database}
      (first : Staged s ran db db') (later : Passes stages db' db'') :
      Passes ((s, ran) :: stages) db db''

theorem Passes.others {stages : List (Stage × Bool)} (h : Passes stages db db')
    (hs : s ∉ stages.map Prod.fst) : db'.isDone s = db.isDone s := by
  induction h with
  | nil => rfl
  | cons first _ ih =>
    rw [List.map_cons, List.mem_cons, not_or] at hs
    rw [ih hs.2, first.others s hs.1]

/-- The stages that were run are those that were finished. -/
theorem Passes.finished {stages : List (Stage × Bool)} (h : Passes stages db db')
    (hnodup : (stages.map Prod.fst).Nodup) :
    (stages.filter Prod.snd).map Prod.fst =
      (stages.map Prod.fst).filter fun s => db.finishes db' s := by
  induction h with
  | nil => rfl
  | @cons s ran stages db db' db'' first later ih =>
    rw [List.map_cons, List.nodup_cons] at hnodup
    obtain ⟨hs, hnodup⟩ := hnodup
    have hran : db.finishes db'' s = ran := by
      rw [finishes, later.others hs]
      exact first.own
    have hlater : (stages.map Prod.fst).filter (fun s => db.finishes db'' s) =
        (stages.map Prod.fst).filter fun s => db'.finishes db'' s := by
      refine List.filter_congr fun s' hs' => ?_
      have hne : s' ≠ s := fun heq => hs (heq ▸ hs')
      rw [finishes, finishes, first.others s' hne]
    rw [List.map_cons, List.filter_cons, List.filter_cons, hran, hlater, ← ih hnodup]
    cases ran <;> rfl

/-- Nothing but flags of stages was changed. -/
structure Flagged (db db' : Database) : Prop where
  relogged : db.Relogged db'
  others : ∀ key, (∀ s : Stage, key ≠ s.flagKey) → db'.logged? key = db.logged? key

theorem Flagged.refl (db : Database) : db.Flagged db := ⟨.refl db, fun _ _ => rfl⟩

theorem Flagged.trans (h : db.Flagged db') (h' : db'.Flagged db'') : db.Flagged db'' :=
  ⟨h.relogged.trans h'.relogged, fun key hkey => (h'.others key hkey).trans (h.others key hkey)⟩

theorem Flagged.of_writes {value : String} (h : db.Writes ⟨s.flagKey, value, .replace⟩ db') :
    db.Flagged db' :=
  ⟨h.relogged, fun key hkey => by rw [h.entry, if_neg (hkey s)]⟩

/-- A flag that was set is the flag of its own stage only. -/
theorem isDone_of_writes {done : Bool}
    (h : db.Writes ⟨s.flagKey, flagText done, .replace⟩ db') (s' : Stage) :
    db'.isDone s' = if s' = s then done else db.isDone s' := by
  unfold isDone
  rw [h.entry]
  by_cases hs : s' = s
  · subst hs
    rw [if_pos rfl, if_pos rfl]
    exact saysDone_flagText done
  · rw [if_neg fun hkey => hs (Stage.flagKey_injective hkey), if_neg hs]

/-! ### What is counted -/

/-- Files were recorded: their marks were put behind the others, and so many documents were
stored. -/
structure Gains (indices : List Nat) (count : Nat) (db db' : Database) : Prop where
  rows : ∃ t t', db.contents.tables = some t ∧ db'.contents.tables = some t' ∧
    t'.rows.length = t.rows.length + count
  marks : (db'.logged? recordedKey).getD "" = (db.logged? recordedKey).getD "" ++ marks indices
  others : ∀ key, key ≠ recordedKey → key ≠ Stage.textAndMetadata.flagKey →
    db'.logged? key = db.logged? key

namespace Gains

variable {indices later : List Nat} {n n' : Nat}

theorem refl {t : Tables} (ht : db.contents.tables = some t) : Gains [] 0 db db where
  rows := ⟨t, t, ht, ht, rfl⟩
  marks := by simp [Checkpoint.marks]
  others _ _ _ := rfl

theorem trans (h : Gains indices n db db') (h' : Gains later n' db' db'') :
    Gains (indices ++ later) (n + n') db db'' where
  rows := by
    obtain ⟨t, t', ht, ht', hlength⟩ := h.rows
    obtain ⟨t₁, t'', ht₁, ht'', hlength'⟩ := h'.rows
    obtain rfl : t' = t₁ := Option.some.inj (ht'.symm.trans ht₁)
    exact ⟨t, t'', ht, ht'', by omega⟩
  marks := by
    rw [h'.marks, h.marks, String.append_assoc]
    simp [Checkpoint.marks, String.join_append]
  others key hkey hflag := (h'.others key hkey hflag).trans (h.others key hkey hflag)

theorem of_writes {value : String}
    (h : db.Writes ⟨Stage.textAndMetadata.flagKey, value, .replace⟩ db') :
    Gains [] 0 db db' where
  rows := by
    obtain ⟨t, ht⟩ := h.tables
    obtain ⟨l, ht'⟩ := h.relogged.tables ht
    exact ⟨t, _, ht, ht', rfl⟩
  marks := by
    rw [h.entry, if_neg (Stage.flagKey_ne_recordedKey _).symm]
    simp [Checkpoint.marks]
  others key _ hflag := by rw [h.entry, if_neg hflag]

/-- One file is recorded with its documents. -/
theorem of_recordFile {index : Nat} {source : String} {ds : List Document} {ids : List Nat}
    (h : recordFile index source ds db = .ok ids db') : Gains [index] ds.length db db' := by
  rw [recordFile, Access.saveLogged_eq_alter] at h
  obtain ⟨t, t', ht, hdone, rfl⟩ := Access.alter_eq_ok h
  split at hdone
  · cases hdone
  · obtain ⟨-, rfl⟩ : _ ∧ (t.add source ds).log ⟨recordedKey, fileMark index, .append⟩ = t' := by
      simpa using hdone
    have hentry : ∀ key, ((t.add source ds).log ⟨recordedKey, fileMark index, .append⟩).ledger.get?
        key = if key = recordedKey then some ((db.logged? recordedKey).getD "" ++ fileMark index)
          else db.logged? key := by
      intro key
      rw [logged?_eq ht, logged?_eq ht]
      exact Ledger.get?_write _ _ key
    refine ⟨⟨t, _, ht, rfl, ?_⟩, ?_, ?_⟩
    · simp [Tables.log, Tables.add, Tables.nextIds]
    · rw [logged?_eq rfl, hentry, if_pos rfl]
      simp [Checkpoint.marks]
    · intro key hkey _
      rw [logged?_eq rfl, hentry, if_neg hkey]

end Gains

/-- So many of the stored documents lie between the marks.  Where the first mark cannot be read, it
was left alone. -/
structure Advances (count : Nat) (db db' : Database) : Prop where
  read : ∀ mark, latestParsed db = .ok mark db → ∃ mark' t, latestParsed db' = .ok mark' db' ∧
    db'.contents.tables = some t ∧
    count = t.ids.countP fun (id : Nat) => mark < (id : Int) ∧ (id : Int) ≤ mark'
  unread : ∀ e, latestParsed db = .error e db →
    count = 0 ∧ db'.logged? parsedKey = db.logged? parsedKey

namespace Advances

variable {n : Nat} {t t' : Tables} {mark mark' : Int}

/-- Where the mark stays, it passes nothing. -/
theorem of_entry (ht : db.contents.tables = some t) (ht' : db'.contents.tables = some t')
    (h : db'.logged? parsedKey = db.logged? parsedKey) : Advances 0 db db' where
  read mark hmark := by
    refine ⟨mark, t', latestParsed_congr ht ht' h hmark, ht', ?_⟩
    rw [eq_comm, List.countP_eq_zero]
    intro id _
    simp only [decide_eq_true_eq]
    omega
  unread _ _ := ⟨rfl, h⟩

/-- When no document is left behind the mark, it has passed all that were behind it. -/
theorem of_behind (hmark : latestParsed db = .ok mark db)
    (hmark' : latestParsed db' = .ok mark' db') (ht' : db'.contents.tables = some t')
    (hids : t'.ids = t.ids) (hleft : Pipeline.behind t' mark' = []) :
    Advances (Pipeline.behind t mark).length db db' where
  read m hm := by
    obtain ⟨rfl, -⟩ := EStateM.Result.ok.inj (hmark.symm.trans hm)
    refine ⟨mark', t', hmark', ht', ?_⟩
    rw [Pipeline.behind, ← List.countP_eq_length_filter, hids]
    refine List.countP_congr fun id hid => ?_
    have hpassed : ¬ mark' < (id : Int) := by
      rw [← hids] at hid
      simpa using List.filter_eq_nil_iff.mp hleft id hid
    simp only [decide_eq_true_eq]
    omega
  unread e he := by cases hmark.symm.trans he

/-- The mark was left alone before, and flags only were changed behind. -/
theorem between {db₀ : Database} (h : Advances n db db') (ht₀ : db₀.contents.tables = some t)
    (ht : db.contents.tables = some t') (hbefore : db.logged? parsedKey = db₀.logged? parsedKey)
    (hbehind : db'.Flagged db'') : Advances n db₀ db'' where
  read mark hmark := by
    obtain ⟨mark', t₁, hmark', ht₁, hcount⟩ := h.read mark (latestParsed_congr ht₀ ht hbefore hmark)
    obtain ⟨l, ht₂⟩ := hbehind.relogged.tables ht₁
    have hkept := hbehind.others parsedKey fun s => s.flagKey_ne_parsedKey.symm
    exact ⟨mark', _, latestParsed_congr ht₁ ht₂ hkept hmark', ht₂, hcount⟩
  unread e he := by
    obtain ⟨mark, hmark⟩ | ⟨e', he'⟩ := latestParsed_cases db
    · cases he.symm.trans (latestParsed_congr ht ht₀ hbefore.symm hmark)
    · obtain ⟨hcount, hentry⟩ := h.unread e' he'
      refine ⟨hcount, ?_⟩
      rw [hbehind.others parsedKey fun s => s.flagKey_ne_parsedKey.symm, hentry, hbefore]

end Advances

end Database

namespace Pipeline

open Step Database

variable {pl : Pipeline σ} {r r' : Run σ} {s : Stage}

/-! ### Stages that were run or left out -/

/-- A stage is left out, or it was not done before. -/
theorem of_ifAsked {asked : Bool} {work : Step σ α} {o : Option α}
    (h : ifAsked asked (unlessDone s work) r = .ok o r') :
    (o = none ∧ r' = r) ∨ ∃ a, o = some a ∧ r.database.isDone s = false ∧ work r = .ok a r' := by
  cases asked with
  | false =>
    obtain ⟨rfl, rfl⟩ := EStateM.Result.ok.inj h
    exact .inl ⟨rfl, rfl⟩
  | true =>
    obtain ⟨done, r₁, hconsult, hwork⟩ := of_bind_ok (x := consult (stageDone s)) h
    obtain ⟨rfl, -, rfl⟩ := of_consult_entry hconsult
    cases hdone : saysDone ((r₁.database.logged? s.flagKey).getD "") with
    | true =>
      rw [hdone] at hwork
      obtain ⟨rfl, rfl⟩ := EStateM.Result.ok.inj hwork
      exact .inl ⟨rfl, rfl⟩
    | false =>
      rw [hdone] at hwork
      obtain ⟨a, r₂, hends, hpure⟩ := of_bind_ok (x := work) hwork
      obtain ⟨rfl, rfl⟩ := EStateM.Result.ok.inj hpure
      exact .inr ⟨a, rfl, hdone, hends⟩

/-! ### The first stage -/

theorem gains_of_recordOne {index n : Nat} {name : String} {content : Option String}
    (h : pl.recordOne index name content r = .ok n r') :
    Gains [index] n r.database r'.database := by
  obtain ⟨_, r₁, hopen, h⟩ := of_bind_ok (x := commit (setStage .textAndMetadata false)) h
  have hopened := Gains.of_writes (writes_of_log (of_commit_ok hopen))
  cases hextracted : pl.extractor.extractFile content with
  | error e =>
    rw [hextracted] at h
    cases h
  | ok ds =>
    rw [hextracted] at h
    obtain ⟨ids, r₂, hrecord, hpure⟩ := of_bind_ok (x := commit (recordFile index name ds)) h
    obtain ⟨rfl, rfl⟩ := EStateM.Result.ok.inj hpure
    simpa using hopened.trans (.of_recordFile (of_commit_ok hrecord))

/-- The files that are counted are those whose marks were written; a file that was recorded before
is not counted. -/
theorem gains_of_recordFrom {fs : List (String × Option String)} {index : Nat}
    {counts : Nat × Nat} (ht : ∃ t, r.database.contents.tables = some t)
    (h : pl.recordFrom index fs r = .ok counts r') :
    ∃ indices : List Nat, indices.length = counts.1 ∧
      Gains indices counts.2 r.database r'.database := by
  induction fs generalizing index r counts with
  | nil =>
    obtain ⟨rfl, rfl⟩ := EStateM.Result.ok.inj h
    obtain ⟨t, ht⟩ := ht
    exact ⟨[], rfl, .refl ht⟩
  | cons f fs ih =>
    obtain ⟨name, content⟩ := f
    obtain ⟨found, r₁, hconsult, h⟩ := of_bind_ok (x := consult (fileRecorded index)) h
    obtain ⟨rfl, -, -⟩ := of_consult_entry hconsult
    cases found with
    | true => exact ih ht h
    | false =>
      obtain ⟨here, r₂, hone, h⟩ := of_bind_ok (x := pl.recordOne index name content) h
      obtain ⟨later, r₃, hothers, hpure⟩ := of_bind_ok (x := pl.recordFrom (index + 1) fs) h
      obtain ⟨rfl, rfl⟩ := EStateM.Result.ok.inj hpure
      have hfirst := gains_of_recordOne hone
      obtain ⟨-, t, -, ht₂, -⟩ := hfirst.rows
      obtain ⟨indices, hlength, hgains⟩ := ih ⟨t, ht₂⟩ hothers
      exact ⟨index :: indices, congrArg Nat.succ hlength, hfirst.trans hgains⟩

theorem gains_of_extractRecord {counts : Nat × Nat}
    (ht : ∃ t, r.database.contents.tables = some t) (h : pl.extractRecord r = .ok counts r') :
    r'.database.isDone .textAndMetadata = true ∧ ∃ indices : List Nat, indices.length = counts.1 ∧
      Gains indices counts.2 r.database r'.database := by
  unfold extractRecord at h
  cases hfiles : pl.collection.files pl.config with
  | none =>
    rw [hfiles] at h
    cases h
  | some fs =>
    rw [hfiles] at h
    obtain ⟨counts', r₁, hrecord, h⟩ := of_bind_ok (x := pl.recordFrom 1 fs) h
    obtain ⟨_, r₂, hset, hpure⟩ := of_bind_ok (x := commit (setStage .textAndMetadata true)) h
    obtain ⟨rfl, rfl⟩ := EStateM.Result.ok.inj hpure
    have hwrites := writes_of_log (of_commit_ok hset)
    obtain ⟨indices, hlength, hgains⟩ := gains_of_recordFrom ht hrecord
    refine ⟨?_, indices, hlength, by simpa using hgains.trans (.of_writes hwrites)⟩
    rw [isDone_of_writes hwrites, if_pos rfl]

theorem tables_of_unlessDone {work : Step σ α} {o : Option α}
    (h : unlessDone s work r = .ok o r') : ∃ t, r.database.contents.tables = some t := by
  obtain ⟨_, _, hconsult, -⟩ := of_bind_ok (x := consult (stageDone s)) h
  exact (of_consult_entry hconsult).2.1

theorem of_recording {o : Option (Nat × Nat)}
    (h : unlessDone .textAndMetadata pl.extractRecord r = .ok o r') :
    Staged .textAndMetadata o.isSome r.database r'.database ∧
      ∃ indices : List Nat, indices.length = (o.getD (0, 0)).1 ∧
        Gains indices (o.getD (0, 0)).2 r.database r'.database := by
  obtain ⟨t, ht⟩ := tables_of_unlessDone h
  have hasked : ifAsked true (unlessDone .textAndMetadata pl.extractRecord) r = .ok o r' := h
  obtain ⟨rfl, rfl⟩ | ⟨counts, rfl, hopened, hends⟩ := of_ifAsked hasked
  · exact ⟨.refl _ _, [], rfl, .refl ht⟩
  · obtain ⟨hdone, indices, hlength, hgains⟩ := gains_of_extractRecord ⟨t, ht⟩ hends
    refine ⟨⟨by simp [finishes, hopened, hdone], fun s hs => ?_⟩, indices, hlength, hgains⟩
    exact isDone_congr (hgains.others _ s.flagKey_ne_recordedKey
      fun hkey => hs (Stage.flagKey_injective hkey))

/-! ### The parsing stage -/

/-- When parsing ends, no document is left behind the mark, so the documents that were behind it are
those that it has passed. -/
theorem of_parsing {n : Nat} (h : pl.parsing r = .ok n r') :
    r'.database.isDone .grammaticalProcessing = true ∧
      r.database.Relogged r'.database ∧
      (∀ key, key ≠ parsedKey → key ≠ Stage.grammaticalProcessing.flagKey →
        r'.database.logged? key = r.database.logged? key) ∧
      Advances n r.database r'.database := by
  obtain ⟨count, r₁, hparse, h⟩ := of_bind_ok (x := pl.parseDocuments) h
  obtain ⟨_, r₂, hfinish, hpure⟩ := of_bind_ok (x := finishParsing) h
  obtain ⟨rfl, rfl⟩ := EStateM.Result.ok.inj hpure
  -- Both read the mark and the ids.
  obtain ⟨_, _, hpending, -⟩ := of_bind_ok (x := consult pending) hparse
  obtain ⟨-, t, mark, ht, hmark, -⟩ := of_consult_pending hpending
  obtain ⟨left, r₃, hpending', hset⟩ := of_bind_ok (x := consult pending) hfinish
  obtain ⟨rfl, t', mark', ht', hmark', rfl⟩ := of_consult_pending hpending'
  have hends := tries_parseDocuments pl ht hmark
  unfold Ends at hends
  rw [hparse] at hends
  obtain ⟨rfl, trials, -, -, -, hparsed⟩ := hends
  cases hleft : behind t' mark' with
  | cons id ids =>
    rw [hleft] at hset
    cases hset
  | nil =>
    rw [hleft] at hset
    have hwrites := writes_of_log (of_commit_ok hset)
    have hrelogged := hparsed.relogged.trans hwrites.relogged
    refine ⟨by rw [isDone_of_writes hwrites, if_pos rfl], hrelogged, ?_, ?_⟩
    · intro key hkey hflag
      rw [hwrites.entry, if_neg hflag, hparsed.others key hkey hflag]
    · obtain ⟨l, ht₁⟩ := hparsed.relogged.tables ht
      obtain rfl : { t with ledger := l } = t' := Option.some.inj (ht₁.symm.trans ht')
      obtain ⟨l', ht₂⟩ := hwrites.relogged.tables ht'
      have hkept : r₂.database.logged? parsedKey = r₃.database.logged? parsedKey := by
        rw [hwrites.entry, if_neg (Stage.flagKey_ne_parsedKey _).symm]
      exact .of_behind hmark (latestParsed_congr ht' ht₂ hkept hmark') ht₂ rfl hleft

theorem of_parsingStage {asked : Bool} {o : Option Nat}
    (ht : ∃ t, r.database.contents.tables = some t)
    (h : ifAsked asked (unlessDone .grammaticalProcessing pl.parsing) r = .ok o r') :
    Staged .grammaticalProcessing o.isSome r.database r'.database ∧
      r.database.Relogged r'.database ∧
      r'.database.logged? recordedKey = r.database.logged? recordedKey ∧
      Advances (o.getD 0) r.database r'.database := by
  obtain ⟨rfl, rfl⟩ | ⟨n, rfl, hopened, hends⟩ := of_ifAsked h
  · obtain ⟨t, ht⟩ := ht
    exact ⟨.refl _ _, .refl _, rfl, .of_entry ht ht rfl⟩
  · obtain ⟨hdone, hrelogged, hothers, hadvances⟩ := of_parsing hends
    refine ⟨⟨by simp [finishes, hopened, hdone], fun s hs => ?_⟩, hrelogged, ?_, hadvances⟩
    · exact isDone_congr (hothers _ s.flagKey_ne_parsedKey
        fun hkey => hs (Stage.flagKey_injective hkey))
    · exact hothers _ recordedKey_ne_parsedKey (Stage.flagKey_ne_recordedKey _).symm

/-! ### The other stages -/

theorem of_flagOnly {asked : Bool} {o : Option Unit}
    (h : ifAsked asked (flagOnly s) r = .ok o r') :
    Staged s o.isSome r.database r'.database ∧ r.database.Flagged r'.database := by
  obtain ⟨rfl, rfl⟩ | ⟨_, rfl, hopened, hends⟩ := of_ifAsked h
  · exact ⟨.refl _ _, .refl _⟩
  · have hwrites := writes_of_log (of_commit_ok hends)
    refine ⟨⟨?_, fun s' hs => ?_⟩, .of_writes hwrites⟩
    · simp [finishes, hopened, isDone_of_writes hwrites]
    · rw [isDone_of_writes hwrites, if_neg hs]

end Pipeline

/-! ### All stages -/

open Pipeline Database

/-- What the summary says is what was done to the database: the marks of so many files were put
behind the others, so many documents were stored, so many documents lie between the mark of the
document parsed last as it was and as it is, and the stages that were run are those that were not
done and are done now.  A mark that cannot be read is left alone. -/
structure Summary.Truthful (s : Summary) (db db' : Database) : Prop where
  files : ∃ text indices, (Access.ledgerValue recordedKey).answer? db = some text ∧
    (Access.ledgerValue recordedKey).answer? db' = some (text ++ marks indices) ∧
    s.filesExtracted = indices.length
  documents : ∃ count, Access.documentCount.answer? db = some count ∧
    Access.documentCount.answer? db' = some (count + s.documentsRecorded)
  parsed : ∀ mark, latestParsed.answer? db = some mark →
    ∃ mark' ids, latestParsed.answer? db' = some mark' ∧ Access.ids.answer? db' = some ids ∧
      s.documentsParsed = ids.countP fun (id : Nat) => mark < (id : Int) ∧ (id : Int) ≤ mark'
  unread : latestParsed.answer? db = none → s.documentsParsed = 0 ∧
    (Access.ledgerValue parsedKey).answer? db' = (Access.ledgerValue parsedKey).answer? db
  stages : s.stagesRun = Stage.all.filter fun stage =>
    (stageDone stage).answer? db = some false ∧ (stageDone stage).answer? db' = some true

namespace Database

variable {db : Database} {t : Tables}

theorem answer_ledgerValue (ht : db.contents.tables = some t) (key : String) :
    (Access.ledgerValue key).answer? db = some ((db.logged? key).getD "") := by
  rw [Access.answer?, ledgerValue_eq ht]

theorem answer_documentCount (ht : db.contents.tables = some t) :
    Access.documentCount.answer? db = some t.rows.length := by
  simp only [Access.answer?, Access.documentCount, Access.look, ht]

theorem answer_ids (ht : db.contents.tables = some t) : Access.ids.answer? db = some t.ids := by
  simp only [Access.answer?, Access.ids, Access.look, ht]

theorem answer_isDone (ht : db.contents.tables = some t) (s : Stage) :
    (stageDone s).answer? db = some (db.isDone s) := by
  rw [Access.answer?, stageDone_of_entry ht, isDone]

theorem latestParsed_of_answer {mark : Int} (h : latestParsed.answer? db = some mark) :
    latestParsed db = .ok mark db := by
  obtain ⟨mark', hmark⟩ | ⟨e, he⟩ := latestParsed_cases db
  · rw [Access.answer?, hmark] at h
    rw [hmark, Option.some.inj h]
  · rw [Access.answer?, he] at h
    cases h

end Database

namespace Pipeline

open Step

/-- The stages that were run, of those that were gone through. -/
theorem ran_append (s : Stage) (o : Option α) (stages : List (Stage × Bool)) :
    ran s o ++ (stages.filter Prod.snd).map Prod.fst =
      (((s, o.isSome) :: stages).filter Prod.snd).map Prod.fst := by
  cases o <;> rfl

/-- The summary of a run that ends is truthful, whatever the database was. -/
theorem process_truthful {pl : Pipeline σ} {r r' : Run σ} {s : Summary}
    (h : pl.process false r = .ok s r') : s.Truthful r.database r'.database := by
  obtain ⟨recorded, r₁, h₁, h⟩ :=
    of_bind_ok (x := unlessDone .textAndMetadata pl.extractRecord) h
  obtain ⟨parsed, r₂, h₂, h⟩ := of_bind_ok
    (x := ifAsked pl.config.needsParsing (unlessDone .grammaticalProcessing pl.parsing)) h
  obtain ⟨counts, r₃, h₃, h⟩ := of_bind_ok (x := ifAsked true (flagOnly .wordCounts)) h
  obtain ⟨tfidf, r₄, h₄, h⟩ := of_bind_ok (x := ifAsked true (flagOnly .tfidf)) h
  obtain ⟨similarity, r₅, h₅, h⟩ := of_bind_ok
    (x := ifAsked pl.config.wordToWordSimilarity (flagOnly .wordSimilarity)) h
  obtain ⟨rfl, rfl⟩ := EStateM.Result.ok.inj h
  obtain ⟨hstaged₁, indices, hlength, hgains⟩ := of_recording h₁
  obtain ⟨t, t₁, ht, ht₁, hrows⟩ := hgains.rows
  obtain ⟨hstaged₂, hrelogged, hrecorded, hadvances⟩ := of_parsingStage ⟨t₁, ht₁⟩ h₂
  obtain ⟨hstaged₃, hflagged₃⟩ := of_flagOnly h₃
  obtain ⟨hstaged₄, hflagged₄⟩ := of_flagOnly h₄
  obtain ⟨hstaged₅, hflagged₅⟩ := of_flagOnly h₅
  have hflagged : r₂.database.Flagged r₅.database := (hflagged₃.trans hflagged₄).trans hflagged₅
  have hcounted := hadvances.between ht ht₁ (hgains.others _ recordedKey_ne_parsedKey.symm
    (Stage.flagKey_ne_parsedKey _).symm) hflagged
  obtain ⟨l, ht₂⟩ := hrelogged.tables ht₁
  obtain ⟨l', ht₅⟩ := hflagged.relogged.tables ht₂
  refine ⟨?_, ?_, ?_, ?_, ?_⟩
  · have hmarks : r₅.database.logged? recordedKey = r₁.database.logged? recordedKey := by
      rw [hflagged.others _ fun s => s.flagKey_ne_recordedKey.symm, hrecorded]
    refine ⟨_, indices, answer_ledgerValue ht _, ?_, hlength.symm⟩
    rw [answer_ledgerValue ht₅, hmarks, hgains.marks]
  · refine ⟨t.rows.length, answer_documentCount ht, ?_⟩
    rw [answer_documentCount ht₅]
    exact congrArg some hrows
  · intro mark hmark
    obtain ⟨mark', t', hmark', ht', hcount⟩ := hcounted.read mark (latestParsed_of_answer hmark)
    exact ⟨mark', t'.ids, by rw [Access.answer?, hmark'], answer_ids ht', hcount⟩
  · intro hnone
    obtain ⟨mark, hmark⟩ | ⟨e, he⟩ := latestParsed_cases r.database
    · rw [Access.answer?, hmark] at hnone
      cases hnone
    · obtain ⟨hcount, hentry⟩ := hcounted.unread e he
      exact ⟨hcount, by rw [answer_ledgerValue ht₅, answer_ledgerValue ht, hentry]⟩
  · have hpasses := (Passes.nil r₅.database).cons hstaged₅ |>.cons hstaged₄ |>.cons hstaged₃
      |>.cons hstaged₂ |>.cons hstaged₁
    have hdistinct : Stage.all.Nodup := by decide
    have hfinished := hpasses.finished hdistinct
    simp only [← ran_append, List.filter_nil, List.map_nil, List.append_nil] at hfinished
    simp only [answer_isDone ht, answer_isDone ht₅, List.append_assoc, hfinished]
    refine List.filter_congr fun s _ => ?_
    simp [finishes]

/-- The first file is recorded, its document is parsed, and one flag is set in capital letters. -/
def oneRecorded : Tables :=
  let d : Document := ⟨"text", ⟨"text", [], [], [⟨"One.", []⟩]⟩⟩
  (((Tables.empty.add "a.xml" [d]).log ⟨recordedKey, "[1]", .append⟩).log
    ⟨parsedKey, "1", .update⟩).log ⟨Stage.wordCounts.flagKey, "TRUE!", .replace⟩

/-- The second of two files is recorded, and its document is parsed. -/
theorem process_truthful_second :
    let pl : Pipeline Unit :=
      ⟨{ Config.default with grammaticalProcessing := true },
        ⟨.nested ⟨"text", ["text"], []⟩ [], .punctuation, true⟩,
        ⟨"texts", some [(.text "a.xml", .file (some "<text/>")),
          (.text "b.xml", .file (some "<text/>"))]⟩, Parser.idle⟩
    let r : Run Unit := .start (.ofContents ⟨some [.initial], some oneRecorded, []⟩) ()
    let s : Summary := ⟨1, 1, 1, [.textAndMetadata, .grammaticalProcessing, .tfidf]⟩
    ∃ r', pl.process false r = .ok s r' ∧ s.Truthful r.database r'.database := by
  intro pl r s
  have hends : (pl.process false).run' r = some s := by decide +kernel
  unfold EStateM.run' EStateM.run at hends
  -- From here on it does not matter what the pipeline and the run are.
  clear_value pl r s
  cases hrun : pl.process false r with
  | error e r' =>
    rw [hrun] at hends
    cases hends
  | ok s' r' =>
    rw [hrun] at hends
    obtain rfl : s' = s := Option.some.inj hends
    exact ⟨r', rfl, process_truthful hrun⟩

end Pipeline

end XmlHarvest
