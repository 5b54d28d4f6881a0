/-
Runs that are taken up again leave what one run without faults leaves.

Which flags are set and how far the mark of the parsed documents has come depends on where runs
stopped, but never freely: `Progress.Ordered` lists what every move keeps.  When every stage that is
asked for is done, this and the recorded files determine the progress (`Progress.eq_of_complete`),
hence the tables.  A run without faults ends, since each of its documents was extracted, stored and
read back before.
-/
import XmlHarvest.Proofs.Pipeline.Attempts

namespace XmlHarvest

open Checkpoint Relation

variable {σ : Type}

namespace Progress

variable {pl : Pipeline σ} {fs : List (String × Option String)} {names : List String}
  {p p' : Progress}

/-! ### What all moves keep -/

/-- The flags and the mark of the parsed documents are in step with each other and with the
recorded files. -/
structure Ordered (c : Config) (p : Progress) : Prop where
  /-- Nothing is parsed before all files are recorded. -/
  text : p.parsed ≠ .none ∨ p.flag .grammaticalProcessing ≠ .none →
    p.flag .textAndMetadata = some true
  /-- Documents are parsed only if this is asked for. -/
  asked : p.parsed ≠ .none ∨ p.flag .grammaticalProcessing ≠ .none → c.needsParsing = true
  within : ∀ m, p.parsed = some m → 0 < m ∧ m ≤ p.documents.length
  /-- The documents that count as parsed could be read back. -/
  readable : ∀ j name d, j < p.parsedCount → p.documents[j]? = some (name, d) →
    Document.read? d.write ≠ .none
  /-- Once the parsing stage is done no document is left, and 64 bits hold the mark. -/
  parsed : p.flag .grammaticalProcessing = some true →
    p.parsedCount = p.documents.length ∧ p.parsedCount < 2 ^ 63
  flags : ∀ s, s ≠ .textAndMetadata → s ≠ .grammaticalProcessing →
    p.flag s = .none ∨ p.flag s = some true
  similarity : p.flag .wordSimilarity ≠ .none → c.wordToWordSimilarity = true

namespace Ordered

variable {c : Config}

theorem none (c : Config) : Progress.none.Ordered c where
  text h := by rcases h with h | h <;> exact absurd rfl h
  asked h := by rcases h with h | h <;> exact absurd rfl h
  within m h := nomatch h
  readable j name d h _ := absurd h (Nat.not_lt_zero j)
  parsed h := nomatch h
  flags s _ _ := .inl rfl
  similarity h := absurd rfl h

/-- As long as a file is left to be recorded, nothing is parsed. -/
theorem unparsed (hp : p.Ordered c) (h : p.flag .textAndMetadata ≠ some true) :
    p.parsed = .none ∧ p.flag .grammaticalProcessing = .none := by
  constructor
  · exact Decidable.byContradiction fun hne => h (hp.text (.inl hne))
  · exact Decidable.byContradiction fun hne => h (hp.text (.inr hne))

theorem parsedCount_le (hp : p.Ordered c) : p.parsedCount ≤ p.documents.length := by
  unfold parsedCount
  cases hm : p.parsed with
  | none => exact Nat.zero_le _
  | some m => exact (hp.within m hm).2

/-- Where nothing is parsed only the later flags matter. -/
theorem of_unparsed (hparsed : p.parsed = .none) (hgrammatical : p.flag .grammaticalProcessing = .none)
    (hflags : ∀ s, s ≠ .textAndMetadata → s ≠ .grammaticalProcessing →
      p.flag s = .none ∨ p.flag s = some true)
    (hsimilarity : p.flag .wordSimilarity ≠ .none → c.wordToWordSimilarity = true) :
    p.Ordered c where
  text h := by rcases h with h | h <;> contradiction
  asked h := by rcases h with h | h <;> contradiction
  within m h := by rw [hparsed] at h; cases h
  readable j name d h _ := by simp [parsedCount, hparsed] at h
  parsed h := by rw [hgrammatical] at h; cases h
  flags := hflags
  similarity := hsimilarity

/-- A flag outside the first two stages is set. -/
theorem setFlag (hp : p.Ordered c) {s : Stage} (htext : s ≠ .textAndMetadata)
    (hgrammatical : s ≠ .grammaticalProcessing)
    (hs : s = .wordSimilarity → c.wordToWordSimilarity = true) : (p.setFlag s true).Ordered c where
  text := by
    rw [flag_setFlag_other hgrammatical.symm, flag_setFlag_other htext.symm]
    exact hp.text
  asked := by
    rw [flag_setFlag_other hgrammatical.symm]
    exact hp.asked
  within := hp.within
  readable := hp.readable
  parsed := by
    rw [flag_setFlag_other hgrammatical.symm]
    exact hp.parsed
  flags s' htext' hgrammatical' := by
    by_cases heq : s' = s
    · right
      rw [heq, flag_setFlag_same]
    · rw [flag_setFlag_other heq]
      exact hp.flags s' htext' hgrammatical'
  similarity h := by
    by_cases heq : Stage.wordSimilarity = s
    · exact hs heq.symm
    · rw [flag_setFlag_other heq] at h
      exact hp.similarity h

/-- The flag of the first stage is set. -/
theorem setText (hp : p.Ordered c) : (p.setFlag .textAndMetadata true).Ordered c where
  text _ := flag_setFlag_same ..
  asked := by
    rw [flag_setFlag_other (by decide)]
    exact hp.asked
  within := hp.within
  readable := hp.readable
  parsed := by
    rw [flag_setFlag_other (by decide)]
    exact hp.parsed
  flags s htext hgrammatical := by
    rw [flag_setFlag_other htext]
    exact hp.flags s htext hgrammatical
  similarity := by
    rw [flag_setFlag_other (by decide)]
    exact hp.similarity

/-- The flag of the parsing stage is set or taken back. -/
theorem setGrammatical (hp : p.Ordered c) (htext : p.flag .textAndMetadata = some true)
    (hasked : c.needsParsing = true) {done : Bool}
    (hdone : done = true → p.parsedCount = p.documents.length ∧ p.parsedCount < 2 ^ 63) :
    (p.setFlag .grammaticalProcessing done).Ordered c where
  text _ := by rw [flag_setFlag_other (by decide), htext]
  asked _ := hasked
  within := hp.within
  readable := hp.readable
  parsed h := by
    rw [flag_setFlag_same] at h
    exact hdone (Option.some.inj h)
  flags s' htext' hgrammatical' := by
    rw [flag_setFlag_other hgrammatical']
    exact hp.flags s' htext' hgrammatical'
  similarity := by
    rw [flag_setFlag_other (by decide)]
    exact hp.similarity

/-- The first of the documents that are left is parsed. -/
theorem setParsed (hp : p.Ordered c) (htext : p.flag .textAndMetadata = some true)
    (hasked : c.needsParsing = true) (hopened : p.flag .grammaticalProcessing = some false)
    {name : String} {d : Document} (next : p.documents[p.parsedCount]? = some (name, d))
    (hread : Document.read? d.write ≠ .none) : (p.setParsed (p.parsedCount + 1)).Ordered c where
  text _ := htext
  asked _ := hasked
  within m h := by
    have hlt : p.parsedCount < p.documents.length := (List.getElem?_eq_some_iff.mp next).1
    obtain rfl : p.parsedCount + 1 = m := Option.some.inj h
    exact ⟨Nat.succ_pos _, hlt⟩
  readable j name' d' hj hd' := by
    rcases Nat.lt_succ_iff_lt_or_eq.mp hj with hlt | rfl
    · exact hp.readable j name' d' hlt hd'
    · obtain ⟨rfl, rfl⟩ : name' = name ∧ d' = d := by simpa [next] using hd'.symm
      exact hread
  parsed h := absurd (hopened.symm.trans h) (by decide)
  flags := hp.flags
  similarity := hp.similarity

theorem move {pl : Pipeline σ} (hnames : fs.map Prod.fst = names) (hinitial : p.Initial names)
    (hp : p.Ordered pl.config) (h : pl.Move fs p p') : p'.Ordered pl.config := by
  cases h with
  | reopen left =>
    -- A file is left, so the first stage was not done before, and nothing was parsed.
    have hleft : p.flag .textAndMetadata ≠ some true := by
      intro hdone
      have hlength := hinitial.done hdone
      rw [← hnames, List.length_map] at hlength
      omega
    obtain ⟨hparsed, hgrammatical⟩ := hp.unparsed hleft
    refine of_unparsed hparsed ?_ ?_ ?_
    · rw [flag_setFlag_other (by decide), hgrammatical]
    · intro s htext hs
      rw [flag_setFlag_other htext]
      exact hp.flags s htext hs
    · rw [flag_setFlag_other (by decide)]
      exact hp.similarity
  | record next extracted opened =>
    obtain ⟨hparsed, hgrammatical⟩ := hp.unparsed (by rw [opened]; decide)
    exact of_unparsed hparsed hgrammatical hp.flags hp.similarity
  | recorded all => exact hp.setText
  | reparse asked text left => exact hp.setGrammatical text asked (fun h => nomatch h)
  | parse asked text opened next readable => exact hp.setParsed text asked opened next readable
  | parsed asked text all fits =>
    exact hp.setGrammatical text asked fun _ => ⟨Nat.le_antisymm hp.parsedCount_le all, fits⟩
  | flagged text parsed stage =>
    rcases stage with rfl | rfl | ⟨rfl, hasked⟩
    · exact hp.setFlag (by decide) (by decide) (fun h => nomatch h)
    · exact hp.setFlag (by decide) (by decide) (fun h => nomatch h)
    · exact hp.setFlag (by decide) (by decide) (fun _ => hasked)

theorem moves {pl : Pipeline σ} (hnames : fs.map Prod.fst = names) (hinitial : p.Initial names)
    (hp : p.Ordered pl.config) (h : ReflTransGen (pl.Move fs) p p') : p'.Ordered pl.config := by
  induction h with
  | refl => exact hp
  | tail hbefore hmove ih => exact ih.move hnames (hinitial.moves hnames hbefore) hmove

end Ordered

/-! ### What completion determines -/

namespace Ordered

variable {pl : Pipeline σ}

theorem parsed_of_complete (hp : p.Ordered pl.config) (h : pl.Complete p) :
    p.parsed =
      if pl.config.needsParsing = true ∧ p.documents.length ≠ 0 then some p.documents.length
      else .none := by
  cases hm : p.parsed with
  | none =>
    rw [if_neg]
    rintro ⟨hasked, hlength⟩
    have hcount := (hp.parsed (h.parsed hasked)).1
    rw [parsedCount, hm] at hcount
    exact hlength hcount.symm
  | some m =>
    -- A mark is set only where parsing is asked for, and never to zero.
    have hasked := hp.asked (.inl (by rw [hm]; exact Option.some_ne_none m))
    have hcount := (hp.parsed (h.parsed hasked)).1
    rw [parsedCount, hm] at hcount
    obtain ⟨hpos, -⟩ := hp.within m hm
    obtain rfl : m = p.documents.length := hcount
    rw [if_pos ⟨hasked, by omega⟩]

theorem flag_of_complete (hp : p.Ordered pl.config) (h : pl.Complete p) (s : Stage) :
    p.flag s =
      if (s = .grammaticalProcessing → pl.config.needsParsing = true) ∧
        (s = .wordSimilarity → pl.config.wordToWordSimilarity = true) then some true
      else .none := by
  cases s with
  | textAndMetadata => simpa using h.text
  | wordCounts => simpa using h.counts
  | tfidf => simpa using h.tfidf
  | grammaticalProcessing =>
    by_cases hasked : pl.config.needsParsing = true
    · simpa [hasked] using h.parsed hasked
    · simpa [hasked] using fun hne => hasked (hp.asked (.inr hne))
  | wordSimilarity =>
    by_cases hasked : pl.config.wordToWordSimilarity = true
    · simpa [hasked] using h.similarity hasked
    · simpa [hasked] using fun hne => hasked (hp.similarity hne)

end Ordered

/-- Where every stage that is asked for is done, the recorded files determine everything. -/
theorem eq_of_complete {τ : Type} {pl : Pipeline σ} {pl' : Pipeline τ}
    (hconfig : pl'.config = pl.config) (hp : p.Ordered pl.config) (hp' : p'.Ordered pl.config)
    (h : pl.Complete p) (h' : pl'.Complete p') (hfiles : p'.files = p.files) : p' = p := by
  -- The settings are the same, so both are complete for the same stages.
  have hcomplete : pl.Complete p' :=
    ⟨h'.text, hconfig ▸ h'.parsed, h'.counts, h'.tfidf, hconfig ▸ h'.similarity⟩
  have hdocuments : p'.documents = p.documents := by rw [documents, documents, hfiles]
  have hparsed : p'.parsed = p.parsed := by
    rw [hp'.parsed_of_complete hcomplete, hp.parsed_of_complete h, hdocuments]
  have hflag : p'.flag = p.flag := by
    funext s
    rw [hp'.flag_of_complete hcomplete, hp.flag_of_complete h]
  obtain ⟨files, parsed, flag⟩ := p
  obtain ⟨files', parsed', flag'⟩ := p'
  obtain rfl : files' = files := hfiles
  obtain rfl : parsed' = parsed := hparsed
  obtain rfl : flag' = flag := hflag
  rfl

/-! ### Files as they are -/

/-- The recorded files are those of the collection, with what extraction makes of them. -/
def From (x : Extractor) (fs : List (String × Option String)) (p : Progress) : Prop :=
  ∀ (j : Nat) (e : String × List Document), p.files[j]? = some e →
    ∃ content, fs[j]? = some (e.1, content) ∧ x.extractFile content = .ok e.2

/-- Of two progresses on the same files the one has recorded the first files of the other. -/
theorem From.files_begin {x : Extractor} (hp : p.From x fs) (hp' : p'.From x fs)
    (hle : p'.files.length ≤ p.files.length) : p'.files <+: p.files := by
  rw [List.prefix_iff_getElem?]
  intro j hj
  have hget : p.files[j]? = some p.files[j] := List.getElem?_eq_getElem (by omega)
  obtain ⟨content, hfile, hds⟩ := hp j _ hget
  obtain ⟨content', hfile', hds'⟩ := hp' j _ (List.getElem?_eq_getElem hj)
  obtain ⟨hname, rfl⟩ : p.files[j].1 = p'.files[j].1 ∧ content = content' := by
    simpa using hfile.symm.trans hfile'
  have hdocuments : p.files[j].2 = p'.files[j].2 := by
    rw [hds] at hds'
    exact Except.ok.inj hds'
  rw [hget, Prod.ext hname hdocuments]

theorem documents_begin (h : p'.files <+: p.files) : p'.documents <+: p.documents := by
  obtain ⟨later, hlater⟩ := h
  rw [documents, documents, ← hlater, List.flatMap_append]
  exact List.prefix_append _ _

end Progress

namespace Attempt

variable {names : List String} {as : List Attempt} {a z w : Attempt}
  {fs : List (String × Option String)} {p : Progress}

/-! ### Attempts on one collection -/

/-- The attempts have their settings and their extractor in common. -/
structure Like (a z : Attempt) : Prop where
  config : a.pipeline.config = z.pipeline.config
  extractor : a.pipeline.extractor = z.pipeline.extractor

/-- Nothing keeps the attempt from writing, and the parser takes every document. -/
structure Faultless (a : Attempt) : Prop where
  rejected : a.rejected = []
  writesLeft : a.writesLeft = none
  parser : ∀ d s, (a.pipeline.parser d s).1 = .ok ()

theorem Traces.ordered (h : Traces as p)
    (hnames : ∀ a ∈ as, a.files?.map (·.map Prod.fst) = some names)
    (hlike : ∀ a ∈ as, a.Like z) : p.Ordered z.pipeline.config := by
  induction h with
  | nil => exact .none _
  | @append as a fs p p' before shown files moves shown' ih =>
    -- What the moves keep is said in terms of the settings, which this attempt shares with `z`.
    have hbefore : ∀ b ∈ as, b.files?.map (·.map Prod.fst) = some names :=
      fun b hb => hnames b (by simp [hb])
    have hfs : fs.map Prod.fst = names := by simpa [files] using hnames a (by simp)
    have hp := ih hbefore fun b hb => hlike b (by simp [hb])
    rw [← (hlike a (by simp)).config] at hp ⊢
    exact hp.moves hfs (before.initial hbefore) moves

/-- Where every file had its final content when it was recorded, the recorded files are those of
the collection in the end. -/
theorem Traces.from_final (h : Traces as p) (hfs : z.files? = some fs)
    (hnames : ∀ a ∈ as, a.files?.map (·.map Prod.fst) = some (fs.map Prod.fst))
    (hlike : ∀ a ∈ as, a.Like z)
    (hfinal : ∀ i a j, as[i]? = some a → Records as i j → a.file? j = z.file? j) :
    p.From z.pipeline.extractor fs := by
  intro j e he
  obtain ⟨i, a, ha, hrecords, hds⟩ := h.recordedIn he
  have hmem : a ∈ as := List.mem_of_getElem? ha
  rw [extracted?, hfinal i a j ha hrecords, (hlike a hmem).extractor] at hds
  obtain ⟨⟨name, content⟩, hfile, hds⟩ := Option.map_eq_some_iff.mp hds
  rw [file?, hfs, Option.bind_some] at hfile
  -- The file bears the name at its place, since recorded files are the first ones.
  have hname : e.1 = name := by
    have hmap : (p.files.map Prod.fst)[j]? = some e.1 := by
      rw [List.getElem?_map, he]
      rfl
    have hlater := getElem?_of_beginning (h.initial hnames).first hmap
    rw [List.getElem?_map, hfile] at hlater
    exact (Option.some.inj hlater).symm
  exact ⟨content, by rw [hname, hfile], hds⟩

/-- A run without faults has nothing to stop at, if everything that it may come to was extracted
and read back by other runs. -/
theorem Faultless.not_fault (hw : w.Faultless) {p' : Progress} {e : RunError}
    (hdone : fs.length ≤ p.files.length) (hp : p.From w.pipeline.extractor fs)
    (hordered : p.Ordered w.pipeline.config)
    (hparsed : w.pipeline.config.needsParsing = true → p.flag .grammaticalProcessing = some true)
    (hp' : p'.files <+: p.files) (hordered' : p'.Ordered w.pipeline.config) :
    ¬ w.pipeline.Fault fs w.limits p' e := by
  intro hfault
  have hdocuments := Progress.documents_begin hp'
  cases hfault with
  | refused h =>
    cases h with
    | cutOff h => simp [limits, hw.writesLeft] at h
    | rejected h => simp [limits, hw.rejected] at h
  | @extracting name content e next failed =>
    have hlt := (List.getElem?_eq_some_iff.mp next).1
    obtain ⟨content', hfile, hds⟩ := hp _ _ (List.getElem?_eq_getElem (hlt.trans_le hdone))
    obtain ⟨-, rfl⟩ : _ ∧ content = content' := by simpa using next.symm.trans hfile
    rw [failed] at hds
    cases hds
  | badMark asked big =>
    -- The other runs read a mark that is not smaller.
    obtain ⟨hcount, hfits⟩ := hordered.parsed (hparsed asked)
    have hle : p'.parsedCount ≤ p'.documents.length := hordered'.parsedCount_le
    have hle' := hdocuments.length_le
    omega
  | corrupt asked stored unread =>
    -- The other runs parsed the same document.
    obtain ⟨hcount, -⟩ := hordered.parsed (hparsed asked)
    have hstored := getElem?_of_beginning hdocuments stored
    have hlt := (List.getElem?_eq_some_iff.mp hstored).1
    exact hordered.readable _ _ _ (by omega) hstored unread
  | @parsing d s reason asked failed =>
    rw [hw.parser d s] at failed
    cases failed

/-- Where every file had its final content when it was recorded and the last run ended, its progress
is complete and belongs to the files as they are in the end. -/
theorem complete_of_ends {s : Summary} {r : Run z.σ} (hfs : z.files? = some fs)
    (hnames : ∀ a ∈ as, a.files?.map (·.map Prod.fst) = some (fs.map Prod.fst))
    (hlike : ∀ a ∈ as, a.Like z)
    (hfinal : ∀ i a j, (as ++ [z])[i]? = some a → Records (as ++ [z]) i j → a.file? j = z.file? j)
    (hends : z.outcome (afterAll as) = .ok s r) :
    ∃ p, (afterAll (as ++ [z])).Shows p ∧ z.pipeline.Complete p ∧
      p.Ordered z.pipeline.config ∧ p.From z.pipeline.extractor fs ∧
      p.files.length = fs.length := by
  have hnames' : ∀ a ∈ as ++ [z], a.files?.map (·.map Prod.fst) = some (fs.map Prod.fst) := by
    intro a ha
    rcases List.mem_append.mp ha with ha | ha
    · exact hnames a ha
    · rw [List.mem_singleton.mp ha, hfs, Option.map_some]
  have hlike' : ∀ a ∈ as ++ [z], a.Like z := by
    intro a ha
    rcases List.mem_append.mp ha with ha | ha
    · exact hlike a ha
    · rw [List.mem_singleton.mp ha]
      exact ⟨rfl, rfl⟩
  obtain ⟨p, hbefore⟩ := traces_afterAll hnames
  obtain ⟨p', hdb', hmoves, hcomplete⟩ := shows_after hfs hbefore.shows
  rw [hends] at hcomplete
  have hshown : (afterAll (as ++ [z])).Shows p' := by rwa [afterAll_append_singleton]
  have htraces : Traces (as ++ [z]) p' := .append hbefore hbefore.shows hfs hmoves hshown
  refine ⟨p', hshown, hcomplete, htraces.ordered hnames' hlike',
    htraces.from_final hfs hnames' hlike' hfinal, ?_⟩
  rw [(htraces.initial hnames').done hcomplete.text, List.length_map]

/-- Runs that stopped anywhere and were taken up until one ended leave the tables that one run
without faults leaves, and that run ends. -/
theorem resumed_eq_faultless {s : Summary} {r : Run z.σ} (hfs : z.files? = some fs)
    (hnames : ∀ a ∈ as, a.files?.map (·.map Prod.fst) = some (fs.map Prod.fst))
    (hlike : ∀ a ∈ as, a.Like z)
    (hfinal : ∀ i a j, (as ++ [z])[i]? = some a → Records (as ++ [z]) i j → a.file? j = z.file? j)
    (hends : z.outcome (afterAll as) = .ok s r)
    (hw : w.Faultless) (hwz : w.Like z) (hwfs : w.files? = some fs) :
    ∃ s' r', w.outcome .migrated = .ok s' r' ∧
      (w.after .migrated).contents.tables = (afterAll (as ++ [z])).contents.tables := by
  obtain ⟨p, hshown, hcomplete, hordered, hfrom, hlength⟩ :=
    complete_of_ends hfs hnames hlike hfinal hends
  obtain ⟨p', hdb', hmoves, hend⟩ := shows_after hwfs Database.Shows.migrated
  -- What the run without faults has recorded when it is over are the first of the same files.
  have hinitial := (Progress.Initial.none (fs.map Prod.fst)).moves rfl hmoves
  have hordered' : p'.Ordered w.pipeline.config :=
    (Progress.Ordered.none _).moves rfl (Progress.Initial.none _) hmoves
  have hfrom' : p'.From w.pipeline.extractor fs := by
    intro j e he
    exact (Pipeline.extends_of_moves hmoves).new j e (Nat.zero_le j) he
  rw [hwz.config] at hordered'
  rw [hwz.extractor] at hfrom'
  have hle : p'.files.length ≤ p.files.length := by
    have hfirst := hinitial.first.length_le
    rw [List.length_map, List.length_map] at hfirst
    omega
  have hbegins := hfrom.files_begin hfrom' hle
  cases hrun : w.outcome .migrated with
  | error e r' =>
    -- Everything that the run comes to was extracted and read back by the others.
    rw [hrun] at hend
    refine absurd hend (hw.not_fault hlength.ge ?_ ?_ ?_ hbegins ?_)
    · rwa [hwz.extractor]
    · rwa [hwz.config]
    · rw [hwz.config]
      exact hcomplete.parsed
    · rwa [hwz.config]
  | ok s' r' =>
    -- Both are complete on the same files, so their progress is the same.
    rw [hrun] at hend
    have hlength' : p'.files.length = p.files.length := by
      rw [hinitial.done hend.text, List.length_map, hlength]
    have heq : p' = p :=
      Progress.eq_of_complete hwz.config hordered hordered' hcomplete hend
        (hbegins.eq_of_length hlength')
    refine ⟨s', r', rfl, ?_⟩
    obtain ⟨t, ht, hp⟩ := hshown.tables
    obtain ⟨t', ht', hp'⟩ := hdb'.tables
    rw [heq] at hp'
    rw [ht, ht', hp'.eq hp]

/-- A file that was no text when the first run stopped at it and was put right for the second. -/
theorem resumed_eq_faultless_repaired :
    ∃ s' r', (single "a.xml" (some "<text/>")).outcome .migrated = .ok s' r' ∧
      ((single "a.xml" (some "<text/>")).after .migrated).contents.tables =
        (afterAll ([single "a.xml" none] ++ [single "a.xml" (some "<text/>")])).contents.tables := by
  have hfiles : ∀ content, (single "a.xml" content).files? = some [("a.xml", content)] := by
    intro content
    have hselects : Config.default.selects "a.xml" = true := by decide +kernel
    simp [files?, single, Collection.files, Config.filesAmong, Config.file?, hselects, Keyed.ofList,
      Keyed.put, Keyed.empty, putSorted]
  cases hends : (single "a.xml" (some "<text/>")).outcome (afterAll [single "a.xml" none]) with
  | error e r =>
    have hok : (((single "a.xml" (some "<text/>")).pipeline.process false).run'
        ((single "a.xml" (some "<text/>")).start (afterAll [single "a.xml" none]))).isSome := by
      decide +kernel
    have hstops : (single "a.xml" (some "<text/>")).pipeline.process false
        ((single "a.xml" (some "<text/>")).start (afterAll [single "a.xml" none])) = .error e r :=
      hends
    unfold EStateM.run' EStateM.run at hok
    rw [hstops] at hok
    cases hok
  | ok s r =>
    refine resumed_eq_faultless (hfiles _) ?_ ?_ ?_ hends ⟨rfl, rfl, fun _ _ => rfl⟩ ⟨rfl, rfl⟩
      (hfiles _)
    · intro a ha
      rw [List.mem_singleton.mp ha, hfiles]
      rfl
    · intro a ha
      rw [List.mem_singleton.mp ha]
      exact ⟨rfl, rfl⟩
    · rintro i a j ha ⟨-, hmarked⟩
      rcases i with - | - | i
      · obtain rfl : single "a.xml" none = a := Option.some.inj ha
        rcases j with - | j
        · -- The first run leaves no mark of its only file.
          have hleft : (fileRecorded 1).answer? (afterAll [single "a.xml" none]) = some false := by
            decide +kernel
          cases hmarked.symm.trans hleft
        · simp [file?, hfiles]
      · obtain rfl : single "a.xml" (some "<text/>") = a := Option.some.inj ha
        rfl
      · cases ha

end Attempt

end XmlHarvest
