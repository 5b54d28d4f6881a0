/-
Extraction by way of a cache.

Extraction is one program for every way to compile expressions, so what two ways have in common
their extractions have: a correspondence between the computations of two monads that respects `pure`
and `>>=` carries over from compiling to all that is made of it
(`Correspondence.related_unitsUnder`).  Two correspondences matter here.  One is between
computations on a cache and the same computations watched, which keep every cache that there was;
the other is between those and computations that compile anew, as long as all the caches are sound.
Main statement: `XPath.Cache.unnoticed`.
-/
import Mathlib.Data.List.Chain
import XmlHarvest.Harvest.Extractor

namespace XmlHarvest

open Xml (Item Tree)
open XPath (Cache Expression Invalid)

/-! ### Correspondences -/

/-- A relation between the computations of two monads that sequencing respects. -/
structure Correspondence (m n : Type → Type) [Monad m] [Monad n] where
  Related : {α : Type} → m α → n α → Prop
  pure : ∀ {α : Type} (a : α), Related (pure a) (pure a)
  bind : ∀ {α β : Type} {x : m α} {y : n α} {f : α → m β} {g : α → n β}, Related x y →
    (∀ a, Related (f a) (g a)) → Related (x >>= f) (y >>= g)

namespace Correspondence

variable {m n : Type → Type} [Monad m] [Monad n] {α β : Type} (S : Correspondence m n)
  {t : Tree} {k : Nat}

/-- The tools compile and cut in corresponding ways. -/
structure RelatedTools (tools : Tools m) (tools' : Tools n) : Prop where
  compiled : ∀ e, S.Related (tools.compiled e) (tools'.compiled e)
  split : Option.Rel (fun cut cut' => ∀ text, S.Related (cut text) (cut' text))
    tools.split tools'.split

variable {S}

theorem related_gather {f : α → m (List β)} {g : α → n (List β)} (h : ∀ a, S.Related (f a) (g a))
    (xs : List α) : S.Related (gather f xs) (gather g xs) := by
  induction xs with
  | nil => exact S.pure []
  | cons x xs ih => exact S.bind (h x) fun _ => S.bind ih fun _ => S.pure _

variable [LawfulMonad m] [LawfulMonad n]

theorem related_map {x : m α} {y : n α} (h : S.Related x y) (f : α → β) :
    S.Related (f <$> x) (f <$> y) := by
  rw [map_eq_pure_bind, map_eq_pure_bind]
  exact S.bind h fun a => S.pure (f a)

theorem related_resolve {compiled : String → m Expression} {compiled' : String → n Expression}
    (h : ∀ e, S.Related (compiled e) (compiled' e)) (e : String) :
    S.Related (XPath.resolve compiled t e k) (XPath.resolve compiled' t e k) := by
  unfold XPath.resolve
  split
  · exact S.pure _
  · exact related_map (h e) _

variable {tools : Tools m} {tools' : Tools n}

theorem related_metadataAt (h : S.RelatedTools tools tools') (rules : List MetadataRule) :
    S.Related (metadataAt tools t rules k) (metadataAt tools' t rules k) := by
  apply related_gather
  intro rule
  apply related_gather
  intro e
  exact related_map (related_resolve h.compiled e) _

theorem related_passageAt (h : S.RelatedTools tools tools') (head : RuleHead) :
    S.Related (passageAt tools t head k) (passageAt tools' t head k) := by
  have hmatch : ∀ x, S.Related (matchOf tools t head.metadata x)
      (matchOf tools' t head.metadata x) := by
    intro x
    unfold matchOf
    split
    · exact related_map (related_metadataAt h head.metadata) _
    · exact S.pure _
  refine S.bind ?_ fun ms => ?_
  · apply related_gather
    intro e
    refine S.bind (related_resolve h.compiled e) fun items => ?_
    exact related_gather (fun x => related_map (hmatch x) _) items
  · have hsplit := h.split
    unfold passageOf
    generalize tools.split = split at hsplit ⊢
    generalize tools'.split = split' at hsplit ⊢
    cases hsplit with
    | none => exact S.pure _
    | some hcut =>
      dsimp only
      split
      · exact S.pure _
      · exact related_map (hcut _) _

theorem related_elementsUnder (h : S.RelatedTools tools tools') (e : String) :
    S.Related (elementsUnder tools t k e) (elementsUnder tools' t k e) := by
  unfold elementsUnder
  split
  · exact S.pure _
  · exact related_map (related_resolve h.compiled e) _

theorem related_unitsOver (h : S.RelatedTools tools tools') (head : RuleHead)
    {held : Nat → m (List (TextUnit Passage) × List Passage)}
    {held' : Nat → n (List (TextUnit Passage) × List Passage)}
    (hheld : ∀ i, S.Related (held i) (held' i)) :
    S.Related (unitsOver tools t head held k) (unitsOver tools' t head held' k) := by
  apply related_gather
  intro e
  refine S.bind (related_elementsUnder h e) fun elements => related_gather (fun i => ?_) elements
  exact S.bind (related_metadataAt h head.metadata) fun _ => S.bind (hheld i) fun _ => S.pure _

mutual

/-- Corresponding tools extract in corresponding ways. -/
theorem related_unitsUnder (h : S.RelatedTools tools tools') : ∀ (rule : Rule) (k : Nat),
    S.Related (unitsUnder tools t rule k) (unitsUnder tools' t rule k)
  | .terminal head, k => by
    rw [unitsUnder, unitsUnder]
    exact related_unitsOver h head fun _ => S.pure _
  | .nested head rules, k => by
    rw [unitsUnder, unitsUnder]
    exact related_unitsOver h head fun i => related_heldAt h rules i

theorem related_heldAt (h : S.RelatedTools tools tools') : ∀ (rules : List Rule) (k : Nat),
    S.Related (heldAt tools t rules k) (heldAt tools' t rules k)
  | [], k => by
    rw [heldAt, heldAt]
    exact S.pure _
  | .terminal head :: rules, k => by
    rw [heldAt, heldAt]
    exact S.bind (related_passageAt h head) fun _ =>
      S.bind (related_heldAt h rules k) fun _ => S.pure _
  | .nested head inner :: rules, k => by
    rw [heldAt, heldAt]
    exact S.bind (related_unitsUnder h (.nested head inner) k) fun _ =>
      S.bind (related_heldAt h rules k) fun _ => S.pure _

end

end Correspondence

/-! ### Sound caches -/

/-- The cache holds no expression twice, and each under the text that it is compiled from. -/
structure XPath.Cache.Sound (cache : Cache) : Prop where
  once : (cache.entries.map Prod.fst).Nodup
  compiled : ∀ entry ∈ cache.entries, XPath.compile entry.1 = .ok entry.2

section States

variable {ε ε' σ α β : Type}

theorem run_bind (x : ExceptT ε (StateM σ) α) (f : α → ExceptT ε (StateM σ) β) (s : σ) :
    (x >>= f).run s =
      match x.run s with
      | (.ok a, s') => (f a).run s'
      | (.error e, s') => (.error e, s') := by
  show (match x s with | (r, s') => ExceptT.bindCont f r s') = match x s with
    | (.ok a, s') => f a s'
    | (.error e, s') => (.error e, s')
  obtain ⟨r, s'⟩ := x s
  cases r with
  | ok a => rfl
  | error e => rfl

/-- A computation with a state and one without: begun in a state that has a property, the first
comes to what the second is, and its state has the property still. -/
def Correspondence.keeping (ε : Type) (I : σ → Prop) :
    Correspondence (ExceptT ε (StateM σ)) (Except ε) where
  Related x y := ∀ s, I s → (x.run s).1 = y ∧ I (x.run s).2
  pure _ _ h := ⟨rfl, h⟩
  bind {_ _ x _ _ _} hx hf := by
    intro s h
    obtain ⟨rfl, hs⟩ := hx s h
    rw [run_bind]
    generalize x.run s = result at hs ⊢
    obtain ⟨r, s'⟩ := result
    cases r with
    | error e => exact ⟨rfl, hs⟩
    | ok a => exact hf a s' hs

theorem Correspondence.keeping_adapt {I : σ → Prop} {x : ExceptT ε (StateM σ) α} {y : Except ε α}
    (h : (keeping ε I).Related x y) (f : ε → ε') :
    (keeping ε' I).Related (x.adapt f) (y.mapError f) := by
  intro s hs
  obtain ⟨rfl, hs⟩ := h s hs
  have hrun : (x.adapt f).run s = ((x.run s).1.mapError f, (x.run s).2) := rfl
  rw [hrun]
  exact ⟨rfl, hs⟩

end States

namespace XPath.Cache.Sound

open Correspondence

theorem empty : Cache.empty.Sound := ⟨.nil, nofun⟩

/-- An expression that is taken from a sound cache is what it compiles to. -/
theorem get (e : String) :
    (keeping Invalid Cache.Sound).Related (Cache.get e) (XPath.compile e) := by
  intro cache h
  show (Cache.get e cache).1 = _ ∧ (Cache.get e cache).2.Sound
  unfold Cache.get
  cases hlookup : cache.entries.lookup e with
  | some x =>
    obtain ⟨before, after, hentries, -⟩ := List.lookup_eq_some_iff.1 hlookup
    have hmem : (e, x) ∈ cache.entries := by simp [hentries]
    exact ⟨(h.compiled _ hmem).symm, h⟩
  | none =>
    have hnew : e ∉ cache.entries.map Prod.fst := by
      intro hmem
      obtain ⟨entry, hentry, rfl⟩ := List.mem_map.1 hmem
      simpa using List.lookup_eq_none_iff.1 hlookup entry hentry
    dsimp only
    split
    next x hx =>
      refine ⟨hx.symm, ⟨List.nodup_cons.2 ⟨hnew, h.once⟩, ?_⟩⟩
      rintro entry (_ | ⟨_, hentry⟩)
      · exact hx
      · exact h.compiled _ hentry
    next fault hfault => exact ⟨hfault.symm, h⟩

end XPath.Cache.Sound

/-! ### Every cache that there is -/

/-- The caches of a computation so far: the one there is now, and those before it, the last of them
first. -/
structure Moments where
  now : Cache
  before : List Cache

/-- All of them. -/
def Moments.all (s : Moments) : List Cache := s.now :: s.before

/-- All of them are sound, and each is what looking up an expression makes of the one before. -/
structure Moments.Sound (s : Moments) : Prop where
  sound : ∀ cache ∈ s.all, cache.Sound
  steps : s.all.IsChain fun later earlier => ∃ e, later = (Cache.get e earlier).2

theorem Moments.Sound.first {cache : Cache} (h : cache.Sound) : Moments.Sound ⟨cache, []⟩ where
  sound := by
    rintro _ (_ | ⟨_, ⟨⟩⟩)
    exact h
  steps := .singleton _

section Watching

variable {ε ε' α : Type}

/-- A computation on the cache that there is now, which is kept beside the one that it leaves. -/
def watched (x : ExceptT ε (StateM Cache) α) : ExceptT ε (StateM Moments) α := fun s =>
  ((x.run s.now).1, ⟨(x.run s.now).2, s.all⟩)

namespace Correspondence

/-- A computation that is watched and the one that is not come to the same and leave the same cache;
the first keeps what it had. -/
def watching (ε : Type) :
    Correspondence (ExceptT ε (StateM Moments)) (ExceptT ε (StateM Cache)) where
  Related x y := ∀ s, (x.run s).1 = (y.run s.now).1 ∧ (x.run s).2.now = (y.run s.now).2 ∧
    s.all <:+ (x.run s).2.all
  pure _ s := ⟨rfl, rfl, List.suffix_refl _⟩
  bind {_ _ x y _ _} hx hf := by
    intro s
    obtain ⟨hanswer, hnow, hkept⟩ := hx s
    rw [run_bind, run_bind]
    generalize x.run s = left at hanswer hnow hkept ⊢
    generalize y.run s.now = right at hanswer hnow ⊢
    obtain ⟨r, s'⟩ := left
    obtain ⟨r', cache⟩ := right
    obtain rfl : r = r' := hanswer
    obtain rfl : s'.now = cache := hnow
    cases r with
    | error e => exact ⟨rfl, rfl, hkept⟩
    | ok a =>
      obtain ⟨hanswer, hnow, hkept'⟩ := hf a s'
      exact ⟨hanswer, hnow, hkept.trans hkept'⟩

theorem watching_watched (x : ExceptT ε (StateM Cache) α) : (watching ε).Related (watched x) x :=
  fun _ => ⟨rfl, rfl, List.suffix_cons _ _⟩

theorem watching_adapt {x : ExceptT ε (StateM Moments) α} {y : ExceptT ε (StateM Cache) α}
    (h : (watching ε).Related x y) (f : ε → ε') :
    (watching ε').Related (x.adapt f) (y.adapt f) := by
  intro s
  obtain ⟨hanswer, hnow, hkept⟩ := h s
  exact ⟨congrArg (Except.mapError f) hanswer, hnow, hkept⟩

end Correspondence

end Watching

theorem Moments.Sound.get (e : String) : (Correspondence.keeping Invalid Moments.Sound).Related
    (watched (Cache.get e)) (XPath.compile e) := by
  intro s hs
  obtain ⟨hanswer, hsound⟩ := XPath.Cache.Sound.get e s.now (hs.sound _ List.mem_cons_self)
  refine ⟨hanswer, ?_, ?_⟩
  · rintro cache (_ | ⟨_, hcache⟩)
    · exact hsound
    · exact hs.sound cache hcache
  · exact .cons_cons ⟨e, rfl⟩ hs.steps

/-- Tools that keep what they compile, and every cache. -/
def Tools.watched (split : Option Tokenizer) :
    Tools (ExceptT ExtractionError (StateM Moments)) where
  compiled e := (XmlHarvest.watched (Cache.get e)).adapt .expression
  split := split.map fun cut text => ExceptT.mk (pure ((cut text).mapError .refused))

/-- The documents of an XML text, by way of the cache, with every cache kept. -/
def Extractor.extractWatched (x : Extractor) (text : String) :
    ExceptT ExtractionError (StateM Moments) (List Document) :=
  match Xml.read? text with
  | none => throw .malformed
  | some t => (fun us => us.map fun u => Document.ofUnit u.spread) <$>
      unitsUnder (Tools.watched x.split) t x.grammar Xml.Tree.rootNumber

namespace Tools

open Correspondence

theorem watched_cached (split : Option Tokenizer) :
    (watching ExtractionError).RelatedTools (Tools.watched split) (Tools.cached split) where
  compiled e := watching_adapt (watching_watched (Cache.get e)) _
  split := by
    cases split with
    | none => exact .none
    | some cut => exact .some fun text s => ⟨rfl, rfl, List.suffix_refl _⟩

theorem watched_direct (split : Option Tokenizer) :
    (keeping ExtractionError Moments.Sound).RelatedTools (Tools.watched split)
      (Tools.direct split) where
  compiled e := keeping_adapt (Moments.Sound.get e) _
  split := by
    cases split with
    | none => exact .none
    | some cut => exact .some fun text s hs => ⟨rfl, hs⟩

end Tools

/-! ### Uses -/

/-- What a cache is used for, by itself or in an extractor. -/
inductive CacheUse
  | get (expression : String)
  | resolve (t : Tree) (expression : String) (k : Nat)
  | metadata (t : Tree) (rules : List MetadataRule) (k : Nat)
  | passage (split : Option Tokenizer) (t : Tree) (head : RuleHead) (k : Nat)
  | units (split : Option Tokenizer) (t : Tree) (rule : Rule) (k : Nat)
  /-- An extraction from a file, or from a text. -/
  | extract (x : Extractor) (content : Option String)

namespace CacheUse

/-- The errors of a use. -/
def Fault : CacheUse → Type
  | .get .. | .resolve .. => Invalid
  | .metadata .. | .passage .. | .units .. | .extract .. => ExtractionError

/-- What a use gives. -/
def Answer : CacheUse → Type
  | .get .. => Expression
  | .resolve .. => List Item
  | .metadata .. => List Metadata
  | .passage .. => Passage
  | .units .. => List (TextUnit Passage)
  | .extract .. => List Document

/-- The use of a cache. -/
def run : (u : CacheUse) → ExceptT u.Fault (StateM Cache) u.Answer
  | .get e => Cache.get e
  | .resolve t e k => Cache.resolve t e k
  | .metadata t rules k => metadataAt (Tools.cached none) t rules k
  | .passage split t head k => passageAt (Tools.cached split) t head k
  | .units split t rule k => unitsUnder (Tools.cached split) t rule k
  | .extract _ none => throw .unreadable
  | .extract x (some text) => x.extractCached text

/-- The use with every cache kept. -/
def watched : (u : CacheUse) → ExceptT u.Fault (StateM Moments) u.Answer
  | .get e => XmlHarvest.watched (Cache.get e)
  | .resolve t e k => XPath.resolve (fun e => XmlHarvest.watched (Cache.get e)) t e k
  | .metadata t rules k => metadataAt (Tools.watched none) t rules k
  | .passage split t head k => passageAt (Tools.watched split) t head k
  | .units split t rule k => unitsUnder (Tools.watched split) t rule k
  | .extract _ none => throw .unreadable
  | .extract x (some text) => x.extractWatched text

/-- What the use comes to without a cache. -/
def alone : (u : CacheUse) → Except u.Fault u.Answer
  | .get e => XPath.compile e
  | .resolve t e k => XPath.resolve XPath.compile t e k
  | .metadata t rules k => metadataAt (Tools.direct none) t rules k
  | .passage split t head k => passageAt (Tools.direct split) t head k
  | .units split t rule k => unitsUnder (Tools.direct split) t rule k
  | .extract x content => x.extractFile content

open Correspondence

theorem watching_run (u : CacheUse) : (watching u.Fault).Related u.watched u.run := by
  cases u with
  | get e => exact watching_watched _
  | resolve t e k => exact related_resolve (fun e => watching_watched (Cache.get e)) e
  | metadata t rules k => exact related_metadataAt (Tools.watched_cached none) rules
  | passage split t head k => exact related_passageAt (Tools.watched_cached split) head
  | units split t rule k => exact related_unitsUnder (Tools.watched_cached split) rule k
  | extract x content =>
    cases content with
    | none => exact fun s => ⟨rfl, rfl, List.suffix_refl _⟩
    | some text =>
      show (watching ExtractionError).Related (x.extractWatched text) (x.extractCached text)
      unfold Extractor.extractWatched Extractor.extractCached
      cases Xml.read? text with
      | none => exact fun s => ⟨rfl, rfl, List.suffix_refl _⟩
      | some t =>
        exact related_map (related_unitsUnder (Tools.watched_cached x.split) x.grammar _) _

theorem keeping_alone (u : CacheUse) :
    (keeping u.Fault Moments.Sound).Related u.watched u.alone := by
  cases u with
  | get e => exact Moments.Sound.get e
  | resolve t e k => exact related_resolve Moments.Sound.get e
  | metadata t rules k => exact related_metadataAt (Tools.watched_direct none) rules
  | passage split t head k => exact related_passageAt (Tools.watched_direct split) head
  | units split t rule k => exact related_unitsUnder (Tools.watched_direct split) rule k
  | extract x content =>
    cases content with
    | none => exact fun s hs => ⟨rfl, hs⟩
    | some text =>
      show (keeping ExtractionError Moments.Sound).Related (x.extractWatched text) (x.extract text)
      unfold Extractor.extractWatched Extractor.extract
      cases Xml.read? text with
      | none => exact fun s hs => ⟨rfl, hs⟩
      | some t =>
        exact related_map (related_unitsUnder (Tools.watched_direct x.split) x.grammar _) _

/-- The caches that there are in the course of a use, the last one first. -/
def moments (u : CacheUse) (cache : Cache) : List Cache := (u.watched.run ⟨cache, []⟩).2.all

/-- They begin with the cache that the use is given and end with the one that it leaves. -/
theorem moments_ends (u : CacheUse) (cache : Cache) :
    (u.moments cache).getLast? = some cache ∧
      (u.moments cache).head? = some (u.run.run cache).2 := by
  obtain ⟨-, hnow, earlier, hkept⟩ := u.watching_run ⟨cache, []⟩
  refine ⟨?_, ?_⟩
  · show (u.watched.run ⟨cache, []⟩).2.all.getLast? = _
    rw [← hkept, show Moments.all ⟨cache, []⟩ = [cache] from rfl, List.getLast?_concat]
  · show some (u.watched.run ⟨cache, []⟩).2.now = _
    rw [hnow]

/-- Of a sound cache a use makes what it comes to without one. -/
theorem run_of_sound (u : CacheUse) {cache : Cache} (h : cache.Sound) :
    (u.run.run cache).1 = u.alone := by
  rw [← (u.keeping_alone ⟨cache, []⟩ (.first h)).1]
  exact (u.watching_run ⟨cache, []⟩).1.symm

/-- The cache that some uses leave, one after another, from a new one. -/
def afterAll (uses : List CacheUse) : Cache :=
  uses.foldl (fun cache u => (u.run.run cache).2) Cache.empty

theorem sound_run (u : CacheUse) {cache : Cache} (h : cache.Sound) :
    (u.run.run cache).2.Sound := by
  apply (u.keeping_alone ⟨cache, []⟩ (.first h)).2.sound
  exact List.mem_of_head? (u.moments_ends cache).2

/-- No history of uses spoils a cache. -/
theorem sound_afterAll (uses : List CacheUse) : (afterAll uses).Sound := by
  suffices h : ∀ cache : Cache, cache.Sound →
      (uses.foldl (fun cache u => (u.run.run cache).2) cache).Sound from h _ Cache.Sound.empty
  induction uses with
  | nil => exact fun _ h => h
  | cons u uses ih => exact fun cache h => ih _ (u.sound_run h)

end CacheUse

/-- Whatever a cache was used for, a further use gives what it gives of a new cache, the same answer
or the same error.  The caches in its course lead from the one that was there to the one that it
leaves, an expression looked up at every step, and each of them holds expressions that compile, each
once and under the text that it is compiled from. -/
theorem XPath.Cache.unnoticed (uses : List CacheUse) (u : CacheUse) :
    (u.run.run (CacheUse.afterAll uses)).1 = (u.run.run Cache.empty).1 ∧
      (u.moments (CacheUse.afterAll uses)).getLast? = some (CacheUse.afterAll uses) ∧
      (u.moments (CacheUse.afterAll uses)).head? = some (CacheUse.afterAll (uses ++ [u])) ∧
      (u.moments (CacheUse.afterAll uses)).IsChain (fun later earlier =>
        ∃ e, later = (Cache.get e earlier).2) ∧
      ∀ cache ∈ u.moments (CacheUse.afterAll uses), cache.Sound := by
  have hsound := CacheUse.sound_afterAll uses
  obtain ⟨hlast, hhead⟩ := u.moments_ends (CacheUse.afterAll uses)
  obtain ⟨-, hmoments⟩ := u.keeping_alone ⟨_, []⟩ (.first hsound)
  refine ⟨?_, hlast, ?_, hmoments.steps, hmoments.sound⟩
  · rw [u.run_of_sound hsound, u.run_of_sound Cache.Sound.empty]
  · rw [hhead, CacheUse.afterAll, CacheUse.afterAll, List.foldl_append]
    rfl

end XmlHarvest
