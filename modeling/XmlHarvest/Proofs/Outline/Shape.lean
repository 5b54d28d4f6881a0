/-
The lines of a drawing tell what was drawn.

`Drawing` is what is to be seen of a document: its heading, and below it a tree of sentences and of
units with their lines.  The lines depend on the drawing alone (`render_eq`), and they tell it back.
A line below a document begins with an indent, one piece for each unit around it, and goes on with a
branch.  So the lines below a child are those that hang under its own indent, and where they end
does not depend on what the texts behind the branches say (`linesOf_append_injective`).  Main
statement: `render_eq_iff`.
-/
import XmlHarvest.Outline
import XmlHarvest.Proofs.Harvest.Yield
import XmlHarvest.Proofs.Text.NormalForm

namespace XmlHarvest.Outline

open Relation Text

/-! ### Drawings -/

/-- What is to be seen of a child of a unit: the text of a sentence, or the line of a unit and what
is below it. -/
inductive Drawn
  | sentence (text : String)
  | unit (line : String) (children : List Drawn)

mutual

/-- The children of a unit: its sentences, then the units in it. -/
def children : TextUnit Sentence → List Drawn
  | ⟨_, _, units, sentences⟩ =>
    sentences.map (fun s => .sentence (shorten s.text)) ++ childUnits units

def childUnits : List (TextUnit Sentence) → List Drawn
  | [] => []
  | u :: us => .unit (u.name ++ labels u.metadata) (children u) :: childUnits us

end

/-- What is to be seen of a document: its title with its metadata, and its children. -/
structure Drawing where
  heading : String
  children : List Drawn

/-- The drawing of a document. -/
def Drawing.ofDocument (d : Document) : Drawing :=
  ⟨d.title ++ labels d.body.metadata, Outline.children d.body⟩

/-- The text of a child in its line, behind the branch. -/
def Drawn.shown : Drawn → String
  | sentence text => "¶ " ++ text
  | unit line _ => line

mutual

/-- The lines of some children. -/
def linesOf (indent : String) : List Drawn → List String
  | [] => []
  | c :: cs =>
    (indent ++ branch cs.isEmpty ++ c.shown) ::
      (linesBelow (indent ++ continuation cs.isEmpty) c ++ linesOf indent cs)

/-- The lines below that of a child. -/
def linesBelow (indent : String) : Drawn → List String
  | .sentence _ => []
  | .unit _ cs => linesOf indent cs

end

/-- The lines of a drawing. -/
def Drawing.lines (d : Drawing) : List String := d.heading :: linesOf "" d.children

/-! ### The lines depend on the drawing -/

theorem isEmpty_childUnits (us : List (TextUnit Sentence)) :
    (childUnits us).isEmpty = us.isEmpty := by
  cases us <;> rfl

theorem sentenceLines_append (indent : String) (ss : List Sentence) (cs : List Drawn) :
    sentenceLines indent cs.isEmpty ss ++ linesOf indent cs =
      linesOf indent (ss.map (fun s => .sentence (shorten s.text)) ++ cs) := by
  induction ss with
  | nil => rfl
  | cons s ss ih =>
    cases ss with
    | nil => simp [sentenceLines, linesOf, linesBelow, Drawn.shown, String.append_assoc]
    | cons s' ss =>
      rw [sentenceLines, List.cons_append, ih]
      simp [linesOf, linesBelow, Drawn.shown, String.append_assoc]

mutual

theorem below_eq (indent : String) : ∀ u : TextUnit Sentence,
    below indent u = linesOf indent (children u)
  | ⟨_, _, units, sentences⟩ => by
    rw [below, children, unitLines_eq indent units, ← isEmpty_childUnits units,
      sentenceLines_append]

theorem unitLines_eq (indent : String) : ∀ us : List (TextUnit Sentence),
    unitLines indent us = linesOf indent (childUnits us)
  | [] => rfl
  | u :: us => by
    rw [unitLines, childUnits, linesOf, linesBelow, Drawn.shown, isEmpty_childUnits,
      below_eq (indent ++ continuation us.isEmpty) u, unitLines_eq indent us]
    simp only [String.append_assoc]

end

theorem documentLines_eq (d : Document) : documentLines d = (Drawing.ofDocument d).lines := by
  rw [documentLines, below_eq]
  rfl

/-- Nothing but the drawings is to be seen in the lines. -/
theorem render_eq (ds : List Document) :
    render ds =
      String.join (((ds.map Drawing.ofDocument).flatMap Drawing.lines).map (· ++ "\n")) := by
  rw [render, List.flatMap_map, funext documentLines_eq]

/-! ### Branches and indents -/

theorem branch_append_inj {last last' : Bool} {s s' : String}
    (h : branch last ++ s = branch last' ++ s') : last = last' ∧ s = s' := by
  have hchars := congrArg String.toList h
  rw [String.toList_append, String.toList_append] at hchars
  cases last <;> cases last' <;> simp_all [branch]

/-- No branch begins as the space under a branch does. -/
theorem branch_ne_continuation (last above : Bool) (s s' : String) :
    branch last ++ s ≠ continuation above ++ s' := by
  intro h
  have hchars := congrArg String.toList h
  rw [String.toList_append, String.toList_append] at hchars
  cases last <;> cases above <;> simp_all [branch, continuation]

/-- The line hangs under the indent: what follows the indent is the rest of an indent, a branch and
some text. -/
def Hangs (indent line : String) : Prop :=
  ∃ (above : List Bool) (last : Bool) (text : String),
    line = indent ++ (String.join (above.map continuation) ++ (branch last ++ text))

theorem hangs_branch (indent : String) (last : Bool) (text : String) :
    Hangs indent (indent ++ branch last ++ text) :=
  ⟨[], last, text, by simp [String.append_assoc]⟩

/-- What hangs under a longer indent hangs under the shorter one. -/
theorem Hangs.of_continuation {indent line : String} {last : Bool}
    (h : Hangs (indent ++ continuation last) line) : Hangs indent line := by
  obtain ⟨above, last', text, rfl⟩ := h
  exact ⟨last :: above, last', text, by simp [String.join_cons, String.append_assoc]⟩

/-- A line with its branch right behind the indent does not hang under a longer one. -/
theorem not_hangs_branch (indent : String) (last last' : Bool) (text : String) :
    ¬ Hangs (indent ++ continuation last) (indent ++ branch last' ++ text) := by
  rintro ⟨above, last'', text', h⟩
  rw [String.append_assoc, String.append_assoc, String.append_right_inj] at h
  exact branch_ne_continuation _ _ _ _ h

/-- No more lines that hang under the indent come first. -/
def Over (indent : String) (lines : List String) : Prop := ∀ l ∈ lines.head?, ¬ Hangs indent l

/-- Below a child no more lines hang under its indent when the next child begins, or when the
children are over. -/
theorem over_linesOf {indent : String} {rest : List String} (h : Over indent rest)
    (cs : List Drawn) : Over (indent ++ continuation cs.isEmpty) (linesOf indent cs ++ rest) := by
  cases cs with
  | nil => exact fun l hl hangs => h l hl hangs.of_continuation
  | cons c cs =>
    intro l hl
    rw [linesOf, List.cons_append, List.head?_cons, Option.mem_some_iff] at hl
    rw [← hl]
    exact not_hangs_branch _ _ _ _

/-- Lines of children come first, which hang under their indent. -/
theorem not_over_linesOf (indent : String) (c : Drawn) (cs : List Drawn) (rest : List String) :
    ¬ Over indent (linesOf indent (c :: cs) ++ rest) := fun h =>
  h _ rfl (hangs_branch indent cs.isEmpty c.shown)

/-! ### Texts that are no part of the drawing -/

/-- The mark in front of a sentence. -/
def mark : Char := '¶'

/-- The characters of which branches and bars are made. -/
def strokes : List Char := ['│', '├', '└', '─']

/-- The text has no line feed and no stroke. -/
def Clear (s : String) : Prop := ∀ c ∈ s.toList, c ≠ '\n' ∧ c ∉ strokes

theorem clear_append {s t : String} : Clear (s ++ t) ↔ Clear s ∧ Clear t := by
  simp only [Clear, String.toList_append, List.forall_mem_append]

theorem clear_intercalate {sep : String} {ss : List String} (hsep : Clear sep)
    (h : ∀ s ∈ ss, Clear s) : Clear (sep.intercalate ss) := by
  induction ss with
  | nil => simp [Clear]
  | cons s ss ih =>
    obtain ⟨hs, hss⟩ := List.forall_mem_cons.mp h
    by_cases hnil : ss = []
    · simpa [hnil] using hs
    · rw [String.intercalate_cons_of_ne_nil hnil, clear_append, clear_append]
      exact ⟨⟨hs, hsep⟩, ih hss⟩

/-- Neither the names nor the values of the metadata have a line feed or a stroke. -/
def ClearMetadata (ms : List Metadata) : Prop := ∀ m ∈ ms, Clear m.propertyName ∧ Clear m.value

theorem clear_labels {ms : List Metadata} (h : ClearMetadata ms) : Clear (labels ms) := by
  have hpairs : ∀ s ∈ ms.map fun m => m.propertyName ++ "=" ++ m.value, Clear s := by
    intro s hs
    obtain ⟨m, hm, rfl⟩ := List.mem_map.mp hs
    rw [clear_append, clear_append]
    exact ⟨⟨(h m hm).1, by simp [Clear, strokes]⟩, (h m hm).2⟩
  unfold labels
  split
  · simp [Clear]
  · rw [clear_append, clear_append]
    have hsep : Clear ", " := by simp [Clear, strokes]
    exact ⟨⟨by simp [Clear, strokes], clear_intercalate hsep hpairs⟩, by simp [Clear, strokes]⟩

/-- A text without strokes does not hang anywhere, as each branch has one. -/
theorem not_hangs_of_clear {line : String} (h : Clear line) (indent : String) :
    ¬ Hangs indent line := by
  rintro ⟨above, last, text, rfl⟩
  rw [clear_append, clear_append, clear_append] at h
  obtain ⟨-, -, hbranch, -⟩ := h
  exact (hbranch '─' (by cases last <;> simp [branch])).2 (by simp [strokes])

theorem feed_not_mem_of_clear {s : String} (h : Clear s) : '\n' ∉ s.toList := fun hmem =>
  (h '\n' hmem).1 rfl

/-- A sentence is shown in one line, whatever lines it has itself. -/
theorem feed_not_mem_shorten (text : String) : '\n' ∉ (shorten text).toList := by
  have hflat : '\n' ∉ squeeze text.toList := by
    intro hmem
    obtain hc | ⟨w, hw, hc⟩ := mem_of_mem_intercalate hmem
    · cases hc
    · cases (mem_words hw).2 '\n' hc
  unfold shorten
  simp only
  split
  · rwa [String.toList_ofList]
  · rw [String.toList_ofList, List.mem_append, not_or]
    exact ⟨fun hmem => hflat (List.mem_of_mem_take hmem), by simp⟩

mutual

/-- Every line is one line, and that of a unit does not begin as that of a sentence does. -/
def Drawn.Plain : Drawn → Prop
  | .sentence text => '\n' ∉ text.toList
  | .unit line cs => '\n' ∉ line.toList ∧ line.toList.head? ≠ some mark ∧ AllPlain cs

def AllPlain : List Drawn → Prop
  | [] => True
  | c :: cs => c.Plain ∧ AllPlain cs

end

theorem Drawn.Plain.feed_not_mem {c : Drawn} (h : c.Plain) : '\n' ∉ c.shown.toList := by
  cases c with
  | sentence text =>
    have htext : '\n' ∉ text.toList := h
    simpa [Drawn.shown] using htext
  | unit line cs => exact h.1

theorem allPlain_iff {cs : List Drawn} : AllPlain cs ↔ ∀ c ∈ cs, c.Plain := by
  induction cs with
  | nil => simp [AllPlain]
  | cons c cs ih => rw [AllPlain, ih, List.forall_mem_cons]

theorem shown_sentence_ne {line : String} (h : line.toList.head? ≠ some mark) (text : String) :
    "¶ " ++ text ≠ line := by
  rintro rfl
  simp [mark] at h

/-! ### What the lines tell -/

mutual

/-- The line of a child and the lines below it tell the child, and where the lines below it end. -/
theorem linesBelow_append_injective : ∀ (c c' : Drawn) {indent : String} {rest rest' : List String},
    c.Plain → c'.Plain → c.shown = c'.shown → Over indent rest → Over indent rest' →
      linesBelow indent c ++ rest = linesBelow indent c' ++ rest' → c = c' ∧ rest = rest'
  | .sentence text, .sentence text', _, _, _, _, _, hshown, _, _, h => by
    obtain rfl : text = text' := (String.append_right_inj _).mp hshown
    exact ⟨rfl, h⟩
  | .sentence text, .unit line' cs', _, _, _, _, hplain', hshown, _, _, _ =>
    absurd hshown (shown_sentence_ne hplain'.2.1 text)
  | .unit line cs, .sentence text', _, _, _, hplain, _, hshown, _, _, _ =>
    absurd hshown.symm (shown_sentence_ne hplain.2.1 text')
  | .unit line cs, .unit line' cs', _, _, _, hplain, hplain', hshown, hrest, hrest', h => by
    obtain rfl : line = line' := hshown
    obtain ⟨rfl, hend⟩ := linesOf_append_injective cs cs' hplain.2.2 hplain'.2.2 hrest hrest' h
    exact ⟨rfl, hend⟩

/-- The lines of some children tell the children, and where their lines end. -/
theorem linesOf_append_injective : ∀ (cs cs' : List Drawn) {indent : String}
    {rest rest' : List String}, AllPlain cs → AllPlain cs' → Over indent rest →
      Over indent rest' → linesOf indent cs ++ rest = linesOf indent cs' ++ rest' →
        cs = cs' ∧ rest = rest'
  | [], [], _, _, _, _, _, _, _, h => ⟨rfl, h⟩
  | [], c' :: cs', indent, rest, rest', _, _, hrest, _, h => by
    have hnext : rest = linesOf indent (c' :: cs') ++ rest' := h
    exact absurd (hnext ▸ hrest) (not_over_linesOf indent c' cs' rest')
  | c :: cs, [], indent, rest, rest', _, _, _, hrest', h => by
    have hnext : linesOf indent (c :: cs) ++ rest = rest' := h
    exact absurd (hnext ▸ hrest') (not_over_linesOf indent c cs rest)
  | c :: cs, c' :: cs', indent, rest, rest', hplain, hplain', hrest, hrest', h => by
    rw [linesOf, linesOf, List.cons_append, List.cons_append, List.append_assoc,
      List.append_assoc, List.cons.injEq, String.append_assoc, String.append_assoc,
      String.append_right_inj] at h
    obtain ⟨hline, hlines⟩ := h
    obtain ⟨hlast, hshown⟩ := branch_append_inj hline
    -- Both children have the same branch, so the lines below them have the same indent.
    have hover := over_linesOf hrest cs
    have hover' := over_linesOf hrest' cs'
    rw [← hlast] at hlines hover'
    obtain ⟨rfl, hlater⟩ := linesBelow_append_injective c c' hplain.1 hplain'.1 hshown hover hover'
      hlines
    obtain ⟨rfl, hend⟩ := linesOf_append_injective cs cs' hplain.2 hplain'.2 hrest hrest' hlater
    exact ⟨rfl, hend⟩

end

/-- The heading cannot be taken for a line below a document, nor a unit for a sentence. -/
structure Drawing.Plain (g : Drawing) : Prop where
  heading : Clear g.heading
  children : AllPlain g.children

/-- Behind the lines of a document comes a heading or nothing. -/
theorem over_flatMap_lines {gs : List Drawing} (h : ∀ g ∈ gs, g.Plain) (indent : String) :
    Over indent (gs.flatMap Drawing.lines) := by
  cases gs with
  | nil => exact fun l hl => nomatch hl
  | cons g gs =>
    intro l hl
    obtain rfl : g.heading = l := Option.some.inj hl
    exact not_hangs_of_clear (h g List.mem_cons_self).heading indent

theorem flatMap_lines_injective {gs gs' : List Drawing} (h : ∀ g ∈ gs, g.Plain)
    (h' : ∀ g ∈ gs', g.Plain) (heq : gs.flatMap Drawing.lines = gs'.flatMap Drawing.lines) :
    gs = gs' := by
  induction gs generalizing gs' with
  | nil =>
    cases gs' with
    | nil => rfl
    | cons g' gs' => cases heq
  | cons g gs ih =>
    cases gs' with
    | nil => cases heq
    | cons g' gs' =>
      obtain ⟨hg, hgs⟩ := List.forall_mem_cons.mp h
      obtain ⟨hg', hgs'⟩ := List.forall_mem_cons.mp h'
      obtain ⟨hheading, hlines⟩ := List.cons.inj heq
      obtain ⟨hchildren, hlater⟩ := linesOf_append_injective _ _ hg.children hg'.children
        (over_flatMap_lines hgs "") (over_flatMap_lines hgs' "") hlines
      obtain ⟨heading, children⟩ := g
      obtain rfl : heading = g'.heading := hheading
      obtain rfl : children = g'.children := hchildren
      rw [ih hgs hgs' hlater]

/-! ### Lines and the text -/

theorem feed_not_mem_branch (last : Bool) : '\n' ∉ (branch last).toList := by
  cases last <;> simp [branch]

theorem feed_not_mem_continuation (last : Bool) : '\n' ∉ (continuation last).toList := by
  cases last <;> simp [continuation]

mutual

theorem feed_not_mem_linesBelow : ∀ (c : Drawn) {indent : String}, '\n' ∉ indent.toList →
    c.Plain → ∀ l ∈ linesBelow indent c, '\n' ∉ l.toList
  | .sentence _, _, _, _, _, hl => nomatch hl
  | .unit _ cs, _, hindent, hplain, l, hl => feed_not_mem_linesOf cs hindent hplain.2.2 l hl

theorem feed_not_mem_linesOf : ∀ (cs : List Drawn) {indent : String}, '\n' ∉ indent.toList →
    AllPlain cs → ∀ l ∈ linesOf indent cs, '\n' ∉ l.toList
  | [], _, _, _, _, hl => nomatch hl
  | c :: cs, indent, hindent, hplain, l, hl => by
    rw [linesOf, List.mem_cons, List.mem_append] at hl
    obtain rfl | hl | hl := hl
    · simp only [String.toList_append, List.mem_append, not_or]
      exact ⟨⟨hindent, feed_not_mem_branch _⟩, hplain.1.feed_not_mem⟩
    · have hinner : '\n' ∉ (indent ++ continuation cs.isEmpty).toList := by
        rw [String.toList_append, List.mem_append, not_or]
        exact ⟨hindent, feed_not_mem_continuation _⟩
      exact feed_not_mem_linesBelow c hinner hplain.1 l hl
    · exact feed_not_mem_linesOf cs hindent hplain.2 l hl

end

theorem Drawing.Plain.feed_not_mem {g : Drawing} (h : g.Plain) :
    ∀ l ∈ g.lines, '\n' ∉ l.toList := by
  intro l hl
  obtain rfl | hl := List.mem_cons.mp hl
  · exact feed_not_mem_of_clear h.heading
  · exact feed_not_mem_linesOf g.children (by simp) h.children l hl

/-- Lines can be read off the text that ends each of them by a line feed. -/
theorem splitOn_join {ls : List String} (h : ∀ l ∈ ls, '\n' ∉ l.toList) :
    (String.join (ls.map (· ++ "\n"))).toList.splitOn '\n' = ls.map String.toList ++ [[]] := by
  induction ls with
  | nil => rfl
  | cons l ls ih =>
    obtain ⟨hl, hls⟩ := List.forall_mem_cons.mp h
    have htext : (String.join ((l :: ls).map (· ++ "\n"))).toList =
        l.toList ++ '\n' :: (String.join (ls.map (· ++ "\n"))).toList := by
      simp [String.join_cons]
    rw [htext, List.splitOn_append_cons_self_of_not_mem hl, ih hls]
    rfl

theorem join_injective {ls ls' : List String} (h : ∀ l ∈ ls, '\n' ∉ l.toList)
    (h' : ∀ l ∈ ls', '\n' ∉ l.toList)
    (heq : String.join (ls.map (· ++ "\n")) = String.join (ls'.map (· ++ "\n"))) : ls = ls' := by
  have hsplit := congrArg (fun s => s.toList.splitOn '\n') heq
  simp only [splitOn_join h, splitOn_join h', List.append_cancel_right_eq] at hsplit
  exact List.map_injective_iff.mpr (fun _ _ => String.toList_injective) hsplit

/-! ### Documents -/

/-- The name and the metadata of the unit do not look like parts of a drawing, nor the unit like a
sentence. -/
structure PlainUnit (u : TextUnit Sentence) : Prop where
  name : Clear u.name
  unmarked : u.name.toList.head? ≠ some mark
  metadata : ClearMetadata u.metadata

/-- Nor do the title of the document and the units in it.  Its sentences may say anything. -/
structure PlainDocument (d : Document) : Prop where
  title : Clear d.title
  metadata : ClearMetadata d.body.metadata
  units : ∀ u, d.body.Above u → PlainUnit u

/-- What holds of all units in a unit holds of those right in it and of those further below. -/
theorem forall_above_iff {P : TextUnit Sentence → Prop} {u : TextUnit Sentence} :
    (∀ v, u.Above v → P v) ↔ ∀ v ∈ u.units, P v ∧ ∀ w, v.Above w → P w := by
  constructor
  · exact fun h v hv => ⟨h v (.single hv), fun w hw => h w (.head hv hw)⟩
  · intro h v hv
    obtain ⟨w, hw, hwv⟩ := TransGen.head'_iff.mp hv
    obtain rfl | hwv := reflTransGen_iff_eq_or_transGen.mp hwv
    · exact (h _ hw).1
    · exact (h w hw).2 v hwv

theorem head?_labels_ne (ms : List Metadata) : (labels ms).toList.head? ≠ some mark := by
  unfold labels
  split <;> simp [mark]

/-- The line of a unit begins as its name does, or as its labels do if it has none. -/
theorem PlainUnit.unmarked_line {u : TextUnit Sentence} (h : PlainUnit u) :
    (u.name ++ labels u.metadata).toList.head? ≠ some mark := by
  rw [String.toList_append]
  cases hname : u.name.toList with
  | nil => exact head?_labels_ne u.metadata
  | cons c cs =>
    have hmark := h.unmarked
    rwa [hname] at hmark

mutual

theorem allPlain_children : ∀ u : TextUnit Sentence, (∀ v, u.Above v → PlainUnit v) →
    AllPlain (children u)
  | ⟨_, _, units, sentences⟩, h => by
    have hunits := allPlain_childUnits units (forall_above_iff.mp h)
    rw [children, allPlain_iff, List.forall_mem_append]
    refine ⟨fun c hc => ?_, allPlain_iff.mp hunits⟩
    obtain ⟨s, -, rfl⟩ := List.mem_map.mp hc
    exact feed_not_mem_shorten s.text

theorem allPlain_childUnits : ∀ us : List (TextUnit Sentence),
    (∀ u ∈ us, PlainUnit u ∧ ∀ v, u.Above v → PlainUnit v) → AllPlain (childUnits us)
  | [], _ => trivial
  | u :: us, h => by
    obtain ⟨⟨hu, hbelow⟩, hus⟩ := List.forall_mem_cons.mp h
    have hline : '\n' ∉ (u.name ++ labels u.metadata).toList :=
      feed_not_mem_of_clear (clear_append.mpr ⟨hu.name, clear_labels hu.metadata⟩)
    exact ⟨⟨hline, hu.unmarked_line, allPlain_children u hbelow⟩, allPlain_childUnits us hus⟩

end

theorem PlainDocument.drawing {d : Document} (h : PlainDocument d) :
    (Drawing.ofDocument d).Plain where
  heading := clear_append.mpr ⟨h.title, clear_labels h.metadata⟩
  children := allPlain_children d.body h.units

/-- Lists of documents look alike exactly if they have the same drawings: document by document the
same heading, and below it the same sentences and units in the same places.  Nothing is asked of
the sentences, whose texts may look like lines of a drawing. -/
theorem render_eq_iff {ds ds' : List Document} (h : ∀ d ∈ ds, PlainDocument d)
    (h' : ∀ d ∈ ds', PlainDocument d) :
    render ds = render ds' ↔ ds.map Drawing.ofDocument = ds'.map Drawing.ofDocument := by
  have hplain : ∀ {ds : List Document}, (∀ d ∈ ds, PlainDocument d) →
      ∀ g ∈ ds.map Drawing.ofDocument, g.Plain := by
    intro ds h g hg
    obtain ⟨d, hd, rfl⟩ := List.mem_map.mp hg
    exact (h d hd).drawing
  have hfeeds : ∀ {ds : List Document}, (∀ d ∈ ds, PlainDocument d) →
      ∀ l ∈ (ds.map Drawing.ofDocument).flatMap Drawing.lines, '\n' ∉ l.toList := by
    intro ds h l hl
    obtain ⟨g, hg, hl⟩ := List.mem_flatMap.mp hl
    exact (hplain h g hg).feed_not_mem l hl
  rw [render_eq, render_eq]
  constructor
  · intro heq
    exact flatMap_lines_injective (hplain h) (hplain h') (join_injective (hfeeds h) (hfeeds h') heq)
  · intro heq
    rw [heq]

/-- A book with sentences that look like lines of a drawing.  Between the words of one of them
stands some blank, and it has some metadata. -/
def book (blank : String) (ms : List Metadata) : Document :=
  ⟨"Psalms", ⟨"book", [⟨"en", "lang", ⟨["@lang"], none, "lang"⟩⟩],
    [⟨"chapter", [⟨"1", "n", ⟨["@n"], none, "n"⟩⟩], [⟨"", [], [], []⟩],
      [⟨"│   └── ¶ a" ++ blank ++ "b", ms⟩]⟩],
    [⟨"└── chapter [n=1]", []⟩]⟩⟩

theorem plainDocument_book (blank : String) (ms : List Metadata) :
    PlainDocument (book blank ms) where
  title := by simp [book, Clear, strokes]
  metadata := by simp [book, ClearMetadata, Clear, strokes]
  units := by
    refine forall_above_iff.mpr fun u hu => ?_
    obtain rfl := List.mem_singleton.mp hu
    refine ⟨⟨by simp [Clear, strokes], by simp [mark], by simp [ClearMetadata, Clear, strokes]⟩, ?_⟩
    refine forall_above_iff.mpr fun v hv => ?_
    obtain rfl := List.mem_singleton.mp hv
    refine ⟨⟨by simp [Clear], by simp, by simp [ClearMetadata]⟩, ?_⟩
    exact forall_above_iff.mpr fun w hw => nomatch hw

theorem render_eq_iff_book :
    render [book " " []] = render [book "\t\n" [⟨"v", "p", ⟨[], none, "p"⟩⟩]] ∧
      [book " " []].map Drawing.ofDocument =
        [book "\t\n" [⟨"v", "p", ⟨[], none, "p"⟩⟩]].map Drawing.ofDocument := by
  have hrender : render [book " " []] = render [book "\t\n" [⟨"v", "p", ⟨[], none, "p"⟩⟩]] := by
    decide +kernel
  exact ⟨hrender,
    (render_eq_iff (by simp [plainDocument_book]) (by simp [plainDocument_book])).mp hrender⟩

end XmlHarvest.Outline
