/-
Which files of a directory are processed, and in which order.

The files are chosen by what follows the last full stop of their names, so an extension that is
asked for selects the names that end in it, and one that holds a full stop selects none.  The names
are listed in the order of their bytes, each of them once.  So which names a listing gives and where
each of them stands depends on the set of the files' names alone.  Main statement:
`Collection.files_listing`.
-/
import XmlHarvest.Collection
import XmlHarvest.Proofs.Text.ByteOrder
import Mathlib.Data.List.DropRight
import Mathlib.Data.List.Sort

namespace XmlHarvest

open Text (bytes)

/-! ### What follows the last separator -/

/-- A list ends in a separator and a rest without one when this rest follows the last separator. -/
theorem cons_suffix_iff {α : Type} [DecidableEq α] {s : α} {e xs : List α} (h : s ∉ e) :
    s :: e <:+ xs ↔ s ∈ xs ∧ xs.rtakeWhile (· != s) = e := by
  constructor
  · rintro ⟨pre, rfl⟩
    have hall : ∀ x ∈ e.reverse, (x != s) = true := fun x hx => by
      simpa using ne_of_mem_of_not_mem (List.mem_reverse.mp hx) h
    refine ⟨by simp, ?_⟩
    rw [List.rtakeWhile, List.reverse_append, List.reverse_cons, List.append_assoc,
      List.takeWhile_append_of_pos hall]
    simp
  · rintro ⟨hs, rfl⟩
    -- What comes before the rest ends in a separator, since otherwise there would be none.
    have hne : xs.rdropWhile (· != s) ≠ [] := by
      simpa using hs
    have hlast : (xs.rdropWhile (· != s)).getLast hne = s := by
      simpa using List.rdropWhile_last_not (· != s) xs hne
    refine ⟨(xs.rdropWhile (· != s)).dropLast, ?_⟩
    calc (xs.rdropWhile (· != s)).dropLast ++ s :: xs.rtakeWhile (· != s)
        = ((xs.rdropWhile (· != s)).dropLast ++ [(xs.rdropWhile (· != s)).getLast hne]) ++
            xs.rtakeWhile (· != s) := by rw [hlast, List.append_assoc, List.singleton_append]
      _ = xs := by rw [List.dropLast_append_getLast, List.rdropWhile_append_rtakeWhile]

/-! ### Extensions -/

/-- The extension that is asked for, without the dots it begins with. -/
def Config.extension (c : Config) : List Char := c.filenameExtension.toList.dropWhile (· == '.')

/-- The name ends in a full stop and the extension, capital ASCII letters counting as small ones. -/
def EndsIn (extension : List Char) (name : String) : Prop :=
  ('.' :: extension).map Char.toLower <:+ name.toList.map Char.toLower

instance (extension : List Char) (name : String) : Decidable (EndsIn extension name) :=
  inferInstanceAs (Decidable (_ <:+ _))

theorem toLower_eq_dot_iff {c : Char} : c.toLower = '.' ↔ c = '.' := by
  refine ⟨fun h => ?_, fun h => by rw [h]; rfl⟩
  unfold Char.toLower at h
  split at h
  · next hcapital =>
    -- A capital letter becomes a small one, whose number is larger than that of the full stop.
    have hval : (c.val + 32).toNat = 46 := congrArg Char.toNat h
    have hlow : 65 ≤ c.val.toNat := hcapital.1
    have hhigh : c.val.toNat ≤ 90 := hcapital.2
    rw [UInt32.toNat_add, show (32 : UInt32).toNat = 32 from rfl] at hval
    omega
  · exact h

theorem dot_mem_map_toLower_iff {cs : List Char} : '.' ∈ cs.map Char.toLower ↔ '.' ∈ cs := by
  simp [toLower_eq_dot_iff]

/-- The extension of a name in small letters is what follows the last full stop of the name in small
letters. -/
theorem bareExtension_extensionOf {name : String} (h : '.' ∈ name.toList) :
    bareExtension (extensionOf name) =
      (name.toList.map Char.toLower).rtakeWhile (· != '.') := by
  have hbare : (name.toList.rtakeWhile (· != '.')).dropWhile (· == '.') =
      name.toList.rtakeWhile (· != '.') := by
    rw [List.dropWhile_eq_self_iff]
    intro hl
    simpa using List.mem_rtakeWhile_imp (List.getElem_mem hl)
  have hsmall : (fun c => c != '.') ∘ Char.toLower = fun c => c != '.' := by
    funext c
    simp [toLower_eq_dot_iff, bne, Bool.beq_eq_decide_eq]
  have hextension : (extensionOf name).toList = name.toList.rtakeWhile (· != '.') := by
    rw [extensionOf, if_pos (by simpa using h), String.toList_ofList, List.rtakeWhile]
  rw [bareExtension, hextension, hbare, List.rtakeWhile, List.rtakeWhile, ← List.map_reverse,
    List.takeWhile_map, hsmall, List.map_reverse]

theorem bareExtension_extensionOf_of_not_mem {name : String} (h : '.' ∉ name.toList) :
    bareExtension (extensionOf name) = [] := by
  simp [bareExtension, extensionOf, h]

/-- A name has the extension that is asked for when this holds no full stop and the name ends in
it. -/
theorem matchesExtension_extensionOf_iff {c : Config} (hc : c.extension ≠ []) (name : String) :
    c.matchesExtension (extensionOf name) = true ↔
      '.' ∉ c.extension ∧ EndsIn c.extension name := by
  have hmatch : c.matchesExtension (extensionOf name) = true ↔
      bareExtension (extensionOf name) = c.extension.map Char.toLower := by
    simp [Config.matchesExtension, bareExtension, Config.extension]
  rw [hmatch, ← dot_mem_map_toLower_iff]
  constructor
  · intro h
    have hdot : '.' ∈ name.toList := by
      by_contra hno
      rw [bareExtension_extensionOf_of_not_mem hno] at h
      exact hc (List.map_eq_nil_iff.mp h.symm)
    rw [bareExtension_extensionOf hdot] at h
    have hnone : '.' ∉ c.extension.map Char.toLower := fun hmem => by
      rw [← h] at hmem
      simpa using List.mem_rtakeWhile_imp hmem
    exact ⟨hnone, (cons_suffix_iff hnone).mpr ⟨dot_mem_map_toLower_iff.mpr hdot, h⟩⟩
  · rintro ⟨hnone, hends⟩
    obtain ⟨hdot, h⟩ := (cons_suffix_iff hnone).mp hends
    rw [bareExtension_extensionOf (dot_mem_map_toLower_iff.mp hdot), h]

/-! ### Maps of pairs -/

namespace Keyed

variable {α : Type}

/-- A map of pairs holds no other pairs. -/
theorem mem_of_mem_ofList {es : List (String × α)} {e : String × α} (h : e ∈ (ofList es).entries) :
    e ∈ es := by
  induction es with
  | nil => exact h
  | cons e' es ih =>
    rcases mem_putSorted h with rfl | h
    · exact List.mem_cons_self
    · exact List.mem_cons_of_mem _ (ih h)

/-- A key that was there stays when something is put. -/
theorem key_mem_putSorted {key other : String} {value : α} {es : List (String × α)}
    (h : other = key ∨ other ∈ es.map Prod.fst) :
    other ∈ (putSorted key value es).map Prod.fst := by
  induction es with
  | nil => simpa [putSorted] using h
  | cons e es ih =>
    obtain ⟨k, v⟩ := e
    rw [putSorted]
    grind

/-- The keys of a map of pairs are those of the pairs. -/
theorem key_mem_ofList_iff {es : List (String × α)} {key : String} :
    key ∈ (ofList es).entries.map Prod.fst ↔ key ∈ es.map Prod.fst := by
  constructor
  · intro h
    obtain ⟨e, he, rfl⟩ := List.mem_map.mp h
    exact List.mem_map_of_mem (mem_of_mem_ofList he)
  · intro h
    induction es with
    | nil => exact h
    | cons e es ih => exact key_mem_putSorted ((List.mem_cons.mp h).imp_right ih)

end Keyed

/-! ### Listings -/

/-- Among the entries there is a regular file of this name. -/
def HasFile (entries : List (FileName × Entry)) (name : String) : Prop :=
  ∃ content, (FileName.text name, Entry.file content) ∈ entries

theorem file?_eq_some_iff {c : Config} {e : FileName × Entry} {f : String × Option String} :
    c.file? e = some f ↔ e = (.text f.1, .file f.2) ∧ c.selects f.1 = true := by
  obtain ⟨n, x⟩ := e
  obtain ⟨name, content⟩ := f
  cases n <;> cases x <;> simp [Config.file?]
  grind

/-- A file is listed when it is regular, not hidden, and has the extension. -/
theorem name_mem_filesAmong_iff {c : Config} (hc : c.extension ≠ [])
    {entries : List (FileName × Entry)} {name : String} :
    name ∈ (c.filesAmong entries).map Prod.fst ↔
      HasFile entries name ∧ name.toList.head? ≠ some '.' ∧ '.' ∉ c.extension ∧
        EndsIn c.extension name := by
  have hselects : c.selects name = true ↔ name.toList.head? ≠ some '.' ∧ '.' ∉ c.extension ∧
      EndsIn c.extension name := by
    rw [Config.selects, Bool.and_eq_true, matchesExtension_extensionOf_iff hc, bne_iff_ne]
  rw [← hselects, Config.filesAmong, Keyed.key_mem_ofList_iff]
  simp only [List.mem_map, List.mem_filterMap, file?_eq_some_iff]
  constructor
  · rintro ⟨f, ⟨e, he, rfl, hf⟩, rfl⟩
    exact ⟨⟨f.2, he⟩, hf⟩
  · rintro ⟨⟨content, he⟩, hname⟩
    exact ⟨(name, content), ⟨_, he, rfl, hname⟩, rfl⟩

/-- The contents that are listed are those of the files. -/
theorem mem_of_mem_filesAmong {c : Config} {entries : List (FileName × Entry)}
    {f : String × Option String} (h : f ∈ c.filesAmong entries) :
    (.text f.1, .file f.2) ∈ entries := by
  obtain ⟨e, he, hf⟩ := List.mem_filterMap.mp (Keyed.mem_of_mem_ofList h)
  rw [← (file?_eq_some_iff.mp hf).1]
  exact he

/-- The names are listed in the order of their bytes, each of them once. -/
theorem pairwise_filesAmong (c : Config) (entries : List (FileName × Entry)) :
    ((c.filesAmong entries).map Prod.fst).Pairwise fun a b => bytes a < bytes b := by
  rw [List.pairwise_map]
  exact (Keyed.ofList (entries.filterMap c.file?)).sorted.imp Text.bytes_lt_bytes_iff.mpr

/-- Directories with files of the same names have the same listing, whatever the order of their
entries. -/
theorem names_filesAmong_congr {c : Config} (hc : c.extension ≠ [])
    {entries entries' : List (FileName × Entry)}
    (h : ∀ name, HasFile entries' name ↔ HasFile entries name) :
    (c.filesAmong entries').map Prod.fst = (c.filesAmong entries).map Prod.fst := by
  have hirrefl : Std.Irrefl fun a b : String => bytes a < bytes b := ⟨fun a => List.lt_irrefl _⟩
  have hantisymm : Std.Antisymm fun a b : String => bytes a < bytes b :=
    ⟨fun a b hab hba => absurd hba (List.lt_asymm hab)⟩
  refine (pairwise_filesAmong c entries').eq_of_mem_iff (pairwise_filesAmong c entries) ?_
  intro name
  rw [name_mem_filesAmong_iff hc, name_mem_filesAmong_iff hc, h]

namespace Collection

/-- With an extension that is not empty, a directory has a listing.  It names the regular files that
are not hidden and whose names end in a full stop and the extension, if this holds no full stop
itself; otherwise it names none.  The names stand in strictly increasing order of their bytes.  Any
other directory with regular files of the same names has the same names in the same order. -/
theorem files_listing {c : Config} (hc : c.extension ≠ []) {dir : Collection}
    {entries : List (FileName × Entry)} (h : dir.entries = some entries) :
    ∃ files, dir.files c = some files ∧
      (∀ name, name ∈ files.map Prod.fst ↔
        HasFile entries name ∧ name.toList.head? ≠ some '.' ∧ '.' ∉ c.extension ∧
          EndsIn c.extension name) ∧
      (∀ f ∈ files, (.text f.1, .file f.2) ∈ entries) ∧
      (files.map Prod.fst).Pairwise (fun a b => bytes a < bytes b) ∧
      ∀ (dir' : Collection) (entries' : List (FileName × Entry)), dir'.entries = some entries' →
        (∀ name, HasFile entries' name ↔ HasFile entries name) →
        ∃ files', dir'.files c = some files' ∧ files'.map Prod.fst = files.map Prod.fst := by
  refine ⟨c.filesAmong entries, by rw [files, h, Option.map_some], ?_, ?_, ?_, ?_⟩
  · exact fun name => name_mem_filesAmong_iff hc
  · exact fun f => mem_of_mem_filesAmong
  · exact pairwise_filesAmong c entries
  · intro dir' entries' h' hsame
    exact ⟨c.filesAmong entries', by rw [files, h', Option.map_some],
      names_filesAmong_congr hc hsame⟩

/-- A listing of entries in no order, among them a hidden file, a directory, a name that is not
UTF-8, and names with other extensions. -/
theorem files_listing_unordered :
    let c := { Config.default with filenameExtension := "..XML" }
    let file := Entry.file (some "<text/>")
    let entries : List (FileName × Entry) :=
      [(.text "é.xml", file), (.text ".b.xml", file), (.bytes [0xff, 0x2e, 0x78, 0x6d, 0x6c], file),
        (.text "a.b.Xml", .file none), (.text "c.xml", .directory), (.text "axml", file),
        (.text "a.xml.txt", file), (.text "Z.XML", file)]
    c.extension = "XML".toList ∧
      (⟨"texts", some entries⟩ : Collection).files c =
        some [("Z.XML", some "<text/>"), ("a.b.Xml", none), ("é.xml", some "<text/>")] ∧
      HasFile entries "a.b.Xml" ∧ EndsIn c.extension "a.b.Xml" ∧ ¬ EndsIn c.extension "axml" ∧
      ∃ files, (⟨"copies", some entries.reverse⟩ : Collection).files c = some files ∧
        files.map Prod.fst = ["Z.XML", "a.b.Xml", "é.xml"] := by
  intro c file entries
  have hc : c.extension = "XML".toList := by decide +kernel
  have hne : c.extension ≠ [] := by simp [hc]
  have hdir : (⟨"texts", some entries⟩ : Collection).entries = some entries := rfl
  obtain ⟨files, hfiles, hnames, -, -, hsame⟩ := files_listing hne hdir
  have hlisted : (⟨"texts", some entries⟩ : Collection).files c =
      some [("Z.XML", some "<text/>"), ("a.b.Xml", none), ("é.xml", some "<text/>")] := by
    decide +kernel
  obtain rfl := Option.some.inj (hfiles.symm.trans hlisted)
  obtain ⟨hfile, -, -, hends⟩ := (hnames "a.b.Xml").mp (by decide)
  exact ⟨hc, hfiles, hfile, hends, by decide +kernel,
    hsame ⟨"copies", some entries.reverse⟩ _ rfl fun name => by
      simp only [HasFile, List.mem_reverse]⟩

/-- A regular file whose name ends in an extension with a full stop in it is not listed. -/
theorem files_of_dotted_extension :
    let c := { Config.default with filenameExtension := ".tei.xml" }
    let entries := [(FileName.text "a.tei.xml", Entry.file (some "<text/>"))]
    c.extension = "tei.xml".toList ∧ HasFile entries "a.tei.xml" ∧
      "a.tei.xml".toList.head? ≠ some '.' ∧ EndsIn c.extension "a.tei.xml" ∧
      (⟨"texts", some entries⟩ : Collection).files c = some [] := by
  intro c entries
  exact ⟨by decide +kernel, ⟨_, List.mem_singleton_self _⟩, by decide +kernel, by decide +kernel,
    by decide +kernel⟩

end Collection

end XmlHarvest
