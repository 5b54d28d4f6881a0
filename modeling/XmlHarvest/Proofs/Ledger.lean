/-
The ledger as a function of its keys.

Since the keys of a map stand in strictly increasing order, a map is determined by what it finds
(`Keyed.ext_get?`).  A write changes what is found under its own key and nothing else
(`Ledger.get?_write`).
-/
import XmlHarvest.Store.Ledger

namespace XmlHarvest

variable {α : Type}

/-! ### Maps that find the same -/

/-- Nothing is found under a key that comes before all keys of the list. -/
theorem lookup_eq_none_of_lt {key : String} {es : List (String × α)}
    (h : ∀ e ∈ es, key < e.1) : es.lookup key = none := by
  rw [List.lookup_eq_none_iff]
  intro e he
  have hlt := h e he
  simp only [bne_iff_ne]
  rintro rfl
  exact String.lt_irrefl _ hlt

/-- Where something is found under a key, the first key does not come after it. -/
theorem not_lt_of_lookup {k key : String} {v value : α} {es : List (String × α)}
    (hes : ((k, v) :: es).Pairwise fun a b => a.1 < b.1)
    (h : ((k, v) :: es).lookup key = some value) : ¬ key < k := by
  intro hlt
  have hk := (List.pairwise_cons.mp hes).1
  have hnone : ((k, v) :: es).lookup key = none := by
    apply lookup_eq_none_of_lt
    intro e he
    rcases List.mem_cons.mp he with rfl | he
    · exact hlt
    · exact String.lt_trans hlt (hk e he)
  rw [h] at hnone
  cases hnone

/-- Two lists with strictly increasing keys that find the same are the same.  The induction runs
over both: what stands first in one has to stand first in the other. -/
theorem eq_of_lookup_eq {es fs : List (String × α)}
    (hes : es.Pairwise fun a b => a.1 < b.1) (hfs : fs.Pairwise fun a b => a.1 < b.1)
    (h : ∀ key, es.lookup key = fs.lookup key) : es = fs := by
  induction es generalizing fs with
  | nil =>
    cases fs with
    | nil => rfl
    | cons f fs =>
      obtain ⟨l, w⟩ := f
      have hl := h l
      simp at hl
  | cons e es ih =>
    cases fs with
    | nil =>
      obtain ⟨k, v⟩ := e
      have hk := h k
      simp at hk
    | cons f fs =>
      obtain ⟨k, v⟩ := e
      obtain ⟨l, w⟩ := f
      -- The smaller of two different first keys would be found in one list alone.
      have hkl : k = l := by
        have hv : ((k, v) :: es).lookup k = some v := List.lookup_cons_self
        have hw : ((l, w) :: fs).lookup l = some w := List.lookup_cons_self
        have hk : ¬ k < l := not_lt_of_lookup hfs ((h k).symm.trans hv)
        have hl : ¬ l < k := not_lt_of_lookup hes ((h l).trans hw)
        exact String.le_antisymm (String.not_lt.mp hl) (String.not_lt.mp hk)
      subst hkl
      have hvw : v = w := by simpa [List.lookup_cons] using h k
      subst hvw
      have htails : ∀ key, es.lookup key = fs.lookup key := by
        intro key
        by_cases hkey : key = k
        · -- Both tails have only greater keys.
          subst hkey
          rw [lookup_eq_none_of_lt (List.pairwise_cons.mp hes).1,
            lookup_eq_none_of_lt (List.pairwise_cons.mp hfs).1]
        · simpa [List.lookup_cons, beq_false_of_ne hkey] using h key
      rw [ih (List.pairwise_cons.mp hes).2 (List.pairwise_cons.mp hfs).2 htails]

/-- A map is determined by what it finds. -/
theorem Keyed.ext_get? {m m' : Keyed α} (h : ∀ key, m.get? key = m'.get? key) : m = m' := by
  obtain ⟨es, hes⟩ := m
  obtain ⟨fs, hfs⟩ := m'
  obtain rfl : es = fs := eq_of_lookup_eq hes hfs h
  rfl

/-- The pairs of a map are what it finds. -/
theorem Keyed.mem_entries_iff (m : Keyed α) {key : String} {value : α} :
    (key, value) ∈ m.entries ↔ m.get? key = some value := by
  rw [Keyed.get?, List.lookup_eq_some_iff]
  constructor
  · intro h
    obtain ⟨before, behind, hm⟩ := List.append_of_mem h
    refine ⟨before, behind, hm, ?_⟩
    intro e he
    have hlt : e.1 < key := (List.pairwise_append.mp (hm ▸ m.sorted)).2.2 e he _ List.mem_cons_self
    rw [bne_iff_ne]
    rintro rfl
    exact String.lt_irrefl _ hlt
  · rintro ⟨before, behind, hm, -⟩
    rw [hm]
    exact List.mem_append_cons_self

/-! ### Writes -/

/-- A write gives its key the combined value and leaves the other keys alone. -/
theorem Ledger.get?_write (l : Ledger) (w : LedgerWrite) (key : String) :
    (Ledger.write l w).get? key =
      if key = w.key then some (w.mode.combine (Ledger.value l w.key) w.value) else l.get? key := by
  unfold Ledger.write
  split
  · next h => rw [h, Keyed.get?_put_same]
  · next h => exact Keyed.get?_put_other l h _

end XmlHarvest
