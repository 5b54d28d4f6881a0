/-
Maps from texts, kept in the order of their keys.

Texts are compared by code points, which orders them as the bytes of their UTF-8 forms do.  Main
statements: a map finds what was put under a key last, and putting something under one key leaves
the others alone.
-/
namespace XmlHarvest

variable {α : Type}

/-! ### Sorted lists of pairs -/

/-- Put a value under a key, in place of the value that is there if there is one. -/
def putSorted (key : String) (value : α) : List (String × α) → List (String × α)
  | [] => [(key, value)]
  | (k, v) :: es =>
    if key < k then (key, value) :: (k, v) :: es
    else if key = k then (key, value) :: es
    else (k, v) :: putSorted key value es

/-- What stands in the list afterwards is the new pair or stood in it before. -/
theorem mem_putSorted {key : String} {value : α} {e : String × α} {es : List (String × α)}
    (h : e ∈ putSorted key value es) : e = (key, value) ∨ e ∈ es := by
  induction es with
  | nil => simpa [putSorted] using h
  | cons a es ih =>
    obtain ⟨k, v⟩ := a
    rw [putSorted] at h
    grind

/-- A key that comes neither before nor at another comes after it. -/
theorem lt_of_not_lt_of_ne {a b : String} (h : ¬ a < b) (hne : a ≠ b) : b < a :=
  Decidable.byContradiction fun h' =>
    hne (String.le_antisymm (String.not_lt.mp h') (String.not_lt.mp h))

/-- Putting keeps the keys in strictly increasing order. -/
theorem pairwise_putSorted {key : String} {value : α} {es : List (String × α)}
    (h : es.Pairwise fun a b => a.1 < b.1) :
    (putSorted key value es).Pairwise fun a b => a.1 < b.1 := by
  induction es with
  | nil => simp [putSorted]
  | cons e es ih =>
    obtain ⟨k, v⟩ := e
    obtain ⟨hk, hes⟩ := List.pairwise_cons.mp h
    rw [putSorted]
    split
    · next hlt =>
      refine List.pairwise_cons.mpr ⟨fun b hb => ?_, h⟩
      rcases List.mem_cons.mp hb with rfl | hb
      · exact hlt
      · exact String.lt_trans hlt (hk b hb)
    · next hlt =>
      split
      · next heq => exact List.pairwise_cons.mpr ⟨fun b hb => heq ▸ hk b hb, hes⟩
      · next hne =>
        refine List.pairwise_cons.mpr ⟨fun b hb => ?_, ih hes⟩
        rcases mem_putSorted hb with rfl | hb
        · exact lt_of_not_lt_of_ne hlt hne
        · exact hk b hb

/-- The pair that was put is found. -/
theorem lookup_putSorted_same (key : String) (value : α) (es : List (String × α)) :
    (putSorted key value es).lookup key = some value := by
  induction es with
  | nil => simp [putSorted]
  | cons e es ih =>
    obtain ⟨k, v⟩ := e
    rw [putSorted]
    split
    · simp
    · split
      · simp
      · next hne => simp [List.lookup_cons, beq_false_of_ne hne, ih]

/-- Other keys are found as before. -/
theorem lookup_putSorted_other {key other : String} (h : other ≠ key) (value : α)
    (es : List (String × α)) : (putSorted key value es).lookup other = es.lookup other := by
  induction es with
  | nil => simp [putSorted, List.lookup_cons, beq_false_of_ne h]
  | cons e es ih =>
    obtain ⟨k, v⟩ := e
    rw [putSorted]
    split
    · simp [List.lookup_cons, beq_false_of_ne h]
    · split
      · next heq =>
        subst heq
        simp [List.lookup_cons, beq_false_of_ne h]
      · simp [List.lookup_cons, ih]

/-! ### Maps -/

/-- A map from texts, as the list of its pairs in strictly increasing order of the keys. -/
structure Keyed (α : Type) where
  entries : List (String × α)
  sorted : entries.Pairwise fun a b => a.1 < b.1
  deriving DecidableEq, Repr

namespace Keyed

/-- The map without keys. -/
def empty : Keyed α := ⟨[], .nil⟩

/-- The value under a key. -/
def get? (m : Keyed α) (key : String) : Option α := m.entries.lookup key

/-- The map with a value put under a key. -/
def put (m : Keyed α) (key : String) (value : α) : Keyed α :=
  ⟨putSorted key value m.entries, pairwise_putSorted m.sorted⟩

/-- The map of some pairs; of two under one key the earlier counts. -/
def ofList : List (String × α) → Keyed α
  | [] => empty
  | (k, v) :: es => (ofList es).put k v

@[simp] theorem get?_empty (key : String) : (empty : Keyed α).get? key = none := rfl

@[simp] theorem get?_put_same (m : Keyed α) (key : String) (value : α) :
    (m.put key value).get? key = some value :=
  lookup_putSorted_same key value m.entries

theorem get?_put_other (m : Keyed α) {key other : String} (h : other ≠ key) (value : α) :
    (m.put key value).get? other = m.get? other :=
  lookup_putSorted_other h value m.entries

end Keyed

end XmlHarvest
