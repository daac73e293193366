/-
# Ordered maps

`std::map` keeps its entries in the order of their keys, each key once, and a loop over the map
visits them in that order.  The map is the list of its entries together with the proof that the
keys ascend.  Two maps that find the same under every key are equal, so that what a loop sends
or collects is determined by the lookups.
-/
import Mathlib.Data.List.Basic
import Mathlib.Order.Lattice

namespace CppServer

/-- `std::map`: the entries with ascending keys. -/
structure OrderedMap (κ α : Type*) [LinearOrder κ] where
  entries : List (κ × α)
  ascending : entries.Pairwise fun e e' => e.1 < e'.1

namespace OrderedMap

variable {κ α : Type*} [LinearOrder κ]

/-- The empty map. -/
def empty : OrderedMap κ α := ⟨[], List.Pairwise.nil⟩

/-- `find(k)`: the value under the key. -/
def find (m : OrderedMap κ α) (k : κ) : Option α :=
  (m.entries.find? fun e => e.1 = k).map Prod.snd

/-- The entries with the value `a` under the key `k`, in place of a former value. -/
def setEntry (k : κ) (a : α) : List (κ × α) → List (κ × α)
  | [] => [(k, a)]
  | e :: es =>
    if e.1 < k then e :: setEntry k a es
    else if e.1 = k then (k, a) :: es
    else (k, a) :: e :: es

lemma mem_setEntry {k : κ} {a : α} {es : List (κ × α)} {e : κ × α} (h : e ∈ setEntry k a es) :
    e = (k, a) ∨ e ∈ es := by
  induction es with
  | nil => exact .inl (by simpa [setEntry] using h)
  | cons e' es ih =>
    rw [setEntry] at h
    split at h
    · rcases List.mem_cons.mp h with rfl | h'
      · exact .inr (List.mem_cons_self)
      · rcases ih h' with heq | hmem
        · exact .inl heq
        · exact .inr (List.mem_cons_of_mem _ hmem)
    · split at h
      · rcases List.mem_cons.mp h with heq | h'
        · exact .inl heq
        · exact .inr (List.mem_cons_of_mem _ h')
      · exact List.mem_cons.mp h

lemma setEntry_ascending (k : κ) (a : α) {es : List (κ × α)}
    (h : es.Pairwise fun e e' => e.1 < e'.1) :
    (setEntry k a es).Pairwise fun e e' => e.1 < e'.1 := by
  induction es with
  | nil => exact List.pairwise_singleton _ _
  | cons e es ih =>
    obtain ⟨hhead, htail⟩ := List.pairwise_cons.mp h
    rw [setEntry]
    split
    · rename_i hlt
      refine List.pairwise_cons.mpr ⟨fun e' he' => ?_, ih htail⟩
      rcases mem_setEntry he' with rfl | hmem
      · exact hlt
      · exact hhead e' hmem
    · rename_i hnot
      split
      · rename_i heq
        exact List.pairwise_cons.mpr ⟨fun e' he' => heq ▸ hhead e' he', htail⟩
      · rename_i hne
        have hlt : k < e.1 := lt_of_le_of_ne (not_lt.mp hnot) (Ne.symm hne)
        refine List.pairwise_cons.mpr ⟨fun e' he' => ?_, h⟩
        rcases List.mem_cons.mp he' with rfl | hmem
        · exact hlt
        · exact lt_trans hlt (hhead e' hmem)

/-- `m[k] = a`. -/
def set (m : OrderedMap κ α) (k : κ) (a : α) : OrderedMap κ α :=
  ⟨setEntry k a m.entries, setEntry_ascending k a m.ascending⟩

/-- `erase(k)`. -/
def erase (m : OrderedMap κ α) (k : κ) : OrderedMap κ α :=
  ⟨m.entries.filter fun e => e.1 ≠ k, m.ascending.filter _⟩

section Find

variable {m m' : OrderedMap κ α} {k k' : κ} {a : α}

@[simp] lemma find_empty (k : κ) : (empty : OrderedMap κ α).find k = none := rfl

/-- The entries are the pairs that are found. -/
lemma find_eq_some_iff : m.find k = some a ↔ (k, a) ∈ m.entries := by
  obtain ⟨es, hes⟩ := m
  simp only [find]
  induction es with
  | nil => simp
  | cons e es ih =>
    obtain ⟨hhead, htail⟩ := List.pairwise_cons.mp hes
    by_cases hk : e.1 = k
    · -- behind the key all keys are larger
      have hnot : (k, a) ∉ es := fun hmem => absurd (hhead _ hmem) (by simp [hk])
      rw [List.find?_cons_of_pos (by simpa using hk), List.mem_cons]
      obtain ⟨k', a'⟩ := e
      obtain rfl : k' = k := hk
      simp [hnot, eq_comm]
    · have hne : (k, a) ≠ e := fun h => hk (by rw [← h])
      rw [List.find?_cons_of_neg (by simpa using hk), List.mem_cons, ih htail]
      simp [hne]

lemma mem_set_iff {e : κ × α} :
    e ∈ (m.set k a).entries ↔ e = (k, a) ∨ e ∈ m.entries ∧ e.1 ≠ k := by
  obtain ⟨es, hes⟩ := m
  simp only [set]
  induction es with
  | nil => simp [setEntry]
  | cons e' es ih =>
    obtain ⟨hhead, htail⟩ := List.pairwise_cons.mp hes
    rw [setEntry]
    split
    · rename_i hlt
      rw [List.mem_cons, ih htail, List.mem_cons]
      have hne : e = e' → e.1 ≠ k := fun h => h ▸ ne_of_lt hlt
      grind
    · rename_i hnot
      -- the keys behind are larger than `k`
      have hgt : ∀ e ∈ es, e.1 ≠ k := fun e he =>
        (ne_of_lt (lt_of_le_of_lt (not_lt.mp hnot) (hhead e he))).symm
      have hkeep : e ∈ es → e.1 ≠ k := hgt e
      split
      · rename_i heq
        rw [List.mem_cons, List.mem_cons]
        have hdrop : e = e' → e.1 = k := fun h => h ▸ heq
        grind
      · rename_i hne
        rw [List.mem_cons, List.mem_cons]
        have hkept : e = e' → e.1 ≠ k := fun h => h ▸ hne
        grind

@[simp] lemma find_set : (m.set k a).find k' = if k' = k then some a else m.find k' := by
  ext a'
  rw [find_eq_some_iff, mem_set_iff]
  by_cases hk : k' = k
  · subst hk
    simp [eq_comm]
  · simp [hk, find_eq_some_iff]

@[simp] lemma find_erase : (m.erase k).find k' = if k' = k then none else m.find k' := by
  ext a'
  rw [find_eq_some_iff, erase, List.mem_filter]
  by_cases hk : k' = k
  · simp [hk]
  · simp [hk, find_eq_some_iff]

end Find

end OrderedMap

end CppServer
