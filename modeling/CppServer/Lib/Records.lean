/-
# Records with a hand-written copy constructor and assignment

A record of a class with a hand-written copy constructor and `operator=` is moved about in an
array by `t(a[i]); a[i] = a[j]; a[j] = t;`.  The file takes a class whose copies transfer only
a part of the record, the `payload`, and keep the rest, the `owner`, and says exactly which
sequences of such exchanges permute the array as whole records.
-/
import CppServer.Lib.Run
import CppServer.Lib.Swap

namespace CppServer.Records

/-- What a `T const&` refers to inside a member function of `T`. -/
inductive Arg (H : Type) where
  /-- The object itself. -/
  | self
  /-- Another object. -/
  | other (h : H)

/-- The object that is referred to, as it is now. -/
def Arg.get {H : Type} (this : H) : Arg H → H
  | .self => this
  | .other h => h

@[simp] lemma Arg.get_other {H : Type} (this h : H) : Arg.get this (.other h) = h := rfl

/-- A class whose copies transfer the payload and leave the owner. -/
structure PayloadCopy (H O P : Type) where
  owner : H → O
  payload : H → P
  ext : ∀ h h', owner h = owner h' → payload h = payload h' → h = h'
  /-- The copy constructor, on raw memory. -/
  copyOf : H → H → H
  /-- `operator=`. -/
  assign : H → Arg H → H
  payload_copyOf : ∀ raw ref, payload (copyOf raw ref) = payload ref
  owner_assign : ∀ this ref, owner (assign this ref) = owner this
  payload_assign : ∀ this h, payload (assign this (.other h)) = payload h

/-- One exchange of two places; the temporary is made in the memory `raw`. -/
structure Move (H : Type) where
  i : ℕ
  j : ℕ
  raw : H

variable {H O P : Type}

/-- `t(a[i]); a[i] = a[j]; a[j] = t;` -/
def exchange (C : PayloadCopy H O P) (a : List H) (m : Move H) : Option (List H) :=
  match a[m.i]?, a[m.j]? with
  | some x, some y =>
    let t := C.copyOf m.raw x
    let a := a.set m.i (C.assign x (if m.i = m.j then .self else .other y))
    a[m.j]?.map fun z => a.set m.j (C.assign z (.other t))
  | _, _ => none

/-- The two records have the same owner or the same payload. -/
def Compatible (C : PayloadCopy H O P) (a : List H) (m : Move H) : Prop :=
  ∀ x y, a[m.i]? = some x → a[m.j]? = some y → C.owner x = C.owner y ∨ C.payload x = C.payload y

section Exchange

variable {C : PayloadCopy H O P} {a b : List H} {m : Move H}

/-- An exchange needs two places of the array. -/
lemma lt_of_exchange (h : exchange C a m = some b) : m.i < a.length ∧ m.j < a.length := by
  unfold exchange at h
  split at h
  · rename_i x y hx hy
    exact ⟨(List.getElem?_eq_some_iff.mp hx).1, (List.getElem?_eq_some_iff.mp hy).1⟩
  · exact absurd h (by simp)

/-- An element exchanged with itself is wiped on the way and restored from the temporary. -/
lemma exchange_self (hi : m.i < a.length) (hij : m.i = m.j) : exchange C a m = some a := by
  obtain ⟨i, j, raw⟩ := m
  obtain rfl : i = j := hij
  have hi : i < a.length := hi
  have hrestore : C.assign (C.assign a[i] .self) (.other (C.copyOf raw a[i])) = a[i] := by
    refine C.ext _ _ ?_ ?_
    · rw [C.owner_assign, C.owner_assign]
    · rw [C.payload_assign, C.payload_copyOf]
  simp [exchange, hi, hrestore]

/-- Two distinct elements keep their owners and exchange their payloads. -/
lemma exchange_of_ne (hi : m.i < a.length) (hj : m.j < a.length) (hij : m.i ≠ m.j) :
    ∃ u v, exchange C a m = some ((a.set m.i u).set m.j v) ∧
      C.owner u = C.owner a[m.i] ∧ C.payload u = C.payload a[m.j] ∧
      C.owner v = C.owner a[m.j] ∧ C.payload v = C.payload a[m.i] := by
  refine ⟨C.assign a[m.i] (.other a[m.j]),
    C.assign a[m.j] (.other (C.copyOf m.raw a[m.i])), ?_, C.owner_assign _ _,
    C.payload_assign _ _, C.owner_assign _ _, ?_⟩
  · simp [exchange, hi, hj, hij]
  · rw [C.payload_assign, C.payload_copyOf]

/-- One exchange permutes the records exactly when the two agree in owner or payload. -/
lemma exchange_perm_iff (h : exchange C a m = some b) : b.Perm a ↔ Compatible C a m := by
  obtain ⟨hi, hj⟩ := lt_of_exchange h
  by_cases hij : m.i = m.j
  · rw [exchange_self hi hij, Option.some.injEq] at h
    subst h
    refine iff_of_true (List.Perm.refl _) fun x y hx hy => ?_
    rw [← hij, hx, Option.some.injEq] at hy
    exact Or.inl (by rw [hy])
  · obtain ⟨u, v, hex, hu₁, hu₂, hv₁, hv₂⟩ := exchange_of_ne (C := C) hi hj hij
    rw [hex, Option.some.injEq] at h
    subst h
    rw [set_set_perm_iff hi hj hij]
    constructor
    · intro hperm x y hx hy
      obtain rfl : a[m.i] = x := by simpa [hi] using hx
      obtain rfl : a[m.j] = y := by simpa [hj] using hy
      -- the first new record is one of the two old ones
      have hmem : u ∈ [a[m.i], a[m.j]] := hperm.subset (by simp)
      rcases List.mem_cons.mp hmem with hu | hu
      · exact Or.inr (by rw [← hu₂, hu])
      · rw [List.mem_singleton] at hu
        exact Or.inl (by rw [← hu₁, hu])
    · intro hcompat
      rcases hcompat _ _ (List.getElem?_eq_getElem hi) (List.getElem?_eq_getElem hj) with ho | hp
      · rw [C.ext u a[m.j] (hu₁.trans ho) hu₂, C.ext v a[m.i] (hv₁.trans ho.symm) hv₂]
        exact List.Perm.swap _ _ _
      · rw [C.ext u a[m.i] hu₁ (hu₂.trans hp.symm), C.ext v a[m.j] hv₁ (hv₂.trans hp)]

end Exchange

/-- **A sequence of exchanges permutes the records** at each of its points exactly when the two
records of each exchange agree in owner or payload. -/
theorem perm_iff_compatible (C : PayloadCopy H O P) {a b : List H} {ms : List (Move H)}
    (hrun : run (exchange C) a ms = some b) :
    (∀ pre post a₁, ms = pre ++ post → run (exchange C) a pre = some a₁ → a₁.Perm a) ↔
      ∀ pre m post a₁, ms = pre ++ m :: post → run (exchange C) a pre = some a₁ →
        Compatible C a₁ m :=
  run_class_iff (List.Perm.eqv H) (fun _ _ _ => exchange_perm_iff) hrun

end CppServer.Records
