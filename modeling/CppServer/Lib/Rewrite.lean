/-
# Replacing text in one pass

A list of rules is applied to a string in one pass from left to right: where the source of a
rule begins, it is replaced by the target of the rule (the first one in the list, if several
begin there) and the pass goes on behind it; every other letter is copied.  With a single
rule this is the usual replacement of all occurrences.

The file is about passes one after the other.  `subst_subst` says when two passes are one pass,
and `foldl_subst_singleton` when a list of single replacements is one pass with all of them.
-/
import Mathlib.Data.List.Infix
import Mathlib.Data.List.Induction
import Mathlib.Data.List.Pairwise

namespace CppServer.Rewrite

variable {α : Type*}

/-- A replacement: a nonempty source and what is put in its place. -/
structure Rule (α : Type*) where
  src : List α
  dst : List α
  src_ne : src ≠ []
deriving DecidableEq

/-- The same source with another target. -/
def Rule.withDst (out : Rule α → List α) (r : Rule α) : Rule α := ⟨r.src, out r, r.src_ne⟩

/-- No letter of `u` begins the source of the rule. -/
def AvoidsHead (u : List α) (r : Rule α) : Prop := ∀ b ∈ u, r.src.head? ≠ some b

variable [DecidableEq α]

/-- The first rule whose source begins here. -/
def firstMatch (R : List (Rule α)) (s : List α) : Option (Rule α) :=
  R.find? fun r => r.src.isPrefixOf s

/-- The pass, with a number of letters still to be skipped. -/
def substFrom (R : List (Rule α)) : ℕ → List α → List α
  | _, [] => []
  | k + 1, _ :: s => substFrom R k s
  | 0, c :: s =>
    match firstMatch R (c :: s) with
    | some r => r.dst ++ substFrom R (r.src.length - 1) s
    | none => c :: substFrom R 0 s

/-- Apply the rules in one pass. -/
def subst (R : List (Rule α)) (s : List α) : List α := substFrom R 0 s

/-! ## One pass -/

section Pass

variable {R R' : List (Rule α)} {r : Rule α} {s t : List α} {c : α}

lemma mem_of_firstMatch (h : firstMatch R s = some r) : r ∈ R := List.mem_of_find?_eq_some h

lemma prefix_of_firstMatch (h : firstMatch R s = some r) : r.src <+: s := by
  have hr := List.find?_some (p := fun r : Rule α => r.src.isPrefixOf s) h
  exact List.isPrefixOf_iff_prefix.mp hr

lemma firstMatch_eq_none_iff : firstMatch R s = none ↔ ∀ r ∈ R, ¬ r.src <+: s := by
  simp [firstMatch, List.find?_eq_none]

lemma firstMatch_append (Q R : List (Rule α)) (s : List α) :
    firstMatch (Q ++ R) s = (firstMatch Q s).or (firstMatch R s) :=
  List.find?_append

lemma firstMatch_map_withDst (Q : List (Rule α)) (out : Rule α → List α) (s : List α) :
    firstMatch (Q.map (Rule.withDst out)) s = (firstMatch Q s).map (Rule.withDst out) :=
  List.find?_map

/-- Only what the sources begin with matters. -/
lemma firstMatch_congr (h : ∀ r ∈ R, r.src <+: s ↔ r.src <+: t) :
    firstMatch R s = firstMatch R t := by
  induction R with
  | nil => rfl
  | cons r R ih =>
    have hr : r.src.isPrefixOf s = r.src.isPrefixOf t := by
      rw [Bool.eq_iff_iff, List.isPrefixOf_iff_prefix, List.isPrefixOf_iff_prefix]
      exact h r (by simp)
    have ih : firstMatch R s = firstMatch R t := ih fun r' hr' => h r' (by simp [hr'])
    unfold firstMatch at ih ⊢
    rw [List.find?_cons, List.find?_cons, hr, ih]

lemma substFrom_eq_subst_drop (k : ℕ) (s : List α) : substFrom R k s = subst R (s.drop k) := by
  induction s generalizing k with
  | nil => cases k <;> rfl
  | cons c s ih =>
    cases k with
    | zero => rfl
    | succ k => exact ih k

/-- A source that begins here is replaced. -/
lemma subst_of_match (h : firstMatch R (r.src ++ s) = some r) :
    subst R (r.src ++ s) = r.dst ++ subst R s := by
  obtain ⟨c, t, hsrc⟩ := List.exists_cons_of_ne_nil r.src_ne
  have hstep : subst R (r.src ++ s) = r.dst ++ substFrom R (r.src.length - 1) (t ++ s) := by
    rw [hsrc, List.cons_append] at h ⊢
    simp only [subst, substFrom, h, hsrc]
  have hlen : r.src.length - 1 = t.length := by simp [hsrc]
  rw [hstep, hlen, substFrom_eq_subst_drop, List.drop_left]

/-- A letter at which no source begins is copied. -/
lemma subst_cons_of_none (h : firstMatch R (c :: s) = none) :
    subst R (c :: s) = c :: subst R s := by
  simp only [subst, substFrom, h]

/-- Induction along the pass. -/
lemma scan_induction (R : List (Rule α)) {P : List α → Prop} (nil : P [])
    (hit : ∀ r s, firstMatch R (r.src ++ s) = some r → P s → P (r.src ++ s))
    (miss : ∀ c s, firstMatch R (c :: s) = none → P s → P (c :: s)) (s : List α) : P s := by
  -- strong induction on the length: a hit leaves a shorter rest
  induction hn : s.length using Nat.strong_induction_on generalizing s with
  | _ n ih =>
    cases hmatch : firstMatch R s with
    | some r =>
      obtain ⟨t, rfl⟩ := prefix_of_firstMatch hmatch
      have hpos : 0 < r.src.length := List.length_pos_iff.mpr r.src_ne
      rw [List.length_append] at hn
      exact hit r t hmatch (ih t.length (by omega) t rfl)
    | none =>
      cases s with
      | nil => exact nil
      | cons c s =>
        rw [List.length_cons] at hn
        exact miss c s hmatch (ih s.length (by omega) s rfl)

@[simp] lemma subst_nil_left (s : List α) : subst [] s = s := by
  induction s with
  | nil => rfl
  | cons c s ih => rw [subst_cons_of_none (by rfl), ih]

/-- Rules that match in the same places give the same pass. -/
lemma subst_congr (h : ∀ s, firstMatch R s = firstMatch R' s) (s : List α) :
    subst R s = subst R' s := by
  induction s using scan_induction R with
  | nil => rfl
  | hit r s hmatch ih => rw [subst_of_match hmatch, subst_of_match (h _ ▸ hmatch), ih]
  | miss c s hmatch ih => rw [subst_cons_of_none hmatch, subst_cons_of_none (h _ ▸ hmatch), ih]

omit [DecidableEq α] in
/-- A prefix that begins like a source begins with its first letter. -/
lemma not_prefix_cons_of_head (h : r.src.head? ≠ some c) : ¬ r.src <+: c :: s := by
  obtain ⟨c', t, hsrc⟩ := List.exists_cons_of_ne_nil r.src_ne
  rw [hsrc, List.cons_prefix_cons]
  rintro ⟨rfl, -⟩
  exact h (by rw [hsrc]; rfl)

/-- Letters with which no source begins are copied. -/
lemma subst_append_of_avoidsHead {u : List α} (h : ∀ r ∈ R, AvoidsHead u r) (s : List α) :
    subst R (u ++ s) = u ++ subst R s := by
  induction u with
  | nil => rfl
  | cons b u ih =>
    have hnone : firstMatch R (b :: (u ++ s)) = none :=
      firstMatch_eq_none_iff.mpr fun r hr => not_prefix_cons_of_head (h r hr b (by simp))
    have hrest : ∀ r ∈ R, AvoidsHead u r := fun r hr b' hb' => h r hr b' (by simp [hb'])
    rw [List.cons_append, subst_cons_of_none hnone, ih hrest]
    rfl

/-- So is a string whose first letter may begin a source, as long as it is not one. -/
lemma subst_append_of_incomparable {u : List α} (hu : u ≠ [])
    (hcmp : ∀ r ∈ R, ¬ r.src <+: u ∧ ¬ u <+: r.src)
    (htail : ∀ r ∈ R, AvoidsHead u.tail r) (s : List α) : subst R (u ++ s) = u ++ subst R s := by
  have hnone : firstMatch R (u ++ s) = none := by
    refine firstMatch_eq_none_iff.mpr fun r hr hpre => ?_
    rcases List.prefix_or_prefix_of_prefix hpre (List.prefix_append u s) with h | h
    · exact (hcmp r hr).1 h
    · exact (hcmp r hr).2 h
  obtain ⟨c, t, rfl⟩ := List.exists_cons_of_ne_nil hu
  rw [List.cons_append] at hnone ⊢
  rw [List.tail_cons] at htail
  rw [subst_cons_of_none hnone, subst_append_of_avoidsHead htail, List.cons_append]

/-- The rules can be told apart by their sources, whatever follows. -/
def PrefixFree (R : List (Rule α)) : Prop := ∀ r ∈ R, ∀ r' ∈ R, r'.src <+: r.src → r' = r

omit [DecidableEq α] in
lemma prefixFree_of_pairwise
    (h : R.Pairwise fun q r => ¬ q.src <+: r.src ∧ ¬ r.src <+: q.src) : PrefixFree R := by
  have hsymm : Std.Symm fun q r : Rule α => ¬ q.src <+: r.src ∧ ¬ r.src <+: q.src :=
    ⟨fun _ _ hqr => hqr.symm⟩
  intro r hr r' hr' hpre
  by_contra hne
  exact (h.forall hr' hr hne).1 hpre

/-- A source of rules that can be told apart is replaced by its own target. -/
lemma subst_append_of_prefixFree (hfree : PrefixFree R) (hr : r ∈ R) (s : List α) :
    subst R (r.src ++ s) = r.dst ++ subst R s := by
  have hmatch : firstMatch R (r.src ++ s) = some r := by
    cases h : firstMatch R (r.src ++ s) with
    | none => exact absurd (List.prefix_append _ _) (firstMatch_eq_none_iff.mp h r hr)
    | some r' =>
      have hr' := mem_of_firstMatch h
      rcases List.prefix_or_prefix_of_prefix (prefix_of_firstMatch h) (List.prefix_append r.src s)
        with hpre | hpre
      · rw [hfree r hr r' hr' hpre]
      · rw [hfree r' hr' r hr hpre]
  exact subst_of_match hmatch

/-- A pass changes nothing where no source occurs. -/
lemma subst_of_not_infix (h : ∀ r ∈ R, ¬ r.src <:+: s) : subst R s = s := by
  induction s with
  | nil => rfl
  | cons c s ih =>
    have hnone : firstMatch R (c :: s) = none :=
      firstMatch_eq_none_iff.mpr fun r hr hpre => h r hr hpre.isInfix
    rw [subst_cons_of_none hnone,
      ih fun r hr hin => h r hr (hin.trans (List.suffix_cons c s).isInfix)]

end Pass

/-! ## Rules that shorten -/

section Shorten

variable {R : List (Rule α)} {s : List α}

lemma length_subst_le (hR : ∀ r ∈ R, r.dst.length < r.src.length) (s : List α) :
    (subst R s).length ≤ s.length := by
  induction s using scan_induction R with
  | nil => exact le_rfl
  | hit r s hmatch ih =>
    have hr := hR r (mem_of_firstMatch hmatch)
    rw [subst_of_match hmatch, List.length_append, List.length_append]
    omega
  | miss c s hmatch ih =>
    rw [subst_cons_of_none hmatch, List.length_cons, List.length_cons]
    omega

/-- Where a source occurs, rules that shorten leave less. -/
lemma length_subst_lt (hR : ∀ r ∈ R, r.dst.length < r.src.length) {s : List α}
    (h : ∃ r ∈ R, r.src <:+: s) : (subst R s).length < s.length := by
  induction s using scan_induction R with
  | nil =>
    obtain ⟨r, -, hin⟩ := h
    exact absurd (List.infix_nil.mp hin) r.src_ne
  | hit r s hmatch ih =>
    have hr := hR r (mem_of_firstMatch hmatch)
    have hle := length_subst_le hR s
    rw [subst_of_match hmatch, List.length_append, List.length_append]
    omega
  | miss c s hmatch ih =>
    obtain ⟨r, hr, hin⟩ := h
    rw [subst_cons_of_none hmatch, List.length_cons, List.length_cons]
    rcases List.infix_cons_iff.mp hin with hpre | hin
    · exact absurd hpre (firstMatch_eq_none_iff.mp hmatch r hr)
    · have := ih ⟨r, hr, hin⟩
      omega

/-- Rules that shorten change exactly the strings in which a source occurs. -/
lemma subst_eq_self_iff (hR : ∀ r ∈ R, r.dst.length < r.src.length) :
    subst R s = s ↔ ∀ r ∈ R, ¬ r.src <:+: s := by
  refine ⟨fun h r hr hin => ?_, subst_of_not_infix⟩
  have hlt := length_subst_lt hR ⟨r, hr, hin⟩
  rw [h] at hlt
  omega

end Shorten

/-! ## Passes one after the other -/

/-- The rule `q` neither begins, nor writes something that begins, with a letter inside the
source of `r`. -/
structure Independent (q r : Rule α) : Prop where
  src_head : AvoidsHead r.src.tail q
  dst_head : ∀ b ∈ r.src.tail, q.dst.head? ≠ some b
  dst_ne : q.dst ≠ []

section Compose

variable {Q R : List (Rule α)} {s : List α} {c : α}

/-- Letters that no source and no target begins with are a prefix after the pass exactly when
they were before. -/
lemma prefix_subst_iff {t : List α} (hsrc : ∀ q ∈ Q, AvoidsHead t q)
    (hdst : ∀ b ∈ t, ∀ q ∈ Q, q.dst.head? ≠ some b) (hne : ∀ q ∈ Q, q.dst ≠ []) :
    t <+: subst Q s ↔ t <+: s := by
  constructor
  · intro h
    induction t generalizing s with
    | nil => exact List.nil_prefix
    | cons b t ih =>
      cases hmatch : firstMatch Q s with
      | some q =>
        -- what the rule writes does not begin with `b`
        obtain ⟨s', rfl⟩ := prefix_of_firstMatch hmatch
        have hq := mem_of_firstMatch hmatch
        obtain ⟨d, ds, hd⟩ := List.exists_cons_of_ne_nil (hne q hq)
        rw [subst_of_match hmatch, hd, List.cons_append, List.cons_prefix_cons] at h
        exact absurd (by rw [hd, ← h.1]; rfl) (hdst b (by simp) q hq)
      | none =>
        cases s with
        | nil => exact h
        | cons c s =>
          rw [subst_cons_of_none hmatch, List.cons_prefix_cons] at h
          refine List.cons_prefix_cons.mpr ⟨h.1, ih ?_ ?_ h.2⟩
          · exact fun q hq b' hb' => hsrc q hq b' (by simp [hb'])
          · exact fun b' hb' => hdst b' (by simp [hb'])
  · rintro ⟨s', rfl⟩
    rw [subst_append_of_avoidsHead hsrc]
    exact List.prefix_append _ _

/-- At a letter that the first pass copies, the second pass finds what it would have found
without the first. -/
lemma firstMatch_subst (hind : ∀ q ∈ Q, ∀ r ∈ R, Independent q r) :
    firstMatch R (c :: subst Q s) = firstMatch R (c :: s) := by
  refine firstMatch_congr fun r hr => ?_
  obtain ⟨c', t, hsrc⟩ := List.exists_cons_of_ne_nil r.src_ne
  have ht : r.src.tail = t := by rw [hsrc]; rfl
  rw [hsrc, List.cons_prefix_cons, List.cons_prefix_cons, prefix_subst_iff]
  · exact fun q hq => ht ▸ (hind q hq r hr).src_head
  · exact fun b hb q hq => (hind q hq r hr).dst_head b (ht ▸ hb)
  · exact fun q hq => (hind q hq r hr).dst_ne

/-- **Two passes as one.**  If the second pass rewrites each target of the first as a unit, and
the rules of the first do not interfere with the sources of the second, then the two passes
are one. -/
theorem subst_subst (out : Rule α → List α) (hind : ∀ q ∈ Q, ∀ r ∈ R, Independent q r)
    (hout : ∀ q ∈ Q, ∀ s, subst R (q.dst ++ s) = out q ++ subst R s) (s : List α) :
    subst R (subst Q s) = subst (Q.map (Rule.withDst out) ++ R) s := by
  have hsplit : ∀ s, firstMatch (Q.map (Rule.withDst out) ++ R) s =
      ((firstMatch Q s).map (Rule.withDst out)).or (firstMatch R s) := fun s => by
    rw [firstMatch_append, firstMatch_map_withDst]
  induction s using scan_induction (Q.map (Rule.withDst out) ++ R) with
  | nil => rfl
  | hit r s hmatch ih =>
    rw [subst_of_match hmatch, ← ih]
    rw [hsplit] at hmatch
    cases hQ : firstMatch Q (r.src ++ s) with
    | some q =>
      -- a rule of the first pass
      rw [hQ, Option.map_some, Option.some_or, Option.some.injEq] at hmatch
      subst hmatch
      have hstep : subst Q (q.src ++ s) = q.dst ++ subst Q s := subst_of_match hQ
      show subst R (subst Q (q.src ++ s)) = out q ++ subst R (subst Q s)
      rw [hstep, hout q (mem_of_firstMatch hQ)]
    | none =>
      -- a rule of the second pass, whose source the first pass copies
      rw [hQ, Option.map_none, Option.none_or] at hmatch
      have hr := mem_of_firstMatch hmatch
      obtain ⟨c, t, hsrc⟩ := List.exists_cons_of_ne_nil r.src_ne
      have hcopy : subst Q (t ++ s) = t ++ subst Q s := by
        refine subst_append_of_avoidsHead (fun q hq => ?_) s
        have htail := (hind q hq r hr).src_head
        rwa [hsrc, List.tail_cons] at htail
      have hkeep : subst Q (r.src ++ s) = r.src ++ subst Q s := by
        rw [hsrc, List.cons_append] at hQ ⊢
        rw [subst_cons_of_none hQ, hcopy]
        rfl
      have hagain : firstMatch R (r.src ++ subst Q s) = some r := by
        rw [← hmatch, hsrc, List.cons_append, List.cons_append, ← hcopy]
        exact firstMatch_subst hind
      rw [hkeep, subst_of_match hagain]
  | miss c s hmatch ih =>
    have hnone := hmatch
    rw [hsplit, Option.or_eq_none_iff, Option.map_eq_none_iff] at hnone
    rw [subst_cons_of_none hmatch, ← ih, subst_cons_of_none hnone.1,
      subst_cons_of_none ((firstMatch_subst hind).trans hnone.2)]

/-- Single replacements one after the other are one pass, if no replacement interferes with a
later one or writes the first letter of its source. -/
theorem foldl_subst_singleton (rows : List (Rule α))
    (h : rows.Pairwise fun q r => Independent q r ∧ AvoidsHead q.dst r)
    (s : List α) : rows.foldl (fun s r => subst [r] s) s = subst rows s := by
  induction rows using List.reverseRecOn with
  | nil => simp
  | append_singleton rows r ih =>
    obtain ⟨hrows, -, hr⟩ := List.pairwise_append.mp h
    have hind : ∀ q ∈ rows, ∀ r' ∈ [r], Independent q r' := fun q hq r' hr' =>
      (hr q hq r' hr').1
    have hout : ∀ q ∈ rows, ∀ s, subst [r] (q.dst ++ s) = q.dst ++ subst [r] s := by
      intro q hq s
      exact subst_append_of_avoidsHead (fun r' hr' => (hr q hq r' hr').2) s
    have hmap : rows.map (Rule.withDst Rule.dst) = rows := List.map_id rows
    rw [List.foldl_append, ih hrows]
    show subst [r] (subst rows s) = _
    rw [subst_subst Rule.dst hind hout, hmap]

/-- Rules whose source begins with that of an earlier rule are never used. -/
lemma subst_append_dead {D : List (Rule α)} (h : ∀ r ∈ D, ∃ q ∈ Q, q.src <+: r.src)
    (s : List α) : subst (Q ++ D) s = subst Q s := by
  refine subst_congr (fun s => ?_) s
  rw [firstMatch_append]
  cases hQ : firstMatch Q s with
  | some q => rfl
  | none =>
    rw [Option.none_or, firstMatch_eq_none_iff]
    intro r hr hpre
    obtain ⟨q, hq, hqr⟩ := h r hr
    exact firstMatch_eq_none_iff.mp hQ q hq (hqr.trans hpre)

/-- Rules that replace a source by itself may be left out, if no other source begins inside. -/
lemma subst_ident_append {I : List (Rule α)} (hI : ∀ i ∈ I, i.dst = i.src)
    (hR : ∀ i ∈ I, ∀ r ∈ R, AvoidsHead i.src r) (s : List α) :
    subst (I ++ R) s = subst R s := by
  induction s using scan_induction (I ++ R) with
  | nil => rfl
  | hit r s hmatch ih =>
    rw [subst_of_match hmatch, ih]
    rw [firstMatch_append] at hmatch
    cases hQ : firstMatch I (r.src ++ s) with
    | some i =>
      rw [hQ, Option.some_or, Option.some.injEq] at hmatch
      subst hmatch
      have hi := mem_of_firstMatch hQ
      rw [hI i hi, subst_append_of_avoidsHead (hR i hi)]
    | none =>
      rw [hQ, Option.none_or] at hmatch
      rw [subst_of_match hmatch]
  | miss c s hmatch ih =>
    rw [subst_cons_of_none hmatch, ih]
    rw [firstMatch_append, Option.or_eq_none_iff] at hmatch
    rw [subst_cons_of_none hmatch.2]

/-! ## What a pass leaves -/

/-- A pass leaves no occurrence of a source, if the targets do not bring in a letter that the
source begins with. -/
lemma not_infix_subst {r : Rule α} (hr : r ∈ R)
    (h : ∀ q ∈ R, Independent q r ∧ AvoidsHead q.dst r) (s : List α) : ¬ r.src <:+: subst R s := by
  obtain ⟨a, t, hsrc⟩ := List.exists_cons_of_ne_nil r.src_ne
  -- the source cannot begin inside a target
  have hhead : ∀ u v : List α, (∀ b ∈ u, a ≠ b) → a :: t <:+: u ++ v → a :: t <:+: v := by
    intro u v hu hin
    induction u with
    | nil => exact hin
    | cons b u ih =>
      rcases List.infix_cons_iff.mp hin with hpre | hin
      · exact absurd (List.cons_prefix_cons.mp hpre).1 (hu b (by simp))
      · exact ih (fun b' hb' => hu b' (by simp [hb'])) hin
  rw [hsrc]
  induction s using scan_induction R with
  | nil =>
    intro hin
    exact absurd (List.infix_nil.mp hin) (by simp)
  | hit q s hmatch ih =>
    intro hin
    rw [subst_of_match hmatch] at hin
    refine ih (hhead q.dst _ (fun b hb heq => ?_) hin)
    exact (h q (mem_of_firstMatch hmatch)).2 b hb (by rw [hsrc, heq]; rfl)
  | miss c s hmatch ih =>
    intro hin
    rw [subst_cons_of_none hmatch] at hin
    rcases List.infix_cons_iff.mp hin with hpre | hin
    · -- a source that begins at a copied letter was there before
      obtain ⟨hac, hrest⟩ := List.cons_prefix_cons.mp hpre
      have htail : r.src.tail = t := by rw [hsrc]; rfl
      have hbefore : t <+: s := by
        refine (prefix_subst_iff (fun q hq => ?_) (fun b hb q hq => ?_) fun q hq => ?_).mp hrest
        · exact htail ▸ (h q hq).1.src_head
        · exact (h q hq).1.dst_head b (htail ▸ hb)
        · exact (h q hq).1.dst_ne
      refine firstMatch_eq_none_iff.mp hmatch r hr ?_
      rw [hsrc]
      exact List.cons_prefix_cons.mpr ⟨hac, hbefore⟩
    · exact ih hin

/-- A letter that is a source, and that the targets have only in front, begins a target
wherever it stands after the pass. -/
lemma dst_prefix_of_subst_eq {r : Rule α} {a : α} (hr : r ∈ R) (hsrc : r.src = [a])
    (htail : ∀ q ∈ R, a ∉ q.dst.tail) {s u v : List α} (heq : subst R s = u ++ a :: v) :
    ∃ q ∈ R, q.dst <+: a :: v := by
  induction s using scan_induction R generalizing u with
  | nil =>
    have hnil : [] = u ++ a :: v := heq
    exact absurd hnil (by simp)
  | hit q s hmatch ih =>
    have hq := mem_of_firstMatch hmatch
    rw [subst_of_match hmatch] at heq
    rcases List.append_eq_append_iff.mp heq with ⟨m, -, hrest⟩ | ⟨m, hdst, hrest⟩
    · exact ih hrest
    · -- the letter stands in the target, so in front of it
      cases m with
      | nil => exact ih (u := []) (by simpa using hrest.symm)
      | cons b m =>
        obtain ⟨rfl, rfl⟩ : a = b ∧ v = m ++ subst R s := by simpa using hrest
        cases u with
        | nil =>
          refine ⟨q, hq, ?_⟩
          rw [hdst, List.nil_append]
          exact List.cons_prefix_cons.mpr ⟨rfl, List.prefix_append _ _⟩
        | cons x u => exact absurd (by rw [hdst]; simp) (htail q hq)
  | miss c s hmatch ih =>
    rw [subst_cons_of_none hmatch] at heq
    cases u with
    | nil =>
      -- a letter that is a source is not copied
      obtain ⟨rfl, -⟩ : c = a ∧ _ := by simpa using heq
      refine absurd ?_ (firstMatch_eq_none_iff.mp hmatch r hr)
      rw [hsrc]
      exact List.cons_prefix_cons.mpr ⟨rfl, List.nil_prefix⟩
    | cons x u =>
      obtain ⟨-, hrest⟩ : c = x ∧ subst R s = u ++ a :: v := by simpa using heq
      exact ih hrest

end Compose

end CppServer.Rewrite
