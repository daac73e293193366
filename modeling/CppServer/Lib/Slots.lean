/-
# Logs in recycled slots

A vector of records is reused from round to round.  Each record has a flag that says whether
it belongs to the current round.  The end of a round lowers every flag and removes no record;
a new record takes the first slot whose flag is down, and only when there is none does the
vector grow.

The main result, `slots_of_foldl`, says what such a vector holds after any list of
operations: first the records of the current round in the order in which they were added,
then slots whose flags are down, and as many slots altogether as the longest round had
records.
-/
import Mathlib.Data.List.Induction
import Mathlib.Order.Lattice

namespace CppServer

variable {R ι : Type*}

/-- Put a record into the first slot whose flag is down: `overwrite` is what the program
does to the record that is there, `fresh` the record that it appends when there is none. -/
def useSlot (flag : R → Bool) (fresh : R) (overwrite : R → R) : List R → List R
  | [] => [fresh]
  | r :: v => if flag r = false then overwrite r :: v else r :: useSlot flag fresh overwrite v

/-- The vector starts with the records `recs`, all of them flagged, and no slot after them
is. -/
def Logs (flag : R → Bool) (recs v : List R) : Prop :=
  (∀ r ∈ recs, flag r = true) ∧ ∃ rest, v = recs ++ rest ∧ ∀ r ∈ rest, flag r = false

section Slots

variable {flag : R → Bool} {recs v : List R} {fresh : R}

/-- A new record goes behind the records of the round. -/
lemma Logs.useSlot (h : Logs flag recs v) (hfresh : flag fresh = true) (overwrite : R → R)
    (hover : ∀ r, overwrite r = fresh) :
    Logs flag (recs ++ [fresh]) (useSlot flag fresh overwrite v) ∧
      (CppServer.useSlot flag fresh overwrite v).length = max v.length (recs.length + 1) := by
  obtain ⟨hrecs, rest, rfl, hrest⟩ := h
  have hflags : ∀ r ∈ recs ++ [fresh], flag r = true := by
    intro r hr
    rcases List.mem_append.mp hr with hr | hr
    · exact hrecs r hr
    · rw [List.mem_singleton.mp hr]
      exact hfresh
  have hscan : CppServer.useSlot flag fresh overwrite (recs ++ rest) =
      recs ++ [fresh] ++ rest.tail := by
    clear hflags
    induction recs with
    | nil =>
      cases rest with
      | nil => rfl
      | cons r rest => simp [CppServer.useSlot, hrest r (by simp), hover]
    | cons r recs ih =>
      have hr : flag r = true := hrecs r (by simp)
      simpa [CppServer.useSlot, hr] using ih (fun r' h => hrecs r' (by simp [h]))
  refine ⟨⟨hflags, rest.tail, hscan, fun r hr => hrest r (List.mem_of_mem_tail hr)⟩, ?_⟩
  rw [hscan]
  simp only [List.length_append, List.length_singleton, List.length_tail]
  omega

/-- Lowering every flag starts an empty round in the same slots. -/
lemma Logs.lower (lower : R → R) (hlower : ∀ r, flag (lower r) = false) (v : List R) :
    Logs flag [] (v.map lower) := by
  refine ⟨by simp, v.map lower, rfl, ?_⟩
  intro r hr
  obtain ⟨r', -, rfl⟩ := List.mem_map.mp hr
  exact hlower r'

end Slots

/-! ## Rounds -/

/-- The operations of each round, the current round first.  An operation for which `isEnd`
holds ends a round. -/
def rounds (isEnd : ι → Bool) (ops : List ι) : List (List ι) :=
  ops.foldl (fun rs op =>
    if isEnd op then [] :: rs else (rs.headD [] ++ [op]) :: rs.tail) [[]]

/-- The operations since the last end of a round. -/
def currentRound (isEnd : ι → Bool) (ops : List ι) : List ι := (rounds isEnd ops).headD []

/-- The largest number of records that the operations of one round added. -/
def longestRound (isEnd : ι → Bool) (record? : ι → Option R) (ops : List ι) : ℕ :=
  ((rounds isEnd ops).map fun round => (round.filterMap record?).length).foldr max 0

section Rounds

variable (isEnd : ι → Bool) (record? : ι → Option R) (ops : List ι) (op : ι)

lemma rounds_snoc_of_end (h : isEnd op = true) :
    rounds isEnd (ops ++ [op]) = [] :: rounds isEnd ops := by
  simp [rounds, List.foldl_append, h]

lemma rounds_snoc_of_not_end (h : isEnd op = false) :
    rounds isEnd (ops ++ [op]) =
      (currentRound isEnd ops ++ [op]) :: (rounds isEnd ops).tail := by
  simp [rounds, currentRound, List.foldl_append, h]

lemma rounds_eq_cons : rounds isEnd ops = currentRound isEnd ops :: (rounds isEnd ops).tail := by
  induction ops using List.reverseRecOn with
  | nil => rfl
  | append_singleton ops op ih =>
    cases h : isEnd op with
    | true => rw [currentRound, rounds_snoc_of_end isEnd ops op h]; rfl
    | false => rw [currentRound, rounds_snoc_of_not_end isEnd ops op h]; rfl

end Rounds

/-! ## What the vector holds -/

/-- The effect of one operation on the vector: the end of a round lowers every flag, and an
operation that adds a record uses a slot for it. -/
def slotStep (flag : R → Bool) (lower : R → R) (isEnd : ι → Bool) (record? : ι → Option R)
    (v : List R) (op : ι) : List R :=
  if isEnd op then v.map lower
  else match record? op with
    | none => v
    | some r => useSlot flag r (fun _ => r) v

section SlotStep

variable {flag : R → Bool} {lower : R → R} {isEnd : ι → Bool} {record? : ι → Option R}

lemma length_le_useSlot (fresh : R) (overwrite : R → R) (v : List R) :
    v.length ≤ (useSlot flag fresh overwrite v).length := by
  induction v with
  | nil => simp
  | cons r v ih =>
    rw [useSlot]
    split
    · simp
    · simpa using ih

/-- No operation removes a slot. -/
lemma length_le_slotStep (v : List R) (op : ι) :
    v.length ≤ (slotStep flag lower isEnd record? v op).length := by
  rw [slotStep]
  split
  · simp
  · split
    · exact Nat.le_refl _
    · exact length_le_useSlot _ _ v

/-- **Recycled slots lose nothing and leak nothing.**  After any list of operations the
vector is the list of the records added in the current round followed by slots that are
free, and it has as many slots as the longest round had records. -/
theorem slots_of_foldl (hlower : ∀ r, flag (lower r) = false)
    (hflag : ∀ op r, record? op = some r → flag r = true) (ops : List ι) :
    Logs flag ((currentRound isEnd ops).filterMap record?)
        (ops.foldl (slotStep flag lower isEnd record?) []) ∧
      (ops.foldl (slotStep flag lower isEnd record?) []).length =
        longestRound isEnd record? ops := by
  induction ops using List.reverseRecOn with
  | nil => exact ⟨⟨by simp [currentRound, rounds], [], rfl, by simp⟩, rfl⟩
  | append_singleton ops op ih =>
    obtain ⟨hlogs, hlen⟩ := ih
    rw [List.foldl_append, List.foldl_cons, List.foldl_nil]
    set v := ops.foldl (slotStep flag lower isEnd record?) [] with hv
    have hmax : longestRound isEnd record? ops =
        max ((currentRound isEnd ops).filterMap record?).length
          (((rounds isEnd ops).tail.map fun round =>
            (round.filterMap record?).length).foldr max 0) := by
      rw [longestRound, rounds_eq_cons]
      rfl
    cases hend : isEnd op with
    | true =>
      have hround := rounds_snoc_of_end isEnd ops op hend
      refine ⟨?_, ?_⟩
      · rw [currentRound, hround, slotStep, if_pos hend]
        exact Logs.lower lower hlower v
      · rw [longestRound, hround, slotStep, if_pos hend, List.length_map, hlen]
        simp [longestRound]
    | false =>
      have hround := rounds_snoc_of_not_end isEnd ops op hend
      have hnot : ¬ isEnd op = true := by simp [hend]
      cases hrec : record? op with
      | none =>
        refine ⟨?_, ?_⟩
        · rw [currentRound, hround, slotStep, if_neg hnot]
          simpa [hrec] using hlogs
        · rw [longestRound, hround, slotStep, if_neg hnot]
          simp only [hrec, hlen, hmax, List.map_cons, List.foldr_cons, List.filterMap_append,
            List.filterMap_cons, List.filterMap_nil, List.append_nil]
      | some r =>
        obtain ⟨hlogs', hlen'⟩ := hlogs.useSlot (hflag op r hrec) (fun _ => r) (fun _ => rfl)
        refine ⟨?_, ?_⟩
        · rw [currentRound, hround, slotStep, if_neg hnot]
          simpa [hrec] using hlogs'
        · rw [longestRound, hround, slotStep, if_neg hnot]
          simp only [hrec, hlen', hlen, hmax, List.map_cons, List.foldr_cons,
            List.filterMap_append, List.filterMap_cons, List.filterMap_nil, List.length_append,
            List.length_singleton]
          omega

end SlotStep

end CppServer
