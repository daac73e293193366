/-
# How the duns of a group are filled

A `groupdun_t` is filled by `assign` and `append` and emptied by `Reset`, in any order that the
assertions allow, and it may be copied at any point.  The group is related to the log of its
calls: since the last `Reset` each dun was assigned at most once and completed at most once after
that, and it holds those cards and zeros behind them.  From this follow the counts, and that no
call copies cards past the end of a dun.

Groups live in a store, and a copied group takes over the log of the group it was copied from.
-/
import Mathlib.Order.Bounds.Defs
import Mathlib.Order.Fin.Basic
import CppServer.Games.S13s.Group

namespace CppServer.S13s

/-- The calls that change a group. -/
inductive LayoutOp where
  | reset
  | assign (dt : DunTy) (ty : HandTy) (src : Bytes) (len : ℤ)
  | append (dt : DunTy) (src : Bytes) (len : ℤ)
deriving DecidableEq

/-- The call names one of the duns, and `src` holds the cards. -/
def LayoutOp.WellFormed : LayoutOp → Prop
  | .reset => True
  | .assign dt _ src len => (∃ i, dt = .ofIndex i) ∧ len ≤ src.length
  | .append dt src len => (∃ i, dt = .ofIndex i) ∧ len ≤ src.length

/-- The call on a group. -/
def GroupDun.perform (g : GroupDun) : LayoutOp → Except Fault GroupDun
  | .reset => .ok g.reset
  | .assign dt ty src len => g.assign dt ty src len
  | .append dt src len => g.append dt src len

/-! ## The log of a group -/

/-- The cards of an `assign` to the dun. -/
def LayoutOp.assigned (i : Fin 3) : LayoutOp → Option Bytes
  | .assign dt _ src len => if dt = .ofIndex i then some (src.take len.toNat) else none
  | .reset | .append _ _ _ => none

/-- The cards of an `append` to the dun. -/
def LayoutOp.appended (i : Fin 3) : LayoutOp → Option Bytes
  | .append dt src len => if dt = .ofIndex i then some (src.take len.toNat) else none
  | .reset | .assign _ _ _ _ => none

/-- The cards of the `assign`s to a dun since the last `Reset`. -/
def assigned (log : List LayoutOp) (i : Fin 3) : List Bytes :=
  (sinceLast .reset log).filterMap (LayoutOp.assigned i)

/-- The cards of the `append`s to a dun since the last `Reset`. -/
def appended (log : List LayoutOp) (i : Fin 3) : List Bytes :=
  (sinceLast .reset log).filterMap (LayoutOp.appended i)

/-- The cards of an `assign`, if there was one, followed by those of an `append`, if there was
one. -/
def held (a b : Option Bytes) : Bytes := a.getD [] ++ b.getD []

/-- The dun at the place `i` was filled with `a` and completed with `b`. -/
structure DunHolds (i : Fin 3) (a b : Option Bytes) (d : DunData) : Prop where
  dt_ : d.dt_ = .ofIndex i
  c : d.c.toNat = (held a b).length
  c_le : d.c.toNat ≤ (DunTy.ofIndex i).capacity
  cards : d.cards.toList = held a b ++ List.replicate (5 - d.c.toNat) 0
  assigned_ne : a ≠ some []
  full : b ≠ none → d.c.toNat = (DunTy.ofIndex i).capacity

/-- The group is what its log says. -/
structure LaidOut (log : List LayoutOp) (g : GroupDun) : Prop where
  duns : ∀ i, ∃ a b, assigned log i = a.toList ∧ appended log i = b.toList ∧
    DunHolds i a b (g.dun i)
  start : (g.start = .dunNil ∧ ∀ i, assigned log i = []) ∨
    ∃ i, g.start = .ofIndex i ∧ IsLeast {j | assigned log j ≠ []} i

section Log

variable {log : List LayoutOp} {op : LayoutOp} {i : Fin 3}

lemma assigned_snoc (hop : op ≠ .reset) :
    assigned (log ++ [op]) i = assigned log i ++ (op.assigned i).toList :=
  filterMap_sinceLast_snoc _ hop

lemma appended_snoc (hop : op ≠ .reset) :
    appended (log ++ [op]) i = appended log i ++ (op.appended i).toList :=
  filterMap_sinceLast_snoc _ hop

end Log

/-! ## One dun -/

section Dun

variable {i : Fin 3} {a b : Option Bytes} {d d' : DunData} {ty : HandTy} {src : Bytes} {len : ℤ}

lemma dunHolds_reset (i : Fin 3) : DunHolds i none none (.reset (.ofIndex i)) where
  dt_ := rfl
  c := rfl
  c_le := Nat.zero_le _
  cards := rfl
  assigned_ne := by simp
  full h := absurd rfl h

/-- A dun that may be assigned has neither been assigned nor completed. -/
lemma DunHolds.eq_none_of_empty (hd : DunHolds i a b d) (hc : d.c = 0) : a = none ∧ b = none := by
  have hlen : (held a b).length = 0 := by
    rw [← hd.c, hc]
    rfl
  have hcap := (DunTy.ofIndex i).capacity_le
  constructor
  · cases a with
    | none => rfl
    | some cards =>
      have hnil : cards = [] :=
        (List.append_eq_nil_iff.mp (List.length_eq_zero_iff.mp hlen)).1
      exact absurd (congrArg some hnil) hd.assigned_ne
  · by_contra hb
    have hfull := hd.full hb
    rw [hd.c] at hfull
    omega

/-- `assign` puts its cards into an empty dun. -/
lemma DunHolds.assign (hd : DunHolds i a b d)
    (h : d.assign (.ofIndex i) ty src len = .ok d') :
    a = none ∧ b = none ∧ DunHolds i (some (src.take len.toNat)) none d' := by
  obtain ⟨hpos, -, hle, ⟨-, hc⟩, cards, hcopy, rfl⟩ := DunData.assign_eq_ok.mp h
  obtain ⟨rfl, rfl⟩ := hd.eq_none_of_empty hc
  have hcap := (DunTy.ofIndex i).capacity_le
  have hsize : (UInt8.ofInt len).toNat = len.toNat := toNat_ofInt_of_range (by omega) (by omega)
  have hempty : d.cards.toList = [] ++ List.replicate (5 - ([] : Bytes).length) 0 := by
    rw [hd.cards, hc]
    rfl
  have hfit : (([] : Bytes).length : ℤ) + len ≤ 5 := by
    rw [List.length_nil]
    omega
  obtain ⟨htake, hcards⟩ := toList_memcpyCards hempty hfit hcopy
  have hheld : held (some (src.take len.toNat)) none = src.take len.toNat := List.append_nil _
  refine ⟨rfl, rfl, rfl, ?_, ?_, ?_, ?_, fun h => absurd rfl h⟩
  · rw [hheld, htake]
    exact hsize
  · show (UInt8.ofInt len).toNat ≤ _
    omega
  · show cards.toList = _ ++ List.replicate (5 - (UInt8.ofInt len).toNat) 0
    rw [hcards, hheld, hsize, List.length_nil, Nat.zero_add, List.nil_append]
  · intro hnil
    have hzero := congrArg List.length (Option.some.inj hnil)
    rw [htake, List.length_nil] at hzero
    omega

/-- `append` puts its cards behind those of the dun and completes it. -/
lemma DunHolds.append (hd : DunHolds i a b d) (h : d.append src len = .ok d') :
    b = none ∧ DunHolds i a (some (src.take len.toNat)) d' := by
  obtain ⟨hpos, -, hfull, cards, hcopy, rfl⟩ := DunData.append_eq_ok.mp h
  rw [hd.dt_] at hfull
  -- a dun that was completed has no place for another card
  obtain rfl : b = none := by
    by_contra hb
    have hc := hd.full hb
    omega
  have hcap := (DunTy.ofIndex i).capacity_le
  have hsize : (UInt8.ofInt (d.c.toNat + len)).toNat = d.c.toNat + len.toNat := by
    rw [toNat_ofInt_of_range (by omega) (by omega)]
    omega
  have hold : d.cards.toList = held a none ++ List.replicate (5 - (held a none).length) 0 := by
    rw [← hd.c, hd.cards]
  rw [hd.c] at hcopy
  have hfit : ((held a none).length : ℤ) + len ≤ 5 := by
    rw [← hd.c]
    omega
  obtain ⟨htake, hcards⟩ := toList_memcpyCards hold hfit hcopy
  have hheld : held a (some (src.take len.toNat)) = held a none ++ src.take len.toNat := by
    simp [held]
  refine ⟨rfl, hd.dt_, ?_, ?_, ?_, hd.assigned_ne, fun _ => ?_⟩
  · rw [hheld, List.length_append, htake, ← hd.c]
    exact hsize
  · show (UInt8.ofInt (d.c.toNat + len)).toNat ≤ _
    omega
  · show cards.toList = _ ++ List.replicate (5 - (UInt8.ofInt (d.c.toNat + len)).toNat) 0
    rw [hcards, hheld, hsize, ← hd.c]
  · show (UInt8.ofInt (d.c.toNat + len)).toNat = _
    omega

end Dun

/-! ## One group -/

section Group

variable {log : List LayoutOp} {g g' : GroupDun} {dt : DunTy} {ty : HandTy} {src : Bytes} {len : ℤ}

/-- An empty group, with nothing in its log. -/
lemma laidOut_of_cleared (hlog : sinceLast .reset log = []) (hstart : g.start = .dunNil)
    (hduns : ∀ i, g.dun i = DunData.reset (.ofIndex i)) : LaidOut log g where
  duns i := by
    refine ⟨none, none, ?_, ?_, ?_⟩
    · simp [assigned, hlog]
    · simp [appended, hlog]
    · rw [hduns i]
      exact dunHolds_reset i
  start := Or.inl ⟨hstart, fun i => by simp [assigned, hlog]⟩

lemma laidOut_make : LaidOut [] GroupDun.make :=
  laidOut_of_cleared rfl rfl fun
    | 0 | 1 | 2 => rfl

lemma laidOut_reset (log : List LayoutOp) (g : GroupDun) : LaidOut (log ++ [.reset]) g.reset :=
  laidOut_of_cleared sinceLast_self rfl fun
    | 0 | 1 | 2 => rfl

/-- The duns that are assigned after one more `assign`. -/
lemma assigned_ne_nil_iff {i j : Fin 3} :
    assigned (log ++ [.assign (.ofIndex i) ty src len]) j ≠ [] ↔ assigned log j ≠ [] ∨ j = i := by
  rw [assigned_snoc (by simp)]
  by_cases hij : i = j
  · simp [LayoutOp.assigned, hij]
  · simp [LayoutOp.assigned, hij, Ne.symm hij]

/-- `assign` moves `start` to its dun if that is the smallest one. -/
lemma start_assign {i : Fin 3} {start : DunTy}
    (h : (start = .dunNil ∧ ∀ j, assigned log j = []) ∨
      ∃ k, start = .ofIndex k ∧ IsLeast {j | assigned log j ≠ []} k) :
    ∃ k, (if start = .dunNil ∨ (DunTy.ofIndex i).toInt < start.toInt then .ofIndex i else start) =
        DunTy.ofIndex k ∧
      IsLeast {j | assigned (log ++ [.assign (.ofIndex i) ty src len]) j ≠ []} k := by
  simp only [assigned_ne_nil_iff]
  rcases h with ⟨rfl, hnone⟩ | ⟨k, rfl, hk, hleast⟩
  · refine ⟨i, if_pos (Or.inl rfl), Or.inr rfl, ?_⟩
    rintro j (hj | rfl)
    · exact absurd (hnone j) hj
    · exact le_rfl
  · have hlt : (DunTy.ofIndex i).toInt < (DunTy.ofIndex k).toInt ↔ i < k := by
      simp
    simp only [DunTy.ofIndex_ne_dunNil, hlt, false_or]
    by_cases hik : i < k
    · refine ⟨i, if_pos hik, Or.inr rfl, ?_⟩
      rintro j (hj | rfl)
      · exact hik.le.trans (hleast hj)
      · exact le_rfl
    · refine ⟨k, if_neg hik, Or.inl hk, ?_⟩
      rintro j (hj | rfl)
      · exact hleast hj
      · exact not_lt.mp hik

lemma LaidOut.assign (hg : LaidOut log g) (h : g.assign dt ty src len = .ok g') :
    LaidOut (log ++ [.assign dt ty src len]) g' := by
  obtain ⟨i, d, rfl, hdun, rfl⟩ := GroupDun.assign_eq_ok.mp h
  refine ⟨fun j => ?_, Or.inr (start_assign hg.start)⟩
  obtain ⟨a, b, ha, hb, hj⟩ := hg.duns j
  rw [assigned_snoc (by simp), appended_snoc (by simp), ha, hb, GroupDun.dun_setDun]
  by_cases hij : i = j
  · subst hij
    obtain ⟨rfl, rfl, hholds⟩ := hj.assign hdun
    exact ⟨some (src.take len.toNat), none, by simp [LayoutOp.assigned],
      by simp [LayoutOp.appended], by simpa using hholds⟩
  · exact ⟨a, b, by simp [LayoutOp.assigned, hij], by simp [LayoutOp.appended],
      by simpa [hij] using hj⟩

lemma LaidOut.append (hg : LaidOut log g) (h : g.append dt src len = .ok g') :
    LaidOut (log ++ [.append dt src len]) g' := by
  obtain ⟨i, d, rfl, hdun, rfl⟩ := GroupDun.append_eq_ok.mp h
  have hassigned : ∀ j, assigned (log ++ [.append (.ofIndex i) src len]) j = assigned log j := by
    intro j
    rw [assigned_snoc (by simp)]
    simp [LayoutOp.assigned]
  refine ⟨fun j => ?_, by simpa only [hassigned, GroupDun.start_setDun] using hg.start⟩
  obtain ⟨a, b, ha, hb, hj⟩ := hg.duns j
  rw [hassigned, appended_snoc (by simp), ha, hb, GroupDun.dun_setDun]
  by_cases hij : i = j
  · subst hij
    obtain ⟨rfl, hholds⟩ := hj.append hdun
    exact ⟨a, some (src.take len.toNat), rfl, by simp [LayoutOp.appended], by simpa using hholds⟩
  · exact ⟨a, b, rfl, by simp [LayoutOp.appended, hij], by simpa [hij] using hj⟩

/-- A call extends the log. -/
lemma LaidOut.perform {op : LayoutOp} (hg : LaidOut log g) (h : g.perform op = .ok g') :
    LaidOut (log ++ [op]) g' := by
  cases op with
  | reset =>
    obtain rfl := Except.ok.inj h
    exact laidOut_reset log g
  | assign dt ty src len => exact hg.assign h
  | append dt src len => exact hg.append h

lemma perform_ne_outOfBounds (g : GroupDun) {op : LayoutOp} (hop : op.WellFormed) :
    g.perform op ≠ .error .outOfBounds := by
  cases op with
  | reset => simp [GroupDun.perform]
  | assign dt ty src len =>
    obtain ⟨⟨i, rfl⟩, hsrc⟩ := hop
    exact GroupDun.assign_ne_outOfBounds hsrc
  | append dt src len =>
    obtain ⟨⟨i, rfl⟩, hsrc⟩ := hop
    exact GroupDun.append_ne_outOfBounds hsrc

end Group

/-- What the code that reads a group relies on.  `held a b` are the cards of a dun, and a call
that names a dun and brings its cards stays inside the array, or fails an assertion. -/
structure GroupSound (log : List LayoutOp) (g : GroupDun) : Prop where
  cards : ∀ i, ∃ a b, assigned log i = a.toList ∧ appended log i = b.toList ∧
    (g.dun i).c.toNat = (held a b).length ∧
    (g.dun i).cards.toList = held a b ++ List.replicate (5 - (g.dun i).c.toNat) 0
  c_le : ∀ i, (g.dun i).c.toNat ≤ (DunTy.ofIndex i).capacity
  dt_ : ∀ i, (g.dun i).dt_ = .ofIndex i
  needC : ∀ i, g.needC (.ofIndex i) =
    .ok ((DunTy.ofIndex i).capacity - (g.dun i).c.toNat)
  needC_nonneg : ∀ i, (0 : ℤ) ≤ (DunTy.ofIndex i).capacity - (g.dun i).c.toNat
  getC : g.getC = (g.dun 0).c.toNat + (g.dun 1).c.toNat + (g.dun 2).c.toNat
  getC_le : g.getC ≤ 13
  getC_eq_iff : g.getC = 13 ↔ ∀ i, (g.dun i).c.toNat = (DunTy.ofIndex i).capacity
  start : (g.start = .dunNil ∧ ∀ i, assigned log i = []) ∨
    ∃ i, g.start = .ofIndex i ∧ IsLeast {j | assigned log j ≠ []} i
  inside : ∀ op : LayoutOp, op.WellFormed → g.perform op ≠ .error .outOfBounds

lemma LaidOut.sound {log : List LayoutOp} {g : GroupDun} (hg : LaidOut log g) :
    GroupSound log g := by
  have hdun : ∀ i, (g.dun i).dt_ = .ofIndex i ∧
      (g.dun i).c.toNat ≤ (DunTy.ofIndex i).capacity := by
    intro i
    obtain ⟨a, b, -, -, hholds⟩ := hg.duns i
    exact ⟨hholds.dt_, hholds.c_le⟩
  have h₀ : (g.dun 0).c.toNat ≤ 3 := (hdun 0).2
  have h₁ : (g.dun 1).c.toNat ≤ 5 := (hdun 1).2
  have h₂ : (g.dun 2).c.toNat ≤ 5 := (hdun 2).2
  have hgetC : g.getC = (g.dun 0).c.toNat + (g.dun 1).c.toNat + (g.dun 2).c.toNat := rfl
  refine ⟨fun i => ?_, fun i => (hdun i).2, fun i => (hdun i).1, fun i => ?_, fun i => ?_, hgetC,
    by omega, ⟨fun h => ?_, fun h => ?_⟩, hg.start, fun op => perform_ne_outOfBounds g⟩
  · obtain ⟨a, b, ha, hb, hholds⟩ := hg.duns i
    exact ⟨a, b, ha, hb, hholds.c, hholds.cards⟩
  · rw [GroupDun.needC_ofIndex, DunData.needC_eq (hdun i).1]
  · have hle := (hdun i).2
    omega
  · -- the bounds 3, 5 and 5 are all reached
    have hall : (g.dun 0).c.toNat = 3 ∧ (g.dun 1).c.toNat = 5 ∧ (g.dun 2).c.toNat = 5 := by omega
    exact fun
      | 0 => hall.1
      | 1 => hall.2.1
      | 2 => hall.2.2
  · have hfull₀ : (g.dun 0).c.toNat = 3 := h 0
    have hfull₁ : (g.dun 1).c.toNat = 5 := h 1
    have hfull₂ : (g.dun 2).c.toNat = 5 := h 2
    omega

/-! ## Groups and their copies -/

/-- What happens to groups: one is constructed, one is called, and one is copied to another, by
`copy` or by the copy constructor. -/
inductive GroupOp (H : Type) where
  | make (h : H)
  | call (h : H) (op : LayoutOp)
  | copy (h ref : H)
  | copyOf (h ref : H)
deriving DecidableEq

section Store

variable {H : Type} [DecidableEq H]

/-- One step on the groups that exist.  A call that fails stops the program. -/
def groupStep (s : H → Option GroupDun) : GroupOp H → Option (H → Option GroupDun)
  | .make h => some (Function.update s h (some .make))
  | .call h op => (s h).bind fun g =>
      (g.perform op).toOption.map fun g' => Function.update s h (some g')
  | .copy h ref => (s h).bind fun g =>
      (s ref).map fun r => Function.update s h (some (g.copy r))
  | .copyOf h ref => (s ref).map fun r => Function.update s h (some (.copyOf r))

/-- The logs of the groups after one more step: a copy has the log of the original. -/
def logStep (logs : H → List LayoutOp) : GroupOp H → H → List LayoutOp
  | .make h => Function.update logs h []
  | .call h op => Function.update logs h (logs h ++ [op])
  | .copy h ref | .copyOf h ref => Function.update logs h (logs ref)

/-- The logs of the groups. -/
def logs (ops : List (GroupOp H)) : H → List LayoutOp := ops.foldl logStep fun _ => []

lemma logs_snoc (ops : List (GroupOp H)) (op : GroupOp H) :
    logs (ops ++ [op]) = logStep (logs ops) op := by
  rw [logs, List.foldl_append]
  rfl

/-- All groups are what their logs say. -/
def AllLaidOut (logs : H → List LayoutOp) (s : H → Option GroupDun) : Prop :=
  ∀ h g, s h = some g → LaidOut (logs h) g

lemma AllLaidOut.update {logs : H → List LayoutOp} {s : H → Option GroupDun}
    (hs : AllLaidOut logs s) {h : H} {log : List LayoutOp} {g : GroupDun} (hg : LaidOut log g) :
    AllLaidOut (Function.update logs h log) (Function.update s h (some g)) := by
  intro h' g' hg'
  by_cases hh : h' = h
  · subst hh
    obtain rfl : g = g' := by simpa using hg'
    simpa using hg
  · rw [Function.update_of_ne hh] at hg' ⊢
    exact hs h' g' hg'

lemma AllLaidOut.step {logs : H → List LayoutOp} {s s' : H → Option GroupDun} {op : GroupOp H}
    (hs : AllLaidOut logs s) (h : groupStep s op = some s') : AllLaidOut (logStep logs op) s' := by
  cases op with
  | make x =>
    obtain rfl := Option.some.inj h
    exact hs.update laidOut_make
  | call x op =>
    obtain ⟨g, hg, h⟩ := Option.bind_eq_some_iff.mp h
    obtain ⟨g', hg', rfl⟩ := Option.map_eq_some_iff.mp h
    cases hop : g.perform op with
    | error e =>
      rw [hop] at hg'
      exact absurd hg' (by simp [Except.toOption])
    | ok g'' =>
      rw [hop] at hg'
      obtain rfl : g'' = g' := Option.some.inj hg'
      exact hs.update ((hs x g hg).perform hop)
  | copy x ref =>
    obtain ⟨g, -, h⟩ := Option.bind_eq_some_iff.mp h
    obtain ⟨r, hr, rfl⟩ := Option.map_eq_some_iff.mp h
    rw [GroupDun.copy_eq]
    exact hs.update (hs ref r hr)
  | copyOf x ref =>
    obtain ⟨r, hr, rfl⟩ := Option.map_eq_some_iff.mp h
    rw [GroupDun.copyOf_eq]
    exact hs.update (hs ref r hr)

/-- **The invariant of a group.**  In every run of constructions, calls and copies in which no
assertion fails, every group holds the cards its log says, in duns whose counts, positions and
free places agree with them, and `start` is the smallest dun assigned since the last `Reset`. -/
theorem groups_sound_of_run (ops : List (GroupOp H)) (s : H → Option GroupDun)
    (hrun : run groupStep (fun _ => none) ops = some s) (h : H) (g : GroupDun)
    (hg : s h = some g) : GroupSound (logs ops h) g := by
  have hall : AllLaidOut (logs ops) s := by
    refine run_history (P := fun ops s => AllLaidOut (logs ops) s) ?_ ?_ hrun
    · intro h g hg
      exact absurd hg (by simp)
    · intro ops s₁ op s₂ _ hs hstep
      rw [logs_snoc]
      exact hs.step hstep
  exact (hall h g hg).sound

end Store

/-- The last dun of a group is filled and its first dun is begun and completed; then the group is
copied and reset. -/
def filledAndCopied : List (GroupOp ℕ) :=
  [.make 0, .call 0 (.assign .dunLast .ty123 [0x12, 0x23, 0x34, 0x45, 0x16] 5),
    .call 0 (.assign .dunFirst .ty20 [0x1A, 0x2A] 2), .call 0 (.append .dunFirst [0x3B] 1),
    .copyOf 1 0, .call 0 .reset]

/-- The copy keeps what the original had. -/
theorem sound_of_filled_and_copied :
    ∃ s g, run groupStep (fun _ => none) filledAndCopied = some s ∧ s 1 = some g ∧
      (g.dun 0).cards.toList = [0x1A, 0x2A, 0x3B, 0, 0] ∧ g.getC = 8 ∧ g.start = .dunFirst ∧
      GroupSound (logs filledAndCopied 1) g :=
  ⟨_, _, rfl, rfl, rfl, rfl, rfl, groups_sound_of_run filledAndCopied _ rfl 1 _ rfl⟩

end CppServer.S13s
