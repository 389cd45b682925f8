import Mathlib.Algebra.Group.Int.Defs
import Mathlib.Algebra.Group.Nat.Defs
import DrAvx.Core.VmAreas
import DrAvx.Outcome.Basic

/-!
# Searching a vector of memory areas

`binary_search` looks for an area that a range `[start, end)` meets.  One loop serves several uses:
an end that is `NULL` stands for the top of the address space, a range with `start == end` is empty
and never found, and a search that fails leaves in `max` the index of the last area that starts
below the end of the range, from which callers find the neighbours of the range.

The bounds of the loop are `int`s, and so is the sum of which half is the next index.  In a vector
of more than `2 ^ 30` areas that sum overflows, which is undefined; in every other vector the search
is right.  `looksUp_iff` is both.

## What is here

* `binarySearch` and `vmvectorLookupPrevNext`, undefined (`none`) where an `int` overflows;
* `Bracket`, the invariant of the loop: the areas below `min` start below the end of the range and
  end at or before its start, those above `max` start at its end or later;
* `Answers` and `Nearest`, what the two functions are for.
-/

set_option autoImplicit false

namespace DrAvx

namespace VmArea

/-! ## The code -/

/-- `(min + max) / 2` for `int`s that are not negative. -/
def midpoint (min max : ℤ) : Option ℤ :=
  if min + max < 2 ^ 31 then some ((min + max) / 2) else none

variable {min max i : ℤ}

theorem midpoint_eq_some_iff :
    midpoint min max = some i ↔ min + max < 2 ^ 31 ∧ (min + max) / 2 = i := by
  rw [midpoint, Option.ite_none_right_eq_some, Option.some.injEq]

/-- The loop of `binary_search`: whether an area was found, and its index or the value of `max`. -/
def searchLoop (v : List VmArea) (start stop : ℕ) (min max : ℤ) : Option (Bool × ℤ) :=
  if _hlt : max < min then some (false, max)
  else
    match _hi : midpoint min max with
    | none => none
    | some i =>
      match v[i.toNat]? with
      | none => none
      | some a =>
        if stop ≠ 0 ∧ stop ≤ a.start then searchLoop v start stop min (i - 1)
        else if a.stop ≤ start ∨ start = stop then searchLoop v start stop (i + 1) max
        else some (true, i)
termination_by (max - min + 1).toNat
decreasing_by
  all_goals
    rw [midpoint_eq_some_iff] at _hi
    omega

/-- The loop that goes back to the first area that ends behind `start`. -/
def firstMatch (v : List VmArea) (start : ℕ) : ℕ → ℕ
  | 0 => 0
  | i + 1 =>
    match v[i]? with
    | some a => if start < a.stop then firstMatch v start i else i + 1
    | none => i + 1

/-- Whether an area overlaps the range, and the value of `*index`. -/
def binarySearch (v : List VmArea) (start stop : ℕ) (first : Bool) : Option (Bool × ℤ) :=
  (searchLoop v start stop 0 (v.length - 1)).map fun r ↦
    if r.1 && first then (true, (firstMatch v start r.2.toNat : ℤ)) else r

/-- The values that `vmvector_lookup_prev_next` returns through its pointers. -/
structure PrevNext where
  prevStart : ℕ
  prevEnd : ℕ
  nextStart : ℕ
  nextEnd : ℕ
deriving DecidableEq

def pointerMax : ℕ := 2 ^ 64 - 1

/-- The bounds of the area at `index`, and `NULL` for none. -/
def prevBounds (v : List VmArea) (index : ℤ) : Option (ℕ × ℕ) :=
  if index = -1 then some (0, 0) else v[index.toNat]?.map fun a ↦ (a.start, a.stop)

/-- The bounds of the area after `index`, and `POINTER_MAX` for none. -/
def nextBounds (v : List VmArea) (index : ℤ) : Option (ℕ × ℕ) :=
  if (v.length : ℤ) - 1 ≤ index then some (pointerMax, pointerMax)
  else v[(index + 1).toNat]?.map fun a ↦ (a.start, a.stop)

def neighbours (v : List VmArea) (index : ℤ) : Option PrevNext := do
  let prev ← prevBounds v index
  let next ← nextBounds v index
  some ⟨prev.1, prev.2, next.1, next.2⟩

/-- The neighbours of `pc`, or nothing when the function returns false.  At the highest address
`pc + 1` is `NULL`. -/
def vmvectorLookupPrevNext (v : List VmArea) (pc : BitVec 64) : Option (Option PrevNext) := do
  let r ← binarySearch v pc.toNat (pc + 1#64).toNat false
  if r.1 then some none else (neighbours v r.2).map some

/-! ## What a search is for -/

/-- The area starts below the end of a range; every area does if the end is `NULL`. -/
def StartsBelow (stop : ℕ) (a : VmArea) : Prop :=
  stop = 0 ∨ a.start < stop

/-- The range and the area have an address in common. -/
def Overlaps (start stop : ℕ) (a : VmArea) : Prop :=
  start < a.stop ∧ StartsBelow stop a

/-- The answer of a search is right: an area is found if the range is not empty and meets one; it is
an area that the range meets, and the lowest of them if asked for; and otherwise the index is that
of the last area that starts below the end of the range, or -1. -/
structure Answers (v : List VmArea) (start stop : ℕ) (first : Bool) (r : Bool × ℤ) : Prop where
  found_iff : r.1 = true ↔ start ≠ stop ∧ ∃ a ∈ v, Overlaps start stop a
  found : r.1 = true → ∃ i a, r.2 = (i : ℕ) ∧ v[i]? = some a ∧ Overlaps start stop a
  lowest : r.1 = true → first = true → ∀ (j : ℕ) a, v[j]? = some a → Overlaps start stop a → r.2 ≤ j
  ge_neg_one : r.1 = false → -1 ≤ r.2
  lt_length : r.1 = false → r.2 < v.length
  below : r.1 = false → ∀ (j : ℕ) a, v[j]? = some a → (StartsBelow stop a ↔ (j : ℤ) ≤ r.2)

/-- The areas next to an address that no area covers. -/
structure Nearest (v : List VmArea) (pc : ℕ) (r : PrevNext) : Prop where
  below : (∃ a ∈ v, a.stop ≤ pc ∧ (∀ b ∈ v, b.stop ≤ pc → b.stop ≤ a.stop) ∧
      r.prevStart = a.start ∧ r.prevEnd = a.stop) ∨
    (∀ b ∈ v, ¬b.stop ≤ pc) ∧ r.prevStart = 0 ∧ r.prevEnd = 0
  above : (∃ a ∈ v, pc < a.start ∧ (∀ b ∈ v, pc < b.start → a.start ≤ b.start) ∧
      r.nextStart = a.start ∧ r.nextEnd = a.stop) ∨
    (∀ b ∈ v, ¬pc < b.start) ∧ r.nextStart = pointerMax ∧ r.nextEnd = pointerMax

/-- The address is in no area exactly if there is an answer, and the answer is its neighbours. -/
def LooksAround (v : List VmArea) (pc : ℕ) (r : Option PrevNext) : Prop :=
  (r = none ↔ ∃ a ∈ v, a.start ≤ pc ∧ pc < a.stop) ∧ ∀ q, r = some q → Nearest v pc q

/-! ## The loop -/

variable {v : List VmArea} {start stop : ℕ}

theorem Canonical.start_le (h : Canonical v) {i j : ℕ} {a b : VmArea} (hij : i ≤ j)
    (ha : v[i]? = some a) (hb : v[j]? = some b) : a.start ≤ b.start ∧ a.stop ≤ b.stop := by
  rcases Nat.eq_or_lt_of_le hij with rfl | hlt
  · obtain rfl : a = b := Option.some.inj (ha.symm.trans hb)
    exact ⟨le_rfl, le_rfl⟩
  · obtain ⟨hi, rfl⟩ := List.getElem?_eq_some_iff.1 ha
    obtain ⟨hj, rfl⟩ := List.getElem?_eq_some_iff.1 hb
    have hsep := List.pairwise_iff_getElem.1 h.sorted i j hi hj hlt
    have hfirst := h.nonempty _ (List.getElem_mem hi)
    have hsecond := h.nonempty _ (List.getElem_mem hj)
    omega

/-- The invariant of the loop. -/
structure Bracket (v : List VmArea) (start stop : ℕ) (min max : ℤ) : Prop where
  min_nonneg : 0 ≤ min
  le_max : min ≤ max + 1
  max_lt : max < v.length
  below : ∀ (j : ℕ) a, v[j]? = some a → (j : ℤ) < min →
    StartsBelow stop a ∧ (a.stop ≤ start ∨ start = stop)
  above : ∀ (j : ℕ) a, v[j]? = some a → max < (j : ℤ) → ¬StartsBelow stop a

theorem bracket_start (v : List VmArea) (start stop : ℕ) :
    Bracket v start stop 0 (v.length - 1) where
  min_nonneg := le_rfl
  le_max := by omega
  max_lt := by omega
  below j a _ hj := by omega
  above j a hja hj := by
    have hlt := (List.getElem?_eq_some_iff.1 hja).1
    omega

/-- The area at the next index exists. -/
theorem Bracket.exists_area (h : Bracket v start stop min max) (hle : min ≤ max)
    (hi : (min + max) / 2 = i) : ∃ a, v[i.toNat]? = some a ∧ min ≤ i ∧ i ≤ max := by
  have hmin := h.min_nonneg
  have hmax := h.max_lt
  exact ⟨_, List.getElem?_eq_getElem (by omega), by omega, by omega⟩

theorem Bracket.lower (h : Bracket v start stop min max) (hv : Canonical v)
    {a : VmArea} (ha : v[i.toNat]? = some a) (hmin : min ≤ i) (hmax : i ≤ max)
    (hstop : ¬StartsBelow stop a) : Bracket v start stop min (i - 1) where
  min_nonneg := h.min_nonneg
  le_max := by omega
  max_lt := by
    have := h.max_lt
    omega
  below := h.below
  above j b hb hj hbelow := by
    have hle := (hv.start_le (by omega) ha hb).1
    exact hstop (hbelow.imp_right fun hlt ↦ hle.trans_lt hlt)

theorem Bracket.raise (h : Bracket v start stop min max) (hv : Canonical v)
    {a : VmArea} (ha : v[i.toNat]? = some a) (hmin : min ≤ i) (hmax : i ≤ max)
    (hbelow : StartsBelow stop a) (hpast : a.stop ≤ start ∨ start = stop) :
    Bracket v start stop (i + 1) max where
  min_nonneg := by
    have := h.min_nonneg
    omega
  le_max := by omega
  max_lt := h.max_lt
  below j b hb hj := by
    have hle := hv.start_le (show j ≤ i.toNat by omega) hb ha
    exact ⟨hbelow.imp_right fun hlt ↦ hle.1.trans_lt hlt,
      hpast.imp_left fun hp ↦ hle.2.trans hp⟩
  above := h.above

/-- The bounds have met: no area was found. -/
theorem Bracket.answers {min max : ℤ} (h : Bracket v start stop min max) (hlt : max < min)
    (first : Bool) : Answers v start stop first (false, max) where
  found_iff := by
    refine iff_of_false (by simp) ?_
    rintro ⟨hne, a, ha, hmeets⟩
    obtain ⟨j, hj⟩ := List.mem_iff_getElem?.1 ha
    by_cases hjm : (j : ℤ) < min
    · rcases (h.below j a hj hjm).2 with hle | heq
      · exact absurd hmeets.1 (Nat.not_lt.2 hle)
      · exact hne heq
    · exact h.above j a hj (by omega) hmeets.2
  found hf := absurd hf (by simp)
  lowest hf := absurd hf (by simp)
  ge_neg_one _ := by
    have := h.min_nonneg
    have := h.le_max
    omega
  lt_length _ := h.max_lt
  below _ j a hj := by
    constructor
    · intro hbelow
      by_contra hgt
      exact h.above j a hj (by omega) hbelow
    · intro hle
      exact (h.below j a hj (lt_of_le_of_lt hle hlt)).1

/-- The loop returns, unless a sum overflows, and its answer is right. -/
theorem searchLoop_answers (hv : Canonical v) {min max : ℤ} (h : Bracket v start stop min max) :
    Returns (searchLoop v start stop min max) (v.length ≤ 2 ^ 30) (Answers v start stop false) := by
  induction hk : (max - min + 1).toNat using Nat.strong_induction_on generalizing min max with
  | _ k ih =>
    subst hk
    rw [searchLoop]
    split_ifs with hlt
    · exact Returns.pure (h.answers hlt false)
    have hle := not_lt.1 hlt
    split
    · next hmid =>
      refine ⟨fun r hr ↦ absurd hr (by simp), fun hlen ↦ ?_⟩
      rw [midpoint, ite_eq_right_iff] at hmid
      have hmax := h.max_lt
      exact absurd (hmid (by omega)) (by simp)
    · next i hmid =>
      obtain ⟨-, hi⟩ := midpoint_eq_some_iff.1 hmid
      obtain ⟨a, ha, hmin, hmax⟩ := h.exists_area hle hi
      rw [ha]
      dsimp only
      split_ifs with hstop hpast
      · have hnot : ¬StartsBelow stop a := by
          rintro (heq | hlt)
          · exact hstop.1 heq
          · omega
        exact ih _ (by omega) (h.lower hv ha hmin hmax hnot) rfl
      all_goals
        have hbelow : StartsBelow stop a := by
          rw [StartsBelow]
          omega
      · exact ih _ (by omega) (h.raise hv ha hmin hmax hbelow hpast) rfl
      · have hmeets : Overlaps start stop a := ⟨by omega, hbelow⟩
        refine Returns.pure ⟨?_, ?_, ?_, ?_, ?_, ?_⟩
        · exact iff_of_true rfl ⟨by omega, a, List.mem_of_getElem? ha, hmeets⟩
        · intro _
          have hnonneg := h.min_nonneg
          exact ⟨i.toNat, a, (Int.toNat_of_nonneg (by omega)).symm, ha, hmeets⟩
        all_goals simp

/-- Going back stops at the first area that ends behind `start`. -/
theorem firstMatch_spec (hv : Canonical v) {i : ℕ} {a : VmArea} (ha : v[i]? = some a)
    (hend : start < a.stop) : firstMatch v start i ≤ i ∧
      (∃ b, v[firstMatch v start i]? = some b ∧ start < b.stop) ∧
      ∀ j b, v[j]? = some b → start < b.stop → firstMatch v start i ≤ j := by
  induction i generalizing a with
  | zero => exact ⟨le_rfl, ⟨a, ha, hend⟩, fun j _ _ _ ↦ Nat.zero_le j⟩
  | succ i ih =>
    have hlt := (List.getElem?_eq_some_iff.1 ha).1
    have hprev : v[i]? = some v[i] := List.getElem?_eq_getElem (by omega)
    rw [firstMatch, hprev]
    dsimp only
    split_ifs with hback
    · obtain ⟨hle, hfirst, hall⟩ := ih hprev hback
      exact ⟨by omega, hfirst, hall⟩
    · refine ⟨le_rfl, ⟨a, ha, hend⟩, fun j b hb hbend ↦ ?_⟩
      by_contra hlt
      have := (hv.start_le (show j ≤ i by omega) hb hprev).2
      omega

theorem binarySearch_answers (hv : Canonical v) (start stop : ℕ) (first : Bool) :
    Returns (binarySearch v start stop first) (v.length ≤ 2 ^ 30) (Answers v start stop first) := by
  refine (searchLoop_answers hv (bracket_start v start stop)).map ?_
  rintro ⟨found, index⟩ h
  cases found with
  | false => exact ⟨h.found_iff, h.found, fun hf ↦ absurd hf (by simp), h.ge_neg_one, h.lt_length, h.below⟩
  | true =>
    cases first with
    | false => exact h
    | true =>
      obtain ⟨i, a, rfl, ha, hmeets⟩ := h.found rfl
      obtain ⟨hle, ⟨b, hb, hend⟩, hall⟩ := firstMatch_spec hv ha hmeets.1
      have hmeets' : Overlaps start stop b :=
        ⟨hend, hmeets.2.imp_right fun hlt ↦ ((hv.start_le hle hb ha).1).trans_lt hlt⟩
      refine ⟨h.found_iff, fun _ ↦ ⟨_, b, rfl, hb, hmeets'⟩, fun _ _ j c hc hcm ↦ ?_, ?_, ?_, ?_⟩
      · exact Int.ofNat_le.2 (hall j c hc hcm.1)
      all_goals simp

/-! ## The neighbours of an address -/

section

variable {pc : BitVec 64}

theorem toNat_succ (pc : BitVec 64) :
    (pc + 1#64).toNat = if pc.toNat = pointerMax then 0 else pc.toNat + 1 := by
  have hlt := pc.isLt
  rw [BitVec.toNat_add, pointerMax]
  split_ifs with htop
  · rw [htop]
    rfl
  · exact Nat.mod_eq_of_lt (by simp only [BitVec.toNat_ofNat]; omega)

/-- The areas that start below the end of the range of one address. -/
theorem startsBelow_succ_iff {a : VmArea} (ha : a.start < 2 ^ 64) :
    StartsBelow (pc + 1#64).toNat a ↔ a.start ≤ pc.toNat := by
  rw [StartsBelow, toNat_succ]
  split_ifs with htop
  · rw [htop, pointerMax]
    exact iff_of_true (.inl rfl) (by omega)
  · exact (or_iff_right id).trans Nat.lt_succ_iff

variable (hv : Canonical v) (hbound : ∀ a ∈ v, a.stop < 2 ^ 64)
include hv hbound

theorem Canonical.startsBelow_iff {a : VmArea} (ha : a ∈ v) :
    StartsBelow (pc + 1#64).toNat a ↔ a.start ≤ pc.toNat :=
  startsBelow_succ_iff ((hv.nonempty a ha).trans (hbound a ha))

variable {r : Bool × ℤ}

variable {first : Bool}

theorem Answers.covered_iff
    (h : Answers v pc.toNat (pc + 1#64).toNat first r) :
    r.1 = true ↔ ∃ a ∈ v, a.start ≤ pc.toNat ∧ pc.toNat < a.stop := by
  have hne : pc.toNat ≠ (pc + 1#64).toNat := by
    rw [toNat_succ, pointerMax]
    split_ifs <;> omega
  rw [h.found_iff, and_iff_right hne]
  refine exists_congr fun a ↦ and_congr_right fun ha ↦ ?_
  rw [Overlaps, hv.startsBelow_iff hbound ha, and_comm]

/-- The area at the index of a failed search is the nearest one below the address. -/
theorem Answers.nearest_below
    (h : Answers v pc.toNat (pc + 1#64).toNat first r) (hmiss : r.1 = false) (hr : r.2 ≠ -1) :
    ∃ a, v[r.2.toNat]? = some a ∧ a ∈ v ∧ a.stop ≤ pc.toNat ∧
      ∀ b ∈ v, b.stop ≤ pc.toNat → b.stop ≤ a.stop := by
  have hge := h.ge_neg_one hmiss
  have hlt := h.lt_length hmiss
  have hget : v[r.2.toNat]? = some v[r.2.toNat] := List.getElem?_eq_getElem (by omega)
  have hmem := List.mem_of_getElem? hget
  refine ⟨_, hget, hmem, ?_, fun b hb hend ↦ ?_⟩
  · have hstart := (h.below hmiss _ _ hget).2 (by omega)
    rw [hv.startsBelow_iff hbound hmem] at hstart
    by_contra hcover
    have hfound := (h.covered_iff hv hbound).2 ⟨_, hmem, hstart, Nat.lt_of_not_le hcover⟩
    rw [hmiss] at hfound
    exact absurd hfound (by simp)
  · obtain ⟨j, hj⟩ := List.mem_iff_getElem?.1 hb
    have hstart := (hv.startsBelow_iff hbound hb).2 ((hv.nonempty b hb).le.trans hend)
    have hle := (h.below hmiss j b hj).1 hstart
    exact (hv.start_le (by omega) hj hget).2

/-- The area after the index of a failed search is the nearest one above the address. -/
theorem Answers.nearest_above
    (h : Answers v pc.toNat (pc + 1#64).toNat first r) (hmiss : r.1 = false)
    (hr : ¬(v.length : ℤ) - 1 ≤ r.2) :
    ∃ a, v[(r.2 + 1).toNat]? = some a ∧ a ∈ v ∧ pc.toNat < a.start ∧
      ∀ b ∈ v, pc.toNat < b.start → a.start ≤ b.start := by
  have hge := h.ge_neg_one hmiss
  have hget : v[(r.2 + 1).toNat]? = some v[(r.2 + 1).toNat] := List.getElem?_eq_getElem (by omega)
  have hmem := List.mem_of_getElem? hget
  refine ⟨_, hget, hmem, ?_, fun b hb hstart ↦ ?_⟩
  · by_contra hle
    have hindex := (h.below hmiss _ _ hget).1
      ((hv.startsBelow_iff hbound hmem).2 (Nat.le_of_not_lt hle))
    omega
  · obtain ⟨j, hj⟩ := List.mem_iff_getElem?.1 hb
    have hgt : ¬(j : ℤ) ≤ r.2 := by
      rw [← h.below hmiss j b hj, hv.startsBelow_iff hbound hb]
      omega
    exact (hv.start_le (by omega) hget hj).1

theorem Answers.neighbours
    (h : Answers v pc.toNat (pc + 1#64).toNat first r) (hmiss : r.1 = false) :
    Returns (neighbours v r.2) True (Nearest v pc.toNat) := by
  have hnone : ∀ b ∈ v, ∃ j : ℕ, v[j]? = some b ∧ (b.start ≤ pc.toNat ↔ (j : ℤ) ≤ r.2) := by
    intro b hb
    obtain ⟨j, hj⟩ := List.mem_iff_getElem?.1 hb
    exact ⟨j, hj, (hv.startsBelow_iff hbound hb).symm.trans (h.below hmiss j b hj)⟩
  have hprev : Returns (prevBounds v r.2) True fun p ↦
      (∃ a ∈ v, a.stop ≤ pc.toNat ∧ (∀ b ∈ v, b.stop ≤ pc.toNat → b.stop ≤ a.stop) ∧
        p.1 = a.start ∧ p.2 = a.stop) ∨ (∀ b ∈ v, ¬b.stop ≤ pc.toNat) ∧ p.1 = 0 ∧ p.2 = 0 := by
    rw [prevBounds]
    split_ifs with hr
    · refine Returns.pure (.inr ⟨fun b hb hend ↦ ?_, rfl, rfl⟩)
      obtain ⟨j, -, hiff⟩ := hnone b hb
      have := hiff.1 ((hv.nonempty b hb).le.trans hend)
      omega
    · obtain ⟨a, hget, ha, hend, hall⟩ := h.nearest_below hv hbound hmiss hr
      rw [hget]
      exact Returns.pure (.inl ⟨a, ha, hend, hall, rfl, rfl⟩)
  have hnext : Returns (nextBounds v r.2) True fun p ↦
      (∃ a ∈ v, pc.toNat < a.start ∧ (∀ b ∈ v, pc.toNat < b.start → a.start ≤ b.start) ∧
        p.1 = a.start ∧ p.2 = a.stop) ∨
      (∀ b ∈ v, ¬pc.toNat < b.start) ∧ p.1 = pointerMax ∧ p.2 = pointerMax := by
    rw [nextBounds]
    split_ifs with hr
    · refine Returns.pure (.inr ⟨fun b hb hstart ↦ ?_, rfl, rfl⟩)
      obtain ⟨j, hj, hiff⟩ := hnone b hb
      have hlt := (List.getElem?_eq_some_iff.1 hj).1
      have := hiff.2 (by omega)
      omega
    · obtain ⟨a, hget, ha, hstart, hall⟩ := h.nearest_above hv hbound hmiss hr
      rw [hget]
      exact Returns.pure (.inl ⟨a, ha, hstart, hall, rfl, rfl⟩)
  exact hprev.bind fun p hp ↦ hnext.bind fun q hq ↦ Returns.pure ⟨hp, hq⟩

theorem vmvectorLookupPrevNext_looksAround (pc : BitVec 64) :
    Returns (vmvectorLookupPrevNext v pc) (v.length ≤ 2 ^ 30) (LooksAround v pc.toNat) := by
  refine (binarySearch_answers hv pc.toNat (pc + 1#64).toNat false).bind fun r hr ↦ ?_
  have hcovered := hr.covered_iff hv hbound
  split_ifs with hfound
  · exact Returns.pure ⟨iff_of_true rfl (hcovered.1 hfound), fun q hq ↦ absurd hq (by simp)⟩
  · have hmiss : r.1 = false := Bool.eq_false_iff.2 hfound
    refine (((hr.neighbours hv hbound hmiss).mono (fun _ ↦ trivial) fun _ ↦ id)).map fun q hq ↦ ?_
    refine ⟨iff_of_false (by simp) fun hex ↦ hfound (hcovered.2 hex), fun q' hq' ↦ ?_⟩
    rwa [← Option.some.inj hq']

end

/-! ## Large vectors -/

/-- A search above all areas goes up to the last index, where the sum is twice that. -/
theorem searchLoop_overflow (hlen : 2 ^ 30 < v.length) (hpast : ∀ a ∈ v, a.stop ≤ start) {min : ℤ}
    (hmin : 0 ≤ min) (hle : min ≤ v.length - 1) :
    searchLoop v start 0 min (v.length - 1) = none := by
  induction hk : ((v.length : ℤ) - 1 - min).toNat using Nat.strong_induction_on
    generalizing min with
  | _ k ih =>
    subst hk
    rw [searchLoop, dif_neg (by omega)]
    split
    · rfl
    · next i hi =>
      obtain ⟨hsum, hi⟩ := midpoint_eq_some_iff.1 hi
      have hget : v[i.toNat]? = some v[i.toNat] := List.getElem?_eq_getElem (by omega)
      rw [hget]
      dsimp only
      rw [if_neg (by simp), if_pos (.inl (hpast _ (List.mem_of_getElem? hget)))]
      exact ih _ (by omega) (by omega) (by omega) rfl

theorem binarySearch_overflow (hlen : 2 ^ 30 < v.length) (hpast : ∀ a ∈ v, a.stop ≤ start)
    (first : Bool) : binarySearch v start 0 first = none := by
  rw [binarySearch, searchLoop_overflow hlen hpast le_rfl (by omega), Option.map_none]

/-- Lookups in a vector are right: searches for all ranges, and for the neighbours of all
addresses. -/
structure LooksUp (v : List VmArea) : Prop where
  search : ∀ (start stop : BitVec 64) (first : Bool), start ≤ stop ∨ stop = 0#64 →
    ∃ r, binarySearch v start.toNat stop.toNat first = some r ∧
      Answers v start.toNat stop.toNat first r
  prevNext : ∀ pc : BitVec 64, ∃ r, vmvectorLookupPrevNext v pc = some r ∧
    LooksAround v pc.toNat r

/-- Lookups are right exactly in vectors of at most `2 ^ 30` areas. -/
theorem looksUp_iff (hv : Canonical v) (hbound : ∀ a ∈ v, a.stop < 2 ^ 64) :
    LooksUp v ↔ v.length ≤ 2 ^ 30 := by
  constructor
  · intro h
    by_contra hlen
    obtain ⟨r, hr, -⟩ := h.search (BitVec.allOnes 64) 0#64 false (.inr rfl)
    have hpast : ∀ a ∈ v, a.stop ≤ (BitVec.allOnes 64).toNat := by
      intro a ha
      rw [BitVec.toNat_allOnes]
      exact Nat.le_sub_one_of_lt (hbound a ha)
    rw [BitVec.toNat_zero, binarySearch_overflow (Nat.lt_of_not_le hlen) hpast] at hr
    exact absurd hr (by simp)
  · intro hlen
    constructor
    · intro start stop first _
      have hsearch := binarySearch_answers hv start.toNat stop.toNat first
      obtain ⟨r, hr⟩ := hsearch.ends hlen
      exact ⟨r, hr, hsearch.post r hr⟩
    · intro pc
      have hlookup := vmvectorLookupPrevNext_looksAround hv hbound pc
      obtain ⟨r, hr⟩ := hlookup.ends hlen
      exact ⟨r, hr, hlookup.post r hr⟩

/-- Areas of one byte at the first `n` even addresses. -/
def evenBytes (n : ℕ) : List VmArea :=
  (List.range n).map fun i ↦ ⟨2 * i, 2 * i + 1, ⟨0#32, 0#32⟩⟩

theorem canonical_evenBytes (n : ℕ) : Canonical (evenBytes n) where
  nonempty a ha := by
    obtain ⟨i, -, rfl⟩ := List.mem_map.1 ha
    exact Nat.lt_succ_self _
  sorted := by
    refine List.pairwise_map.2 (List.pairwise_lt_range.imp fun {i j} hij ↦ ?_)
    show 2 * i + 1 ≤ 2 * j
    omega

theorem stop_lt_of_mem_evenBytes {n : ℕ} (hn : n < 2 ^ 63) : ∀ a ∈ evenBytes n, a.stop < 2 ^ 64 := by
  intro a ha
  obtain ⟨i, hi, rfl⟩ := List.mem_map.1 ha
  have hlt := List.mem_range.1 hi
  show 2 * i + 1 < 2 ^ 64
  omega

/-- In a vector of `2 ^ 30 + 1` areas the search for the last address overflows. -/
theorem not_looksUp_evenBytes :
    Canonical (evenBytes (2 ^ 30 + 1)) ∧ (∀ a ∈ evenBytes (2 ^ 30 + 1), a.stop < 2 ^ 64) ∧
      binarySearch (evenBytes (2 ^ 30 + 1)) (BitVec.allOnes 64).toNat 0 false = none ∧
      ¬LooksUp (evenBytes (2 ^ 30 + 1)) := by
  have hbound := stop_lt_of_mem_evenBytes (n := 2 ^ 30 + 1) (by omega)
  have hnone : binarySearch (evenBytes (2 ^ 30 + 1)) (BitVec.allOnes 64).toNat 0 false = none := by
    refine binarySearch_overflow ?_ (fun a ha ↦ ?_) false
    · rw [evenBytes, List.length_map, List.length_range]
      omega
    · rw [BitVec.toNat_allOnes]
      exact Nat.le_sub_one_of_lt (hbound a ha)
  refine ⟨canonical_evenBytes _, hbound, hnone, fun h ↦ ?_⟩
  obtain ⟨r, hr, -⟩ := h.search (BitVec.allOnes 64) 0#64 false (.inr rfl)
  rw [BitVec.toNat_zero, hnone] at hr
  exact absurd hr (by simp)

theorem looksUp_evenBytes : LooksUp (evenBytes 3) :=
  (looksUp_iff (canonical_evenBytes 3) (stop_lt_of_mem_evenBytes (by decide))).2 (by decide)

/-! ## Overlaps after a run -/

/-- `vmvector_overlap`, with `vm_area_overlap` in it. -/
def vmvectorOverlap (v : List VmArea) (start stop : ℕ) : Option Bool :=
  if v.isEmpty then some false else (binarySearch v start stop false).map Prod.fst

/-- After every run of additions and removals a range overlaps an area exactly if it has a covered
address, and this is what its removal reports. -/
theorem Run.overlaps {never : Bool} (h : Run never v) (hlt : start < stop) :
    Returns (vmvectorOverlap v start stop) (v.length ≤ 2 ^ 30) fun overlap ↦
      (overlap = true ↔ ∃ x, Covers v x ∧ start ≤ x ∧ x < stop) ∧
        overlap = (removeVmArea never v start stop).2 := by
  have hmet := (removeVmArea_removes never h.canonical hlt.le).2
  rw [← h.canonical.meets_iff hlt, ← hmet]
  simp only [← Bool.eq_iff_iff, and_self]
  rw [vmvectorOverlap]
  split_ifs with hempty
  · refine Returns.pure (Bool.eq_iff_iff.2 (.trans ?_ hmet.symm))
    simp [Meets, List.isEmpty_iff.1 hempty]
  · refine (binarySearch_answers h.canonical start stop false).map fun r hr ↦ ?_
    rw [Bool.eq_iff_iff, hmet, hr.found_iff, and_iff_right hlt.ne, Meets]
    simp only [Overlaps, StartsBelow, Nat.ne_zero_of_lt hlt, false_or]

theorem overlaps_added : ∃ b, vmvectorOverlap (addVmArea false ⟨0, 0⟩ [] 0 8) 4 9 = some b :=
  ((Run.empty.add ⟨0, 0⟩ (by decide)).overlaps (by decide)).ends
    (by simp [addVmArea, addFrom, addFinish])

end VmArea

end DrAvx
