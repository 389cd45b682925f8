import Mathlib.Data.Nat.Notation

/-!
# Lanes of a bit vector

A bit vector of `n` bits read as a sequence of lanes of `w` bits each, lane `0` being the least
significant one.  `lane` takes one out, `ofLanes` builds a vector from its first `k` lanes, and
`lane_ofLanes` says that these fit together.
-/

set_option autoImplicit false

namespace Bits

variable {n w : ℕ}

/-- Lane `j` of a vector. -/
def lane (w j : ℕ) (v : BitVec n) : BitVec w := v.extractLsb' (w * j) w

/-- The vector whose lanes below `k` are given by `g` and whose other bits are zero. -/
def ofLanes (n : ℕ) (g : ℕ → BitVec w) : ℕ → BitVec n
  | 0 => 0
  | k + 1 => ofLanes n g k ||| ((g k).setWidth n <<< (w * k))

theorem getLsbD_lane (j i : ℕ) (v : BitVec n) :
    (lane w j v).getLsbD i = (decide (i < w) && v.getLsbD (w * j + i)) := by
  simp [lane]

theorem getLsbD_ofLanes (hw : 0 < w) (g : ℕ → BitVec w) {i k : ℕ} (hi : i < n) :
    (ofLanes n g k).getLsbD i = (decide (i < w * k) && (g (i / w)).getLsbD (i % w)) := by
  induction k with
  | zero => simp [ofLanes]
  | succ k ih =>
    rw [ofLanes, BitVec.getLsbD_or, ih, BitVec.getLsbD_shiftLeft, BitVec.getLsbD_setWidth]
    have hmul : w * (k + 1) = w * k + w := Nat.mul_succ w k
    -- bit `i` lies below, inside or above lane `k`
    rcases Nat.lt_or_ge i (w * k) with hlt | hge
    · simp [hlt, hi, show i < w * (k + 1) by omega]
    · rcases Nat.lt_or_ge i (w * (k + 1)) with hin | hout
      · have hdiv : i / w = k := by
          rw [Nat.div_eq_iff hw]
          constructor <;> rw [Nat.mul_comm] <;> omega
        have hmod : i % w = i - w * k := by
          have := Nat.div_add_mod i w
          rw [hdiv] at this
          omega
        simp [hdiv, hmod, hi, hin, Nat.not_lt.mpr hge, show i - w * k < n by omega]
      · have hout' : w ≤ i - w * k := by omega
        simp [BitVec.getLsbD_of_ge (g k) _ hout', Nat.not_lt.mpr hge, Nat.not_lt.mpr hout]

/-- The lanes of a vector built from lanes. -/
theorem lane_ofLanes (g : ℕ → BitVec w) {j k : ℕ} (hj : j < k) (hk : w * k ≤ n) :
    lane w j (ofLanes n g k) = g j := by
  refine BitVec.eq_of_getLsbD_eq fun i hi ↦ ?_
  have hw : 0 < w := Nat.lt_of_le_of_lt (Nat.zero_le i) hi
  have hle : w * j + w ≤ w * k := Nat.mul_succ w j ▸ Nat.mul_le_mul_left w hj
  rw [getLsbD_lane, getLsbD_ofLanes hw g (by omega), Nat.mul_add_div hw, Nat.div_eq_of_lt hi,
    Nat.mul_add_mod, Nat.mod_eq_of_lt hi]
  simp [hi, show w * j + i < w * k by omega]

/-- The lanes of a vector of `n` bits, combined two by two. -/
def zipLanes (w : ℕ) (f : BitVec w → BitVec w → BitVec w) (a b : BitVec n) : BitVec n :=
  ofLanes n (fun j ↦ f (lane w j a) (lane w j b)) (n / w)

theorem lane_zipLanes (f : BitVec w → BitVec w → BitVec w) (a b : BitVec n) {j : ℕ}
    (hj : j < n / w) : lane w j (zipLanes w f a b) = f (lane w j a) (lane w j b) :=
  lane_ofLanes _ hj (Nat.mul_div_le n w)

/-- A function of every lane. -/
def mapLanes (w : ℕ) (f : BitVec w → BitVec w) (a : BitVec n) : BitVec n :=
  ofLanes n (fun j ↦ f (lane w j a)) (n / w)

theorem lane_mapLanes (f : BitVec w → BitVec w) (a : BitVec n) {j : ℕ} (hj : j < n / w) :
    lane w j (mapLanes w f a) = f (lane w j a) :=
  lane_ofLanes _ hj (Nat.mul_div_le n w)

/-- The same lane in every place. -/
def fill (n : ℕ) (x : BitVec w) : BitVec n := ofLanes n (fun _ ↦ x) (n / w)

theorem lane_fill (x : BitVec w) {j : ℕ} (hj : j < n / w) : lane w j (fill n x) = x :=
  lane_ofLanes _ hj (Nat.mul_div_le n w)

theorem lane_or (j : ℕ) (a b : BitVec n) : lane w j (a ||| b) = lane w j a ||| lane w j b := by
  refine BitVec.eq_of_getLsbD_eq fun i hi ↦ ?_
  rw [BitVec.getLsbD_or, getLsbD_lane, getLsbD_lane, getLsbD_lane, BitVec.getLsbD_or,
    Bool.and_or_distrib_left]

theorem lane_and (j : ℕ) (a b : BitVec n) : lane w j (a &&& b) = lane w j a &&& lane w j b := by
  refine BitVec.eq_of_getLsbD_eq fun i hi ↦ ?_
  rw [BitVec.getLsbD_and, getLsbD_lane, getLsbD_lane, getLsbD_lane, BitVec.getLsbD_and]
  simp [hi]

theorem lane_not {j : ℕ} (a : BitVec n) (hj : w * j + w ≤ n) :
    lane w j (~~~a) = ~~~(lane w j a) := by
  refine BitVec.eq_of_getLsbD_eq fun i hi ↦ ?_
  rw [BitVec.getLsbD_not, getLsbD_lane, getLsbD_lane, BitVec.getLsbD_not]
  simp [hi, show w * j + i < n by omega]

/-- The index of a lane that lies within the vector. -/
theorem lt_div_of_le (hw : 0 < w) {j : ℕ} (h : w * j + w ≤ n) : j < n / w := by
  rw [Nat.lt_iff_add_one_le, Nat.le_div_iff_mul_le hw, Nat.mul_comm, Nat.mul_succ]
  exact h

/-! ## Two halves -/

theorem lane_append_lo {m j : ℕ} (h : BitVec m) (l : BitVec n) (hj : w * j + w ≤ n) :
    lane w j (h ++ l) = lane w j l := by
  refine BitVec.eq_of_getLsbD_eq fun i hi ↦ ?_
  rw [getLsbD_lane, getLsbD_lane, BitVec.getLsbD_append, if_pos (by omega)]

theorem lane_append_hi {m j k : ℕ} (h : BitVec m) (l : BitVec n) (hn : w * k = n) :
    lane w (k + j) (h ++ l) = lane w j h := by
  refine BitVec.eq_of_getLsbD_eq fun i hi ↦ ?_
  have hidx : w * (k + j) + i = n + (w * j + i) := by rw [Nat.mul_add, hn, Nat.add_assoc]
  rw [getLsbD_lane, getLsbD_lane, hidx, BitVec.getLsbD_append, if_neg (by omega),
    Nat.add_sub_cancel_left]

/-- A vector is determined by its lanes. -/
theorem eq_of_lane_eq {k : ℕ} (hw : 0 < w) (hn : n ≤ w * k) {a b : BitVec n}
    (h : ∀ j < k, lane w j a = lane w j b) : a = b := by
  refine BitVec.eq_of_getLsbD_eq fun i hi ↦ ?_
  have hlane := congrArg (·.getLsbD (i % w)) (h (i / w) (Nat.div_lt_of_lt_mul (by omega)))
  simpa only [getLsbD_lane, Nat.mod_lt i hw, Nat.div_add_mod, decide_true, Bool.true_and] using hlane

/-! ## The low lanes -/

theorem lane_setWidth {m j : ℕ} (v : BitVec n) (hj : w * j + w ≤ m) :
    lane w j (v.setWidth m) = lane w j v := by
  refine BitVec.eq_of_getLsbD_eq fun i hi ↦ ?_
  rw [getLsbD_lane, getLsbD_lane, BitVec.getLsbD_setWidth]
  simp [show w * j + i < m by omega]

/-- Fewer lanes. -/
theorem setWidth_ofLanes (hw : 0 < w) (g : ℕ → BitVec w) {j k : ℕ} (hjk : j ≤ k) (hj : w * j ≤ n) :
    (ofLanes n g k).setWidth (w * j) = ofLanes (w * j) g j := by
  refine BitVec.eq_of_getLsbD_eq fun i hi ↦ ?_
  have hle : w * j ≤ w * k := Nat.mul_le_mul_left w hjk
  rw [BitVec.getLsbD_setWidth, getLsbD_ofLanes hw g (by omega), getLsbD_ofLanes hw g hi]
  simp [hi, show i < w * k by omega]

theorem setWidth_zipLanes (hw : 0 < w) (f : BitVec w → BitVec w → BitVec w) (a b : BitVec n) {j : ℕ}
    (hj : w * j ≤ n) : (zipLanes w f a b).setWidth (w * j) =
      zipLanes w f (a.setWidth (w * j)) (b.setWidth (w * j)) := by
  have hdiv : w * j / w = j := Nat.mul_div_cancel_left j hw
  rw [zipLanes, setWidth_ofLanes hw _ (by rw [← hdiv]; exact Nat.div_le_div_right hj) hj, zipLanes,
    hdiv]
  refine eq_of_lane_eq hw (Nat.le_refl _) fun i hi ↦ ?_
  have hle : w * i + w ≤ w * j := Nat.mul_succ w i ▸ Nat.mul_le_mul_left w hi
  rw [lane_ofLanes _ hi (Nat.le_refl _), lane_ofLanes _ hi (Nat.le_refl _), lane_setWidth a hle,
    lane_setWidth b hle]

/-! ## Operations on two halves -/

/-- Lane-wise operations act on the two halves separately. -/
theorem zipLanes_append {m : ℕ} (hw : 0 < w) (f : BitVec w → BitVec w → BitVec w)
    (h h' : BitVec m) (l l' : BitVec n) (hn : w ∣ n) (hm : w ∣ m) :
    zipLanes w f (h ++ l) (h' ++ l') = zipLanes w f h h' ++ zipLanes w f l l' := by
  obtain ⟨k, rfl⟩ := hn
  obtain ⟨i, rfl⟩ := hm
  have hdiv (k : ℕ) : w * k / w = k := Nat.mul_div_cancel_left k hw
  have hmn : w * i + w * k = w * (i + k) := (Nat.mul_add w i k).symm
  refine eq_of_lane_eq hw (Nat.le_of_eq hmn) fun j hj ↦ ?_
  rw [lane_zipLanes _ _ _ (by rwa [hmn, hdiv])]
  rcases Nat.lt_or_ge j k with hlt | hge
  · have hle : w * j + w ≤ w * k := Nat.mul_succ w j ▸ Nat.mul_le_mul_left w hlt
    rw [lane_append_lo _ _ hle, lane_append_lo _ _ hle, lane_append_lo _ _ hle,
      lane_zipLanes _ _ _ (by rwa [hdiv])]
  · obtain ⟨j, rfl⟩ := Nat.exists_eq_add_of_le hge
    rw [lane_append_hi _ _ rfl, lane_append_hi _ _ rfl, lane_append_hi _ _ rfl,
      lane_zipLanes _ _ _ (by rw [hdiv]; omega)]

end Bits
