import DrAvx.Machine.Similar

/-!
# Small numbers in registers

A chain counts in a part of a general purpose register and compares the count, or a mask it has
loaded, with a constant.  The lemmas here say what is in the register after a write to a part of it,
and what the flags say after a comparison.
-/

set_option autoImplicit false

namespace DrAvx

/-! ## The low bytes of a value -/

theorem low_low (n : ℕ) (v : Val) : low n (low n v) = low n v := by
  refine low_eq_iff.mpr fun j hj ↦ ?_
  simp [getLsbD_low, hj]

theorem setWidth_eq_of_low_eq {n : ℕ} {v v' : Val} (h : low n v = low n v') :
    v.setWidth (8 * n) = v'.setWidth (8 * n) := by
  apply BitVec.eq_of_getLsbD_eq
  intro j hj
  simpa [hj] using low_eq_iff.mp h j hj

theorem low_sub_eq_zero_iff {n : ℕ} (hn : n ≤ 32) (a b : Val) :
    low n (a - b) = 0 ↔ low n a = low n b := by
  have hzero : low n 0 = 0 := by simp [low]
  constructor
  · intro h
    have hsub : (a - b).setWidth (8 * n) = (0 : Val).setWidth (8 * n) :=
      setWidth_eq_of_low_eq (h.trans hzero.symm)
    rw [low, low, ← BitVec.sub_add_cancel a b, BitVec.setWidth_add _ _ (by omega), hsub]
    simp
  · intro h
    have hsub : (a - b).setWidth (8 * n) = (0 : Val).setWidth (8 * n) := by
      rw [BitVec.sub_eq_add_neg, BitVec.setWidth_add _ _ (by omega), setWidth_eq_of_low_eq h,
        ← BitVec.setWidth_add _ _ (by omega), ← BitVec.sub_eq_add_neg, BitVec.sub_self]
      rfl
    rw [low, hsub, ← low, hzero]

theorem toNat_low {n : ℕ} (hn : n ≤ 32) (v : Val) : (low n v).toNat = v.toNat % 2 ^ (8 * n) := by
  have hle : 2 ^ (8 * n) ≤ 2 ^ 256 := Nat.pow_le_pow_right (by omega) (by omega)
  have hlt : v.toNat % 2 ^ (8 * n) < 2 ^ (8 * n) := Nat.mod_lt _ (Nat.two_pow_pos _)
  rw [low, BitVec.toNat_setWidth, BitVec.toNat_setWidth]
  exact Nat.mod_eq_of_lt (Nat.lt_of_lt_of_le hlt hle)

theorem setWidth_low_8 (v : Val) : (low 8 v).setWidth 64 = v.setWidth 64 := by
  simp [low]

theorem setWidth_sub_64 (a b : Val) : (a - b).setWidth 64 = a.setWidth 64 - b.setWidth 64 := by
  apply BitVec.eq_of_toNat_eq
  simp only [BitVec.toNat_setWidth, BitVec.toNat_sub]
  omega

theorem setWidth_ofInt_64 (v : ℤ) : (BitVec.ofInt 256 v).setWidth 64 = BitVec.ofInt 64 v := by
  apply BitVec.eq_of_toNat_eq
  simp only [BitVec.toNat_setWidth, BitVec.toNat_ofInt]
  omega

/-! ## Comparisons -/

/-- The zero flag after a comparison. -/
theorem subWithFlags_zf {n : ℕ} (hn : n ≤ 32) (a b : Val) :
    (subWithFlags n a b).2.zf = (low n a == low n b) := by
  have hz : (subWithFlags n a b).2.zf = (low n (low n (low n a - low n b)) == 0) := rfl
  rw [hz, low_low, Bool.eq_iff_iff, beq_iff_eq, beq_iff_eq, low_sub_eq_zero_iff hn, low_low, low_low]

/-- The condition `l` after a comparison of small numbers. -/
theorem holds_l_of_subWithFlags {n : ℕ} (hn : 0 < n) (hn' : n ≤ 32) {a b : Val}
    (hle : (low n a).toNat ≤ (low n b).toNat) (hb : (low n b).toNat < 2 ^ (8 * n - 1)) :
    Cond.holds (subWithFlags n a b).2 .l = decide ((low n a).toNat < (low n b).toNat) := by
  have hpow : 2 ^ (8 * n) = 2 ^ (8 * n - 1) + 2 ^ (8 * n - 1) := by
    rw [← Nat.two_mul, ← Nat.pow_succ']
    congr 1
    omega
  -- both are nonnegative, so there is no overflow
  have hsign (v : Val) (hv : (low n v).toNat < 2 ^ (8 * n - 1)) :
      (low n v).getLsbD (8 * n - 1) = false := Nat.testBit_lt_two_pow hv
  have hl : Cond.holds (subWithFlags n a b).2 .l =
      (low n (low n a - low n b)).getLsbD (8 * n - 1) := by
    have hof : (subWithFlags n a b).2.of = false := by
      have heq : (subWithFlags n a b).2.of =
          (((low n a).getLsbD (8 * n - 1) != (low n b).getLsbD (8 * n - 1)) && _) := rfl
      rw [heq, hsign a (by omega), hsign b hb]
      rfl
    have hsf : (subWithFlags n a b).2.sf = (low n (low n a - low n b)).getLsbD (8 * n - 1) := rfl
    rw [Cond.holds, hof, hsf, Bool.bne_false]
  rw [hl]
  by_cases hlt : (low n a).toNat < (low n b).toNat
  · have hdiff : (low n (low n a - low n b)).toNat =
        2 ^ (8 * n) - ((low n b).toNat - (low n a).toNat) := by
      obtain ⟨q, hq⟩ : 2 ^ (8 * n) ∣ 2 ^ 256 := Nat.pow_dvd_pow 2 (by omega)
      have hlt256 : 2 ^ 256 - (low n b).toNat + (low n a).toNat < 2 ^ 256 := by omega
      obtain ⟨q, rfl⟩ : ∃ p, q = p + 1 := Nat.exists_eq_succ_of_ne_zero fun h ↦ by simp [h] at hq
      rw [Nat.mul_succ] at hq
      rw [toNat_low hn', BitVec.toNat_sub, Nat.mod_eq_of_lt hlt256]
      have hsum : 2 ^ 256 - (low n b).toNat + (low n a).toNat =
          2 ^ (8 * n) * q + (2 ^ (8 * n) - ((low n b).toNat - (low n a).toNat)) := by omega
      rw [hsum, Nat.mul_add_mod]
      exact Nat.mod_eq_of_lt (by omega)
    rw [decide_eq_true hlt, BitVec.getLsbD]
    refine Nat.testBit_of_two_pow_le_and_two_pow_add_one_gt ?_ ?_
    · omega
    · omega
  · have heq : low n a = low n b := BitVec.eq_of_toNat_eq (by omega)
    rw [decide_eq_false hlt, heq, BitVec.sub_self]
    simp [low]

/-! ## Parts of registers -/

theorem GprSize.bytes_le (sz : GprSize) : sz.bytes ≤ 8 := by
  cases sz <;> decide

/-- What a general purpose register holds after a write to a part of it. -/
theorem State.low_writeGpr (sz : GprSize) (old : BitVec 64) (v : Val) :
    low sz.bytes ((writeGpr sz old v).setWidth 256) = low sz.bytes v := by
  refine low_eq_iff.mpr fun j hj ↦ ?_
  cases sz with
  | q =>
    simp only [writeGpr, GprSize.bytes, BitVec.getLsbD_setWidth] at hj ⊢
    have h : j < 256 := by omega
    simp [hj, h]
  | d =>
    simp only [writeGpr, GprSize.bytes, BitVec.getLsbD_setWidth, getLsbD_low] at hj ⊢
    have h : j < 256 ∧ j < 64 := by omega
    simp [hj, h]
  | w =>
    simp only [writeGpr, GprSize.bytes, BitVec.getLsbD_setWidth, getLsbD_merge] at hj ⊢
    have h : j < 256 ∧ j < 64 := by omega
    simp [hj, h]
  | b =>
    simp only [writeGpr, GprSize.bytes, BitVec.getLsbD_setWidth, getLsbD_merge] at hj ⊢
    have h : j < 256 ∧ j < 64 := by omega
    simp [hj, h]

end DrAvx
