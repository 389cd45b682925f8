import DrAvx.Machine.Similar

/-!
# Loads and stores

Memory is a function from addresses to bytes, and addresses wrap around.  A load is determined by the
bytes it covers; a store changes the bytes it covers and no others.

## What is here

* `getLsbD_load`, `lane_load`, `load_add`: the bits, the lanes and the parts of a load.
* `load_store_self`, `Outside.load_store`: a load after a store to the same or to another range.
* `outside_offsets`: ranges at different offsets from one address.
* `MemRef.flat`: operands that name one range.
-/

set_option autoImplicit false

namespace DrAvx

open Bits

variable {mem mem' : BitVec 64 → BitVec 8} {a b : BitVec 64} {m n : ℕ}

theorem getLsbD_load (mem : BitVec 64 → BitVec 8) (a : BitVec 64) (hn : n ≤ 32) (j : ℕ) :
    (load mem a n).getLsbD j =
      (decide (j < 8 * n) && (mem (a + BitVec.ofNat 64 (j / 8))).getLsbD (j % 8)) := by
  induction n generalizing a j with
  | zero => simp [load]
  | succ n ih =>
    rw [load, BitVec.getLsbD_or, BitVec.getLsbD_setWidth, BitVec.getLsbD_shiftLeft,
      ih (a + 1) (by omega)]
    -- the first byte comes from this address, the others from the load behind it
    rcases Nat.lt_or_ge j 8 with hj | hj
    · have hdiv : j / 8 = 0 := by omega
      have hmod : j % 8 = j := by omega
      simp [hj, hdiv, hmod, show j < 256 by omega, show j < 8 * (n + 1) by omega]
    · have haddr : a + 1 + BitVec.ofNat 64 ((j - 8) / 8) = a + BitVec.ofNat 64 (j / 8) := by
        rw [show j / 8 = 1 + (j - 8) / 8 by omega, BitVec.ofNat_add, BitVec.add_assoc]
        rfl
      have hmod : (j - 8) % 8 = j % 8 := by omega
      rw [haddr, hmod, BitVec.getLsbD_of_ge _ _ hj]
      by_cases hlt : j < 8 * (n + 1)
      · simp [hlt, show ¬j < 8 by omega, show j < 256 by omega, show j - 8 < 8 * n by omega]
      · simp [hlt, show ¬j - 8 < 8 * n by omega]

/-- A load is determined by the bytes it covers. -/
theorem load_congr (h : ∀ k < n, mem' (a + BitVec.ofNat 64 k) = mem (a + BitVec.ofNat 64 k)) :
    load mem' a n = load mem a n := by
  induction n generalizing a with
  | zero => rfl
  | succ n ih =>
    have hfirst : mem' a = mem a := by simpa using h 0 (by omega)
    rw [load, load, hfirst, ih fun k hk ↦ ?_]
    have hk' := h (1 + k) (by omega)
    rwa [BitVec.ofNat_add, ← BitVec.add_assoc] at hk'

/-- A lane of a load is a load of its own. -/
theorem lane_load (mem : BitVec 64 → BitVec 8) (a : BitVec 64) {j : ℕ} (hj : m * j + m ≤ n)
    (hn : n ≤ 32) :
    lane (8 * m) j (load mem a n) = (load mem (a + BitVec.ofNat 64 (m * j)) m).setWidth (8 * m) := by
  refine BitVec.eq_of_getLsbD_eq fun i hi ↦ ?_
  rw [getLsbD_lane, BitVec.getLsbD_setWidth, getLsbD_load _ _ hn, getLsbD_load _ _ (by omega),
    Nat.mul_assoc, Nat.mul_add_div (by decide), Nat.mul_add_mod, BitVec.add_assoc, ← BitVec.ofNat_add]
  simp [hi, show 8 * (m * j) + i < 8 * n by omega]

theorem low_load (mem : BitVec 64 → BitVec 8) (a : BitVec 64) (hn : n ≤ 32) :
    low n (load mem a n) = load mem a n := by
  refine BitVec.eq_of_getLsbD_eq fun i hi ↦ ?_
  rw [getLsbD_low, getLsbD_load _ _ hn]
  by_cases h : i < 8 * n <;> simp [h]

/-! ## Stores -/

theorem store_apply (mem : BitVec 64 → BitVec 8) (a : BitVec 64) (v : Val) {k : ℕ} (hk : k < n)
    (hn : n ≤ 2 ^ 64) : store mem a n v (a + BitVec.ofNat 64 k) = lane 8 k v := by
  have hoff : (a + BitVec.ofNat 64 k - a).toNat = k := by
    rw [BitVec.add_comm, BitVec.add_sub_cancel, BitVec.toNat_ofNat, Nat.mod_eq_of_lt (by omega)]
  rw [store, hoff, if_pos hk]

theorem store_apply_of_ne (mem : BitVec 64 → BitVec 8) (v : Val)
    (h : ∀ k < n, b ≠ a + BitVec.ofNat 64 k) : store mem a n v b = mem b := by
  rw [store, if_neg fun hlt ↦ h _ hlt ?_]
  rw [BitVec.ofNat_toNat, BitVec.setWidth_eq, BitVec.add_comm, BitVec.sub_add_cancel]

/-- A load after a store to the same place. -/
theorem load_store_self (mem : BitVec 64 → BitVec 8) (a : BitVec 64) (v : Val) (hn : n ≤ 32) :
    load (store mem a n v) a n = low n v := by
  refine BitVec.eq_of_getLsbD_eq fun j hj ↦ ?_
  rw [getLsbD_load _ _ hn, getLsbD_low]
  by_cases h : j < 8 * n
  · rw [store_apply mem a v (k := j / 8) (by omega) (by omega), getLsbD_lane, Nat.div_add_mod]
    simp [h, Nat.mod_lt]
  · simp [h]

/-- The `m` bytes at `b` are not among the `n` bytes at `a`. -/
def Outside (a : BitVec 64) (n : ℕ) (b : BitVec 64) (m : ℕ) : Prop :=
  ∀ k < m, ∀ l < n, b + BitVec.ofNat 64 k ≠ a + BitVec.ofNat 64 l

/-- A load after a store to another place. -/
theorem Outside.load_store (h : Outside a n b m) (mem : BitVec 64 → BitVec 8) (v : Val) :
    load (store mem a n v) b m = load mem b m :=
  load_congr fun k hk ↦ store_apply_of_ne mem v (h k hk)

theorem add_ofNat_inj (base : BitVec 64) {k l : ℕ} (hk : k < 2 ^ 64) (hl : l < 2 ^ 64)
    (h : base + BitVec.ofNat 64 k = base + BitVec.ofNat 64 l) : k = l := by
  have heq := congrArg BitVec.toNat ((BitVec.add_right_inj base).mp h)
  rwa [BitVec.toNat_ofNat, BitVec.toNat_ofNat, Nat.mod_eq_of_lt hk, Nat.mod_eq_of_lt hl] at heq

/-- Two ranges at different offsets from one address. -/
theorem outside_offsets (base : BitVec 64) {k l : ℕ} (h : l + m ≤ k ∨ k + n ≤ l)
    (hk : k + n ≤ 2 ^ 64) (hl : l + m ≤ 2 ^ 64) :
    Outside (base + BitVec.ofNat 64 k) n (base + BitVec.ofNat 64 l) m := by
  intro i hi j hj heq
  rw [BitVec.add_assoc, BitVec.add_assoc, ← BitVec.ofNat_add, ← BitVec.ofNat_add] at heq
  have := add_ofNat_inj base (by omega) (by omega) heq
  omega

/-! ## Memory operands -/

/-- The operand names one range, as it has no vector of indices. -/
def MemRef.flat : MemRef → Bool
  | baseDisp _ _ (.vec _ _) _ _ => false
  | _ => true

theorem State.read_mem {r : MemRef} (hr : r.flat = true) (s : State) (o : Origin) (k n : ℕ) :
    s.read k (.mem o r n) = load s.mem (s.ea r) n := by
  rcases r with ⟨_, _, _ | _ | _, _, _⟩ | _ | _ <;> first | rfl | cases hr

end DrAvx
