import DrAvx.Emulation.Pattern
import DrAvx.Machine.Compare

/-!
# Writing a register

An emulated register is used at three widths.  Whatever the width, its value is made up of a low
half, kept in a register or in a slot, and a high half, always kept in a slot, of which the narrower
widths see a part of the first only.  A generator is right about an instruction if the code it emits
leaves the result in the destination, and the other registers as they were.

## What is here

* `State.vec`, `VecWidth.assemble`: the emulated registers at all widths, and their halves.
* `VecWidth.assemble_mapLanes`: what is done to every lane of the halves is done to every lane.
* `Gen.Writes`: what it means that a generator is right.
* `Gen.Writes.writes_iff`: code that writes one result writes another only if they are the same.
-/

set_option autoImplicit false

namespace DrAvx

open Straight Bits

/-! ## Emulated registers of all widths -/

/-- The emulated value of a vector register of a width. -/
def State.vec (s : State) (w : VecWidth) (r : VReg) : BitVec (8 * w.bytes) := (s.zmm r).setWidth _

/-- Where the low half of an emulated register is kept. -/
def homeOf (r : VReg) : Loc VReg := if r.high then .lo r else .ymm r

theorem State.get_homeOf (s : State) (r : VReg) : s.get (homeOf r) = s.zmmLo r := by
  rw [homeOf, zmmLo]
  split <;> rfl

namespace VecWidth

/-- The number of bytes of a register that are in its low half. -/
def lowBytes (w : VecWidth) : ℕ := min w.bytes 32

/-- The value made up of a low and a high half. -/
def assemble (l h : Val) : (w : VecWidth) → BitVec (8 * w.bytes)
  | xmm => l.setWidth 128
  | ymm => l
  | zmm => h ++ l

theorem assemble_eq_iff {w : VecWidth} {l h l' h' : Val} : w.assemble l h = w.assemble l' h' ↔
    low w.lowBytes l = low w.lowBytes l' ∧ (w = zmm → h = h') := by
  cases w with
  | xmm =>
    constructor
    · intro heq
      exact ⟨congrArg (·.setWidth 256) heq, nofun⟩
    · rintro ⟨heq, -⟩
      exact setWidth_eq_of_low_eq (n := 16) heq
  | ymm =>
    constructor
    · intro heq
      exact ⟨congrArg (low 32) heq, nofun⟩
    · rintro ⟨heq, -⟩
      exact (low_32 l).symm.trans (heq.trans (low_32 l'))
  | zmm =>
    constructor
    · intro heq
      have hh := congrArg (BitVec.extractLsb' 256 256) (show h ++ l = h' ++ l' from heq)
      have hl := congrArg (BitVec.setWidth 256) (show h ++ l = h' ++ l' from heq)
      rw [BitVec.extractLsb'_append_eq_left, BitVec.extractLsb'_append_eq_left] at hh
      rw [BitVec.setWidth_append_eq_right, BitVec.setWidth_append_eq_right] at hl
      exact ⟨congrArg (low 32) hl, fun _ ↦ hh⟩
    · rintro ⟨heq, hh⟩
      have hl : l = l' := (low_32 l).symm.trans (heq.trans (low_32 l'))
      rw [hl, hh rfl]

end VecWidth

theorem State.vec_eq (s : State) (w : VecWidth) (r : VReg) :
    s.vec w r = w.assemble (s.get (homeOf r)) (s.hi r) := by
  rw [get_homeOf, vec, zmm]
  cases w with
  | xmm => exact BitVec.setWidth_append.trans (dif_pos (by decide))
  | ymm => exact BitVec.setWidth_append_eq_right
  | zmm => exact BitVec.setWidth_eq _

theorem State.vec_ymm (s : State) (r : VReg) : s.vec .ymm r = s.zmmLo r := by
  rw [vec_eq, get_homeOf]
  rfl

theorem State.vec_xmm (s : State) (r : VReg) : s.vec .xmm r = (s.zmmLo r).setWidth 128 := by
  rw [vec_eq, get_homeOf]
  rfl

/-! ## Lanes of the halves -/

theorem lane_low {k j n : ℕ} (v : Val) (h : k * j + k ≤ 8 * n) : lane k j (low n v) = lane k j v := by
  refine BitVec.eq_of_getLsbD_eq fun i hi ↦ ?_
  rw [getLsbD_lane, getLsbD_lane, getLsbD_low]
  simp [show k * j + i < 8 * n by omega]

namespace VecWidth

variable {k m : ℕ} (hk : 0 < k) (hm : k * m = 128)
include hk hm

/-- A lane of a value is a lane of one of its halves. -/
theorem lane_assemble (w : VecWidth) (l h : Val) {j : ℕ} (hj : k * j + k ≤ 8 * w.bytes) :
    lane k j (w.assemble l h) = if j < 2 * m then lane k j l else lane k (j - 2 * m) h := by
  have hm2 : k * (2 * m) = 256 := by rw [Nat.mul_left_comm, hm]
  have hlt_of_le (hle : k * j + k ≤ 256) : j < 2 * m := by
    refine Nat.lt_of_mul_lt_mul_left (a := k) ?_
    omega
  cases w with
  | xmm =>
    have hle : k * j + k ≤ 128 := hj
    rw [if_pos (hlt_of_le (by omega))]
    exact lane_setWidth l hle
  | ymm =>
    rw [if_pos (hlt_of_le hj)]
    rfl
  | zmm =>
    split
    next hlt =>
      have hle : k * j + k ≤ 256 := hm2 ▸ Nat.mul_succ k j ▸ Nat.mul_le_mul_left k hlt
      exact lane_append_lo h l hle
    next hge =>
      obtain ⟨i, rfl⟩ := Nat.exists_eq_add_of_le (Nat.le_of_not_lt hge)
      rw [Nat.add_sub_cancel_left]
      exact lane_append_hi h l hm2

/-- What is done to every lane of the halves is done to every lane. -/
theorem assemble_mapLanes (w : VecWidth) (f : BitVec k → BitVec k) {l l' h h' : Val}
    (hl : ∀ j, k * j + k ≤ 8 * w.lowBytes → lane k j l' = f (lane k j l))
    (hh : w = zmm → ∀ j, k * j + k ≤ 256 → lane k j h' = f (lane k j h)) :
    w.assemble l' h' = mapLanes k f (w.assemble l h) := by
  obtain ⟨n, hn⟩ : ∃ n, 8 * w.bytes = k * n := by
    refine ⟨m * (w.bytes / 16), ?_⟩
    rw [← Nat.mul_assoc, hm]
    cases w <;> rfl
  have hdiv : 8 * w.bytes / k = n := by rw [hn, Nat.mul_div_cancel_left n hk]
  refine eq_of_lane_eq hk hn.le fun j hj ↦ ?_
  have hle : k * j + k ≤ 8 * w.bytes := hn ▸ Nat.mul_succ k j ▸ Nat.mul_le_mul_left k hj
  rw [lane_mapLanes f _ (by rwa [hdiv]), lane_assemble hk hm w l' h' hle,
    lane_assemble hk hm w l h hle]
  have hm2 : k * (2 * m) = 256 := by rw [Nat.mul_left_comm, hm]
  split
  next hlt =>
    have hle' : k * j + k ≤ 256 := hm2 ▸ Nat.mul_succ k j ▸ Nat.mul_le_mul_left k hlt
    refine hl j ?_
    rw [lowBytes]
    omega
  next hge =>
    obtain ⟨i, rfl⟩ := Nat.exists_eq_add_of_le (Nat.le_of_not_lt hge)
    rw [Nat.add_sub_cancel_left]
    rw [Nat.mul_add] at hle
    have hbytes : 8 * w.bytes ≤ 512 := by cases w <;> decide
    refine hh ?_ i (by omega)
    cases w with
    | zmm => rfl
    | xmm => simp only [bytes] at hle; omega
    | ymm => simp only [bytes] at hle; omega

/-- The same lane in every place. -/
theorem assemble_fill (w : VecWidth) (x : BitVec k) :
    w.assemble (fill 256 x) (fill 256 x) = fill (8 * w.bytes) x := by
  have hfill (j : ℕ) (hj : k * j + k ≤ 256) : lane k j (fill 256 x) = x :=
    lane_fill x (lt_div_of_le hk hj)
  have hlow : 8 * w.lowBytes ≤ 256 := Nat.mul_le_mul_left 8 (Nat.min_le_right _ _)
  exact assemble_mapLanes hk hm w (fun _ ↦ x) (l := 0) (h := 0)
    (fun j hj ↦ hfill j (Nat.le_trans hj hlow)) fun _ ↦ hfill

end VecWidth

/-! ## What a generator should do -/

/-- For the instruction the generator returns a chain, which runs to its end from every state and
leaves a function of the state in a register of width `w`.  If a width `u` is given, the chain leaves
the other registers as they were as far as it reaches. -/
def Gen.Writes (g : Gen) (c : Context) (i : AppInstr) (w : VecWidth) (u : Option VecWidth) (d : VReg)
    (f : State → BitVec (8 * w.bytes)) : Prop :=
  ∃ removed linked code, g.run c i = .chain removed linked code ∧ ∀ (E : Ext) (s : State), ∃ t,
    Exec E code s t ∧ t.vec w d = f s ∧ ∀ v ∈ u, ∀ r ≠ d, t.vec v r = s.vec v r

namespace Gen.Writes

variable {g : Gen} {c : Context} {i : AppInstr} {w : VecWidth} {u : Option VecWidth} {d : VReg}
  {f f' : State → BitVec (8 * w.bytes)}

/-- Such code writes their old values to the other registers. -/
theorem other {v : VecWidth} (h : g.Writes c i w (some v) d f) {r : VReg} (hr : r ≠ d) :
    g.Writes c i v none r fun s ↦ s.vec v r := by
  obtain ⟨removed, linked, code, hrun, hexec⟩ := h
  refine ⟨removed, linked, code, hrun, fun E s ↦ ?_⟩
  obtain ⟨t, ht, -, hkeep⟩ := hexec E s
  exact ⟨t, ht, hkeep v rfl r hr, nofun⟩

/-- The result is determined by the code. -/
theorem unique (h : g.Writes c i w u d f) (h' : g.Writes c i w u d f') : f = f' := by
  obtain ⟨removed, linked, code, hrun, hexec⟩ := h
  obtain ⟨removed', linked', code', hrun', hexec'⟩ := h'
  rw [hrun] at hrun'
  cases hrun'
  funext s
  obtain ⟨t, ht, hd, -⟩ := hexec .blank s
  obtain ⟨t', ht', hd', -⟩ := hexec' .blank s
  rw [← hd, ← hd', ht.unique ht']

/-- Code that writes one result writes another only if they are the same. -/
theorem writes_iff (h : g.Writes c i w u d f) : g.Writes c i w u d f' ↔ f = f' := by
  constructor
  · exact h.unique
  · rintro rfl
    exact h

end Gen.Writes

end DrAvx
