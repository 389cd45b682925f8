import DrAvx.Emulation.Judge
import DrAvx.Handlers.Arith

/-!
# Rotations by an immediate

The host has no vector rotations, so a lane is shifted both ways and the two parts are put together.
The counts are the remainder of the immediate by 64, with the sign of the immediate as in C, and what
it lacks to 64; they are bytes of the shift instructions, where a negative one is a large one.  The
rotation comes out right if the immediate is not negative or a multiple of 64, and for lanes of 32
bits, for which the same counts are used, if it is a multiple of 64.

Besides, the result is lost where the destination is one of the scratch registers.

## What is here

* `wantShifts`, `value_wantShifts`: the terms the code computes, and their meaning lane by lane.
* `Direction.shifts_eq_rotate_iff`: the immediates for which the shifts make up the rotation.
* `vprolq_vprorq_writes_iff`, `vprord_writes_iff`: when the rotations are right.
-/

set_option autoImplicit false

namespace DrAvx

open Straight Bits

/-! ## Instructions -/

/-- A rotation of `a` by an immediate, which is sign-extended when it is decoded. -/
def rotateInstr (w : VecWidth) (d a : VReg) (b : BitVec 8) (z : Bool) : AppInstr :=
  ⟨[.vec w d], [.opmask 0, .imm b.toInt 1, .vec w a], z⟩

theorem cls_imm_toInt (b : BitVec 8) : (Opnd.imm b.toInt 1).cls = .immed 1 := by
  rw [Opnd.cls, if_pos]
  exact ⟨BitVec.le_toInt b, BitVec.toInt_lt⟩

theorem like_rotateInstr {fixed : List VReg} (π : Renaming fixed) (w : VecWidth) (d a : VReg)
    (b b' : BitVec 8) (z z' : Bool) :
    (rotateInstr w d a b z).Like π (rotateInstr w (π d) (π a) b' z') :=
  AppInstr.like_of_forall₂ (.cons (Opnd.like_vec π w d) .nil) (.cons (Opnd.like_opmask π 0) <|
    .cons (Opnd.like_of_cls π (cls_imm_toInt b) (cls_imm_toInt b') nofun nofun) <|
    .cons (Opnd.like_vec π w a) .nil) z z'

/-! ## The two shifts -/

/-- One of the shifts. -/
def shiftTerm (op : Op) (f : ImmFn) (n : ℕ) (t : Term (Loc VReg) TOpnd VOp) :
    Term (Loc VReg) TOpnd VOp :=
  .un (.low n) (.bin (.op op n true) (.inp (.immOf .s1 f)) (.un (.low n) t))

/-- Two shifts put together. -/
def shiftsTerm (p q : Op × ImmFn) (n : ℕ) (t : Term (Loc VReg) TOpnd VOp) :
    Term (Loc VReg) TOpnd VOp :=
  .bin (.op .vpor n false) (shiftTerm q.1 q.2 n t) (shiftTerm p.1 p.2 n t)

/-- The shifts of both halves of a register. -/
def wantShifts (p q : Op × ImmFn) (w : VecWidth) (a : VReg) : Halves :=
  (shiftsTerm p q w.lowBytes (.var (homeOf a)), shiftsTerm p q w.lowBytes (.var (.hi a)))

/-- The count of a shift, a byte of the instruction. -/
def shiftCount (f : ImmFn) (b : BitVec 8) : ℕ := (low 1 (BitVec.ofInt 256 (f.apply b.toInt))).toNat

/-- The opcode shifts lanes of `k` bits by an immediate. -/
def Op.ShiftsBy (op : Op) {k : ℕ} (f : BitVec k → ℕ → BitVec k) : Prop :=
  ∀ (E : Ext) (n : ℕ) (count v : Val),
    op.result E n true [count, v] = shiftLanes k f v (low 1 count).toNat

section Values

variable {fixed : List VReg} (π : Renaming fixed) (E : Ext) {e : Env} (s : State) {w : VecWidth}
  {d a' : VReg} {b : BitVec 8} {z : Bool} (he : e.instr = rotateInstr w d a' b z)
include he

theorem eval_shiftTerm {k : ℕ} {op : Op} {f : BitVec k → ℕ → BitVec k} (hop : op.ShiftsBy f)
    (i : ImmFn) (n : ℕ) (t : Term (Loc VReg) TOpnd VOp) (σ : Loc VReg → Val) :
    (shiftTerm op i n t).eval (symAlgebra E e s) σ =
      low n (shiftLanes k f (low n (t.eval (symAlgebra E e s) σ)) (shiftCount i b)) := by
  have hinp : (symAlgebra E e s).inp (.immOf .s1 i) = BitVec.ofInt 256 (i.apply b.toInt) :=
    congrArg (fun j : AppInstr ↦ (s.put fun _ ↦ 0).read 4 (.imm (i.apply (j.opnd .s1).immVal) 1)) he
  rw [shiftCount, ← hinp, ← hop E n]
  rfl

variable {k m : ℕ} (hk : 0 < k)
include hk

theorem lane_shiftsTerm {p q : Op × ImmFn} {f g : BitVec k → ℕ → BitVec k} (hp : p.1.ShiftsBy f)
    (hq : q.1.ShiftsBy g) {n j : ℕ} (hn : n ≤ 32) (hj : k * j + k ≤ 8 * n)
    (t : Term (Loc VReg) TOpnd VOp) (σ : Loc VReg → Val) :
    lane k j ((shiftsTerm p q n t).eval (symAlgebra E e s) σ) =
      g (lane k j (t.eval (symAlgebra E e s) σ)) (shiftCount q.2 b) |||
        f (lane k j (t.eval (symAlgebra E e s) σ)) (shiftCount p.2 b) := by
  have hshift {op : Op} {f : BitVec k → ℕ → BitVec k} (hop : op.ShiftsBy f) (i : ImmFn) :
      lane k j ((shiftTerm op i n t).eval (symAlgebra E e s) σ) =
        f (lane k j (t.eval (symAlgebra E e s) σ)) (shiftCount i b) := by
    rw [eval_shiftTerm E s he hop, lane_low _ hj, shiftLanes,
      lane_ofLanes _ (lt_div_of_le hk (by omega)) (Nat.mul_div_le 256 k), lane_low _ hj]
  rw [← hshift hp, ← hshift hq, ← lane_or]
  rfl

/-- The two shifts, lane by lane. -/
theorem value_wantShifts (hm : k * m = 128) {p q : Op × ImmFn} {f g : BitVec k → ℕ → BitVec k}
    (hp : p.1.ShiftsBy f) (hq : q.1.ShiftsBy g) (a : VReg) :
    (wantShifts p q w a).value w E e π s =
      mapLanes k (fun x ↦ g x (shiftCount q.2 b) ||| f x (shiftCount p.2 b)) (s.vec w (π a)) := by
  have hlow : w.lowBytes ≤ 32 := Nat.min_le_right _ _
  rw [State.vec_eq, ← map_homeOf]
  refine VecWidth.assemble_mapLanes hk hm w _ (fun j hj ↦ ?_) (fun hw j hj ↦ ?_)
  · exact lane_shiftsTerm E s he hk hp hq hlow hj _ _
  · refine lane_shiftsTerm E s he hk hp hq hlow ?_ _ _
    subst hw
    exact hj

end Values

theorem rotateLeft_allOnes (w n : ℕ) : (BitVec.allOnes w).rotateLeft n = .allOnes w := by
  refine BitVec.eq_of_getLsbD_eq fun j hj ↦ ?_
  have hmod : n % w < w := Nat.mod_lt n (by omega)
  rw [BitVec.getLsbD_rotateLeft, BitVec.getLsbD_allOnes, BitVec.getLsbD_allOnes,
    BitVec.getLsbD_allOnes]
  by_cases h : j < n % w
  · simp only [h, hj, decide_true, cond_true, decide_eq_true_eq]
    omega
  · simp only [h, hj, decide_false, decide_true, cond_false, Bool.true_and, decide_eq_true_eq]
    omega

theorem rotateRight_allOnes (w n : ℕ) : (BitVec.allOnes w).rotateRight n = .allOnes w := by
  refine BitVec.eq_of_getLsbD_eq fun j hj ↦ ?_
  have hmod : n % w < w := Nat.mod_lt n (by omega)
  rw [BitVec.getLsbD_rotateRight, BitVec.getLsbD_allOnes, BitVec.getLsbD_allOnes,
    BitVec.getLsbD_allOnes]
  by_cases h : j < w - n % w
  · simp only [h, hj, decide_true, cond_true, decide_eq_true_eq]
    omega
  · simp only [h, hj, decide_false, decide_true, cond_false, Bool.true_and, decide_eq_true_eq]
    omega

/-! ## States to look at -/

/-- A state in which a register holds the same lane in every place, and the others nothing. -/
def filled {k : ℕ} (a : VReg) (x : BitVec k) : State :=
  State.blank.put fun l ↦ fill 256 (if l.reg = a then x else 0)

section Filled

variable {k m : ℕ} (hk : 0 < k) (hm : k * m = 128)
include hk hm

theorem vec_filled (w : VecWidth) (a r : VReg) (x : BitVec k) :
    (filled a x).vec w r = fill _ (if r = a then x else 0) := by
  rw [State.vec_eq, ← VecWidth.assemble_fill hk hm, homeOf]
  split <;> rfl

omit hk in
theorem lane_zero_le (w : VecWidth) : k * 0 + k ≤ 8 * w.bytes := by
  have hk128 : k ≤ 128 := Nat.le_of_dvd (by decide) ⟨m, hm.symm⟩
  cases w <;> simp only [VecWidth.bytes] <;> omega

/-- Lane functions that agree on a register of every state are the same. -/
theorem mapLanes_vec_eq_iff {w : VecWidth} {a : VReg} {f g : BitVec k → BitVec k} :
    ((fun s : State ↦ mapLanes k f (s.vec w a)) = fun s ↦ mapLanes k g (s.vec w a)) ↔
      ∀ x, f x = g x := by
  constructor
  · intro heq x
    have hlt := lt_div_of_le hk (lane_zero_le hm w)
    have hlane := congrArg (lane k 0) (congrFun heq (filled a x))
    rwa [lane_mapLanes f _ hlt, lane_mapLanes g _ hlt, vec_filled hk hm, if_pos rfl,
      lane_fill x hlt] at hlane
  · intro h
    rw [funext h]

/-- A register does not hold a function of the lanes of another one in every state. -/
theorem vec_ne_mapLanes {w : VecWidth} {d a : VReg} (hne : d ≠ a) {f : BitVec k → BitVec k}
    {x : BitVec k} (hx : f x ≠ 0) : (fun s : State ↦ s.vec w d) ≠ fun s ↦ mapLanes k f (s.vec w a) := by
  intro heq
  have hlt := lt_div_of_le hk (lane_zero_le hm w)
  have hlane := congrArg (lane k 0) (congrFun heq (filled a x))
  rw [lane_mapLanes f _ hlt, vec_filled hk hm, vec_filled hk hm, if_neg hne, if_pos rfl,
    lane_fill _ hlt, lane_fill _ hlt] at hlane
  exact hx hlane.symm

end Filled

/-! ## The counts -/

/-- The immediates for which the counts are the ones that are meant. -/
def countsRight (b : BitVec 8) : Bool := b.toNat < 128 || b.toNat % 64 == 0

theorem shiftCount_eq : ∀ b : BitVec 8, countsRight b = true →
    shiftCount .rotate b = b.toNat % 64 ∧ shiftCount .rotateBack b = 64 - b.toNat % 64 := by
  decide +kernel

/-- For the other immediates everything is shifted out. -/
theorem le_shiftCount : ∀ b : BitVec 8, countsRight b = false →
    64 ≤ shiftCount .rotate b ∧ 64 ≤ shiftCount .rotateBack b := by
  decide +kernel

/-! ## Rotations of quadwords -/

/-- The directions in which quadwords are rotated. -/
inductive Direction
  | left | right
  deriving DecidableEq, Repr

namespace Direction

/-- The handler of the instruction. -/
def rotateFunc : Direction → Gen
  | left => rwFuncVprolq
  | right => rwFuncVprorq

def rotate (x : BitVec 64) (n : ℕ) : Direction → BitVec 64
  | left => x.rotateLeft n
  | right => x.rotateRight n

/-- The count of the shift to the left. -/
def leftFn : Direction → ImmFn
  | left => .rotate
  | right => .rotateBack

/-- The count of the shift to the right. -/
def rightFn : Direction → ImmFn
  | left => .rotateBack
  | right => .rotate

/-- What the two shifts leave in a lane. -/
def shifts (ρ : Direction) (b : BitVec 8) (x : BitVec 64) : BitVec 64 :=
  x >>> shiftCount ρ.rightFn b ||| x <<< shiftCount ρ.leftFn b

theorem rotate_allOnes (ρ : Direction) (n : ℕ) : ρ.rotate (.allOnes 64) n = .allOnes 64 := by
  cases ρ with
  | left => exact rotateLeft_allOnes 64 n
  | right => exact rotateRight_allOnes 64 n

theorem rotate_zero (ρ : Direction) (x : BitVec 64) : ρ.rotate x 0 = x := by
  cases ρ with
  | left => simp [rotate, BitVec.rotateLeft_def, BitVec.ushiftRight_eq_zero (Nat.le_refl 64)]
  | right => simp [rotate, BitVec.rotateRight_def]

theorem eq_zero_of_rotate_one (ρ : Direction) : ∀ n < 64, ρ.rotate 1 n = 1 → n = 0 := by
  cases ρ <;> decide

/-- The shifts make up the rotation if the counts are the ones that are meant, and not otherwise. -/
theorem shifts_eq_rotate_iff (ρ : Direction) (b : BitVec 8) :
    (∀ x, ρ.shifts b x = ρ.rotate x (b.toNat % 64)) ↔ countsRight b = true := by
  constructor
  · intro h
    by_contra hcounts
    obtain ⟨hrotate, hback⟩ := le_shiftCount b (Bool.eq_false_iff.mpr hcounts)
    have hzero : ρ.shifts b (.allOnes 64) = 0 := by
      cases ρ with
      | left => rw [shifts, leftFn, rightFn, BitVec.shiftLeft_eq_zero hrotate, BitVec.ushiftRight_eq_zero hback]; rfl
      | right => rw [shifts, leftFn, rightFn, BitVec.shiftLeft_eq_zero hback, BitVec.ushiftRight_eq_zero hrotate]; rfl
    have hones := h (.allOnes 64)
    rw [hzero, rotate_allOnes] at hones
    exact absurd hones (by decide)
  · intro hcounts x
    obtain ⟨hrotate, hback⟩ := shiftCount_eq b hcounts
    cases ρ with
    | left =>
      rw [shifts, leftFn, rightFn, hrotate, hback, rotate, BitVec.rotateLeft_def, Nat.mod_mod, BitVec.or_comm]
    | right =>
      rw [shifts, leftFn, rightFn, hrotate, hback, rotate, BitVec.rotateRight_def, Nat.mod_mod]

end Direction

theorem shiftsBy_vpsllq : Op.ShiftsBy .vpsllq (k := 64) (· <<< ·) := fun _ _ _ _ ↦ rfl

theorem shiftsBy_vpsrlq : Op.ShiftsBy .vpsrlq (k := 64) (· >>> ·) := fun _ _ _ _ ↦ rfl

/-- The result of the 256-bit form is lost: the destination is one of the two scratch registers, the
first two that are not the source. -/
def ymmRotateLoses (d a : VReg) : Bool :=
  d != a && (d == 10 || d == 11 || d == 12 && (a == 10 || a == 11))

/-- The terms the code of the 512-bit form and the 256-bit form leaves. -/
def Direction.want (ρ : Direction) (w : VecWidth) (a : VReg) : Halves :=
  wantShifts (.vpsllq, ρ.leftFn) (.vpsrlq, ρ.rightFn) w a

/-- What becomes of the rotations, on one choice of registers of each kind. -/
structure Direction.Judged (ρ : Direction) : Prop where
  zmm : ∀ d ∈ canon [10, 11] 0 [], ∀ a ∈ canon [10, 11] 1 [d],
    ρ.rotateFunc.judge [10, 11] (rotateInstr .zmm d a 0 false) .zmm (some .zmm) d
      (if d == 10 || d == 11 then ((Halves.ofReg d).1, (ρ.want .zmm a).2) else ρ.want .zmm a)
      (fun _ ↦ 0) = .right
  ymm : ∀ d ∈ canon [10, 11, 12] 0 [], ∀ a ∈ canon [10, 11, 12] 1 [d],
    ρ.rotateFunc.judge [10, 11, 12] (rotateInstr .ymm d a 0 false) .ymm (some .zmm) d
      (if ymmRotateLoses d a then .ofReg d else ρ.want .ymm a) (fun _ ↦ 0) =
        if !d.high && !a.high then .right else .wrong
  /-- with a register from the upper half another register is spoilt -/
  ymmStuck : ∀ d ∈ canon [10, 11, 12] 0 [], ∀ a ∈ canon [10, 11, 12] 1 [d],
    (d.high || a.high) = true →
      ρ.rotateFunc.judge [10, 11, 12] (rotateInstr .ymm d a 0 false) .zmm none
        (if d = 10 then 11 else 10) (.ofReg (if d = 10 then 11 else 10)) (fun _ ↦ 0) = .wrong
  /-- the 128-bit form saves and restores 128 bits of two scratch registers only, one of which is
  not the destination -/
  xmm : ∀ d ∈ canon [14, 15] 0 [], ∀ a ∈ canon [14, 15] 1 [d],
    ρ.rotateFunc.judge [14, 15] (rotateInstr .xmm d a 0 false) .zmm none (if d = 14 then 15 else 14)
      (.ofReg (if d = 14 then 15 else 14)) (fun _ ↦ .allOnes 256) = .wrong

theorem Direction.judged (ρ : Direction) : ρ.Judged where
  zmm := by cases ρ <;> decide +kernel
  ymm := by cases ρ <;> decide +kernel
  ymmStuck := by cases ρ <;> decide +kernel
  xmm := by cases ρ <;> decide +kernel

namespace Direction

variable (ρ : Direction) (c : Context) (d a : VReg) (b : BitVec 8) (z : Bool)

theorem value_want {fixed : List VReg} (π : Renaming fixed) (E : Ext) {e : Env} (s : State)
    {w : VecWidth} {d a' : VReg} {b : BitVec 8} {z : Bool} (he : e.instr = rotateInstr w d a' b z)
    (a : VReg) : (ρ.want w a).value w E e π s = mapLanes 64 (ρ.shifts b) (s.vec w (π a)) :=
  value_wantShifts π E s he (by decide) (m := 2) rfl shiftsBy_vpsllq shiftsBy_vpsrlq a

theorem rotate_xmm_not_writes (f : State → BitVec 128) :
    ¬ρ.rotateFunc.Writes c (rotateInstr .xmm d a b z) .xmm (some .zmm) d f := by
  obtain ⟨π, d, hd, a, ha, rfl, rfl⟩ :=
    exists_renaming2 (by decide : ∀ r ∈ [(14 : VReg), 15], r ∈ spillPool) d a
  refine Gen.not_writes_of_judge_other (like_rotateInstr π .xmm d a 0 b false z) ?_
    (ρ.judged.xmm d hd a ha) c
  split
  next h => simp [h]
  next h => exact Ne.symm h

theorem rotate_ymm_writes_iff :
    ρ.rotateFunc.Writes c (rotateInstr .ymm d a b z) .ymm (some .zmm) d
      (fun s ↦ mapLanes 64 (ρ.rotate · (b.toNat % 64)) (s.vec .ymm a)) ↔
        d.high = false ∧ a.high = false ∧ ymmRotateLoses d a = false ∧ countsRight b = true := by
  obtain ⟨π, d, hd, a, ha, rfl, rfl⟩ :=
    exists_renaming2 (by decide : ∀ r ∈ [(10 : VReg), 11, 12], r ∈ spillPool) d a
  have hloses : ymmRotateLoses (π d) (π a) = ymmRotateLoses d a := by
    have h10 := π.beq_fixed (x := 10) (by decide)
    have h11 := π.beq_fixed (x := 11) (by decide)
    have h12 := π.beq_fixed (x := 12) (by decide)
    simp only [ymmRotateLoses, bne, π.beq_apply, h10, h11, h12]
  have hlike := like_rotateInstr π .ymm d a 0 b false z
  rw [hloses, π.high_apply, π.high_apply]
  by_cases hhigh : (d.high || a.high) = true
  · -- no scratch registers stand in for the upper ones
    refine iff_of_false ?_ ?_
    · refine Gen.not_writes_of_judge_other hlike ?_ (ρ.judged.ymmStuck d hd a ha hhigh) c
      split
      next h => simp [h]
      next h => exact Ne.symm h
    · rintro ⟨hdlow, halow, -⟩
      simp [hdlow, halow] at hhigh
  · obtain ⟨hdlow, halow⟩ : d.high = false ∧ a.high = false := by simpa using hhigh
    have hjudged := ρ.judged.ymm d hd a ha
    rw [hdlow, halow] at hjudged
    rw [and_iff_right hdlow, and_iff_right halow]
    cases hl : ymmRotateLoses d a with
    | true =>
      rw [hl] at hjudged
      have hwrites := Gen.writes_of_judge hlike hjudged
        (fun E e _ s ↦ (Halves.value_ofReg E e π s d).symm) c
      rw [hwrites.writes_iff]
      refine iff_of_false (vec_ne_mapLanes (m := 2) (by decide) rfl ?_ (x := .allOnes 64) ?_) (by simp)
      · intro h
        rw [π.injective h, ymmRotateLoses, bne_self_eq_false, Bool.false_and] at hl
        cases hl
      · rw [rotate_allOnes]
        decide
    | false =>
      rw [hl] at hjudged
      have hwrites := Gen.writes_of_judge hlike hjudged
        (fun E e he s ↦ (ρ.value_want π E s he a).symm) c
      rw [hwrites.writes_iff, mapLanes_vec_eq_iff (by decide) (m := 2) rfl, ρ.shifts_eq_rotate_iff]
      simp

/-- The value of which the low half is kept and the high half shifted. -/
theorem value_half {fixed : List VReg} (π : Renaming fixed) (E : Ext) {e : Env} (s : State)
    {d' a' : VReg} {b : BitVec 8} {z : Bool} (he : e.instr = rotateInstr .zmm d' a' b z)
    (d a : VReg) : Halves.value ((Halves.ofReg d).1, (ρ.want .zmm a).2) .zmm E e π s =
      VecWidth.zmm.assemble (s.zmmLo (π d)) (mapLanes 64 (ρ.shifts b) (s.hi (π a))) := by
  have hlow : (Halves.ofReg d).1.eval (symAlgebra E e s) (s.get ∘ Loc.map π) = s.zmmLo (π d) := by
    rw [← State.get_homeOf, ← map_homeOf]
    rfl
  have hhigh : (ρ.want .zmm a).2.eval (symAlgebra E e s) (s.get ∘ Loc.map π) =
      mapLanes 64 (ρ.shifts b) (s.hi (π a)) := by
    refine eq_of_lane_eq (w := 64) (k := 4) (by decide) (by decide) fun j hj ↦ ?_
    rw [lane_mapLanes _ _ hj]
    exact lane_shiftsTerm E s he (by decide) shiftsBy_vpsllq shiftsBy_vpsrlq (Nat.le_refl 32)
      (by omega) _ _
  rw [Halves.value, hlow, hhigh]

/-- With the low half kept the rotation is right if it does nothing. -/
theorem half_eq_rotate_iff : ((fun s : State ↦ VecWidth.zmm.assemble (s.zmmLo d)
      (mapLanes 64 (ρ.shifts b) (s.hi a))) =
        fun s ↦ mapLanes 64 (ρ.rotate · (b.toNat % 64)) (s.vec .zmm a)) ↔
      d = a ∧ b.toNat % 64 = 0 := by
  have hrotate (s : State) : mapLanes 64 (ρ.rotate · (b.toNat % 64)) (s.vec .zmm a) =
      VecWidth.zmm.assemble (mapLanes 64 (ρ.rotate · (b.toNat % 64)) (s.zmmLo a))
        (mapLanes 64 (ρ.rotate · (b.toNat % 64)) (s.hi a)) := by
    rw [State.vec_eq, ← State.get_homeOf]
    refine (VecWidth.assemble_mapLanes (m := 2) (by decide) rfl .zmm _ (fun j hj ↦ ?_)
      fun _ j hj ↦ ?_).symm
    · exact lane_mapLanes _ _ (lt_div_of_le (by decide) hj)
    · exact lane_mapLanes _ _ (lt_div_of_le (by decide) hj)
  constructor
  · intro heq
    have hlow (s : State) : s.zmmLo d = mapLanes 64 (ρ.rotate · (b.toNat % 64)) (s.zmmLo a) := by
      have hs := congrFun heq s
      rw [hrotate, VecWidth.assemble_eq_iff] at hs
      exact (low_32 _).symm.trans (hs.1.trans (low_32 _))
    have hda : d = a := by
      by_contra hne
      refine vec_ne_mapLanes (f := (ρ.rotate · (b.toNat % 64))) (w := .ymm) (m := 2) (by decide) rfl
        hne (x := .allOnes 64) ?_ (funext fun s ↦ ?_)
      · rw [rotate_allOnes]
        decide
      · rw [State.vec_ymm, State.vec_ymm]
        exact hlow s
    refine ⟨hda, ρ.eq_zero_of_rotate_one _ (Nat.mod_lt _ (by decide)) ?_⟩
    -- look at a register that holds one in every place
    have hlane := congrArg (lane 64 0) (hlow (filled a (1 : BitVec 64)))
    rw [lane_mapLanes _ _ (by decide), hda, ← State.vec_ymm, vec_filled (m := 2) (by decide) rfl,
      if_pos rfl] at hlane
    exact hlane.symm
  · rintro ⟨rfl, hzero⟩
    have hshifts : ∀ x, ρ.shifts b x = ρ.rotate x (b.toNat % 64) := by
      rw [ρ.shifts_eq_rotate_iff, countsRight, hzero]
      exact Bool.or_true _
    have hkeep (v : Val) : v = mapLanes 64 (ρ.rotate · (b.toNat % 64)) v := by
      refine eq_of_lane_eq (w := 64) (k := 4) (by decide) (by decide) fun j hj ↦ ?_
      rw [lane_mapLanes _ _ hj, hzero, rotate_zero]
    funext s
    rw [hrotate, funext hshifts, ← hkeep (s.zmmLo d)]

theorem rotate_zmm_writes_iff :
    ρ.rotateFunc.Writes c (rotateInstr .zmm d a b z) .zmm (some .zmm) d
      (fun s ↦ mapLanes 64 (ρ.rotate · (b.toNat % 64)) (s.vec .zmm a)) ↔
        countsRight b = true ∧ (d ≠ 10 ∧ d ≠ 11 ∨ d = a ∧ b.toNat % 64 = 0) := by
  obtain ⟨π, d, hd, a, ha, rfl, rfl⟩ :=
    exists_renaming2 (by decide : ∀ r ∈ [(10 : VReg), 11], r ∈ spillPool) d a
  have hlike := like_rotateInstr π .zmm d a 0 b false z
  have hjudged := ρ.judged.zmm d hd a ha
  rw [Ne, Ne, π.apply_eq_fixed (by decide), π.apply_eq_fixed (by decide), π.apply_eq_iff]
  cases hl : (d == 10 || d == 11) with
  | true =>
    rw [hl] at hjudged
    have hwrites := Gen.writes_of_judge hlike hjudged (fun E e he s ↦ (ρ.value_half π E s he d a).symm) c
    rw [hwrites.writes_iff, ρ.half_eq_rotate_iff, π.apply_eq_iff]
    rw [Bool.or_eq_true, beq_iff_eq, beq_iff_eq] at hl
    constructor
    · rintro ⟨hda, hzero⟩
      refine ⟨?_, .inr ⟨hda, hzero⟩⟩
      rw [countsRight, hzero]
      exact Bool.or_true _
    · rintro ⟨-, ⟨h10, h11⟩ | h⟩
      · exact (hl.elim h10 h11).elim
      · exact h
  | false =>
    rw [hl] at hjudged
    have hwrites := Gen.writes_of_judge hlike hjudged (fun E e he s ↦ (ρ.value_want π E s he a).symm) c
    rw [hwrites.writes_iff, mapLanes_vec_eq_iff (by decide) (m := 2) rfl, ρ.shifts_eq_rotate_iff]
    obtain ⟨h10, h11⟩ : d ≠ 10 ∧ d ≠ 11 := by simpa using hl
    simp [h10, h11]

end Direction

/-- A quadword rotation is right if the immediate is not negative or a multiple of 64 and the
destination is not lost; the 128-bit form changes a scratch register whatever the operands are. -/
theorem vprolq_vprorq_writes_iff (ρ : Direction) (c : Context) (w : VecWidth) (d a : VReg)
    (b : BitVec 8) (z : Bool) :
    ρ.rotateFunc.Writes c (rotateInstr w d a b z) w (some .zmm) d
      (fun s ↦ mapLanes 64 (ρ.rotate · (b.toNat % 64)) (s.vec w a)) ↔
    match w with
    | .xmm => False
    | .ymm => d.high = false ∧ a.high = false ∧ ymmRotateLoses d a = false ∧
        (b.toNat < 128 ∨ b.toNat % 64 = 0)
    | .zmm => (b.toNat < 128 ∨ b.toNat % 64 = 0) ∧
        (d ≠ 10 ∧ d ≠ 11 ∨ d = a ∧ b.toNat % 64 = 0) := by
  have hcounts : countsRight b = true ↔ b.toNat < 128 ∨ b.toNat % 64 = 0 := by
    rw [countsRight, Bool.or_eq_true, decide_eq_true_iff, beq_iff_eq]
  rw [← hcounts]
  cases w with
  | xmm => exact iff_of_false (ρ.rotate_xmm_not_writes c d a b z _) id
  | ymm => exact ρ.rotate_ymm_writes_iff c d a b z
  | zmm => exact ρ.rotate_zmm_writes_iff c d a b z

/-- `vprolq zmm10, zmm0, 1` leaves the low half of `zmm10`. -/
theorem not_writes_vprolq_zmm10 : ¬rwFuncVprolq.Writes ⟨false, fun _ ↦ 0⟩
    (rotateInstr .zmm 10 0 1 false) .zmm (some .zmm) 10
      (fun s ↦ mapLanes 64 (·.rotateLeft 1) (s.vec .zmm 0)) := by
  refine (Direction.rotate_zmm_writes_iff .left _ 10 0 1 false).not.mpr ?_
  decide

/-! ## Rotations of doublewords -/

theorem shiftsBy_psrld : Op.ShiftsBy .psrld (k := 32) (· >>> ·) := fun _ _ _ _ ↦ rfl

theorem shiftsBy_pslld : Op.ShiftsBy .pslld (k := 32) (· <<< ·) := fun _ _ _ _ ↦ rfl

theorem shiftsBy_vpsrld : Op.ShiftsBy .vpsrld (k := 32) (· >>> ·) := fun _ _ _ _ ↦ rfl

theorem shiftsBy_vpslld : Op.ShiftsBy .vpslld (k := 32) (· <<< ·) := fun _ _ _ _ ↦ rfl

/-- What the two shifts leave in a doubleword. -/
def shiftsDword (b : BitVec 8) (x : BitVec 32) : BitVec 32 :=
  x >>> shiftCount .rotate b ||| x <<< shiftCount .rotateBack b

theorem shiftsDword_allOnes : ∀ b : BitVec 8,
    shiftsDword b (.allOnes 32) = .allOnes 32 → b.toNat % 64 = 0 := by
  decide +kernel

theorem shiftsDword_eq_rotate_iff (b : BitVec 8) :
    (∀ x, shiftsDword b x = x.rotateRight (b.toNat % 32)) ↔ b.toNat % 64 = 0 := by
  constructor
  · intro h
    exact shiftsDword_allOnes b ((h _).trans (rotateRight_allOnes 32 _))
  · intro hzero x
    have hcounts : countsRight b = true := by
      rw [countsRight, hzero]
      exact Bool.or_true _
    obtain ⟨hrotate, hback⟩ := shiftCount_eq b hcounts
    have hmod : b.toNat % 32 = 0 := by omega
    rw [shiftsDword, hrotate, hback, hzero, hmod, BitVec.shiftLeft_eq_zero (by decide)]
    simp [BitVec.rotateRight_def]

/-- The terms the code of `vprord` leaves. -/
def wantDword (w : VecWidth) (a : VReg) : Halves :=
  if w = .xmm then wantShifts (.psrld, .rotate) (.pslld, .rotateBack) w a
  else wantShifts (.vpslld, .rotateBack) (.vpsrld, .rotate) w a

theorem value_wantDword {fixed : List VReg} (π : Renaming fixed) (E : Ext) {e : Env} (s : State)
    {w : VecWidth} {d a' : VReg} {b : BitVec 8} {z : Bool} (he : e.instr = rotateInstr w d a' b z)
    (a : VReg) : (wantDword w a).value w E e π s = mapLanes 32 (shiftsDword b) (s.vec w (π a)) := by
  rw [wantDword]
  split
  · rw [value_wantShifts π E s he (by decide) (m := 4) rfl shiftsBy_psrld shiftsBy_pslld]
    exact congrArg (mapLanes 32 · _) (funext fun x ↦ BitVec.or_comm _ _)
  · exact value_wantShifts π E s he (by decide) (m := 4) rfl shiftsBy_vpslld shiftsBy_vpsrld a

theorem vprord_judged : ∀ w ∈ [VecWidth.xmm, .ymm], ∀ d ∈ canon spillPool 0 [],
    ∀ a ∈ canon spillPool 1 [d], d.high = false → a.high = false → d ∉ spillPool → a ∉ spillPool →
      rwFuncVprord.judge spillPool (rotateInstr w d a 0 false) w none d (wantDword w a) (fun _ ↦ 0) =
        .right := by
  decide +kernel

theorem vprord_writes {w : VecWidth} (hw : w ≠ .zmm) {d a : VReg} (hd : d.high = false)
    (ha : a.high = false) (hdpool : d ∉ spillPool) (hapool : a ∉ spillPool) (c : Context)
    (b : BitVec 8) (z : Bool) : rwFuncVprord.Writes c (rotateInstr w d a b z) w none d
      (fun s ↦ mapLanes 32 (shiftsDword b) (s.vec w a)) := by
  obtain ⟨π, d, hdc, a, hac, rfl, rfl⟩ := exists_renaming2 (fun _ hr ↦ hr) d a
  have hpool {r : VReg} (hr : π r ∉ spillPool) : r ∉ spillPool :=
    fun h ↦ hr (by rwa [π.keeps r h])
  have hw' : w ∈ [VecWidth.xmm, .ymm] := by
    cases w <;> simp at hw ⊢
  rw [π.high_apply] at hd ha
  exact Gen.writes_of_judge (like_rotateInstr π w d a 0 b false z)
    (vprord_judged w hw' d hdc a hac hd ha (hpool hdpool) (hpool hapool))
    (fun E e he s ↦ (value_wantDword π E s he a).symm) c

/-- A doubleword rotation between registers that are not scratch registers is right if the immediate
is a multiple of 64. -/
theorem vprord_writes_iff {w : VecWidth} (hw : w ≠ .zmm) {d a : VReg} (hd : d.high = false)
    (ha : a.high = false) (hdpool : d ∉ spillPool) (hapool : a ∉ spillPool) (c : Context)
    (b : BitVec 8) (z : Bool) : rwFuncVprord.Writes c (rotateInstr w d a b z) w none d
      (fun s ↦ mapLanes 32 (·.rotateRight (b.toNat % 32)) (s.vec w a)) ↔ b.toNat % 64 = 0 := by
  rw [(vprord_writes hw hd ha hdpool hapool c b z).writes_iff,
    mapLanes_vec_eq_iff (m := 4) (by decide) rfl, shiftsDword_eq_rotate_iff]

theorem vprord_writes_iff_xmm1_xmm2 : rwFuncVprord.Writes ⟨false, fun _ ↦ 0⟩
    (rotateInstr .xmm 1 2 64 false) .xmm none 1
      (fun s ↦ mapLanes 32 (·.rotateRight 0) (s.vec .xmm 2)) ↔ 64 % 64 = 0 :=
  vprord_writes_iff (w := .xmm) nofun rfl rfl (by decide) (by decide) _ 64 false

/-- `vprord xmm1, xmm2, 1` does not rotate. -/
theorem not_writes_vprord_xmm1 : ¬rwFuncVprord.Writes ⟨false, fun _ ↦ 0⟩
    (rotateInstr .xmm 1 2 1 false) .xmm none 1
      (fun s ↦ mapLanes 32 (·.rotateRight 1) (s.vec .xmm 2)) := by
  have hwrites := vprord_writes (w := .xmm) nofun (d := 1) (a := 2) rfl rfl (by decide) (by decide)
    ⟨false, fun _ ↦ 0⟩ 1 false
  rw [hwrites.writes_iff]
  refine (mapLanes_vec_eq_iff (m := 4) (by decide) rfl).not.mpr ?_
  exact (shiftsDword_eq_rotate_iff 1).not.mpr (by decide)

end DrAvx
