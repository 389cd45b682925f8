import DrAvx.Emulation.Judge
import DrAvx.Handlers.Arith
import DrAvx.Handlers.Move

/-!
# Operations on three registers

Where an operand is one of the upper sixteen registers it is brought into a scratch register first,
and the generators differ in how they choose it.  Some take `xmm10` and `xmm11` without looking at
the operands, some look at the wrong one, and some restore the wrong register afterwards.  For each
of them the exact condition on the registers is given under which the emulated operation is right.

## What is here

* `Gen.writes_instr3_iff`: a verdict on representatives decides for all registers.
* The 256-bit or, which loses its result when the destination is the scratch register.
* The 128-bit subtraction and shift.
* The scalar moves; the one for double precision moves single precision values.
-/

set_option autoImplicit false

namespace DrAvx

open Straight Bits

/-! ## From representatives to all registers -/

theorem like_instr3 {fixed : List VReg} (π : Renaming fixed) (w : VecWidth) (d a b : VReg)
    (z z' : Bool) : (instr3 w d a b z).Like π (instr3 w (π d) (π a) (π b) z') :=
  AppInstr.like_of_forall₂ (.cons (Opnd.like_vec π w d) .nil) (.cons (Opnd.like_opmask π 0) <|
    .cons (Opnd.like_vec π w a) <| .cons (Opnd.like_vec π w b) .nil) z z'

/-- A verdict on representatives decides for all registers. -/
theorem Gen.writes_instr3_iff {fixed : List VReg} (hfixed : ∀ r ∈ fixed, r ∈ spillPool) {g : Gen}
    {w : VecWidth} {want : VReg → VReg → Halves} {σ : Loc VReg → Val} {p : VReg → VReg → VReg → Bool}
    (hjudged : ∀ d ∈ canon fixed 0 [], ∀ a ∈ canon fixed 1 [d], ∀ b ∈ canon fixed 2 [d, a],
      g.judge fixed (instr3 w d a b false) w (some w) d (want a b) σ = if p d a b then .right else .wrong)
    (hp : ∀ (π : Renaming fixed) (d a b : VReg), p (π d) (π a) (π b) = p d a b)
    {f : State → VReg → VReg → BitVec (8 * w.bytes)}
    (hf : ∀ (E : Ext) (e : Env) (π : Renaming fixed) (a b : VReg) (s : State),
      f s (π a) (π b) = (want a b).value w E e π s)
    (c : Context) (d a b : VReg) (z : Bool) :
    g.Writes c (instr3 w d a b z) w (some w) d (fun s ↦ f s a b) ↔ p d a b = true := by
  obtain ⟨π, d, hd, a, ha, b, hb, rfl, rfl, rfl⟩ := exists_renaming3 hfixed d a b
  rw [hp π]
  exact Gen.writes_iff (like_instr3 π w d a b false z) (hjudged d hd a ha b hb)
    (fun E e _ s ↦ hf E e π a b s) c

/-! ## Operands and results -/

/-- The contents of a register, as an operand of a width. -/
def srcTerm (w : VecWidth) (r : VReg) : Term (Loc VReg) TOpnd VOp :=
  .un (.low w.bytes) (.var (homeOf r))

theorem eval_srcTerm {fixed : List VReg} (π : Renaming fixed) (E : Ext) (e : Env) (s : State)
    (w : VecWidth) (r : VReg) :
    (srcTerm w r).eval (symAlgebra E e s) (s.get ∘ Loc.map π) = low w.bytes (s.zmmLo (π r)) := by
  rw [← State.get_homeOf, ← map_homeOf]
  rfl

/-- An operation on two registers of at most 256 bits. -/
def wantBin (op : Op) (w : VecWidth) (a b : VReg) : Halves :=
  (.bin (.op op w.bytes false) (srcTerm w a) (srcTerm w b), .var (.hi 0))

theorem value_wantBin {fixed : List VReg} (π : Renaming fixed) (E : Ext) (e : Env) (s : State)
    (op : Op) (w : VecWidth) (a b : VReg) : (wantBin op w a b).value w E e π s =
      w.assemble (op.result E w.bytes false
        [low w.bytes (s.zmmLo (π a)), low w.bytes (s.zmmLo (π b))]) (s.hi (π 0)) := by
  rw [← eval_srcTerm π E e s w a, ← eval_srcTerm π E e s w b]
  rfl

/-- A state in which no two registers agree in any lane of so many bits. -/
def probe (lane : ℕ) (l : Loc VReg) : Val :=
  let code := match l with
    | .ymm r => 1 + r.val
    | .lo r => 33 + r.val
    | .hi r => 65 + r.val
  ofLanes 256 (fun _ ↦ BitVec.ofNat lane code) (256 / lane)

/-! ## The 256-bit or -/

/-- The result of `vporq` on ymm registers is lost: one source has to be brought in, and the
destination is the scratch register, which is then restored. -/
def vporqLoses (d a b : VReg) : Bool :=
  (a.high && !b.high && (d == 10 && b != 10 || d == 11 && b == 10)) ||
    (!a.high && b.high && (d == 10 && a != 10 || d == 11 && a == 10))

theorem vporq_judged : ∀ d ∈ canon [10, 11, 12] 0 [], ∀ a ∈ canon [10, 11, 12] 1 [d],
    ∀ b ∈ canon [10, 11, 12] 2 [d, a],
      vporqYmmAndYmmGen.judge [10, 11, 12] (instr3 .ymm d a b false) .ymm (some .ymm) d (wantBin .vpor .ymm a b)
        (probe 64) = if !vporqLoses d a b then .right else .wrong := by
  decide +kernel

section Fixed

variable (π : Renaming [10, 11, 12]) (r : VReg)

theorem apply_beq_ten : (π r == 10) = (r == 10) := π.beq_fixed (by decide) r

theorem apply_beq_eleven : (π r == 11) = (r == 11) := π.beq_fixed (by decide) r

end Fixed

theorem vporqLoses_apply (π : Renaming [10, 11, 12]) (d a b : VReg) :
    vporqLoses (π d) (π a) (π b) = vporqLoses d a b := by
  simp only [vporqLoses, bne, π.high_apply, apply_beq_ten, apply_beq_eleven]

theorem vporq_writes_iff (c : Context) (d a b : VReg) (z : Bool) :
    vporqYmmAndYmmGen.Writes c (instr3 .ymm d a b z) .ymm (some .ymm) d
      (fun s ↦ s.vec .ymm a ||| s.vec .ymm b) ↔ (!vporqLoses d a b) = true := by
  refine Gen.writes_instr3_iff (f := fun s a b ↦ s.vec .ymm a ||| s.vec .ymm b) (by decide)
    vporq_judged (fun π d a b ↦ by rw [vporqLoses_apply]) (fun E e π a b s ↦ ?_) c d a b z
  rw [value_wantBin, State.vec_ymm, State.vec_ymm]
  exact (congrArg₂ (· ||| ·) (low_32 _) (low_32 _)).symm

/-- The 256-bit or is right unless one source has to be brought in and the destination is the first
scratch register besides the other source. -/
theorem vporqYmmAndYmmGen_writes_iff (c : Context) (d a b : VReg) (z : Bool) :
    vporqYmmAndYmmGen.Writes c (instr3 .ymm d a b z) .ymm (some .ymm) d
      (fun s ↦ s.vec .ymm a ||| s.vec .ymm b) ↔ vporqLoses d a b = false := by
  rw [vporq_writes_iff, Bool.not_eq_true']

/-! ## The 128-bit subtraction -/

/-- `vpsubq` on xmm registers goes wrong: with both sources to be brought in a scratch register is
not restored, with the second source and the destination the first source is restored in place of
the scratch register, and with the second source alone the scratch register is `xmm10` although it
may be the first source. -/
def vpsubqLoses (d a b : VReg) : Bool :=
  (a.high && b.high && !d.high) || (!a.high && b.high && d.high) ||
    (b.high && d == a && d == 10)

theorem vpsubq_judged : ∀ d ∈ canon [10, 11, 12] 0 [], ∀ a ∈ canon [10, 11, 12] 1 [d],
    ∀ b ∈ canon [10, 11, 12] 2 [d, a],
      vpsubqXmmAndXmmGen.judge [10, 11, 12] (instr3 .xmm d a b false) .xmm (some .xmm) d
        (wantBin .vpsubq .xmm a b) (probe 64) = if !vpsubqLoses d a b then .right else .wrong := by
  decide +kernel

theorem vpsubqLoses_apply (π : Renaming [10, 11, 12]) (d a b : VReg) :
    vpsubqLoses (π d) (π a) (π b) = vpsubqLoses d a b := by
  simp only [vpsubqLoses, π.high_apply, apply_beq_ten, π.beq_apply]

theorem setWidth_low_16 (v : Val) : (low 16 v).setWidth 128 = v.setWidth 128 :=
  setWidth_eq_of_low_eq (n := 16) (low_low 16 v)

theorem vpsubq_writes_iff (c : Context) (d a b : VReg) (z : Bool) :
    vpsubqXmmAndXmmGen.Writes c (instr3 .xmm d a b z) .xmm (some .xmm) d
      (fun s ↦ zipLanes 64 (· - ·) (s.vec .xmm a) (s.vec .xmm b)) ↔ (!vpsubqLoses d a b) = true := by
  refine Gen.writes_instr3_iff (f := fun s a b ↦ zipLanes 64 (· - ·) (s.vec .xmm a) (s.vec .xmm b))
    (by decide) vpsubq_judged (fun π d a b ↦ by rw [vpsubqLoses_apply]) (fun E e π a b s ↦ ?_)
    c d a b z
  rw [value_wantBin, State.vec_xmm, State.vec_xmm, ← setWidth_low_16, ← setWidth_low_16 (s.zmmLo (π b))]
  exact (setWidth_zipLanes (j := 2) (by decide) _ _ _ (by decide)).symm

/-! ## The pattern with fixed scratch registers -/

/-- The common pattern goes wrong: it takes `xmm10` and `xmm11` without looking whether one of them
is an operand. -/
def vop3Loses (d a b : VReg) : Bool :=
  (a.high && b.high && (d == 10 || d == 11)) || (a.high && d.high && b == 10) ||
    (b.high && d.high && a == 10) || (b.high && d == a && d == 10)

theorem vop3Loses_apply (π : Renaming [10, 11, 12]) (d a b : VReg) :
    vop3Loses (π d) (π a) (π b) = vop3Loses d a b := by
  simp only [vop3Loses, π.high_apply, apply_beq_ten, apply_beq_eleven, π.beq_apply]

theorem vpsllq_judged : ∀ d ∈ canon [10, 11, 12] 0 [], ∀ a ∈ canon [10, 11, 12] 1 [d],
    ∀ b ∈ canon [10, 11, 12] 2 [d, a],
      vpsllqXmm2xmmGen.judge [10, 11, 12] (instr3 .xmm d a b false) .xmm (some .xmm) d
        (wantBin .vpsllq .xmm a b) (probe 64) = if !vop3Loses d a b then .right else .wrong := by
  decide +kernel

/-- The 64-bit lanes of `a` shifted left by the low quadword of `b`. -/
def shiftLeftLanes (a b : BitVec 128) : BitVec 128 :=
  ofLanes 128 (fun j ↦ if 63 < (lane 64 0 b).toNat then 0 else lane 64 j a <<< (lane 64 0 b).toNat) 2

theorem setWidth_shiftLanes (x y : Val) :
    (shiftLanes 64 (· <<< ·) (low 16 x) (low 8 (low 16 y)).toNat).setWidth 128 =
      shiftLeftLanes (x.setWidth 128) (y.setWidth 128) := by
  have hcount : (low 8 (low 16 y)).toNat = (lane 64 0 (y.setWidth 128)).toNat := by
    rw [low_low_min, toNat_low (by decide), lane_setWidth y (by decide), lane,
      BitVec.extractLsb'_toNat]
    rfl
  rw [shiftLanes, hcount]
  refine (setWidth_ofLanes (n := 256) (w := 64) (j := 2) (k := 4) (by decide) _ (by decide)
    (by decide)).trans ?_
  refine eq_of_lane_eq (w := 64) (k := 2) (by decide) (by decide) fun j hj ↦ ?_
  rw [lane_ofLanes _ hj (by decide), shiftLeftLanes, lane_ofLanes _ hj (by decide),
    ← setWidth_low_16 x, lane_setWidth (low 16 x) (by omega)]
  split
  next hlarge => exact BitVec.shiftLeft_eq_zero hlarge
  · rfl

theorem vpsllq_writes_iff (c : Context) (d a b : VReg) (z : Bool) :
    vpsllqXmm2xmmGen.Writes c (instr3 .xmm d a b z) .xmm (some .xmm) d
      (fun s ↦ shiftLeftLanes (s.vec .xmm a) (s.vec .xmm b)) ↔ (!vop3Loses d a b) = true := by
  refine Gen.writes_instr3_iff (f := fun s a b ↦ shiftLeftLanes (s.vec .xmm a) (s.vec .xmm b))
    (by decide) vpsllq_judged (fun π d a b ↦ by rw [vop3Loses_apply]) (fun E e π a b s ↦ ?_) c d a b z
  rw [value_wantBin, State.vec_xmm, State.vec_xmm]
  exact (setWidth_shiftLanes _ _).symm

/-- The 128-bit subtraction and shift are right exactly for the registers that are not clobbered on
the way. -/
theorem vpsubq_vpsllq_writes_iff (c : Context) (d a b : VReg) (z : Bool) :
    (vpsubqXmmAndXmmGen.Writes c (instr3 .xmm d a b z) .xmm (some .xmm) d
      (fun s ↦ zipLanes 64 (· - ·) (s.vec .xmm a) (s.vec .xmm b)) ↔ vpsubqLoses d a b = false) ∧
    (vpsllqXmm2xmmGen.Writes c (instr3 .xmm d a b z) .xmm (some .xmm) d
      (fun s ↦ shiftLeftLanes (s.vec .xmm a) (s.vec .xmm b)) ↔ vop3Loses d a b = false) := by
  rw [vpsubq_writes_iff, vpsllq_writes_iff, Bool.not_eq_true', Bool.not_eq_true']
  exact ⟨Iff.rfl, Iff.rfl⟩

/-- With one source to be brought in and `ymm10` as the destination, the or is lost. -/
theorem not_writes_vporq_ymm10 :
    ¬vporqYmmAndYmmGen.Writes ⟨false, fun _ ↦ 0⟩ (instr3 .ymm 10 16 1 false) .ymm (some .ymm) 10
      (fun s ↦ s.vec .ymm 16 ||| s.vec .ymm 1) := by
  rw [vporq_writes_iff]
  decide

/-- With both sources to be brought in, the subtraction leaves the second one in `xmm11`. -/
theorem not_writes_vpsubq_xmm16_xmm17 :
    ¬vpsubqXmmAndXmmGen.Writes ⟨false, fun _ ↦ 0⟩ (instr3 .xmm 0 16 17 false) .xmm (some .xmm) 0
      (fun s ↦ zipLanes 64 (· - ·) (s.vec .xmm 16) (s.vec .xmm 17)) := by
  rw [vpsubq_writes_iff]
  decide

/-! ## Scalar moves -/

/-- The low `n` bits of `b` under the other bits of `a`. -/
def scalarMove (n : ℕ) (a b : BitVec 128) : BitVec 128 :=
  a >>> n <<< n ||| (b.setWidth n).setWidth 128

theorem setWidth_merge_low {k : ℕ} (x y : Val) :
    (merge k (low 16 x) (low 16 y)).setWidth 128 =
      scalarMove (8 * k) (x.setWidth 128) (y.setWidth 128) := by
  refine BitVec.eq_of_getLsbD_eq fun j hj ↦ ?_
  rw [BitVec.getLsbD_setWidth, getLsbD_merge, getLsbD_low, getLsbD_low, scalarMove,
    BitVec.getLsbD_or, BitVec.getLsbD_shiftLeft, BitVec.getLsbD_ushiftRight, BitVec.getLsbD_setWidth,
    BitVec.getLsbD_setWidth, BitVec.getLsbD_setWidth, BitVec.getLsbD_setWidth]
  by_cases hk : j < 8 * k
  · simp [hk, hj]
  · simp [hk, hj, Nat.add_sub_cancel' (Nat.le_of_not_lt hk)]

theorem vmovss_judged : ∀ d ∈ canon [10, 11, 12] 0 [], ∀ a ∈ canon [10, 11, 12] 1 [d],
    ∀ b ∈ canon [10, 11, 12] 2 [d, a],
      rwFuncVmovss.judge [10, 11, 12] (instr3 .xmm d a b false) .xmm (some .xmm) d
        (wantBin .vmovss .xmm a b) (probe 32) = if !vop3Loses d a b then .right else .wrong := by
  decide +kernel

theorem vmovss_writes_iff (c : Context) (d a b : VReg) (z : Bool) :
    rwFuncVmovss.Writes c (instr3 .xmm d a b z) .xmm (some .xmm) d
      (fun s ↦ scalarMove 32 (s.vec .xmm a) (s.vec .xmm b)) ↔ (!vop3Loses d a b) = true := by
  refine Gen.writes_instr3_iff (f := fun s a b ↦ scalarMove 32 (s.vec .xmm a) (s.vec .xmm b))
    (by decide) vmovss_judged (fun π d a b ↦ by rw [vop3Loses_apply]) (fun E e π a b s ↦ ?_) c d a b z
  rw [value_wantBin, State.vec_xmm, State.vec_xmm]
  exact (setWidth_merge_low (k := 4) _ _).symm

/-- What `vmovsd` should leave: where the sources are the same register, what `vmovss` does. -/
def wantVmovsd (a b : VReg) : Halves :=
  if a = b then wantBin .vmovss .xmm a b
  else (.bin (.merge 8) (srcTerm .xmm a) (srcTerm .xmm b), .var (.hi 0))

theorem vmovsd_judged : ∀ d ∈ canon [10, 11, 12] 0 [], ∀ a ∈ canon [10, 11, 12] 1 [d],
    ∀ b ∈ canon [10, 11, 12] 2 [d, a],
      rwFuncVmovsd.judge [10, 11, 12] (instr3 .xmm d a b false) .xmm (some .xmm) d (wantVmovsd a b) (probe 32) =
        if a == b && !vop3Loses d a b then .right else .wrong := by
  decide +kernel

theorem vmovsd_writes_iff (c : Context) (d a b : VReg) (z : Bool) :
    rwFuncVmovsd.Writes c (instr3 .xmm d a b z) .xmm (some .xmm) d
      (fun s ↦ scalarMove 64 (s.vec .xmm a) (s.vec .xmm b)) ↔
        (a == b && !vop3Loses d a b) = true := by
  refine Gen.writes_instr3_iff (p := fun d a b ↦ a == b && !vop3Loses d a b)
    (f := fun s a b ↦ scalarMove 64 (s.vec .xmm a) (s.vec .xmm b))
    (by decide) vmovsd_judged (fun π d a b ↦ ?_) (fun E e π a b s ↦ ?_) c d a b z
  · rw [vop3Loses_apply, π.beq_apply]
  · rw [wantVmovsd]
    split
    next hab =>
      subst hab
      have hself (k : ℕ) (x : Val) : merge k x x = x := by
        refine BitVec.eq_of_getLsbD_eq fun j hj ↦ ?_
        rw [getLsbD_merge, ite_self]
      rw [value_wantBin, State.vec_xmm, ← setWidth_merge_low (k := 8), hself]
      exact congrArg (·.setWidth 128) (hself 4 _).symm
    · have hmerge := congrArg₂ (fun x y ↦ (merge 8 x y).setWidth 128) (eval_srcTerm π E e s .xmm a)
        (eval_srcTerm π E e s .xmm b)
      rw [State.vec_xmm, State.vec_xmm]
      exact (hmerge.trans (setWidth_merge_low (k := 8) _ _)).symm

/-- The single precision move is right for the registers that are not clobbered on the way; the
double precision one, which is a copy of it, only if its sources are the same register besides. -/
theorem vmovss_vmovsd_writes_iff (c : Context) (d a b : VReg) (z : Bool) :
    (rwFuncVmovss.Writes c (instr3 .xmm d a b z) .xmm (some .xmm) d
      (fun s ↦ scalarMove 32 (s.vec .xmm a) (s.vec .xmm b)) ↔ vop3Loses d a b = false) ∧
    (rwFuncVmovsd.Writes c (instr3 .xmm d a b z) .xmm (some .xmm) d
      (fun s ↦ scalarMove 64 (s.vec .xmm a) (s.vec .xmm b)) ↔
        a = b ∧ vop3Loses d a b = false) := by
  rw [vmovss_writes_iff, vmovsd_writes_iff, Bool.and_eq_true, beq_iff_eq, Bool.not_eq_true']
  exact ⟨Iff.rfl, Iff.rfl⟩

/-- `vmovsd xmm0, xmm1, xmm2` moves 32 bits only. -/
theorem not_writes_vmovsd_xmm0 :
    ¬rwFuncVmovsd.Writes ⟨false, fun _ ↦ 0⟩ (instr3 .xmm 0 1 2 false) .xmm (some .xmm) 0
      (fun s ↦ scalarMove 64 (s.vec .xmm 1) (s.vec .xmm 2)) := by
  rw [vmovsd_writes_iff]
  decide

end DrAvx
