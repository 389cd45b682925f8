import DrAvx.Emulation.Ensures
import DrAvx.Emulation.LaneCompare
import DrAvx.Handlers.Compare

/-!
# The comparisons `vpcmpd`, `vpcmpud` and `vpcmpw`

A comparison of two vectors sets the bits of an opmask register for the lanes that are not masked out
and satisfy the predicate, and clears all others.  The chains come to that only in some of the cases
they are selected for: where the old destination is kept it shows through in the lanes that are
masked out, and where `k0` is not looked for its slot is taken for a mask.

## What is here

* `Predicate`, `compareInstr`, `Compares`: the predicates, the instructions and what they are to do.
* `vpcmpd_ensures_iff`, `vpcmpd_neq_ensures_iff`: for which operands `vpcmpd` is right.
* `vpcmpud_nle_ensuresFrom_iff`: for which states `vpcmpud` is right.
* `not_ensures_vpcmpw`: `vpcmpw` never is.
-/

set_option autoImplicit false

namespace DrAvx

open Function Bits LaneCompare

/-! ## What is to be done -/

/-- The predicates that have handlers. -/
inductive Predicate
  | eq | le | neq | nle

namespace Predicate

def imm : Predicate → ℤ
  | eq => 0
  | le => 2
  | neq => 4
  | nle => 6

/-- The comparison of signed numbers. -/
def holds {w : ℕ} (p : Predicate) (x y : BitVec w) : Bool :=
  match p with
  | eq => x == y
  | le => x.sle y
  | neq => x != y
  | nle => !x.sle y

end Predicate

/-- A comparison of ymm registers, as the decoder delivers it. -/
def compareInstr (p : Predicate) (d k : KReg) (a b : VReg) : AppInstr :=
  ⟨[.opmask d], [.opmask k, .imm p.imm 1, .vec .ymm a, .vec .ymm b], false⟩

/-- The lanes that are not masked out. -/
def activeLane (k : KReg) (s : State) (j : ℕ) : Bool := decide (k = 0) || (s.kslot k).getLsbD j

/-- The destination has the bits of the active lanes that pass a test, and no others. -/
def Compares (w : ℕ) (test : BitVec w → BitVec w → Bool) (d k : KReg) (a b : VReg) (s t : State) :
    Prop :=
  ∀ j < 64, (t.kslot d).getLsbD j = (decide (j < 256 / w) && (activeLane k s j &&
    test (lane w j (s.zmmLo a)) (lane w j (s.zmmLo b))))

/-! ## What the chains come to -/

/-- The generator returns the chain of a comparison that brings `x` and `y` to the stack. -/
def IsComparison (g : Gen) (c : Context) (i : AppInstr) (keep : Bool) (loop : LaneCompare.Loop)
    (cond : Cond) (d k : KReg) (x y : VReg) : Prop :=
  ∃ removed linked load, g.run c i = .chain removed linked (code load keep loop cond d k) ∧
    Loads load x y

/-- The bits that such a chain leaves are the wanted ones. -/
def Agrees (keep : Bool) (loop : LaneCompare.Loop) (cond : Cond)
    (test : BitVec 32 → BitVec 32 → Bool) (d k : KReg) (x y a b : VReg) (s : State) : Prop :=
  ∀ j < 8, (if loop.active k s j then cond.compare (lane 32 j (s.zmmLo x)) (lane 32 j (s.zmmLo y))
    else (initial s keep d).getLsbD j) =
      (activeLane k s j && test (lane 32 j (s.zmmLo a)) (lane 32 j (s.zmmLo b)))

section Chains

variable {g : Gen} {c : Context} {i : AppInstr} {keep : Bool} {loop : LaneCompare.Loop}
  {cond : Cond} {test : BitVec 32 → BitVec 32 → Bool} {d k : KReg} {a b x y : VReg} {s : State}

/-- A chain with a scratch register that avoids an operand. -/
theorem isComparison_emit {p : Pos} {body : List TInsn} (load : VReg → List Insn)
    (hbody : ∀ t, body.map (TInsn.inst ⟨i, [t], []⟩) = code (load t) keep loop cond d k)
    (hload : ∀ t : VReg, t.high = false → (i.opnd p).vreg ≠ t → Loads (load t) x y) :
    IsComparison (emit [[.op p]] body) c i keep loop cond d k x y := by
  obtain ⟨t, ht, hne, hrun⟩ := exists_run_emit c i p body
  rw [hbody] at hrun
  exact ⟨1, true, load t, hrun, hload t ht hne⟩

/-- The chain leaves the registers and flags alone, so only the destination is in question. -/
theorem ensuresFrom_iff_agrees (h : IsComparison g c i keep loop cond d k x y)
    {post : State → State → Prop}
    (hpost : ∀ t, t.gpr = s.gpr → t.flags = s.flags → t.ymm = s.ymm →
      (post s t ↔ Compares 32 test d k a b s t)) :
    g.EnsuresFrom c i s post ↔ Agrees keep loop cond test d k x y a b s := by
  obtain ⟨removed, linked, load, hrun, hload⟩ := h
  refine Gen.ensuresFrom_iff hrun fun E ↦ ?_
  obtain ⟨lo, mem, hexec⟩ := exec_code E s keep loop cond d k hload
  refine ⟨_, hexec, ?_⟩
  rw [hpost]
  rotate_left
  · rfl
  · rfl
  · rfl
  have hbit (j : ℕ) : (update s.kslot d (collected s keep loop cond d k x y) d).getLsbD j =
      (decide (j < 8) && if loop.active k s j then
        cond.compare (lane 32 j (s.zmmLo x)) (lane 32 j (s.zmmLo y))
        else (initial s keep d).getLsbD j) := by
    rw [update_self, getLsbD_collected]
  constructor
  · intro hcompares j hj
    have hj' := (hbit j).symm.trans (hcompares j (by omega))
    simpa [hj] using hj'
  · intro hagrees j _
    refine (hbit j).trans ?_
    by_cases hj : j < 8
    · rw [hagrees j hj]
    · rw [decide_eq_false hj, Bool.false_and, Bool.false_and]

theorem ensures_iff_agrees (h : IsComparison g c i keep loop cond d k x y) :
    g.Ensures c i (Compares 32 test d k a b) ↔ ∀ s, Agrees keep loop cond test d k x y a b s :=
  Gen.ensures_iff_forall.trans
    (forall_congr' fun _ ↦ ensuresFrom_iff_agrees h fun _ _ _ _ ↦ Iff.rfl)

/-- The same, where the registers and flags are asked for. -/
theorem ensures_frame_iff_agrees (h : IsComparison g c i keep loop cond d k x y) :
    g.Ensures c i (fun s t ↦ Compares 32 test d k a b s t ∧ t.gpr = s.gpr ∧ t.flags = s.flags ∧
      t.ymm = s.ymm) ↔ ∀ s, Agrees keep loop cond test d k x y a b s :=
  Gen.ensures_iff_forall.trans (forall_congr' fun _ ↦ ensuresFrom_iff_agrees h
    fun _ hgpr hflags hymm ↦ and_iff_left ⟨hgpr, hflags, hymm⟩)

/-- Without a mask. -/
theorem agrees_plain_iff (hloop : loop.active k s = fun _ ↦ true) (hk : k = 0) :
    Agrees keep loop cond test d k x y a b s ↔ ∀ j < 8,
      cond.compare (lane 32 j (s.zmmLo x)) (lane 32 j (s.zmmLo y)) =
        test (lane 32 j (s.zmmLo a)) (lane 32 j (s.zmmLo b)) := by
  subst hk
  simp [Agrees, hloop, activeLane]

/-- With a mask. -/
theorem agrees_masked_iff {again : Bool} (hk : k ≠ 0) :
    Agrees keep (.masked again) cond test d k x y a b s ↔ ∀ j < 8, if (s.kslot k).getLsbD j then
      cond.compare (lane 32 j (s.zmmLo x)) (lane 32 j (s.zmmLo y)) =
        test (lane 32 j (s.zmmLo a)) (lane 32 j (s.zmmLo b))
      else (initial s keep d).getLsbD j = false := by
  refine forall₂_congr fun j _ ↦ ?_
  rw [activeLane, decide_eq_false hk, Bool.false_or, LaneCompare.Loop.active]
  cases (s.kslot k).getLsbD j with
  | true => simp
  | false => simp

/-- A chain that takes the slot of `k0` for a mask. -/
theorem agrees_masked_zero_iff {again : Bool} :
    Agrees keep (.masked again) cond test d 0 x y a b s ↔ ∀ j < 8, (if (s.kslot 0).getLsbD j then
      cond.compare (lane 32 j (s.zmmLo x)) (lane 32 j (s.zmmLo y))
      else (initial s keep d).getLsbD j) =
        test (lane 32 j (s.zmmLo a)) (lane 32 j (s.zmmLo b)) := by
  refine forall₂_congr fun j _ ↦ ?_
  rw [activeLane, decide_eq_true rfl, Bool.true_or, Bool.true_and, LaneCompare.Loop.active]

variable {again : Bool} (hcond : ∀ x y, cond.compare x y = test x y)
include hcond

/-- Without a mask it does not matter what the collection begins with. -/
theorem agrees_plain (hloop : loop.active k s = fun _ ↦ true) (hk : k = 0) :
    Agrees keep loop cond test d k a b a b s :=
  (agrees_plain_iff hloop hk).mpr fun _ _ ↦ hcond _ _

/-- With a mask it may begin with nothing. -/
theorem agrees_masked (hk : k ≠ 0) : Agrees false (.masked again) cond test d k a b a b s := by
  rw [agrees_masked_iff hk]
  intro j _
  split
  · exact hcond _ _
  · exact BitVec.getLsbD_zero

/-- If it begins with the old destination, that has to be the mask. -/
theorem forall_agrees_keep_iff (hk : k ≠ 0) :
    (∀ s, Agrees true (.masked again) cond test d k a b a b s) ↔ d = k := by
  constructor
  · intro h
    by_contra hne
    -- a bit of the destination that is masked out
    obtain ⟨s, hs⟩ : ∃ s : State, s.kslot = update (fun _ ↦ 0#64) d 1#64 :=
      ⟨{ State.blank with kslot := _ }, rfl⟩
    have hbit := (agrees_masked_iff hk).mp (h s) 0 (by decide)
    rw [hs, update_of_ne (Ne.symm hne), if_neg (by decide), initial, if_pos rfl, hs, update_self] at hbit
    exact absurd hbit (by decide)
  · rintro rfl s
    rw [agrees_masked_iff hk]
    intro j _
    split
    next => exact hcond _ _
    next hmask => exact Bool.eq_false_iff.mpr hmask

omit hcond in
/-- The slot of `k0` cannot be taken for a mask. -/
theorem not_forall_agrees_zero (htest : test 0 0 = true) :
    ¬∀ s, Agrees keep (.masked again) cond test d 0 x y a b s := by
  intro h
  have hbit := agrees_masked_zero_iff.mp (h .blank) 0 (by decide)
  have hzero (r : VReg) : lane 32 0 (State.blank.zmmLo r) = 0 := by
    have hlane : lane 32 0 (0 : Val) = 0 := by decide
    rw [State.zmmLo]
    split <;> exact hlane
  have hinitial : (initial .blank keep d).getLsbD 0 = false := by
    cases keep <;> exact BitVec.getLsbD_zero
  rw [if_neg (by decide), hinitial, hzero, hzero, htest] at hbit
  cases hbit

end Chains

section Runs

variable (c : Context) (d k : KReg) (a b : VReg)

def vpcmpdHandler : Predicate → Gen
  | .eq => rwFuncVpcmpdEQYmmYmm
  | .le => rwFuncVpcmpdLEYmmYmm
  | .neq => rwFuncVpcmpdNEQYmmYmm
  | .nle => rwFuncVpcmpdNLEYmmYmm

theorem run_vpcmpd (p : Predicate) : rwFuncVpcmpd.run c (compareInstr p d k a b) =
    (vpcmpdHandler p).run c (compareInstr p d k a b) := by
  cases p <;> rfl

theorem answer_isK (p : Predicate) :
    (Query.isK .s0 0).answer c (compareInstr p d k a b) = decide (k = 0) := by
  have hanswer : (Query.isK .s0 0).answer c (compareInstr p d k a b) =
      decide (Opnd.opmask k = .opmask 0) := rfl
  simp [hanswer]

theorem answer_s2 (p : Predicate) :
    (Query.test .s2 (.needSpill .ymm)).answer c (compareInstr p d k a b) = a.high :=
  needSpill_vec .ymm a

theorem answer_s3 (p : Predicate) :
    (Query.test .s3 (.needSpill .ymm)).answer c (compareInstr p d k a b) = b.high :=
  needSpill_vec .ymm b

end Runs

/-! ## `vpcmpd` -/

section Vpcmpd

variable (c : Context) (d : KReg) {k : KReg} {a b : VReg}

/-- Equality of registers of which none is spilled. -/
theorem isComparison_eq_low (ha : a.high = false) (hb : b.high = false) :
    IsComparison rwFuncVpcmpd c (compareInstr .eq d k a b) (decide (k = 0))
      (if k = 0 then .plain else .masked true) .z d k a b := by
  refine ⟨1, true, _, ?_, loads_regs ha hb⟩
  rw [run_vpcmpd, vpcmpdHandler, rwFuncVpcmpdEQYmmYmm, run_needSpill2, answer_s2, answer_s3, ha, hb,
    run_ifQ, answer_isK]
  by_cases hk : k = 0
  · rw [if_pos (decide_eq_true hk), if_pos hk, decide_eq_true hk]
    rfl
  · rw [if_neg (Bool.eq_false_iff.mp (decide_eq_false hk)), if_neg hk, decide_eq_false hk]
    rfl

/-- Equality, where only the first register is spilled. -/
theorem isComparison_eq_first (ha : a.high = true) (hb : b.high = false) :
    IsComparison rwFuncVpcmpd c (compareInstr .eq d k a b) (decide (k ≠ 0))
      (if k = 0 then .plain else .masked true) .z d k a b := by
  rw [IsComparison, run_vpcmpd, vpcmpdHandler, rwFuncVpcmpdEQYmmYmm, run_needSpill2, answer_s2,
    answer_s3, ha, hb, run_ifQ, answer_isK]
  by_cases hk : k = 0
  · rw [if_pos (decide_eq_true hk), if_pos hk, decide_eq_false (not_not.mpr hk)]
    exact isComparison_emit (fun t ↦ [saveYmm t, loadYmm t a, put 0 t, loadYmm t t, put 32 b])
      (fun _ ↦ rfl) fun t ht _ ↦ loads_first ha hb ht
  · rw [if_neg (Bool.eq_false_iff.mp (decide_eq_false hk)), if_neg hk, decide_eq_true hk]
    refine isComparison_emit (fun t ↦ [saveYmm t, loadYmm t a, put 0 t, put 32 b, loadYmm t t])
      (fun _ ↦ rfl) fun t ht hne ↦ ?_
    have hload := loads_first_late ha hb ht
    rwa [if_neg (show b ≠ t from hne)] at hload

/-- Equality, where the second register is spilled. -/
theorem isComparison_eq_second (hb : b.high = true) :
    IsComparison rwFuncVpcmpd c (compareInstr .eq d k a b) true (.masked true) .z d k a b := by
  rw [IsComparison, run_vpcmpd, vpcmpdHandler, rwFuncVpcmpdEQYmmYmm, run_needSpill2, answer_s2,
    answer_s3, hb]
  cases ha : a.high with
  | false =>
    exact isComparison_emit (fun t ↦ [saveYmm t, loadYmm t b, put 0 a, put 32 t, loadYmm t t])
      (fun _ ↦ rfl) fun t ht hne ↦ loads_second ha hb ht hne
  | true =>
    exact ⟨1, true, [saveYmm 10, loadYmm 10 a, saveYmm 11, loadYmm 11 b, put 0 10, put 32 11,
      loadYmm 10 10, loadYmm 11 11], rfl, loads_both ha hb rfl rfl (by decide)⟩

theorem isComparison_neq_low (ha : a.high = false) (hb : b.high = false) :
    IsComparison rwFuncVpcmpd c (compareInstr .neq d k a b) false
      (if k = 0 then .plain else .masked true) .nz d k a b := by
  refine ⟨1, true, _, ?_, loads_regs ha hb⟩
  rw [run_vpcmpd, vpcmpdHandler, rwFuncVpcmpdNEQYmmYmm, run_needSpill2, answer_s2, answer_s3, ha, hb,
    run_ifQ, answer_isK]
  by_cases hk : k = 0
  · rw [if_pos (decide_eq_true hk), if_pos hk]
    rfl
  · rw [if_neg (Bool.eq_false_iff.mp (decide_eq_false hk)), if_neg hk]
    rfl

/-- With a mask, the scratch register is fixed and may be the second register. -/
theorem isComparison_neq_first (ha : a.high = true) (hb : b.high = false) :
    IsComparison rwFuncVpcmpd c (compareInstr .neq d k a b) false
      (if k = 0 then .plainLate else .masked true) .nz d k a
      (if k ≠ 0 ∧ b = 10 then a else b) := by
  rw [IsComparison, run_vpcmpd, vpcmpdHandler, rwFuncVpcmpdNEQYmmYmm, run_needSpill2, answer_s2,
    answer_s3, ha, hb, run_ifQ, answer_isK]
  by_cases hk : k = 0
  · rw [if_pos (decide_eq_true hk), if_pos hk, if_neg fun h ↦ h.1 hk]
    exact isComparison_emit (fun t ↦ [saveYmm t, loadYmm t a, put 0 t, loadYmm t t, put 32 b])
      (fun _ ↦ rfl) fun t ht _ ↦ loads_first ha hb ht
  · rw [if_neg (Bool.eq_false_iff.mp (decide_eq_false hk)), if_neg hk]
    refine ⟨1, true, [saveYmm 10, loadYmm 10 a, put 0 10, put 32 b, loadYmm 10 10], rfl, ?_⟩
    have hload := loads_first_late (t := 10) ha hb rfl
    simpa [hk] using hload

theorem run_le (ha : a.high = false) : rwFuncVpcmpd.run c (compareInstr .le d k a b) =
    .chain 1 true (code [put 0 a, put 32 b] true (.masked true) .le d k) := by
  rw [run_vpcmpd, vpcmpdHandler, rwFuncVpcmpdLEYmmYmm, run_needSpill1, answer_s2, ha]
  rfl

theorem run_le_high (ha : a.high = true) : rwFuncVpcmpd.run c (compareInstr .le d k a b) =
    .null 1 := by
  rw [run_vpcmpd, vpcmpdHandler, rwFuncVpcmpdLEYmmYmm, run_needSpill1, answer_s2, ha]
  rfl

theorem isComparison_nle (ha : a.high = false) (hb : b.high = false) :
    IsComparison rwFuncVpcmpd c (compareInstr .nle d k a b) false (.masked false) .nle d k a b := by
  refine ⟨1, true, _, ?_, loads_regs ha hb⟩
  rw [run_vpcmpd, vpcmpdHandler, rwFuncVpcmpdNLEYmmYmm, run_needSpill1, answer_s2, ha, run_needSpill1,
    answer_s3, hb]
  rfl

theorem run_nle_high (h : a.high = true ∨ b.high = true) :
    rwFuncVpcmpd.run c (compareInstr .nle d k a b) = .null 1 := by
  rw [run_vpcmpd, vpcmpdHandler, rwFuncVpcmpdNLEYmmYmm, run_needSpill1, answer_s2]
  cases ha : a.high with
  | true => rfl
  | false =>
    have hb := h.resolve_left (Bool.eq_false_iff.mp ha)
    simp only [run_needSpill1, answer_s3, hb]
    rfl

variable (k a b)

theorem ensures_eq_iff :
    rwFuncVpcmpd.Ensures c (compareInstr .eq d k a b) (Compares 32 Predicate.eq.holds d k a b) ↔
      (a.high = false ∧ b.high = false) ∨ (a.high = true ∧ b.high = false ∧ (k = 0 ∨ d = k)) ∨
        (b.high = true ∧ k ≠ 0 ∧ d = k) := by
  have hcond (x y : BitVec 32) : Cond.z.compare x y = Predicate.eq.holds x y := rfl
  cases hb : b.high with
  | true =>
    rw [ensures_iff_agrees (isComparison_eq_second c d hb)]
    by_cases hk : k = 0
    · subst hk
      simpa using not_forall_agrees_zero (by decide)
    · rw [forall_agrees_keep_iff hcond hk]
      simp [hk]
  | false =>
    cases ha : a.high with
    | false =>
      rw [ensures_iff_agrees (isComparison_eq_low c d ha hb)]
      refine iff_of_true (fun s ↦ ?_) (.inl ⟨rfl, rfl⟩)
      by_cases hk : k = 0
      · rw [if_pos hk]
        exact agrees_plain hcond rfl hk
      · rw [if_neg hk, decide_eq_false hk]
        exact agrees_masked hcond hk
    | true =>
      rw [ensures_iff_agrees (isComparison_eq_first c d ha hb)]
      by_cases hk : k = 0
      · rw [if_pos hk]
        exact iff_of_true (fun s ↦ agrees_plain hcond rfl hk) (.inr (.inl ⟨rfl, rfl, .inl hk⟩))
      · rw [if_neg hk, decide_eq_true hk, forall_agrees_keep_iff hcond hk]
        simp [hk]

theorem ensures_le_iff :
    rwFuncVpcmpd.Ensures c (compareInstr .le d k a b) (Compares 32 Predicate.le.holds d k a b) ↔
      a.high = false ∧ b.high = false ∧ k ≠ 0 ∧ d = k := by
  cases ha : a.high with
  | true =>
    refine iff_of_false (Gen.not_ensures_of_run fun _ _ _ hrun ↦ ?_) fun h ↦ by cases h.1
    rw [run_le_high c d ha] at hrun
    cases hrun
  | false =>
    cases hb : b.high with
    | true =>
      refine iff_of_false (fun h ↦ ?_) fun h ↦ by cases h.2.1
      -- the store of the second register cannot be encoded
      obtain ⟨t, ht, -⟩ := (Gen.ensures_iff_of_run (run_le c d ha)).mp h .blank .blank
      have hpre : straight (pushes saved ++ [down, put 0 a]) = true := by
        rw [straight_append, straight_pushes, Bool.true_and]
        exact (straight_put 0 a []).trans (by rw [ha]; rfl)
      have hcode : code [put 0 a, put 32 b] true (.masked true) .le d k =
          (pushes saved ++ [down, put 0 a]) ++ put 32 b :: (prepare true (.masked true) d k ++
            LaneCompare.Loop.code (.masked true) .le ++ finish d ++ pops saved) := by
        simp [code]
      rw [hcode] at ht
      exact not_exec_of_illegal hpre (by rw [legal_put, hb]; rfl) ht
    | false =>
      rw [ensures_iff_agrees ⟨1, true, _, run_le c d ha, loads_regs ha hb⟩]
      by_cases hk : k = 0
      · subst hk
        simpa using not_forall_agrees_zero (by decide)
      · have hcond (x y : BitVec 32) : Cond.le.compare x y = Predicate.le.holds x y := rfl
        rw [forall_agrees_keep_iff hcond hk]
        simp [hk]

theorem ensures_nle_iff :
    rwFuncVpcmpd.Ensures c (compareInstr .nle d k a b) (Compares 32 Predicate.nle.holds d k a b) ↔
      a.high = false ∧ b.high = false ∧ (k ≠ 0 ∨ a = b) := by
  by_cases hhigh : a.high = true ∨ b.high = true
  · refine iff_of_false (Gen.not_ensures_of_run fun _ _ _ hrun ↦ ?_) fun h ↦ ?_
    · rw [run_nle_high c d hhigh] at hrun
      cases hrun
    · simp [h.1, h.2.1] at hhigh
  rw [not_or, Bool.not_eq_true, Bool.not_eq_true] at hhigh
  obtain ⟨ha, hb⟩ := hhigh
  rw [ensures_iff_agrees (isComparison_nle c d ha hb)]
  have hcond (x y : BitVec 32) : Cond.nle.compare x y = Predicate.nle.holds x y := (not_sle x y).symm
  by_cases hk : k = 0
  · subst hk
    simp only [agrees_masked_zero_iff, ha, hb]
    constructor
    · intro h
      refine ⟨trivial, trivial, .inr ?_⟩
      by_contra hne
      -- the comparison holds, and the slot is zero
      obtain ⟨s, hk, hymm⟩ : ∃ s : State, s.kslot = (fun _ ↦ 0#64) ∧
          s.ymm = update (fun _ ↦ 0#256) a 1#256 :=
        ⟨{ State.blank with kslot := _, ymm := _ }, rfl, rfl⟩
      have hbit := h s 0 (by decide)
      rw [hk, if_neg (by decide), zmmLo_low ha, zmmLo_low hb, hymm, update_self,
        update_of_ne (Ne.symm hne), initial, if_neg Bool.false_ne_true] at hbit
      exact absurd hbit (by decide)
    · rintro ⟨-, -, hk | rfl⟩ s j _
      · exact absurd rfl hk
      · have hself (x : BitVec 32) : Predicate.nle.holds x x = false := by
          rw [Predicate.holds, not_sle, Bool.eq_false_iff, ne_eq, BitVec.slt_iff_toInt_lt]
          exact lt_irrefl _
        rw [hcond, hself, initial]
        split <;> simp
  · exact iff_of_true (fun s ↦ agrees_masked hcond hk) ⟨ha, hb, .inl hk⟩

/-- Equality needs no mask but the destination if it cannot begin with nothing, `≤` always does, and
for `>` the slot of `k0` is taken for a mask. -/
theorem vpcmpd_ensures_iff :
    (rwFuncVpcmpd.Ensures c (compareInstr .eq d k a b) (Compares 32 Predicate.eq.holds d k a b) ↔
      (a.high = false ∧ b.high = false) ∨ (a.high = true ∧ b.high = false ∧ (k = 0 ∨ d = k)) ∨
        (b.high = true ∧ k ≠ 0 ∧ d = k)) ∧
    (rwFuncVpcmpd.Ensures c (compareInstr .le d k a b) (Compares 32 Predicate.le.holds d k a b) ↔
      a.high = false ∧ b.high = false ∧ k ≠ 0 ∧ d = k) ∧
    (rwFuncVpcmpd.Ensures c (compareInstr .nle d k a b) (Compares 32 Predicate.nle.holds d k a b) ↔
      a.high = false ∧ b.high = false ∧ (k ≠ 0 ∨ a = b)) :=
  ⟨ensures_eq_iff c d k a b, ensures_le_iff c d k a b, ensures_nle_iff c d k a b⟩

/-- `vpcmpled k1, ymm1, ymm2`, without a mask. -/
theorem not_ensures_vpcmpled_k1 : ¬rwFuncVpcmpd.Ensures ⟨false, fun _ ↦ 0⟩ (compareInstr .le 1 0 1 2)
    (Compares 32 Predicate.le.holds 1 0 1 2) := by
  rw [ensures_le_iff]
  decide

/-- Where the first register has been stored twice, no lanes differ. -/
theorem not_forall_agrees_twice (ha : a.high = true) (hb : b.high = false) (hk : k ≠ 0) :
    ¬∀ s, Agrees false (.masked true) .nz Predicate.neq.holds d k a a a b s := by
  intro h
  obtain ⟨s, hslot, hlo, hymm⟩ : ∃ s : State, (∀ r, s.kslot r = 1#64) ∧ (∀ r, s.lo r = 1#256) ∧
      ∀ r, s.ymm r = 0#256 :=
    ⟨{ State.blank with kslot := fun _ ↦ 1, lo := fun _ ↦ 1 }, fun _ ↦ rfl, fun _ ↦ rfl, fun _ ↦ rfl⟩
  have hbit := (agrees_masked_iff hk).mp (h s) 0 (by decide)
  rw [hslot, if_pos (by decide), zmmLo_high ha, zmmLo_low hb, hlo, hymm] at hbit
  exact absurd hbit (by decide)

/-- Different lanes are found unless a fixed scratch register gets in the way. -/
theorem vpcmpd_neq_ensures_iff (hb : b.high = false) :
    rwFuncVpcmpd.Ensures c (compareInstr .neq d k a b) (fun s t ↦
      Compares 32 Predicate.neq.holds d k a b s t ∧ t.gpr = s.gpr ∧ t.flags = s.flags ∧
        t.ymm = s.ymm) ↔ ¬(a.high = true ∧ k ≠ 0 ∧ b = 10) := by
  have hcond (x y : BitVec 32) : Cond.nz.compare x y = Predicate.neq.holds x y := rfl
  cases ha : a.high with
  | false =>
    rw [ensures_frame_iff_agrees (isComparison_neq_low c d ha hb)]
    refine iff_of_true (fun s ↦ ?_) fun h ↦ by cases h.1
    by_cases hk : k = 0
    · rw [if_pos hk]
      exact agrees_plain hcond rfl hk
    · rw [if_neg hk]
      exact agrees_masked hcond hk
  | true =>
    rw [ensures_frame_iff_agrees (isComparison_neq_first c d ha hb)]
    by_cases hk : k = 0
    · rw [if_pos hk, if_neg fun h ↦ h.1 hk]
      exact iff_of_true (fun s ↦ agrees_plain hcond rfl hk) fun h ↦ h.2.1 hk
    · rw [if_neg hk]
      by_cases hspill : b = 10
      · rw [if_pos ⟨hk, hspill⟩]
        exact iff_of_false (not_forall_agrees_twice d k a b ha hb hk)
          (not_not.mpr ⟨rfl, hk, hspill⟩)
      · rw [if_neg fun h ↦ hspill h.2]
        exact iff_of_true (fun s ↦ agrees_masked hcond hk) fun h ↦ hspill h.2.2

/-- `vpcmpneqd k1, k2, ymm16, ymm9`. -/
theorem vpcmpneqd_ymm16_ymm9_ensures : VReg.high 9 = false ∧
    rwFuncVpcmpd.Ensures ⟨false, fun _ ↦ 0⟩ (compareInstr .neq 1 2 16 9) (fun s t ↦
      Compares 32 Predicate.neq.holds 1 2 16 9 s t ∧ t.gpr = s.gpr ∧ t.flags = s.flags ∧
        t.ymm = s.ymm) :=
  ⟨rfl, (vpcmpd_neq_ensures_iff ⟨false, fun _ ↦ 0⟩ 1 2 16 9 rfl).mpr (by decide)⟩

/-- `vpcmpneqd k1, k2, ymm16, ymm10`. -/
theorem not_ensures_vpcmpneqd_ymm16_ymm10 :
    ¬rwFuncVpcmpd.Ensures ⟨false, fun _ ↦ 0⟩ (compareInstr .neq 1 2 16 10) (fun s t ↦
      Compares 32 Predicate.neq.holds 1 2 16 10 s t ∧ t.gpr = s.gpr ∧ t.flags = s.flags ∧
        t.ymm = s.ymm) := by
  rw [ensures_frame_iff_agrees (isComparison_neq_first _ 1 rfl rfl)]
  exact not_forall_agrees_twice 1 2 16 10 rfl rfl (by decide)

end Vpcmpd

/-! ## `vpcmpud` -/

section Vpcmpud

variable (c : Context) (d k : KReg) {a b : VReg}

theorem isComparison_vpcmpud (ha : a.high = false) (hb : b.high = false) :
    IsComparison rwFuncVpcmpud c (compareInstr .nle d k a b) (decide (k ≠ 0))
      (if k = 0 then .plain else .masked true) .nle d k a b := by
  have hrun : rwFuncVpcmpud.run c (compareInstr .nle d k a b) =
      rwFuncVpcmpudNLEYmmYmm.run c (compareInstr .nle d k a b) := rfl
  have hreg : (Query.test .s3 (.isKind .reg)).answer c (compareInstr .nle d k a b) = true := rfl
  rw [IsComparison, hrun, rwFuncVpcmpudNLEYmmYmm, run_ifQ, if_pos hreg, run_needSpill1, answer_s2, ha,
    run_needSpill1, answer_s3, hb, run_ifQ, answer_isK]
  by_cases hk : k = 0
  · rw [if_pos (decide_eq_true hk), if_pos hk, decide_eq_false (not_not.mpr hk)]
    exact isComparison_emit (fun t ↦ [put 0 a, saveYmm t, moveYmm t b, put 32 t, loadYmm t t])
      (fun _ ↦ rfl) fun t ht _ ↦ loads_moved ha hb ht
  · rw [if_neg (Bool.eq_false_iff.mp (decide_eq_false hk)), if_neg hk, decide_eq_true hk]
    exact isComparison_emit (fun t ↦ [put 0 a, saveYmm t, moveYmm t b, put 32 t, loadYmm t t])
      (fun _ ↦ rfl) fun t ht _ ↦ loads_moved ha hb ht

theorem run_vpcmpud_high (h : a.high = true ∨ b.high = true) :
    rwFuncVpcmpud.run c (compareInstr .nle d k a b) = .null 1 := by
  have hrun : rwFuncVpcmpud.run c (compareInstr .nle d k a b) =
      rwFuncVpcmpudNLEYmmYmm.run c (compareInstr .nle d k a b) := rfl
  have hreg : (Query.test .s3 (.isKind .reg)).answer c (compareInstr .nle d k a b) = true := rfl
  rw [hrun, rwFuncVpcmpudNLEYmmYmm, run_ifQ, if_pos hreg, run_needSpill1, answer_s2]
  cases ha : a.high with
  | true => rfl
  | false =>
    have hb := h.resolve_left (Bool.eq_false_iff.mp ha)
    simp only [run_needSpill1, answer_s3, hb]
    rfl

/-- The jump for signed numbers is right where the signs are the same. -/
theorem compare_nle_eq_ult_iff (x y : BitVec 32) :
    Cond.nle.compare x y = y.ult x ↔ x.msb = y.msb := by
  rw [Cond.compare, BitVec.slt_eq_ult]
  cases x.msb <;> cases y.msb <;> simp

variable (a b) (s : State)

theorem vpcmpud_nle_ensuresFrom_iff :
    rwFuncVpcmpud.EnsuresFrom c (compareInstr .nle d k a b) s
      (Compares 32 (fun x y ↦ y.ult x) d k a b) ↔
    a.high = false ∧ b.high = false ∧ ∀ j < 8, if activeLane k s j then
      (lane 32 j (s.zmmLo a)).msb = (lane 32 j (s.zmmLo b)).msb
      else (s.kslot d).getLsbD j = false := by
  by_cases hhigh : a.high = true ∨ b.high = true
  · refine iff_of_false (Gen.not_ensuresFrom_of_run fun _ _ _ hrun ↦ ?_) fun h ↦ ?_
    · rw [run_vpcmpud_high c d k hhigh] at hrun
      cases hrun
    · simp [h.1, h.2.1] at hhigh
  rw [not_or, Bool.not_eq_true, Bool.not_eq_true] at hhigh
  obtain ⟨ha, hb⟩ := hhigh
  rw [ensuresFrom_iff_agrees (isComparison_vpcmpud c d k ha hb) fun _ _ _ _ ↦ Iff.rfl]
  simp only [ha, hb, true_and]
  by_cases hk : k = 0
  · rw [if_pos hk, agrees_plain_iff rfl hk]
    refine forall₂_congr fun j _ ↦ ?_
    rw [compare_nle_eq_ult_iff, activeLane, decide_eq_true hk, Bool.true_or, if_pos rfl]
  · rw [if_neg hk, agrees_masked_iff hk, decide_eq_true hk]
    refine forall₂_congr fun j _ ↦ ?_
    rw [compare_nle_eq_ult_iff, activeLane, decide_eq_false hk, Bool.false_or, initial, if_pos rfl]

/-- The only lane that is not zero is the first one of `ymm1`, and only its top bit is set. -/
def topBitState : State :=
  { State.blank with ymm := fun r ↦ if r = 1 then BitVec.ofNat 256 (2 ^ 31) else 0 }

/-- `vpcmpnleud k1, ymm1, ymm2`. -/
theorem not_ensuresFrom_vpcmpnleud_k1 : ¬rwFuncVpcmpud.EnsuresFrom ⟨false, fun _ ↦ 0⟩
    (compareInstr .nle 1 0 1 2) topBitState (Compares 32 (fun x y ↦ y.ult x) 1 0 1 2) := by
  rw [ensuresFrom_iff_agrees (isComparison_vpcmpud _ 1 0 rfl rfl) fun _ _ _ _ ↦ Iff.rfl]
  intro h
  have hbit := (agrees_plain_iff rfl rfl).mp h 0 (by decide)
  exact absurd hbit (by decide)

end Vpcmpud

/-! ## `vpcmpw` -/

section Vpcmpw

/-- At most two bytes of a slot of an opmask register are written. -/
def Opnd.keepsHighBits : Opnd → Bool
  | .kslot _ b => b ≤ 2
  | _ => true

/-- The bits above stay. -/
theorem Exec.getLsbD_kslot {E : Ext} {code : List Insn} {s t : State}
    (hcode : (code.all fun i ↦ i.dsts.all Opnd.keepsHighBits) = true) (h : Exec E code s t) (d : KReg)
    {j : ℕ} (hj : 16 ≤ j) : (t.kslot d).getLsbD j = (s.kslot d).getLsbD j := by
  refine h.frame (f := fun s ↦ (s.kslot d).getLsbD j) fun i hi u ↦ ?_
  refine Insn.effect_frame (f := fun s ↦ (s.kslot d).getLsbD j) (fun _ _ ↦ rfl) fun o ho v x ↦ ?_
  have hkeeps : o.keepsHighBits = true :=
    List.all_eq_true.mp (List.all_eq_true.mp hcode i hi) o ho
  cases o with
  | kslot k b =>
    have hb : b ≤ 2 := of_decide_eq_true hkeeps
    rw [State.kslot_write_kslot]
    rcases eq_or_ne d k with rfl | hne
    · rw [update_self, BitVec.getLsbD_setWidth, getLsbD_merge, if_neg (by omega),
        BitVec.getLsbD_setWidth]
      by_cases hj64 : j < 64
      · simp [hj64, show j < 256 by omega]
      · simp [hj64, BitVec.getLsbD_of_ge _ j (Nat.le_of_not_lt hj64)]
    · rw [update_of_ne hne]
  | zslot r upper b => cases upper <;> rfl
  | _ => rfl

variable {c : Context} {p : Predicate} {d k : KReg} {a b : VReg}

/-- Only the low bits of the destination are written. -/
theorem keepsHighBits_vpcmpwGen {cond : Cond} {g : Gpr} {removed : ℕ} {linked : Bool}
    {code : List Insn}
    (h : (vpcmpwGen cond (.fixed g)).run c (compareInstr p d k a b) = .chain removed linked code) :
    (code.all fun i ↦ i.dsts.all Opnd.keepsHighBits) = true := by
  rw [vpcmpwGen, run_needSpill1, answer_s2] at h
  cases ha : a.high with
  | true =>
    rw [ha] at h
    cases h
  | false =>
    rw [ha, run_needSpill1, answer_s3] at h
    cases hb : b.high with
    | true =>
      rw [hb] at h
      cases h
    | false =>
      rw [hb] at h
      cases h
      rfl

theorem keepsHighBits_vpcmpw {removed : ℕ} {linked : Bool} {code : List Insn}
    (h : rwFuncVpcmpw.run c (compareInstr p d k a b) = .chain removed linked code) :
    (code.all fun i ↦ i.dsts.all Opnd.keepsHighBits) = true := by
  cases p with
  | eq => exact keepsHighBits_vpcmpwGen (p := .eq) (g := .rbx) h
  | neq => exact keepsHighBits_vpcmpwGen (p := .neq) h
  | le | nle => cases h

/-- So a bit above the sixteen lanes would have to be clear before. -/
theorem getLsbD_of_ensures_vpcmpw {test : BitVec 16 → BitVec 16 → Bool}
    (h : rwFuncVpcmpw.Ensures c (compareInstr p d k a b) (Compares 16 test d k a b)) (s : State) :
    (s.kslot d).getLsbD 16 = false := by
  obtain ⟨removed, linked, code, hrun, hexec⟩ := h
  obtain ⟨t, ht, hcompares⟩ := hexec .blank s
  rw [← ht.getLsbD_kslot (keepsHighBits_vpcmpw hrun) d le_rfl, hcompares 16 (by decide)]
  rfl

variable (c p d k a b)

/-- The old bits above the sixteen lanes are always left. -/
theorem not_ensures_vpcmpw :
    ¬rwFuncVpcmpw.Ensures c (compareInstr p d k a b) (Compares 16 p.holds d k a b) := by
  intro h
  have hbit : (BitVec.allOnes 64).getLsbD 16 = false :=
    getLsbD_of_ensures_vpcmpw h { State.blank with kslot := fun _ ↦ BitVec.allOnes 64 }
  exact absurd hbit (by decide)

/-- `vpcmpeqw k1, ymm1, ymm2`. -/
theorem not_ensures_vpcmpeqw_k1 : ¬rwFuncVpcmpw.Ensures ⟨false, fun _ ↦ 0⟩ (compareInstr .eq 1 0 1 2)
    (Compares 16 Predicate.eq.holds 1 0 1 2) := by
  intro h
  have hbit : (BitVec.twoPow 64 16).getLsbD 16 = false :=
    getLsbD_of_ensures_vpcmpw h { State.blank with kslot := fun _ ↦ BitVec.twoPow 64 16 }
  exact absurd hbit (by decide)

end Vpcmpw

end DrAvx
