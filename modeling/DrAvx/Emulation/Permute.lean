import DrAvx.Decode.Operands
import DrAvx.Emulation.Judge
import DrAvx.Handlers.Permute

/-!
# The permutation of two tables of doublewords

`vpermt2ps` picks every element of its result from a table of sixteen: the destination holds the
lower half, a register or memory the upper half, and the low four bits of an index element say which
element to take.  It is emulated by a permutation of each half, between which bit 3 of the index
decides.  The first permutation overwrites the destination, so that the second one goes wrong if it
takes its indices or its table from there.

## What is here

* `permute2`, `selectBy_self`: the permutation of two tables, and that the two permutations and the
  choice between them make it up.
* `vpermt2ps_writes_iff`: the result is right if the destination holds nothing that is read later.
-/

set_option autoImplicit false

namespace DrAvx

open Straight Bits

/-! ## The permutation -/

/-- The elements of a table of sixteen doublewords, in two halves, that the lanes of `idx` select. -/
def permute2 (idx t₀ t₁ : Val) : Val :=
  ofLanes 256 (fun j ↦
    let n := (lane 32 j idx).toNat % 16
    if n < 8 then lane 32 n t₀ else lane 32 (n - 8) t₁) 8

/-- Bit 3 of every lane, in all bits of the lane. -/
def spreadBit3 (idx : Val) : Val :=
  shiftLanes 32 (fun x n ↦ x.sshiftRight n) (shiftLanes 32 (· <<< ·) idx 28) 31

/-- The code computes this if the second permutation takes its indices from `idx'`. -/
def selectBy (idx idx' t₀ t₁ : Val) : Val :=
  (~~~spreadBit3 idx &&& permuteLanes 32 idx t₀) ||| (permuteLanes 32 idx' t₁ &&& spreadBit3 idx)

theorem sshiftRight_shiftLeft_bit3 (x : BitVec 32) :
    (x <<< 28).sshiftRight 31 = laneMask (x.getLsbD 3) := by
  have hmask (i : ℕ) (hi : i < 32) :
      (laneMask (x.getLsbD 3) : BitVec 32).getLsbD i = x.getLsbD 3 := by
    cases h : x.getLsbD 3 with
    | false => exact BitVec.getLsbD_zero
    | true => rw [laneMask, if_pos rfl, BitVec.getLsbD_allOnes, decide_eq_true hi]
  refine BitVec.eq_of_getLsbD_eq fun i hi ↦ ?_
  rw [BitVec.getLsbD_sshiftRight, hmask i hi]
  -- bit 31 of the shifted vector, or its sign, which is the same
  rcases Nat.eq_zero_or_pos i with rfl | hpos
  · simp only [Nat.add_zero, show 31 < 32 by decide, if_true, BitVec.getLsbD_shiftLeft]
    rfl
  · rw [if_neg (by omega), BitVec.msb_eq_getLsbD_last, BitVec.getLsbD_shiftLeft]
    simp [hi]

theorem lane_spreadBit3 (idx : Val) {j : ℕ} (hj : j < 8) :
    lane 32 j (spreadBit3 idx) = laneMask ((lane 32 j idx).getLsbD 3) := by
  rw [spreadBit3, shiftLanes, lane_ofLanes _ hj (by decide), shiftLanes,
    lane_ofLanes _ hj (by decide), sshiftRight_shiftLeft_bit3]

theorem lane_permuteLanes (idx v : Val) {j : ℕ} (hj : j < 8) :
    lane 32 j (permuteLanes 32 idx v) = lane 32 ((lane 32 j idx).toNat % 8) v := by
  rw [permuteLanes, lane_ofLanes _ hj (by decide)]

theorem lane_selectBy (idx idx' t₀ t₁ : Val) {j : ℕ} (hj : j < 8) :
    lane 32 j (selectBy idx idx' t₀ t₁) = if (lane 32 j idx).getLsbD 3
      then lane 32 ((lane 32 j idx').toNat % 8) t₁ else lane 32 ((lane 32 j idx).toNat % 8) t₀ := by
  rw [selectBy, lane_or, lane_and, lane_and, lane_not _ (by omega), lane_spreadBit3 idx hj,
    lane_permuteLanes _ _ hj, lane_permuteLanes _ _ hj]
  cases (lane 32 j idx).getLsbD 3 with
  | false => rw [laneMask, if_neg Bool.false_ne_true, if_neg Bool.false_ne_true,
      BitVec.ofNat_eq_ofNat, BitVec.not_zero, BitVec.allOnes_and, BitVec.and_zero, BitVec.or_zero]
  | true => rw [laneMask, if_pos rfl, if_pos rfl, BitVec.not_allOnes, BitVec.zero_and,
      BitVec.and_allOnes, BitVec.zero_or]

/-- Two permutations and the choice between them make up the permutation of two tables. -/
theorem selectBy_self (idx t₀ t₁ : Val) : selectBy idx idx t₀ t₁ = permute2 idx t₀ t₁ := by
  refine eq_of_lane_eq (w := 32) (k := 8) (by decide) (by decide) fun j hj ↦ ?_
  rw [lane_selectBy _ _ _ _ hj, permute2, lane_ofLanes _ hj (by decide)]
  have hbit : (lane 32 j idx).getLsbD 3 = decide (8 ≤ (lane 32 j idx).toNat % 16) := by
    rw [BitVec.getLsbD, Nat.testBit_eq_decide_div_mod_eq, decide_eq_decide]
    omega
  rw [hbit]
  by_cases h : 8 ≤ (lane 32 j idx).toNat % 16
  · rw [if_pos (decide_eq_true h), if_neg (by omega)]
    congr 1
    omega
  · rw [if_neg (by simpa using h), if_pos (by omega)]
    congr 1
    omega

/-! ## Terms -/

/-- The term of `spreadBit3`. -/
def spreadTerm (idx : Term (Loc VReg) TOpnd VOp) : Term (Loc VReg) TOpnd VOp :=
  .bin (.op .vpsrad 32 true) (.inp (.imm 31 1)) (.bin (.op .vpslld 32 true) (.inp (.imm 28 1)) idx)

/-- The first permutation, where it is to be kept. -/
def firstTerm (idx t₀ : Term (Loc VReg) TOpnd VOp) : Term (Loc VReg) TOpnd VOp :=
  .bin (.op .vpandn 32 false) (spreadTerm idx) (.bin (.op .vpermps 32 false) idx t₀)

/-- The term of `selectBy`. -/
def selectTerm (idx idx' t₀ t₁ : Term (Loc VReg) TOpnd VOp) : Term (Loc VReg) TOpnd VOp :=
  .bin (.op .vpor 32 false) (firstTerm idx t₀)
    (.bin (.op .vpand 32 false) (.bin (.op .vpermps 32 false) idx' t₁) (spreadTerm idx))

/-- The value of the operand at a position, if it is memory. -/
def memTerm (p : Pos) : Term (Loc VReg) TOpnd VOp := .inp (.app p)

/-- The right result for the second table `t₁`. -/
def wantPermute (d a : VReg) (t₁ : Term (Loc VReg) TOpnd VOp) : Halves :=
  (selectTerm (.var (homeOf a)) (.var (homeOf a)) (.var (homeOf d)) t₁, .var (.hi 0))

/-- The result if the destination holds the indices, too. -/
def wantOverwritten (d : VReg) (t₁ : Term (Loc VReg) TOpnd VOp) : Halves :=
  (selectTerm (.var (homeOf d)) (firstTerm (.var (homeOf d)) (.var (homeOf d))) (.var (homeOf d)) t₁,
    .var (.hi 0))

/-- A state in which the lanes of all registers differ. -/
def varied (l : Loc VReg) : Val :=
  ofLanes 256 (fun j ↦ BitVec.ofNat 32 (64 * (l.reg.val + 1) + (3 * j + 8) % 16)) 8

/-! ## Verdicts -/

/-- The instruction, with the index register `a` and a second table in a register or in memory. -/
def permuteInstr (d a : VReg) (o : Opnd) (z : Bool) : AppInstr :=
  ⟨[.vec .ymm d], [.opmask 0, .vec .ymm a, o], z⟩

theorem vpermt2ps_judged : ∀ d ∈ canon [] 0 [], ∀ a ∈ canon [] 1 [d], ∀ b ∈ canon [] 2 [d, a],
    rwFuncVpermt2ps.judgeFresh [s1, d0, s2] 2 (permuteInstr d a (.vec .ymm b) false) .ymm none d
      (wantPermute d a (.var (homeOf b))) varied =
        if !d.high && !a.high && !b.high && d != a && d != b then .right else .wrong := by
  decide +kernel

/-- Memory operands that stand for all of their class. -/
def tables : List Opnd :=
  [.mem .app (.baseDisp none none .none 0 0) 32, .mem .app (.rel none 0) 32]

theorem vpermt2ps_mem_judged : ∀ d ∈ canon [] 0 [], ∀ a ∈ canon [] 1 [d], ∀ o ∈ tables,
    d.high = false → a.high = false →
    rwFuncVpermt2ps.judgeFresh [s1, d0] 2 (permuteInstr d a o false) .ymm none d
      (if d = a then wantOverwritten d (memTerm .s2) else wantPermute d a (memTerm .s2)) varied =
        .right := by
  decide +kernel

/-! ## Results -/

/-- The second table in a register. -/
theorem vpermt2ps_reg_writes_iff (c : Context) (d a b : VReg) (z : Bool) :
    rwFuncVpermt2ps.Writes c (permuteInstr d a (.vec .ymm b) z) .ymm none d
      (fun s ↦ permute2 (s.zmmLo a) (s.zmmLo d) (s.zmmLo b)) ↔
        (!d.high && !a.high && !b.high && d != a && d != b) = true := by
  obtain ⟨ts, hts⟩ : ∃ ts, findVecs (permuteInstr d a (.vec .ymm b) z) (fresh [s1, d0, s2] 2) [] =
      some ts := exists_findVecs_fresh _ (by decide)
  obtain ⟨hlen, hnodup, hpool, havoid⟩ := findVecs_fresh hts
  obtain ⟨π, d, hd, a, ha, b, hb, htake, rfl, rfl, rfl⟩ := exists_moving3 hnodup hpool
    (havoid .d0 (by simp)) (havoid .s1 (by simp)) (havoid .s2 (by simp))
  rw [hlen] at htake
  rw [π.high_apply, π.high_apply, π.high_apply, bne, bne, π.beq_apply, π.beq_apply]
  refine Gen.writes_iff_of_fresh ?_ (by rw [htake]; exact hts) (vpermt2ps_judged d hd a ha b hb)
    (fun E e _ s ↦ ?_) c
  · exact AppInstr.like_of_forall₂ (.cons (Opnd.like_vec π .ymm d) .nil)
      (.cons (Opnd.like_opmask π 0) <| .cons (Opnd.like_vec π .ymm a) <|
        .cons (Opnd.like_vec π .ymm b) .nil) false z
  · rw [← selectBy_self, ← State.get_homeOf, ← State.get_homeOf, ← State.get_homeOf, ← map_homeOf,
      ← map_homeOf, ← map_homeOf]
    rfl

/-- The indices of the second permutation when the destination holds the indices, too. -/
def overwritten (v : Val) : Val := ~~~spreadBit3 v &&& permuteLanes 32 v v

theorem exists_mem_tables {o : Opnd} (h : o.cls ∈ memClasses 32) : ∃ o' ∈ tables, o.cls = o'.cls := by
  rw [memClasses, List.mem_cons, List.mem_singleton] at h
  rcases h with h | h
  · exact ⟨_, List.mem_cons_self, h⟩
  · exact ⟨_, List.mem_cons_of_mem _ List.mem_cons_self, h⟩

theorem isFlatMem_of_mem_tables : ∀ o ∈ tables, o.cls.isFlatMem = true := by
  decide

/-- The second table in memory. -/
theorem vpermt2ps_mem_writes (c : Context) {d a : VReg} {o : Opnd} (z : Bool) (hd : d.high = false)
    (ha : a.high = false) (ho : o.cls ∈ memClasses 32) :
    rwFuncVpermt2ps.Writes c (permuteInstr d a o z) .ymm none d (fun s ↦
      selectBy (s.zmmLo a) (if d = a then overwritten (s.zmmLo d) else s.zmmLo a) (s.zmmLo d)
        (s.read 4 o)) := by
  obtain ⟨ts, hts⟩ : ∃ ts, findVecs (permuteInstr d a o z) (fresh [s1, d0] 2) [] = some ts :=
    exists_findVecs_fresh _ (by decide)
  obtain ⟨hlen, hnodup, hpool, havoid⟩ := findVecs_fresh hts
  obtain ⟨π, d, hd', a, ha', htake, rfl, rfl⟩ := exists_moving2 hnodup hpool
    (havoid .d0 (by simp)) (havoid .s1 (by simp))
  rw [hlen] at htake
  rw [π.high_apply] at hd ha
  obtain ⟨o', ho', hcls⟩ := exists_mem_tables ho
  have hflat := isFlatMem_of_mem_tables o' ho'
  -- the operand is an input of the run on symbols
  have hinput (E : Ext) (e : Env) (he : e.instr = permuteInstr (π d) (π a) o z) (s : State)
      (σ : Loc VReg → Val) : (memTerm .s2).eval (symAlgebra E e s) σ = s.read 4 o := by
    have hinst : (TOpnd.app .s2).inst e = o := by
      rw [TOpnd.inst, he]
      rfl
    refine (congrArg ((s.put fun _ ↦ 0).read 4) hinst).trans (s.read_put _ 4 4 ?_)
    exact Opnd.readsVec_eq_false (by simp [hcls, OpndClass.isInput, hflat])
  have hj := vpermt2ps_mem_judged d hd' a ha' o' ho' hd ha
  refine (Gen.writes_iff_of_fresh (p := true) ?_ (by rw [htake]; exact hts) hj
    (fun E e he s ↦ ?_) c).mpr rfl
  · exact AppInstr.like_of_forall₂ (.cons (Opnd.like_vec π .ymm d) .nil)
      (.cons (Opnd.like_opmask π 0) <| .cons (Opnd.like_vec π .ymm a) <|
        .cons (Opnd.like_of_isFlatMem π hflat hcls) .nil) false z
  · rw [← hinput E e he s (s.get ∘ Loc.map π), ← State.get_homeOf, ← State.get_homeOf, ← map_homeOf,
      ← map_homeOf]
    by_cases h : d = a
    · subst h
      rw [if_pos rfl, if_pos rfl]
      rfl
    · rw [if_neg h, if_neg (π.apply_eq_iff.not.mpr h)]
      rfl

theorem getLsbD_eq_lane (v : Val) : v.getLsbD 0 = (lane 32 0 v).getLsbD 0 := by
  rw [getLsbD_lane]
  simp

/-- The indices are all nine here: element 1 of the second table is wanted, and element 0 taken. -/
theorem getLsbD_selectBy_overwritten (t₀ t₁ : Val) :
    (selectBy (fill 256 9#32) (overwritten (fill 256 9#32)) t₀ t₁).getLsbD 0 = t₁.getLsbD 0 := by
  have hidx : lane 32 0 (fill 256 9#32) = 9#32 := lane_fill 9#32 (by decide)
  have hover : lane 32 0 (overwritten (fill 256 9#32)) = 0#32 := by
    rw [overwritten, lane_and, lane_not _ (by decide), lane_spreadBit3 _ (by decide), hidx]
    exact BitVec.zero_and
  rw [getLsbD_eq_lane, lane_selectBy _ _ _ _ (by decide), hidx, hover, if_pos (by decide)]
  exact (getLsbD_eq_lane t₁).symm

theorem getLsbD_permute2_nine (t₀ t₁ : Val) :
    (permute2 (fill 256 9#32) t₀ t₁).getLsbD 0 = t₁.getLsbD 32 := by
  have hidx : lane 32 0 (fill 256 9#32) = 9#32 := lane_fill 9#32 (by decide)
  rw [getLsbD_eq_lane, permute2, lane_ofLanes _ (by decide) (by decide), hidx]
  exact (getLsbD_lane 1 0 t₁).trans (Bool.true_and _)

/-- All indices are nine, and one bit is set at the fifth byte of the table. -/
def ninesState (m : MemRef) : State :=
  { State.blank with
    ymm := fun _ ↦ fill 256 9#32
    mem := fun x ↦ if x = State.blank.ea m + 4 then 1 else 0 }

theorem ea_ninesState (m : MemRef) : (ninesState m).ea m = State.blank.ea m := by
  rcases m with ⟨_, _, _ | _ | _, _, _⟩ | _ | _ <;> rfl

/-- The destination must not hold the indices. -/
theorem not_writes_vpermt2ps_mem (c : Context) {d : VReg} {o : Opnd} (z : Bool) (hd : d.high = false)
    (ho : o.cls ∈ memClasses 32) :
    ¬rwFuncVpermt2ps.Writes c (permuteInstr d d o z) .ymm none d
      (fun s ↦ permute2 (s.zmmLo d) (s.zmmLo d) (s.read 4 o)) := by
  intro h
  have heq := (vpermt2ps_mem_writes c z hd hd ho).unique h
  obtain ⟨og, m, rfl, hflat⟩ := exists_mem_of_cls ho
  have hbits := congrArg (·.getLsbD 0) (congrFun heq (ninesState m))
  have hlo : (ninesState m).zmmLo d = fill 256 9#32 := by
    rw [State.zmmLo, hd]
    rfl
  simp only [hlo, State.read_mem hflat, if_true] at hbits
  rw [getLsbD_selectBy_overwritten, getLsbD_permute2_nine, ea_ninesState, getLsbD_load _ _ (by decide),
    getLsbD_load _ _ (by decide)] at hbits
  have hne : State.blank.ea m + BitVec.ofNat 64 (0 / 8) ≠ State.blank.ea m + 4 := by
    rw [Ne, BitVec.add_right_inj]
    decide
  have hzero : (ninesState m).mem (State.blank.ea m + BitVec.ofNat 64 (0 / 8)) = 0 := if_neg hne
  have hone : (ninesState m).mem (State.blank.ea m + BitVec.ofNat 64 (32 / 8)) = 1 := if_pos rfl
  rw [hzero, hone] at hbits
  revert hbits
  decide

/-- The operands the second table can be: a register below sixteen, or memory. -/
def isTable (o : Opnd) : Prop := o.cls = .vec .ymm false ∨ o.cls ∈ memClasses 32

/-- The permutation of two tables is right if and only if the destination is neither the index
register nor the second table. -/
theorem vpermt2ps_writes_iff (c : Context) (d a : VReg) (o : Opnd) (z : Bool) (hd : d.high = false)
    (ha : a.high = false) (ho : isTable o) :
    rwFuncVpermt2ps.Writes c (permuteInstr d a o z) .ymm none d
      (fun s ↦ permute2 (s.zmmLo a) (s.zmmLo d) (s.read 4 o)) ↔ d ≠ a ∧ o ≠ .vec .ymm d := by
  rcases ho with ho | ho
  · obtain ⟨b, rfl⟩ := Opnd.exists_eq_vec ho
    have hb : b.high = false := by
      rw [Opnd.cls] at ho
      exact (OpndClass.vec.inj ho).2
    have hread : (fun s : State ↦ permute2 (s.zmmLo a) (s.zmmLo d) (s.read 4 (.vec .ymm b))) =
        fun s ↦ permute2 (s.zmmLo a) (s.zmmLo d) (s.zmmLo b) := by
      funext s
      have hlo : s.zmmLo b = s.ymm b := by rw [State.zmmLo, hb]; rfl
      rw [hlo]
      exact congrArg _ (low_32 _)
    refine (iff_of_eq (congrArg (rwFuncVpermt2ps.Writes c _ .ymm none d) hread)).trans
      ((vpermt2ps_reg_writes_iff c d a b z).trans ?_)
    rw [hd, ha, hb]
    simp only [Bool.not_false, Bool.true_and, Bool.and_eq_true, bne_iff_ne, ne_eq, Opnd.vec.injEq,
      true_and]
    exact and_congr_right fun _ ↦ not_congr eq_comm
  · have hne : o ≠ .vec .ymm d := by
      rintro rfl
      revert ho
      simp [memClasses, Opnd.cls]
    rw [and_iff_left hne]
    constructor
    · rintro h rfl
      exact not_writes_vpermt2ps_mem c z hd ho h
    · intro hda
      have h := vpermt2ps_mem_writes c z hd ha ho
      simp only [if_neg hda, selectBy_self] at h
      exact h

theorem vpermt2ps_writes_iff_ymm1_ymm2_ymm3 :
    rwFuncVpermt2ps.Writes ⟨false, fun _ ↦ 0⟩ (permuteInstr 1 2 (.vec .ymm 3) false) .ymm none 1
      (fun s ↦ permute2 (s.zmmLo 2) (s.zmmLo 1) (s.read 4 (.vec .ymm 3))) ↔
        (1 : VReg) ≠ 2 ∧ Opnd.vec .ymm 3 ≠ .vec .ymm 1 :=
  vpermt2ps_writes_iff _ 1 2 (.vec .ymm 3) false rfl rfl (.inl rfl)

/-- The destination holds the indices here. -/
theorem not_writes_vpermt2ps_ymm1_ymm1_ymm2 :
    ¬rwFuncVpermt2ps.Writes ⟨false, fun _ ↦ 0⟩ (permuteInstr 1 1 (.vec .ymm 2) false) .ymm none 1
      (fun s ↦ permute2 (s.zmmLo 1) (s.zmmLo 1) (s.zmmLo 2)) :=
  (vpermt2ps_reg_writes_iff _ 1 1 2 false).not.mpr (by decide)

end DrAvx
