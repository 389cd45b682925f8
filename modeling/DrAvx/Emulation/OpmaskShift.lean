import DrAvx.Emulation.Ensures
import DrAvx.Handlers.Opmask

/-!
# Shifts of opmask registers

The handlers of `kshiftl` and `kshiftr` look at the immediate when the block is rewritten.  A count
that shifts everything out is replaced by a store of zero, a smaller one goes into a shift of `rax`.
The decoder sign-extends the immediate, so a count from 128 on is negative and taken for a small one.
The processor then looks at the low six bits of it, or five for doublewords.

## What is here

* `Shift`, `kshift`: the eight handlers, as instances of one generator.
* `Shift.kslot_kshiftCode`: the low bits of the destination after the chain.
* `Shift.kshift_ensures_iff`: for which counts the destination is right.
-/

set_option autoImplicit false

namespace DrAvx

open Function

/-- The direction of a shift. -/
inductive Shift
  | left | right

namespace Shift

def op : Shift → Op
  | left => .shl
  | right => .shr

/-- A logical shift. -/
def apply {w : ℕ} (v : BitVec w) (n : ℕ) : Shift → BitVec w
  | left => v <<< n
  | right => v >>> n

end Shift

/-- The handler for a direction and a width. -/
def kshift : Shift → GprSize → Gen
  | .left, .b => rwFuncKshiftlb
  | .left, .w => rwFuncKshiftlw
  | .left, .d => rwFuncKshiftld
  | .left, .q => rwFuncKshiftlq
  | .right, .b => rwFuncKshiftrb
  | .right, .w => rwFuncKshiftrw
  | .right, .d => rwFuncKshiftrd
  | .right, .q => rwFuncKshiftrq

/-- The instruction as the decoder delivers it. -/
def kshiftInstr (d a : KReg) (imm : BitVec 8) : AppInstr :=
  ⟨[.opmask d], [.opmask a, .imm imm.toInt 1], false⟩

namespace Shift

/-! ## The handlers as instances of one generator -/

/-- How often the instruction is unlinked. -/
def removed : Shift → GprSize → ℕ
  | right, .b => 1
  | _, _ => 0

/-- The opmask in `rax`. -/
def load : GprSize → List TInsn
  | .b => ldKzx .b
  | .w => ldKzx .w
  | .d => [ldK .d rax .s0]
  | .q => [ldK .q rax .s0]

/-- The part of `rax` that is shifted. -/
def part : GprSize → GprSize
  | .d => .d
  | _ => .q

/-- The size that is stored. -/
def stored : Shift → GprSize → GprSize
  | right, .b => .q
  | _, sz => sz

theorem kshift_eq (sh : Shift) (sz : GprSize) : kshift sh sz = kshiftGen (sh.removed sz) sh.op
    (8 * sz.bytes - 1) (load sz) (.g (part sz) rax) (sh.stored sz) := by
  cases sh <;> cases sz <;> rfl

/-- The chain that shifts. -/
def kshiftCode (sh : Shift) (sz : GprSize) : List TInsn :=
  [pushf, push rax] ++ load sz ++
    [rmw sh.op (.g (part sz) rax) (.app .s1), stK (sh.stored sz) rax, pop rax, popf]

/-- The chain that stores zero. -/
def clearCode (sh : Shift) (sz : GprSize) : List TInsn :=
  [pushf, push rax, rmw .xor (reg64 rax) (reg64 rax), stK (sh.stored sz) rax, pop rax, popf]

section Chains

variable (sh : Shift) (sz : GprSize) (c : Context) (d a : KReg) (imm : BitVec 8)

/-- The registers of the chain are those of the instruction. -/
def env : Env := ⟨kshiftInstr d a imm, [], []⟩

theorem run_kshift : (kshift sh sz).run c (kshiftInstr d a imm) = .chain (sh.removed sz) true
    ((if imm.toInt ≤ 8 * sz.bytes - 1 then sh.kshiftCode sz else sh.clearCode sz).map
      (TInsn.inst (env d a imm))) := by
  have hs1 : (kshiftInstr d a imm).cls .s1 = .immed 1 := by
    have hcls : (kshiftInstr d a imm).cls .s1 = (Opnd.imm imm.toInt 1).cls := rfl
    rw [hcls, Opnd.cls, if_pos ⟨BitVec.le_toInt imm, BitVec.toInt_lt⟩]
  have himm : (Query.test .s1 (.isKind .immed)).answer c (kshiftInstr d a imm) = true := by
    rw [Query.answer, hs1]
    rfl
  have hle : (Query.immLe .s1 (8 * sz.bytes - 1)).answer c (kshiftInstr d a imm) =
      decide (imm.toInt ≤ 8 * sz.bytes - 1) := rfl
  rw [kshift_eq, kshiftGen, run_opnds, run_regs, run_ifQ, if_pos himm, run_ifQ, hle]
  · by_cases h : imm.toInt ≤ 8 * sz.bytes - 1
    · rw [decide_eq_true h, if_pos rfl, if_pos h]
      rfl
    · rw [decide_eq_false h, if_neg Bool.false_ne_true, if_neg h]
      rfl
  · intro p hp
    rcases List.mem_cons.mp hp with rfl | hp
    · rfl
    · obtain rfl := List.mem_singleton.mp hp
      rfl
  · intro p hp
    obtain rfl := List.mem_singleton.mp hp
    rw [hs1]
    intro h
    cases h

/-- A shift by an immediate byte can be encoded. -/
theorem legal_shift : (Insn.mk sh.op [.gpr sz .rax] [.imm imm.toInt 1, .gpr sz .rax]).legal = true := by
  have hle := BitVec.le_toInt imm
  have hlt := imm.toInt_lt
  have hshape : (Opnd.imm imm.toInt 1).shape = .imm 1 true true := by
    rw [Opnd.shape, Shape.ofImm]
    simp only [Shape.imm.injEq, Bool.and_eq_true, decide_eq_true_eq, true_and]
    omega
  have hlegal : (Insn.mk sh.op [.gpr sz .rax] [.imm imm.toInt 1, .gpr sz .rax]).legal =
      sh.op.encodable [.gpr sz] [(Opnd.imm imm.toInt 1).shape, .gpr sz] := rfl
  rw [hlegal, hshape]
  cases sh <;> cases sz <;> rfl

theorem straight_kshiftCode :
    straight ((sh.kshiftCode sz).map (TInsn.inst (env d a imm))) = true := by
  have hshift : straight [TInsn.inst (env d a imm) (rmw sh.op (.g (part sz) rax) (.app .s1))] =
      true := by
    rw [straight, List.all_cons, List.all_nil, Bool.and_true, Bool.and_eq_true]
    refine ⟨legal_shift sh (part sz) imm, ?_⟩
    cases sh <;> rfl
  have hcode : (sh.kshiftCode sz).map (TInsn.inst (env d a imm)) =
      ([pushf, push rax] ++ load sz).map (TInsn.inst (env d a imm)) ++
        ([TInsn.inst (env d a imm) (rmw sh.op (.g (part sz) rax) (.app .s1))] ++
          [stK (sh.stored sz) rax, pop rax, popf].map (TInsn.inst (env d a imm))) := by
    rw [kshiftCode, List.map_append]
    rfl
  rw [hcode, straight_append, straight_append, hshift, Bool.true_and, Bool.and_eq_true]
  constructor
  · cases sz <;> rfl
  · cases sh <;> cases sz <;> rfl

theorem straight_clearCode :
    straight ((sh.clearCode sz).map (TInsn.inst (env d a imm))) = true := by
  cases sh <;> cases sz <;> rfl

end Chains

/-! ## What the chains leave in the destination -/

section Values

variable (sh : Shift) (sz : GprSize) (d a : KReg) (imm : BitVec 8) (E : Ext) (s : State)

/-- The bits of the count that the processor looks at. -/
def count : ℕ := imm.toNat % if sz = .d then 32 else 64

theorem toNat_ofInt_toInt (m : ℕ) (hm : m ∣ 256) :
    (BitVec.ofInt 256 imm.toInt).toNat % m = imm.toNat % m := by
  obtain ⟨k, hk⟩ := hm
  have hlt := imm.isLt
  have hmod : (BitVec.ofInt 256 imm.toInt).toNat % 256 = imm.toNat := by
    rw [BitVec.toNat_ofInt, BitVec.toInt_eq_toNat_cond]
    split <;> omega
  rw [← Nat.mod_mod_of_dvd _ ⟨k, hk⟩, hmod]

/-- Loading brings the low bits into `rax`. -/
theorem rax_load :
    (effects E ((load sz).map (TInsn.inst (env d a imm))) s).gpr .rax =
        (low sz.bytes ((s.kslot a).setWidth 256)).setWidth 64 ∧
      (effects E ((load sz).map (TInsn.inst (env d a imm))) s).kslot = s.kslot := by
  have hmov : (Insn.mk .movLd [.gpr sz .rax] [.kslot a sz.bytes]).effect E s =
      s.write false s (.gpr sz .rax) (low sz.bytes ((s.kslot a).setWidth 256)) := effect_move E s rfl _ _
  -- a byte or a word is extended in a second step
  have hextend (hload : (load sz).map (TInsn.inst (env d a imm)) =
      [⟨.movLd, [.gpr sz .rax], [.kslot a sz.bytes]⟩, ⟨.movzx, [.gpr .q .rax], [.gpr sz .rax]⟩]) :
      (effects E ((load sz).map (TInsn.inst (env d a imm))) s).gpr .rax =
          (low sz.bytes ((s.kslot a).setWidth 256)).setWidth 64 ∧
        (effects E ((load sz).map (TInsn.inst (env d a imm))) s).kslot = s.kslot := by
    rw [hload, effects_cons, hmov, effects_cons, effect_move E _ rfl, effects_nil]
    refine ⟨?_, rfl⟩
    rw [State.gpr_write_gpr, update_self, State.read_gpr, State.gpr_write_gpr, update_self,
      State.low_writeGpr, low_low]
    rfl
  have hwhole (hload : (load sz).map (TInsn.inst (env d a imm)) =
      [⟨.movLd, [.gpr sz .rax], [.kslot a sz.bytes]⟩]) :
      (effects E ((load sz).map (TInsn.inst (env d a imm))) s).gpr .rax =
          State.writeGpr sz (s.gpr .rax) (low sz.bytes ((s.kslot a).setWidth 256)) ∧
        (effects E ((load sz).map (TInsn.inst (env d a imm))) s).kslot = s.kslot := by
    rw [hload, effects_cons, hmov, effects_nil, State.gpr_write_gpr, update_self]
    exact ⟨rfl, rfl⟩
  cases sz with
  | b => exact hextend rfl
  | w => exact hextend rfl
  | d =>
    obtain ⟨hrax, hk⟩ := hwhole rfl
    refine ⟨hrax.trans ?_, hk⟩
    exact congrArg (BitVec.setWidth 64) (low_low 4 ((s.kslot a).setWidth 256))
  | q => exact hwhole rfl

theorem sz_le_part : sz.bytes ≤ (part sz).bytes ∧ (part sz).bytes ≤ 8 := by
  cases sz <;> decide

theorem sz_le_stored : sz.bytes ≤ (sh.stored sz).bytes ∧ (sh.stored sz).bytes ≤ 8 := by
  cases sh <;> cases sz <;> decide

theorem combine_op (n : ℕ) (v w : Val) : sh.op.combine n v w =
    some (sh.apply w (v.toNat % (if n = 8 then 64 else 32))) := by
  cases sh <;> rfl

/-- The low bits of a value, shifted as a wide value. -/
theorem getLsbD_apply_low (v : BitVec 64) (n : ℕ) {j : ℕ} (hj : j < 8 * sz.bytes) :
    (sh.apply (low sz.bytes (v.setWidth 256)) n).getLsbD j =
      (sh.apply (v.setWidth (8 * sz.bytes)) n).getLsbD j := by
  have hle := sz.bytes_le
  cases sh with
  | left =>
    simp only [apply, BitVec.getLsbD_shiftLeft, getLsbD_low, BitVec.getLsbD_setWidth]
    simp [hj, show j < 256 by omega, show j - n < 8 * sz.bytes by omega, show j - n < 256 by omega]
  | right =>
    simp only [apply, BitVec.getLsbD_ushiftRight, getLsbD_low, BitVec.getLsbD_setWidth]
    by_cases h : n + j < 8 * sz.bytes
    · simp [h, show n + j < 256 by omega]
    · simp [h]

/-- What is stored of a register of which a part is known. -/
theorem getLsbD_stored {m n : ℕ} (old v : BitVec 64) {x : Val}
    (hx : low m (v.setWidth 256) = low m x) {j : ℕ} (hm : j < 8 * m) (hn : j < 8 * n)
    (hj : j < 64) :
    ((merge n (old.setWidth 256) (low n (v.setWidth 256))).setWidth 64).getLsbD j =
      x.getLsbD j := by
  have hbit := low_eq_iff.mp hx j hm
  rw [BitVec.getLsbD_setWidth, getLsbD_merge, getLsbD_low, ← hbit]
  simp [hj, hn, show j < 256 by omega]

/-- The low bits of the destination after the chain that shifts. -/
theorem kslot_kshiftCode :
    ((effects E ((sh.kshiftCode sz).map (TInsn.inst (env d a imm))) s).kslot d).setWidth
        (8 * sz.bytes) = sh.apply ((s.kslot a).setWidth (8 * sz.bytes)) (count sz imm) := by
  have hcode : (sh.kshiftCode sz).map (TInsn.inst (env d a imm)) =
      pushes [.flags, .reg .rax] ++ ((load sz).map (TInsn.inst (env d a imm)) ++
        ([⟨sh.op, [.gpr (part sz) .rax], [.imm imm.toInt 1, .gpr (part sz) .rax]⟩,
          ⟨.movSt, [.kslot d (sh.stored sz).bytes], [.gpr (sh.stored sz) .rax]⟩] ++
        pops [.flags, .reg .rax])) := by
    rw [kshiftCode, List.map_append, List.map_append, List.append_assoc]
    rfl
  rw [hcode, effects_append, effects_append, effects_append, kslot_pops]
  generalize hs₁ : effects E (pushes [.flags, .reg .rax]) s = s₁
  have hk₁ : s₁.kslot = s.kslot := by rw [← hs₁, kslot_pushes]
  obtain ⟨hrax, hk₂⟩ := rax_load sz d a imm E s₁
  generalize effects E ((load sz).map (TInsn.inst (env d a imm))) s₁ = s₂ at hrax hk₂
  -- the opmask is in the part of `rax` that is shifted
  obtain ⟨hpart, hpart8⟩ := sz_le_part sz
  have hread : s₂.read 4 (.gpr (part sz) .rax) = low sz.bytes ((s.kslot a).setWidth 256) := by
    rw [State.read_gpr, hrax, hk₁]
    refine BitVec.eq_of_getLsbD_eq fun j hj ↦ ?_
    simp only [getLsbD_low, BitVec.getLsbD_setWidth]
    by_cases h : j < 8 * sz.bytes
    · simp [h, hj, show j < 64 by omega, show j < 8 * (part sz).bytes by omega]
    · simp [h]
  -- the processor masks the count
  have hcount : (s₂.read 4 (.imm imm.toInt 1)).toNat %
      (if (Opnd.gpr (part sz) .rax).bytes = 8 then 64 else 32) = count sz imm := by
    cases sz with
    | d => exact toNat_ofInt_toInt imm 32 (by decide)
    | b | w | q => exact toNat_ofInt_toInt imm 64 (by decide)
  have hshift := effect_combine E s₂ (d := .gpr (part sz) .rax) (b := .imm imm.toInt 1)
    (combine_op sh _ _ _)
  rw [hcount, hread] at hshift
  rw [effects_cons, hshift, effects_cons, effect_move E _ rfl, effects_nil,
    State.kslot_write_kslot, update_self, State.read_gpr]
  refine BitVec.eq_of_getLsbD_eq fun j hj ↦ ?_
  obtain ⟨hstored, -⟩ := sz_le_stored sh sz
  rw [BitVec.getLsbD_setWidth, decide_eq_true hj, Bool.true_and]
  refine (getLsbD_stored (m := (part sz).bytes) (n := (sh.stored sz).bytes) _ _ ?_ (by omega)
    (by omega) (by omega)).trans (getLsbD_apply_low sh sz _ _ hj)
  exact State.low_writeGpr _ _ _

/-- The other chain stores zero. -/
theorem kslot_clearCode :
    ((effects E ((sh.clearCode sz).map (TInsn.inst (env d a imm))) s).kslot d).setWidth
        (8 * sz.bytes) = 0#(8 * sz.bytes) := by
  have hcode : (sh.clearCode sz).map (TInsn.inst (env d a imm)) =
      pushes [.flags, .reg .rax] ++
        ([⟨.xor, [.gpr .q .rax], [.gpr .q .rax, .gpr .q .rax]⟩,
          ⟨.movSt, [.kslot d (sh.stored sz).bytes], [.gpr (sh.stored sz) .rax]⟩] ++
        pops [.flags, .reg .rax]) := rfl
  rw [hcode, effects_append, effects_append, kslot_pops]
  generalize effects E (pushes [.flags, .reg .rax]) s = s₁
  have hxor := effect_combine E s₁ (d := .gpr .q .rax) (b := .gpr .q .rax)
    (show Op.combine .xor _ _ _ = some _ from rfl)
  rw [effects_cons, hxor, effects_cons, effect_move E _ rfl, effects_nil,
    State.kslot_write_kslot, update_self, State.read_gpr, BitVec.xor_self]
  refine BitVec.eq_of_getLsbD_eq fun j hj ↦ ?_
  obtain ⟨hstored, hle⟩ := sz_le_stored sh sz
  rw [BitVec.getLsbD_setWidth, decide_eq_true hj, Bool.true_and, BitVec.getLsbD_zero]
  refine (getLsbD_stored (m := 8) (n := (sh.stored sz).bytes) _ _ ?_ (by omega) (by omega)
    (by omega)).trans BitVec.getLsbD_zero
  exact State.low_writeGpr .q (s₁.gpr .rax) 0

end Values

/-! ## The counts -/

/-- A shift by the width or more leaves nothing. -/
theorem apply_eq_zero (sh : Shift) {w n : ℕ} (v : BitVec w) (h : w ≤ n) :
    sh.apply v n = 0#w := by
  cases sh with
  | left => exact BitVec.shiftLeft_eq_zero h
  | right => exact BitVec.ushiftRight_eq_zero h

/-- A shift by less leaves some bit of the value of all ones. -/
theorem apply_allOnes_ne_zero (sh : Shift) {w n : ℕ} (h : n < w) :
    sh.apply (BitVec.allOnes w) n ≠ 0#w := by
  intro hzero
  cases sh with
  | left =>
    have hbit := congrArg (fun v ↦ v.getLsbD n) hzero
    simp [apply, h] at hbit
  | right =>
    have hbit := congrArg (fun v ↦ v.getLsbD 0) hzero
    simp [apply, h] at hbit

/-- What the chain leaves, by the count. -/
def result (sh : Shift) (sz : GprSize) (imm : BitVec 8) (v : BitVec (8 * sz.bytes)) :
    BitVec (8 * sz.bytes) :=
  if imm.toInt ≤ 8 * sz.bytes - 1 then sh.apply v (count sz imm) else 0#_

/-- The chain that is emitted. -/
def code (sh : Shift) (sz : GprSize) (imm : BitVec 8) : List TInsn :=
  if imm.toInt ≤ 8 * sz.bytes - 1 then sh.kshiftCode sz else sh.clearCode sz

theorem straight_code (sh : Shift) (sz : GprSize) (d a : KReg) (imm : BitVec 8) :
    straight ((sh.code sz imm).map (TInsn.inst (env d a imm))) = true := by
  rw [code]
  split
  · exact straight_kshiftCode sh sz d a imm
  · exact straight_clearCode sh sz d a imm

theorem kslot_code (sh : Shift) (sz : GprSize) (d a : KReg) (imm : BitVec 8) (E : Ext) (s : State) :
    ((effects E ((sh.code sz imm).map (TInsn.inst (env d a imm))) s).kslot d).setWidth
        (8 * sz.bytes) = sh.result sz imm ((s.kslot a).setWidth (8 * sz.bytes)) := by
  rw [code, result]
  split
  · exact kslot_kshiftCode sh sz d a imm E s
  · exact kslot_clearCode sh sz d a imm E s

/-- Counts below 128 are right.  A larger one is negative for the handler, and right only where its
low six bits still shift a byte or a word out. -/
theorem result_eq_iff (sh : Shift) (sz : GprSize) (imm : BitVec 8) :
    (∀ v, sh.result sz imm v = sh.apply v imm.toNat) ↔
      imm.toNat < 128 ∨ sz.bytes ≤ 2 ∧ 8 * sz.bytes ≤ imm.toNat % 64 := by
  have hcond := imm.toInt_eq_toNat_cond
  have hlt := imm.isLt
  have hbytes : sz.bytes = 1 ∨ sz.bytes = 2 ∨ sz = .d ∨ sz = .q := by
    cases sz <;> decide
  rcases Nat.lt_or_ge imm.toNat 128 with hsmall | hlarge
  · refine iff_of_true (fun v ↦ ?_) (.inl hsmall)
    rw [if_pos (by omega)] at hcond
    rw [result, hcond]
    split
    · next hle =>
      have hcount : count sz imm = imm.toNat := by
        rw [count]
        cases sz <;> simp [GprSize.bytes] at hle ⊢ <;> omega
      rw [hcount]
    · next hle => exact (apply_eq_zero sh v (by omega)).symm
  · rw [if_neg (by omega)] at hcond
    have hneg : imm.toInt ≤ 8 * sz.bytes - 1 := by
      rw [hcond]
      omega
    -- the instruction clears the opmask, so the count the processor sees has to do so as well
    have hresult (v : BitVec (8 * sz.bytes)) :
        sh.result sz imm v = sh.apply v imm.toNat ↔ sh.apply v (count sz imm) = 0#_ := by
      have hle := sz.bytes_le
      rw [result, if_pos hneg, apply_eq_zero sh v (n := imm.toNat) (by omega)]
    simp only [hresult]
    have hzero : (∀ v : BitVec (8 * sz.bytes), sh.apply v (count sz imm) = 0#_) ↔ 8 * sz.bytes ≤ count sz imm := by
      constructor
      · intro h
        by_contra hle
        exact sh.apply_allOnes_ne_zero (Nat.lt_of_not_ge hle) (h _)
      · intro h v
        exact apply_eq_zero sh v h
    rw [hzero, count]
    cases sz <;> simp [GprSize.bytes] <;> omega

/-- The destination is right if the value the chain leaves is. -/
theorem ensures_iff_result (sh : Shift) (sz : GprSize) (c : Context) (d a : KReg) (imm : BitVec 8) :
    (kshift sh sz).Ensures c (kshiftInstr d a imm) (fun s t ↦
      (t.kslot d).setWidth (8 * sz.bytes) =
        sh.apply ((s.kslot a).setWidth (8 * sz.bytes)) imm.toNat) ↔
    ∀ v, sh.result sz imm v = sh.apply v imm.toNat := by
  rw [Gen.ensures_iff (run_kshift sh sz c d a imm)
    (fun _ s ↦ exec_straight (straight_code sh sz d a imm) s)]
  simp only [kslot_code]
  constructor
  · intro h v
    have hwidth : (v.setWidth 64).setWidth (8 * sz.bytes) = v := by
      have hle := sz.bytes_le
      refine BitVec.eq_of_getLsbD_eq fun j hj ↦ ?_
      simp [hj, show j < 64 by omega]
    have hv := h .blank { State.blank with kslot := fun _ ↦ v.setWidth 64 }
    rwa [hwidth] at hv
  · intro h E s
    exact h _

end Shift

/-- The handlers of `kshiftl` and `kshiftr` leave the source shifted by the immediate in the low
bits of the destination, whatever the slots hold, for these counts and no others. -/
theorem kshift_ensures_iff (sh : Shift) (sz : GprSize) (c : Context) (d a : KReg) (imm : BitVec 8) :
    (kshift sh sz).Ensures c (kshiftInstr d a imm) (fun s t ↦
      (t.kslot d).setWidth (8 * sz.bytes) =
        sh.apply ((s.kslot a).setWidth (8 * sz.bytes)) imm.toNat) ↔
    imm.toNat < 128 ∨ sz.bytes ≤ 2 ∧ 8 * sz.bytes ≤ imm.toNat % 64 := by
  rw [Shift.ensures_iff_result, Shift.result_eq_iff]

/-- A count of 128 leaves a quadword opmask as it is. -/
theorem kshiftlq_by_128 : ¬(kshift .left .q).Ensures ⟨false, fun _ ↦ 0⟩ (kshiftInstr 1 2 128)
    (fun s t ↦ (t.kslot 1).setWidth 64 = Shift.left.apply ((s.kslot 2).setWidth 64) 128) := by
  intro h
  have hone := (Shift.ensures_iff_result .left .q _ 1 2 128).mp h 1
  exact absurd hone (by decide)

end DrAvx
