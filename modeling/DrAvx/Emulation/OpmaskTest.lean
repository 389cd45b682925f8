import DrAvx.Emulation.Ensures
import DrAvx.Handlers.Opmask

/-!
# Tests of opmask registers

The tests have no result but the flags.  The chains for `ktest` compute something and then restore
the flags from before; those for `kortestd` and `kortestq` are never emitted, since the handlers look
for a second source that the decoder delivers as a destination.  The chains for `kortestw` and
`kortestb` end in three ways, and leave the zero flag and the carry flag as they should be.  The other
flags, which the instruction clears, are those of the last comparison.

## What is here

* `KTest`, `not_ensures_ktest`: the tests that do not set the flags.
* `exec_kortestEnd`: the three ways through the code that sets the flags.
* `kortest_ensures`: what `kortestw` and `kortestb` do.
* `not_ensures_kortest_flags`: what they do not.
-/

set_option autoImplicit false

namespace DrAvx

open Function

/-- A test of two opmask registers as the decoder delivers it: the first is the destination. -/
def ktestInstr (d a : KReg) : AppInstr := ⟨[.opmask d], [.opmask a], false⟩

/-! ## Tests that restore the flags -/

/-- The tests whose chains have no branches. -/
inductive KTest
  | kortestd
  | kortestq
  | ktest (sz : GprSize)

namespace KTest

def gen : KTest → Gen
  | kortestd => rwFuncKortestd
  | kortestq => rwFuncKortestq
  | ktest .b => rwFuncKtestb
  | ktest .w => rwFuncKtestw
  | ktest .d => rwFuncKtestd
  | ktest .q => rwFuncKtestq

/-- The width of the operation. -/
def bits : KTest → ℕ
  | kortestd => 32
  | kortestq => 64
  | ktest sz => 8 * sz.bytes

/-- When the zero flag is set. -/
def zf (op : KTest) (x y : BitVec op.bits) : Bool :=
  match op with
  | kortestd | kortestq => x ||| y == 0
  | ktest _ => x &&& y == 0

/-- When the carry flag is set. -/
def cf (op : KTest) (x y : BitVec op.bits) : Bool :=
  match op with
  | kortestd | kortestq => x ||| y == BitVec.allOnes _
  | ktest _ => ~~~x &&& y == 0

/-- The flags are as the instruction defines them. -/
def Right (op : KTest) (d a : KReg) (s t : State) : Prop :=
  t.flags.zf = op.zf ((s.kslot d).setWidth _) ((s.kslot a).setWidth _) ∧
    t.flags.cf = op.cf ((s.kslot d).setWidth _) ((s.kslot a).setWidth _)

/-- What is done between saving and restoring. -/
def ktestCode (sz : GprSize) (ones : ℤ) (a : KReg) : List Insn :=
  [⟨.movLd, [.gpr sz .rax], [.kslot a sz.bytes]⟩, ⟨.test, [], [.gpr sz .rax, .gpr sz .rax]⟩,
    ⟨.cmp, [], [.gpr sz .rax, .imm ones sz.bytes]⟩]

theorem run_ktestGen (sz : GprSize) (ones : ℤ) (c : Context) (d a : KReg) :
    (ktestGen sz ones).run c (ktestInstr d a) = .chain 0 true
      (pushes [.flags, .reg .rax] ++ ktestCode sz ones a ++ pops [.flags, .reg .rax]) := by
  cases sz <;> rfl

/-- Where the chain runs, the flags are restored. -/
theorem flags_of_exec_ktest {sz : GprSize} {ones : ℤ} {a : KReg} {E : Ext} {s t : State}
    (h : Exec E (pushes [.flags, .reg .rax] ++ ktestCode sz ones a ++ pops [.flags, .reg .rax]) s t) :
    t.flags = s.flags := by
  have hplain : ∀ i ∈ pushes [.flags, .reg .rax] ++ ktestCode sz ones a ++ pops [.flags, .reg .rax],
      i.isPlain = true := by
    rw [← List.all_eq_true]
    rfl
  have hlegal := h.all_legal fun i hi ↦ Insn.jumpsTo_of_isPlain (hplain i hi)
  have hstraight : straight (ktestCode sz ones a) = true := by
    rw [straight, List.all_eq_true]
    intro i hi
    rw [hlegal i (by simp [hi]), hplain i (by simp [hi])]
    rfl
  have hkeeps : Keeps [.rax] (effects E (pushes [.flags, .reg .rax]) s)
      (effects E (ktestCode sz ones a) (effects E (pushes [.flags, .reg .rax]) s)) :=
    keeps_effects rfl E _
  have hsaved := Exec.saving_keeps [.flags, .reg .rax] (by decide) (by decide) (by simp)
    (exec_straight hstraight _) hkeeps
  rw [h.unique hsaved]
  rfl

/-- The handler of `ktest` for a width. -/
theorem exists_ktestGen (sz : GprSize) : ∃ ones, (ktest sz).gen = ktestGen sz ones := by
  cases sz <;> exact ⟨_, rfl⟩

/-- From every state, the flags are those of the state. -/
theorem flags_of_ensures_ktest (sz : GprSize) {c : Context} {d a : KReg} {post : State → State → Prop}
    (h : (ktest sz).gen.Ensures c (ktestInstr d a) post) (s : State) :
    ∃ t, post s t ∧ t.flags = s.flags := by
  obtain ⟨ones, hgen⟩ := exists_ktestGen sz
  rw [hgen, Gen.ensures_iff_of_run (run_ktestGen sz ones c d a)] at h
  obtain ⟨t, ht, hpost⟩ := h .blank s
  exact ⟨t, hpost, flags_of_exec_ktest ht⟩

end KTest

/-- The widths of the tests with branches. -/
inductive OrTest
  | kortestw
  | kortestb

namespace OrTest

def gen : OrTest → Gen
  | kortestw => rwFuncKortestw
  | kortestb => rwFuncKortestb

def size : OrTest → GprSize
  | kortestw => .w
  | kortestb => .b

/-- The width of the operation. -/
def bits (op : OrTest) : ℕ := 8 * op.size.bytes

/-- The opmask of ones. -/
def ones : OrTest → ℤ
  | kortestw => 65535
  | kortestb => 255

/-- The bits that are tested. -/
def value (op : OrTest) (d a : KReg) (s : State) : BitVec op.bits :=
  (s.kslot d).setWidth _ ||| (s.kslot a).setWidth _

/-- The bits of the opmasks in `eax`. -/
def load (op : OrTest) (d a : KReg) : List Insn :=
  if d = a then
    [⟨.movLd, [.gpr .q .rax], [.kslot a 8]⟩, ⟨.movzx, [.gpr .d .rax], [.gpr op.size .rax]⟩]
  else
    [⟨.movLd, [.gpr .q .rax], [.kslot a 8]⟩, ⟨.movLd, [.gpr .q .rdx], [.kslot d 8]⟩,
      ⟨.movzx, [.gpr .d .rax], [.gpr op.size .rax]⟩, ⟨.movzx, [.gpr .d .rdx], [.gpr op.size .rdx]⟩,
      ⟨.or, [.gpr op.size .rax], [.gpr op.size .rdx, .gpr op.size .rax]⟩]

/-- The registers that are used, and saved. -/
def scratch (d a : KReg) : List Gpr := if d = a then [.rax] else [.rax, .rdx]

def saves (d a : KReg) : List Saved := (scratch d a).map .reg

/-- The branches. -/
def branches (op : OrTest) : List Insn :=
  [⟨.test, [], [.gpr op.size .rax, .gpr op.size .rax]⟩, ⟨.jcc .z, [], [.label 0]⟩,
    ⟨.cmp, [], [.gpr .d .rax, .imm op.ones 4]⟩, ⟨.jcc .z, [], [.label 1]⟩, ⟨.clc, [], []⟩,
    ⟨.jmp, [], [.label 2]⟩, ⟨.label, [], [.label 0]⟩, ⟨.clc, [], []⟩, ⟨.jmp, [], [.label 2]⟩,
    ⟨.label, [], [.label 1]⟩, ⟨.test, [], [.gpr op.size .rax, .gpr op.size .rax]⟩, ⟨.stc, [], []⟩,
    ⟨.label, [], [.label 2]⟩]

theorem run_gen (op : OrTest) (c : Context) (d a : KReg) : op.gen.run c (ktestInstr d a) =
    .chain 1 true (pushes (saves d a) ++ (op.load d a ++ op.branches) ++ pops (saves d a)) := by
  have hgen : op.gen = kortestGen op.size op.ones := by cases op <;> rfl
  have hsame : (Query.same .d0 .s0).answer c (ktestInstr d a) = decide (d = a) := by
    rw [Bool.eq_iff_iff, decide_eq_true_iff]
    exact beq_iff_eq.trans ⟨Opnd.opmask.inj, congrArg _⟩
  rw [hgen, kortestGen, run_regs, run_ifQ, hsame, saves, scratch, load]
  · by_cases h : d = a
    · rw [decide_eq_true h, if_pos rfl, if_pos h, if_pos h]
      cases op <;> rfl
    · rw [decide_eq_false h, if_neg Bool.false_ne_true, if_neg h, if_neg h]
      cases op <;> rfl
  · intro p hp
    rcases List.mem_cons.mp hp with rfl | hp
    · rfl
    · obtain rfl := List.mem_singleton.mp hp
      rfl

section Load

variable (op : OrTest) (d a : KReg) (E : Ext) (s : State)

theorem keeps_load : Keeps (scratch d a) s (effects E (op.load d a) s) := by
  refine keeps_effects ?_ E s
  rw [load, scratch]
  split <;> rfl

/-- The bits that are tested, and nothing above them. -/
theorem rax_load : (effects E (op.load d a) s).gpr .rax = (op.value d a s).setWidth 64 := by
  have hsize : 8 * op.size.bytes ≤ 16 := by cases op <;> decide
  have hd : 8 * GprSize.d.bytes = 32 := rfl
  rw [load, value, bits]
  refine BitVec.eq_of_getLsbD_eq fun j hj ↦ ?_
  split
  · next h =>
    subst h
    rw [effects_cons, effect_move E s rfl, effects_cons, effect_move E _ rfl, effects_nil,
      State.read_kslot, State.write_q, BitVec.or_self]
    simp only [State.gpr_write_gpr, update_self, State.getLsbD_writeGpr _ _ _ hj, State.read_gpr,
      getLsbD_low, BitVec.getLsbD_setWidth, hd]
    by_cases hlow : j < 8 * op.size.bytes
    · simp [hlow, hj, show j < 32 by omega, show j < 256 by omega]
    · simp [hlow]
  · rw [effects_cons, effect_move E s rfl, effects_cons, effect_move E _ rfl, effects_cons,
      effect_move E _ rfl, effects_cons, effect_move E _ rfl, effects_cons,
      effect_combine E _ (show Op.combine .or _ _ _ = some _ from rfl), effects_nil,
      State.read_kslot, State.write_q, State.read_kslot, State.write_q]
    simp only [State.gpr_write_gpr, update_self, State.getLsbD_writeGpr _ _ _ hj, State.read_gpr,
      getLsbD_low, BitVec.getLsbD_setWidth, BitVec.getLsbD_or, hd, ne_eq, reduceCtorEq,
      not_false_eq_true, update_of_ne]
    by_cases hlow : j < 8 * op.size.bytes
    · simp [hlow, hj, show j < 32 by omega, show j < 256 by omega]
    · simp [hlow]

end Load

section Branches

variable (op : OrTest) (E : Ext) (s : State)

/-- The flags after the first test of the bits. -/
def tested (fl : Flags) : Flags :=
  Op.newFlags E .test op.size.bytes [s.read 4 (.gpr op.size .rax), s.read 4 (.gpr op.size .rax)] fl

/-- The flags after the comparison with ones. -/
def compared : Flags :=
  (subWithFlags 4 (s.read 4 (.gpr .d .rax)) (BitVec.ofInt 256 op.ones)).2

/-- The flags in the end. -/
def endFlags : Flags :=
  if (op.tested E s s.flags).zf then { op.tested E s s.flags with cf := false }
  else if (op.compared s).zf then { op.tested E s (op.compared s) with cf := true }
  else { op.compared s with cf := false }

/-- The three ways to the end. -/
theorem exec_branches : Exec E op.branches s { s with flags := op.endFlags E s } := by
  have hlegal : (Insn.mk .test [] [.gpr op.size .rax, .gpr op.size .rax]).legal = true ∧
      (Insn.mk .cmp [] [.gpr .d .rax, .imm op.ones 4]).legal = true := by
    cases op <;> decide
  have htest : Runs E op.branches 0 s 1 { s with flags := op.tested E s s.flags } :=
    runs_insn rfl hlegal.1 rfl
  have hend (t : State) : Runs E op.branches 12 t 13 t := runs_label rfl
  rw [endFlags]
  split
  next hzf =>
    -- all bits are zero
    have hclear : Runs E op.branches 6 { s with flags := op.tested E s s.flags } 8
        { s with flags := { op.tested E s s.flags with cf := false } } :=
      (runs_label rfl).trans (runs_insn (i := ⟨.clc, [], []⟩) rfl rfl rfl)
    have hjump : Runs E op.branches 1 { s with flags := op.tested E s s.flags } 6
        { s with flags := op.tested E s s.flags } := runs_jcc (c := .z) rfl rfl hzf
    exact htest.trans <| hjump.trans <| hclear.trans <| (runs_jmp rfl rfl).trans (hend _)
  next hzf =>
    have hcmp : Runs E op.branches 1 { s with flags := op.tested E s s.flags } 3
        { s with flags := op.compared s } :=
      (runs_jcc_not rfl (Bool.not_eq_true _ ▸ hzf)).trans (runs_insn rfl hlegal.2 rfl)
    refine htest.trans (hcmp.trans ?_)
    split
    next hones =>
      have hset : Runs E op.branches 9 { s with flags := op.compared s } 12
          { s with flags := { op.tested E s (op.compared s) with cf := true } } :=
        (runs_label rfl).trans <| (runs_insn rfl hlegal.1 rfl).trans <|
          runs_insn (i := ⟨.stc, [], []⟩) rfl rfl rfl
      have hjump : Runs E op.branches 3 { s with flags := op.compared s } 9
          { s with flags := op.compared s } := runs_jcc (c := .z) rfl rfl hones
      exact hjump.trans (hset.trans (hend _))
    next hones =>
      have hclear : Runs E op.branches 4 { s with flags := op.compared s } 5
          { s with flags := { op.compared s with cf := false } } :=
        runs_insn (i := ⟨.clc, [], []⟩) rfl rfl rfl
      exact (runs_jcc_not rfl (Bool.not_eq_true _ ▸ hones)).trans <| hclear.trans <|
        (runs_jmp rfl rfl).trans (hend _)

variable {s} {v : BitVec op.bits} (hrax : s.gpr .rax = v.setWidth 64)
include hrax

theorem read_rax : s.read 4 (.gpr op.size .rax) = v.setWidth 256 := by
  have hbits : op.bits = 8 * op.size.bytes := rfl
  have hle := op.size.bytes_le
  rw [State.read_gpr, hrax]
  refine BitVec.eq_of_getLsbD_eq fun j hj ↦ ?_
  rw [getLsbD_low, BitVec.getLsbD_setWidth, BitVec.getLsbD_setWidth, BitVec.getLsbD_setWidth]
  by_cases h : j < op.bits
  · simp [hj, show j < 8 * op.size.bytes by omega, show j < 64 by omega]
  · simp [BitVec.getLsbD_of_ge v j (by omega)]

theorem read_eax : s.read 4 (.gpr .d .rax) = (v.setWidth 32).setWidth 256 := by
  rw [State.read_d, hrax, BitVec.setWidth_setWidth_of_le v (by decide)]

theorem tested_zf (fl : Flags) : (op.tested E s fl).zf = (v == 0#_) := by
  have hzf : (op.tested E s fl).zf = (low op.size.bytes (s.read 4 (.gpr op.size .rax) &&&
    s.read 4 (.gpr op.size .rax)) == 0#256) := rfl
  have hbits : op.bits ≤ 256 := by cases op <;> decide
  have hzero : 0#256 = (BitVec.ofNat op.bits 0).setWidth 256 := (BitVec.setWidth_zero _ _).symm
  rw [hzf, BitVec.and_self, State.read_gpr, low_low, ← State.read_gpr s 4, op.read_rax hrax, hzero,
    setWidth_beq hbits]

theorem compared_eq : op.compared s = (subWithFlags 4 ((v.setWidth 32).setWidth 256)
    (((BitVec.allOnes op.bits).setWidth 32).setWidth 256)).2 := by
  have hones : BitVec.ofInt 256 op.ones = ((BitVec.allOnes op.bits).setWidth 32).setWidth 256 := by
    cases op <;> decide
  rw [compared, op.read_eax hrax, hones]

theorem compared_zf : (op.compared s).zf = (v == BitVec.allOnes _) := by
  have hbits : op.bits ≤ 32 := by cases op <;> decide
  rw [op.compared_eq hrax, subWithFlags_32_zf, setWidth_beq hbits]

/-- Zero and ones have even parity, and what is left is less than ones. -/
theorem endFlags_pf_or_sf : (op.endFlags E s).pf = true ∨ (op.endFlags E s).sf = true := by
  have htested := op.tested_zf E hrax
  have hcompared := op.compared_zf hrax
  have hpf (fl : Flags) : (op.tested E s fl).pf =
      ((List.range 8).countP ((v.setWidth 256).getLsbD ·) % 2 == 0) := by
    have hpf : (op.tested E s fl).pf = ((List.range 8).countP ((s.read 4 (.gpr op.size .rax) &&&
      s.read 4 (.gpr op.size .rax)).getLsbD ·) % 2 == 0) := rfl
    rw [hpf, BitVec.and_self, op.read_rax hrax]
  rw [endFlags]
  split
  next hzf =>
    left
    rw [htested, beq_iff_eq] at hzf
    rw [hpf, hzf]
    cases op <;> decide
  next hzf =>
    split
    next hones =>
      left
      rw [hcompared, beq_iff_eq] at hones
      rw [hpf, hones]
      cases op <;> decide
    next hones =>
      right
      rw [hcompared, beq_iff_eq] at hones
      have hlt : v.toNat < 2 ^ op.bits - 1 := by
        have hne : v.toNat ≠ 2 ^ op.bits - 1 := fun h ↦ hones (BitVec.eq_of_toNat_eq (by simp [h]))
        have := v.isLt
        omega
      have hbits : op.bits ≤ 32 := by cases op <;> decide
      rw [op.compared_eq hrax, subWithFlags_32_sf, BitVec.msb_eq_decide, BitVec.toNat_sub,
        BitVec.toNat_setWidth_of_le hbits, BitVec.toNat_setWidth_of_le hbits, BitVec.toNat_allOnes,
        decide_eq_true_iff]
      cases op <;> simp [bits, size, GprSize.bytes] at hlt ⊢ <;> omega

end Branches

/-- The chain runs to its end from every state, where the flags are those of the branches and
everything else but memory is as before. -/
theorem exec_gen (op : OrTest) (d a : KReg) (E : Ext) (s : State) : ∃ u mem,
    u.gpr .rax = (op.value d a s).setWidth 64 ∧
    Exec E (pushes (saves d a) ++ (op.load d a ++ op.branches) ++ pops (saves d a)) s
      { s with flags := op.endFlags E u, mem := mem } := by
  obtain ⟨mem, hpushes, -⟩ := effects_pushes E (saves d a) s
  generalize hs₁ : effects E (pushes (saves d a)) s = s₁ at hpushes
  have hvalue : op.value d a s₁ = op.value d a s := by rw [value, hpushes]; rfl
  have hload := op.rax_load d a E s₁
  have hkeeps := op.keeps_load d a E s₁
  have hlegal : straight (op.load d a) = true := by
    rw [load]
    split <;> cases op <;> rfl
  have hexec := op.exec_branches E (effects E (op.load d a) s₁)
  refine ⟨effects E (op.load d a) s₁, (effects E (op.load d a) s₁).mem,
    hload.trans (by rw [hvalue]), ?_⟩
  rw [← hs₁] at hkeeps hexec ⊢
  have hsaves : .reg .rsp ∉ saves d a ∧ 8 * (saves d a).length < 2 ^ 64 ∧ .flags ∉ saves d a := by
    rw [saves, scratch]
    split <;> decide
  have hsaved := Exec.saving_keeps (saves d a) hsaves.1 hsaves.2.1
    (fun g hg ↦ List.mem_map_of_mem hg) (hexec.before hlegal) (hkeeps.setFlags _)
  rwa [if_neg hsaves.2.2] at hsaved

end OrTest

/-- The flags as the instruction defines them. -/
def OrTest.Right (op : OrTest) (d a : KReg) (s t : State) : Prop :=
  t.flags = { cf := op.value d a s == BitVec.allOnes _, pf := false, af := false,
              zf := op.value d a s == 0#_, sf := false, of := false }

theorem OrTest.not_right (op : OrTest) {c : Context} {d a : KReg} {post : State → State → Prop}
    (h : op.gen.Ensures c (ktestInstr d a) post) (s : State) : ∃ t, post s t ∧ ¬op.Right d a s t := by
  rw [Gen.ensures_iff_of_run (op.run_gen c d a)] at h
  obtain ⟨t, ht, hpost⟩ := h .blank s
  obtain ⟨u, mem, hrax, hexec⟩ := op.exec_gen d a .blank s
  refine ⟨t, hpost, fun hright ↦ ?_⟩
  have hflags : op.endFlags .blank u = _ := (ht.unique hexec ▸ hright :)
  rcases op.endFlags_pf_or_sf .blank hrax with hpf | hsf
  · rw [hflags] at hpf
    cases hpf
  · rw [hflags] at hsf
    cases hsf

/-- Whatever the registers and the slots, the parity flag or the sign flag is set in the end. -/
theorem not_ensures_kortest (op : OrTest) (c : Context) (d a : KReg) (ks : KReg → BitVec 64) :
    ¬op.gen.Ensures c (ktestInstr d a) (fun s t ↦ s.kslot = ks →
      op.Right d a s t ∧ t.gpr = s.gpr ∧ t.kslot = s.kslot) := by
  intro h
  obtain ⟨t, hpost, hnot⟩ := op.not_right h { State.blank with kslot := ks }
  exact hnot (hpost rfl).1

/-- The parity flag is set for two opmasks of zeros. -/
theorem not_ensures_kortestw_k1_k2 : ¬rwFuncKortestw.Ensures ⟨false, fun _ ↦ 0⟩ (ktestInstr 1 2)
    (OrTest.Right .kortestw 1 2) := by
  intro h
  obtain ⟨t, hpost, hnot⟩ := OrTest.not_right .kortestw h .blank
  exact hnot hpost

end DrAvx
