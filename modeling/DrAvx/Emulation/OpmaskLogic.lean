import DrAvx.Contract.NarrowMask
import DrAvx.Emulation.Ensures

/-!
# Exclusive nor, exclusive or and sum of opmask registers

The handlers of `kxnor` have a shorter chain for equal sources, which stores ones.  That of `kxnord`
stores them to the slot of the sources, whatever the destination is.

The handlers of `kxor` and `kadd` load the first source from its slot.  The second one they address
by the offset of the slot in thread-local storage, but without the segment, so that the instruction
reads the application's memory at a small address.

## What is here

* `kxnor`, `Xnors`: the handlers, and what they should leave in the slots.
* `kxnor_ensures_iff`: which operands they are right for.
* `KSum`, `kaddr`, `strayBits`: the other two families, and what they read.
* `kaddr_ensuresFrom_iff`: from which states they are right.
-/

set_option autoImplicit false

namespace DrAvx

open Function

/-- An instruction with two sources as the decoder delivers it. -/
def kbinaryInstr (d a b : KReg) : AppInstr := ⟨[.opmask d], [.opmask a, .opmask b], false⟩

/-! ## Exclusive nor -/

/-- The handler for a width. -/
def kxnor : GprSize → Gen
  | .b => rwFuncKxnorb
  | .w => rwFuncKxnorw
  | .d => rwFuncKxnord
  | .q => rwFuncKxnorq

namespace Kxnor

/-- How the result is masked to the width. -/
def trim : GprSize → List TInsn
  | .b => [rmw .and (reg64 rax) (.imm 255 4)]
  | .w => [rmw .and (reg64 rax) (.imm 65535 4)]
  | .d => [ins .movImm (reg64 rcx) [.imm 4294967295 8], rmw .and (reg64 rax) (reg64 rcx)]
  | .q => []

/-- So many ones. -/
def ones (sz : GprSize) : ℤ := 2 ^ (8 * sz.bytes) - 1

/-- Whose slot the ones are stored to. -/
def onesPos : GprSize → Pos
  | .d => .s0
  | _ => .d0

section Chains

variable (sz : GprSize) (d a b : KReg) (E : Ext) (s : State)

def env : Env := ⟨kbinaryInstr d a b, [], []⟩

/-- The chain for different sources. -/
def general : List Insn := (kxnorCode (trim sz)).map (TInsn.inst (env d a b))

/-- The chain for equal sources. -/
def fast : List Insn := (setOnes (onesPos sz) (ones sz)).map (TInsn.inst (env d a b))

/-- How often the instruction is unlinked before the chain for different sources is put in. -/
def removed : GprSize → ℕ
  | .d => 0
  | _ => 1

theorem run_kxnor (c : Context) : (kxnor sz).run c (kbinaryInstr d a b) =
    if a = b then .chain 1 true (fast sz d a b) else .chain (removed sz) true (general sz d a b) := by
  have hsame : (Query.same .s0 .s1).answer c (kbinaryInstr d a b) = decide (a = b) := by
    have hanswer : (Query.same .s0 .s1).answer c (kbinaryInstr d a b) =
        (Opnd.opmask a == Opnd.opmask b) := rfl
    rw [hanswer, Bool.eq_iff_iff, beq_iff_eq, decide_eq_true_eq, Opnd.opmask.injEq]
  have hregs (ps : List Pos) (hps : ∀ p ∈ ps, p ∈ [Pos.d0, .s0, .s1]) (g : Gen) :
      (regs ps g).run c (kbinaryInstr d a b) = g.run c (kbinaryInstr d a b) := by
    refine run_regs fun p hp ↦ ?_
    have hp' := hps p hp
    simp only [List.mem_cons, List.not_mem_nil, or_false] at hp'
    obtain rfl | rfl | rfl := hp' <;> rfl
  have hgen : (kxnor sz).run c (kbinaryInstr d a b) = (ifQ (.same .s0 .s1)
      (emit [] (setOnes (onesPos sz) (ones sz)))
      (chain (removed sz) true [] [] (kxnorCode (trim sz)))).run c (kbinaryInstr d a b) := by
    cases sz with
    | b | w | q => exact hregs _ (by simp) _
    | d => exact hregs _ (by simp) _
  rw [hgen, run_ifQ, hsame]
  by_cases h : a = b
  · rw [decide_eq_true h, if_pos rfl, if_pos h]
    rfl
  · rw [decide_eq_false h, if_neg Bool.false_ne_true, if_neg h]
    rfl

theorem straight_general : straight (general sz d a b) = true := by
  cases sz <;> rfl

theorem straight_fast : straight (fast sz d a b) = true := by
  cases sz <;> rfl

/-- The exclusive nor of the low bits, and nothing above them. -/
def result : BitVec 64 :=
  (~~~((s.kslot a).setWidth (8 * sz.bytes) ^^^ (s.kslot b).setWidth (8 * sz.bytes))).setWidth 64

/-- Without masking all bits of the exclusive nor are stored. -/
theorem kslot_kxnorCode_nil (e : Env) :
    (effects E ((kxnorCode []).map (TInsn.inst e)) s).kslot =
      update s.kslot (e.instr.opnd .d0).kreg
        (~~~(s.kslot (e.instr.opnd .s1).kreg ^^^ s.kslot (e.instr.opnd .s0).kreg)) := by
  let read (v : BitVec 64) : Val := low 8 (v.setWidth 256)
  let x := (read (s.kslot (e.instr.opnd .s0).kreg)).setWidth 64
  let y := (read (s.kslot (e.instr.opnd .s1).kreg)).setWidth 64
  have h : (effects E ((kxnorCode []).map (TInsn.inst e)) s).kslot =
      update s.kslot (e.instr.opnd .d0).kreg
        ((merge 8 ((s.kslot (e.instr.opnd .d0).kreg).setWidth 256)
          (read ((~~~read ((read y ^^^ read x).setWidth 64)).setWidth 64))).setWidth 64) := rfl
  rw [h, setWidth_merge_8]
  simp [read, x, y, setWidth_low_8]

theorem kslot_general :
    (effects E (general sz d a b) s).kslot = update s.kslot d (result sz a b s) := by
  rw [result]
  cases sz with
  | b =>
    refine (kslot_kxnorCode _ E s).trans (congrArg (update s.kslot d) ?_)
    exact ofInt_ones_and_xnor (w := 8) (by decide) _ _
  | w =>
    refine (kslot_kxnorCode _ E s).trans (congrArg (update s.kslot d) ?_)
    exact ofInt_ones_and_xnor (w := 16) (by decide) _ _
  | d =>
    refine (kslot_kxnorCode_reg _ E s).trans (congrArg (update s.kslot d) ?_)
    exact ofInt_ones_and_xnor (w := 32) (by decide) _ _
  | q =>
    refine (kslot_kxnorCode_nil E s _).trans (congrArg (update s.kslot d) ?_)
    have hones : BitVec.ofInt 64 (2 ^ 64 - 1) = BitVec.allOnes 64 := by decide
    have hxnor := ofInt_ones_and_xnor (w := 64) le_rfl (s.kslot a) (s.kslot b)
    rw [hones, BitVec.allOnes_and] at hxnor
    exact hxnor

theorem kslot_fast : (effects E (fast sz d a a) s).kslot =
    update s.kslot ((kbinaryInstr d a a).opnd (onesPos sz)).kreg (result sz a a s) := by
  rw [fast, kslot_setOnes, ones, ofInt_ones ((s.kslot a).setWidth (8 * sz.bytes))]
  rfl

end Chains

end Kxnor

/-- What the exclusive nor leaves: the low bits of the destination, the other slots as they were, and
all slots as the chain for different sources leaves them. -/
structure Xnors (sz : GprSize) (d a b : KReg) (s t : State) : Prop where
  low : (t.kslot d).setWidth (8 * sz.bytes) =
    ~~~((s.kslot a).setWidth (8 * sz.bytes) ^^^ (s.kslot b).setWidth (8 * sz.bytes))
  others : ∀ k ≠ d, t.kslot k = s.kslot k
  general : ∀ E u, Exec E (Kxnor.general sz d a b) s u → t.kslot = u.kslot

namespace Kxnor

variable {sz : GprSize} {d a b : KReg} {s t : State}

theorem setWidth_result : (result sz a b s).setWidth (8 * sz.bytes) =
    ~~~((s.kslot a).setWidth (8 * sz.bytes) ^^^ (s.kslot b).setWidth (8 * sz.bytes)) := by
  have hle := sz.bytes_le
  rw [result, BitVec.setWidth_setWidth_of_le _ (by omega), BitVec.setWidth_eq]

/-- The slots have to be those of the chain for different sources. -/
theorem xnors_iff : Xnors sz d a b s t ↔ t.kslot = update s.kslot d (result sz a b s) := by
  constructor
  · intro h
    rw [h.general .blank _ (exec_straight (straight_general sz d a b) s), kslot_general]
  · intro h
    refine ⟨?_, fun k hk ↦ ?_, fun E u hu ↦ ?_⟩
    · rw [h, update_self, setWidth_result]
    · rw [h, update_of_ne hk]
    · rw [h, hu.unique (exec_straight (straight_general sz d a b) s), kslot_general]

/-- The destination is stored to, except for a doubleword with another source. -/
theorem kreg_onesPos (h : ¬(sz = .d ∧ d ≠ a)) :
    ((kbinaryInstr d a a).opnd (onesPos sz)).kreg = d := by
  cases sz with
  | b | w | q => rfl
  | d => exact (not_not.mp fun hne ↦ h ⟨rfl, hne⟩).symm

theorem kslot_fast_blank (d a : KReg) : (effects .blank (fast .d d a a) .blank).kslot =
    update State.blank.kslot a 0xFFFFFFFF := by
  refine (kslot_fast .d d a .blank .blank).trans (congrArg (update State.blank.kslot a) ?_)
  exact (by decide : (~~~((0 : BitVec 64).setWidth 32 ^^^ (0 : BitVec 64).setWidth 32)).setWidth 64 =
    0xFFFFFFFF#64)

/-- Ones in the slot of the sources are no help to another destination. -/
theorem not_xnors_of_ne (hne : d ≠ a) (ht : t.kslot = update State.blank.kslot a 0xFFFFFFFF) :
    ¬Xnors .d d a a State.blank t := by
  intro h
  have hlow := h.low
  rw [ht, update_of_ne hne] at hlow
  revert hlow
  exact (by decide : ¬(0 : BitVec 64).setWidth 32 =
    ~~~((0 : BitVec 64).setWidth 32 ^^^ (0 : BitVec 64).setWidth 32))

end Kxnor

/-- The handlers of `kxnor` leave the exclusive nor in the low bits of the destination, and every
slot as the chain for different sources would, except for a doubleword with equal sources that goes
to another register. -/
theorem kxnor_ensures_iff (sz : GprSize) (c : Context) (d a b : KReg) :
    (kxnor sz).Ensures c (kbinaryInstr d a b) (Xnors sz d a b) ↔ ¬(sz = .d ∧ a = b ∧ d ≠ a) := by
  have hrun := Kxnor.run_kxnor sz d a b c
  by_cases hab : a = b
  · subst hab
    rw [if_pos rfl] at hrun
    rw [Gen.ensures_iff hrun fun _ s ↦ exec_straight (Kxnor.straight_fast sz d a a) s]
    by_cases hother : sz = .d ∧ d ≠ a
    · obtain ⟨rfl, hne⟩ := hother
      refine iff_of_false (fun h ↦ ?_) fun h ↦ h ⟨rfl, rfl, hne⟩
      exact Kxnor.not_xnors_of_ne hne (Kxnor.kslot_fast_blank d a) (h .blank .blank)
    · refine iff_of_true (fun E s ↦ Kxnor.xnors_iff.mpr ?_) fun h ↦ hother ⟨h.1, h.2.2⟩
      rw [Kxnor.kslot_fast, Kxnor.kreg_onesPos hother]
  · rw [if_neg hab] at hrun
    rw [Gen.ensures_iff hrun fun _ s ↦ exec_straight (Kxnor.straight_general sz d a b) s]
    refine iff_of_true (fun E s ↦ Kxnor.xnors_iff.mpr ?_) fun h ↦ hab h.2.1
    rw [Kxnor.kslot_general]

/-- The exclusive nor of k2 with itself, for k1. -/
theorem not_ensures_kxnord_k1_k2_k2 :
    ¬(kxnor .d).Ensures ⟨false, fun _ ↦ 0⟩ (kbinaryInstr 1 2 2) (Xnors .d 1 2 2) := by
  rw [Gen.ensures_iff (Kxnor.run_kxnor .d 1 2 2 _) fun _ s ↦
    exec_straight (Kxnor.straight_fast .d 1 2 2) s]
  intro h
  exact Kxnor.not_xnors_of_ne (by decide) (Kxnor.kslot_fast_blank 1 2) (h .blank .blank)

/-! ## Exclusive or and sum -/

/-- The operations whose second source is addressed without the segment. -/
inductive KSum
  | xor | add

namespace KSum

def op : KSum → Op
  | xor => .xor
  | add => .add

def apply {w : ℕ} (x y : BitVec w) : KSum → BitVec w
  | xor => x ^^^ y
  | add => x + y

end KSum

/-- The handler for an operation and a width. -/
def kaddr : KSum → GprSize → Gen
  | .xor, .b => rwFuncKxorb
  | .xor, .w => rwFuncKxorw
  | .xor, .d => rwFuncKxord
  | .xor, .q => rwFuncKxorq
  | .add, .b => rwFuncKaddb
  | .add, .w => rwFuncKaddw
  | .add, .d => rwFuncKaddd
  | .add, .q => rwFuncKaddq

namespace KSum

variable (f : KSum) (sz : GprSize) (d a b : KReg) (E : Ext) (s : State)

/-- What stands for the slot of the second source. -/
def strayOpnd : Opnd := .mem .scratch (.baseDisp none none .none 0 (32 + 8 * b.val)) sz.bytes

/-- What the chain does between saving and restoring the flags and `rax`. -/
def core : List Insn :=
  [⟨.movLd, [.gpr sz .rax], [.kslot a sz.bytes]⟩,
    ⟨f.op, [.gpr sz .rax], [strayOpnd sz b, .gpr sz .rax]⟩,
    ⟨.movSt, [.kslot d sz.bytes], [.gpr sz .rax]⟩]

def code : List Insn := pushes [.flags, .reg .rax] ++ (core f sz d a b ++ pops [.flags, .reg .rax])

theorem run_kaddr (c : Context) :
    (kaddr f sz).run c (kbinaryInstr d a b) = .chain 1 true (code f sz d a b) := by
  cases f <;> cases sz <;> rfl

theorem straight_code : straight (code f sz d a b) = true := by
  have hcore : straight (core f sz d a b) = true := by
    cases f <;> cases sz <;> rfl
  rw [code, straight_append, straight_append, straight_pushes, hcore, straight_pops]
  rfl

end KSum

/-- Memory after the flags and `rax` have been pushed. -/
def pushedMem (s : State) : BitVec 64 → BitVec 8 :=
  store (store s.mem (s.gpr .rsp - 8) 8 s.flags.image) (s.gpr .rsp - 8 - 8) 8
    ((s.gpr .rax).setWidth 256)

/-- The bits that the instruction reads instead of those of the slot: they are at the address that is
the offset of the slot. -/
def strayBits (sz : GprSize) (b : KReg) (s : State) : BitVec (8 * sz.bytes) :=
  (load (pushedMem s) (BitVec.ofNat 64 (32 + 8 * b.val)) sz.bytes).setWidth (8 * sz.bytes)

namespace KSum

variable (f : KSum) (sz : GprSize) (d a b : KReg) (E : Ext) (s : State)

theorem mem_pushes : (effects E (pushes [.flags, .reg .rax]) s).mem = pushedMem s := by
  have hpushes : effects E (pushes [.flags, .reg .rax]) s =
      (Saved.reg .rax).push.effect E (Saved.flags.push.effect E s) := rfl
  rw [hpushes, effect_push, effect_push, pushedMem]
  rfl

theorem read_strayOpnd : s.read 4 (strayOpnd sz b) =
    load s.mem (BitVec.ofNat 64 (32 + 8 * b.val)) sz.bytes := by
  have hread : s.read 4 (strayOpnd sz b) =
      load s.mem (0#64 + 0#64 + BitVec.ofInt 64 (32 + 8 * b.val)) sz.bytes := rfl
  have hcast : BitVec.ofInt 64 (32 + 8 * b.val) = BitVec.ofNat 64 (32 + 8 * b.val) := by
    rw [← BitVec.ofInt_natCast]
    push_cast
    rfl
  rw [hread, BitVec.zero_add, BitVec.zero_add, hcast]

/-- The low bits of a value, taken out again. -/
theorem setWidth_low (v : Val) : (low sz.bytes v).setWidth (8 * sz.bytes) =
    v.setWidth (8 * sz.bytes) := by
  have hle := sz.bytes_le
  rw [low, BitVec.setWidth_setWidth_of_le _ (by omega), BitVec.setWidth_eq]

/-- The low bits of a word after so many bytes have been stored to it. -/
theorem setWidth_merge (old : BitVec 64) (v : Val) :
    ((merge sz.bytes (old.setWidth 256) v).setWidth 64).setWidth (8 * sz.bytes) =
      v.setWidth (8 * sz.bytes) := by
  have hle := sz.bytes_le
  refine BitVec.eq_of_getLsbD_eq fun j hj ↦ ?_
  simp only [BitVec.getLsbD_setWidth, getLsbD_merge]
  simp [hj, show j < 64 by omega]

/-- What the operation makes of the low bits. -/
theorem exists_combine (x y : Val) : ∃ v, f.op.combine sz.bytes y x = some v ∧
    v.setWidth (8 * sz.bytes) =
      f.apply (x.setWidth (8 * sz.bytes)) (y.setWidth (8 * sz.bytes)) := by
  have hle := sz.bytes_le
  cases f with
  | xor => exact ⟨y ^^^ x, rfl, by rw [BitVec.setWidth_xor, BitVec.xor_comm]; rfl⟩
  | add =>
    refine ⟨low sz.bytes (low sz.bytes x + low sz.bytes y), rfl, ?_⟩
    rw [setWidth_low, BitVec.setWidth_add _ _ (by omega), setWidth_low, setWidth_low]
    rfl

/-- The low bits of the destination after the chain. -/
theorem kslot_code : ((effects E (code f sz d a b) s).kslot d).setWidth (8 * sz.bytes) =
    f.apply ((s.kslot a).setWidth (8 * sz.bytes)) (strayBits sz b s) := by
  have hle := sz.bytes_le
  rw [code, effects_append, effects_append, kslot_pops]
  generalize hs₁ : effects E (pushes [.flags, .reg .rax]) s = s₁
  have hk : s₁.kslot = s.kslot := by rw [← hs₁, kslot_pushes]
  have hmem : s₁.mem = pushedMem s := by rw [← hs₁, mem_pushes]
  rw [core, effects_cons, effect_move E s₁ rfl]
  generalize hs₂ : s₁.write false s₁ (.gpr sz .rax) (s₁.read 4 (.kslot a sz.bytes)) = s₂
  have hrax : s₂.read 4 (.gpr sz .rax) = low sz.bytes ((s.kslot a).setWidth 256) := by
    have hread : s₁.read 4 (.kslot a sz.bytes) = low sz.bytes ((s₁.kslot a).setWidth 256) := rfl
    rw [← hs₂, State.read_gpr, State.gpr_write_gpr, update_self, State.low_writeGpr, hread, low_low,
      hk]
  have hstray : (s₂.read 4 (strayOpnd sz b)).setWidth (8 * sz.bytes) = strayBits sz b s := by
    rw [read_strayOpnd, strayBits, ← hs₂, State.mem_write_gpr, hmem]
  obtain ⟨v, hv, hbits⟩ := exists_combine f sz (s₂.read 4 (.gpr sz .rax))
    (s₂.read 4 (strayOpnd sz b))
  rw [hstray, hrax, setWidth_low, BitVec.setWidth_setWidth_of_le _ (by omega)] at hbits
  rw [effects_cons, effect_combine E s₂ (d := .gpr sz .rax) hv, effects_cons, effect_move E _ rfl,
    effects_nil, State.kslot_write_kslot, update_self, setWidth_merge, State.read_gpr, ← hbits,
    ← setWidth_low sz v]
  exact congrArg (BitVec.setWidth _) (State.low_writeGpr sz (s₂.gpr .rax) v)

/-- Both operations can be undone in the second operand. -/
theorem apply_inj {w : ℕ} (x : BitVec w) {y z : BitVec w} : f.apply x y = f.apply x z ↔ y = z := by
  cases f with
  | xor => exact BitVec.xor_right_inj x
  | add => exact BitVec.add_right_inj x

theorem ensuresFrom_iff_strayBits (c : Context) : (kaddr f sz).EnsuresFrom c (kbinaryInstr d a b) s
      (fun s t ↦ (t.kslot d).setWidth (8 * sz.bytes) =
        f.apply ((s.kslot a).setWidth (8 * sz.bytes)) ((s.kslot b).setWidth (8 * sz.bytes))) ↔
    strayBits sz b s = (s.kslot b).setWidth (8 * sz.bytes) := by
  refine Gen.ensuresFrom_iff (run_kaddr f sz d a b c) fun E ↦
    ⟨_, exec_straight (straight_code f sz d a b) s, ?_⟩
  rw [kslot_code, apply_inj]

end KSum

/-- The handlers of `kxor` and `kadd` leave the exclusive or, or the sum, of the sources in the low
bits of the destination exactly if the memory that is read instead of the second slot happens to
hold the same bits. -/
theorem kaddr_ensuresFrom_iff (f : KSum) (sz : GprSize) (c : Context) (d a b : KReg) (s : State) :
    (kaddr f sz).EnsuresFrom c (kbinaryInstr d a b) s (fun s t ↦
      (t.kslot d).setWidth (8 * sz.bytes) =
        f.apply ((s.kslot a).setWidth (8 * sz.bytes)) ((s.kslot b).setWidth (8 * sz.bytes))) ↔
    strayBits sz b s = (s.kslot b).setWidth (8 * sz.bytes) :=
  KSum.ensuresFrom_iff_strayBits f sz d a b s c

/-- The exclusive or of two slots that hold 1, with zeros in memory. -/
theorem not_ensuresFrom_kxorw : ¬(kaddr .xor .w).EnsuresFrom ⟨false, fun _ ↦ 0⟩ (kbinaryInstr 1 2 3)
    { State.blank with kslot := fun _ ↦ 1 } (fun s t ↦
      (t.kslot 1).setWidth 16 = (s.kslot 2).setWidth 16 ^^^ (s.kslot 3).setWidth 16) := by
  intro h
  have hbits := (KSum.ensuresFrom_iff_strayBits .xor .w 1 2 3 _ _).mp h
  exact absurd hbits (by decide)

end DrAvx
