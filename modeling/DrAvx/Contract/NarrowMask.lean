import DrAvx.Contract.OpmaskFrame
import DrAvx.Rewrite.Run

/-!
# Narrow opmask operations

An opmask register has 64 bits, and an operation on fewer of them clears the rest: `DEST[MAX_KL-1:w]`
is zero, as the comments in the handlers say.  Most chains store as many bits as the operation has and
leave the rest of the slot as it was.  The ones that store the whole slot do so from a register that
holds the result zero-extended; three of them go wrong elsewhere.
-/

set_option autoImplicit false

namespace DrAvx

open Decision Flow Function

/-! ## The operations -/

/-- An operation on the low bits of opmask registers: their number, and the result for two sources
and the immediate byte. -/
structure NarrowOp where
  width : ℕ
  result : BitVec width → BitVec width → ℕ → BitVec width

namespace NarrowOp

variable (w : ℕ)

def and : NarrowOp := ⟨w, fun a b _ ↦ a &&& b⟩
def andn : NarrowOp := ⟨w, fun a b _ ↦ ~~~a &&& b⟩
def or : NarrowOp := ⟨w, fun a b _ ↦ a ||| b⟩
def xor : NarrowOp := ⟨w, fun a b _ ↦ a ^^^ b⟩
def xnor : NarrowOp := ⟨w, fun a b _ ↦ ~~~(a ^^^ b)⟩
def not : NarrowOp := ⟨w, fun a _ _ ↦ ~~~a⟩
def add : NarrowOp := ⟨w, fun a b _ ↦ a + b⟩
def shiftl : NarrowOp := ⟨w, fun a _ n ↦ a <<< n⟩
def shiftr : NarrowOp := ⟨w, fun a _ n ↦ a >>> n⟩
def mov : NarrowOp := ⟨w, fun a _ _ ↦ a⟩

end NarrowOp

/-- The operation that a handler is for, if it has less than 64 bits. -/
def RwFunc.narrow : RwFunc → Option NarrowOp
  | .kandb => some (.and 8)
  | .kandw => some (.and 16)
  | .kandd => some (.and 32)
  | .kandnb => some (.andn 8)
  | .kandnw => some (.andn 16)
  | .kandnd => some (.andn 32)
  | .korb => some (.or 8)
  | .korw => some (.or 16)
  | .kord => some (.or 32)
  | .kxorb => some (.xor 8)
  | .kxorw => some (.xor 16)
  | .kxord => some (.xor 32)
  | .kxnorb => some (.xnor 8)
  | .kxnorw => some (.xnor 16)
  | .kxnord => some (.xnor 32)
  | .knotb => some (.not 8)
  | .knotw => some (.not 16)
  | .knotd => some (.not 32)
  | .kaddb => some (.add 8)
  | .kaddw => some (.add 16)
  | .kaddd => some (.add 32)
  | .kshiftlb => some (.shiftl 8)
  | .kshiftlw => some (.shiftl 16)
  | .kshiftld => some (.shiftl 32)
  | .kshiftrb => some (.shiftr 8)
  | .kshiftrw => some (.shiftr 16)
  | .kshiftrd => some (.shiftr 32)
  | .kmovb => some (.mov 8)
  | .kmovw => some (.mov 16)
  | .kmovd => some (.mov 32)
  | _ => none

theorem RwFunc.width_le {h : RwFunc} {op : NarrowOp} (hop : h.narrow = some op) : op.width ≤ 32 := by
  cases h <;> cases hop <;> decide

/-- The destination holds the result of the operation and zeros above it. -/
def NarrowOp.Stored (op : NarrowOp) (i : AppInstr) (s t : State) : Prop :=
  t.kslot (i.opnd .d0).kreg =
    (op.result ((s.kslot (i.opnd .s0).kreg).setWidth op.width)
      ((s.kslot (i.opnd .s1).kreg).setWidth op.width)
      ((i.opnd .s1).immVal % 256).toNat).setWidth 64

/-- The operands for which the destination is right. -/
def RwFunc.widens (i : AppInstr) : RwFunc → Bool
  | .kxnorb | .kxnorw => true
  -- with equal sources the result goes to their slot
  | .kxnord => i.opnd .s0 != i.opnd .s1 || i.opnd .d0 == i.opnd .s0
  -- the slot of the destination is cleared before the source is read
  | .kmovb => i.opnd .d0 != i.opnd .s0
  -- the processor takes the count modulo 64, and a negative one counts as small
  | .kshiftrb => decide ¬((i.opnd .s1).immVal < 0 ∧ (i.opnd .s1).immVal % 64 < 8)
  | _ => false

/-! ## Chains that keep the upper bits -/

/-- The operand is not a whole slot. -/
def TOpnd.sparesTop : TOpnd → Bool
  | .kslot _ b => decide (b < 8)
  | _ => true

/-- The chain never writes a whole slot. -/
def Template.keepsTop (T : Template) : Bool := T.body.all fun i ↦ i.dsts.all TOpnd.sparesTop

theorem getLsbD_63_merge {b : ℕ} (hb : b < 8) (old : BitVec 64) (v : Val) :
    ((merge b (old.setWidth 256) v).setWidth 64).getLsbD 63 = old.getLsbD 63 := by
  rw [BitVec.getLsbD_setWidth, getLsbD_merge, if_neg (by omega), BitVec.getLsbD_setWidth]
  simp

section Partial

variable {c : Context} {F : Facts} {T : Template} {e : Env} (h : Emitted c F T e)
include h

theorem Emitted.getLsbD_63_of_keepsTop (hT : T.keepsTop = true) {E : Ext} {s t : State}
    (hexec : Exec E (T.body.map (TInsn.inst e)) s t) (k : KReg) :
    (t.kslot k).getLsbD 63 = (s.kslot k).getLsbD 63 := by
  refine hexec.frame (f := fun u ↦ (u.kslot k).getLsbD 63) fun j hj u ↦ ?_
  obtain ⟨i, hi, rfl⟩ := List.mem_map.mp hj
  have htop := List.all_eq_true.mp hT i hi
  refine Insn.effect_frame (f := fun u ↦ (u.kslot k).getLsbD 63) (fun _ _ ↦ rfl) fun o ho s' v ↦ ?_
  cases o with
  | kslot q b =>
    obtain ⟨o', ho', hinst⟩ := List.mem_map.mp ho
    obtain ⟨p, rfl, -⟩ := TOpnd.eq_kslot_of_inst h.ordinary hinst
    have hb : b < 8 := of_decide_eq_true (List.all_eq_true.mp htop _ ho')
    by_cases hk : k = q
    · subst hk
      dsimp only [State.write]
      rw [update_self]
      exact getLsbD_63_merge hb _ _
    · dsimp only [State.write]
      rw [update_of_ne hk]
  | zslot r upper b => cases upper <;> rfl
  | _ => rfl

/-- The upper bits show what was in the slot before. -/
theorem Emitted.not_stored_of_keepsTop (hT : T.keepsTop = true)
    (hexec : ∀ E s, ∃ t, Exec E (T.body.map (TInsn.inst e)) s t) {op : NarrowOp}
    (hop : op.width ≤ 32) :
    ¬∀ E s t, Exec E (T.body.map (TInsn.inst e)) s t → op.Stored e.instr s t := by
  intro hstored
  obtain ⟨t, ht⟩ := hexec .blank { State.blank with kslot := fun _ ↦ -1 }
  have hbit := h.getLsbD_63_of_keepsTop hT ht (e.instr.opnd .d0).kreg
  rw [hstored _ _ _ ht, BitVec.getLsbD_setWidth, BitVec.getLsbD_of_ge _ _ (by omega)] at hbit
  have hone : (-1 : BitVec 64).getLsbD 63 = true := by decide
  exact absurd (hbit.trans hone) (by decide)

end Partial

/-- The handlers that store whole slots. -/
def RwFunc.storesWhole : RwFunc → Bool
  | .kxnorb | .kxnorw | .kxnord | .kmovb | .kshiftrb => true
  | _ => false

/-- No other handler does, except in chains that cannot be encoded. -/
theorem keepsTop_of_narrow : ∀ h ∈ RwFunc.all, h.narrow.isSome = true → h.storesWhole = false →
    h.check (Leaf.every fun F T ↦ settles surveying h.residual F false ||
      F.profile .d0 != .opmask || F.profile .s0 != .opmask || T.keepsTop) = true := by
  decide +kernel

/-! ## Chains that store whole slots -/

section Values

variable (e : Env) (E : Ext) (s : State)

/-- The slots after the exclusive nor. -/
theorem kslot_kxnorCode {m : ℤ} {b : ℕ} :
    (effects E ((kxnorCode [rmw .and (reg64 rax) (.imm m b)]).map (TInsn.inst e)) s).kslot =
      update s.kslot (e.instr.opnd .d0).kreg (BitVec.ofInt 64 m &&&
        ~~~(s.kslot (e.instr.opnd .s1).kreg ^^^ s.kslot (e.instr.opnd .s0).kreg)) := by
  let read (v : BitVec 64) : Val := low 8 (v.setWidth 256)
  let a := (read (s.kslot (e.instr.opnd .s0).kreg)).setWidth 64
  let b' := (read (s.kslot (e.instr.opnd .s1).kreg)).setWidth 64
  let r := (~~~read ((read b' ^^^ read a).setWidth 64)).setWidth 64
  have h : (effects E ((kxnorCode [rmw .and (reg64 rax) (.imm m b)]).map (TInsn.inst e)) s).kslot =
      update s.kslot (e.instr.opnd .d0).kreg
        ((merge 8 ((s.kslot (e.instr.opnd .d0).kreg).setWidth 256)
          (read ((BitVec.ofInt 256 m &&& read r).setWidth 64))).setWidth 64) := rfl
  rw [h, setWidth_merge_8]
  simp [read, r, a, b', setWidth_low_8, setWidth_ofInt_64]

/-- The same with the mask in a register. -/
theorem kslot_kxnorCode_reg {m : ℤ} {b : ℕ} :
    (effects E ((kxnorCode [ins .movImm (reg64 rcx) [.imm m b],
        rmw .and (reg64 rax) (reg64 rcx)]).map (TInsn.inst e)) s).kslot =
      update s.kslot (e.instr.opnd .d0).kreg (BitVec.ofInt 64 m &&&
        ~~~(s.kslot (e.instr.opnd .s1).kreg ^^^ s.kslot (e.instr.opnd .s0).kreg)) := by
  let read (v : BitVec 64) : Val := low 8 (v.setWidth 256)
  let a := (read (s.kslot (e.instr.opnd .s0).kreg)).setWidth 64
  let b' := (read (s.kslot (e.instr.opnd .s1).kreg)).setWidth 64
  let r := (~~~read ((read b' ^^^ read a).setWidth 64)).setWidth 64
  have h : (effects E ((kxnorCode [ins .movImm (reg64 rcx) [.imm m b],
      rmw .and (reg64 rax) (reg64 rcx)]).map (TInsn.inst e)) s).kslot =
      update s.kslot (e.instr.opnd .d0).kreg
        ((merge 8 ((s.kslot (e.instr.opnd .d0).kreg).setWidth 256)
          (read ((read ((BitVec.ofInt 256 m).setWidth 64) &&& read r).setWidth 64))).setWidth 64) := rfl
  rw [h, setWidth_merge_8]
  simp [read, r, a, b', setWidth_low_8, setWidth_ofInt_64]

/-- The slots after ones are stored in one of them. -/
theorem kslot_setOnes {p : Pos} {m : ℤ} :
    (effects E ((setOnes p m).map (TInsn.inst e)) s).kslot =
      update s.kslot (e.instr.opnd p).kreg (BitVec.ofInt 64 m) := by
  let read (v : BitVec 64) : Val := low 8 (v.setWidth 256)
  have h : (effects E ((setOnes p m).map (TInsn.inst e)) s).kslot =
      update s.kslot (e.instr.opnd p).kreg
        ((merge 8 ((s.kslot (e.instr.opnd p).kreg).setWidth 256)
          (read ((BitVec.ofInt 256 m).setWidth 64))).setWidth 64) := rfl
  rw [h, setWidth_merge_8]
  simp [read, setWidth_low_8, setWidth_ofInt_64]

/-- The slot of the destination after the move of a byte: it is cleared first. -/
theorem kslot_kmovb :
    (effects E (List.map (TInsn.inst e)
      [pushf, ins .movSt (.rslot 1 8) [reg64 r11], ins .movSt (.rslot 2 8) [reg64 r12],
        rmw .xor (reg64 r12) (reg64 r12), ins .movSt (.kslot .d0 8) [reg64 r12],
        ins .movLd (reg8 r11) [.kslot .s0 1], ins .movSt (.kslot .d0 1) [reg8 r11],
        ins .movLd (reg64 r12) [.rslot 2 8], ins .movLd (reg64 r11) [.rslot 1 8], popf]) s).kslot
        (e.instr.opnd .d0).kreg =
      ((update s.kslot (e.instr.opnd .d0).kreg 0 (e.instr.opnd .s0).kreg).setWidth 8).setWidth 64 := by
  let d := (e.instr.opnd .d0).kreg
  let zero := (merge 8 ((s.kslot d).setWidth 256) (low 8 (((low 8 ((s.gpr .r12).setWidth 256) ^^^
    low 8 ((s.gpr .r12).setWidth 256)).setWidth 64).setWidth 256))).setWidth 64
  let byte := (merge 1 ((s.gpr .r11).setWidth 256)
    (low 1 ((update s.kslot d zero (e.instr.opnd .s0).kreg).setWidth 256))).setWidth 64
  have h : (effects E (List.map (TInsn.inst e)
      [pushf, ins .movSt (.rslot 1 8) [reg64 r11], ins .movSt (.rslot 2 8) [reg64 r12],
        rmw .xor (reg64 r12) (reg64 r12), ins .movSt (.kslot .d0 8) [reg64 r12],
        ins .movLd (reg8 r11) [.kslot .s0 1], ins .movSt (.kslot .d0 1) [reg8 r11],
        ins .movLd (reg64 r12) [.rslot 2 8], ins .movLd (reg64 r11) [.rslot 1 8], popf]) s).kslot =
      update (update s.kslot d zero) d ((merge 1 ((update s.kslot d zero d).setWidth 256)
        (low 1 (byte.setWidth 256))).setWidth 64) := rfl
  have hzero : zero = 0 := by simp [zero, setWidth_merge_8, setWidth_low_8]
  rw [h, update_self, update_self]
  refine BitVec.eq_of_getLsbD_eq fun j hj ↦ ?_
  have hj' : j < 256 := by omega
  simp only [byte, hzero, d, BitVec.getLsbD_setWidth, getLsbD_merge, getLsbD_low]
  by_cases h8 : j < 8
  · simp [h8, hj, hj']
  · simp [h8]

/-- The slot of the destination after zero is stored. -/
theorem kslot_clear :
    (effects E ([pushf, push rax, rmw .xor (reg64 rax) (reg64 rax), stK .q rax, pop rax, popf].map
      (TInsn.inst e)) s).kslot (e.instr.opnd .d0).kreg = 0 := by
  let d := (e.instr.opnd .d0).kreg
  have h : (effects E ([pushf, push rax, rmw .xor (reg64 rax) (reg64 rax), stK .q rax, pop rax,
      popf].map (TInsn.inst e)) s).kslot = update s.kslot d ((merge 8 ((s.kslot d).setWidth 256)
        (low 8 (((low 8 ((s.gpr .rax).setWidth 256) ^^^ low 8 ((s.gpr .rax).setWidth 256)).setWidth
          64).setWidth 256))).setWidth 64) := rfl
  rw [h, update_self, setWidth_merge_8]
  simp [setWidth_low_8]

/-- The slot of the destination after the right shift of a byte. -/
theorem kslot_kshiftrb {v : ℤ} (hv : e.instr.opnd .s1 = .imm v 1) :
    (effects E (([pushf, push rax] ++ ldKzx .b ++
      [rmw .shr (reg64 rax) (.app .s1), stK .q rax, pop rax, popf]).map (TInsn.inst e)) s).kslot
        (e.instr.opnd .d0).kreg =
      ((s.kslot (e.instr.opnd .s0).kreg).setWidth 8).setWidth 64 >>> (v % 64).toNat := by
  let d := (e.instr.opnd .d0).kreg
  let byte := (merge 1 ((s.gpr .rax).setWidth 256)
    (low 1 ((s.kslot (e.instr.opnd .s0).kreg).setWidth 256))).setWidth 64
  let wide := (low 1 (byte.setWidth 256)).setWidth 64
  have hinst : TOpnd.inst e (.app .s1) = .imm v 1 := hv
  have hshr : TInsn.inst e (rmw .shr (reg64 rax) (.app .s1)) =
      ⟨.shr, [.gpr .q .rax], [.imm v 1, .gpr .q .rax]⟩ := by
    simp only [rmw, TInsn.inst, List.map_cons, List.map_nil, hinst]
    rfl
  have h : (effects E (([pushf, push rax] ++ ldKzx .b ++
      [rmw .shr (reg64 rax) (.app .s1), stK .q rax, pop rax, popf]).map (TInsn.inst e)) s).kslot =
      update s.kslot d ((merge 8 ((s.kslot d).setWidth 256) (low 8 (((low 8 (wide.setWidth 256) >>>
        ((BitVec.ofInt 256 v).toNat % 64)).setWidth 64).setWidth 256))).setWidth 64) := by
    rw [List.map_append, List.map_cons, hshr]
    rfl
  have hcount : (BitVec.ofInt 256 v).toNat % 64 = (v % 64).toNat := by
    rw [BitVec.toNat_ofInt]
    omega
  rw [h, update_self, hcount, setWidth_merge_8]
  refine BitVec.eq_of_getLsbD_eq fun j hj ↦ ?_
  have hj' : j < 256 := by omega
  simp only [wide, byte, BitVec.getLsbD_setWidth, getLsbD_merge, getLsbD_low,
    BitVec.getLsbD_ushiftRight]
  by_cases h8 : (v % 64).toNat + j < 8
  · have hlt : (v % 64).toNat + j < 256 ∧ (v % 64).toNat + j < 64 := by omega
    simp [h8, hj, hj', hlt]
  · simp [h8]

end Values

/-! ## Which operations leave zeros -/

/-- The low bits, zero-extended. -/
theorem ofInt_ones_and (w : ℕ) (v : BitVec 64) :
    BitVec.ofInt 64 (2 ^ w - 1) &&& v = (v.setWidth w).setWidth 64 := by
  have hones : BitVec.ofInt 64 (2 ^ w - 1) = BitVec.ofNat 64 (2 ^ w - 1) := by
    have hcast : ((2 ^ w : ℕ) : ℤ) = 2 ^ w := by push_cast; rfl
    have hpos : 1 ≤ 2 ^ w := Nat.one_le_two_pow
    rw [← BitVec.ofInt_natCast]
    congr 1
    omega
  refine BitVec.eq_of_getLsbD_eq fun j hj ↦ ?_
  rw [hones, BitVec.getLsbD_and, BitVec.getLsbD_ofNat, Nat.testBit_two_pow_sub_one,
    BitVec.getLsbD_setWidth, BitVec.getLsbD_setWidth]
  simp [hj]

theorem straight_of_storesWhole : ∀ h ∈ RwFunc.all, h.storesWhole = true →
    h.check (Leaf.every fun _ T ↦ T.isStraight) = true := by
  decide +kernel

section Whole

variable {h : RwFunc} {c : Context} {i : AppInstr} {n : ℕ} {linked : Bool} {code : List Insn}
variable {E : Ext} {s t : State}

/-- A run of a chain that stores a whole slot. -/
theorem RwFunc.exec_effects_of_storesWhole (hwhole : h.storesWhole = true) (hi : h.Decodes i)
    (hrun : h.gen.run c i = .chain n linked code) (hlegal : code.all Insn.legal = true) (E : Ext)
    (s : State) : Exec E code s (effects E code s) := by
  obtain ⟨F, T, e, hemitted, -, -, rfl, hstraight⟩ :=
    exists_emitted (straight_of_storesWhole h h.mem_all hwhole) hi hrun
  exact exec_effects hlegal (hemitted.all_plain hstraight) E s

theorem kslot_of_same {p q : Pos} (h : (Query.same p q).answer c i = true) :
    (i.opnd p).kreg = (i.opnd q).kreg := by
  rw [beq_iff_eq.mp h]

/-- The exclusive nor of equal values. -/
theorem ofInt_ones {w : ℕ} (a : BitVec w) :
    BitVec.ofInt 64 (2 ^ w - 1) = (~~~(a ^^^ a)).setWidth 64 := by
  rw [← BitVec.and_allOnes (x := BitVec.ofInt 64 (2 ^ w - 1)), ofInt_ones_and, BitVec.xor_self]
  refine BitVec.eq_of_getLsbD_eq fun j hj ↦ ?_
  simp only [BitVec.getLsbD_setWidth, BitVec.getLsbD_allOnes, BitVec.getLsbD_not,
    BitVec.getLsbD_zero]
  by_cases hjw : j < w
  · simp [hjw, hj]
  · simp [hjw]

/-- The exclusive nor of the low bits. -/
theorem ofInt_ones_and_xnor {w : ℕ} (hw : w ≤ 64) (a b : BitVec 64) :
    BitVec.ofInt 64 (2 ^ w - 1) &&& ~~~(b ^^^ a) =
      (~~~(a.setWidth w ^^^ b.setWidth w)).setWidth 64 := by
  rw [ofInt_ones_and, BitVec.setWidth_not hw, BitVec.setWidth_xor, BitVec.xor_comm]

/-- `kxnorw` and `kxnorb`. -/
theorem stored_kxnorGen {w : ℕ} {m : ℤ} (hw : w ≤ 64) (hm : m = 2 ^ w - 1) {b : ℕ}
    (hrun : (kxnorGen m [rmw .and (reg64 rax) (.imm m b)]).run c i = .chain n linked code) :
    (NarrowOp.xnor w).Stored i s (effects E code s) := by
  have hcode := run_of_regs hrun
  rw [run_ifQ] at hcode
  split at hcode
  next hsame =>
    rw [code_of_run_chain hcode, NarrowOp.Stored, kslot_setOnes, update_self, hm,
      ← kslot_of_same hsame]
    exact ofInt_ones _
  next hne =>
    rw [code_of_run_chain hcode, NarrowOp.Stored, kslot_kxnorCode, update_self, hm]
    exact ofInt_ones_and_xnor hw _ _

/-- `kxnord` with equal sources stores to the slot of the sources. -/
theorem stored_kxnord_iff (hrun : rwFuncKxnord.run c i = .chain n linked code)
    (hexec : ∀ E s, Exec E code s (effects E code s)) (hd0 : ∃ k, i.opnd .d0 = .opmask k)
    (hs0 : ∃ k, i.opnd .s0 = .opmask k) :
    (∀ E s t, Exec E code s t → (NarrowOp.xnor 32).Stored i s t) ↔
      RwFunc.widens i .kxnord = true := by
  have hcode := run_of_regs hrun
  rw [run_ifQ] at hcode
  simp only [RwFunc.widens, Bool.or_eq_true, bne_iff_ne, beq_iff_eq]
  split at hcode
  next hsame =>
    have heq : i.opnd .s0 = i.opnd .s1 := beq_iff_eq.mp hsame
    have hks (E : Ext) (s : State) : (effects E code s).kslot =
        update s.kslot (i.opnd .s0).kreg (BitVec.ofInt 64 4294967295) := by
      rw [code_of_run_chain hcode, kslot_setOnes]
    constructor
    · -- where the destination is another register, its slot is not written
      intro hstored
      refine .inr (by_contra fun hne ↦ ?_)
      have hkne : (i.opnd .d0).kreg ≠ (i.opnd .s0).kreg := by
        obtain ⟨k, hk⟩ := hd0
        obtain ⟨k', hk'⟩ := hs0
        intro hkreg
        rw [hk, hk', Opnd.kreg, Opnd.kreg] at hkreg
        exact hne (by rw [hk, hk', hkreg])
      have hslot := hstored .blank .blank _ (hexec .blank .blank)
      rw [NarrowOp.Stored, hks, update_of_ne hkne, ← heq] at hslot
      revert hslot
      exact (by decide : ¬(0 : BitVec 64) = (~~~((0 : BitVec 64).setWidth 32 ^^^
        (0 : BitVec 64).setWidth 32)).setWidth 64)
    · rintro (hne | hd) E s t hexec'
      · exact absurd heq hne
      · rw [hexec'.unique (hexec E s), NarrowOp.Stored, hks, hd, update_self, ← heq]
        exact ofInt_ones (w := 32) _
  next hne =>
    have hne' : i.opnd .s0 ≠ i.opnd .s1 := by
      intro heq
      exact hne (beq_iff_eq.mpr heq)
    refine iff_of_true (fun E s t hexec' ↦ ?_) (.inl hne')
    rw [hexec'.unique (hexec E s), code_of_run_chain hcode, NarrowOp.Stored, kslot_kxnorCode_reg,
      update_self]
    exact ofInt_ones_and_xnor (w := 32) (by decide) _ _

/-- `kmovb` between opmask registers clears the destination first. -/
theorem stored_kmovb_iff (hrun : rwFuncKmovb.run c i = .chain n linked code)
    (hexec : ∀ E s, Exec E code s (effects E code s)) (hd0 : ∃ k, i.opnd .d0 = .opmask k)
    (hs0 : ∃ k, i.opnd .s0 = .opmask k) (hcd0 : i.cls .d0 = .opmask) (hcs0 : i.cls .s0 = .opmask) :
    (∀ E s t, Exec E code s t → (NarrowOp.mov 8).Stored i s t) ↔ RwFunc.widens i .kmovb = true := by
  have hcode := run_of_regs hrun
  have hmask {p : Pos} (hp : i.cls p = .opmask) : (Query.test p .isMask).answer c i = true := by
    rw [Query.answer, hp]
    rfl
  rw [run_ifQ, if_pos (hmask hcs0), run_ifQ, if_pos (hmask hcd0)] at hcode
  have hks (E : Ext) (s : State) : (effects E code s).kslot (i.opnd .d0).kreg =
      ((update s.kslot (i.opnd .d0).kreg 0 (i.opnd .s0).kreg).setWidth 8).setWidth 64 := by
    rw [code_of_run_chain hcode]
    exact kslot_kmovb ⟨i, [], []⟩ E s
  obtain ⟨k, hk⟩ := hd0
  obtain ⟨k', hk'⟩ := hs0
  simp only [RwFunc.widens, bne_iff_ne, hk, hk', ne_eq, Opnd.opmask.injEq]
  constructor
  · rintro hstored rfl
    have hslot := hstored .blank { State.blank with kslot := fun _ ↦ 1 } _ (hexec _ _)
    rw [NarrowOp.Stored, hks, hk, hk', Opnd.kreg, update_self] at hslot
    revert hslot
    exact (by decide : ¬((0 : BitVec 64).setWidth 8).setWidth 64 =
      ((1 : BitVec 64).setWidth 8).setWidth 64)
  · intro hne E s t hexec'
    rw [hexec'.unique (hexec E s), NarrowOp.Stored, hks, hk, hk', Opnd.kreg, Opnd.kreg,
      update_of_ne (Ne.symm hne)]
    rfl

/-- `kshiftrb` takes a negative count for a small one. -/
theorem stored_kshiftrb_iff (hrun : rwFuncKshiftrb.run c i = .chain n linked code)
    (hexec : ∀ E s, Exec E code s (effects E code s)) {v : ℤ} (hv : i.opnd .s1 = .imm v 1)
    (hs1 : i.cls .s1 = .immed 1) (hle : -128 ≤ v) (hlt : v < 128) :
    (∀ E s t, Exec E code s t → (NarrowOp.shiftr 8).Stored i s t) ↔
      RwFunc.widens i .kshiftrb = true := by
  have hcode := run_of_regs (run_of_opnds hrun)
  have himm : (Query.test .s1 (.isKind .immed)).answer c i = true := by
    rw [Query.answer, hs1]
    rfl
  rw [run_ifQ, if_pos himm, run_ifQ] at hcode
  have hval : (i.opnd .s1).immVal = v := by rw [hv, Opnd.immVal]
  have hiff : (∀ E s t, Exec E code s t → (NarrowOp.shiftr 8).Stored i s t) ↔
      ∀ E s, (NarrowOp.shiftr 8).Stored i s (effects E code s) :=
    ⟨fun h E s ↦ h E s _ (hexec E s), fun h E s t ht ↦ ht.unique (hexec E s) ▸ h E s⟩
  rw [hiff]
  simp only [RwFunc.widens, NarrowOp.Stored, hval, decide_eq_true_eq]
  split at hcode
  next hsmall =>
    have hle7 : v ≤ 7 := by simpa [Query.answer, hval] using hsmall
    have hks (E : Ext) (s : State) : (effects E code s).kslot (i.opnd .d0).kreg =
        ((s.kslot (i.opnd .s0).kreg).setWidth 8).setWidth 64 >>> (v % 64).toNat := by
      rw [code_of_run_chain hcode]
      exact kslot_kshiftrb ⟨i, [], []⟩ E s hv
    simp only [hks]
    constructor
    · rintro hstored ⟨hneg, hcount⟩
      -- of eight ones some are left, although there should be none
      have hslot : ((255 : BitVec 64).setWidth 8).setWidth 64 >>> (v % 64).toNat =
          ((255 : BitVec 64).setWidth 8 >>> (v % 256).toNat).setWidth 64 :=
        hstored .blank { State.blank with kslot := fun _ ↦ 255 }
      have hleft : ∀ m < 8, ((255 : BitVec 64).setWidth 8).setWidth 64 >>> m ≠ 0 := by decide
      have hnone : (255 : BitVec 64).setWidth 8 >>> (v % 256).toNat = 0 :=
        BitVec.ushiftRight_eq_zero (by omega)
      rw [hnone] at hslot
      exact hleft (v % 64).toNat (by omega) (hslot.trans (by decide))
    · intro hgood E s
      refine BitVec.eq_of_getLsbD_eq fun j hj ↦ ?_
      simp only [NarrowOp.shiftr, BitVec.getLsbD_setWidth, BitVec.getLsbD_ushiftRight]
      by_cases hneg : v < 0
      · have hge : ¬(v % 64).toNat + j < 8 := by omega
        have hge' : ¬(v % 256).toNat + j < 8 := by omega
        simp [hge, hge']
      · have heq : (v % 64).toNat = (v % 256).toNat := by omega
        rw [heq]
        by_cases h8 : (v % 256).toNat + j < 8
        · simp [h8, hj, show (v % 256).toNat + j < 64 by omega]
        · simp [h8]
  next hlarge =>
    have hgt : 7 < v := by simpa [Query.answer, hval] using hlarge
    refine iff_of_true (fun E s ↦ ?_) (by omega)
    rw [code_of_run_chain hcode, kslot_clear ⟨i, [], []⟩ E s]
    refine BitVec.eq_of_getLsbD_eq fun j hj ↦ ?_
    have hge : ¬(v % 256).toNat + j < 8 := by omega
    simp only [NarrowOp.shiftr, BitVec.getLsbD_setWidth, BitVec.getLsbD_ushiftRight]
    simp [hge]

end Whole

section Iff

variable {h : RwFunc} {c : Context} {i : AppInstr} {n : ℕ} {linked : Bool} {code : List Insn}

/-- An operand of the class of opmask registers is one. -/
theorem AppInstr.exists_opmask {p : Pos} (hp : i.cls p = .opmask) : ∃ k, i.opnd p = .opmask k := by
  obtain ⟨-, hc, -⟩ | ⟨o, -, hc, ho⟩ := i.cls_eq p
  · rw [hc] at hp
    cases hp
  · rw [hc] at hp
    rw [ho]
    cases o with
    | opmask k => exact ⟨k, rfl⟩
    | mem o m b => rcases m with ⟨_, _, _ | _ | _, _, _⟩ | _ | _ <;> cases hp
    | imm v b => rcases Opnd.cls_imm_or v b with hc | hc <;> rw [hc] at hp <;> cases hp
    | _ => cases hp

/-- An immediate byte is between -128 and 127. -/
theorem AppInstr.exists_imm {p : Pos} (hp : i.cls p = .immed 1) :
    ∃ v, i.opnd p = .imm v 1 ∧ -128 ≤ v ∧ v < 128 := by
  obtain ⟨-, hc, -⟩ | ⟨o, -, hc, ho⟩ := i.cls_eq p
  · rw [hc] at hp
    cases hp
  · rw [hc] at hp
    rw [ho]
    cases o with
    | imm v b =>
      rw [Opnd.cls] at hp
      split at hp
      next hrange =>
        cases hp
        exact ⟨v, rfl, hrange.1, hrange.2⟩
      · cases hp
    | mem o m b => rcases m with ⟨_, _, _ | _ | _, _, _⟩ | _ | _ <;> cases hp
    | _ => cases hp

end Iff

theorem immed_of_kshiftrb : RwFunc.kshiftrb.check (Leaf.every fun F _ ↦
    F.profile .s1 == .immed 1) = true := by
  decide +kernel

/-- The 16-bit complement of k2 in k1. -/
def notK1 : AppInstr := ⟨[.opmask 1], [.opmask 2], false⟩

/-- The chain for it. -/
def notK1Chain : List Insn :=
  match RwFunc.knotw.gen.run ⟨false, fun _ ↦ 0⟩ notK1 with
  | .chain _ _ code => code
  | _ => []

end DrAvx
