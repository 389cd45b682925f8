import DrAvx.Machine.Blocks
import DrAvx.Machine.Compare
import DrAvx.Machine.Memory

/-!
# Code on general purpose registers

The effects of the instructions that chains use to count, to test bits and to compare, in terms of
registers of 32 and 64 bits.  A short block is described by the registers it computes and by what it
leaves alone, `Keeps`; the flags after it matter only if a jump follows.

## What is here

* `effect_move`, `effect_combine`, `effect_cmp`, …: the effects, for any operands.
* `State.read_d`, `State.write_d`, …: operands that are registers.
* `Cond.compare`, `holds_cmp`: what a jump after a comparison of doublewords looks at.
* `Keeps`, `keeps_effects`: blocks that change some registers and the flags.
-/

set_option autoImplicit false

namespace DrAvx

open Function

/-! ## Effects -/

section Effects

variable (E : Ext) (s : State)

/-- The opcodes that copy a general purpose operand, or a whole vector. -/
def Op.isMove : Op → Bool
  | .movLd | .movSt | .movImm | .movzx | .vmovdqu => true
  | _ => false

theorem effect_move {op : Op} (hop : op.isMove = true) (d o : Opnd) :
    (Insn.mk op [d] [o]).effect E s = s.write false s d (s.read 4 o) := by
  cases op <;> first | rfl | cases hop

/-- The opcodes that combine their source with their destination. -/
def Op.combine (op : Op) (n : ℕ) (b a : Val) : Option Val :=
  match op with
  | .add => some (addWithFlags n a b).1
  | .sub => some (subWithFlags n a b).1
  | .and => some (b &&& a)
  | .or => some (b ||| a)
  | .xor => some (b ^^^ a)
  | .imul => some (b * a)
  | .btr => some (a &&& ~~~(1#256 <<< (b.toNat % (8 * n))))
  | .bts => some (a ||| 1#256 <<< (b.toNat % (8 * n)))
  | .shl => some (a <<< (b.toNat % (if n = 8 then 64 else 32)))
  | .shr => some (a >>> (b.toNat % (if n = 8 then 64 else 32)))
  | _ => none

theorem effect_combine {op : Op} {d b : Opnd} {v : Val}
    (hv : op.combine d.bytes (s.read 4 b) (s.read 4 d) = some v) :
    (Insn.mk op [d] [b, d]).effect E s = { s.write false s d v with
      flags := op.newFlags E d.bytes [s.read 4 b, s.read 4 d] s.flags } := by
  cases op <;> first | (cases hv; done) | (obtain rfl := Option.some.inj hv; rfl)

theorem effect_inc (d : Opnd) : (Insn.mk .inc [d] [d]).effect E s =
    { s.write false s d (addWithFlags d.bytes (s.read 4 d) 1).1 with
      flags := Op.newFlags E .inc d.bytes [s.read 4 d] s.flags } := rfl

theorem effect_cmp (a b : Opnd) : (Insn.mk .cmp [] [a, b]).effect E s =
    { s with flags := (subWithFlags a.bytes (s.read 4 a) (s.read 4 b)).2 } := rfl

theorem effect_test (a b : Opnd) : (Insn.mk .test [] [a, b]).effect E s =
    { s with flags := Op.newFlags E .test a.bytes [s.read 4 a, s.read 4 b] s.flags } := rfl

end Effects

/-! ## Registers as operands -/

section Registers

variable (s p : State) (n : ℕ) (g : Gpr)

theorem low_setWidth_64 (x : BitVec 64) : low 8 (x.setWidth 256) = x.setWidth 256 := by
  rw [low, BitVec.setWidth_setWidth_of_le x (by decide), BitVec.setWidth_eq]

theorem setWidth_setWidth_64 (x : BitVec 64) : (x.setWidth 256).setWidth 64 = x := by
  rw [BitVec.setWidth_setWidth_of_le x (by decide), BitVec.setWidth_eq]

theorem setWidth_setWidth_32 (x : BitVec 32) : (x.setWidth 256).setWidth 32 = x := by
  rw [BitVec.setWidth_setWidth_of_le x (by decide), BitVec.setWidth_eq]

theorem low_setWidth_32 (x : BitVec 32) : low 4 (x.setWidth 256) = x.setWidth 256 := by
  rw [low, BitVec.setWidth_setWidth_of_le x (by decide), BitVec.setWidth_eq]

theorem setWidth_setWidth_32_64 (x : BitVec 32) : (x.setWidth 256).setWidth 64 = x.setWidth 64 :=
  BitVec.setWidth_setWidth_of_le x (by decide)

theorem setWidth_64_32 (x : BitVec 32) : (x.setWidth 64).setWidth 32 = x := by
  rw [BitVec.setWidth_setWidth_of_le x (by decide), BitVec.setWidth_eq]

theorem setWidth_beq {m n : ℕ} (h : m ≤ n) (x y : BitVec m) :
    (x.setWidth n == y.setWidth n) = (x == y) := by
  rw [Bool.eq_iff_iff, beq_iff_eq, beq_iff_eq]
  constructor
  · intro heq
    rw [← BitVec.setWidth_eq x, ← BitVec.setWidth_eq y, ← BitVec.setWidth_setWidth_of_le x h,
      ← BitVec.setWidth_setWidth_of_le y h, heq]
  · rintro rfl
    rfl

namespace State

section Fields

variable (legacy : Bool) (sz : GprSize) (k : KReg) (b : ℕ) (v : Val)

@[simp] theorem gpr_write_gpr :
    (s.write legacy p (.gpr sz g) v).gpr = update s.gpr g (writeGpr sz (s.gpr g) v) := rfl

@[simp] theorem kslot_write_gpr : (s.write legacy p (.gpr sz g) v).kslot = s.kslot := rfl

@[simp] theorem mem_write_gpr : (s.write legacy p (.gpr sz g) v).mem = s.mem := rfl

@[simp] theorem kslot_write_kslot : (s.write legacy p (.kslot k b) v).kslot =
    update s.kslot k ((merge b ((s.kslot k).setWidth 256) v).setWidth 64) := rfl

@[simp] theorem kslot_write_rslot (m : Fin 4) :
    (s.write legacy p (.rslot m b) v).kslot = s.kslot := rfl

@[simp] theorem gpr_write_rslot (m : Fin 4) :
    (s.write legacy p (.rslot m b) v).gpr = s.gpr := rfl

end Fields

/-- The bits of a register after a write to a part of it. -/
theorem getLsbD_writeGpr (sz : GprSize) (old : BitVec 64) (v : Val) {j : ℕ} (hj : j < 64) :
    (writeGpr sz old v).getLsbD j =
      if j < 8 * sz.bytes then v.getLsbD j else !decide (sz = .d) && old.getLsbD j := by
  cases sz with
  | q => simp [writeGpr, GprSize.bytes, hj]
  | d =>
    rw [writeGpr, BitVec.getLsbD_setWidth, getLsbD_low, decide_eq_true hj, Bool.true_and]
    by_cases h : j < 8 * 4 <;> simp [GprSize.bytes, h]
  | w | b =>
    rw [writeGpr, BitVec.getLsbD_setWidth, getLsbD_merge, decide_eq_true hj, Bool.true_and,
      BitVec.getLsbD_setWidth]
    simp [GprSize.bytes, show j < 256 by omega]

theorem read_gpr (sz : GprSize) : s.read n (.gpr sz g) = low sz.bytes ((s.gpr g).setWidth 256) := rfl

theorem read_q : s.read n (.gpr .q g) = (s.gpr g).setWidth 256 := low_setWidth_64 _

theorem read_d : s.read n (.gpr .d g) = ((s.gpr g).setWidth 32).setWidth 256 := by
  have hread : s.read n (.gpr .d g) = low 4 ((s.gpr g).setWidth 256) := rfl
  have hwidth : ((s.gpr g).setWidth 256).setWidth 32 = (s.gpr g).setWidth 32 :=
    BitVec.setWidth_setWidth_of_le _ (by decide)
  rw [hread, low, ← hwidth]

theorem read_kslot (k : KReg) : s.read n (.kslot k 8) = (s.kslot k).setWidth 256 := low_setWidth_64 _

theorem write_q (v : BitVec 64) : s.write false p (.gpr .q g) (v.setWidth 256) =
    { s with gpr := update s.gpr g v } := by
  have hwrite : s.write false p (.gpr .q g) (v.setWidth 256) =
      { s with gpr := update s.gpr g ((v.setWidth 256).setWidth 64) } := rfl
  rw [hwrite, setWidth_setWidth_64]

theorem write_d (v : BitVec 32) : s.write false p (.gpr .d g) (v.setWidth 256) =
    { s with gpr := update s.gpr g (v.setWidth 64) } := by
  have hwrite : s.write false p (.gpr .d g) (v.setWidth 256) =
      { s with gpr := update s.gpr g ((low 4 (v.setWidth 256)).setWidth 64) } := rfl
  rw [hwrite, low_setWidth_32, setWidth_setWidth_32_64]

theorem write_kslot (k : KReg) (v : BitVec 64) : s.write false p (.kslot k 8) (v.setWidth 256) =
    { s with kslot := update s.kslot k v } := by
  have hwrite : s.write false p (.kslot k 8) (v.setWidth 256) =
      { s with
        kslot := update s.kslot k
          ((merge 8 ((s.kslot k).setWidth 256) (v.setWidth 256)).setWidth 64) } := rfl
  rw [hwrite, setWidth_merge_8, setWidth_setWidth_64]

end State

end Registers

/-- What a doubleword register is combined to. -/
theorem effect_combine_d (E : Ext) (s : State) {op : Op} {g : Gpr} {b : Opnd} {v : Val}
    (hv : op.combine 4 (s.read 4 b) (((s.gpr g).setWidth 32).setWidth 256) = some v) :
    ∃ fl, (Insn.mk op [.gpr .d g] [b, .gpr .d g]).effect E s =
      { s with gpr := update s.gpr g ((v.setWidth 32).setWidth 64), flags := fl } := by
  rw [← State.read_d s 4] at hv
  have hlow : (low 4 v).setWidth 64 = (v.setWidth 32).setWidth 64 :=
    BitVec.setWidth_setWidth_of_le _ (by decide)
  have hwrite : s.write false s (.gpr .d g) v =
      { s with gpr := update s.gpr g ((v.setWidth 32).setWidth 64) } := by
    rw [← hlow]
    rfl
  have heffect := effect_combine E s (d := .gpr .d g) hv
  rw [hwrite] at heffect
  exact ⟨_, heffect⟩

/-- What a quadword register is combined to. -/
theorem effect_combine_q (E : Ext) (s : State) {op : Op} {g : Gpr} {b : Opnd} {v : Val}
    (hv : op.combine 8 (s.read 4 b) ((s.gpr g).setWidth 256) = some v) :
    ∃ fl, (Insn.mk op [.gpr .q g] [b, .gpr .q g]).effect E s =
      { s with gpr := update s.gpr g (v.setWidth 64), flags := fl } := by
  rw [← State.read_q s 4] at hv
  exact ⟨_, effect_combine E s (d := .gpr .q g) hv⟩

/-- Sums and differences of quadwords. -/
theorem setWidth_addWithFlags (a b : Val) :
    (addWithFlags 8 a b).1.setWidth 64 = a.setWidth 64 + b.setWidth 64 := by
  have hsum : (addWithFlags 8 a b).1 = low 8 (low 8 a + low 8 b) := rfl
  rw [hsum]
  apply BitVec.eq_of_toNat_eq
  simp only [low, BitVec.toNat_setWidth, BitVec.toNat_add]
  omega

theorem setWidth_subWithFlags (a b : Val) :
    (subWithFlags 8 a b).1.setWidth 64 = a.setWidth 64 - b.setWidth 64 := by
  have hdiff : (subWithFlags 8 a b).1 = low 8 (low 8 a - low 8 b) := rfl
  rw [hdiff]
  apply BitVec.eq_of_toNat_eq
  simp only [low, BitVec.toNat_setWidth, BitVec.toNat_sub]
  omega

/-- A register is cleared by combining it with itself. -/
theorem effect_clear (E : Ext) (s : State) {sz : GprSize} (hsz : 4 ≤ sz.bytes) (g : Gpr) :
    ∃ fl, (Insn.mk .xor [.gpr sz g] [.gpr sz g, .gpr sz g]).effect E s =
      { s with gpr := update s.gpr g 0, flags := fl } := by
  have hwrite : s.write false s (.gpr sz g) 0#256 = { s with gpr := update s.gpr g 0 } := by
    have hzero : State.writeGpr sz (s.gpr g) 0#256 = 0 := by
      cases sz with
      | b | w => exact absurd hsz (by decide)
      | d | q => rfl
    rw [← hzero]
    rfl
  have heffect := effect_combine E s (d := .gpr sz g) (b := .gpr sz g)
    (show Op.combine .xor _ _ _ = some _ from rfl)
  rw [BitVec.xor_self, hwrite] at heffect
  exact ⟨_, heffect⟩

/-! ## Comparisons of doublewords -/

/-- What a jump after a comparison looks at. -/
def Cond.compare (x y : BitVec 32) : Cond → Bool
  | b => x.ult y
  | nb => !x.ult y
  | z => x == y
  | nz => x != y
  | l => x.slt y
  | le => x.sle y
  | nle => y.slt x
  | p => (subWithFlags 4 (x.setWidth 256) (y.setWidth 256)).2.pf

section Compare

variable (x y : BitVec 32)

theorem getLsbD_31 (v : BitVec 32) : (v.setWidth 256).getLsbD 31 = v.msb := by
  rw [BitVec.getLsbD_setWidth, BitVec.msb_eq_getLsbD_last]
  rfl

theorem low_sub_32 : low 4 (x.setWidth 256 - y.setWidth 256) = (x - y).setWidth 256 := by
  apply BitVec.eq_of_toNat_eq
  simp only [low, BitVec.toNat_setWidth, BitVec.toNat_sub]
  omega

theorem subWithFlags_32_zf :
    (subWithFlags 4 (x.setWidth 256) (y.setWidth 256)).2.zf = (x == y) := by
  rw [subWithFlags_zf (by decide), low_setWidth_32, low_setWidth_32, setWidth_beq (by decide)]

theorem subWithFlags_32_cf :
    (subWithFlags 4 (x.setWidth 256) (y.setWidth 256)).2.cf = x.ult y := by
  have hcf : (subWithFlags 4 (x.setWidth 256) (y.setWidth 256)).2.cf =
      decide ((low 4 (x.setWidth 256)).toNat < (low 4 (y.setWidth 256)).toNat) := rfl
  rw [hcf, low_setWidth_32, low_setWidth_32, BitVec.toNat_setWidth_of_le (by decide),
    BitVec.toNat_setWidth_of_le (by decide)]
  rfl

theorem subWithFlags_32_sf :
    (subWithFlags 4 (x.setWidth 256) (y.setWidth 256)).2.sf = (x - y).msb := by
  have hsf : (subWithFlags 4 (x.setWidth 256) (y.setWidth 256)).2.sf =
      (low 4 (low 4 (x.setWidth 256) - low 4 (y.setWidth 256))).getLsbD 31 := rfl
  rw [hsf, low_setWidth_32, low_setWidth_32, low_sub_32, getLsbD_31]

/-- The difference is negative, unless it has overflown. -/
theorem subWithFlags_32_lt : ((subWithFlags 4 (x.setWidth 256) (y.setWidth 256)).2.sf !=
    (subWithFlags 4 (x.setWidth 256) (y.setWidth 256)).2.of) = x.slt y := by
  have hof : (subWithFlags 4 (x.setWidth 256) (y.setWidth 256)).2.of =
      ((low 4 (x.setWidth 256)).getLsbD 31 != (low 4 (y.setWidth 256)).getLsbD 31 &&
        (low 4 (low 4 (x.setWidth 256) - low 4 (y.setWidth 256))).getLsbD 31 !=
          (low 4 (x.setWidth 256)).getLsbD 31) := rfl
  rw [subWithFlags_32_sf, hof, low_setWidth_32, low_setWidth_32, low_sub_32, getLsbD_31, getLsbD_31,
    getLsbD_31, BitVec.slt_eq_ult]
  have hmsb (v : BitVec 32) : v.msb = decide (2147483648 ≤ v.toNat) := BitVec.msb_eq_decide v
  have hsub : (x - y).toNat = if x.toNat < y.toNat then 4294967296 + x.toNat - y.toNat
      else x.toNat - y.toNat := by
    rw [BitVec.toNat_sub]
    split <;> omega
  rw [hmsb, hmsb, hmsb, hsub, BitVec.ult]
  -- with equal signs the difference is negative if the first is less, with different ones the sign
  -- of the first decides
  have hx := x.isLt
  have hy := y.isLt
  generalize x.toNat = a at hx ⊢
  generalize y.toNat = b at hy ⊢
  by_cases hlt : a < b
  · rw [if_pos hlt, decide_eq_true hlt]
    by_cases ha : 2147483648 ≤ a
    · simp [ha, show 2147483648 ≤ b by omega, show 2147483648 ≤ 4294967296 + a - b by omega]
    · by_cases hb : 2147483648 ≤ b
      · simp [ha, hb]
      · simp [ha, hb, show 2147483648 ≤ 4294967296 + a - b by omega]
  · rw [if_neg hlt, decide_eq_false hlt]
    by_cases hb : 2147483648 ≤ b
    · simp [hb, show 2147483648 ≤ a by omega, show ¬2147483648 ≤ a - b by omega]
    · by_cases ha : 2147483648 ≤ a
      · simp [ha, hb]
      · simp [ha, hb, show ¬2147483648 ≤ a - b by omega]

theorem sle_eq_or : x.sle y = (x == y || x.slt y) := by
  rw [Bool.eq_iff_iff, Bool.or_eq_true, beq_iff_eq, BitVec.sle_iff_toInt_le, BitVec.slt_iff_toInt_lt,
    ← BitVec.toInt_inj]
  omega

theorem not_sle : (!x.sle y) = y.slt x := by
  rw [Bool.eq_iff_iff, Bool.not_eq_true', ← Bool.not_eq_true, BitVec.sle_iff_toInt_le,
    BitVec.slt_iff_toInt_lt]
  omega

/-- After a comparison, a jump looks at what it should. -/
theorem holds_cmp (c : Cond) :
    c.holds (subWithFlags 4 (x.setWidth 256) (y.setWidth 256)).2 = c.compare x y := by
  cases c with
  | b => exact subWithFlags_32_cf x y
  | nb => exact congrArg (!·) (subWithFlags_32_cf x y)
  | z => exact subWithFlags_32_zf x y
  | nz => exact congrArg (!·) (subWithFlags_32_zf x y)
  | l => exact subWithFlags_32_lt x y
  | le => rw [Cond.holds, subWithFlags_32_zf, subWithFlags_32_lt, Cond.compare, sle_eq_or]
  | nle => rw [Cond.holds, subWithFlags_32_zf, subWithFlags_32_lt, Cond.compare, ← not_sle x y, sle_eq_or]
  | p => rfl

end Compare

/-! ## What a block leaves alone -/

/-- Nothing has changed but some general purpose registers and the flags. -/
structure Keeps (gs : List Gpr) (s t : State) : Prop where
  gpr : ∀ g ∉ gs, t.gpr g = s.gpr g
  rest : t = { s with gpr := t.gpr, flags := t.flags }

namespace Keeps

variable {gs hs : List Gpr} {s t u : State}

theorem refl (gs : List Gpr) (s : State) : Keeps gs s s := ⟨fun _ _ ↦ rfl, rfl⟩

theorem trans (h : Keeps gs s t) (h' : Keeps gs t u) : Keeps gs s u where
  gpr g hg := (h'.gpr g hg).trans (h.gpr g hg)
  rest := h'.rest.trans
    (congrArg (fun v : State ↦ { v with gpr := u.gpr, flags := u.flags }) h.rest)

theorem mono (h : Keeps gs s t) (hsub : gs ⊆ hs) : Keeps hs s t :=
  ⟨fun g hg ↦ h.gpr g fun hmem ↦ hg (hsub hmem), h.rest⟩

theorem setFlags (h : Keeps gs s t) (fl : Flags) : Keeps gs s { t with flags := fl } :=
  ⟨h.gpr, congrArg (fun v : State ↦ { v with flags := fl }) h.rest⟩

theorem mem (h : Keeps gs s t) : t.mem = s.mem := by rw [h.rest]

theorem kslot (h : Keeps gs s t) : t.kslot = s.kslot := by rw [h.rest]

theorem rslot (h : Keeps gs s t) : t.rslot = s.rslot := by rw [h.rest]

theorem ymm (h : Keeps gs s t) : t.ymm = s.ymm := by rw [h.rest]

theorem lo (h : Keeps gs s t) : t.lo = s.lo := by rw [h.rest]

theorem hi (h : Keeps gs s t) : t.hi = s.hi := by rw [h.rest]

theorem segBase (h : Keeps gs s t) : t.segBase = s.segBase := by rw [h.rest]

end Keeps

/-- One of the registers. -/
def Opnd.isOneOf (gs : List Gpr) : Opnd → Bool
  | .gpr _ g => gs.contains g
  | _ => false

theorem keeps_writeAll {gs : List Gpr} (legacy : Bool) (p s : State) (ows : List (Opnd × Val))
    (h : ∀ ow ∈ ows, ow.1.isOneOf gs = true) : Keeps gs s (Insn.writeAll legacy p ows s) := by
  induction ows with
  | nil => exact .refl gs s
  | cons ow rest ih =>
    obtain ⟨o, v⟩ := ow
    refine (ih fun x hx ↦ h x (List.mem_cons_of_mem _ hx)).trans ?_
    have ho := h (o, v) List.mem_cons_self
    cases o with
    | gpr sz g =>
      refine ⟨fun x hx ↦ update_of_ne (fun heq ↦ hx ?_) _ _, rfl⟩
      rw [heq]
      simpa [Opnd.isOneOf] using ho
    | _ => cases ho

/-- An instruction that writes to some registers only. -/
theorem keeps_effect {gs : List Gpr} {i : Insn} (h : i.dsts.all (Opnd.isOneOf gs) = true) (E : Ext)
    (s : State) : Keeps gs s (i.effect E s) := by
  have hwrite := keeps_writeAll i.legacySse s s (i.dsts.zip (i.outputs E s)) fun ow how ↦
    List.all_eq_true.mp h _ (List.of_mem_zip how).1
  unfold Insn.effect
  split
  · exact hwrite.setFlags _
  · exact hwrite

theorem keeps_effects {gs : List Gpr} {code : List Insn}
    (h : (code.all fun i ↦ i.dsts.all (Opnd.isOneOf gs)) = true) (E : Ext) (s : State) :
    Keeps gs s (effects E code s) := by
  induction code generalizing s with
  | nil => exact .refl gs s
  | cons i code ih =>
    rw [List.all_cons, Bool.and_eq_true] at h
    exact (keeps_effect h.1 E s).trans (ih h.2 (i.effect E s))

end DrAvx
