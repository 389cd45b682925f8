import DrAvx.Contract.Aliasing
import DrAvx.Machine.Compare

/-!
# Chains that test their mask

The chains for masked moves load the mask from its slot into a general purpose register, compare it
with zero and with all ones, and jump.  Which way they go depends on the mask alone, and the slot is
not written.  The analysis here follows the mask into the register and the outcome of the comparison
into the zero flag, so that branches which cannot be taken are left out.

It is meant to be combined with another analysis, by `Analysis.prod`, and is told beforehand what the
comparisons will tell.
-/

set_option autoImplicit false

namespace DrAvx

open Flow Function

/-! ## The analysis -/

/-- What is known: the part of a general purpose register that holds the mask, and the zero flag. -/
structure MaskTest where
  held : Option (GRole × GprSize)
  zf : Option Bool

namespace MaskTest

/-- The role is taken by a register, where so many scratch registers are found. -/
def taken (n : ℕ) : GRole → Bool
  | .fixed _ => true
  | .t m => m < n
  | _ => false

/-- The instruction loads the mask. -/
def loads? (n : ℕ) (i : TInsn) : Option (GRole × GprSize) :=
  match i.dsts, i.srcs, i.op with
  | [.g sz r], [.kslot .s0 b], .movLd => if b = sz.bytes ∧ taken n r = true then some (r, sz) else none
  | _, _, _ => none

/-- The instruction compares a register with a number. -/
def compares? (i : TInsn) : Option ((GRole × GprSize) × ℤ) :=
  match i.srcs, i.dsts, i.op with
  | [.g sz r, .g sz' r'], [], .test => if sz' = sz ∧ r' = r then some ((r, sz), 0) else none
  | [.g sz r, .imm v _], [], .cmp => some ((r, sz), v)
  | _, _, _ => none

/-- The operand is no general purpose register, whatever the instruction. -/
def sparesGpr : TOpnd → Bool
  | .g _ _ | .app _ => false
  | _ => true

/-- The operand is no slot of an opmask register. -/
def sparesMask : TOpnd → Bool
  | .kslot _ _ => false
  | _ => true

/-- After an instruction that neither loads nor compares the mask. -/
def other (i : TInsn) (a : MaskTest) : MaskTest where
  held := if i.dsts.all sparesGpr then a.held else none
  zf := if i.op.setsFlags then none else a.zf

/-- After an instruction; `tells` are the outcomes of comparisons of the mask that are known. -/
def transfer (n : ℕ) (tells : GprSize → ℤ → Option Bool) (i : TInsn) (a : MaskTest) : MaskTest :=
  match loads? n i with
  | some h => { a with held := some h }
  | none => match compares? i with
    | some (h, v) => { a with zf := if a.held = some h then tells h.2 v else none }
    | none => a.other i

/-- After a jump that depends on the zero flag. -/
def atBranch (i : TInsn) (taken : Bool) (a : MaskTest) : Option MaskTest :=
  match i.op with
  | .jcc .z => if a.zf = some (!taken) then none else some a
  | .jcc .nz => if a.zf = some taken then none else some a
  | _ => some a

def le (a b : MaskTest) : Bool :=
  (b.held.isNone || a.held == b.held) && (b.zf.isNone || a.zf == b.zf)

def join (a b : MaskTest) : MaskTest where
  held := if a.held = b.held then a.held else none
  zf := if a.zf = b.zf then a.zf else none

/-- The analysis of a template with so many general purpose scratch registers. -/
def analysis (n : ℕ) (tells : GprSize → ℤ → Option Bool) : Analysis TInsn MaskTest where
  ctl := TInsn.ctl
  needs i _ := i.dsts.all sparesMask
  transfer := transfer n tells
  atBranch := atBranch
  le := le

/-- What the facts say of a state, for a given mask. -/
structure Holds (e : Env) (mask : BitVec 64) (a : MaskTest) (s : State) : Prop where
  kslot : s.kslot (e.instr.opnd .s0).kreg = mask
  held : ∀ r sz, a.held = some (r, sz) → ∃ g, e.gpr r = some g ∧
    low sz.bytes ((s.gpr g).setWidth 256) = low sz.bytes (mask.setWidth 256)
  zf : ∀ z, a.zf = some z → s.flags.zf = z

/-- The outcomes that are claimed to be known are right. -/
def Tells (mask : BitVec 64) (tells : GprSize → ℤ → Option Bool) : Prop :=
  ∀ sz v z, tells sz v = some z →
    (low sz.bytes (mask.setWidth 256) == low sz.bytes (BitVec.ofInt 256 v)) = z

/-! ## Soundness -/

section Sound

variable {e : Env} {mask : BitVec 64} {n : ℕ} {tells : GprSize → ℤ → Option Bool} {a b : MaskTest}
variable {E : Ext} {s : State} {i : TInsn}

theorem exists_gpr_of_taken {r : GRole} (h : taken e.gprs.length r = true) :
    ∃ g, e.gpr r = some g := by
  cases r with
  | fixed g => exact ⟨g, rfl⟩
  | t m =>
    have hm : m < e.gprs.length := by simpa [taken] using h
    exact ⟨_, List.getElem?_eq_getElem hm⟩
  | _ => cases h

theorem Holds.weaken (hle : a.le b = true) (hs : a.Holds e mask s) : b.Holds e mask s := by
  simp only [le, Bool.and_eq_true, Bool.or_eq_true, Option.isNone_iff_eq_none, beq_iff_eq] at hle
  refine ⟨hs.kslot, fun r sz h ↦ ?_, fun z h ↦ ?_⟩
  · rcases hle.1 with hnone | heq
    · rw [hnone] at h
      cases h
    · exact hs.held r sz (heq.trans h)
  · rcases hle.2 with hnone | heq
    · rw [hnone] at h
      cases h
    · exact hs.zf z (heq.trans h)

theorem kslot_of_needs (hord : ∀ p, (e.instr.cls p).ordinary = true)
    (h : i.dsts.all sparesMask = true) (k : KReg) :
    ((i.inst e).effect E s).kslot k = s.kslot k := by
  refine Insn.effect_kslot fun b hb ↦ ?_
  obtain ⟨o, ho, hinst⟩ := List.mem_map.mp hb
  obtain ⟨p, rfl, -⟩ := TOpnd.eq_kslot_of_inst hord hinst
  cases List.all_eq_true.mp h _ ho

theorem gpr_of_spares (h : i.dsts.all sparesGpr = true) (g : Gpr) :
    ((i.inst e).effect E s).gpr g = s.gpr g := by
  refine Insn.effect_gpr fun sz hsz ↦ ?_
  obtain ⟨o, ho, hinst⟩ := List.mem_map.mp hsz
  have hspares := List.all_eq_true.mp h o ho
  cases o with
  | g sz' r => cases hspares
  | app p => cases hspares
  | mem p off b =>
    simp only [TOpnd.inst] at hinst
    cases ho : e.instr.opnd p <;> simp [ho, Opnd.withMem] at hinst
  | memBase p off b =>
    simp only [TOpnd.inst] at hinst
    cases ho : e.instr.opnd p <;> simp [ho, Opnd.withMem] at hinst
  | _ => cases hinst

theorem Holds.other (hs : a.Holds e mask s) (hord : ∀ p, (e.instr.cls p).ordinary = true)
    (hneeds : i.dsts.all sparesMask = true) : (a.other i).Holds e mask ((i.inst e).effect E s) := by
  refine ⟨(kslot_of_needs hord hneeds _).trans hs.kslot, fun r sz h ↦ ?_, fun z h ↦ ?_⟩
  · simp only [MaskTest.other] at h
    split_ifs at h with hspares
    obtain ⟨g, hg, hlow⟩ := hs.held r sz h
    exact ⟨g, hg, (gpr_of_spares hspares g).symm ▸ hlow⟩
  · simp only [MaskTest.other] at h
    split_ifs at h with hsets
    have hsets : (i.inst e).op.setsFlags = false := Bool.eq_false_iff.mpr hsets
    rw [Insn.effect_flags hsets]
    exact hs.zf z h

theorem Holds.load (hs : a.Holds e mask s) {h : GRole × GprSize}
    (hi : loads? e.gprs.length i = some h) :
    ({ a with held := some h } : MaskTest).Holds e mask ((i.inst e).effect E s) := by
  unfold loads? at hi
  split at hi
  next sz r b hdsts hsrcs hop =>
    split_ifs at hi with hr
    obtain rfl := Option.some.inj hi
    obtain ⟨g, hg⟩ := exists_gpr_of_taken hr.2
    have heffect : (i.inst e).effect E s = { s with gpr := update s.gpr g (State.writeGpr sz (s.gpr g)
        (low b ((s.kslot (e.instr.opnd .s0).kreg).setWidth 256))) } := by
      obtain ⟨op, dsts, srcs⟩ := i
      dsimp only at hdsts hsrcs hop
      subst hdsts hsrcs hop
      simp only [TInsn.inst, List.map_cons, List.map_nil, TOpnd.inst, hg]
      rfl
    rw [heffect]
    refine ⟨hs.kslot, fun r' sz' heq ↦ ?_, hs.zf⟩
    cases heq
    refine ⟨g, hg, ?_⟩
    dsimp only
    rw [update_self, State.low_writeGpr, hs.kslot, hr.1, low_low]
  · cases hi

/-- Comparing sets the zero flag by the values that are compared. -/
theorem zf_of_compares {h : GRole × GprSize} {v : ℤ} (hi : compares? i = some (h, v)) {g : Gpr}
    (hg : e.gpr h.1 = some g) :
    ∃ fl : Flags, (i.inst e).effect E s = { s with flags := fl } ∧
      fl.zf = (low h.2.bytes ((s.gpr g).setWidth 256) == low h.2.bytes (BitVec.ofInt 256 v)) := by
  obtain ⟨op, dsts, srcs⟩ := i
  have hbytes (sz : GprSize) : sz.bytes ≤ 32 := by cases sz <;> decide
  unfold compares? at hi
  split at hi
  next sz r sz' r' hsrcs hdsts hop =>
    split_ifs at hi with hr
    obtain ⟨rfl, rfl⟩ := hr
    cases hi
    dsimp only at hdsts hsrcs hop hg
    subst hdsts hsrcs hop
    simp only [TInsn.inst, List.map_cons, List.map_nil, TOpnd.inst, hg]
    refine ⟨_, rfl, ?_⟩
    have hzero : low sz'.bytes (BitVec.ofInt 256 0) = 0 := by simp [low]
    have hzf : (low sz'.bytes (low sz'.bytes ((s.gpr g).setWidth 256) &&&
        low sz'.bytes ((s.gpr g).setWidth 256)) == 0) =
        (low sz'.bytes ((s.gpr g).setWidth 256) == low sz'.bytes (BitVec.ofInt 256 0)) := by
      rw [BitVec.and_self, low_low, hzero]
    exact hzf
  next sz r v' b hsrcs hdsts hop =>
    cases hi
    dsimp only at hdsts hsrcs hop hg
    subst hdsts hsrcs hop
    simp only [TInsn.inst, List.map_cons, List.map_nil, TOpnd.inst, hg]
    refine ⟨_, rfl, ?_⟩
    have hzf := subWithFlags_zf (hbytes sz) (low sz.bytes ((s.gpr g).setWidth 256))
      (BitVec.ofInt 256 v)
    rw [low_low] at hzf
    exact hzf
  · cases hi

theorem other_of_compares {h : GRole × GprSize} {v : ℤ} (hi : compares? i = some (h, v)) :
    a.other i = { a with zf := none } := by
  obtain ⟨op, dsts, srcs⟩ := i
  unfold compares? at hi
  split at hi
  next hsrcs hdsts hop =>
    dsimp only at hdsts hop
    rw [MaskTest.other, hdsts, hop]
    rfl
  next hsrcs hdsts hop =>
    dsimp only at hdsts hop
    rw [MaskTest.other, hdsts, hop]
    rfl
  · cases hi

theorem Holds.compare (hs : a.Holds e mask s) (hord : ∀ p, (e.instr.cls p).ordinary = true)
    (hneeds : i.dsts.all sparesMask = true) (htells : Tells mask tells) {h : GRole × GprSize}
    {v : ℤ} (hi : compares? i = some (h, v)) :
    ({ a with zf := if a.held = some h then tells h.2 v else none } : MaskTest).Holds e mask
      ((i.inst e).effect E s) := by
  by_cases hheld : a.held = some h
  · obtain ⟨g, hg, hlow⟩ := hs.held h.1 h.2 hheld
    obtain ⟨fl, heffect, hzf⟩ := zf_of_compares (E := E) (s := s) hi hg
    rw [heffect, if_pos hheld]
    refine ⟨hs.kslot, hs.held, fun z hz ↦ ?_⟩
    exact hzf.trans (hlow ▸ htells _ _ _ hz)
  · rw [if_neg hheld, ← other_of_compares hi]
    exact hs.other hord hneeds

theorem Holds.transfer (hs : a.Holds e mask s) (hord : ∀ p, (e.instr.cls p).ordinary = true)
    (hneeds : i.dsts.all sparesMask = true) (htells : Tells mask tells) :
    (a.transfer e.gprs.length tells i).Holds e mask ((i.inst e).effect E s) := by
  unfold MaskTest.transfer
  split
  next h hi => exact hs.load hi
  · split
    next h v hi => exact hs.compare hord hneeds htells hi
    · exact hs.other hord hneeds

/-- A branch that is ruled out is not taken. -/
theorem Holds.branch (hs : a.Holds e mask s) {n : ℕ} (hn : i.ctl = .branch n) :
    a.atBranch i ((i.inst e).jumpsTo s.flags).isSome = some a := by
  unfold MaskTest.atBranch
  split
  next hop =>
    rw [TInsn.isSome_jumpsTo hn hop, if_neg fun h ↦ ?_]
    have hzf := hs.zf _ h
    simp [Cond.holds] at hzf
  next hop =>
    rw [TInsn.isSome_jumpsTo hn hop, if_neg fun h ↦ ?_]
    have hzf := hs.zf _ h
    simp [Cond.holds] at hzf
  · rfl

theorem preserves {c : Context} {F : Facts} {T : Template} (h : Emitted c F T e)
    (htells : Tells mask tells) (s₀ : State) :
    Preserves (analysis T.gprs.length tells) e E T.body s₀ fun a s ↦ a.Holds e mask s where
  weaken := fun _ _ _ hle hs ↦ hs.weaken hle
  step := fun _ _ _ _ _ _ hneeds _ hs ↦ by
    have hs' := hs.transfer (E := E) h.ordinary hneeds htells
    rwa [Template.length_gprs h.env] at hs'
  branch := fun _ _ _ hn a _ hs ↦ ⟨a, hs.branch hn, hs⟩

end Sound

end MaskTest

end DrAvx
