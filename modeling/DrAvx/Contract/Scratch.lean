import DrAvx.Contract.Legality

/-!
# Whether borrowed vector registers survive

A chain may use vector registers that the instruction does not write, and has to put them back.  The
rewriter saves a borrowed register in its slot and restores it from there.  Where it does so with
128-bit moves, the restoring move clears the upper half of the register.  Some chains do not save a
register at all, and some restore from a slot they have not saved to.

The analysis keeps two lists of roles: registers that may have changed, and registers whose slot
holds what they held at the beginning.  `RwFunc.clobbering` lists the operands for which a register
may be left changed.
-/

set_option autoImplicit false

namespace DrAvx

open Decision Flow Function

/-! ## The analysis -/

/-- What is known of the vector registers: all that have changed play one of the roles `dirty`, and
the slots of the roles `saved` hold what the registers held at the beginning. -/
structure Kept where
  dirty : List Role
  saved : List Role

/-- The register that the instruction saves in its own slot. -/
def TInsn.saves? (i : TInsn) : Option Role :=
  match i.dsts, i.srcs, i.op with
  | [.slot r false 32], [.v .ymm r'], .vmovdqu => if r = r' then some r else none
  | _, _, _ => none

/-- The register that the instruction restores from its own slot. -/
def TInsn.restores? (i : TInsn) : Option Role :=
  match i.srcs, i.dsts, i.op with
  | [.slot r' false 32], [.v .ymm r], .vmovdqu => if r = r' then some r else none
  | _, _, _ => none

namespace Kept

/-- After an instruction that is neither a save nor a restore. -/
def clobber (T : Template) (F : Facts) (i : TInsn) (a : Kept) : Kept where
  dirty := a.dirty ∪ i.dsts.filterMap (TOpnd.vecRole F.profile)
  saved := a.saved.filter fun r ↦ i.sparesSlot T F r

def transfer (T : Template) (F : Facts) (i : TInsn) (a : Kept) : Kept :=
  match i.saves? with
  | some r => if a.dirty.all (T.apart F r) then { a with saved := r :: a.saved } else a.clobber T F i
  | none => match i.restores? with
    | some r =>
      if r ∈ a.saved then { a with dirty := a.dirty.filter (· ≠ r) } else a.clobber T F i
    | none => a.clobber T F i

def le (a b : Kept) : Bool := a.dirty.all (· ∈ b.dirty) && b.saved.all (· ∈ a.saved)

def join (a b : Kept) : Kept := ⟨a.dirty ∪ b.dirty, a.saved.filter (· ∈ b.saved)⟩

/-- The analysis of a template. -/
def analysis (T : Template) (F : Facts) : Analysis TInsn Kept where
  ctl := TInsn.ctl
  needs _ _ := true
  transfer := transfer T F
  le := le

/-- What the facts say of a state, compared with the state at the beginning. -/
structure Holds (e : Env) (s₀ : State) (a : Kept) (s : State) : Prop where
  dirty : ∀ x, s.ymm x ≠ s₀.ymm x → ∃ r ∈ a.dirty, e.vreg r = x
  saved : ∀ r ∈ a.saved, s.lo (e.vreg r) = s₀.ymm (e.vreg r)

/-! ## Soundness -/

section Sound

variable {c : Context} {F : Facts} {T : Template} {e : Env} (h : Emitted c F T e)
variable {E : Ext} {s₀ s : State} {a b : Kept} {i : TInsn}

theorem Holds.weaken (hle : a.le b = true) (hs : a.Holds e s₀ s) : b.Holds e s₀ s := by
  simp only [le, Bool.and_eq_true, List.all_eq_true, decide_eq_true_eq] at hle
  refine ⟨fun x hx ↦ ?_, fun r hr ↦ hs.saved r (hle.2 r hr)⟩
  obtain ⟨r, hr, hrx⟩ := hs.dirty x hx
  exact ⟨r, hle.1 r hr, hrx⟩

include h

theorem Holds.clobber (hs : a.Holds e s₀ s) :
    (a.clobber T F i).Holds e s₀ ((i.inst e).effect E s) := by
  refine ⟨fun x hx ↦ ?_, fun r hr ↦ ?_⟩
  · by_cases hwrites : ∃ w, Opnd.vec w x ∈ (i.inst e).dsts
    · obtain ⟨w, hw⟩ := hwrites
      obtain ⟨o, ho, hinst⟩ := List.mem_map.mp hw
      obtain ⟨r, hr, hrx⟩ := TOpnd.vecRole_of_inst hinst
      rw [← h.profile] at hr
      exact ⟨r, List.mem_union_iff.mpr (.inr (List.mem_filterMap.mpr ⟨o, ho, hr⟩)), hrx⟩
    · rw [Insn.effect_ymm fun w hw ↦ hwrites ⟨w, hw⟩] at hx
      obtain ⟨r, hr, hrx⟩ := hs.dirty x hx
      exact ⟨r, List.mem_union_iff.mpr (.inl hr), hrx⟩
  · obtain ⟨hsaved, hspares⟩ := List.mem_filter.mp hr
    rw [h.effect_lo hspares]
    exact hs.saved r hsaved

theorem Holds.save (hs : a.Holds e s₀ s) {r : Role} (hr : i.saves? = some r)
    (hclean : a.dirty.all (T.apart F r) = true) :
    ({ a with saved := r :: a.saved } : Kept).Holds e s₀ ((i.inst e).effect E s) := by
  -- the register that is saved has not changed
  have hintact : s.ymm (e.vreg r) = s₀.ymm (e.vreg r) := by
    by_contra hx
    obtain ⟨r', hr', heq⟩ := hs.dirty _ hx
    exact h.vreg_ne (List.all_eq_true.mp hclean r' hr') heq.symm
  obtain rfl : i = ⟨.vmovdqu, [.slot r false 32], [.v .ymm r]⟩ := by
    unfold TInsn.saves? at hr
    split at hr
    next hdsts hsrcs hop =>
      split_ifs at hr with heq
      cases hr
      rw [← hdsts, heq, ← hsrcs, ← hop]
    · cases hr
  simp only [TInsn.inst, List.map_cons, List.map_nil, TOpnd.inst, Insn.effect_saveYmm]
  refine ⟨hs.dirty, fun r' hr' ↦ ?_⟩
  by_cases heq : e.vreg r' = e.vreg r
  · simp [heq, hintact]
  · rcases List.mem_cons.mp hr' with rfl | hr'
    · exact absurd rfl heq
    · simpa [heq] using hs.saved r' hr'

omit h in
theorem Holds.restore (hs : a.Holds e s₀ s) {r : Role} (hr : i.restores? = some r)
    (hsaved : r ∈ a.saved) :
    ({ a with dirty := a.dirty.filter (· ≠ r) } : Kept).Holds e s₀ ((i.inst e).effect E s) := by
  obtain rfl : i = ⟨.vmovdqu, [.v .ymm r], [.slot r false 32]⟩ := by
    unfold TInsn.restores? at hr
    split at hr
    next hsrcs hdsts hop =>
      split_ifs at hr with heq
      cases hr
      rw [← hdsts, heq, ← hsrcs, ← hop]
    · cases hr
  simp only [TInsn.inst, List.map_cons, List.map_nil, TOpnd.inst, Insn.effect_restoreYmm]
  refine ⟨fun x hx ↦ ?_, hs.saved⟩
  by_cases heq : x = e.vreg r
  · simp [heq, hs.saved r hsaved] at hx
  · obtain ⟨r', hr', hrx⟩ := hs.dirty x (by simpa [heq] using hx)
    refine ⟨r', List.mem_filter.mpr ⟨hr', ?_⟩, hrx⟩
    have hne : r' ≠ r := fun h ↦ heq (hrx ▸ h ▸ rfl)
    simpa using hne

theorem Holds.transfer (hs : a.Holds e s₀ s) :
    (a.transfer T F i).Holds e s₀ ((i.inst e).effect E s) := by
  unfold Kept.transfer
  split
  next r hr =>
    split_ifs with hclean
    · exact hs.save h hr hclean
    · exact hs.clobber h
  · split
    next r hr =>
      split_ifs with hsaved
      · exact hs.restore hr hsaved
      · exact hs.clobber h
    · exact hs.clobber h

theorem preserves (s₀ : State) :
    Preserves (analysis T F) e E T.body s₀ fun a s ↦ a.Holds e s₀ s where
  weaken := fun _ _ _ hle hs ↦ hs.weaken hle
  step := fun _ _ _ _ _ _ _ _ hs ↦ hs.transfer h
  branch := fun _ _ _ _ a _ hs ↦ ⟨a, rfl, hs⟩

end Sound

end Kept

/-! ## Chains that put everything back -/

/-- The register in the role is a destination of the instruction. -/
def Facts.isDst (F : Facts) (r : Role) : Bool :=
  match F.profile .d0 with
  | .vec _ _ => .op .d0 ∈ F.alike r
  | _ => false

/-- At the end only a destination has changed. -/
def Template.keeps (T : Template) (F : Facts) : Bool :=
  ((Kept.analysis T F).run Kept.join 2 ⟨[], []⟩ T.body).any fun a ↦ a.dirty.all F.isDst

section Keeps

variable {c : Context} {F : Facts} {T : Template} {e : Env} (h : Emitted c F T e)
include h

theorem Emitted.mem_dsts_of_isDst {r : Role} (hr : F.isDst r = true) :
    ∃ w, .vec w (e.vreg r) ∈ e.instr.dsts := by
  unfold Facts.isDst at hr
  split at hr
  next w high hd0 =>
    rw [decide_eq_true_eq] at hr
    rw [← h.sat.vreg_alike rfl hr]
    rw [h.profile] at hd0
    obtain ⟨-, hc, -⟩ | ⟨o, hsome, hc, ho⟩ := e.instr.cls_eq .d0
    · rw [hc] at hd0
      cases hd0
    · rw [hc] at hd0
      obtain ⟨x, rfl⟩ := Opnd.exists_eq_vec hd0
      refine ⟨w, List.mem_of_getElem? (i := 0) ?_⟩
      rw [Env.vreg, ho]
      exact hsome
  · cases hr

theorem Emitted.ymm_of_keeps (hkeeps : T.keeps F = true) {E : Ext} {s t : State}
    (hexec : Exec E (T.body.map (TInsn.inst e)) s t) {x : VReg}
    (hx : ∀ w, .vec w x ∉ e.instr.dsts) : t.ymm x = s.ymm x := by
  obtain ⟨a, inv, hscan, hkeeps⟩ := Analysis.exists_scan_of_any hkeeps
  have hend : a.Holds e s t := (Kept.preserves h s).of_exec rfl h.opnd_ne_label hscan hexec
    ⟨fun x hx ↦ absurd rfl hx, fun r hr ↦ by cases hr⟩
  by_contra hne
  obtain ⟨r, hr, rfl⟩ := hend.dirty x hne
  obtain ⟨w, hw⟩ := h.mem_dsts_of_isDst (List.all_eq_true.mp hkeeps r hr)
  exact hx w hw

end Keeps

/-- The operands for which a handler may leave a register changed that is not a destination. -/
def RwFunc.clobbering : RwFunc → List (Cube Query)
  | .vmovss | .vmovsd | .vunpcklps | .vunpcklpd | .vunpckhps | .vunpckhpd | .vsqrtss | .vsqrtsd
  | .vpackuswb | .vpsllq | .vpsubw | .vpsubd | .vpsubq | .vpaddw | .vpaddd | .vpandq | .vpermi2w
  | .vporq =>
    [[is (upper .xmm .d0)], [is (upper .xmm .s2)], [is (upper .xmm .s1)]]
  | .vmovaps | .vpaddq | .vpmovsxwd | .vpmovsxdq | .vpmovzxbw | .vpmovzxwd | .vpmovzxdq =>
    [[is (upper .xmm .d0)], [is (upper .xmm .s1)]]
  | .vcvttss2si | .vcvttsd2si | .vcvtss2si | .vcvtsd2si | .vpextrb | .vpextrd | .vpextrq =>
    [[is (upper .xmm .s0)]]
  | .vucomiss | .vucomisd | .vcomiss | .vcomisd => [[is (upper .xmm .s1)], [is (upper .xmm .s0)]]
  | .vpsrad | .vpslld | .vpmulld | .vpandd => [[is (upper .xmm .d0)], [is (upper .xmm .s2)]]
  | .vpsubb => [[is (upper .xmm .s2)], [is (upper .xmm .s1)]]
  | .vpsrldq => [[is (upper .xmm .d0)], [is (upper .xmm .s1)], [is (mem .s1)]]
  | .vpbroadcastw =>
    [[is (upper .xmm .d0)], [is (.test .s1 (.isGpr .d)), isnt (upper .zmm .d0), is (vec .zmm .d0)]]
  | .vpbroadcastq => [[is (upper .xmm .d0)]]
  | .vcvttsd2usi | .vcvttss2usi =>
    [[is (based .s0)], [isnt .quickRw, is (vec .xmm .s0)], [is (upper .xmm .s0)]]
  | .vcvtusi2sd => [[isnt .quickRw]]
  | .vcvtusi2ss | .vrndscaless => [[]]
  | .vextracti32x4 =>
    [[isnt (upper .ymm .s2), is (upper .xmm .d0)], [is (upper .xmm .d0), isnt (.sameIndex .d0 .s2)]]
  | .vmovdqa32 | .vmovdqu32 =>
    [[is (upper .xmm .s1), is (mem .d0)], [isnt (upper .zmm .s1), is (mem .d0), is (vec .zmm .s1)]]
  | .vmovdqa64 | .vmovdqu64 =>
    [[is (upper .xmm .d0), is (mem .s1)], [is (based .s1), isnt unmasked, is (vec .xmm .d0)],
      [isnt unmasked, is (vec .xmm .d0), is (vec .xmm .s1)],
      [is (upper .xmm .d0), is (upper .xmm .s1)],
      [is (upper .ymm .d0), is (upper .ymm .s1), isnt unmasked],
      [is (based .d0), isnt unmasked, is (vec .xmm .s1)], [is (upper .xmm .s1), is (mem .d0)],
      [is (relative .d0), isnt (upper .zmm .s1), is (vec .zmm .s1)]]
  | .vmovdqu16 => [[is (upper .xmm .d0)], [isnt (upper .zmm .s1), is (mem .d0), is (vec .zmm .s1)]]
  | .vmovdqu8 =>
    [[is (upper .xmm .d0), is (mem .s1)], [is (upper .xmm .d0), isnt unmasked],
      [is (upper .xmm .s1), isnt unmasked], [is (upper .xmm .d0), is (upper .xmm .s1)],
      [isnt (upper .ymm .d0), is (upper .ymm .s1), isnt unmasked],
      [is (upper .xmm .s1), is (mem .d0)], [isnt (upper .zmm .s1), is (mem .d0), is (vec .zmm .s1)]]
  | .vpcmpd => [[is (upper .ymm .s2), is (mem .s3)]]
  | .vpermt2w =>
    [[is (mem .s2), is (vec .xmm .s1)], [is (upper .xmm .d0)], [is (upper .xmm .s2)],
      [is (upper .xmm .s1)]]
  | .vpmullq => [[is (vec .xmm .s1)]]
  | .vprolq | .vprorq => [[is (vec .xmm .s2)]]
  | _ => []

/-- At every leaf the chain is listed, or cannot run, or puts everything back. -/
theorem clobbering_covers : ∀ h ∈ RwFunc.all, h.check (Leaf.every fun F T ↦
    settles surveying h.clobbering F false ||
      T.isStraight && settles surveying h.residual F false || T.keeps F) = true := by
  apply RwFunc.forall_mem_all <;> decide +kernel

/-- The 128-bit subtraction of xmm2 from xmm16. -/
def subXmm16 : AppInstr := ⟨[.vec .xmm 1], [.opmask 0, .vec .xmm 16, .vec .xmm 2], false⟩

/-- The chain for it: xmm10 is borrowed, saved and restored with 128-bit moves. -/
def subXmm16Chain : List Insn :=
  [⟨.vmovdqu, [.zslot 10 false 16], [.vec .xmm 10]⟩,
    ⟨.vmovdqu, [.vec .xmm 10], [.zslot 16 false 16]⟩,
    ⟨.vpsubq, [.vec .xmm 1], [.vec .xmm 10, .vec .xmm 2]⟩,
    ⟨.vmovdqu, [.vec .xmm 10], [.zslot 10 false 16]⟩]

end DrAvx
