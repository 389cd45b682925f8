import DrAvx.Contract.Legality

/-!
# Whether stale slots matter

What a chain does may not depend on the lower halves of the slots of the first sixteen registers, as
these hold whatever was last saved there.  A chain that reads such a slot has to have written it
before, at least as many bytes.  The analysis keeps a list of the slots that have been written, with
the number of bytes.

Some chains restore the second operand from its slot without having saved it there.  They leave the
stale data in the register, so the result depends on it, and `RwFunc.coherent_iff` is exact.
-/

set_option autoImplicit false

namespace DrAvx

open Decision Flow Function

/-- What the code does is the same in similar states. -/
def Coherent (code : List Insn) : Prop :=
  ∀ E s s' t, s.Similar s' → Exec E code s t → ∃ t', Exec E code s' t' ∧ t.Similar t'

/-! ## The analysis -/

namespace Written

/-- The operand reads no slot beyond what has been written to it. -/
def allows (F : Facts) (a : List (Role × ℕ)) : TOpnd → Bool
  | .slot r false b =>
    Profile.high F.profile r || a.any fun p ↦ decide (b ≤ p.2) && decide (p.1 ∈ F.alike r)
  | _ => true

def needs (F : Facts) (i : TInsn) (a : List (Role × ℕ)) : Bool :=
  i.srcs.all (allows F a) && (i.dsts.all (allows F a) || !i.op.keepsDst)

def transfer (i : TInsn) (a : List (Role × ℕ)) : List (Role × ℕ) :=
  match i.dsts, i.srcs, i.op with
  | [.slot r false b], [_], .vmovdqu => (r, b) :: a
  | _, _, _ => a

/-- The analysis of a template. -/
def analysis (F : Facts) : Analysis TInsn (List (Role × ℕ)) where
  ctl := TInsn.ctl
  needs := needs F
  transfer := transfer
  le a b := b.all (· ∈ a)

/-- Two states that differ in slots that have not been written at most. -/
structure Holds (e : Env) (a : List (Role × ℕ)) (s s' : State) : Prop where
  similar : s.Similar s'
  written : ∀ p ∈ a, low p.2 (s'.lo (e.vreg p.1)) = low p.2 (s.lo (e.vreg p.1))

section Sound

variable {c : Context} {F : Facts} {T : Template} {e : Env} (h : Emitted c F T e)
variable {E : Ext} {s s' : State} {a : List (Role × ℕ)} {i : TInsn}

include h

/-- An operand that is allowed has the same value in both states. -/
theorem Holds.operandVal_eq (hs : Holds e a s s') {o : TOpnd} (ho : allows F a o = true)
    (j : Insn) : j.operandVal (s.withLo s'.lo) (o.inst e) = j.operandVal s (o.inst e) := by
  by_cases hslot : (o.inst e).isSlotLo = true
  · obtain ⟨x, b, hx⟩ : ∃ x b, o.inst e = .zslot x false b := by
      unfold Opnd.isSlotLo at hslot
      split at hslot
      · exact ⟨_, _, ‹_›⟩
      · cases hslot
    obtain ⟨r, rfl, rfl⟩ := TOpnd.eq_slot_of_inst h.ordinary hx
    -- the bytes that are read agree
    have hlow : low b (s'.lo (e.vreg r)) = low b (s.lo (e.vreg r)) := by
      simp only [allows, Bool.or_eq_true, List.any_eq_true, Bool.and_eq_true, decide_eq_true_eq]
        at ho
      rcases ho with hhigh | ⟨p, hp, hb, halike⟩
      · rw [h.profile, ← Env.high_vreg h.vecs] at hhigh
        rw [hs.similar.high _ hhigh]
      · rw [← h.sat.vreg_alike rfl halike]
        exact low_eq_of_le hb (hs.written p hp)
    unfold Insn.operandVal
    split
    · exact absurd ‹_› (by rw [hx]; simp)
    · rw [hx]
      exact hlow
  · rw [Bool.not_eq_true] at hslot
    unfold Insn.operandVal
    split
    · rcases ‹MemRef› with ⟨_, _, _ | _ | _, _, _⟩ | _ | _ <;> rfl
    · exact s.read_withLo _ hslot _

theorem Holds.inputVals_eq (hs : Holds e a s s') (hneeds : needs F i a = true) :
    (i.inst e).inputVals (s.withLo s'.lo) = (i.inst e).inputVals s := by
  simp only [needs, Bool.and_eq_true, List.all_eq_true, Bool.or_eq_true, Bool.not_eq_true'] at hneeds
  obtain ⟨hsrcs, hdsts⟩ := hneeds
  refine List.map_congr_left fun o ho ↦ ?_
  have hmem : o ∈ (i.inst e).srcs ∨ i.op.keepsDst = true ∧ o ∈ (i.inst e).dsts := by
    unfold Insn.inputs at ho
    split at ho
    next hreads => exact (List.mem_append.mp ho).imp id fun ho ↦ ⟨Insn.keepsDst_of_readsDst hreads, ho⟩
    · exact .inl ho
  rcases hmem with hmem | ⟨hkeeps, hmem⟩
  · obtain ⟨o', ho', rfl⟩ := List.mem_map.mp hmem
    exact hs.operandVal_eq h (hsrcs o' ho') _
  · obtain ⟨o', ho', rfl⟩ := List.mem_map.mp hmem
    rw [hkeeps, Bool.true_eq_false, or_false] at hdsts
    exact hs.operandVal_eq h (hdsts o' ho') _

theorem Holds.transfer (hs : Holds e a s s') (hneeds : needs F i a = true) :
    Holds e (transfer i a) ((i.inst e).effect E s) ((i.inst e).effect E s') := by
  have heffect := Insn.effect_withLo (E := E) (hs.inputVals_eq h hneeds)
  rw [← hs.similar.rest] at heffect
  have hlo : ((i.inst e).effect E s').lo =
      Insn.writeAllLo ((i.inst e).dsts.zip ((i.inst e).outputs E s)) s'.lo :=
    congrArg State.lo heffect
  refine ⟨⟨?_, fun x hx ↦ ?_⟩, fun p hp ↦ ?_⟩
  · rw [heffect]
    rfl
  · rw [hlo, Insn.lo_effect]
    have h32 := Insn.low_writeAllLo (n := 32) ((i.inst e).dsts.zip ((i.inst e).outputs E s))
      (congrArg (low 32) (hs.similar.high x hx))
    simpa using h32
  · have hold (hp : p ∈ a) := Insn.low_writeAllLo
      ((i.inst e).dsts.zip ((i.inst e).outputs E s)) (hs.written p hp)
    rw [hlo, Insn.lo_effect]
    unfold Written.transfer at hp
    split at hp
    next r b o hdsts hsrcs hop =>
      obtain rfl : i = ⟨.vmovdqu, [.slot r false b], [o]⟩ := by
        rw [← hdsts, ← hsrcs, ← hop]
      rcases List.mem_cons.mp hp with rfl | hp
      · let j : Insn := TInsn.inst e ⟨.vmovdqu, [.slot r false b], [o]⟩
        have hzip : j.dsts.zip (j.outputs E s) =
            [(.zslot (e.vreg r) false b, j.operandVal s (o.inst e))] := rfl
        exact Insn.low_writeAllLo_of_mem (hzip ▸ List.mem_singleton_self _)
      · exact hold hp
    · exact hold hp

theorem tracks (s₀ : State) :
    Tracks (analysis F) e E T.body s₀ (Holds e) where
  flags := fun a s s' hs ↦ by rw [hs.similar.rest]; rfl
  weaken := fun a b s s' hle hs ↦ ⟨hs.similar, fun p hp ↦
    hs.written p (by simpa using List.all_eq_true.mp hle p hp)⟩
  step := fun pc i _ a s s' _ hneeds _ hs ↦ hs.transfer h hneeds
  branch := fun _ _ _ _ a _ _ hs ↦ ⟨a, rfl, hs⟩

end Sound

end Written

/-- The template reads no stale data. -/
def Template.reading (T : Template) (F : Facts) : Bool :=
  ((Written.analysis F).run (fun a b ↦ a.filter (· ∈ b)) 1 [] T.body).isSome

theorem Emitted.coherent_of_reading {c : Context} {F : Facts} {T : Template} {e : Env}
    (h : Emitted c F T e) (hreading : T.reading F = true) :
    Coherent (T.body.map (TInsn.inst e)) := by
  intro E s s' t hs hexec
  obtain ⟨a, hrun⟩ := Option.isSome_iff_exists.mp hreading
  obtain ⟨inv, hscan⟩ := Analysis.exists_scan_of_run hrun
  obtain ⟨t', hexec', ht⟩ := (Written.tracks h s).of_exec rfl h.opnd_ne_label hscan hexec
    ⟨hs, fun p hp ↦ by cases hp⟩
  exact ⟨t', hexec', ht.similar⟩

/-! ## Chains that show stale data -/

/-- The instruction loads the second operand from its slot. -/
def TInsn.reloads : TInsn → Bool
  | ⟨.vmovdqu, [.v _ (.op .s1)], [.slot (.op .s1) false b]⟩ => decide (0 < b)
  | _ => false

/-- The second operand is loaded from its slot, which has not been written before, and is not
written afterwards. -/
def Template.exposes (T : Template) (F : Facts) : List TInsn → Bool
  | [] => false
  | i :: rest => i.reloads && rest.all (TInsn.sparesVec T F (.op .s1)) ||
      i.sparesSlot T F (.op .s1) && T.exposes F rest

/-- A vector register tells two similar states apart. -/
theorem not_coherent_of_ymm {code : List Insn} (hlegal : code.all Insn.legal = true)
    (hplain : code.all (·.ctl == .plain) = true) {s s' : State} (hs : s.Similar s') {x : VReg}
    (hx : (effects .blank code s').ymm x ≠ (effects .blank code s).ymm x) : ¬Coherent code := by
  intro hcoherent
  have hexec := exec_effects hlegal hplain .blank
  obtain ⟨t', hexec', hrest, -⟩ := hcoherent _ _ s' _ hs (hexec s)
  have ht' := hexec'.unique (hexec s')
  have hymm := congrArg (fun t : State ↦ t.ymm x) hrest
  rw [ht'] at hymm
  exact hx hymm

section Exposes

variable {c : Context} {F : Facts} {T : Template} {e : Env} (h : Emitted c F T e)
variable {E : Ext} {s : State} {body : List TInsn}

theorem TInsn.getLsbD_of_reloads {i : TInsn} (hi : i.reloads = true) :
    (((i.inst e).effect E s).ymm (e.vreg (.op .s1))).getLsbD 0 =
      (s.lo (e.vreg (.op .s1))).getLsbD 0 := by
  unfold reloads at hi
  split at hi
  next w b =>
    rw [decide_eq_true_eq] at hi
    have heffect : ((TInsn.inst e ⟨.vmovdqu, [.v w (.op .s1)], [.slot (.op .s1) false b]⟩).effect E
        s).ymm (e.vreg (.op .s1)) = low w.bytes (low b (s.lo (e.vreg (.op .s1)))) :=
      update_self ..
    have hw : 0 < w.bytes := by cases w <;> decide
    rw [heffect, getLsbD_low, getLsbD_low]
    simp [hi, hw]
  · cases hi

include h

theorem Emitted.effects_ymm {r : Role} (hr : body.all (TInsn.sparesVec T F r) = true) :
    (effects E (body.map (TInsn.inst e)) s).ymm (e.vreg r) = s.ymm (e.vreg r) := by
  induction body generalizing s with
  | nil => rfl
  | cons i rest ih =>
    rw [List.all_cons, Bool.and_eq_true] at hr
    exact (ih hr.2).trans (h.effect_ymm hr.1)

/-- At the end the register holds the stale data. -/
theorem Emitted.getLsbD_of_exposes (hexposes : T.exposes F body = true) :
    ((effects E (body.map (TInsn.inst e)) s).ymm (e.vreg (.op .s1))).getLsbD 0 =
      (s.lo (e.vreg (.op .s1))).getLsbD 0 := by
  induction body generalizing s with
  | nil => cases hexposes
  | cons i rest ih =>
    simp only [Template.exposes, Bool.or_eq_true, Bool.and_eq_true] at hexposes
    rcases hexposes with ⟨hreloads, hspares⟩ | ⟨hspares, hrest⟩
    · exact (congrArg (·.getLsbD 0) (h.effects_ymm hspares)).trans
        (TInsn.getLsbD_of_reloads hreloads)
    · exact (ih hrest).trans (congrArg (·.getLsbD 0) (h.effect_lo hspares))

theorem Emitted.not_coherent_of_exposes (hexposes : T.exposes F T.body = true)
    (hlow : (F.profile .s1).high = false) (hstraight : T.isStraight = true)
    (hlegal : (T.body.map (TInsn.inst e)).all Insn.legal = true) :
    ¬Coherent (T.body.map (TInsn.inst e)) := by
  -- two states that differ in the slot of the second operand
  let x := e.vreg (.op .s1)
  have hx : x.high = false := by
    rw [Env.high_vreg h.vecs, ← h.profile]
    exact hlow
  let s' := State.blank.withLo (update (fun _ ↦ 0) x 1)
  have hsimilar : State.blank.Similar s' := by
    refine ⟨rfl, fun y hy ↦ ?_⟩
    have hne : y ≠ x := by
      rintro rfl
      exact Bool.false_ne_true (hx.symm.trans hy)
    simp [s', State.withLo, State.blank, hne]
  refine not_coherent_of_ymm hlegal (h.all_plain hstraight) hsimilar (x := x) fun hymm ↦ ?_
  have hone := h.getLsbD_of_exposes (E := .blank) (s := s') hexposes
  have hzero := h.getLsbD_of_exposes (E := .blank) (s := .blank) hexposes
  have hbit : (s'.lo x).getLsbD 0 = (State.blank.lo x).getLsbD 0 :=
    hone.symm.trans ((congrArg (·.getLsbD 0) hymm).trans hzero)
  simp [s', State.withLo, State.blank] at hbit

end Exposes

/-! ## Which chains depend on stale data -/

/-- The operands for which a handler lets stale data through. -/
def RwFunc.stale : RwFunc → List (Cube Query)
  | .vpsubd | .vpsubq | .vpaddw | .vpaddd | .vpandq =>
    [[isnt (upper .xmm .s1), is (upper .xmm .d0), is (upper .xmm .s2)]]
  | .vmovdqa32 | .vmovdqu16 | .vmovdqu32 | .vmovdqu8 =>
    [[isnt (upper .zmm .s1), is (mem .d0), is (vec .zmm .s1)]]
  | .vmovdqa64 | .vmovdqu64 => [[is (relative .d0), isnt (upper .zmm .s1), is (vec .zmm .s1)]]
  | _ => []

/-- At every leaf the list decides whether stale data matters. -/
theorem stale_settles : ∀ h ∈ RwFunc.all, h.check (Leaf.every fun F T ↦
    settles surveying h.stale F true &&
        (T.isStraight && settles surveying h.residual F false || T.reading F) ||
      settles surveying h.stale F false && T.exposes F T.body && !(F.profile .s1).high &&
        T.isStraight && settles surveying h.residual F true) = true := by
  apply RwFunc.forall_mem_all <;> decide +kernel

/-- The 128-bit subtraction of xmm17 from xmm1 into xmm16. -/
def subXmm17 : AppInstr := ⟨[.vec .xmm 16], [.opmask 0, .vec .xmm 1, .vec .xmm 17], false⟩

/-- The chain for it ends by loading xmm1 from its slot, where nothing was saved. -/
def subXmm17Chain : List Insn :=
  [⟨.vmovdqu, [.zslot 10 false 16], [.vec .xmm 10]⟩,
    ⟨.vmovdqu, [.vec .xmm 10], [.zslot 17 false 16]⟩,
    ⟨.vpsubd, [.vec .xmm 10], [.vec .xmm 1, .vec .xmm 10]⟩,
    ⟨.vmovdqu, [.zslot 16 false 16], [.vec .xmm 10]⟩,
    ⟨.vmovdqu, [.vec .xmm 1], [.zslot 1 false 16]⟩]

end DrAvx
