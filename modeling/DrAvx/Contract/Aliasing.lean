import DrAvx.Handlers.Survey
import DrAvx.Rewrite.Analysis

/-!
# Which roles share a register

Two roles of a template may or may not be played by the same register, depending on the instruction.
The facts gathered on the way to a leaf settle it in some cases: registers of the two halves of the
register file differ, a scratch register differs from those it was to avoid, and the handler itself
may have compared two operands.
-/

set_option autoImplicit false

namespace DrAvx

/-! ## Roles that coincide -/

/-- The pair of positions two operands are known to be the same register at. -/
def Query.equates : Query × Bool → Option (Pos × Pos)
  | (.same p q, true) | (.sameIndex p q, true) => some (p, q)
  | _ => none

namespace Facts

/-- The roles that are known to be played by the same register as `r`. -/
def alike (F : Facts) (r : Role) : List Role :=
  r :: (F.answers.filterMap Query.equates).flatMap fun (p, q) ↦
    if r = .op p then [.op q] else if r = .op q then [.op p] else []

/-- Nothing has these facts: two operands are the same register and in different halves of the
register file. -/
def absurd (F : Facts) : Bool :=
  (F.answers.filterMap Query.equates).any fun (p, q) ↦ (F.profile p).high != (F.profile q).high

variable {F : Facts} {c : Context} {i : AppInstr}

theorem Sat.vreg_eq (h : F.Sat c i) {p q : Pos}
    (hpq : (p, q) ∈ F.answers.filterMap Query.equates) : (i.opnd p).vreg = (i.opnd q).vreg := by
  obtain ⟨⟨query, b⟩, hmem, heq⟩ := List.mem_filterMap.mp hpq
  have hanswer := h.answers _ hmem
  cases b with
  | false => cases query <;> cases heq
  | true =>
    cases query with
    | same p' q' =>
      cases heq
      have hsame : i.opnd p = i.opnd q := by simpa [Query.answer] using hanswer
      rw [hsame]
    | sameIndex p' q' =>
      cases heq
      simpa [Query.answer] using hanswer
    | _ => cases heq

theorem Sat.vreg_alike (h : F.Sat c i) {e : Env} (he : e.instr = i) {r r' : Role}
    (hr : r' ∈ F.alike r) : e.vreg r' = e.vreg r := by
  subst he
  rcases List.mem_cons.mp hr with rfl | hr
  · rfl
  obtain ⟨⟨p, q⟩, hpq, hr⟩ := List.mem_flatMap.mp hr
  have heq := h.vreg_eq hpq
  dsimp only at hr
  split_ifs at hr with hp hq
  · rw [List.mem_singleton.mp hr, hp]
    exact heq.symm
  · rw [List.mem_singleton.mp hr, hq]
    exact heq
  · cases hr

theorem Sat.not_absurd (h : F.Sat c i) (hprofile : F.profile = i.cls) : F.absurd = false := by
  rw [absurd, List.any_eq_false, hprofile]
  rintro ⟨p, q⟩ hpq
  have hhigh : i.high (.op p) = i.high (.op q) := congrArg VReg.high (h.vreg_eq hpq)
  rw [AppInstr.high_eq, AppInstr.high_eq] at hhigh
  simpa [Profile.high] using hhigh

end Facts

/-! ## Roles that differ -/

/-- The `n`-th scratch register was to avoid the register in the role. -/
def Template.avoids (T : Template) : Role → Role → Bool
  | .t n, r => r.before n && (T.vecs.getD n []).contains r
  | _, _ => false

/-- Registers with a fixed number, and other ones. -/
def Role.differs : Role → Role → Bool
  | .spill m, .spill n => (Fin.ofNat 32 (10 + m) : VReg) != Fin.ofNat 32 (10 + n)
  | _, _ => false

/-- The roles are known to be played by different registers. -/
def Template.apart (T : Template) (F : Facts) (r r' : Role) : Bool :=
  (F.alike r).any fun x ↦ (F.alike r').any fun y ↦
    Profile.high F.profile x != Profile.high F.profile y || x.differs y || T.avoids x y ||
      T.avoids y x

section Apart

variable {T : Template} {F : Facts} {c : Context} {e : Env} {i : AppInstr}

theorem Template.vreg_ne_of_avoids (he : T.env? i = some e) {r r' : Role}
    (h : T.avoids r r' = true) : e.vreg r ≠ e.vreg r' := by
  obtain ⟨-, -, havoid⟩ := env?_spec he
  cases r with
  | t n =>
    simp only [avoids, Bool.and_eq_true, List.contains_iff_mem] at h
    obtain ⟨hbefore, hmem⟩ := h
    rw [List.getD_eq_getElem?_getD] at hmem
    by_cases hn : n < T.vecs.length
    · rw [List.getElem?_eq_getElem hn, Option.getD_some] at hmem
      exact (havoid n hn r' hmem hbefore).symm
    · rw [List.getElem?_eq_none (Nat.le_of_not_lt hn), Option.getD_none] at hmem
      cases hmem
  | _ => cases h

theorem Template.vreg_ne_of_apart (he : T.env? i = some e) (hF : F.Sat c i)
    (hprofile : F.profile = i.cls) {r r' : Role} (h : T.apart F r r' = true) :
    e.vreg r ≠ e.vreg r' := by
  obtain ⟨hinstr, hvecs, -⟩ := env?_spec he
  simp only [apart, List.any_eq_true, Bool.or_eq_true, bne_iff_ne, hprofile] at h
  obtain ⟨x, hx, y, hy, hxy⟩ := h
  rw [← hF.vreg_alike hinstr hx, ← hF.vreg_alike hinstr hy]
  rcases hxy with ((hhigh | hdiffers) | havoids) | havoids
  · rintro heq
    rw [← hinstr, ← Env.high_vreg hvecs, ← Env.high_vreg hvecs, heq] at hhigh
    exact hhigh rfl
  · cases x with
    | spill m =>
      cases y with
      | spill n => simpa [Role.differs, Env.vreg] using hdiffers
      | _ => cases hdiffers
    | _ => cases hdiffers
  · exact vreg_ne_of_avoids he havoids
  · exact (vreg_ne_of_avoids he havoids).symm

end Apart

/-! ## Chains and the facts about them -/

/-- What is known of a chain that a handler emits: its template, the registers in the roles and the
facts gathered on the way to the leaf. -/
structure Emitted (c : Context) (F : Facts) (T : Template) (e : Env) : Prop where
  sat : F.Sat c e.instr
  profile : F.profile = e.instr.cls
  env : T.env? e.instr = some e
  ordinary : ∀ p, (e.instr.cls p).ordinary = true

namespace Emitted

variable {c : Context} {F : Facts} {T : Template} {e : Env} (h : Emitted c F T e)
include h

theorem vecs : ∀ r ∈ e.vecs, r ∈ spillPool := (Template.env?_spec h.env).2.1

theorem vreg_ne {r r' : Role} (hr : T.apart F r r' = true) : e.vreg r ≠ e.vreg r' :=
  Template.vreg_ne_of_apart h.env h.sat h.profile hr

theorem opnd_ne_label (p : Pos) (n : ℕ) : e.instr.opnd p ≠ .label n := by
  intro hp
  have hord := h.ordinary p
  obtain ⟨-, -, ho⟩ | ⟨o, -, hc, ho⟩ := e.instr.cls_eq p
  · rw [ho] at hp
    cases hp
  · rw [hc, ← ho, hp] at hord
    cases hord

/-- The chain of a straight template is straight. -/
theorem all_plain (hstraight : T.isStraight = true) :
    (T.body.map (TInsn.inst e)).all (·.ctl == .plain) = true := by
  rw [List.all_map]
  refine (List.all_congr rfl fun i ↦ ?_).trans hstraight
  rw [Function.comp, TInsn.ctl_inst h.opnd_ne_label]

end Emitted

/-- The test holds for the template of the leaf and everything an instruction there can be. -/
def Leaf.every (test : Facts → Template → Bool) (F : Facts) : Leaf → Bool
  | chain _ _ T => F.exact.all fun F ↦ F.absurd || test F T
  | _ => true

/-- A test that holds at every leaf holds for the chain of an instruction. -/
theorem RwFunc.exists_emitted {h : RwFunc} {test : Facts → Template → Bool}
    (hcheck : h.check (Leaf.every test) = true) {c : Context} {i : AppInstr} (hi : h.Decodes i)
    {n : ℕ} {linked : Bool} {code : List Insn} (hrun : h.gen.run c i = .chain n linked code) :
    ∃ F T e, Emitted c F T e ∧ e.instr = i ∧ h.gen.eval (Query.answer c i) = .chain n linked T ∧
      code = T.body.map (TInsn.inst e) ∧ test F T = true := by
  obtain ⟨F, hF, htest⟩ := exists_facts hcheck hi c
  obtain ⟨T, e, hleaf, he, hcode⟩ := Leaf.exists_template_of_run hrun
  obtain ⟨rfl, -⟩ := Template.env?_spec he
  obtain ⟨F', hmem, hF', hprofile⟩ := hF.exists_exact
  rw [hleaf, Leaf.every, List.all_eq_true] at htest
  have htest' := htest F' hmem
  rw [hF'.not_absurd hprofile, Bool.false_or] at htest'
  exact ⟨F', T, e, ⟨hF', hprofile, he, hi.ordinary⟩, rfl, hleaf, hcode, htest'⟩

/-! ## Operands that name a vector register or a slot -/

/-- The vector register an operand names, for operands of the given classes. -/
def TOpnd.vecRole (P : Profile) : TOpnd → Option Role
  | .v _ r => some r
  | .app p => match P p with
    | .vec _ _ => some (.op p)
    | _ => none
  | _ => none

/-- The general purpose register an operand names. -/
def TOpnd.gprRole (P : Profile) : TOpnd → Option GRole
  | .g _ r => some r
  | .app p => match P p with
    | .gpr _ => some (.op p)
    | _ => none
  | _ => none

section Operands

variable {e : Env} (hi : ∀ p, (e.instr.cls p).ordinary = true) {o : TOpnd}

/-- Which operands become a vector register. -/
theorem TOpnd.vecRole_of_inst {w : VecWidth} {x : VReg} (h : o.inst e = .vec w x) :
    ∃ r, o.vecRole e.instr.cls = some r ∧ e.vreg r = x := by
  cases o with
  | v w' r =>
    cases h
    exact ⟨r, rfl, rfl⟩
  | app p =>
    have hp : e.instr.opnd p = .vec w x := h
    refine ⟨.op p, ?_, ?_⟩
    · simp [vecRole, AppInstr.cls_of_opnd_vec hp]
    · simp [Env.vreg, hp, Opnd.vreg]
  | g sz r =>
    simp only [inst] at h
    split at h <;> cases h
  | mem p off b =>
    simp only [inst] at h
    cases ho : e.instr.opnd p <;> simp [ho, Opnd.withMem] at h
  | memBase p off b =>
    simp only [inst] at h
    cases ho : e.instr.opnd p <;> simp [ho, Opnd.withMem] at h
  | _ => cases h

/-- Which operands become a general purpose register. -/
theorem TOpnd.gprRole_of_inst {sz : GprSize} {x : Gpr} (h : o.inst e = .gpr sz x) :
    ∃ r, o.gprRole e.instr.cls = some r ∧ e.gpr r = some x := by
  cases o with
  | g sz' r =>
    simp only [inst] at h
    split at h
    · cases h
      exact ⟨r, rfl, ‹_›⟩
    · cases h
  | app p =>
    have hp : e.instr.opnd p = .gpr sz x := h
    have hcls : e.instr.cls p = .gpr sz := by
      obtain ⟨-, -, ho⟩ | ⟨o, -, hc, ho⟩ := e.instr.cls_eq p
      · rw [ho] at hp
        cases hp
      · rw [hc, ← ho, hp]
        rfl
    refine ⟨.op p, by simp [gprRole, hcls], ?_⟩
    rw [Env.gpr, hp, Opnd.gpr?]
  | mem p off b =>
    simp only [inst] at h
    cases ho : e.instr.opnd p <;> simp [ho, Opnd.withMem] at h
  | memBase p off b =>
    simp only [inst] at h
    cases ho : e.instr.opnd p <;> simp [ho, Opnd.withMem] at h
  | _ => cases h

include hi

/-- The instruction has no operand in thread-local storage. -/
theorem AppInstr.opnd_ne_slot (p : Pos) :
    (∀ x u b, e.instr.opnd p ≠ .zslot x u b) ∧ ∀ k b, e.instr.opnd p ≠ .kslot k b := by
  have hord := hi p
  obtain ⟨-, -, ho⟩ | ⟨o, -, hc, ho⟩ := e.instr.cls_eq p
  · rw [ho]
    exact ⟨fun _ _ _ ↦ nofun, fun _ _ ↦ nofun⟩
  · rw [hc, ← ho] at hord
    refine ⟨fun x u b hp ↦ ?_, fun k b hp ↦ ?_⟩ <;> rw [hp] at hord <;> cases hord

theorem TOpnd.eq_slot_of_inst {x : VReg} {upper : Bool} {b : ℕ}
    (h : o.inst e = .zslot x upper b) : ∃ r, o = .slot r upper b ∧ e.vreg r = x := by
  cases o with
  | slot r u b' =>
    cases h
    exact ⟨r, rfl, rfl⟩
  | app p => exact absurd h ((AppInstr.opnd_ne_slot hi p).1 _ _ _)
  | g sz r =>
    simp only [inst] at h
    split at h <;> cases h
  | mem p off b =>
    simp only [inst] at h
    cases ho : e.instr.opnd p <;> simp [ho, Opnd.withMem] at h
    exact ((AppInstr.opnd_ne_slot hi p).1 _ _ _ ho).elim
  | memBase p off b =>
    simp only [inst] at h
    cases ho : e.instr.opnd p <;> simp [ho, Opnd.withMem] at h
    exact ((AppInstr.opnd_ne_slot hi p).1 _ _ _ ho).elim
  | _ => cases h

theorem TOpnd.eq_kslot_of_inst {k : KReg} {b : ℕ} (h : o.inst e = .kslot k b) :
    ∃ p, o = .kslot p b ∧ (e.instr.opnd p).kreg = k := by
  cases o with
  | kslot p b' =>
    cases h
    exact ⟨p, rfl, rfl⟩
  | app p => exact absurd h ((AppInstr.opnd_ne_slot hi p).2 _ _)
  | g sz r =>
    simp only [inst] at h
    split at h <;> cases h
  | mem p off b =>
    simp only [inst] at h
    cases ho : e.instr.opnd p <;> simp [ho, Opnd.withMem] at h
    exact ((AppInstr.opnd_ne_slot hi p).2 _ _ ho).elim
  | memBase p off b =>
    simp only [inst] at h
    cases ho : e.instr.opnd p <;> simp [ho, Opnd.withMem] at h
    exact ((AppInstr.opnd_ne_slot hi p).2 _ _ ho).elim
  | _ => cases h

end Operands

/-! ## What an instruction of a chain leaves alone -/

/-- The slot whose lower half an operand names. -/
def TOpnd.slotRole : TOpnd → Option Role
  | .slot r false _ => some r
  | _ => none

/-- The instruction writes no vector register that may be the one in the role. -/
def TInsn.sparesVec (T : Template) (F : Facts) (r : Role) (i : TInsn) : Bool :=
  (i.dsts.filterMap (TOpnd.vecRole F.profile)).all (T.apart F r)

/-- The instruction writes no lower half of a slot that may be the one of the role. -/
def TInsn.sparesSlot (T : Template) (F : Facts) (r : Role) (i : TInsn) : Bool :=
  (i.dsts.filterMap TOpnd.slotRole).all (T.apart F r)

namespace Emitted

variable {c : Context} {F : Facts} {T : Template} {e : Env} (h : Emitted c F T e)
variable {E : Ext} {s : State} {i : TInsn} {r : Role}
include h

theorem effect_ymm (hr : i.sparesVec T F r = true) :
    ((i.inst e).effect E s).ymm (e.vreg r) = s.ymm (e.vreg r) := by
  refine Insn.effect_ymm fun w hw ↦ ?_
  obtain ⟨o, ho, hinst⟩ := List.mem_map.mp hw
  obtain ⟨r', hr', heq⟩ := TOpnd.vecRole_of_inst hinst
  rw [← h.profile] at hr'
  exact h.vreg_ne (List.all_eq_true.mp hr r' (List.mem_filterMap.mpr ⟨o, ho, hr'⟩)) heq.symm

theorem effect_lo (hr : i.sparesSlot T F r = true) :
    ((i.inst e).effect E s).lo (e.vreg r) = s.lo (e.vreg r) := by
  refine Insn.effect_lo fun b hb ↦ ?_
  obtain ⟨o, ho, hinst⟩ := List.mem_map.mp hb
  obtain ⟨r', rfl, heq⟩ := TOpnd.eq_slot_of_inst h.ordinary hinst
  exact h.vreg_ne (List.all_eq_true.mp hr r' (List.mem_filterMap.mpr ⟨_, ho, rfl⟩)) heq.symm

end Emitted

end DrAvx
