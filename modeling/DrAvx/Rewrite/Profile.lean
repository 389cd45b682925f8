import DrAvx.Ir.Encoding
import DrAvx.Rewrite.Gen

/-!
# What the legality of a chain depends on

Whether the instructions of a chain have an encoding depends on the classes of the operands of the
application's instruction, its `Profile`, and not on the registers themselves: the scratch registers
all exist on the host, and an operand of a template has the shape its profile gives it
(`TOpnd.shape_inst`).
-/

set_option autoImplicit false

namespace DrAvx

/-- The classes of the operands of an instruction. -/
abbrev Profile := Pos → OpndClass

namespace OpndClass

/-- The shape of the operands of a class. -/
def shape : OpndClass → Shape
  | vec w high => .vec w high
  | gpr sz => .gpr sz
  | baseDisp b | relAddr b | absAddr b => .mem b
  | vsib w high _ b => .vsib w high b
  | immed b => .imm b true true
  | absent | opmask | other => .other

/-- The class is one that the decoder delivers for the instructions at hand: their immediates are
bytes. -/
def ordinary : OpndClass → Bool
  | immed b => b == 1
  | other => false
  | _ => true

/-- Is the operand a vector register from 16 on? -/
def high : OpndClass → Bool
  | vec _ high => high
  | _ => false

/-- Is the operand memory with such a register as its index? -/
def indexHigh : OpndClass → Bool
  | vsib _ high _ _ => high
  | _ => false

end OpndClass

namespace Shape

/-- Memory of another size at the same place. -/
def resize (bytes : ℕ) : Shape → Shape
  | mem _ => mem bytes
  | vsib w high _ => vsib w high bytes
  | _ => other

/-- The same without the index. -/
def resizeBase (bytes : ℕ) : Shape → Shape
  | mem _ => mem bytes
  | vsib _ _ _ => mem bytes
  | _ => other

end Shape

/-- Is the register in a role one of the upper sixteen? -/
def Profile.high (P : Profile) : Role → Bool
  | .op p => (P p).high
  | .index p => (P p).indexHigh
  | .t _ => false
  | .spill n => VReg.high (Fin.ofNat 32 (10 + n))

/-- The shape of a general purpose register operand. -/
def Profile.gprShape (P : Profile) (sz : GprSize) : GRole → Shape
  | .fixed _ | .t _ => .gpr sz
  | .op p => match P p with
    | .gpr _ => .gpr sz
    | _ => .other
  | .base p => match P p with
    | .vsib _ _ true _ => .gpr sz
    | _ => .other
  | .index _ => .other

/-- The shape of an operand of a template. -/
def TOpnd.shape (P : Profile) : TOpnd → Shape
  | v w r => .vec w (P.high r)
  | g sz r => P.gprShape sz r
  | app p => (P p).shape
  | null => .other
  | slot _ _ b => .mem b
  | kslot _ b => .mem b
  | rslot _ b => .mem b
  | stray _ _ b => .mem b
  | kaddr _ b => .mem b
  | mem p _ b => (P p).shape.resize b
  | memBase p _ b => (P p).shape.resizeBase b
  | scratch _ _ _ _ b => .mem b
  | imm x b => .ofImm x b
  | immOf _ _ => .imm 1 true true
  | label _ => .label

/-- The profile determines the shape of the operand: a scratch register is among the `n` that are
found, and the base register of an ordinary memory operand is not taken on its own. -/
def TOpnd.rated (P : Profile) (n : ℕ) : TOpnd → Bool
  | g _ (.t m) => m < n
  | g _ (.base p) => match P p with
    | .baseDisp _ => false
    | _ => true
  | g _ (.index _) => false
  | _ => true

namespace TInsn

def rated (P : Profile) (n : ℕ) (i : TInsn) : Bool := (i.dsts ++ i.srcs).all (TOpnd.rated P n)

def legal (P : Profile) (i : TInsn) : Bool :=
  i.op.encodable (i.dsts.map (TOpnd.shape P)) (i.srcs.map (TOpnd.shape P))

end TInsn

/-! ## Instructions that do not depend on the operands

Most instructions of a template move scratch registers around.  Whether they can be encoded is
settled once for the template, and only the others are looked at with each profile. -/

/-- The profile does not matter to the operand. -/
def TOpnd.plain : TOpnd → Bool
  | v _ (.op _) | v _ (.index _) | g _ (.op _) | g _ (.base _) | g _ (.index _) | g _ (.t _) => false
  | app _ | mem _ _ _ | memBase _ _ _ => false
  | _ => true

theorem TOpnd.shape_of_plain {o : TOpnd} (h : o.plain = true) (P Q : Profile) :
    o.shape P = o.shape Q := by
  cases o with
  | v w r => cases r <;> first | rfl | cases h
  | g sz r => cases r <;> first | rfl | cases h
  | app p => cases h
  | mem p off b => cases h
  | memBase p off b => cases h
  | _ => rfl

theorem TOpnd.rated_of_plain {o : TOpnd} (h : o.plain = true) (P : Profile) (n : ℕ) :
    o.rated P n = true := by
  cases o with
  | g sz r => cases r <;> first | rfl | cases h
  | _ => rfl

namespace TInsn

def plain (i : TInsn) : Bool := i.dsts.all TOpnd.plain && i.srcs.all TOpnd.plain

theorem legal_of_plain {i : TInsn} (h : i.plain = true) (P Q : Profile) :
    i.legal P = i.legal Q := by
  obtain ⟨hdsts, hsrcs⟩ := Bool.and_eq_true_iff.mp h
  rw [List.all_eq_true] at hdsts hsrcs
  rw [legal, legal, List.map_congr_left fun o ho ↦ TOpnd.shape_of_plain (hdsts o ho) P Q,
    List.map_congr_left fun o ho ↦ TOpnd.shape_of_plain (hsrcs o ho) P Q]

theorem rated_of_plain {i : TInsn} (h : i.plain = true) (P : Profile) (n : ℕ) :
    i.rated P n = true := by
  obtain ⟨hdsts, hsrcs⟩ := Bool.and_eq_true_iff.mp h
  rw [rated, List.all_append, Bool.and_eq_true, List.all_eq_true, List.all_eq_true]
  rw [List.all_eq_true] at hdsts hsrcs
  exact ⟨fun o ho ↦ TOpnd.rated_of_plain (hdsts o ho) P n,
    fun o ho ↦ TOpnd.rated_of_plain (hsrcs o ho) P n⟩

end TInsn

namespace Template

/-- The instructions to which the profile matters. -/
def exposed (T : Template) : List TInsn := T.body.filter fun i ↦ !i.plain

def rated (T : Template) (P : Profile) : Bool := T.exposed.all (TInsn.rated P T.gprs.length)

/-- Every instruction of the template can be encoded. -/
def legal (T : Template) (P : Profile) : Bool :=
  (T.body.all fun i ↦ !i.plain || i.legal fun _ ↦ .absent) && T.exposed.all (TInsn.legal P)

theorem legal_eq (T : Template) (P : Profile) : T.legal P = T.body.all (TInsn.legal P) := by
  rw [legal, exposed, List.all_filter]
  induction T.body with
  | nil => rfl
  | cons i body ih =>
    simp only [List.all_cons]
    cases hi : i.plain with
    | true =>
      rw [← ih, TInsn.legal_of_plain hi (fun _ ↦ .absent) P]
      simp [Bool.and_assoc]
    | false =>
      rw [← ih]
      simp [Bool.and_left_comm]

theorem rated_of_mem {T : Template} {P : Profile} (h : T.rated P = true) {i : TInsn}
    (hi : i ∈ T.body) : i.rated P T.gprs.length = true := by
  cases hplain : i.plain with
  | true => exact TInsn.rated_of_plain hplain P _
  | false => exact List.all_eq_true.mp h i (List.mem_filter.mpr ⟨hi, by simp [hplain]⟩)

end Template

/-! ## Operands of the instruction -/

namespace Opnd

theorem cls_imm (v : ℤ) (b : ℕ) : (imm v b).cls =
    if -2 ^ (8 * b - 1) ≤ v ∧ v < 2 ^ (8 * b - 1) then .immed b else .other := rfl

theorem cls_imm_or (v : ℤ) (b : ℕ) : (imm v b).cls = .immed b ∨ (imm v b).cls = .other := by
  rw [cls_imm]
  split
  · exact .inl rfl
  · exact .inr rfl

theorem high_vreg (o : Opnd) : o.vreg.high = o.cls.high := by
  cases o with
  | mem o m b => rcases m with ⟨_, _, _ | _ | _, _, _⟩ | _ | _ <;> rfl
  | imm v b => rcases cls_imm_or v b with h | h <;> rw [h] <;> rfl
  | _ => rfl

theorem high_indexVreg (o : Opnd) : o.indexVreg.high = o.cls.indexHigh := by
  cases o with
  | mem o m b => rcases m with ⟨_, _, _ | _ | _, _, _⟩ | _ | _ <;> rfl
  | imm v b => rcases cls_imm_or v b with h | h <;> rw [h] <;> rfl
  | _ => rfl

theorem shape_eq {o : Opnd} (h : o.cls.ordinary = true) : o.shape = o.cls.shape := by
  cases o with
  | mem o m b => rcases m with ⟨_, _, _ | _ | _, _, _⟩ | _ | _ <;> rfl
  | imm v b =>
    rw [cls_imm] at h ⊢
    split at h
    next hv =>
      obtain rfl : b = 1 := by simpa [OpndClass.ordinary] using h
      simp only [shape, Shape.ofImm, if_pos hv, OpndClass.shape, Shape.imm.injEq, true_and,
        Bool.and_eq_true, decide_eq_true_eq]
      omega
    · cases h
  | null => cases h
  | zslot _ _ _ => cases h
  | kslot _ _ => cases h
  | rslot _ _ => cases h
  | label _ => cases h
  | _ => rfl

theorem shape_rebuild (off : ℤ) (b : ℕ) (o : Opnd) :
    (o.withMem (.rebuild off) b).shape = o.shape.resize b := by
  cases o with
  | mem o m b => rcases m with ⟨_, _, _ | _ | _, _, _⟩ | _ | _ <;> rfl
  | _ => rfl

theorem shape_rebuildBase (off : ℤ) (b : ℕ) (o : Opnd) :
    (o.withMem (.rebuildBase off) b).shape = o.shape.resizeBase b := by
  cases o with
  | mem o m b => rcases m with ⟨_, _, _ | _ | _, _, _⟩ | _ | _ <;> rfl
  | _ => rfl

end Opnd

namespace AppInstr

variable {i : AppInstr}

theorem cls_eq (i : AppInstr) (p : Pos) :
    (i.opnd? p = none ∧ i.cls p = .absent ∧ i.opnd p = .null) ∨
      ∃ o, i.opnd? p = some o ∧ i.cls p = o.cls ∧ i.opnd p = o := by
  cases h : i.opnd? p with
  | none => exact .inl ⟨rfl, by simp [cls, h], by simp [opnd, h]⟩
  | some o => exact .inr ⟨o, rfl, by simp [cls, h], by simp [opnd, h]⟩

theorem shape_opnd {p : Pos} (h : (i.cls p).ordinary = true) :
    (i.opnd p).shape = (i.cls p).shape := by
  obtain ⟨-, hc, ho⟩ | ⟨o, -, hc, ho⟩ := cls_eq i p
  · rw [hc, ho]
    rfl
  · rw [hc] at h
    rw [hc, ho, Opnd.shape_eq h]

theorem high_eq (i : AppInstr) (r : Role) : i.high r = Profile.high i.cls r := by
  cases r with
  | op p =>
    obtain ⟨-, hc, ho⟩ | ⟨o, -, hc, ho⟩ := cls_eq i p
    · simp [high, Profile.high, hc, ho, Opnd.vreg, VReg.high, OpndClass.high]
    · rw [high, Profile.high, hc, ho, Opnd.high_vreg]
  | index p =>
    obtain ⟨-, hc, ho⟩ | ⟨o, -, hc, ho⟩ := cls_eq i p
    · simp [high, Profile.high, hc, ho, Opnd.indexVreg, VReg.high, OpndClass.indexHigh]
    · rw [high, Profile.high, hc, ho, Opnd.high_indexVreg]
  | t n => rfl
  | spill n => rfl

/-- The value of an immediate byte stays one under the functions that are applied to it. -/
theorem shape_immOf {p : Pos} (h : (i.cls p).ordinary = true) (f : ImmFn) :
    Shape.ofImm (f.apply (i.opnd p).immVal) 1 = .imm 1 true true := by
  have hrange : -128 ≤ (i.opnd p).immVal ∧ (i.opnd p).immVal ≤ 127 := by
    obtain ⟨-, -, ho⟩ | ⟨o, -, hc, ho⟩ := cls_eq i p
    · simp [ho, Opnd.immVal]
    · rw [hc] at h
      rw [ho]
      cases o with
      | imm v b =>
        rw [Opnd.cls_imm] at h
        split at h
        next hv =>
          obtain rfl : b = 1 := by simpa [OpndClass.ordinary] using h
          simp only [Opnd.immVal]
          omega
        · cases h
      | _ => simp [Opnd.immVal]
  have hbyte : -128 ≤ f.apply (i.opnd p).immVal ∧ f.apply (i.opnd p).immVal ≤ 127 := by
    have hlt := Int.tmod_lt_of_pos (i.opnd p).immVal (b := 64) (by decide)
    have hgt := Int.lt_tmod_of_pos (i.opnd p).immVal (b := 64) (by decide)
    cases f <;> simp only [ImmFn.apply] <;> omega
  simp only [Shape.ofImm, Shape.imm.injEq, true_and, Bool.and_eq_true, decide_eq_true_eq]
  omega

end AppInstr

/-! ## Vector operands -/

theorem AppInstr.cls_of_opnd_vec {i : AppInstr} {p : Pos} {w : VecWidth} {x : VReg}
    (h : i.opnd p = .vec w x) : i.cls p = .vec w x.high := by
  obtain ⟨-, -, ho⟩ | ⟨o, -, hc, ho⟩ := i.cls_eq p
  · rw [ho] at h
    cases h
  · rw [hc, ← ho, h]
    rfl

theorem Opnd.exists_eq_vec {o : Opnd} {w : VecWidth} {high : Bool} (h : o.cls = .vec w high) :
    ∃ x, o = .vec w x := by
  cases o with
  | vec w' x =>
    cases h
    exact ⟨x, rfl⟩
  | mem o m b => rcases m with ⟨_, _, _ | _ | _, _, _⟩ | _ | _ <;> cases h
  | imm v b => rcases cls_imm_or v b with hc | hc <;> rw [hc] at h <;> cases h
  | _ => cases h

theorem AppInstr.opnd_of_cls_vec {e : Env} {p : Pos} {w : VecWidth} {high : Bool}
    (h : e.instr.cls p = .vec w high) : e.instr.opnd p = .vec w (e.vreg (.op p)) := by
  obtain ⟨-, hc, -⟩ | ⟨o, -, hc, ho⟩ := e.instr.cls_eq p
  · rw [hc] at h
    cases h
  · rw [hc] at h
    obtain ⟨x, rfl⟩ := Opnd.exists_eq_vec h
    rw [Env.vreg, ho, Opnd.vreg]

/-! ## Scratch registers -/

/-- The pools have scratch registers for the template. -/
def Template.fits (P : Profile) (T : Template) : Bool :=
  (T.vecs.all fun avoid ↦ (avoid.filter fun r ↦ !P.high r).length < 6) &&
    T.gprs.all fun avoid ↦ avoid.length < 14

theorem Template.exists_env {T : Template} {i : AppInstr} (h : T.fits i.cls = true) :
    ∃ e, T.env? i = some e := by
  simp only [fits, Bool.and_eq_true, List.all_eq_true, decide_eq_true_eq] at h
  obtain ⟨hvecs, hgprs⟩ := h
  simp only [← AppInstr.high_eq] at hvecs
  obtain ⟨vecs, hv⟩ := exists_findVecs hvecs (List.forall_mem_nil _)
  obtain ⟨gprs, hg⟩ := exists_findGprs (i := i) hgprs []
  exact ⟨⟨i, vecs, gprs⟩, by rw [env?, hv, Option.bind_some, hg, Option.map_some]⟩

/-- Few enough registers are avoided that it does not matter which of them exist on the host. -/
def Template.short (T : Template) : Bool :=
  (T.vecs.all fun avoid ↦ avoid.length < 6) && T.gprs.all fun avoid ↦ avoid.length < 14

theorem Template.fits_of_short {T : Template} (h : T.short = true) (P : Profile) :
    T.fits P = true := by
  simp only [short, fits, Bool.and_eq_true, List.all_eq_true, decide_eq_true_eq] at h ⊢
  exact ⟨fun avoid ha ↦ Nat.lt_of_le_of_lt (List.length_filter_le _ _) (h.1 avoid ha), h.2⟩

/-! ## Instances of templates -/

section Inst

/-- The shape of a general purpose register operand. -/
theorem Env.shape_gpr {e : Env} (sz : GprSize) {r : GRole}
    (hr : (TOpnd.g sz r).rated e.instr.cls e.gprs.length = true) :
    ((TOpnd.g sz r).inst e).shape = Profile.gprShape e.instr.cls sz r := by
  cases r with
  | fixed r => rfl
  | t m =>
    have hm : m < e.gprs.length := by simpa [TOpnd.rated] using hr
    simp [TOpnd.inst, Env.gpr, hm, Opnd.shape, Profile.gprShape]
  | index p => cases hr
  | op p =>
    obtain ⟨-, hc, ho⟩ | ⟨o, -, hc, ho⟩ := AppInstr.cls_eq e.instr p
    · simp [TOpnd.inst, Env.gpr, hc, ho, Opnd.gpr?, Opnd.shape, Profile.gprShape]
    · simp only [TOpnd.inst, Env.gpr, Profile.gprShape, hc, ho]
      cases o with
      | mem o m b => rcases m with ⟨_, _, _ | _ | _, _, _⟩ | _ | _ <;> rfl
      | imm v b => rcases Opnd.cls_imm_or v b with h | h <;> rw [h] <;> rfl
      | _ => rfl
  | base p =>
    obtain ⟨-, hc, ho⟩ | ⟨o, -, hc, ho⟩ := AppInstr.cls_eq e.instr p
    · simp [TOpnd.inst, Env.gpr, hc, ho, Opnd.base, Opnd.shape, Profile.gprShape]
    · simp only [TOpnd.inst, Env.gpr, Profile.gprShape, TOpnd.rated, hc, ho] at hr ⊢
      cases o with
      | mem o m b =>
        rcases m with ⟨_, _ | bs, _ | _ | _, _, _⟩ | _ | _ <;> first | rfl | cases hr
      | imm v b => rcases Opnd.cls_imm_or v b with h | h <;> rw [h] <;> rfl
      | _ => rfl

variable {e : Env} (he : ∀ r ∈ e.vecs, r ∈ spillPool) (hi : ∀ p, (e.instr.cls p).ordinary = true)
include he

theorem Env.high_vreg (r : Role) : (e.vreg r).high = Profile.high e.instr.cls r := by
  rw [← AppInstr.high_eq]
  exact AppInstr.high_vreg he e.gprs r

include hi

/-- The shape of an operand does not depend on the scratch registers. -/
theorem TOpnd.shape_inst {o : TOpnd} (ho : o.rated e.instr.cls e.gprs.length = true) :
    (o.inst e).shape = o.shape e.instr.cls := by
  cases o with
  | v w r => exact congrArg (Shape.vec w) (Env.high_vreg he r)
  | g sz r => exact Env.shape_gpr sz ho
  | app p => exact AppInstr.shape_opnd (hi p)
  | mem p off b => rw [inst, Opnd.shape_rebuild, AppInstr.shape_opnd (hi p), shape]
  | memBase p off b => rw [inst, Opnd.shape_rebuildBase, AppInstr.shape_opnd (hi p), shape]
  | scratch base index sc d b =>
    simp only [inst, shape]
    cases index.bind e.gpr <;> rfl
  | immOf p f => exact AppInstr.shape_immOf (hi p) f
  | _ => rfl

theorem TInsn.legal_inst {i : TInsn} (h : i.rated e.instr.cls e.gprs.length = true) :
    (i.inst e).legal = i.legal e.instr.cls := by
  simp only [rated, List.all_append, Bool.and_eq_true, List.all_eq_true] at h
  simp only [Insn.legal, legal, inst, List.map_map]
  congr 1
  · exact List.map_congr_left fun o ho ↦ TOpnd.shape_inst he hi (h.1 o ho)
  · exact List.map_congr_left fun o ho ↦ TOpnd.shape_inst he hi (h.2 o ho)

end Inst

end DrAvx
