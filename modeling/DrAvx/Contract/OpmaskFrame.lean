import DrAvx.Contract.Untouched

/-!
# What opmask instructions leave alone

An instruction on opmask registers other than `kortest` and `ktest` writes one register.  Its chain
needs general purpose registers to compute with, since an opmask register is a slot in memory.  Most
chains save them on the stack, and so write into the red zone of the application.  The few that save
a register in its slot instead do not care for the flags when they clear it with `xor`.  What is left
are moves.
-/

set_option autoImplicit false

namespace DrAvx

open Decision Flow Function

/-! ## The frame -/

/-- Between the states, nothing has changed but the destination of the opmask instruction, as far as
general purpose registers, flags, opmask registers and the 128 bytes below the stack pointer go. -/
structure OpmaskFramed (i : AppInstr) (s t : State) : Prop where
  gpr : ∀ r, (∀ sz, .gpr sz r ∉ i.dsts) → t.gpr r = s.gpr r
  flags : t.flags = s.flags
  kslot : ∀ k, .opmask k ∉ i.dsts → t.kslot k = s.kslot k
  redZone : ∀ n < 128, ∀ a, a = s.gpr .rsp - BitVec.ofNat 64 (n + 1) →
    (∀ o ∈ i.dsts, ¬s.covers a o) → t.mem a = s.mem a

/-! ## Chains that keep to it -/

/-- The operand at the first position, which the instruction may write. -/
def TOpnd.isDst (P : Profile) : TOpnd → Bool
  | .g _ r => r == .op .d0
  | .app p => p == .d0 && !Test.isMem.holds (P .d0)
  | .kslot p _ => p == .d0 && P .d0 == .opmask
  | _ => false

/-- The chain writes the destination alone. -/
def Template.moves (T : Template) (P : Profile) : Bool :=
  T.body.all fun i ↦ !i.op.setsFlags && i.dsts.all (TOpnd.isDst P)

/-- The chain borrows rax, and keeps it in a slot meanwhile. -/
def Template.borrowsRax (T : Template) (P : Profile) : Bool :=
  P .d0 == .opmask && match T.body with
  | [⟨.movSt, [.rslot n 8], [.g .q (.fixed .rax)]⟩, ⟨.movLd, [.g .q (.fixed .rax)], [.kslot _ _]⟩,
      ⟨.movSt, [.kslot .d0 _], [.g _ (.fixed .rax)]⟩,
      ⟨.movLd, [.g .q (.fixed .rax)], [.rslot n' 8]⟩] => n == n'
  | _ => false

/-- The chain ends with the zero extension of ax, whatever the destination. -/
def Template.extendsRax (T : Template) (P : Profile) : Bool :=
  P .d0 == .gpr .d && match T.body with
  | [⟨.movLd, [.g .w (.op .d0)], [.kslot _ _]⟩,
      ⟨.movzx, [.g .d (.fixed .rax)], [.g .w (.fixed .rax)]⟩] => true
  | _ => false

section Keep

variable {c : Context} {F : Facts} {T : Template} {e : Env} (h : Emitted c F T e)
variable {E : Ext} {s t : State}
include h

/-- An opmask register at the first position. -/
theorem Emitted.mem_dsts_opmask (hd0 : F.profile .d0 = .opmask) :
    .opmask (e.instr.opnd .d0).kreg ∈ e.instr.dsts := by
  rw [h.profile] at hd0
  obtain ⟨-, hc, -⟩ | ⟨o, -, hc, ho⟩ := e.instr.cls_eq .d0
  · rw [hc] at hd0
    cases hd0
  · rw [hc] at hd0
    cases o with
    | opmask k =>
      rw [ho]
      exact AppInstr.mem_dsts_of_opnd ho nofun
    | mem o m b => rcases m with ⟨_, _, _ | _ | _, _, _⟩ | _ | _ <;> cases hd0
    | imm v b => rcases Opnd.cls_imm_or v b with hc | hc <;> rw [hc] at hd0 <;> cases hd0
    | _ => cases hd0

omit h in
/-- A general purpose register at the first position. -/
theorem AppInstr.mem_dsts_gpr {r : Gpr} (hr : (e.instr.opnd .d0).gpr? = some r) :
    ∃ sz, .gpr sz r ∈ e.instr.dsts := by
  cases ho : e.instr.opnd .d0 with
  | gpr sz q =>
    rw [ho] at hr
    cases hr
    exact ⟨sz, AppInstr.mem_dsts_of_opnd ho nofun⟩
  | _ =>
    rw [ho] at hr
    cases hr

theorem Emitted.opmaskFramed_of_moves (hT : T.moves F.profile = true)
    (hexec : Exec E (T.body.map (TInsn.inst e)) s t) : OpmaskFramed e.instr s t := by
  have hstep {j : Insn} (hj : j ∈ T.body.map (TInsn.inst e)) : j.op.setsFlags = false ∧
      ∀ o ∈ j.dsts, ∃ o' : TOpnd, o'.isDst F.profile = true ∧ o'.inst e = o := by
    obtain ⟨i, hi, rfl⟩ := List.mem_map.mp hj
    have hmoves := List.all_eq_true.mp hT i hi
    rw [Bool.and_eq_true, Bool.not_eq_true', List.all_eq_true] at hmoves
    refine ⟨hmoves.1, fun o ho ↦ ?_⟩
    obtain ⟨o', ho', rfl⟩ := List.mem_map.mp ho
    exact ⟨o', hmoves.2 o' ho', rfl⟩
  refine ⟨fun r hr ↦ ?_, ?_, fun k hk ↦ ?_, fun n _ a _ _ ↦ ?_⟩
  · refine hexec.frame (f := fun u ↦ u.gpr r) fun j hj u ↦ Insn.effect_gpr fun sz hsz ↦ ?_
    obtain ⟨o, hdst, hinst⟩ := (hstep hj).2 _ hsz
    obtain ⟨ρ, hρ, hg⟩ := TOpnd.gprRole_of_inst hinst
    have hd0 : ρ = .op .d0 := by
      cases o with
      | g sz' ρ' =>
        obtain rfl := Option.some.inj hρ
        simpa [TOpnd.isDst] using hdst
      | app p =>
        rw [TOpnd.isDst, Bool.and_eq_true, beq_iff_eq] at hdst
        rw [TOpnd.gprRole, hdst.1] at hρ
        split at hρ <;> cases hρ
        rfl
      | _ => cases hρ
    subst hd0
    obtain ⟨sz', hmem⟩ := AppInstr.mem_dsts_gpr hg
    exact hr sz' hmem
  · exact hexec.frame (f := State.flags) fun j hj u ↦ Insn.effect_flags (hstep hj).1
  · refine hexec.frame (f := fun u ↦ u.kslot k) fun j hj u ↦ Insn.effect_kslot fun b hb ↦ ?_
    obtain ⟨o, hdst, hinst⟩ := (hstep hj).2 _ hb
    obtain ⟨p, rfl, hp⟩ := TOpnd.eq_kslot_of_inst h.ordinary hinst
    rw [TOpnd.isDst, Bool.and_eq_true, beq_iff_eq, beq_iff_eq] at hdst
    obtain ⟨rfl, hd0⟩ := hdst
    exact hk (hp ▸ h.mem_dsts_opmask hd0)
  · refine hexec.frame (f := fun u ↦ u.mem a) fun j hj u ↦ Insn.effect_mem fun o m b hb ↦ ?_
    obtain ⟨o', hdst, hinst⟩ := (hstep hj).2 _ hb
    have hmem : (o'.inst e).isMem = false := by
      cases o' with
      | g sz ρ =>
        rw [TOpnd.inst]
        split <;> rfl
      | app p =>
        rw [TOpnd.isDst, Bool.and_eq_true, beq_iff_eq] at hdst
        exact Poked.isMem_inst h (by rw [TOpnd.sparesMem, hdst.1]; exact hdst.2)
      | kslot p b => rfl
      | _ => cases hdst
    rw [hinst] at hmem
    cases hmem

omit h in
/-- A register that goes through a slot is the same afterwards. -/
theorem State.writeGpr_rslot (old g v : BitVec 64) :
    writeGpr .q old (low 8 ((((merge 8 (v.setWidth 256) (low 8 (g.setWidth 256))).setWidth 64)
      ).setWidth 256)) = g := by
  refine BitVec.eq_of_getLsbD_eq fun j hj ↦ ?_
  have hj' : j < 256 := by omega
  simp only [writeGpr, BitVec.getLsbD_setWidth, getLsbD_low, getLsbD_merge]
  simp [hj, hj']

theorem Emitted.opmaskFramed_of_borrowsRax (hT : T.borrowsRax F.profile = true)
    (hlegal : (T.body.map (TInsn.inst e)).all Insn.legal = true)
    (hexec : Exec E (T.body.map (TInsn.inst e)) s t) : OpmaskFramed e.instr s t := by
  rw [Template.borrowsRax, Bool.and_eq_true, beq_iff_eq] at hT
  obtain ⟨hd0, hT⟩ := hT
  split at hT
  next n p b b' sz n' hbody =>
    obtain rfl := beq_iff_eq.mp hT
    have hplain : (T.body.map (TInsn.inst e)).all (·.ctl == .plain) = true :=
      h.all_plain (by rw [Template.isStraight, hbody]; rfl)
    have ht := hexec.unique (exec_effects hlegal hplain E s)
    rw [hbody] at ht
    let v := State.writeGpr .q (s.gpr .rax) (low b ((s.kslot (e.instr.opnd p).kreg).setWidth 256))
    obtain ⟨w, hk⟩ : ∃ w, t.kslot = update s.kslot (e.instr.opnd .d0).kreg w := ⟨_, by rw [ht]; rfl⟩
    have hgpr : t.gpr = update (update s.gpr .rax v) .rax (State.writeGpr .q
        (update s.gpr .rax v .rax) (low 8 (((update s.rslot n ((merge 8 ((s.rslot n).setWidth 256)
          (low 8 ((s.gpr .rax).setWidth 256))).setWidth 64)) n).setWidth 256))) := by rw [ht]; rfl
    rw [update_self n, State.writeGpr_rslot, update_idem, update_eq_self] at hgpr
    refine ⟨fun r _ ↦ congrFun hgpr r, by rw [ht]; rfl, fun k hk' ↦ ?_, fun _ _ a _ _ ↦ by rw [ht]; rfl⟩
    rw [hk, update_of_ne]
    rintro rfl
    exact hk' (h.mem_dsts_opmask hd0)
  · cases hT

/-- What the zero extension leaves. -/
theorem Emitted.gpr_of_extendsRax (hT : T.extendsRax F.profile = true)
    (hlegal : (T.body.map (TInsn.inst e)).all Insn.legal = true)
    (hexec : Exec E (T.body.map (TInsn.inst e)) s t) :
    ∃ r v w, (e.instr.opnd .d0).gpr? = some r ∧ t = { s with
        gpr := update (update s.gpr r v) .rax w } ∧
      (r ≠ .rax → w = (low 4 (low 2 ((s.gpr .rax).setWidth 256))).setWidth 64) := by
  rw [Template.extendsRax, Bool.and_eq_true, beq_iff_eq] at hT
  obtain ⟨hd0, hT⟩ := hT
  split at hT
  next p b hbody =>
    have hplain : (T.body.map (TInsn.inst e)).all (·.ctl == .plain) = true :=
      h.all_plain (by rw [Template.isStraight, hbody]; rfl)
    have ht := hexec.unique (exec_effects hlegal hplain E s)
    obtain ⟨r, hr⟩ : ∃ r, (e.instr.opnd .d0).gpr? = some r := by
      rw [h.profile] at hd0
      obtain ⟨-, hc, -⟩ | ⟨o, -, hc, ho⟩ := e.instr.cls_eq .d0
      · rw [hc] at hd0
        cases hd0
      · rw [hc] at hd0
        rw [ho]
        cases o with
        | gpr sz r => exact ⟨r, rfl⟩
        | mem o m b => rcases m with ⟨_, _, _ | _ | _, _, _⟩ | _ | _ <;> cases hd0
        | imm v b => rcases Opnd.cls_imm_or v b with hc | hc <;> rw [hc] at hd0 <;> cases hd0
        | _ => cases hd0
    have hinst : TOpnd.inst e (.g .w (.op .d0)) = .gpr .w r := by
      simp only [TOpnd.inst, Env.gpr, hr]
    rw [hbody] at ht
    simp only [effects, List.map_cons, List.map_nil, List.foldl_cons, List.foldl_nil, TInsn.inst,
      hinst] at ht
    refine ⟨r, _, _, hr, ht, fun hne ↦ ?_⟩
    have hrax (v : BitVec 64) : update s.gpr r v .rax = s.gpr .rax := update_of_ne hne.symm _ _
    exact congrArg (fun g : BitVec 64 ↦ (low 4 (low 2 (g.setWidth 256))).setWidth 64) (hrax _)
  · cases hT

end Keep

/-! ## Chains that do not -/

/-- An operation that clears the carry flag. -/
def TInsn.clearsCarry (i : TInsn) : Bool :=
  match i.srcs, i.op with
  | [_, _], .and | [_, _], .or | [_, _], .xor => true
  | _, _ => false

/-- Some instruction clears the carry flag, and none after it sets a flag. -/
def clearsCarry : List TInsn → Bool
  | [] => false
  | i :: rest => i.clearsCarry && rest.all (fun j ↦ !j.op.setsFlags) || clearsCarry rest

theorem cf_of_clearsCarry {e : Env} {E : Ext} {s : State} {body : List TInsn}
    (h : clearsCarry body = true) : (effects E (body.map (TInsn.inst e)) s).flags.cf = false := by
  induction body generalizing s with
  | nil => cases h
  | cons i rest ih =>
    rw [clearsCarry, Bool.or_eq_true, Bool.and_eq_true] at h
    rcases h with ⟨hi, hrest⟩ | h
    · have hcf : ((i.inst e).effect E s).flags.cf = false := by
        obtain ⟨op, dsts, srcs⟩ := i
        unfold TInsn.clearsCarry at hi
        split at hi
        next x y hsrcs hop =>
          dsimp only at hsrcs hop
          subst hsrcs hop
          rfl
        next x y hsrcs hop =>
          dsimp only at hsrcs hop
          subst hsrcs hop
          rfl
        next x y hsrcs hop =>
          dsimp only at hsrcs hop
          subst hsrcs hop
          rfl
        · cases hi
      have hflags : ∀ s, (effects E (rest.map (TInsn.inst e)) s).flags = s.flags := by
        clear ih
        induction rest with
        | nil => exact fun _ ↦ rfl
        | cons j rest ih =>
          intro s
          rw [List.all_cons, Bool.and_eq_true, Bool.not_eq_true'] at hrest
          exact (ih hrest.2 _).trans (Insn.effect_flags (i := j.inst e) hrest.1)
      rw [show effects E ((i :: rest).map (TInsn.inst e)) s =
        effects E (rest.map (TInsn.inst e)) ((i.inst e).effect E s) from rfl, hflags, hcf]
    · exact ih h

section Spoil

variable {h : RwFunc} {c : Context} {F : Facts} {T : Template} {e : Env}
variable (hemitted : Emitted c F T e) (hi : h.Decodes e.instr)
include hemitted

/-- A chain that clears the carry flag does not keep the flags. -/
theorem Emitted.not_opmaskFramed_of_clearsCarry
    (hlegal : (T.body.map (TInsn.inst e)).all Insn.legal = true) (hstraight : T.isStraight = true)
    (hclears : clearsCarry T.body = true) :
    ¬∀ E s t, Exec E (T.body.map (TInsn.inst e)) s t → OpmaskFramed e.instr s t := by
  intro hframed
  let s : State := { State.blank with flags := ⟨true, false, false, false, false, false⟩ }
  have ht := hframed _ _ _ (exec_effects hlegal (hemitted.all_plain hstraight) .blank s)
  have hcf := congrArg Flags.cf ht.flags
  rw [cf_of_clearsCarry hclears] at hcf
  cases hcf

include hi in
/-- A chain that starts with a push writes into the red zone. -/
theorem Emitted.not_opmaskFramed_of_loses
    (hexec : ∀ E s, ∃ t, Exec E (T.body.map (TInsn.inst e)) s t)
    (hd0 : Test.isMem.holds (F.profile .d0) = false)
    (hd1 : Test.isMem.holds (F.profile .d1) = false) (hloses : T.loses F.profile (-1) = true) :
    ¬∀ E s t, Exec E (T.body.map (TInsn.inst e)) s t → OpmaskFramed e.instr s t := by
  intro hframed
  let x := State.blank.gpr .rsp + BitVec.ofInt 64 (-1)
  obtain ⟨t, ht⟩ := hexec .blank .blank
  obtain ⟨t', ht'⟩ := hexec .blank (State.blank.poke x (State.blank.mem x + 1))
  have hcovers (s : State) : ∀ o ∈ e.instr.dsts, ¬s.covers x o := by
    intro o ho
    rcases hi.mem_dsts ho with rfl | rfl
    · exact hemitted.not_covers hd0 _ _
    · exact hemitted.not_covers hd1 _ _
  have hold := (hframed _ _ _ ht).redZone 0 (by decide) x (by decide) (hcovers _)
  have hnew := (hframed _ _ _ ht').redZone 0 (by decide) x (by decide) (hcovers _)
  rw [hemitted.eq_of_loses hloses (State.sameBut_poke _ _ _) ht ht', hold] at hnew
  revert hnew
  decide

include hi in
/-- A chain that ends with the zero extension of ax keeps the frame if the destination is eax. -/
theorem Emitted.opmaskFramed_iff_of_extendsRax (hT : T.extendsRax F.profile = true)
    (hlegal : (T.body.map (TInsn.inst e)).all Insn.legal = true) (hstraight : T.isStraight = true)
    (hd1 : F.profile .d1 = .absent) :
    (∀ E s t, Exec E (T.body.map (TInsn.inst e)) s t → OpmaskFramed e.instr s t) ↔
      (e.instr.opnd .d0).gpr? = some .rax := by
  constructor
  · intro hframed
    by_contra hne
    let s : State := { State.blank with gpr := fun _ ↦ -1 }
    have hexec := exec_effects hlegal (hemitted.all_plain hstraight) .blank s
    obtain ⟨r, v, w, hr, ht, hw⟩ := hemitted.gpr_of_extendsRax hT hlegal hexec
    have hr' : r ≠ .rax := by
      rintro rfl
      exact hne hr
    have hrax := (hframed _ _ _ hexec).gpr .rax fun sz hsz ↦ by
      rcases hi.mem_dsts hsz with h₀ | h₁
      · exact hne (by rw [← h₀]; rfl)
      · rw [hemitted.profile] at hd1
        obtain ⟨-, -, ho⟩ | ⟨o, -, hc, ho⟩ := e.instr.cls_eq .d1
        · rw [ho] at h₁
          cases h₁
        · rw [hc, ← ho, ← h₁] at hd1
          cases hd1
    rw [ht] at hrax
    dsimp only at hrax
    rw [update_self, hw hr'] at hrax
    revert hrax
    decide
  · intro hrax E s t hexec
    obtain ⟨r, v, w, hr, ht, -⟩ := hemitted.gpr_of_extendsRax hT hlegal hexec
    obtain rfl : r = .rax := Option.some.inj (hr.symm.trans hrax)
    rw [ht]
    refine ⟨fun q hq ↦ ?_, rfl, fun _ _ ↦ rfl, fun _ _ _ _ _ ↦ rfl⟩
    obtain ⟨sz, hmem⟩ := AppInstr.mem_dsts_gpr hrax
    have hne : q ≠ .rax := by
      rintro rfl
      exact hq sz hmem
    dsimp only
    rw [update_of_ne hne, update_of_ne hne]

end Spoil

/-! ## Which chains keep to the frame -/

/-- The operands for which a handler uses the stack of the application, or spoils the flags. -/
def RwFunc.spoiling : RwFunc → List (Cube Query)
  | .kmovw => [[is (.test .s0 (.isGpr .q))], [is (.test .s0 (.isGpr .d))]]
  | .kmovd => [[is (.test .s0 (.isGpr .d))]]
  | .kmovq => []
  | _ => [[]]

/-- The operands for which a handler extends ax after the move. -/
def RwFunc.extending : RwFunc → List (Cube Query)
  | .kmovw => [[is (.test .d0 (.isGpr .d))]]
  | _ => []

/-- At every leaf the lists decide whether the chain keeps to the frame. -/
theorem spoiling_settles : ∀ h ∈ RwFunc.all, h.isOpmask = true → h.definesFlags = false →
    h.check (Leaf.every fun F T ↦
      settles surveying h.residual F false || T.isStraight &&
        (settles surveying h.spoiling F false && (clearsCarry T.body && !T.loses F.profile (-1) ||
            !Test.isMem.holds (F.profile .d0) && !Test.isMem.holds (F.profile .d1) &&
              T.loses F.profile (-1)) ||
        settles surveying h.spoiling F true &&
          (settles surveying h.extending F true && (T.moves F.profile || T.borrowsRax F.profile) ||
          settles surveying h.extending F false && T.extendsRax F.profile &&
            F.profile .d1 == .absent))) = true := by
  decide +kernel

/-- The move of k1 to ecx. -/
def moveEcxK1 : AppInstr := ⟨[.gpr .d .rcx], [.opmask 1], false⟩

/-- The chain for it. -/
def moveEcxK1Chain : List Insn :=
  [⟨.movLd, [.gpr .w .rcx], [.kslot 1 2]⟩, ⟨.movzx, [.gpr .d .rax], [.gpr .w .rax]⟩]

end DrAvx
