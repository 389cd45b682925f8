import DrAvx.Machine.Compare
import DrAvx.Machine.Vector
import DrAvx.Rewrite.Analysis
import DrAvx.Rewrite.Profile
import DrAvx.Straight.Term

/-!
# Templates as assignments of terms

Most of what is emitted for vector instructions neither touches memory nor the general purpose
registers: it moves values of one width or another between vector registers and slots and computes
with them.  An instruction of such a template is an assignment of a term to a location
(`TInsn.assign?`); whatever else it reads, an immediate, a general purpose register or memory, is an
input.  `effects_of_assigns` says that the template does what the assignments do and nothing else.

`symBuilder` simplifies terms as they are built: the low bytes of the low bytes of a value, or of a
value that was merged into another one.  It is what makes a register recognisable after it has been
saved and restored.
-/

set_option autoImplicit false

namespace DrAvx

open Straight Function

deriving instance DecidableEq for ImmFn
deriving instance DecidableEq for TOpnd

/-! ## Opcodes with one result -/

/-- The opcode has one result, computed from so many inputs. -/
def Op.yields (op : Op) (n : ℕ) : Bool :=
  match op with
  | .push | .pop | .pushf | .popf | .vpgatherdd | .vpgatherdq | .vpgatherqq => false
  | _ => op.computes n

/-- The result of such an opcode. -/
def Op.result (E : Ext) (op : Op) (n : ℕ) (byImm : Bool) (vs : List Val) : Val :=
  (op.values E n byImm vs ⟨false, false, false, false, false, false⟩).headD 0

theorem Op.values_of_yields {op : Op} {vs : List Val} (h : op.yields vs.length = true) (E : Ext)
    (n : ℕ) (byImm : Bool) (fl : Flags) : op.values E n byImm vs fl = [op.result E n byImm vs] := by
  rcases vs with _ | ⟨a, _ | ⟨b, _ | ⟨c, _ | ⟨d, vs⟩⟩⟩⟩ <;> cases op <;>
    first
    | rfl
    | cases h
      done
    | cases byImm <;> rfl

/-- The opcodes that copy their source. -/
def Op.copies : Op → Bool
  | .vmovdqu | .vmovaps | .vmovapd | .vmovups | .vmovupd => true
  | _ => false

theorem Op.result_of_copies {op : Op} (h : op.copies = true) (E : Ext) (n : ℕ) (byImm : Bool)
    (v : Val) : op.result E n byImm [v] = v := by
  cases op <;> first | rfl | cases h

/-! ## Terms -/

/-- The operators of terms: taking the low bytes, merging them into another value, an opcode on
operands of so many bytes, by an immediate or not. -/
inductive VOp
  | low (bytes : ℕ)
  | merge (bytes : ℕ)
  | op (op : Op) (bytes : ℕ) (byImm : Bool)
  deriving DecidableEq

/-- What terms mean in a state; the vector data of the state does not enter into the inputs. -/
def symAlgebra (E : Ext) (e : Env) (s : State) : Algebra TOpnd VOp Val where
  inp o := (s.put fun _ ↦ 0).read 4 (o.inst e)
  un
    | .low n, v => low n v
    | .merge _, v => v
    | .op op n byImm, v => op.result E n byImm [v]
  bin
    | .low n, v, _ => low n v
    | .merge n, old, v => merge n old v
    | .op op n byImm, v, w => op.result E n byImm [v, w]

theorem symAlgebra_put (E : Ext) (e : Env) (s : State) (σ : Loc VReg → Val) :
    symAlgebra E e (s.put σ) = symAlgebra E e s := rfl

section Builder

variable {L : Type}

/-- The low bytes of a term. -/
def lowTerm (n : ℕ) : Term L TOpnd VOp → Term L TOpnd VOp
  | .un (.low m) t => lowTerm (min n m) t
  | .bin (.merge m) old t => if n ≤ m then lowTerm n t else .un (.low n) (.bin (.merge m) old t)
  | t => if 32 ≤ n then t else .un (.low n) t

/-- The low bytes of a term under the others of another term. -/
def mergeTerm (n : ℕ) (old t : Term L TOpnd VOp) : Term L TOpnd VOp :=
  if 32 ≤ n then t else .bin (.merge n) old t

/-- Builds terms without superfluous truncations. -/
def symBuilder (L : Type) : Builder L TOpnd VOp where
  un
    | .low n, t => lowTerm n t
    | o, t => .un o t
  bin
    | .merge n, old, t => mergeTerm n old t
    | o, t, u => .bin o t u

theorem low_of_le {n : ℕ} (h : 32 ≤ n) (v : Val) : low n v = v := by
  refine BitVec.eq_of_getLsbD_eq fun j hj ↦ ?_
  simp [getLsbD_low, show j < 8 * n by omega]

theorem low_low_min (n m : ℕ) (v : Val) : low n (low m v) = low (min n m) v := by
  refine BitVec.eq_of_getLsbD_eq fun j hj ↦ ?_
  rw [getLsbD_low, getLsbD_low, getLsbD_low, ← Bool.and_assoc, ← Bool.decide_and]
  congr 2
  rw [Nat.min_def]
  split <;> simp only [eq_iff_iff] <;> omega

theorem low_merge_of_le {n m : ℕ} (h : n ≤ m) (old v : Val) : low n (merge m old v) = low n v := by
  refine low_eq_iff.mpr fun j hj ↦ ?_
  rw [getLsbD_merge, if_pos (by omega)]

theorem merge_of_le {n : ℕ} (h : 32 ≤ n) (old v : Val) : merge n old v = v := by
  refine BitVec.eq_of_getLsbD_eq fun j hj ↦ ?_
  rw [getLsbD_merge, if_pos (by omega)]

variable (E : Ext) (e : Env) (s : State) (σ : L → Val)

theorem eval_lowTerm (n : ℕ) (t : Term L TOpnd VOp) :
    (lowTerm n t).eval (symAlgebra E e s) σ = low n (t.eval (symAlgebra E e s) σ) := by
  induction n, t using lowTerm.induct with
  | case1 n m t ih => rw [lowTerm, ih, Term.eval, ← low_low_min]; rfl
  | case2 n m old t h ih => rw [lowTerm, if_pos h, ih, Term.eval, ← low_merge_of_le h]; rfl
  | case3 n m old t h => rw [lowTerm, if_neg h]; rfl
  | case4 n t hun hbin h =>
    rw [lowTerm, if_pos h, low_of_le h] <;> assumption
  | case5 n t hun hbin h =>
    rw [lowTerm, if_neg h] <;> first | rfl | assumption

theorem symBuilder_sound : (symBuilder L).Sound (symAlgebra E e s) where
  un o t σ := by
    cases o with
    | low n => exact eval_lowTerm E e s σ n t
    | merge n => rfl
    | op op n byImm => rfl
  bin o t u σ := by
    cases o with
    | low n => rfl
    | merge n =>
      simp only [symBuilder, mergeTerm]
      split
      next h => exact (merge_of_le h _ _).symm
      · rfl
    | op op n byImm => rfl

end Builder

/-! ## Instructions as assignments -/

namespace OpndClass

/-- Memory without a vector of indices. -/
def isFlatMem : OpndClass → Bool
  | baseDisp _ | relAddr _ | absAddr _ => true
  | _ => false

/-- The value of such an operand does not depend on the vector data. -/
def isInput (c : OpndClass) : Bool :=
  c.isFlatMem || match c with
    | gpr _ | opmask | immed _ => true
    | _ => false

end OpndClass

namespace TOpnd

/-- The value of an operand, as a term. -/
def term? (P : Profile) : TOpnd → Option (Term (Loc Role) TOpnd VOp)
  | v w r => some (.un (.low w.bytes) (.var (.ymm r)))
  | slot r false b => some (.un (.low b) (.var (.lo r)))
  | slot r true b => some (.un (.low b) (.var (.hi r)))
  | app p => match P p with
    | .vec w _ => some (.un (.low w.bytes) (.var (.ymm (.op p))))
    | c => if c.isInput then some (.inp (app p)) else none
  | mem p off b => if (P p).isFlatMem then some (.inp (mem p off b)) else none
  | g sz r => some (.inp (g sz r))
  | kslot p b => some (.inp (kslot p b))
  | imm x b => some (.inp (imm x b))
  | immOf p f => some (.inp (immOf p f))
  | _ => none

def isImm (P : Profile) : TOpnd → Bool
  | imm _ _ | immOf _ _ => true
  | app p => match P p with
    | .immed _ => true
    | _ => false
  | _ => false

/-- The location an operand names as a destination, its size, and whether it is a register. -/
def target? (P : Profile) : TOpnd → Option (Loc Role × ℕ × Bool)
  | v w r => some (.ymm r, w.bytes, true)
  | slot r false b => some (.lo r, b, false)
  | slot r true b => some (.hi r, b, false)
  | app p => match P p with
    | .vec w _ => some (.ymm (.op p), w.bytes, true)
    | _ => none
  | _ => none

end TOpnd

/-- The term an opcode computes. -/
def Op.term? (op : Op) (bytes : ℕ) (byImm : Bool) :
    List (Term (Loc Role) TOpnd VOp) → Option (Term (Loc Role) TOpnd VOp)
  | [t] => some (if op.copies then t else .un (.op op bytes byImm) t)
  | [t, u] => some (.bin (.op op bytes byImm) t u)
  | _ => none

/-- The opcode only writes its destination, which it does not read. -/
def Op.quiet (op : Op) : Bool := !op.setsFlags && !op.keepsDst && op != .lea

/-- Opcodes with a legacy SSE encoding. -/
def Op.legacySse (op : Op) : Bool := Insn.legacySse ⟨op, [], []⟩

/-- What is written to a location of which so many bytes are the destination. -/
def writtenTerm (legacy reg : Bool) (l : Loc Role) (bytes : ℕ) (t : Term (Loc Role) TOpnd VOp) :
    Term (Loc Role) TOpnd VOp :=
  if reg then
    if legacy then .bin (.merge 16) (.var l) t else .un (.low bytes) t
  else .bin (.merge bytes) (.var l) t

/-- The assignment an instruction of a template stands for, if it is one. -/
def TInsn.assign? (P : Profile) (i : TInsn) : Option (Loc Role × Term (Loc Role) TOpnd VOp) :=
  if i.op.quiet && i.op.yields i.srcs.length then
    match i.dsts with
    | [d] => (d.target? P).bind fun tgt ↦ (i.srcs.mapM (TOpnd.term? P)).bind fun args ↦
      (i.op.term? tgt.2.1 ((i.srcs.head?.map (TOpnd.isImm P)).getD false) args).map fun t ↦
        (tgt.1, writtenTerm i.op.legacySse tgt.2.2 tgt.1 tgt.2.1 t)
    | _ => none
  else none

/-! ## Soundness -/

/-- What agrees on an element and on what `p` makes of it agrees along a list. -/
theorem map_eq_of_mapM {α β γ : Type} {p : α → Option β} {f : α → γ} {g : β → γ}
    (h : ∀ a b, p a = some b → f a = g b) {as : List α} {bs : List β}
    (has : as.mapM p = some bs) : as.map f = bs.map g := by
  induction as generalizing bs with
  | nil =>
    simp only [List.mapM_nil, Option.pure_def, Option.some.injEq] at has
    subst has
    rfl
  | cons a as ih =>
    simp only [List.mapM_cons, Option.bind_eq_bind, Option.bind_eq_some_iff, Option.pure_def,
      Option.some.injEq] at has
    obtain ⟨b, hb, bs, hbs, rfl⟩ := has
    rw [List.map_cons, List.map_cons, h a b hb, ih hbs]

theorem exists_of_mapM {α β : Type} {p : α → Option β} {as : List α} {bs : List β}
    (has : as.mapM p = some bs) {a : α} (ha : a ∈ as) : ∃ b, p a = some b := by
  induction as generalizing bs with
  | nil => cases ha
  | cons a' as ih =>
    simp only [List.mapM_cons, Option.bind_eq_bind, Option.bind_eq_some_iff] at has
    obtain ⟨b, hb, bs', hbs, -⟩ := has
    rcases List.mem_cons.mp ha with rfl | ha
    · exact ⟨b, hb⟩
    · exact ih hbs ha

/-- The value of the operand depends on the vector data. -/
def Opnd.readsVec : Opnd → Bool
  | .vec _ _ | .zslot _ _ _ => true
  | .mem _ (.baseDisp _ _ (.vec _ _) _ _) _ => true
  | _ => false

theorem State.read_put (s : State) (σ : Loc VReg → Val) (m n : ℕ) {o : Opnd}
    (h : o.readsVec = false) : (s.put σ).read m o = s.read n o := by
  cases o with
  | vec w r => cases h
  | zslot r u b => cases h
  | mem o m b => rcases m with ⟨_, _, _ | _ | _, _, _⟩ | _ | _ <;> first | rfl | cases h
  | _ => rfl

namespace State

variable (s : State) (r : VReg) (v : Val)

theorem put_update_ymm : s.put (update s.get (.ymm r) v) = { s with ymm := update s.ymm r v } := by
  ext1 <;> first | rfl | funext x; simp [put, update_apply, get]

theorem put_update_lo : s.put (update s.get (.lo r) v) = { s with lo := update s.lo r v } := by
  ext1 <;> first | rfl | funext x; simp [put, update_apply, get]

theorem put_update_hi : s.put (update s.get (.hi r) v) = { s with hi := update s.hi r v } := by
  ext1 <;> first | rfl | funext x; simp [put, update_apply, get]

end State

section Soundness

variable {e : Env} {P : Profile} (he : e.instr.cls = P) (E : Ext) (s : State)

/-- The value of a term of a template in a state. -/
def Env.value (e : Env) (E : Ext) (s : State) (t : Term (Loc Role) TOpnd VOp) : Val :=
  (t.map (Loc.map e.vreg)).eval (symAlgebra E e s) s.get

variable {o : Opnd}

theorem Opnd.readsVec_eq_false (h : o.cls.isInput = true) : o.readsVec = false := by
  cases o with
  | mem o m b => rcases m with ⟨_, _, _ | _ | _, _, _⟩ | _ | _ <;> first | rfl | cases h
  | vec w r => cases h
  | zslot r u b => cases h
  | _ => rfl

theorem Opnd.readsVec_rebuild (h : o.cls.isFlatMem = true) (off : ℤ) (b : ℕ) :
    (o.withMem (.rebuild off) b).readsVec = false := by
  cases o with
  | mem o m b => rcases m with ⟨_, _, _ | _ | _, _, _⟩ | _ | _ <;> first | rfl | cases h
  | zslot r u b => cases h
  | _ => rfl

theorem Opnd.isImmediate_of_cls {b : ℕ} (h : o.cls = .immed b) :
    o.isImmediate = true := by
  cases o with
  | imm v b => rfl
  | mem o m b => rcases m with ⟨_, _, _ | _ | _, _, _⟩ | _ | _ <;> cases h
  | _ => cases h

theorem Opnd.cls_of_isImmediate (h : o.isImmediate = true) :
    o.cls = .other ∨ ∃ b, o.cls = .immed b := by
  cases o with
  | imm v b =>
    rcases cls_imm_or v b with hc | hc
    · exact .inr ⟨b, hc⟩
    · exact .inl hc
  | _ => cases h

/-- The term an opcode computes has the value the opcode computes. -/
theorem Op.value_term? {op : Op} {n : ℕ} {byImm : Bool} {args : List (Term (Loc Role) TOpnd VOp)}
    {t : Term (Loc Role) TOpnd VOp} (h : op.term? n byImm args = some t) :
    e.value E s t = op.result E n byImm (args.map (e.value E s)) := by
  rcases args with _ | ⟨a, _ | ⟨b, _ | ⟨c, rest⟩⟩⟩
  · cases h
  · obtain rfl := Option.some.inj h
    split
    next hcopies => exact (Op.result_of_copies hcopies E n byImm _).symm
    · rfl
  · obtain rfl := Option.some.inj h
    rfl
  · cases h

include he

theorem AppInstr.exists_cls {p : Pos} (h : (P p).isInput = true) :
    ∃ o, e.instr.opnd p = o ∧ o.cls = P p := by
  subst he
  obtain ⟨-, hc, -⟩ | ⟨o, -, hc, ho⟩ := e.instr.cls_eq p
  · rw [hc] at h
    cases h
  · exact ⟨o, ho, hc.symm⟩

/-- The value of an operand is that of its term. -/
theorem TOpnd.read_inst {o : TOpnd} {t : Term (Loc Role) TOpnd VOp} (h : o.term? P = some t)
    (n : ℕ) : s.read n (o.inst e) = e.value E s t := by
  cases o with
  | v w r =>
    cases h
    rfl
  | slot r u b =>
    cases u <;> cases h <;> rfl
  | app p =>
    rw [term?] at h
    split at h
    next w high hp =>
      cases h
      rw [inst, AppInstr.opnd_of_cls_vec (he ▸ hp)]
      rfl
    · split at h
      next hc =>
        cases h
        obtain ⟨o, ho, hcls⟩ := AppInstr.exists_cls he hc
        have hreads : (e.instr.opnd p).readsVec = false :=
          Opnd.readsVec_eq_false (by rw [ho, hcls]; exact hc)
        exact (s.read_put _ 4 n hreads).symm
      · cases h
  | mem p off b =>
    rw [term?] at h
    split at h
    next hc =>
      cases h
      obtain ⟨o, ho, hcls⟩ := AppInstr.exists_cls he (p := p) (by simp [OpndClass.isInput, hc])
      have hreads : ((e.instr.opnd p).withMem (.rebuild off) b).readsVec = false :=
        Opnd.readsVec_rebuild (by rw [ho, hcls]; exact hc) off b
      exact (s.read_put _ 4 n hreads).symm
    · cases h
  | g sz r =>
    cases h
    refine (s.read_put _ 4 n ?_).symm
    rw [inst]
    split <;> rfl
  | kslot p b =>
    cases h
    rfl
  | imm x b =>
    cases h
    rfl
  | immOf p f =>
    cases h
    rfl
  | _ => cases h

theorem TOpnd.isImmediate_inst {o : TOpnd} {t : Term (Loc Role) TOpnd VOp}
    (h : o.term? P = some t) : (o.inst e).isImmediate = o.isImm P := by
  cases o with
  | app p =>
    rw [term?] at h
    rw [inst, isImm]
    split at h
    next w high hp =>
      rw [AppInstr.opnd_of_cls_vec (he ▸ hp), hp]
      rfl
    · split at h
      next hc =>
        obtain ⟨o, ho, hcls⟩ := AppInstr.exists_cls he hc
        rw [ho, ← hcls]
        split
        next b hb => exact Opnd.isImmediate_of_cls hb
        next hb =>
          by_contra himm
          rcases Opnd.cls_of_isImmediate (by simpa using himm) with hother | ⟨b, hother⟩
          · rw [← hcls, hother] at hc
            cases hc
          · exact hb b hother
      · cases h
  | g sz r =>
    simp only [inst, isImm]
    split <;> rfl
  | mem p off b =>
    simp only [inst, isImm]
    cases e.instr.opnd p <;> rfl
  | slot r u b => rfl
  | _ => first | rfl | cases h

/-- Where an operand is written, and how much of it. -/
theorem TOpnd.write_inst {o : TOpnd} {l : Loc Role} {b : ℕ} {reg : Bool}
    (h : o.target? P = some (l, b, reg)) (legacy : Bool) (p : State)
    (t : Term (Loc Role) TOpnd VOp) :
    (o.inst e).bytes = b ∧ s.write legacy p (o.inst e) (e.value E s t) =
      s.put (update s.get (l.map e.vreg) (e.value E s (writtenTerm legacy reg l b t))) := by
  have hvec (w : VecWidth) (r : Role) :
      s.write legacy p (.vec w (e.vreg r)) (e.value E s t) = s.put (update s.get (.ymm (e.vreg r))
        (e.value E s (writtenTerm legacy true (.ymm r) w.bytes t))) := by
    rw [State.put_update_ymm]
    cases legacy <;> rfl
  cases o with
  | v w r =>
    cases h
    exact ⟨rfl, hvec w r⟩
  | app q =>
    rw [target?] at h
    split at h
    next w high hq =>
      cases h
      rw [inst, AppInstr.opnd_of_cls_vec (he ▸ hq)]
      exact ⟨rfl, hvec w (.op q)⟩
    · cases h
  | slot r u b' =>
    cases u with
    | false =>
      cases h
      exact ⟨rfl, (State.put_update_lo s (e.vreg r) _).symm⟩
    | true =>
      cases h
      exact ⟨rfl, (State.put_update_hi s (e.vreg r) _).symm⟩
  | _ => cases h

/-- The operands of an instruction have the values of their terms. -/
theorem TInsn.inputVals_inst {i : TInsn} (hquiet : i.op.quiet = true)
    {args : List (Term (Loc Role) TOpnd VOp)} (hargs : i.srcs.mapM (TOpnd.term? P) = some args) :
    (i.inst e).inputVals s = args.map (e.value E s) := by
  simp only [Op.quiet, Bool.and_eq_true, Bool.not_eq_true', bne_iff_ne, ne_eq] at hquiet
  obtain ⟨⟨-, hkeeps⟩, hlea⟩ := hquiet
  have hinputs : (i.inst e).inputs = i.srcs.map (TOpnd.inst e) := by
    rw [Insn.inputs, Insn.readsDst_eq_false hkeeps]
    rfl
  have hval (o : Opnd) : (i.inst e).operandVal s o = s.read (i.inst e).indexBytes o := by
    unfold Insn.operandVal
    split
    next hop => exact absurd hop hlea
    · rfl
  rw [Insn.inputVals, hinputs, List.map_map, ← map_eq_of_mapM (fun o t ho ↦ ?_) hargs]
  rw [Function.comp_apply, hval, TOpnd.read_inst he E s ho]

/-- An instruction that is an assignment has the effect of the assignment. -/
theorem TInsn.effect_inst {i : TInsn} {l : Loc Role} {t : Term (Loc Role) TOpnd VOp}
    (h : i.assign? P = some (l, t)) :
    (i.inst e).effect E s = s.put (update s.get (l.map e.vreg) (e.value E s t)) := by
  unfold assign? at h
  split at h
  case isFalse => cases h
  case isTrue hop =>
  rw [Bool.and_eq_true] at hop
  obtain ⟨hquiet, hyields⟩ := hop
  split at h
  case h_2 => cases h
  case h_1 d hdsts =>
  simp only [Option.bind_eq_some_iff, Option.map_eq_some_iff, Prod.mk.injEq] at h
  obtain ⟨⟨l, n, reg⟩, htarget, args, hargs, u, hterm, rfl, rfl⟩ := h
  obtain ⟨hbytes, hwrite⟩ := TOpnd.write_inst he E s htarget i.op.legacySse s u
  have hlength : i.srcs.length = args.length := by
    simpa using congrArg List.length
      (map_eq_of_mapM (f := fun _ ↦ ()) (g := fun _ ↦ ()) (fun _ _ _ ↦ rfl) hargs)
  -- the one result of the instruction
  have hbytes' : (i.inst e).bytes = n := by
    rw [Insn.bytes, inst, hdsts]
    exact hbytes
  have himm : ((i.inst e).srcs.head?.map Opnd.isImmediate).getD false =
      (i.srcs.head?.map (TOpnd.isImm P)).getD false := by
    rw [inst]
    rcases hsrcs : i.srcs with _ | ⟨o, os⟩
    · rfl
    · rw [hsrcs, List.mapM_cons] at hargs
      obtain ⟨a, ha, -⟩ := Option.bind_eq_some_iff.mp hargs
      exact TOpnd.isImmediate_inst he ha
  have houtputs : (i.inst e).outputs E s = [e.value E s u] := by
    rw [Insn.outputs, hbytes', himm, TInsn.inputVals_inst he E s hquiet hargs,
      Op.value_term? E s hterm]
    exact Op.values_of_yields (by rwa [List.length_map, ← hlength]) E _ _ _
  have hflags : (i.inst e).op.setsFlags = false := by
    simp only [Op.quiet, Bool.and_eq_true, Bool.not_eq_true'] at hquiet
    exact hquiet.1.1
  rw [← hwrite, Insn.effect, houtputs, hflags]
  simp only [inst, hdsts, Insn.writeAll, List.map_cons, List.map_nil, List.zip_cons_cons,
    List.zip_nil_left, Bool.false_eq_true, if_false]
  rfl

omit he in
/-- An assignment is no jump. -/
theorem TInsn.jumpsTo_inst {i : TInsn} {a : Loc Role × Term (Loc Role) TOpnd VOp}
    (h : i.assign? P = some a) (fl : Flags) : (i.inst e).jumpsTo fl = none := by
  unfold assign? at h
  split at h
  case isFalse => cases h
  case isTrue hop =>
  rw [Bool.and_eq_true] at hop
  unfold Insn.jumpsTo
  split
  next hjmp _ =>
    rw [show i.op = .jmp from hjmp] at hop
    cases hop.2
  next c _ hjcc _ =>
    rw [show i.op = .jcc c from hjcc] at hop
    cases hop.2
  · rfl

end Soundness

/-! ## Whole templates -/

section Bodies

variable {e : Env} {P : Profile} (he : e.instr.cls = P) {body : List TInsn}
  {prog : Prog (Loc Role) TOpnd VOp} (hprog : body.mapM (TInsn.assign? P) = some prog)
include he hprog

/-- A body made of assignments does what they do, and nothing else. -/
theorem effects_of_assigns (E : Ext) (s : State) :
    effects E (body.map (TInsn.inst e)) s =
      s.put ((prog.map (Loc.map e.vreg)).exec (symAlgebra E e s) s.get) := by
  induction body generalizing prog s with
  | nil =>
    simp only [List.mapM_nil, Option.pure_def, Option.some.injEq] at hprog
    subst hprog
    rfl
  | cons i body ih =>
    simp only [List.mapM_cons, Option.bind_eq_bind, Option.bind_eq_some_iff, Option.pure_def,
      Option.some.injEq] at hprog
    obtain ⟨⟨l, t⟩, hi, rest, hrest, rfl⟩ := hprog
    rw [List.map_cons, effects, List.foldl_cons, TInsn.effect_inst he E s hi]
    exact (ih hrest _).trans (by rw [State.get_put, symAlgebra_put, State.put_put]; rfl)

end Bodies

end DrAvx
