import DrAvx.Machine.Vector
import DrAvx.Rewrite.Gen

/-!
# Templates made of assignments

A template whose instructions are assignments between vector locations is a straight-line program
over the locations of roles.  Its effect does not depend on which registers play the roles, but only
on which roles are played by the same register: `exec_body` reads it off one symbolic run.
-/

set_option autoImplicit false

namespace DrAvx

open Straight

/-! ## Instructions of templates as assignments -/

/-- A translation that keeps what `p` recognises keeps it along a list. -/
theorem mapM_map_of_forall {α β γ δ : Type} {p : α → Option β} {q : γ → Option δ} {f : α → γ}
    {g : β → δ} (h : ∀ a b, p a = some b → q (f a) = some (g b)) {as : List α} {bs : List β}
    (has : as.mapM p = some bs) : (as.map f).mapM q = some (bs.map g) := by
  induction as generalizing bs with
  | nil =>
    simp only [List.mapM_nil, Option.pure_def, Option.some.injEq] at has
    subst has
    rfl
  | cons a as ih =>
    simp only [List.mapM_cons, Option.bind_eq_bind, Option.bind_eq_some_iff, Option.pure_def,
      Option.some.injEq] at has
    obtain ⟨b, hb, bs, hbs, rfl⟩ := has
    simp [h a b hb, ih hbs]

/-- The location of a role an operand of a template names, if it is one of 256 bits. -/
def TOpnd.loc? : TOpnd → Option (Loc Role)
  | v .ymm r => some (.ymm r)
  | slot r false 32 => some (.lo r)
  | slot r true 32 => some (.hi r)
  | _ => none

/-- The assignment an instruction of a template stands for, if it is one. -/
def TInsn.asg? (i : TInsn) : Option (Asg (Loc Role) Op) :=
  (i.dsts.mapM TOpnd.loc?).bind fun ds ↦ (i.srcs.mapM TOpnd.loc?).bind fun ss ↦ i.op.asg? ds ss

section Inst

variable (e : Env)

theorem TOpnd.loc?_inst {o : TOpnd} {l : Loc Role} (h : o.loc? = some l) :
    (o.inst e).loc? = some (l.map e.vreg) := by
  unfold loc? at h
  split at h <;> first | cases h; rfl | cases h

theorem TInsn.asg?_inst {i : TInsn} {a : Asg (Loc Role) Op} (h : i.asg? = some a) :
    (i.inst e).asg? = some (a.map (Loc.map e.vreg)) := by
  simp only [asg?, Option.bind_eq_some_iff] at h
  obtain ⟨ds, hds, ss, hss, h⟩ := h
  have hmap {os : List TOpnd} {ls : List (Loc Role)} (h : os.mapM TOpnd.loc? = some ls) :
      (os.map (TOpnd.inst e)).mapM Opnd.loc? = some (ls.map (Loc.map e.vreg)) :=
    mapM_map_of_forall (fun _ _ ↦ TOpnd.loc?_inst e) h
  rw [Insn.asg?, inst, hmap hds, hmap hss, Option.bind_some, Option.bind_some, Op.asg?_map, h]
  rfl

theorem mapM_asg?_inst {body : List TInsn} {asgs : List (Asg (Loc Role) Op)}
    (h : body.mapM TInsn.asg? = some asgs) :
    (body.map (TInsn.inst e)).mapM Insn.asg? = some (asgs.map (Asg.map (Loc.map e.vreg))) :=
  mapM_map_of_forall (fun _ _ ↦ TInsn.asg?_inst e) h

end Inst

end DrAvx
