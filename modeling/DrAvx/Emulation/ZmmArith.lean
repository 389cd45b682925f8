import DrAvx.Emulation.Pattern
import DrAvx.Handlers.Arith

/-!
# 512-bit arithmetic
-/

set_option autoImplicit false

namespace DrAvx

open Straight

/-- Where the low half of an emulated register is kept. -/
def home (high : Role → Bool) (r : Role) : Loc Role := if high r then .lo r else .ymm r

/-- The symbolic run of the template leaves the result in the two halves of the destination, and
every other register that takes part as it was. -/
def Template.RunsTo (T : Template) (p : Pattern) (op : Op) (asgs : List (Asg (Loc Role) Op)) : Prop :=
  let lower := home (p.profile .zmm).high
  (p.out asgs (lower d0) = .bin op (p.var (lower s1)) (p.var (lower s2)) ∧
    p.out asgs (.hi d0) = .bin op (p.var (.hi s1)) (p.var (.hi s2))) ∧
  ∀ r ∈ rolesBefore T.vecs.length, p.rep r ≠ p.rep d0 →
    p.out asgs (lower r) = p.var (lower r) ∧ p.out asgs (.hi r) = p.var (.hi r)

/-- The template computes the operation, for every three registers of the pattern. -/
def Template.Computes (T : Template) (p : Pattern) (op : Op) : Prop :=
  T.fits (p.profile .zmm) = true ∧ T.Separates p ∧
  (∀ i ∈ T.body, i.rated (p.profile .zmm) T.gprs.length = true) ∧
  (∀ i ∈ T.body, i.legal (p.profile .zmm) = true) ∧
  ∃ asgs, T.body.mapM TInsn.asg? = some asgs ∧
    (∀ c ∈ asgs, ∀ l ∈ c.locs, l.reg ∈ rolesBefore T.vecs.length) ∧ T.RunsTo p op asgs

instance (T : Template) (p : Pattern) (op : Op) (asgs : List (Asg (Loc Role) Op)) :
    Decidable (T.RunsTo p op asgs) := by
  unfold Template.RunsTo
  infer_instance

instance (T : Template) (p : Pattern) (op : Op) : Decidable (T.Computes p op) :=
  match h : T.body.mapM TInsn.asg? with
  | none => isFalse fun ⟨_, _, _, _, _, h', _⟩ ↦ by simp [h] at h'
  | some asgs => decidable_of_iff (T.fits (p.profile .zmm) = true ∧ T.Separates p ∧
      (∀ i ∈ T.body, i.rated (p.profile .zmm) T.gprs.length = true) ∧
      (∀ i ∈ T.body, i.legal (p.profile .zmm) = true) ∧
      (∀ c ∈ asgs, ∀ l ∈ c.locs, l.reg ∈ rolesBefore T.vecs.length) ∧ T.RunsTo p op asgs)
      (by simp [Template.Computes, h])

/-- The generator ends up with a template that computes the operation. -/
def Gen.Computes (g : Gen) (p : Pattern) (op : Op) : Prop :=
  match g.eval p.answer with
  | .chain 1 true T => T.Computes p op
  | _ => False

instance (g : Gen) (p : Pattern) (op : Op) : Decidable (g.Computes p op) := by
  unfold Gen.Computes
  split <;> infer_instance

/-! ## Soundness -/

section Soundness

variable {d a b : VReg} {z : Bool} {T : Template} {e : Env}

/-- The low half of an emulated register is at its home. -/
theorem get_home (h : T.env? (instr3 .zmm d a b z) = some e) (s : State) (r : Role) :
    s.get ((home ((Pattern.of d a b).profile .zmm).high r).map e.vreg) = s.zmmLo (e.vreg r) := by
  obtain ⟨hi, hpool, -⟩ := Template.env?_spec h
  rw [← profile_instr3 .zmm d a b z, ← hi, home, ← Env.high_vreg hpool, State.zmmLo]
  split <;> rfl

theorem reg_home (high : Role → Bool) (r : Role) : (home high r).reg = r := by
  unfold home
  split <;> rfl

/-- What a template that computes an operation does to the two halves of the registers. -/
theorem Template.Computes.exec {op : Op} (hT : T.Computes (Pattern.of d a b) op) :
    ∃ code, T.emit (instr3 .zmm d a b z) = some code ∧ ∀ (E : Ext) (s : State),
      ∃ σ, Exec E code s (s.put σ) ∧ (s.put σ).hi d = op.alu E (s.hi a) (s.hi b) ∧
        (s.put σ).zmmLo d = op.alu E (s.zmmLo a) (s.zmmLo b) ∧
        ∀ r ≠ d, (s.put σ).zmm r = s.zmm r := by
  obtain ⟨hfits, hsep, hrated, hlegal, asgs, hasgs, hlocs, ⟨hlower, hupper⟩, hothers⟩ := hT
  rw [← profile_instr3 .zmm d a b z] at hfits
  obtain ⟨e, he⟩ := Template.exists_env hfits
  have hi := (Template.env?_spec he).1
  obtain ⟨h1, h2, hd⟩ := vreg_operands hi
  refine ⟨_, by rw [Template.emit, he]; rfl, fun E s ↦ ?_⟩
  obtain ⟨σ, hexec, hrole, hrest⟩ := exec_body he hsep hasgs hrated hlegal hlocs E s
  have hvar (l : Loc Role) := eval_var hi E s l
  have hmem : d0 ∈ rolesBefore T.vecs.length := by simp [rolesBefore]
  refine ⟨σ, hexec, ?_, ?_, fun r hr ↦ ?_⟩
  · have := hrole (.hi d0) hmem
    rw [hupper, Expr.eval, hvar, hvar] at this
    simp only [Loc.map, h1, h2, hd] at this
    exact this
  · have := hrole (home ((Pattern.of d a b).profile .zmm).high d0) (by rwa [reg_home])
    rwa [hlower, Expr.eval, hvar, hvar, get_home he, get_home he, ← State.get_put s σ, get_home he,
      h1, h2, hd] at this
  · by_cases hplayed : ∃ q ∈ rolesBefore T.vecs.length, e.vreg q = r
    · obtain ⟨q, hq, rfl⟩ := hplayed
      have hne : (Pattern.of d a b).rep q ≠ (Pattern.of d a b).rep d0 := by
        intro heq
        rw [← vreg_rep hi, heq, vreg_rep hi] at hr
        exact hr hd
      obtain ⟨hlo, hhi⟩ := hothers q hq hne
      have hlo' := hrole (home ((Pattern.of d a b).profile .zmm).high q) (by rwa [reg_home])
      have hhi' := hrole (.hi q) hq
      rw [hlo, hvar, get_home he, ← State.get_put s σ, get_home he] at hlo'
      rw [hhi, hvar] at hhi'
      exact congrArg₂ (· ++ ·) hhi' hlo'
    · push Not at hplayed
      have hkeep (l : Loc VReg) (hl : l.reg = r) : σ l = s.get l :=
        hrest l fun q hq ↦ hl ▸ hplayed q hq
      rw [State.zmm, State.zmm, State.zmmLo, State.zmmLo]
      exact congrArg₂ (· ++ ·) (hkeep (.hi r) rfl)
        (by split; exacts [hkeep (.lo r) rfl, hkeep (.ymm r) rfl])

theorem Gen.Computes.run {g : Gen} {op : Op} (h : g.Computes (Pattern.of d a b) op)
    (hg : g.asksOnly (patternQueries .zmm) = true) (c : Context) :
    ∃ T : Template, T.Computes (Pattern.of d a b) op ∧ g.run c (instr3 .zmm d a b z) =
      (Leaf.chain 1 true T).run (instr3 .zmm d a b z) := by
  rw [Gen.run, Decision.Tree.eval_congr (answer_instr3 c .zmm d a b z) hg]
  unfold Computes at h
  split at h
  next T hT => exact ⟨T, h, by rw [hT]⟩
  · cases h

end Soundness

/-! ## The generators -/

/-- Every pattern leads to a template that computes the operation. -/
theorem zmmArithGen_computes : ∀ op ∈ [Op.vpaddq, .vpsubq, .vpaddd, .vpxor],
    ∀ h1 h2 hd e12 e1 e2 : Bool, (Pattern.mk h1 h2 hd e12 e1 e2).consistent = true →
      (zmmArithGen op).Computes ⟨h1, h2, hd, e12, e1, e2⟩ op := by
  decide +kernel

theorem zmmArithGen_asksOnly (op : Op) : (zmmArithGen op).asksOnly (patternQueries .zmm) = true := by
  rfl

/-- The code a generator emits computes `f` on emulated registers: for any three registers the
generator returns a chain, which runs to its end, leaves the result in the destination and
everything else that the application can see as it was. -/
def Gen.Emulates (g : Gen) (f : BitVec 512 → BitVec 512 → BitVec 512) : Prop :=
  ∀ (c : Context) (d a b : VReg) (z : Bool), ∃ code,
    g.run c (instr3 .zmm d a b z) = .chain 1 true code ∧ ∀ (E : Ext) (s : State), ∃ t,
      Exec E code s t ∧ t.zmm d = f (s.zmm a) (s.zmm b) ∧ (∀ r ≠ d, t.zmm r = s.zmm r) ∧
      t.kslot = s.kslot ∧ t.gpr = s.gpr ∧ t.flags = s.flags ∧ t.mem = s.mem

/-- A generator of 512-bit arithmetic emulates what its opcode does to the two halves. -/
theorem zmmArithGen_emulates {op : Op} (hop : op ∈ [Op.vpaddq, .vpsubq, .vpaddd, .vpxor])
    {f : BitVec 512 → BitVec 512 → BitVec 512} (hf : ∀ (E : Ext) (h h' l l' : BitVec 256),
      f (h ++ l) (h' ++ l') = op.alu E h h' ++ op.alu E l l') : (zmmArithGen op).Emulates f := by
  intro c d a b z
  have hg : (zmmArithGen op).Computes (Pattern.of d a b) op :=
    zmmArithGen_computes op hop _ _ _ _ _ _ (Pattern.consistent_of d a b)
  obtain ⟨T, hT, hrun⟩ := hg.run (z := z) (zmmArithGen_asksOnly op) c
  obtain ⟨code, hcode, hexec⟩ := hT.exec (z := z)
  refine ⟨code, by rw [hrun, Leaf.run, hcode], fun E s ↦ ?_⟩
  obtain ⟨σ, hend, hhi, hlo, hothers⟩ := hexec E s
  refine ⟨s.put σ, hend, ?_, hothers, rfl, rfl, rfl, rfl⟩
  rw [State.zmm, hhi, hlo, ← hf]
  rfl

/-- The 512-bit additions, subtraction and exclusive or are emulated lane by lane, whatever the
registers. -/
theorem zmmGens_emulate :
    vpaddqZmmRegRegGen.Emulates (Bits.zipLanes 64 (· + ·)) ∧
    vpsubqZmmAndZmmGen.Emulates (Bits.zipLanes 64 (· - ·)) ∧
    vpadddZmmAndZmmGen.Emulates (Bits.zipLanes 32 (· + ·)) ∧
    vpxorqZmmAndZmmGen.Emulates (· ^^^ ·) := by
  refine ⟨zmmArithGen_emulates (by simp) fun E h h' l l' ↦ ?_,
    zmmArithGen_emulates (by simp) fun E h h' l l' ↦ ?_,
    zmmArithGen_emulates (by simp) fun E h h' l l' ↦ ?_,
    zmmArithGen_emulates (by simp) fun E h h' l l' ↦ ?_⟩
  · exact Bits.zipLanes_append (by decide) _ h h' l l' (by decide) (by decide)
  · exact Bits.zipLanes_append (by decide) _ h h' l l' (by decide) (by decide)
  · exact Bits.zipLanes_append (by decide) _ h h' l l' (by decide) (by decide)
  · exact BitVec.xor_append

end DrAvx
