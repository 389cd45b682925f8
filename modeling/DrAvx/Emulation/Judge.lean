import DrAvx.Emulation.Writes
import DrAvx.Rewrite.Rename

/-!
# Judging generators

Whether a generator is right about an instruction can be found out by running the code once on
symbols, for each way in which the operands can coincide with one another and with the scratch
registers: `Gen.judge` runs it and compares.  Where the terms differ, the values are compared in one
particular state, so that the verdict is either that the generator is right or that it is wrong.
`Gen.writes_iff` carries a verdict over to all instructions that differ by a renaming.
-/

set_option autoImplicit false

namespace DrAvx

open Straight Function

/-! ## Terms for a register -/

/-- A term for each half of a register. -/
abbrev Halves := Term (Loc VReg) TOpnd VOp × Term (Loc VReg) TOpnd VOp

/-- The value of the halves when the locations are renamed. -/
def Halves.value {fixed : List VReg} (t : Halves) (w : VecWidth) (E : Ext) (e : Env)
    (π : Renaming fixed) (s : State) : BitVec (8 * w.bytes) :=
  w.assemble (t.1.eval (symAlgebra E e s) (s.get ∘ Loc.map π))
    (t.2.eval (symAlgebra E e s) (s.get ∘ Loc.map π))

theorem map_homeOf {fixed : List VReg} (π : Renaming fixed) (r : VReg) :
    (homeOf r).map π = homeOf (π r) := by
  rw [homeOf, homeOf, π.high_apply]
  split <;> rfl

/-! ## Symbolic runs of templates -/

/-- The profile knows which register plays the role, or it is a scratch register that is fixed. -/
def Role.known (fixed : List VReg) (P : Profile) (n : ℕ) : Role → Bool
  | op p => match P p with
    | .vec _ _ => true
    | _ => false
  | index _ => false
  | t m => m < n
  | spill m => fixed.contains (Fin.ofNat 32 (10 + m))

def Role.isIndex : Role → Bool
  | index _ => true
  | _ => false

/-- The template can be run on symbols. -/
def Template.known (T : Template) (i : AppInstr) : Bool :=
  T.fits i.cls && T.body.all (TInsn.rated i.cls T.gprs.length) &&
    [Pos.d0, .d1, .s0, .s1, .s2, .s3].all fun p ↦ (i.cls p).ordinary

/-- The run of a template on symbols, in terms of the registers of the instruction. -/
def Template.symRun? (fixed : List VReg) (T : Template) (i : AppInstr) :
    Option (Store (Loc VReg) TOpnd VOp) :=
  (findVecs i T.vecs []).bind fun vecs ↦ (T.body.mapM (TInsn.assign? i.cls)).bind
    fun (prog : Prog (Loc Role) TOpnd VOp) ↦
      if prog.all fun l ↦ l.reg.known fixed i.cls vecs.length then
        some (symRun (symBuilder _) (prog.map (Loc.map (Env.mk i vecs []).vreg)) [])
      else none

/-- The scratch registers of the template are found among those that are fixed. -/
def Template.scans (fixed : List VReg) (T : Template) (i : AppInstr) : Bool :=
  T.vecs.all (fun avoid ↦ avoid.all fun a ↦ !a.isIndex) &&
    (findVecs i T.vecs []).all fun vecs ↦ vecs.all (reachesFixed fixed)

section Runs

variable {fixed : List VReg} {T : Template} {π : Renaming fixed} {i i' : AppInstr} {e : Env}
  {τ : Store (Loc VReg) TOpnd VOp}

theorem mem_spillPool_of_findVecs {avoids : List (List Role)} {vecs : List VReg}
    (h : findVecs i avoids [] = some vecs) {r : VReg} (hr : r ∈ vecs) : r ∈ spillPool := by
  obtain ⟨hlen, -, hspec⟩ := findVecs_spec h
  rw [List.length_nil, Nat.zero_add] at hlen
  obtain ⟨n, hn, rfl⟩ := List.mem_iff_getElem.mp hr
  obtain ⟨r, hr, hpool, -⟩ := hspec n (hlen ▸ hn)
  simp only [List.length_nil, Nat.zero_add, List.getElem?_eq_getElem hn, Option.some.injEq] at hr
  exact hr ▸ hpool

theorem mem_fixed_of_reachesFixed {r : VReg} (hr : r ∈ spillPool)
    (h : reachesFixed fixed r = true) : r ∈ fixed := by
  simpa using List.all_eq_true.mp h r hr

/-- Renaming the registers of the instruction and the scratch registers renames those in the roles. -/
theorem vreg_like (hlike : i.Like π i') (vecs : List VReg) (gprs : List Gpr) {r : Role}
    (hr : r.known fixed i.cls vecs.length = true) :
    (Env.mk i' (vecs.map π) gprs).vreg r = π ((Env.mk i vecs []).vreg r) := by
  cases r with
  | op p =>
    rw [Role.known] at hr
    split at hr
    next w high hp => exact hlike.vreg p w high hp
    · cases hr
  | index p => cases hr
  | t m =>
    have hm : m < vecs.length := by simpa [Role.known] using hr
    simp [Env.vreg, hm]
  | spill m =>
    have hkept : Fin.ofNat 32 (10 + m) ∈ fixed := by simpa [Role.known] using hr
    exact (π.keeps _ hkept).symm

/-- The scratch registers of the renamed instruction are the renamed scratch registers. -/
def Template.Moves (T : Template) (π : Renaming fixed) (i i' : AppInstr) : Prop :=
  ∀ vecs, findVecs i T.vecs [] = some vecs → findVecs i' T.vecs [] = some (vecs.map π)

theorem Template.moves_of_scans (hlike : i.Like π i') (h : T.scans fixed i = true) :
    T.Moves π i i' := by
  intro vecs hvecs
  simp only [scans, Bool.and_eq_true, List.all_eq_true, Bool.not_eq_true', hvecs,
    Option.all_some] at h
  obtain ⟨hindex, hreaches⟩ := h
  have hkeep : vecs.map π = vecs := by
    refine (List.map_congr_left fun r hr ↦ ?_).trans vecs.map_id
    exact π.keeps r (mem_fixed_of_reachesFixed (mem_spillPool_of_findVecs hvecs hr) (hreaches r hr))
  rw [hkeep]
  refine findVecs_like hlike ?_ hvecs hreaches
  rintro avoid havoid _ ha p rfl
  cases hindex avoid havoid _ ha

variable (hlike : i.Like π i')
include hlike

/-- The registers that are found for the renamed instruction. -/
theorem Template.exists_env_like (hT : T.known i = true) (hτ : T.symRun? fixed i = some τ)
    (hmoves : T.Moves π i i') : ∃ e vecs, T.env? i' = some e ∧ e.instr = i' ∧
      findVecs i T.vecs [] = some vecs ∧ e.vecs = vecs.map π := by
  simp only [known, Bool.and_eq_true] at hT
  obtain ⟨⟨hfits, -⟩, -⟩ := hT
  obtain ⟨vecs, hvecs, -⟩ := Option.bind_eq_some_iff.mp hτ
  obtain ⟨e, he⟩ := Template.exists_env (T := T) (i := i') (by rwa [hlike.cls])
  refine ⟨e, vecs, he, (Template.env?_spec he).1, hvecs, ?_⟩
  simp only [env?, hmoves vecs hvecs, Option.bind_some, Option.map_eq_some_iff] at he
  obtain ⟨gprs, -, rfl⟩ := he
  rfl

/-- What the template does to the renamed registers, read off its run on symbols. -/
theorem Template.effects_symRun? (hi : e.instr = i') {vecs : List VReg}
    (hvecs : findVecs i T.vecs [] = some vecs) (he : e.vecs = vecs.map π)
    (hτ : T.symRun? fixed i = some τ) (E : Ext) (s : State) :
    ∃ σ, effects E (T.body.map (TInsn.inst e)) s = s.put σ ∧ ∀ l : Loc VReg,
      σ (l.map π) = (τ.get l).eval (symAlgebra E e s) (s.get ∘ Loc.map π) := by
  simp only [symRun?, hvecs, Option.bind_some, Option.bind_eq_some_iff] at hτ
  obtain ⟨prog, hprog, hτ⟩ := hτ
  split at hτ
  case isFalse => cases hτ
  case isTrue hknown =>
  obtain rfl := Option.some.inj hτ
  have hcls : e.instr.cls = i.cls := by rw [hi, hlike.cls]
  refine ⟨_, effects_of_assigns hcls hprog E s, fun l ↦ ?_⟩
  -- the program over roles, first with the registers of `i`, then renamed
  have hmap : Prog.map (Loc.map e.vreg) prog =
      (Prog.map (Loc.map (Env.mk i vecs []).vreg) prog).map (Loc.map π) := by
    rw [Prog.map_map]
    refine Prog.map_congr (fun m hm ↦ ?_) hknown
    obtain ⟨instr, vecs', gprs⟩ := e
    obtain rfl : instr = i' := hi
    obtain rfl : vecs' = vecs.map π := he
    cases m <;> exact congrArg _ (vreg_like hlike vecs gprs hm)
  have hinj : Injective (Loc.map π) := fun a b hab ↦
    Loc.injOn_map (S := Set.univ) π.injective.injOn (Set.mem_univ _) (Set.mem_univ _) hab
  rw [hmap, Prog.exec_map _ hinj, ← exec_symRun (symBuilder_sound E e s)]
  rfl

theorem Template.legal_like (hT : T.known i = true) (he : T.env? i' = some e) :
    (T.body.map (TInsn.inst e)).all Insn.legal = T.body.all (TInsn.legal i.cls) := by
  obtain ⟨hi, hpool, -⟩ := Template.env?_spec he
  simp only [known, Bool.and_eq_true, List.all_eq_true] at hT
  obtain ⟨⟨-, hrated⟩, hordinary⟩ := hT
  have hcls : e.instr.cls = i.cls := by rw [hi, hlike.cls]
  have hord (p : Pos) : (e.instr.cls p).ordinary = true := by
    rw [hcls]
    exact hordinary p (by cases p <;> simp)
  rw [List.all_map, Bool.eq_iff_iff, List.all_eq_true, List.all_eq_true]
  refine forall₂_congr fun j hj ↦ ?_
  rw [comp_apply, TInsn.legal_inst hpool hord (by
    rw [hcls, Template.length_gprs he]
    exact hrated j hj), hcls]

omit hlike in
theorem Template.jumpsTo_of_symRun? (hτ : T.symRun? fixed i = some τ) (e : Env) :
    ∀ j ∈ T.body.map (TInsn.inst e), ∀ fl, j.jumpsTo fl = none := by
  simp only [symRun?, Option.bind_eq_some_iff] at hτ
  obtain ⟨-, -, prog, hprog, -⟩ := hτ
  intro j hj fl
  obtain ⟨k, hk, rfl⟩ := List.mem_map.mp hj
  obtain ⟨a, ha⟩ := exists_of_mapM hprog hk
  exact TInsn.jumpsTo_inst ha fl

end Runs

/-! ## Comparing terms -/

/-- The value of an input in the blank state, as far as it is known. -/
def TOpnd.blankVal : TOpnd → Val
  | imm x _ => BitVec.ofInt 256 x
  | _ => 0

/-- The value of the input in the blank state is known. -/
def TOpnd.blank (P : Profile) : TOpnd → Bool
  | app p => match P p with
    | .gpr _ => true
    | _ => false
  | g _ _ | imm _ _ => true
  | _ => false

theorem Opnd.read_blank_gpr (n : ℕ) (sz : GprSize) (r : Gpr) : State.blank.read n (.gpr sz r) = 0 := by
  cases sz <;> rfl

theorem TOpnd.read_blank {P : Profile} {e : Env} (he : e.instr.cls = P) {o : TOpnd}
    (h : o.blank P = true) : State.blank.read 4 (o.inst e) = o.blankVal := by
  cases o with
  | g sz r =>
    rw [inst]
    split
    · exact Opnd.read_blank_gpr 4 sz _
    · rfl
  | app p =>
    rw [blank] at h
    split at h
    next sz hp =>
      obtain ⟨o, ho, hcls⟩ := AppInstr.exists_cls he (p := p) (by rw [hp]; rfl)
      rw [inst, ho]
      rw [hp] at hcls
      cases o with
      | gpr sz' r => exact Opnd.read_blank_gpr 4 sz' r
      | mem o m b => rcases m with ⟨_, _, _ | _ | _, _, _⟩ | _ | _ <;> cases hcls
      | imm v b => rcases Opnd.cls_imm_or v b with h | h <;> rw [h] at hcls <;> cases hcls
      | _ => cases hcls
    · cases h
  | imm x b => rfl
  | _ => cases h

namespace Halves

/-- The initial contents of a register. -/
def ofReg (r : VReg) : Halves := (.var (homeOf r), .var (.hi r))

/-- What a symbolic run has left in a register. -/
def ofStore (τ : Store (Loc VReg) TOpnd VOp) (r : VReg) : Halves := (τ.get (homeOf r), τ.get (.hi r))

/-- The same terms without superfluous truncations. -/
def simplify (t : Halves) : Halves := (t.1.subst (symBuilder _) .var, t.2.subst (symBuilder _) .var)

/-- The terms are the same as far as the width reaches. -/
def agree (w : VecWidth) (t u : Halves) : Bool :=
  lowTerm w.lowBytes t.1 == lowTerm w.lowBytes u.1 && (w != .zmm || t.2 == u.2)

/-- What terms mean in the blank state, with no opcode left to a parameter. -/
def probeAlgebra : Algebra TOpnd VOp Val := { symAlgebra .blank ⟨⟨[], [], false⟩, [], []⟩ .blank with
  inp := TOpnd.blankVal }

/-- The terms have different values when the locations have the given ones and the inputs, which have
to be known, the ones of the blank state. -/
def differ (P : Profile) (w : VecWidth) (σ : Loc VReg → Val) (t u : Halves) : Bool :=
  (t.1.inputs (TOpnd.blank P) && u.1.inputs (TOpnd.blank P) &&
    low w.lowBytes (t.1.eval probeAlgebra σ) != low w.lowBytes (u.1.eval probeAlgebra σ)) ||
  (w == .zmm && t.2.inputs (TOpnd.blank P) && u.2.inputs (TOpnd.blank P) &&
    t.2.eval probeAlgebra σ != u.2.eval probeAlgebra σ)

variable {fixed : List VReg} {w : VecWidth} {t u : Halves} (E : Ext) (e : Env) (π : Renaming fixed)
  (s : State)

theorem value_ofReg (r : VReg) : (ofReg r).value w E e π s = s.vec w (π r) := by
  rw [State.vec_eq, ← map_homeOf]
  rfl

theorem value_ofStore {τ : Store (Loc VReg) TOpnd VOp} {σ : Loc VReg → Val}
    (hσ : ∀ l : Loc VReg, σ (l.map π) = (τ.get l).eval (symAlgebra E e s) (s.get ∘ Loc.map π))
    (r : VReg) : (s.put σ).vec w (π r) = (ofStore τ r).value w E e π s := by
  rw [← value_ofReg E e π (s.put σ) r, value, value, State.get_put]
  simp only [ofReg, Term.eval, ofStore, comp_apply, hσ]

theorem value_simplify : t.simplify.value w E e π s = t.value w E e π s := by
  rw [value, value, simplify, Term.eval_subst (symBuilder_sound E e s),
    Term.eval_subst (symBuilder_sound E e s)]
  rfl

theorem value_eq_of_agree (h : agree w t u = true) : t.value w E e π s = u.value w E e π s := by
  rw [agree, Bool.and_eq_true, beq_iff_eq] at h
  obtain ⟨hlow, hhi⟩ := h
  rw [value, value, VecWidth.assemble_eq_iff, ← eval_lowTerm, ← eval_lowTerm, hlow]
  refine ⟨rfl, fun hw ↦ ?_⟩
  obtain hhi : t.2 = u.2 := by simpa [hw] using hhi
  rw [hhi]

theorem value_ne_of_differ {P : Profile} (he : e.instr.cls = P) {σ : Loc VReg → Val}
    (h : differ P w σ t u = true) (hσ : s.get ∘ Loc.map π = σ)
    (hs : s.put (fun _ ↦ 0) = .blank) : t.value w .blank e π s ≠ u.value w .blank e π s := by
  have heval {x : Term (Loc VReg) TOpnd VOp} (hx : x.inputs (TOpnd.blank P) = true) :
      x.eval (symAlgebra .blank e s) σ = x.eval probeAlgebra σ := by
    refine Term.eval_congr (fun o ho ↦ ?_) ?_ ?_ σ hx
    · exact (congrArg (State.read · 4 (o.inst e)) hs).trans (TOpnd.read_blank he ho)
    · rfl
    · rfl
  rw [Ne, value, value, VecWidth.assemble_eq_iff, hσ]
  rintro ⟨hlow, hhi⟩
  simp only [differ, Bool.or_eq_true, Bool.and_eq_true, bne_iff_ne, beq_iff_eq] at h
  rcases h with ⟨⟨ht, hu⟩, hne⟩ | ⟨⟨⟨hw, ht⟩, hu⟩, hne⟩
  · rw [heval ht, heval hu] at hlow
    exact hne hlow
  · have heq := hhi hw
    rw [heval ht, heval hu] at heq
    exact hne heq

end Halves

/-! ## Verdicts -/

/-- What a comparison can find out. -/
inductive Verdict
  | right | wrong | unknown
  deriving DecidableEq

/-- Compares the result of a symbolic run with the result that is wanted in `d`; `σ` is the state to
look at where the terms differ. -/
def judgeStore (P : Profile) (τ : Store (Loc VReg) TOpnd VOp) (w : VecWidth) (u : Option VecWidth)
    (d : VReg) (want : Halves) (σ : Loc VReg → Val) : Verdict :=
  if Halves.agree w (.ofStore τ d) want.simplify && u.all fun v ↦ τ.all fun a ↦
      a.1.reg == d || Halves.agree v (.ofStore τ a.1.reg) (.ofReg a.1.reg) then .right
  else if Halves.differ P w σ (.ofStore τ d) want || u.any fun v ↦ τ.any fun a ↦
      a.1.reg != d && Halves.differ P v σ (.ofStore τ a.1.reg) (.ofReg a.1.reg) then .wrong
  else .unknown

/-- Judges a template by its run on symbols. -/
def Template.judge (fixed : List VReg) (T : Template) (i : AppInstr) (w : VecWidth)
    (u : Option VecWidth) (d : VReg) (want : Halves) (σ : Loc VReg → Val) : Verdict :=
  if T.known i then
    match T.symRun? fixed i with
    | none => .unknown
    | some τ => if T.body.all (TInsn.legal i.cls) then judgeStore i.cls τ w u d want σ else .wrong
  else .unknown

/-- The template of a chain. -/
def Leaf.template? : Leaf → Option Template
  | .chain _ _ T => some T
  | _ => none

/-- Judges a generator by what it does for an instruction; the context is not looked at. -/
def Gen.judgeMoved (fixed : List VReg) (g : Gen) (i : AppInstr) (w : VecWidth)
    (u : Option VecWidth) (d : VReg) (want : Halves) (σ : Loc VReg → Val) : Verdict :=
  if g.asks (Query.closed fixed i.cls) then
    match g.eval (Query.answer ⟨false, fun _ ↦ 0⟩ i) with
    | .chain _ _ T => T.judge fixed i w u d want σ
    | _ => .wrong
  else .unknown

/-- The same if the scratch registers are among those that are fixed. -/
def Gen.judge (fixed : List VReg) (g : Gen) (i : AppInstr) (w : VecWidth)
    (u : Option VecWidth) (d : VReg) (want : Halves) (σ : Loc VReg → Val) : Verdict :=
  if (g.eval (Query.answer ⟨false, fun _ ↦ 0⟩ i)).template?.all (·.scans fixed i) then
    g.judgeMoved fixed i w u d want σ
  else .unknown

/-- The same if there are `n` scratch registers that avoid the given operands and are found to be the
first ones of the pool. -/
def Gen.judgeFresh (avoid : List Role) (n : ℕ) (g : Gen) (i : AppInstr) (w : VecWidth)
    (u : Option VecWidth) (d : VReg) (want : Halves) (σ : Loc VReg → Val) : Verdict :=
  if (g.eval (Query.answer ⟨false, fun _ ↦ 0⟩ i)).template?.all (·.vecs == fresh avoid n) &&
      findVecs i (fresh avoid n) [] == some (spillPool.take n) then
    g.judgeMoved [] i w u d want σ
  else .unknown

section Verdicts

variable {fixed : List VReg} {P : Profile} {τ : Store (Loc VReg) TOpnd VOp} {w : VecWidth}
  {u : Option VecWidth} {d : VReg} {want : Halves} {σ₀ : Loc VReg → Val}

/-- A register that was not assigned to is as it was. -/
theorem agree_ofStore_of_notMem {r : VReg} (hr : ∀ a ∈ τ, a.1.reg ≠ r) :
    Halves.ofStore τ r = .ofReg r := by
  have hget (l : Loc VReg) (hl : l.reg = r) : τ.get l = .var l := by
    rw [Store.get, List.lookup_eq_none_iff.mpr fun a ha ↦ ?_]
    · rfl
    · rw [bne_iff_ne]
      rintro rfl
      exact hr a ha hl
  have hhome : (homeOf r).reg = r := by
    rw [homeOf]
    split <;> rfl
  rw [Halves.ofStore, Halves.ofReg, hget _ hhome, hget (.hi r) rfl]

/-- Where the comparison says right, every renamed run leaves what is wanted. -/
theorem vec_of_judgeStore_right (h : judgeStore P τ w u d want σ₀ = .right) {E : Ext} {e : Env}
    {π : Renaming fixed} {s : State} {σ : Loc VReg → Val}
    (hσ : ∀ l : Loc VReg, σ (l.map π) = (τ.get l).eval (symAlgebra E e s) (s.get ∘ Loc.map π)) :
    (s.put σ).vec w (π d) = want.value w E e π s ∧
      ∀ v ∈ u, ∀ r ≠ π d, (s.put σ).vec v r = s.vec v r := by
  unfold judgeStore at h
  split at h
  case isFalse => split at h <;> cases h
  case isTrue hall =>
  rw [Bool.and_eq_true] at hall
  obtain ⟨hd, hothers⟩ := hall
  constructor
  · rw [Halves.value_ofStore E e π s hσ, Halves.value_eq_of_agree E e π s hd,
      Halves.value_simplify]
  · rintro v rfl r hr
    rw [Option.all_some, List.all_eq_true] at hothers
    obtain ⟨r, rfl⟩ := π.perm.surjective r
    have hrd : r ≠ d := fun heq ↦ hr (congrArg π heq)
    rw [Halves.value_ofStore E e π s hσ, ← Halves.value_ofReg E e π s r]
    by_cases hmem : ∃ a ∈ τ, a.1.reg = r
    · obtain ⟨a, ha, rfl⟩ := hmem
      refine Halves.value_eq_of_agree E e π s ?_
      simpa [hrd] using hothers a ha
    · push Not at hmem
      rw [agree_ofStore_of_notMem hmem]

/-- Where it says wrong, the run from the state it has looked at does not. -/
theorem not_vec_of_judgeStore_wrong (h : judgeStore P τ w u d want σ₀ = .wrong) {e : Env}
    (he : e.instr.cls = P) {π : Renaming fixed} {s : State} {σ : Loc VReg → Val}
    (hs : s.get ∘ Loc.map π = σ₀) (hblank : s.put (fun _ ↦ 0) = .blank)
    (hσ : ∀ l : Loc VReg, σ (l.map π) =
      (τ.get l).eval (symAlgebra .blank e s) (s.get ∘ Loc.map π)) :
    ¬((s.put σ).vec w (π d) = want.value w .blank e π s ∧
      ∀ v ∈ u, ∀ r ≠ π d, (s.put σ).vec v r = s.vec v r) := by
  unfold judgeStore at h
  split at h
  case isTrue => cases h
  case isFalse =>
  split at h
  case isFalse => cases h
  case isTrue hany =>
  rw [Bool.or_eq_true, Option.any_eq_true_iff_get] at hany
  rintro ⟨hd, hothers⟩
  rcases hany with hdiff | ⟨hsome, hdiff⟩
  · rw [Halves.value_ofStore .blank e π s hσ] at hd
    exact Halves.value_ne_of_differ e π s he hdiff hs hblank hd
  · obtain ⟨a, -, hdiff⟩ := List.any_eq_true.mp hdiff
    rw [Bool.and_eq_true, bne_iff_ne] at hdiff
    have heq := hothers (u.get hsome) (Option.get_mem hsome) (π a.1.reg)
      fun h ↦ hdiff.1 (π.injective h)
    rw [Halves.value_ofStore .blank e π s hσ, ← Halves.value_ofReg .blank e π s] at heq
    exact Halves.value_ne_of_differ e π s he hdiff.2 hs hblank heq

/-- Some state has the given contents of the renamed locations and is blank otherwise. -/
theorem exists_get_comp_eq (π : Renaming fixed) (σ : Loc VReg → Val) :
    ∃ s : State, s.get ∘ Loc.map π = σ ∧ s.put (fun _ ↦ 0) = .blank := by
  refine ⟨State.blank.put fun l ↦ σ (l.map π.perm.symm), ?_, rfl⟩
  funext l
  cases l <;> simp [State.get, State.put, Loc.map]

variable {g : Gen} {π : Renaming fixed} {i i' : AppInstr} {f : State → BitVec (8 * w.bytes)}

/-- A verdict holds for all instructions that differ by a renaming that goes along with the scratch
registers. -/
theorem Gen.writes_iff_of_moves (hlike : i.Like π i')
    (hmoves : ∀ T ∈ (g.eval (Query.answer ⟨false, fun _ ↦ 0⟩ i)).template?, T.Moves π i i') {p : Bool}
    (hj : g.judgeMoved fixed i w u d want σ₀ = if p then .right else .wrong)
    (hf : ∀ E e, e.instr = i' → ∀ s, f s = want.value w E e π s) (c : Context) :
    g.Writes c i' w u (π d) f ↔ p = true := by
  unfold judgeMoved at hj
  split at hj
  case isFalse => split at hj <;> cases hj
  case isTrue hasks =>
  have hrun : g.run c i' = (g.eval (Query.answer ⟨false, fun _ ↦ 0⟩ i)).run i' := by
    rw [Gen.run, Decision.Tree.eval_congr_of_asks (fun q hq ↦ answer_like hlike _ c hq) hasks]
  -- a generator that gives up is wrong
  have hgiveUp (hnone : ∀ removed linked T, g.eval (Query.answer ⟨false, fun _ ↦ 0⟩ i) ≠
      .chain removed linked T) : ¬g.Writes c i' w u (π d) f := by
    rintro ⟨removed, linked, code, hcode, -⟩
    rw [hrun] at hcode
    cases hleaf : g.eval (Query.answer ⟨false, fun _ ↦ 0⟩ i) with
    | abort =>
      rw [hleaf] at hcode
      cases hcode
    | null n =>
      rw [hleaf] at hcode
      cases hcode
    | chain n l T => exact hnone n l T hleaf
  split at hj
  case h_2 hother =>
    have hok : p = false := by
      cases p with
      | false => rfl
      | true => cases hj
    rw [hok]
    exact iff_of_false (hgiveUp hother) Bool.false_ne_true
  case h_1 removed linked T hleaf =>
  rw [hleaf] at hrun hmoves
  unfold Template.judge at hj
  split at hj
  case isFalse => split at hj <;> cases hj
  case isTrue hknown =>
  split at hj
  case h_1 => split at hj <;> cases hj
  case h_2 τ hτ =>
  obtain ⟨e, vecs, he, hi, hvecs, hmap⟩ := Template.exists_env_like hlike hknown hτ (hmoves T rfl)
  have hcode : g.run c i' = .chain removed linked (T.body.map (TInsn.inst e)) := by
    rw [hrun, Leaf.run, Template.emit, he]
    rfl
  have hlegal := Template.legal_like hlike hknown he
  have hjump := Template.jumpsTo_of_symRun? hτ e
  split at hj
  case isFalse hillegal =>
    -- code that cannot be encoded does not run
    have hok : p = false := by
      cases p with
      | false => rfl
      | true => cases hj
    rw [hok]
    refine iff_of_false ?_ Bool.false_ne_true
    rintro ⟨removed', linked', code, hcode', hexec⟩
    cases hcode.symm.trans hcode'
    obtain ⟨t, ht, -⟩ := hexec .blank .blank
    rw [← hlegal, List.all_eq_true] at hillegal
    exact hillegal (ht.all_legal hjump)
  case isTrue hall =>
  rw [← hlegal, List.all_eq_true] at hall
  have hexec (E : Ext) (s : State) : Exec E (T.body.map (TInsn.inst e)) s
      (effects E (T.body.map (TInsn.inst e)) s) := exec_foldl hall hjump s
  have heffects (E : Ext) (s : State) := Template.effects_symRun? hlike hi hvecs hmap hτ E s
  cases p with
  | true =>
    refine iff_of_true ⟨removed, linked, _, hcode, fun E s ↦ ?_⟩ rfl
    obtain ⟨σ, hσ, hterms⟩ := heffects E s
    refine ⟨_, hexec E s, ?_⟩
    rw [hσ, hf E e hi s]
    exact vec_of_judgeStore_right hj hterms
  | false =>
    refine iff_of_false ?_ Bool.false_ne_true
    rintro ⟨removed', linked', code, hcode', hwrites⟩
    cases hcode.symm.trans hcode'
    obtain ⟨s, hs, hblank⟩ := exists_get_comp_eq π σ₀
    obtain ⟨σ, hσ, hterms⟩ := heffects .blank s
    obtain ⟨t, ht, hpost⟩ := hwrites .blank s
    obtain rfl := ht.unique (hexec .blank s)
    rw [hσ, hf .blank e hi s] at hpost
    exact not_vec_of_judgeStore_wrong hj (by rw [hi, hlike.cls]) hs hblank hterms hpost

/-- A verdict holds for all instructions that differ by a renaming. -/
theorem Gen.writes_iff (hlike : i.Like π i') {p : Bool}
    (hj : g.judge fixed i w u d want σ₀ = if p then .right else .wrong)
    (hf : ∀ E e, e.instr = i' → ∀ s, f s = want.value w E e π s) (c : Context) :
    g.Writes c i' w u (π d) f ↔ p = true := by
  unfold judge at hj
  split at hj
  case isFalse => split at hj <;> cases hj
  case isTrue hscans =>
  refine Gen.writes_iff_of_moves hlike (fun T hT ↦ ?_) hj hf c
  rw [Option.mem_def] at hT
  rw [hT, Option.all_some] at hscans
  exact Template.moves_of_scans hlike hscans

/-- A verdict with fresh scratch registers holds for all instructions that differ by a renaming which
takes them along. -/
theorem Gen.writes_iff_of_fresh {π : Renaming []} (hlike : i.Like π i') {avoid : List Role} {n : ℕ}
    (hfound : findVecs i' (fresh avoid n) [] = some ((spillPool.take n).map π)) {p : Bool}
    (hj : g.judgeFresh avoid n i w u d want σ₀ = if p then .right else .wrong)
    (hf : ∀ E e, e.instr = i' → ∀ s, f s = want.value w E e π s) (c : Context) :
    g.Writes c i' w u (π d) f ↔ p = true := by
  unfold judgeFresh at hj
  split at hj
  case isFalse => split at hj <;> cases hj
  case isTrue hfresh =>
  rw [Bool.and_eq_true, beq_iff_eq] at hfresh
  obtain ⟨hvecs, hpool⟩ := hfresh
  refine Gen.writes_iff_of_moves hlike (fun T hT vecs hfind ↦ ?_) hj hf c
  rw [Option.mem_def] at hT
  rw [hT, Option.all_some, beq_iff_eq] at hvecs
  rw [hvecs, hpool, Option.some.injEq] at hfind
  rw [hvecs, hfound, hfind]

theorem Gen.writes_of_judge (hlike : i.Like π i') (hj : g.judge fixed i w u d want σ₀ = .right)
    (hf : ∀ E e, e.instr = i' → ∀ s, f s = want.value w E e π s) (c : Context) :
    g.Writes c i' w u (π d) f := by
  have hj' : g.judge fixed i w u d want σ₀ = if true then .right else .wrong := by rw [hj]; rfl
  exact (Gen.writes_iff hlike hj' hf c).mpr rfl

theorem Gen.not_writes_of_judge (hlike : i.Like π i') (hj : g.judge fixed i w u d want σ₀ = .wrong)
    (hf : ∀ E e, e.instr = i' → ∀ s, f s = want.value w E e π s) (c : Context) :
    ¬g.Writes c i' w u (π d) f := by
  have hj' : g.judge fixed i w u d want σ₀ = if false then .right else .wrong := by rw [hj]; rfl
  exact (Gen.writes_iff hlike hj' hf c).not.mpr Bool.false_ne_true

/-- If another register is changed, no result is right. -/
theorem Gen.not_writes_of_judge_other (hlike : i.Like π i') {r : VReg} (hr : r ≠ d) {v : VecWidth}
    (hj : g.judge fixed i v none r (.ofReg r) σ₀ = .wrong) (c : Context) :
    ¬g.Writes c i' w (some v) (π d) f := by
  intro hwrites
  refine Gen.not_writes_of_judge hlike hj (fun E e _ s ↦ ?_) c
    (hwrites.other fun h ↦ hr (π.injective h))
  exact (Halves.value_ofReg E e π s r).symm

end Verdicts

end DrAvx
