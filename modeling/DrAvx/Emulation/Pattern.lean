import DrAvx.Rewrite.Assign
import DrAvx.Rewrite.Profile
import DrAvx.Rewrite.Vocabulary

/-!
# Three register operands

An instruction with two vector sources and a vector destination, unmasked.  All that the code emitted
for it depends on, up to renaming, is which of the three registers are among the upper sixteen and
which of them coincide: its `Pattern`.  There are finitely many patterns, so a property of a template
for all registers comes down to a computation for each of them.
-/

set_option autoImplicit false

namespace DrAvx

open Straight

/-- The instruction `d ← a op b`, of the given width and under the mask `k0`. -/
def instr3 (w : VecWidth) (d a b : VReg) (z : Bool) : AppInstr :=
  ⟨[.vec w d], [.opmask 0, .vec w a, .vec w b], z⟩

/-- Which registers are among the upper sixteen, and which coincide. -/
structure Pattern where
  high1 : Bool
  high2 : Bool
  highD : Bool
  eq12 : Bool
  eq1D : Bool
  eq2D : Bool

namespace Pattern

/-- The pattern of three registers. -/
def of (d a b : VReg) : Pattern where
  high1 := a.high
  high2 := b.high
  highD := d.high
  eq12 := decide (a = b)
  eq1D := decide (a = d)
  eq2D := decide (b = d)

/-- The pattern is one that three registers can have. -/
def consistent (p : Pattern) : Bool :=
  (!p.eq12 || p.high1 == p.high2) && (!p.eq1D || p.high1 == p.highD) &&
    (!p.eq2D || p.high2 == p.highD) && (!p.eq12 || p.eq1D == p.eq2D) && (!p.eq1D || p.eq12 == p.eq2D)

theorem consistent_of (d a b : VReg) : (of d a b).consistent = true := by
  by_cases h12 : a = b
  · subst h12
    by_cases h1 : a = d <;> simp [of, consistent, h1]
  · by_cases h1 : a = d
    · subst h1
      simp [of, consistent, h12, Ne.symm h12]
    · by_cases h2 : b = d <;> simp [of, consistent, h12, h1, h2]

/-- One role for each of the registers. -/
def rep (p : Pattern) : Role → Role
  | .op .s2 => if p.eq12 then s1 else s2
  | .op .d0 => if p.eq1D then s1 else if p.eq2D then s2 else d0
  | r => r

/-- The classes of the operands. -/
def profile (p : Pattern) (w : VecWidth) : Profile
  | .s0 => .opmask
  | .s1 => .vec w p.high1
  | .s2 => .vec w p.high2
  | .d0 => .vec w p.highD
  | _ => .absent

/-- The answers to the questions that only depend on the pattern. -/
def answer (p : Pattern) : Query → Bool
  | .test .s1 _ => p.high1
  | .test .s2 _ => p.high2
  | .test .d0 _ => p.highD
  | .same .d0 .s1 => p.eq1D
  | _ => false

end Pattern

theorem profile_instr3 (w : VecWidth) (d a b : VReg) (z : Bool) :
    (instr3 w d a b z).cls = (Pattern.of d a b).profile w := by
  funext p
  cases p <;> rfl

theorem ordinary_instr3 (w : VecWidth) (d a b : VReg) (z : Bool) (p : Pos) :
    ((instr3 w d a b z).cls p).ordinary = true := by
  cases p <;> rfl

/-- The questions that a pattern answers. -/
def patternQueries (w : VecWidth) : List Query :=
  [.test .s1 (.needSpill w), .test .s2 (.needSpill w), .test .d0 (.needSpill w), .same .d0 .s1]

theorem answer_instr3 (c : Context) (w : VecWidth) (d a b : VReg) (z : Bool) :
    ∀ q ∈ patternQueries w, q.answer c (instr3 w d a b z) = (Pattern.of d a b).answer q := by
  simp only [patternQueries, List.forall_mem_cons, List.not_mem_nil, IsEmpty.forall_iff,
    implies_true, and_true]
  refine ⟨needSpill_vec w a, needSpill_vec w b, needSpill_vec w d, ?_⟩
  have hsame : (Query.same .d0 .s1).answer c (instr3 w d a b z) = decide (Opnd.vec w d = .vec w a) :=
    rfl
  simp [hsame, Pattern.answer, Pattern.of, eq_comm]

/-! ## Roles and registers -/

/-- The operands, and the scratch registers found before the `n`-th. -/
def rolesBefore (n : ℕ) : List Role := [s1, s2, d0] ++ (List.range n).map .t

/-- What a program over roles leaves in a location, symbolically. -/
def Pattern.out (p : Pattern) (asgs : List (Asg (Loc Role) Op)) (l : Loc Role) :
    Expr (Loc Role) Op :=
  symExec (asgs.map (Asg.map (Loc.map p.rep))) (l.map p.rep)

/-- The initial contents of a location. -/
def Pattern.var (p : Pattern) (l : Loc Role) : Expr (Loc Role) Op := .var (l.map p.rep)

/-- Every scratch register avoids the operands and those found before it. -/
def Template.Separates (T : Template) (p : Pattern) : Prop :=
  ∀ q ∈ T.vecs.zipIdx, ∀ r ∈ rolesBefore q.2, ∃ a ∈ q.1, a.before q.2 = true ∧ p.rep a = p.rep r

instance (T : Template) (p : Pattern) : Decidable (T.Separates p) :=
  inferInstanceAs (Decidable (∀ q ∈ T.vecs.zipIdx, _))

section Registers

variable {w : VecWidth} {d a b : VReg} {z : Bool} {T : Template} {e : Env}

theorem vreg_operands (he : e.instr = instr3 w d a b z) :
    e.vreg s1 = a ∧ e.vreg s2 = b ∧ e.vreg d0 = d := by
  simp only [Env.vreg, he]
  exact ⟨rfl, rfl, rfl⟩

theorem vreg_rep (he : e.instr = instr3 w d a b z) (r : Role) :
    e.vreg ((Pattern.of d a b).rep r) = e.vreg r := by
  obtain ⟨h1, h2, hd⟩ := vreg_operands he
  unfold Pattern.rep
  split
  · simp only [Pattern.of, decide_eq_true_eq]
    split <;> simp [*]
  · simp only [Pattern.of, decide_eq_true_eq]
    split
    · simp [*]
    · split <;> simp [*]
  · rfl

theorem vreg_ne_scratch (h : T.env? (instr3 w d a b z) = some e)
    (hsep : T.Separates (Pattern.of d a b)) {n : ℕ} (hn : n < T.vecs.length) {r : Role}
    (hr : r ∈ rolesBefore n) : e.vreg r ≠ e.vreg (.t n) := by
  obtain ⟨hi, -, hspec⟩ := Template.env?_spec h
  obtain ⟨a', ha', hbefore, hrep⟩ := hsep (T.vecs[n], n) (List.mk_mem_zipIdx_iff_getElem?.mpr
    (List.getElem?_eq_getElem hn)) r hr
  rw [← vreg_rep hi r, ← hrep, vreg_rep hi]
  exact hspec n hn a' ha' hbefore

/-- Roles that the same register plays have the same representative. -/
theorem rep_eq_of_vreg_eq (h : T.env? (instr3 w d a b z) = some e)
    (hsep : T.Separates (Pattern.of d a b)) {r r' : Role} (hr : r ∈ rolesBefore T.vecs.length)
    (hr' : r' ∈ rolesBefore T.vecs.length) (heq : e.vreg r = e.vreg r') :
    (Pattern.of d a b).rep r = (Pattern.of d a b).rep r' := by
  have hscratch {n : ℕ} (hn : n < T.vecs.length) {q : Role} (hq : q ∈ rolesBefore n) :=
    vreg_ne_scratch h hsep hn hq
  simp only [rolesBefore, List.mem_append, List.mem_map, List.mem_range] at hr hr' hscratch
  rcases hr with hr | ⟨n, hn, rfl⟩ <;> rcases hr' with hr' | ⟨m, hm, rfl⟩
  · -- two operands: their registers are compared by the pattern itself
    obtain ⟨h1, h2, hd⟩ := vreg_operands (Template.env?_spec h).1
    simp only [List.mem_cons, List.not_mem_nil, or_false] at hr hr'
    rcases hr with rfl | rfl | rfl <;> rcases hr' with rfl | rfl | rfl <;>
      simp only [h1, h2, hd] at heq <;> simp [Pattern.rep, Pattern.of, heq]
  · exact absurd heq (hscratch hm (.inl hr))
  · exact absurd heq.symm (hscratch hn (.inl hr'))
  · rcases Nat.lt_trichotomy n m with hlt | rfl | hlt
    · exact absurd heq (hscratch hm (.inr ⟨n, hlt, rfl⟩))
    · rfl
    · exact absurd heq.symm (hscratch hn (.inr ⟨m, hlt, rfl⟩))

theorem eval_var (he : e.instr = instr3 w d a b z) (E : Ext) (s : State) (l : Loc Role) :
    ((Pattern.of d a b).var l).eval (fun op ↦ op.alu E) (s.get ∘ Loc.map e.vreg) =
      s.get (l.map e.vreg) := by
  cases l <;> simp only [Pattern.var, Expr.eval, Function.comp_apply, Loc.map, vreg_rep he]

/-- What a template made of assignments does to vector data, read off its symbolic run. -/
theorem exec_body (h : T.env? (instr3 w d a b z) = some e) (hsep : T.Separates (Pattern.of d a b))
    {asgs : List (Asg (Loc Role) Op)} (hasgs : T.body.mapM TInsn.asg? = some asgs)
    (hrated : ∀ i ∈ T.body, i.rated ((Pattern.of d a b).profile w) T.gprs.length = true)
    (hlegal : ∀ i ∈ T.body, i.legal ((Pattern.of d a b).profile w) = true)
    (hlocs : ∀ c ∈ asgs, ∀ l ∈ c.locs, l.reg ∈ rolesBefore T.vecs.length) (E : Ext) (s : State) :
    ∃ σ, Exec E (T.body.map (TInsn.inst e)) s (s.put σ) ∧
      (∀ l : Loc Role, l.reg ∈ rolesBefore T.vecs.length → σ (l.map e.vreg) =
        ((Pattern.of d a b).out asgs l).eval (fun op ↦ op.alu E) (s.get ∘ Loc.map e.vreg)) ∧
      ∀ l : Loc VReg, (∀ r ∈ rolesBefore T.vecs.length, e.vreg r ≠ l.reg) → σ l = s.get l := by
  obtain ⟨hi, hpool, -⟩ := Template.env?_spec h
  let S : Set (Loc Role) := {l | l.reg ∈ rolesBefore T.vecs.length}
  refine ⟨_, exec_of_asgs (mapM_asg?_inst e hasgs) (fun i hi' ↦ ?_) E s, fun l hl ↦ ?_, fun l hl ↦ ?_⟩
  · obtain ⟨j, hj, rfl⟩ := List.mem_map.mp hi'
    rw [TInsn.legal_inst hpool (hi ▸ ordinary_instr3 w d a b z), hi, profile_instr3]
    · exact hlegal j hj
    · rw [hi, profile_instr3, Template.length_gprs h]
      exact hrated j hj
  · refine exec_of_rep (S := S) _ (fun m _ ↦ ?_) ?_ hlocs s.get hl
    · cases m <;> simp only [Loc.map, vreg_rep hi]
    · refine (Loc.injOn_map (S := (Pattern.of d a b).rep '' {r | r ∈ rolesBefore T.vecs.length})
        ?_).mono ?_
      · rintro _ ⟨r, hr, rfl⟩ _ ⟨r', hr', rfl⟩ heq
        rw [vreg_rep hi, vreg_rep hi] at heq
        exact rep_eq_of_vreg_eq h hsep hr hr' heq
      · rintro _ ⟨m, hm, rfl⟩
        exact ⟨m.reg, hm, by cases m <;> rfl⟩
  · refine exec_of_notMem _ (fun c hc heq ↦ ?_) s.get
    obtain ⟨c, hc', rfl⟩ := List.mem_map.mp hc
    subst heq
    refine hl c.dst.reg (hlocs c hc' _ (by cases c <;> simp [Asg.locs, Asg.dst])) ?_
    rcases c with ⟨_ | _ | _, _⟩ | ⟨_ | _ | _, _, _, _⟩ <;> rfl

end Registers

end DrAvx
