import DrAvx.Rewrite.Vocabulary

/-!
# What handlers come to

The outcome of a handler that is put together from tests: where a chain comes out the tests have been
passed, and where they are passed the rest of the handler decides.
-/

set_option autoImplicit false

namespace DrAvx

section Runs

variable {c : Context} {i : AppInstr} {n : ℕ} {linked : Bool} {code : List Insn}

/-- The operands are registers where a chain comes out. -/
theorem run_of_regs {ps : List Pos} {g : Gen} (h : (regs ps g).run c i = .chain n linked code) :
    g.run c i = .chain n linked code := by
  induction ps with
  | nil => exact h
  | cons p ps ih =>
    refine ih ?_
    have hask : (regs (p :: ps) g).run c i = (if (Query.test p (.isKind .reg)).answer c i then
        regs ps g else .abort).run c i := rfl
    rw [hask] at h
    split at h
    · exact h
    · cases h

/-- The operands are there where a chain comes out. -/
theorem run_of_opnds {ps : List Pos} {g : Gen} (h : (opnds ps g).run c i = .chain n linked code) :
    g.run c i = .chain n linked code := by
  induction ps with
  | nil => exact h
  | cons p ps ih =>
    refine ih ?_
    have hask : (opnds (p :: ps) g).run c i = (if (Query.test p .exists).answer c i then
        opnds ps g else .abort).run c i := rfl
    rw [hask] at h
    split at h
    · exact h
    · cases h

theorem run_ifQ (q : Query) (yes no : Gen) :
    (ifQ q yes no).run c i = if q.answer c i then yes.run c i else no.run c i := by
  have hask : (ifQ q yes no).run c i = (if q.answer c i then yes else no).run c i := rfl
  rw [hask]
  split <;> rfl

theorem run_needSpill1 (w : VecWidth) (p : Pos) (f : Bool → Gen) : (needSpill1 w p f).run c i =
    (f ((Query.test p (.needSpill w)).answer c i)).run c i := rfl

theorem run_needSpill2 (w : VecWidth) (p q : Pos) (f : Bool → Bool → Gen) :
    (needSpill2 w p q f).run c i = (f ((Query.test p (.needSpill w)).answer c i)
      ((Query.test q (.needSpill w)).answer c i)).run c i := rfl

/-- A chain with one scratch register, which avoids an operand. -/
theorem exists_run_emit (c : Context) (i : AppInstr) (p : Pos) (body : List TInsn) :
    ∃ t : VReg, t.high = false ∧ (i.opnd p).vreg ≠ t ∧
      (emit [[.op p]] body).run c i = .chain 1 true (body.map (TInsn.inst ⟨i, [t], []⟩)) := by
  obtain ⟨ts, hts⟩ : ∃ ts, findVecs i (fresh [.op p] 1) [] = some ts :=
    exists_findVecs_fresh i (Nat.le_of_ble_eq_true rfl)
  obtain ⟨hlen, -, hpool, havoid⟩ := findVecs_fresh hts
  obtain ⟨t, rfl⟩ := List.length_eq_one_iff.mp hlen
  refine ⟨t, not_high_of_mem_spillPool (hpool t List.mem_cons_self), ?_, ?_⟩
  · rintro rfl
    exact havoid p List.mem_cons_self List.mem_cons_self
  · have hvecs : findVecs i [[.op p]] [] = some [t] := hts
    have hemit : Template.emit ⟨[[.op p]], [], body⟩ i =
        some (body.map (TInsn.inst ⟨i, [t], []⟩)) := by
      rw [Template.emit, Template.env?, hvecs]
      rfl
    rw [emit, chain, Gen.run, Decision.Tree.eval, Leaf.run, hemit]

theorem run_regs {ps : List Pos} {g : Gen} (h : ∀ p ∈ ps, (i.cls p).kind = some .reg) :
    (regs ps g).run c i = g.run c i := by
  induction ps with
  | nil => rfl
  | cons p ps ih =>
    have hyes : (Query.test p (.isKind .reg)).answer c i = true :=
      beq_iff_eq.mpr (h p List.mem_cons_self)
    have hask : (regs (p :: ps) g).run c i = (ifQ (.test p (.isKind .reg)) (regs ps g) .abort).run c i :=
      rfl
    rw [hask, run_ifQ, if_pos hyes, ih fun q hq ↦ h q (List.mem_cons_of_mem _ hq)]

theorem run_opnds {ps : List Pos} {g : Gen} (h : ∀ p ∈ ps, i.cls p ≠ .absent) :
    (opnds ps g).run c i = g.run c i := by
  induction ps with
  | nil => rfl
  | cons p ps ih =>
    have hyes : (Query.test p .exists).answer c i = true := bne_iff_ne.mpr (h p List.mem_cons_self)
    have hask : (opnds (p :: ps) g).run c i = (ifQ (.test p .exists) (opnds ps g) .abort).run c i :=
      rfl
    rw [hask, run_ifQ, if_pos hyes, ih fun q hq ↦ h q (List.mem_cons_of_mem _ hq)]

/-- A chain without scratch registers. -/
theorem code_of_run_chain {m : ℕ} {l : Bool} {body : List TInsn}
    (h : (chain m l [] [] body).run c i = .chain n linked code) :
    code = body.map (TInsn.inst ⟨i, [], []⟩) := by
  cases h
  rfl

end Runs

end DrAvx
