import DrAvx.Machine.Frame

/-!
# Runs through parts of a chain

A chain with jumps is followed from one position to another, `Runs`.  Instructions that are neither
labels nor jumps are passed one after the other, a label leaves the state alone, and a jump goes to
its label.  A run through code is also a run through longer code, as long as what comes before has no
labels of its own; so a loop can be looked at without the code around it.

## What is here

* `Runs`: from one position of a chain to another.
* `runs_block`, `runs_label`, `runs_jmp`, `runs_jcc`: the steps.
* `Runs.loop`: the rule for loops that count.
* `Exec.wrap`: straight code before and after.
-/

set_option autoImplicit false

namespace DrAvx

open StateTransition

/-- The chain is executed from one position to another. -/
def Runs (E : Ext) (code : List Insn) (pc : ℕ) (s : State) (pc' : ℕ) (t : State) : Prop :=
  Reaches (next E code) (pc, s) (pc', t)

/-- Neither a label nor a jump. -/
def Insn.isPlain (i : Insn) : Bool :=
  match i.op with
  | .label | .jmp | .jcc _ => false
  | _ => true

/-- Code that is executed instruction by instruction. -/
def straight (code : List Insn) : Bool := code.all fun i ↦ i.legal && i.isPlain

namespace Insn

variable {i : Insn} (h : i.isPlain = true)
include h

theorem jumpsTo_of_isPlain (fl : Flags) : i.jumpsTo fl = none := by
  unfold jumpsTo
  split
  next hop _ => rw [isPlain, hop] at h; cases h
  next hop _ => rw [isPlain, hop] at h; cases h
  · rfl

theorem isLabel_of_isPlain (n : ℕ) : i.isLabel n = false := by
  rw [isLabel, Bool.and_eq_false_iff]
  left
  rw [beq_eq_false_iff_ne]
  intro hop
  rw [isPlain, hop] at h
  cases h

end Insn

section Steps

variable {E : Ext} {code : List Insn} {pc pc' pc'' : ℕ} {s t u : State}

theorem Runs.refl : Runs E code pc s pc s := Relation.ReflTransGen.refl

theorem Runs.trans (h : Runs E code pc s pc' t) (h' : Runs E code pc' t pc'' u) :
    Runs E code pc s pc'' u :=
  Relation.ReflTransGen.trans h h'

theorem Runs.of_next (h : next E code (pc, s) = some (pc', t)) : Runs E code pc s pc' t :=
  Relation.ReflTransGen.single h

/-- A plain instruction is followed by the next one. -/
theorem runs_insn {i : Insn} (hi : code[pc]? = some i) (hlegal : i.legal = true)
    (hplain : i.isPlain = true) : Runs E code pc s (pc + 1) (i.effect E s) := by
  refine .of_next ?_
  simp only [next, hi, hlegal, nextPc, Insn.jumpsTo_of_isPlain hplain]
  rfl

/-- Straight code in the middle of a chain. -/
theorem runs_block (pre : List Insn) {seg : List Insn} (post : List Insn)
    (hcode : code = pre ++ seg ++ post) (hseg : straight seg = true) (s : State) :
    Runs E code pre.length s (pre.length + seg.length) (effects E seg s) := by
  induction seg generalizing pre s with
  | nil => exact .refl
  | cons i seg ih =>
    rw [straight, List.all_cons, Bool.and_eq_true, Bool.and_eq_true] at hseg
    obtain ⟨⟨hlegal, hplain⟩, hseg⟩ := hseg
    have hi : code[pre.length]? = some i := by
      rw [hcode, List.append_assoc, List.getElem?_append_right le_rfl, Nat.sub_self]
      rfl
    have hrest := ih (pre ++ [i]) (by rw [hcode]; simp) hseg (i.effect E s)
    rw [List.length_append, List.length_singleton, Nat.add_assoc, Nat.add_comm 1] at hrest
    exact (runs_insn hi hlegal hplain).trans hrest

/-- Straight code that stands at a position. -/
theorem runs_segment (seg : List Insn) (hcode : (code.drop pc).take seg.length = seg)
    (hseg : straight seg = true) (s : State) :
    Runs E code pc s (pc + seg.length) (effects E seg s) := by
  rcases Nat.lt_or_ge code.length pc with hpc | hpc
  · -- past the end there is only the empty segment
    rw [List.drop_of_length_le hpc.le, List.take_nil] at hcode
    subst hcode
    exact .refl
  have hsplit : code = code.take pc ++ seg ++ (code.drop pc).drop seg.length := by
    have hrest := List.take_append_drop seg.length (code.drop pc)
    rw [hcode] at hrest
    rw [List.append_assoc, hrest, List.take_append_drop]
  have hrun := runs_block (E := E) (code.take pc) _ hsplit hseg s
  rwa [List.length_take_of_le hpc] at hrun

/-- A loop that counts: every round but the last leads back to its beginning. -/
theorem Runs.loop {P : ℕ → State → Prop} {n : ℕ}
    (hstep : ∀ j < n, ∀ s, P j s →
      ∃ t, P (j + 1) t ∧ Runs E code pc s (if j + 1 < n then pc else pc') t)
    (hn : 0 < n) (h : P 0 s) : ∃ t, P n t ∧ Runs E code pc s pc' t := by
  -- `k` rounds are left
  suffices hloop : ∀ k < n, ∀ s, P (n - 1 - k) s → ∃ t, P n t ∧ Runs E code pc s pc' t by
    refine hloop (n - 1) (by omega) s ?_
    rwa [Nat.sub_self]
  intro k
  induction k with
  | zero =>
    intro _ s hs
    obtain ⟨t, ht, hrun⟩ := hstep (n - 1) (by omega) s hs
    rw [Nat.sub_add_cancel hn] at ht hrun
    rw [if_neg (by omega)] at hrun
    exact ⟨t, ht, hrun⟩
  | succ k ih =>
    intro hk s hs
    obtain ⟨t, ht, hrun⟩ := hstep (n - 1 - (k + 1)) (by omega) s hs
    rw [if_pos (by omega)] at hrun
    have hround : n - 1 - (k + 1) + 1 = n - 1 - k := by omega
    rw [hround] at ht
    obtain ⟨u, hu, hrest⟩ := ih (by omega) t ht
    exact ⟨u, hu, hrun.trans hrest⟩

/-- A label does nothing. -/
theorem runs_label {n : ℕ} (hi : code[pc]? = some ⟨.label, [], [.label n]⟩) :
    Runs E code pc s (pc + 1) s := by
  refine .of_next ?_
  simp only [next, hi]
  rfl

theorem runs_jmp {n k : ℕ} (hi : code[pc]? = some ⟨.jmp, [], [.label n]⟩)
    (hk : code.findIdx? (Insn.isLabel n) = some k) : Runs E code pc s k s := by
  refine .of_next ?_
  simp only [next, hi, nextPc, Insn.jumpsTo, hk]
  rfl

/-- A jump whose condition holds. -/
theorem runs_jcc {c : Cond} {n k : ℕ} (hi : code[pc]? = some ⟨.jcc c, [], [.label n]⟩)
    (hk : code.findIdx? (Insn.isLabel n) = some k) (hc : c.holds s.flags = true) :
    Runs E code pc s k s := by
  refine .of_next ?_
  have hlegal : (Insn.mk (.jcc c) [] [.label n]).legal = true := by cases c <;> rfl
  simp only [next, hi, hlegal, nextPc, Insn.jumpsTo, hc, if_true, hk]
  rfl

/-- A jump whose condition does not hold. -/
theorem runs_jcc_not {c : Cond} {n : ℕ} (hi : code[pc]? = some ⟨.jcc c, [], [.label n]⟩)
    (hc : c.holds s.flags = false) : Runs E code pc s (pc + 1) s := by
  refine .of_next ?_
  have hlegal : (Insn.mk (.jcc c) [] [.label n]).legal = true := by cases c <;> rfl
  simp only [next, hi, hlegal, nextPc, Insn.jumpsTo, hc]
  rfl

end Steps

/-! ## Code around code -/

section Around

variable {E : Ext} {pre code post : List Insn} (hpre : ∀ i ∈ pre, i.isPlain = true)
include hpre

theorem findIdx?_around {n k : ℕ} (h : code.findIdx? (Insn.isLabel n) = some k) :
    (pre ++ code ++ post).findIdx? (Insn.isLabel n) = some (pre.length + k) := by
  have hnone : pre.findIdx? (Insn.isLabel n) = none :=
    List.findIdx?_eq_none_iff.mpr fun i hi ↦ Insn.isLabel_of_isPlain (hpre i hi) n
  rw [List.append_assoc, List.findIdx?_append, hnone, List.findIdx?_append, h]
  simp [Nat.add_comm]

theorem next_around {c c' : ℕ × State} (h : next E code c = some c') :
    next E (pre ++ code ++ post) (pre.length + c.1, c.2) = some (pre.length + c'.1, c'.2) := by
  rw [next] at h
  split at h
  case h_1 => cases h
  case h_2 i hi =>
  have hi' : (pre ++ code ++ post)[pre.length + c.1]? = some i := by
    rw [List.append_assoc, List.getElem?_append_right (Nat.le_add_right _ _),
      Nat.add_sub_cancel_left, List.getElem?_append_left (List.getElem?_eq_some_iff.mp hi).1, hi]
  split at h
  case isFalse => cases h
  case isTrue hlegal =>
  obtain ⟨pc, hpc, rfl⟩ := Option.map_eq_some_iff.mp h
  have hpc' : nextPc (pre ++ code ++ post) (pre.length + c.1) i c.2.flags =
      some (pre.length + pc) := by
    unfold nextPc at hpc ⊢
    split at hpc
    · obtain rfl := Option.some.inj hpc
      rfl
    · exact findIdx?_around hpre hpc
  simp only [next, hi', hlegal, if_true, hpc']
  rfl

/-- What runs on its own runs in the middle of a chain. -/
theorem Runs.around {pc pc' : ℕ} {s t : State} (h : Runs E code pc s pc' t) :
    Runs E (pre ++ code ++ post) (pre.length + pc) s (pre.length + pc') t := by
  have hlift {c c' : ℕ × State} (hc : Reaches (next E code) c c') :
      Reaches (next E (pre ++ code ++ post)) (pre.length + c.1, c.2) (pre.length + c'.1, c'.2) := by
    induction hc with
    | refl => exact .refl
    | tail _ hstep ih => exact ih.tail (next_around hpre hstep)
  exact hlift h

end Around

/-- Straight code before and after the code. -/
theorem Exec.wrap {E : Ext} {pre code post : List Insn} {s t : State} (hpre : straight pre = true)
    (hpost : straight post = true) (h : Exec E code (effects E pre s) t) :
    Exec E (pre ++ code ++ post) s (effects E post t) := by
  have hplain : ∀ i ∈ pre, i.isPlain = true := fun i hi ↦
    (Bool.and_eq_true _ _ ▸ List.all_eq_true.mp hpre i hi).2
  have hbefore : Runs E (pre ++ code ++ post) 0 s pre.length (effects E pre s) := by
    have hcode : pre ++ code ++ post = [] ++ pre ++ (code ++ post) := by simp
    have hrun := runs_block (E := E) [] (code ++ post) hcode hpre s
    rwa [List.length_nil, Nat.zero_add] at hrun
  have hcode : pre ++ code ++ post = pre ++ code ++ post ++ [] := by simp
  have hafter := runs_block (E := E) (pre ++ code) [] hcode hpost t
  have hin : Runs E (pre ++ code ++ post) (pre.length + 0) (effects E pre s)
      (pre.length + code.length) t := Runs.around hplain h
  rw [← List.length_append] at hin
  rw [← List.length_append] at hafter
  exact (hbefore.trans hin).trans hafter

theorem effects_append (E : Ext) (code code' : List Insn) (s : State) :
    effects E (code ++ code') s = effects E code' (effects E code s) :=
  List.foldl_append

@[simp] theorem effects_nil (E : Ext) (s : State) : effects E [] s = s := rfl

theorem effects_cons (E : Ext) (i : Insn) (code : List Insn) (s : State) :
    effects E (i :: code) s = effects E code (i.effect E s) := rfl

/-- Straight code before the code. -/
theorem Exec.before {E : Ext} {pre code : List Insn} {s t : State} (hpre : straight pre = true)
    (h : Exec E code (effects E pre s) t) : Exec E (pre ++ code) s t := by
  rw [← List.append_nil (pre ++ code)]
  exact h.wrap hpre rfl

/-- Code with an illegal instruction that is reached does not get to its end. -/
theorem not_exec_of_illegal {E : Ext} {pre post : List Insn} {i : Insn} {s t : State}
    (hpre : straight pre = true) (hi : i.legal = false) : ¬Exec E (pre ++ i :: post) s t := by
  intro h
  have hcode : pre ++ i :: post = [] ++ pre ++ i :: post := rfl
  have hrun := runs_block (E := E) [] (i :: post) hcode hpre s
  rw [List.length_nil, Nat.zero_add] at hrun
  have hstuck : next E (pre ++ i :: post) (pre.length, effects E pre s) = none := by
    simp [next, hi]
  have hend : next E (pre ++ i :: post) ((pre ++ i :: post).length, t) = none := by
    simp [next]
  -- both are where the execution ends
  have hsame := Part.mem_unique (mem_eval.mpr ⟨hrun, hstuck⟩) (mem_eval.mpr ⟨h, hend⟩)
  have hlength := congrArg Prod.fst hsame
  simp at hlength

theorem straight_append (code code' : List Insn) :
    straight (code ++ code') = (straight code && straight code') :=
  List.all_append

theorem exec_straight {E : Ext} {code : List Insn} (h : straight code = true) (s : State) :
    Exec E code s (effects E code s) := by
  have hcode : code = [] ++ code ++ [] := by simp
  have hrun := runs_block (E := E) [] [] hcode h s
  rwa [List.length_nil, Nat.zero_add] at hrun

end DrAvx
