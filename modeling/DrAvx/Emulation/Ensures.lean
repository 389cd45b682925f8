import DrAvx.Machine.Saving
import DrAvx.Rewrite.Run

/-!
# What the emitted code ensures

A generator is right about an instruction if it returns a chain that runs to its end from every state
and ends in a state that is related to the one at the beginning as it should be.

## What is here

* `Gen.Ensures`: what it means that a generator is right.
* `Gen.ensures_iff`: if the final state is known, it is a question about that state.
* `Gen.ensures_iff_of_plain`: chains without jumps.
-/

set_option autoImplicit false

namespace DrAvx

/-- For the instruction the generator returns a chain, which runs to its end from every state and
leaves a state as wanted. -/
def Gen.Ensures (g : Gen) (c : Context) (i : AppInstr) (post : State → State → Prop) : Prop :=
  ∃ removed linked code, g.run c i = .chain removed linked code ∧ ∀ (E : Ext) (s : State), ∃ t,
    Exec E code s t ∧ post s t

/-- The same for one state to begin with. -/
def Gen.EnsuresFrom (g : Gen) (c : Context) (i : AppInstr) (s : State)
    (post : State → State → Prop) : Prop :=
  ∃ removed linked code, g.run c i = .chain removed linked code ∧ ∀ E : Ext, ∃ t,
    Exec E code s t ∧ post s t

namespace Gen

variable {g : Gen} {c : Context} {i : AppInstr} {post post' : State → State → Prop} {removed : ℕ}
  {linked : Bool} {code : List Insn}

theorem ensures_iff_forall : g.Ensures c i post ↔ ∀ s, g.EnsuresFrom c i s post := by
  constructor
  · rintro ⟨removed, linked, code, hrun, hexec⟩ s
    exact ⟨removed, linked, code, hrun, fun E ↦ hexec E s⟩
  · intro h
    obtain ⟨removed, linked, code, hrun, -⟩ := h .blank
    refine ⟨removed, linked, code, hrun, fun E s ↦ ?_⟩
    obtain ⟨removed', linked', code', hrun', hexec⟩ := h s
    rw [hrun] at hrun'
    cases hrun'
    exact hexec E

/-- From a state whose final states are known it is a question about those. -/
theorem ensuresFrom_iff (hrun : g.run c i = .chain removed linked code) {s : State} {right : Prop}
    (hexec : ∀ E, ∃ t, Exec E code s t ∧ (post s t ↔ right)) :
    g.EnsuresFrom c i s post ↔ right := by
  constructor
  · rintro ⟨removed', linked', code', hrun', hexec'⟩
    rw [hrun] at hrun'
    cases hrun'
    obtain ⟨t, ht, hright⟩ := hexec .blank
    obtain ⟨u, hu, hpost⟩ := hexec' .blank
    rw [hu.unique ht] at hpost
    exact hright.mp hpost
  · intro hr
    refine ⟨removed, linked, code, hrun, fun E ↦ ?_⟩
    obtain ⟨t, ht, hright⟩ := hexec E
    exact ⟨t, ht, hright.mpr hr⟩

theorem ensures_iff_of_run (hrun : g.run c i = .chain removed linked code) :
    g.Ensures c i post ↔ ∀ E s, ∃ t, Exec E code s t ∧ post s t := by
  constructor
  · rintro ⟨removed', linked', code', hrun', hexec⟩
    rw [hrun] at hrun'
    cases hrun'
    exact hexec
  · intro h
    exact ⟨removed, linked, code, hrun, h⟩

/-- Where the final states are known, they have to be as wanted. -/
theorem ensures_iff (hrun : g.run c i = .chain removed linked code) {f : Ext → State → State}
    (hexec : ∀ E s, Exec E code s (f E s)) : g.Ensures c i post ↔ ∀ E s, post s (f E s) := by
  rw [ensures_iff_of_run hrun]
  constructor
  · intro h E s
    obtain ⟨t, ht, hpost⟩ := h E s
    rwa [ht.unique (hexec E s)] at hpost
  · intro h E s
    exact ⟨f E s, hexec E s, h E s⟩

theorem not_ensuresFrom_of_run
    (hrun : ∀ removed linked code, g.run c i ≠ .chain removed linked code) {s : State} :
    ¬g.EnsuresFrom c i s post := by
  rintro ⟨removed, linked, code, hcode, -⟩
  exact hrun removed linked code hcode

theorem not_ensures_of_run (hrun : ∀ removed linked code, g.run c i ≠ .chain removed linked code) :
    ¬g.Ensures c i post := by
  rintro ⟨removed, linked, code, hcode, -⟩
  exact hrun removed linked code hcode

/-- A chain without jumps has to be one that can be encoded, and then its instructions are executed
one after the other. -/
theorem ensures_iff_of_plain (hrun : g.run c i = .chain removed linked code)
    (hplain : code.all Insn.isPlain = true) :
    g.Ensures c i post ↔ straight code = true ∧ ∀ E s, post s (effects E code s) := by
  rw [List.all_eq_true] at hplain
  constructor
  · intro h
    have hstraight : straight code = true := by
      obtain ⟨t, ht, -⟩ := (ensures_iff_of_run hrun).mp h .blank .blank
      have hlegal := ht.all_legal fun j hj ↦ Insn.jumpsTo_of_isPlain (hplain j hj)
      rw [straight, List.all_eq_true]
      intro j hj
      rw [hlegal j hj, hplain j hj]
      rfl
    exact ⟨hstraight, (ensures_iff hrun fun _ s ↦ exec_straight hstraight s).mp h⟩
  · rintro ⟨hstraight, hpost⟩
    exact (ensures_iff hrun fun _ s ↦ exec_straight hstraight s).mpr hpost

end Gen

end DrAvx
