import DrAvx.Flow.Basic
import DrAvx.Machine.Frame
import DrAvx.Rewrite.Template

/-!
# Analysing templates

A data flow analysis of a template says something about all chains that come from it.  There are two
ways to use one.  Facts about a state are carried along a run, `Preserves`.  Facts about a pair of
states that have the flags in common are carried along two runs, and the second run exists because
both take the same jumps, `Tracks`.
-/

set_option autoImplicit false

namespace DrAvx

open Flow StateTransition

/-! ## Control flow -/

/-- The part an instruction plays in the control flow. -/
def Insn.ctl (i : Insn) : Ctl :=
  match i.srcs, i.op with
  | [.label n], .label => .label n
  | [.label n], .jmp => .jump n
  | [.label n], .jcc _ => .branch n
  | _, _ => .plain

def TInsn.ctl (i : TInsn) : Ctl :=
  match i.srcs, i.op with
  | [.label n], .label => .label n
  | [.label n], .jmp => .jump n
  | [.label n], .jcc _ => .branch n
  | _, _ => .plain

namespace Insn

/-- Control goes where `ctl` says. -/
theorem jumpsTo_cases (i : Insn) (fl : Flags) :
    i.jumpsTo fl = none ∧ (∀ n, i.ctl ≠ .jump n) ∨
      ∃ n, i.jumpsTo fl = some n ∧ (i.ctl = .jump n ∨ i.ctl = .branch n) := by
  obtain ⟨op, dsts, srcs⟩ := i
  unfold ctl
  split
  · rename_i n hsrcs hop
    cases hop
    exact .inl ⟨rfl, nofun⟩
  · rename_i n hsrcs hop
    cases hop
    cases hsrcs
    exact .inr ⟨n, rfl, .inl rfl⟩
  · rename_i n c hsrcs hop
    cases hop
    cases hsrcs
    simp only [jumpsTo]
    cases c.holds fl with
    | true => exact .inr ⟨n, rfl, .inr rfl⟩
    | false => exact .inl ⟨rfl, nofun⟩
  · rename_i hlabel hjmp hjcc
    refine .inl ⟨?_, nofun⟩
    unfold jumpsTo
    split
    · exact (hjmp _ ‹_› ‹_›).elim
    · exact (hjcc _ _ ‹_› ‹_›).elim
    · rfl

theorem isLabel_iff {n : ℕ} {i : Insn} : i.isLabel n = true ↔ i.ctl = .label n := by
  obtain ⟨op, dsts, srcs⟩ := i
  simp only [isLabel, Bool.and_eq_true, beq_iff_eq]
  constructor
  · rintro ⟨rfl, rfl⟩
    rfl
  · intro h
    unfold ctl at h
    split at h
    · rename_i m hsrcs hop
      cases h
      exact ⟨hop, hsrcs⟩
    all_goals cases h

/-- Only plain instructions have an effect. -/
theorem effect_of_ctl {i : Insn} (h : i.ctl ≠ .plain) (E : Ext) (s : State) : i.effect E s = s := by
  refine effect_control ?_
  unfold ctl at h
  split at h
  · exact .inl ‹_›
  · exact .inr (.inl ‹_›)
  · exact .inr (.inr ⟨_, ‹_›⟩)
  · exact absurd rfl h

end Insn

theorem Insn.jumpsTo_of_plain {i : Insn} (h : i.ctl = .plain) (fl : Flags) :
    i.jumpsTo fl = none := by
  obtain ⟨hnone, -⟩ | ⟨n, -, hn | hn⟩ := i.jumpsTo_cases fl
  · exact hnone
  · rw [h] at hn
    cases hn
  · rw [h] at hn
    cases hn

/-- Straight code that is legal runs to its end from every state. -/
theorem exec_effects {code : List Insn} (hlegal : code.all Insn.legal = true)
    (hplain : code.all (·.ctl == .plain) = true) (E : Ext) (s : State) :
    Exec E code s (effects E code s) := by
  rw [List.all_eq_true] at hlegal hplain
  exact exec_foldl hlegal (fun i hi ↦ Insn.jumpsTo_of_plain (by simpa using hplain i hi)) s

/-- The template has no labels and jumps. -/
def Template.isStraight (T : Template) : Bool := T.body.all fun i ↦ i.ctl == .plain

/-! ## Instances of templates -/

section Instances

variable {A : Type} {D : Analysis TInsn A} (hD : D.ctl = TInsn.ctl)
variable {e : Env} (he : ∀ p n, e.instr.opnd p ≠ .label n)
include he

/-- Only a label becomes a label. -/
theorem TOpnd.inst_eq_label_iff {o : TOpnd} {n : ℕ} : o.inst e = .label n ↔ o = .label n := by
  cases o with
  | app p => simp [inst, he]
  | g sz r =>
    simp only [inst, reduceCtorEq, iff_false]
    split <;> simp
  | mem p off b =>
    simp only [inst, reduceCtorEq, iff_false]
    cases e.instr.opnd p <;> simp [Opnd.withMem]
  | memBase p off b =>
    simp only [inst, reduceCtorEq, iff_false]
    cases e.instr.opnd p <;> simp [Opnd.withMem]
  | _ => simp [inst]

theorem TInsn.ctl_inst (i : TInsn) : (i.inst e).ctl = i.ctl := by
  obtain ⟨op, dsts, srcs⟩ := i
  -- an instance has a label as its only source only if the template has
  have hsrcs {n : ℕ} (h : srcs.map (TOpnd.inst e) = [.label n]) : srcs = [.label n] := by
    obtain ⟨o, rfl, ho⟩ := List.map_eq_singleton_iff.mp h
    rw [(TOpnd.inst_eq_label_iff he).mp ho]
  unfold ctl
  split
  · rename_i n hlabel hop
    cases hop
    cases hlabel
    rfl
  · rename_i n hlabel hop
    cases hop
    cases hlabel
    rfl
  · rename_i n c hlabel hop
    cases hop
    cases hlabel
    rfl
  · rename_i hlabel hjmp hjcc
    unfold Insn.ctl
    split
    · exact (hlabel _ (hsrcs ‹_›) ‹_›).elim
    · exact (hjmp _ (hsrcs ‹_›) ‹_›).elim
    · exact (hjcc _ _ (hsrcs ‹_›) ‹_›).elim
    · rfl

/-- A label is where it is in the template. -/
theorem findIdx?_map_inst (body : List TInsn) (n : ℕ) :
    (body.map (TInsn.inst e)).findIdx? (Insn.isLabel n) =
      body.findIdx? fun i ↦ i.ctl == .label n := by
  rw [List.findIdx?_map]
  congr 1
  funext j
  rw [Bool.eq_iff_iff, Function.comp, Insn.isLabel_iff, TInsn.ctl_inst he, beq_iff_eq]

omit he in
/-- A branch is taken if its condition holds. -/
theorem TInsn.isSome_jumpsTo {i : TInsn} {n : ℕ} {c : Cond} (hn : i.ctl = .branch n)
    (hc : i.op = .jcc c) (fl : Flags) : ((i.inst e).jumpsTo fl).isSome = c.holds fl := by
  obtain ⟨op, dsts, srcs⟩ := i
  dsimp only at hc
  subst hc
  unfold ctl at hn
  split at hn <;> cases hn
  next hop hsrcs =>
    dsimp only at hsrcs
    subst hsrcs
    simp only [Insn.jumpsTo, inst, List.map_cons, List.map_nil, TOpnd.inst]
    cases c.holds fl <;> rfl

include hD

/-- Control stays on the edges of the template. -/
theorem edge_of_nextPc {body : List TInsn} {i : TInsn} {pc pc' : ℕ} {fl : Flags}
    (h : nextPc (body.map (TInsn.inst e)) pc (i.inst e) fl = some pc') :
    D.Edge body pc i ((i.inst e).jumpsTo fl).isSome pc' := by
  have hfind (n : ℕ) : (body.map (TInsn.inst e)).findIdx? (Insn.isLabel n) =
      body.findIdx? (D.isLabel n) := by
    rw [findIdx?_map_inst he]
    congr 1
    funext j
    rw [Analysis.isLabel, hD]
  rw [nextPc] at h
  rw [Analysis.Edge, hD, ← TInsn.ctl_inst he]
  rcases Insn.jumpsTo_cases (i.inst e) fl with ⟨hnone, hjump⟩ | ⟨n, hsome, hctl⟩
  · rw [hnone] at h ⊢
    cases hc : (i.inst e).ctl with
    | jump n => exact absurd hc (hjump n)
    | _ => exact (Option.some.inj h).symm
  · rw [hsome] at h ⊢
    simp only [hfind] at h
    rcases hctl with hctl | hctl <;> rw [hctl] <;> exact h

/-! ## Runs -/

variable {E : Ext} {body : List TInsn} {inv : ℕ → Option A} {a b : A} {fin : Option A} {s s' t : State}

/-- A step of a chain follows an edge of the template. -/
theorem exists_edge_of_next {pc pc' : ℕ}
    (h : next E (body.map (TInsn.inst e)) (pc, s) = some (pc', t)) :
    ∃ i, body[pc]? = some i ∧ (i.inst e).legal = true ∧ t = (i.inst e).effect E s ∧
      nextPc (body.map (TInsn.inst e)) pc (i.inst e) s.flags = some pc' ∧
      D.Edge body pc i ((i.inst e).jumpsTo s.flags).isSome pc' := by
  rw [next, List.getElem?_map] at h
  cases hi : body[pc]? with
  | none => simp [hi] at h
  | some i =>
    simp only [hi, Option.map_some] at h
    split at h
    case isFalse => cases h
    case isTrue hlegal =>
      obtain ⟨q, hq, heq⟩ := Option.map_eq_some_iff.mp h
      cases heq
      exact ⟨i, rfl, hlegal, rfl, hq, edge_of_nextPc hD he hq⟩

/-- What a relation between two states with the same flags has to satisfy to be carried along two
runs from `s` and another state: weaker facts say less, plain instructions do to it what the analysis
says, and so do branches. -/
structure Tracks (D : Analysis TInsn A) (e : Env) (E : Ext) (body : List TInsn) (s : State)
    (R : A → State → State → Prop) : Prop where
  flags : ∀ a s₁ s₂, R a s₁ s₂ → s₂.flags = s₁.flags
  weaken : ∀ a b s₁ s₂, D.le a b = true → R a s₁ s₂ → R b s₁ s₂
  step : ∀ pc i, body[pc]? = some i → ∀ a s₁ s₂,
    Reaches (next E (body.map (TInsn.inst e))) (0, s) (pc, s₁) → D.needs i a = true →
      (i.inst e).legal = true → R a s₁ s₂ →
      R (D.transfer i a) ((i.inst e).effect E s₁) ((i.inst e).effect E s₂)
  branch : ∀ i ∈ body, ∀ n, D.ctl i = .branch n → ∀ a s₁ s₂, R a s₁ s₂ →
    ∃ b, D.atBranch i ((i.inst e).jumpsTo s₁.flags).isSome a = some b ∧ R b s₁ s₂

/-- The facts are carried along two runs, as far as the first of them goes. -/
theorem Tracks.of_reaches {R : A → State → State → Prop} (hR : Tracks D e E body s R)
    (hscan : D.scan inv (some a) body = some fin) (hs : R a s s') {c : ℕ × State}
    (hc : Reaches (next E (body.map (TInsn.inst e))) (0, s) c) :
    ∃ a' s₂, D.factAt inv (some a) body c.1 = some a' ∧ R a' c.2 s₂ ∧
      Reaches (next E (body.map (TInsn.inst e))) (0, s') (c.1, s₂) := by
  -- the second run is where the first one is, and the fact there holds of both states
  induction hc with
  | refl =>
    obtain ⟨a', ha', h⟩ := Analysis.factAt_zero hscan
    exact ⟨a', s', ha', h.elim (fun h ↦ h ▸ hs) fun h ↦ hR.weaken _ _ _ _ h hs, .refl⟩
  | @tail c c' hc hnext ih =>
    obtain ⟨pc, s₁⟩ := c
    obtain ⟨pc', _⟩ := c'
    obtain ⟨a', s₂, ha', hs', hreach⟩ := ih
    obtain ⟨i, hi, hlegal, rfl, hpc', hedge⟩ := exists_edge_of_next hD he hnext
    obtain ⟨b, hb, hout⟩ : ∃ b, D.out i ((i.inst e).jumpsTo s₁.flags).isSome a' = some b ∧
        R b ((i.inst e).effect E s₁) ((i.inst e).effect E s₂) := by
      by_cases hplain : D.ctl i = .plain
      · have hneeds := Analysis.needs_of_scan hscan hi ha' hplain
        exact ⟨_, by simp [Analysis.out, hplain], hR.step pc i hi a' s₁ s₂ hc hneeds hlegal hs'⟩
      · have hctl : (i.inst e).ctl ≠ .plain := by rwa [TInsn.ctl_inst he, ← hD]
        rw [Insn.effect_of_ctl hctl, Insn.effect_of_ctl hctl]
        cases hn : D.ctl i with
        | plain => exact absurd hn hplain
        | branch n =>
          obtain ⟨b, hb, h⟩ := hR.branch i (List.mem_of_getElem? hi) n hn a' s₁ s₂ hs'
          exact ⟨b, by simpa [Analysis.out, hn] using hb, h⟩
        | _ => exact ⟨a', by simp [Analysis.out, hn], hs'⟩
    obtain ⟨b', hb', h⟩ := Analysis.exists_fact_of_scan hscan hi ha' hedge hb
    refine ⟨b', (i.inst e).effect E s₂, hb',
      h.elim (fun h ↦ h ▸ hout) fun h ↦ hR.weaken _ _ _ _ h hout, hreach.tail ?_⟩
    rw [Option.mem_def, next, List.getElem?_map, hi, Option.map_some]
    simp only [hlegal, if_true, hR.flags _ _ _ hs', hpc', Option.map_some]

/-- The facts are carried along two runs to their end. -/
theorem Tracks.of_exec {R : A → State → State → Prop} (hR : Tracks D e E body s R)
    (hscan : D.scan inv (some a) body = some (some b))
    (hexec : Exec E (body.map (TInsn.inst e)) s t) (hs : R a s s') :
    ∃ t', Exec E (body.map (TInsn.inst e)) s' t' ∧ R b t t' := by
  obtain ⟨b', t', hb', ht, hexec'⟩ := hR.of_reaches hD he hscan hs hexec
  rw [List.length_map, Analysis.factAt_length hscan] at hb'
  exact ⟨t', hexec', Option.some.inj hb' ▸ ht⟩

/-- What a predicate has to satisfy to be carried along a run from `s`. -/
structure Preserves (D : Analysis TInsn A) (e : Env) (E : Ext) (body : List TInsn) (s : State)
    (P : A → State → Prop) : Prop where
  weaken : ∀ a b s₁, D.le a b = true → P a s₁ → P b s₁
  step : ∀ pc i, body[pc]? = some i → ∀ a s₁,
    Reaches (next E (body.map (TInsn.inst e))) (0, s) (pc, s₁) → D.needs i a = true →
      (i.inst e).legal = true → P a s₁ → P (D.transfer i a) ((i.inst e).effect E s₁)
  branch : ∀ i ∈ body, ∀ n, D.ctl i = .branch n → ∀ a s₁, P a s₁ →
    ∃ b, D.atBranch i ((i.inst e).jumpsTo s₁.flags).isSome a = some b ∧ P b s₁

omit hD he in
/-- One run is two runs that are the same. -/
theorem Preserves.tracks {P : A → State → Prop} (hP : Preserves D e E body s P) :
    Tracks D e E body s fun a s₁ s₂ ↦ s₂ = s₁ ∧ P a s₁ where
  flags := fun _ _ _ h ↦ h.1 ▸ rfl
  weaken := fun _ _ _ _ hle h ↦ ⟨h.1, hP.weaken _ _ _ hle h.2⟩
  step := fun pc i hi a s₁ _ hreach hneeds hlegal h ↦
    ⟨h.1 ▸ rfl, hP.step pc i hi a s₁ hreach hneeds hlegal h.2⟩
  branch := fun i hi n hn a s₁ _ h ↦ by
    obtain ⟨b, hb, hs⟩ := hP.branch i hi n hn a s₁ h.2
    exact ⟨b, hb, h.1, hs⟩

/-- The facts hold at the end of a completed run. -/
theorem Preserves.of_exec {P : A → State → Prop} (hP : Preserves D e E body s P)
    (hscan : D.scan inv (some a) body = some (some b))
    (hexec : Exec E (body.map (TInsn.inst e)) s t) (hs : P a s) : P b t := by
  obtain ⟨-, -, -, ht⟩ := hP.tracks.of_exec hD he hscan hexec ⟨rfl, hs⟩
  exact ht

omit hD he in
/-- A relation and a predicate of the first state, each carried along by an analysis of its own. -/
theorem Tracks.prod {B : Type} {D' : Analysis TInsn B} {R : A → State → State → Prop}
    {Q : B → State → Prop} (hR : Tracks D e E body s R) (hQ : Preserves D' e E body s Q)
    (hctl : D'.ctl = D.ctl) :
    Tracks (D.prod D') e E body s fun p s₁ s₂ ↦ R p.1 s₁ s₂ ∧ Q p.2 s₁ where
  flags := fun p s₁ s₂ h ↦ hR.flags _ _ _ h.1
  weaken := fun p q s₁ s₂ hle h ↦ by
    obtain ⟨hle₁, hle₂⟩ := Bool.and_eq_true_iff.mp hle
    exact ⟨hR.weaken _ _ _ _ hle₁ h.1, hQ.weaken _ _ _ hle₂ h.2⟩
  step := fun pc i hi p s₁ s₂ hreach hneeds hlegal h ↦ by
    obtain ⟨hneeds₁, hneeds₂⟩ := Bool.and_eq_true_iff.mp hneeds
    exact ⟨hR.step pc i hi _ _ _ hreach hneeds₁ hlegal h.1,
      hQ.step pc i hi _ _ hreach hneeds₂ hlegal h.2⟩
  branch := fun i hi n hn p s₁ s₂ h ↦ by
    obtain ⟨a, ha, hs⟩ := hR.branch i hi n hn p.1 s₁ s₂ h.1
    obtain ⟨b, hb, hs'⟩ := hQ.branch i hi n (hctl ▸ hn) p.2 s₁ h.2
    exact ⟨(a, b), by simp [Analysis.prod, ha, hb], hs, hs'⟩

omit hD he in
/-- Two predicates, each carried along by an analysis of its own. -/
theorem Preserves.prod {B : Type} {D' : Analysis TInsn B} {P : A → State → Prop}
    {Q : B → State → Prop} (hP : Preserves D e E body s P) (hQ : Preserves D' e E body s Q)
    (hctl : D'.ctl = D.ctl) :
    Preserves (D.prod D') e E body s fun p s₁ ↦ P p.1 s₁ ∧ Q p.2 s₁ where
  weaken := fun p q s₁ hle h ↦ by
    obtain ⟨hle₁, hle₂⟩ := Bool.and_eq_true_iff.mp hle
    exact ⟨hP.weaken _ _ _ hle₁ h.1, hQ.weaken _ _ _ hle₂ h.2⟩
  step := fun pc i hi p s₁ hreach hneeds hlegal h ↦ by
    obtain ⟨hneeds₁, hneeds₂⟩ := Bool.and_eq_true_iff.mp hneeds
    exact ⟨hP.step pc i hi _ _ hreach hneeds₁ hlegal h.1,
      hQ.step pc i hi _ _ hreach hneeds₂ hlegal h.2⟩
  branch := fun i hi n hn p s₁ h ↦ by
    obtain ⟨a, ha, hs⟩ := hP.branch i hi n hn p.1 s₁ h.1
    obtain ⟨b, hb, hs'⟩ := hQ.branch i hi n (hctl ▸ hn) p.2 s₁ h.2
    exact ⟨(a, b), by simp [Analysis.prod, ha, hb], hs, hs'⟩

end Instances

end DrAvx
