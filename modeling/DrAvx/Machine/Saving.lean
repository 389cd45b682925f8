import DrAvx.Machine.Effects

/-!
# Saving registers on the stack

Chains that need general purpose registers push them, with or without the flags, and pop them in the
end.  Whatever happens in between, the registers come back if the stack pointer does and the memory
they were pushed to has not been written.

## What is here

* `Saved.push`, `Saved.pop`: what is saved and restored.
* `effects_pushes`: the state after everything has been pushed.
* `effects_pops`: the state after everything has been popped, `restored`.
* `Exec.saving`, `Exec.saving_keeps`: code between pushes and pops.
-/

set_option autoImplicit false

namespace DrAvx

open Function Bits

/-! ## One register -/

/-- So many bytes at an offset from the stack pointer. -/
def stackOpnd (disp : ℤ) (b : ℕ) : Opnd := .mem .scratch (.baseDisp none (some .rsp) .none 0 disp) b

/-- What is saved: a general purpose register, or the flags. -/
inductive Saved
  | reg (g : Gpr)
  | flags
  deriving DecidableEq

namespace Saved

def push : Saved → Insn
  | reg g => ⟨.push, [.gpr .q .rsp, stackOpnd (-8) 8], [.gpr .q g, .gpr .q .rsp]⟩
  | flags => ⟨.pushf, [.gpr .q .rsp, stackOpnd (-8) 8], [.gpr .q .rsp]⟩

def pop : Saved → Insn
  | reg g => ⟨.pop, [.gpr .q g, .gpr .q .rsp], [.gpr .q .rsp, stackOpnd 0 8]⟩
  | flags => ⟨.popf, [.gpr .q .rsp], [.gpr .q .rsp, stackOpnd 0 8]⟩

/-- What is stored. -/
def value (s : State) : Saved → Val
  | reg g => (s.gpr g).setWidth 256
  | flags => s.flags.image

/-- The state in which it is restored. -/
def put (v : Val) (s : State) : Saved → State
  | reg g => { s with gpr := update s.gpr g (v.setWidth 64) }
  | flags => { s with flags := .ofImage v }

end Saved

section One

variable (E : Ext) (s : State)

theorem ea_rsp (disp : ℤ) :
    s.ea (.baseDisp none (some .rsp) .none 0 disp) = s.gpr .rsp + BitVec.ofInt 64 disp := by
  rw [State.ea, State.seg, State.base, BitVec.ofNat_eq_ofNat, BitVec.zero_add]

/-- A store to the stack. -/
theorem write_stackOpnd (p : State) (disp : ℤ) (b : ℕ) (v : Val) :
    s.write false p (stackOpnd disp b) v =
      { s with mem := store s.mem (p.gpr .rsp + BitVec.ofInt 64 disp) b v } := by
  rw [← ea_rsp]
  rfl

theorem read_stackOpnd (n : ℕ) (disp : ℤ) (b : ℕ) :
    s.read n (stackOpnd disp b) = load s.mem (s.gpr .rsp + BitVec.ofInt 64 disp) b := by
  rw [← ea_rsp]
  rfl

theorem write_rsp_sub (p : State) :
    s.write false p (.gpr .q .rsp) ((p.gpr .rsp).setWidth 256 - 8) =
      { s with gpr := update s.gpr .rsp (p.gpr .rsp - 8) } := by
  have hwrite : s.write false p (.gpr .q .rsp) ((p.gpr .rsp).setWidth 256 - 8) =
      { s with gpr := update s.gpr .rsp (((p.gpr .rsp).setWidth 256 - 8).setWidth 64) } := rfl
  have h8 : (8 : Val).setWidth 64 = 8 := by decide
  rw [hwrite, setWidth_sub_64, setWidth_setWidth_64, h8]

theorem write_rsp_add (p : State) :
    s.write false p (.gpr .q .rsp) ((p.gpr .rsp).setWidth 256 + 8) =
      { s with gpr := update s.gpr .rsp (p.gpr .rsp + 8) } := by
  have hwrite : s.write false p (.gpr .q .rsp) ((p.gpr .rsp).setWidth 256 + 8) =
      { s with gpr := update s.gpr .rsp (((p.gpr .rsp).setWidth 256 + 8).setWidth 64) } := rfl
  have h8 : (8 : Val).setWidth 64 = 8 := by decide
  rw [hwrite, BitVec.setWidth_add _ _ (by decide), setWidth_setWidth_64, h8]

/-- An instruction with two results. -/
theorem effect_two {i : Insn} {d d' : Opnd} {v v' : Val} (hd : i.dsts = [d, d'])
    (hv : i.outputs E s = [v, v']) (hflags : i.op.setsFlags = false) (hsse : i.legacySse = false) :
    i.effect E s = (s.write false s d' v').write false s d v := by
  rw [Insn.effect, hd, hv, hflags, hsse]
  rfl

theorem effect_push (x : Saved) : x.push.effect E s =
    { s with
      gpr := update s.gpr .rsp (s.gpr .rsp - 8)
      mem := store s.mem (s.gpr .rsp - 8) 8 (x.value s) } := by
  have hdisp : s.gpr .rsp + BitVec.ofInt 64 (-8) = s.gpr .rsp - 8 := by
    rw [show BitVec.ofInt 64 (-8) = -8 by decide, ← BitVec.sub_eq_add_neg]
  have hv : x.push.outputs E s = [(s.gpr .rsp).setWidth 256 - 8, x.value s] := by
    rw [← low_setWidth_64 (s.gpr .rsp)]
    cases x with
    | reg g =>
      rw [Saved.value, ← low_setWidth_64 (s.gpr g)]
      rfl
    | flags => rfl
  have heffect : x.push.effect E s = (s.write false s (stackOpnd (-8) 8) (x.value s)).write false s
      (.gpr .q .rsp) ((s.gpr .rsp).setWidth 256 - 8) := by
    cases x with
    | reg g => exact effect_two E s rfl hv rfl rfl
    | flags => exact effect_two E s rfl hv rfl rfl
  rw [heffect, write_rsp_sub, write_stackOpnd, hdisp]

theorem effect_pop {x : Saved} (hx : x ≠ .reg .rsp) : x.pop.effect E s =
    x.put (load s.mem (s.gpr .rsp) 8)
      { s with gpr := update s.gpr .rsp (s.gpr .rsp + 8) } := by
  have hload : s.read 4 (stackOpnd 0 8) = load s.mem (s.gpr .rsp) 8 := by
    rw [read_stackOpnd, show BitVec.ofInt 64 0 = 0#64 by decide, BitVec.add_zero]
  cases x with
  | reg g =>
    have hv : (Saved.reg g).pop.outputs E s =
        [s.read 4 (stackOpnd 0 8), (s.gpr .rsp).setWidth 256 + 8] := by
      rw [← low_setWidth_64 (s.gpr .rsp)]
      rfl
    rw [effect_two E s rfl hv rfl rfl, write_rsp_add, hload]
    rfl
  | flags =>
    have hv : Saved.flags.pop.outputs E s = [(s.gpr .rsp).setWidth 256 + 8] := by
      rw [← low_setWidth_64 (s.gpr .rsp)]
      rfl
    have heffect : Saved.flags.pop.effect E s = { s.write false s (.gpr .q .rsp)
        ((s.gpr .rsp).setWidth 256 + 8) with flags := .ofImage (s.read 4 (stackOpnd 0 8)) } := by
      rw [Insn.effect, hv]
      rfl
    rw [heffect, write_rsp_add, hload]
    rfl

end One

theorem ofImage_low_image (fl : Flags) : Flags.ofImage (low 8 fl.image) = fl := by
  obtain ⟨cf, pf, af, zf, sf, of⟩ := fl
  revert cf pf af zf sf of
  decide

theorem Saved.put_value (s u : State) (x : Saved) : x.put (low 8 (x.value s)) u =
    match x with
    | .reg g => { u with gpr := update u.gpr g (s.gpr g) }
    | .flags => { u with flags := s.flags } := by
  cases x with
  | reg g => rw [put, value, low_setWidth_64, setWidth_setWidth_64]
  | flags => rw [put, value, ofImage_low_image]

/-! ## Several registers -/

section Several

variable (E : Ext) (xs : List Saved) (s u : State)

def pushes : List Insn := xs.map Saved.push

def pops : List Insn := xs.reverse.map Saved.pop

theorem straight_pushes : straight (pushes xs) = true := by
  rw [straight, pushes, List.all_map, List.all_eq_true]
  intro x _
  cases x with
  | reg g => rfl
  | flags => rfl

theorem straight_pops : straight (pops xs) = true := by
  rw [straight, pops, List.all_map, List.all_eq_true]
  intro x _
  cases x with
  | reg g => rfl
  | flags => rfl

/-- Where the stack pointer is after everything has been pushed. -/
def below (sp : BitVec 64) (n : ℕ) : BitVec 64 := sp - BitVec.ofNat 64 n

theorem below_below (sp : BitVec 64) (m n : ℕ) : below (below sp m) n = below sp (m + n) := by
  rw [below, below, below, BitVec.ofNat_add]
  generalize BitVec.ofNat 64 m = x, BitVec.ofNat 64 n = y
  bv_omega

theorem below_add (sp : BitVec 64) (m n : ℕ) : below sp (m + n) + BitVec.ofNat 64 m = below sp n := by
  rw [below, below, BitVec.ofNat_add]
  generalize BitVec.ofNat 64 m = x, BitVec.ofNat 64 n = y
  bv_omega

/-- Pushing changes the stack pointer, and memory below it. -/
theorem effects_pushes : ∃ mem, effects E (pushes xs) s =
      { s with gpr := update s.gpr .rsp (below (s.gpr .rsp) (8 * xs.length)), mem := mem } ∧
    ∀ a, (∀ k < 8 * xs.length, a ≠ below (s.gpr .rsp) (8 * xs.length) + BitVec.ofNat 64 k) →
      mem a = s.mem a := by
  induction xs generalizing s with
  | nil =>
    refine ⟨s.mem, ?_, fun _ _ ↦ rfl⟩
    have hsp : below (s.gpr .rsp) 0 = s.gpr .rsp := BitVec.sub_zero _
    rw [List.length_nil, Nat.mul_zero, hsp, update_eq_self]
    rfl
  | cons x xs ih =>
    obtain ⟨mem, hmem, houtside⟩ := ih (x.push.effect E s)
    have heffect := effect_push E s x
    have hsp : (x.push.effect E s).gpr .rsp = below (s.gpr .rsp) 8 := by
      rw [heffect]
      exact update_self Gpr.rsp (s.gpr .rsp - 8) s.gpr
    rw [hsp, below_below] at hmem houtside
    have hlen : 8 * (x :: xs).length = 8 + 8 * xs.length := by rw [List.length_cons]; omega
    refine ⟨mem, ?_, fun a ha ↦ ?_⟩
    · rw [hlen, pushes, List.map_cons, effects_cons, ← pushes, hmem, heffect]
      simp only [update_idem]
    · rw [hlen] at ha
      rw [houtside a fun k hk ↦ ha k (by omega), heffect]
      refine store_apply_of_ne _ _ fun k hk ↦ ?_
      have hne := ha (8 * xs.length + k) (by omega)
      rw [BitVec.ofNat_add, ← BitVec.add_assoc, Nat.add_comm 8, below_add] at hne
      exact hne

/-- Pushing and popping does not touch the slots of opmask registers. -/
theorem kslot_pushes : (effects E (pushes xs) s).kslot = s.kslot := by
  obtain ⟨mem, heffects, -⟩ := effects_pushes E xs s
  rw [heffects]

theorem kslot_pops : (effects E (pops xs) s).kslot = s.kslot := by
  rw [pops]
  induction xs.reverse generalizing s with
  | nil => rfl
  | cons x ys ih =>
    rw [List.map_cons, effects_cons, ih]
    funext k
    refine Insn.effect_kslot fun b hb ↦ ?_
    cases x with
    | reg g => simp [Saved.pop] at hb
    | flags => simp [Saved.pop] at hb

/-- The state `u` with the registers, the flags and the stack pointer that have been saved in `s`. -/
def restored : State :=
  { u with
    gpr := fun g ↦ if g = .rsp ∨ .reg g ∈ xs then s.gpr g else u.gpr g
    flags := if .flags ∈ xs then s.flags else u.flags }

variable {E xs s u}

/-- What was pushed can be popped. -/
theorem effects_pops (hxs : .reg .rsp ∉ xs) (hlen : 8 * xs.length < 2 ^ 64)
    (hsp : u.gpr .rsp = below (s.gpr .rsp) (8 * xs.length))
    (hmem : ∀ k < 8 * xs.length, u.mem (u.gpr .rsp + BitVec.ofNat 64 k) =
      (effects E (pushes xs) s).mem (u.gpr .rsp + BitVec.ofNat 64 k)) :
    effects E (pops xs) u = restored xs s u := by
  induction xs generalizing s with
  | nil =>
    have hrsp : u.gpr .rsp = s.gpr .rsp := by
      rw [hsp, List.length_nil, Nat.mul_zero]
      exact BitVec.sub_zero _
    have hgpr : (fun g ↦ if g = .rsp ∨ Saved.reg g ∈ ([] : List Saved) then s.gpr g else u.gpr g) =
        u.gpr := by
      funext g
      split
      next h =>
        obtain rfl : g = .rsp := by simpa using h
        exact hrsp.symm
      · rfl
    rw [restored, hgpr]
    rfl
  | cons x xs ih =>
    rw [List.mem_cons, not_or] at hxs
    rw [List.length_cons] at hlen hmem
    have hlen' : 8 * (x :: xs).length = 8 * xs.length + 8 := by rw [List.length_cons]; omega
    have heffect := effect_push E s x
    have hsp' : (x.push.effect E s).gpr .rsp = below (s.gpr .rsp) 8 := by
      rw [heffect]
      exact update_self Gpr.rsp (s.gpr .rsp - 8) s.gpr
    rw [hlen', Nat.add_comm] at hsp
    have hpops : effects E (pops xs) u = restored xs (x.push.effect E s) u := by
      refine ih hxs.2 (by omega) ?_ fun k hk ↦ hmem k (by omega)
      rw [hsp, hsp', below_below]
    -- the first register is still where it was pushed to
    have hload : load u.mem (below (s.gpr .rsp) 8) 8 = low 8 (x.value s) := by
      obtain ⟨mem, hpushed, houtside⟩ := effects_pushes E xs (x.push.effect E s)
      rw [hsp', below_below] at hpushed houtside
      refine Eq.trans (load_congr fun k hk ↦ ?_)
        (load_store_self s.mem (below (s.gpr .rsp) 8) (x.value s) (by decide))
      have hk' := hmem (8 * xs.length + k) (by omega)
      rw [hsp, BitVec.ofNat_add, ← BitVec.add_assoc, Nat.add_comm 8, below_add] at hk'
      rw [hk', pushes, List.map_cons, effects_cons, ← pushes, hpushed]
      refine (houtside _ fun l hl heq ↦ ?_).trans (by rw [heffect]; rfl)
      rw [← below_add (s.gpr .rsp) (8 * xs.length) 8, BitVec.add_assoc, ← BitVec.ofNat_add,
        Nat.add_comm 8] at heq
      have := add_ofNat_inj _ (by omega) (by omega) heq
      omega
    have hrsp : (restored xs (x.push.effect E s) u).gpr .rsp = below (s.gpr .rsp) 8 := by
      rw [← hsp']
      simp [restored]
    have hup : below (s.gpr .rsp) 8 + 8 = s.gpr .rsp := by
      rw [below]
      bv_omega
    have hpop : effects E (pops (x :: xs)) u = x.pop.effect E (effects E (pops xs) u) := by
      rw [pops, List.reverse_cons, List.map_append, effects_append]
      rfl
    rw [hpop, hpops, effect_pop E _ (Ne.symm hxs.1), hrsp, hup]
    have hmem' : (restored xs (x.push.effect E s) u).mem = u.mem := rfl
    rw [hmem', hload, Saved.put_value]
    have hother (g : Gpr) (hg : g ≠ .rsp) : (x.push.effect E s).gpr g = s.gpr g := by
      rw [heffect]
      exact update_of_ne hg _ _
    have hfl : (x.push.effect E s).flags = s.flags := by rw [heffect]
    cases x with
    | reg g₀ =>
      ext1
      · funext g
        simp only [restored, update_apply, List.mem_cons, Saved.reg.injEq]
        by_cases hg₀ : g = g₀
        · simp [hg₀]
        · by_cases hg : g = .rsp
          · subst hg
            simp [hg₀]
          · simp [hg₀, hg, hother g hg]
      · simp [restored, hfl]
      all_goals rfl
    | flags =>
      ext1
      · funext g
        simp only [restored, update_apply, List.mem_cons, reduceCtorEq, false_or]
        by_cases hg : g = .rsp
        · simp [hg]
        · simp [hg, hother g hg]
      · simp [restored]
      all_goals rfl

/-- Code between pushes and pops. -/
theorem Exec.saving {code : List Insn} (hxs : .reg .rsp ∉ xs) (hlen : 8 * xs.length < 2 ^ 64)
    (h : Exec E code (effects E (pushes xs) s) u)
    (hsp : u.gpr .rsp = below (s.gpr .rsp) (8 * xs.length))
    (hmem : ∀ k < 8 * xs.length, u.mem (u.gpr .rsp + BitVec.ofNat 64 k) =
      (effects E (pushes xs) s).mem (u.gpr .rsp + BitVec.ofNat 64 k)) :
    Exec E (pushes xs ++ code ++ pops xs) s (restored xs s u) := by
  rw [← effects_pops hxs hlen hsp hmem]
  exact Exec.wrap (straight_pushes xs) (straight_pops xs) h

/-- Code between pushes and pops that changes no registers but those that are saved. -/
theorem Exec.saving_keeps (xs : List Saved) {code : List Insn} {gs : List Gpr}
    (hxs : .reg .rsp ∉ xs) (hlen : 8 * xs.length < 2 ^ 64) (hgs : ∀ g ∈ gs, .reg g ∈ xs)
    (h : Exec E code (effects E (pushes xs) s) u) (hkeeps : Keeps gs (effects E (pushes xs) s) u) :
    Exec E (pushes xs ++ code ++ pops xs) s
      { s with flags := if .flags ∈ xs then s.flags else u.flags, mem := u.mem } := by
  have hrsp : .rsp ∉ gs := fun hmem ↦ hxs (hgs _ hmem)
  obtain ⟨mem, hpushes, -⟩ := effects_pushes E xs s
  have hstate : restored xs s u =
      { s with flags := if .flags ∈ xs then s.flags else u.flags, mem := u.mem } := by
    have hgpr (g : Gpr) (hg : ¬(g = .rsp ∨ .reg g ∈ xs)) : u.gpr g = s.gpr g := by
      rw [not_or] at hg
      rw [hkeeps.gpr g fun hmem ↦ hg.2 (hgs g hmem), hpushes]
      exact update_of_ne hg.1 _ _
    ext1
    · funext g
      by_cases hg : g = .rsp ∨ .reg g ∈ xs
      · exact if_pos hg
      · exact (if_neg hg).trans (hgpr g hg)
    · rfl
    · rw [restored, hkeeps.rest, hpushes]
    · rw [restored, hkeeps.rest, hpushes]
    · rw [restored, hkeeps.rest, hpushes]
    · rw [restored, hkeeps.rest, hpushes]
    · rw [restored, hkeeps.rest, hpushes]
    · rfl
    · rw [restored, hkeeps.rest, hpushes]
  rw [← hstate]
  refine h.saving hxs hlen ?_ fun k _ ↦ congrFun hkeeps.mem _
  rw [hkeeps.gpr _ hrsp, hpushes]
  exact update_self Gpr.rsp _ s.gpr

end Several

end DrAvx
