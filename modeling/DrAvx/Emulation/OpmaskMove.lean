import DrAvx.Emulation.Ensures
import DrAvx.Handlers.Opmask

/-!
# Moves of opmask registers

A move copies the low bits of an opmask register or a general purpose register and clears what is
above them.  The handlers do so in a different way for every width and direction, with fixed scratch
registers that are not compared with the operands, and each way goes wrong for operands of its own.

## What is here

* `KMove`, `kmov`: the forms of a move, and the handlers.
* `KMove.left`: what the chain leaves in the destination.
* `kmov_ensures_iff`: for which widths and operands that is the value that was to be moved.
-/

set_option autoImplicit false

namespace DrAvx

open Function

/-- The forms of a move. -/
inductive KMove
  | between (d a : KReg)
  | fromGpr (d : KReg) (g : Gpr)
  | toGpr (g : Gpr) (a : KReg)

/-- The handler for a width. -/
def kmov : GprSize → Gen
  | .b => rwFuncKmovb
  | .w => rwFuncKmovw
  | .d => rwFuncKmovd
  | .q => rwFuncKmovq

/-- The low bits of a word, and nothing above them. -/
def lowBits (sz : GprSize) (v : BitVec 64) : BitVec 64 := (v.setWidth (8 * sz.bytes)).setWidth 64

namespace KMove

variable (sz : GprSize) (f : KMove) (E : Ext) (s : State)

/-- The general purpose register of the instruction has 64 bits only for quadwords. -/
def gprSize : GprSize → GprSize
  | .q => .q
  | _ => .d

/-- The instruction as the decoder delivers it. -/
def instr : AppInstr :=
  match f with
  | between d a => ⟨[.opmask d], [.opmask a], false⟩
  | fromGpr d g => ⟨[.opmask d], [.gpr (gprSize sz) g], false⟩
  | toGpr g a => ⟨[.gpr (gprSize sz) g], [.opmask a], false⟩

/-- The value of the source. -/
def source : BitVec 64 :=
  match f with
  | between _ a | toGpr _ a => s.kslot a
  | fromGpr _ g => s.gpr g

/-- The value of the destination. -/
def dest (t : State) : BitVec 64 :=
  match f with
  | between d _ | fromGpr d _ => t.kslot d
  | toGpr g _ => t.gpr g

/-! ## The chains -/

/-- What is pushed in the beginning and popped in the end. -/
def saves : List Saved :=
  match sz, f with
  | .b, between _ _ | .b, toGpr _ _ => [.flags]
  | .b, fromGpr _ _ => [.flags, .reg .r15]
  | _, _ => []

/-- The rest of the chain. -/
def code : List Insn :=
  match sz, f with
  | .b, between d a =>
    [⟨.movSt, [.rslot 1 8], [.gpr .q .r11]⟩, ⟨.movSt, [.rslot 2 8], [.gpr .q .r12]⟩,
      ⟨.xor, [.gpr .q .r12], [.gpr .q .r12, .gpr .q .r12]⟩, ⟨.movSt, [.kslot d 8], [.gpr .q .r12]⟩,
      ⟨.movLd, [.gpr .b .r11], [.kslot a 1]⟩, ⟨.movSt, [.kslot d 1], [.gpr .b .r11]⟩,
      ⟨.movLd, [.gpr .q .r12], [.rslot 2 8]⟩, ⟨.movLd, [.gpr .q .r11], [.rslot 1 8]⟩]
  | .b, fromGpr d g =>
    [⟨.xor, [.gpr .q .r15], [.gpr .q .r15, .gpr .q .r15]⟩, ⟨.movSt, [.kslot d 8], [.gpr .q .r15]⟩,
      ⟨.movSt, [.kslot d 1], [.gpr .b g]⟩]
  | .b, toGpr g a =>
    [⟨.xor, [.gpr .d g], [.gpr .d g, .gpr .d g]⟩, ⟨.movLd, [.gpr .b g], [.kslot a 1]⟩]
  | .w, between d a =>
    [⟨.movSt, [.rslot 1 8], [.gpr .q .rax]⟩, ⟨.movLd, [.gpr .q .rax], [.kslot a 8]⟩,
      ⟨.movSt, [.kslot d 2], [.gpr .w .rax]⟩, ⟨.movLd, [.gpr .q .rax], [.rslot 1 8]⟩]
  | .w, toGpr g a =>
    [⟨.movLd, [.gpr .w g], [.kslot a 2]⟩, ⟨.movzx, [.gpr .d .rax], [.gpr .w .rax]⟩]
  | .d, between d a =>
    [⟨.movSt, [.rslot 1 8], [.gpr .q .rax]⟩, ⟨.movSt, [.rslot 2 8], [.gpr .q .rcx]⟩,
      ⟨.xor, [.gpr .q .rcx], [.gpr .q .rcx, .gpr .q .rcx]⟩, ⟨.movSt, [.kslot d 8], [.gpr .q .rcx]⟩,
      ⟨.movLd, [.gpr .q .rax], [.kslot a 4]⟩, ⟨.movSt, [.kslot d 4], [.gpr .q .rax]⟩,
      ⟨.movLd, [.gpr .q .rcx], [.rslot 2 8]⟩, ⟨.movLd, [.gpr .q .rax], [.rslot 1 8]⟩]
  | .w, fromGpr d g | .d, fromGpr d g =>
    [⟨.movSt, [.rslot 1 8], [.gpr .q .rax]⟩, ⟨.xor, [.gpr .q .rax], [.gpr .q .rax, .gpr .q .rax]⟩,
      ⟨.movSt, [.kslot d 8], [.gpr .q .rax]⟩, ⟨.movSt, [.kslot d sz.bytes], [.gpr sz g]⟩,
      ⟨.movLd, [.gpr .q .rax], [.rslot 1 8]⟩]
  | .d, toGpr g a => [⟨.movLd, [.gpr .d g], [.kslot a 4]⟩]
  | .q, between d a =>
    [⟨.movSt, [.rslot 1 8], [.gpr .q .rax]⟩, ⟨.movLd, [.gpr .q .rax], [.kslot a 8]⟩,
      ⟨.movSt, [.kslot d 8], [.gpr .q .rax]⟩, ⟨.movLd, [.gpr .q .rax], [.rslot 1 8]⟩]
  | .q, fromGpr d g => [⟨.movSt, [.kslot d 8], [.gpr .q g]⟩]
  | .q, toGpr g a => [⟨.movLd, [.gpr .q g], [.kslot a 8]⟩]

theorem run_kmov (c : Context) : ∃ linked, (kmov sz).run c (f.instr sz) =
    .chain 1 linked (pushes (f.saves sz) ++ f.code sz ++ pops (f.saves sz)) := by
  cases sz <;> cases f <;> exact ⟨_, rfl⟩

/-- Doublewords are moved between opmask registers through a register that does not fit. -/
def isLegal : Bool :=
  match sz, f with
  | .d, between _ _ => false
  | _, _ => true

theorem straight_code : straight (f.code sz) = f.isLegal sz := by
  cases sz <;> cases f <;> rfl

/-! ## What is left in the destination -/

/-- The value the chain leaves. -/
def left : BitVec 64 :=
  match sz, f with
  | .b, between d a => lowBits .b (if d = a then 0 else s.kslot a)
  | .b, fromGpr _ g =>
    lowBits .b (if g = .r15 then 0 else if g = .rsp then s.gpr .rsp - 16 else s.gpr g)
  | .b, toGpr g a => if g = .rsp then lowBits .b (s.kslot a) + 8 else lowBits .b (s.kslot a)
  | .w, between d a => State.writeGpr .w (s.kslot d) ((s.kslot a).setWidth 256)
  | .w, toGpr g a =>
    if g = .rax then lowBits .w (s.kslot a)
    else State.writeGpr .w (s.gpr g) ((s.kslot a).setWidth 256)
  | .w, fromGpr _ g | .d, fromGpr _ g => lowBits sz (if g = .rax then 0 else s.gpr g)
  | .d, between _ a | .d, toGpr _ a => lowBits .d (s.kslot a)
  | .q, between _ a | .q, toGpr _ a => s.kslot a
  | .q, fromGpr _ g => s.gpr g

/-- A slot is cleared by storing a register that has been cleared. -/
theorem effects_clear (g : Gpr) (d : KReg) : ∃ fl, effects E
    [⟨.xor, [.gpr .q g], [.gpr .q g, .gpr .q g]⟩, ⟨.movSt, [.kslot d 8], [.gpr .q g]⟩] s =
      { s with gpr := update s.gpr g 0, flags := fl, kslot := update s.kslot d 0 } := by
  obtain ⟨fl, hclear⟩ := effect_clear E s (show 4 ≤ GprSize.q.bytes by decide) g
  refine ⟨fl, ?_⟩
  rw [effects_cons, hclear, effects_cons, effect_move E _ rfl, effects_nil, State.read_q,
    State.write_kslot]
  simp only [update_self]

/-- A part of a register, stored to a slot that has been cleared. -/
theorem kslot_store {d : KReg} (hd : s.kslot d = 0) (g : Gpr) :
    ((Insn.mk .movSt [.kslot d sz.bytes] [.gpr sz g]).effect E s).kslot d = lowBits sz (s.gpr g) := by
  have hle := sz.bytes_le
  rw [effect_move E s rfl, State.kslot_write_kslot, update_self, State.read_gpr, hd, lowBits]
  refine BitVec.eq_of_getLsbD_eq fun j hj ↦ ?_
  simp only [BitVec.getLsbD_setWidth, getLsbD_merge, getLsbD_low]
  by_cases h : j < 8 * sz.bytes
  · simp [h, hj, show j < 256 by omega]
  · simp [h]

theorem lowBits_writeGpr (old : BitVec 64) (v : Val) :
    lowBits sz (State.writeGpr sz old v) = lowBits sz (v.setWidth 64) := by
  have hle := sz.bytes_le
  refine BitVec.eq_of_getLsbD_eq fun j hj ↦ ?_
  simp only [lowBits, BitVec.getLsbD_setWidth, State.getLsbD_writeGpr sz old v hj]
  by_cases h : j < 8 * sz.bytes
  · simp [h, hj]
  · simp [h]

theorem lowBits_low (v : BitVec 64) :
    lowBits sz ((low sz.bytes (v.setWidth 256)).setWidth 64) = lowBits sz v := by
  have hle := sz.bytes_le
  refine BitVec.eq_of_getLsbD_eq fun j hj ↦ ?_
  simp only [lowBits, BitVec.getLsbD_setWidth, getLsbD_low]
  by_cases h : j < 8 * sz.bytes
  · simp [h, hj, show j < 256 by omega]
  · simp [h]

/-- A part of a register, stored after the slot has been cleared with another one. -/
theorem kslot_clear_store (g g' : Gpr) (d : KReg) :
    (effects E [⟨.xor, [.gpr .q g'], [.gpr .q g', .gpr .q g']⟩,
      ⟨.movSt, [.kslot d 8], [.gpr .q g']⟩, ⟨.movSt, [.kslot d sz.bytes], [.gpr sz g]⟩] s).kslot d =
    lowBits sz (if g = g' then 0 else s.gpr g) := by
  obtain ⟨fl, hclear⟩ := effects_clear E s g' d
  have hcode : effects E [⟨.xor, [.gpr .q g'], [.gpr .q g', .gpr .q g']⟩,
      ⟨.movSt, [.kslot d 8], [.gpr .q g']⟩, ⟨.movSt, [.kslot d sz.bytes], [.gpr sz g]⟩] s =
      effects E [⟨.movSt, [.kslot d sz.bytes], [.gpr sz g]⟩] (effects E
        [⟨.xor, [.gpr .q g'], [.gpr .q g', .gpr .q g']⟩, ⟨.movSt, [.kslot d 8], [.gpr .q g']⟩] s) := rfl
  rw [hcode, hclear, effects_cons, effects_nil, kslot_store sz E _ (update_self d 0 s.kslot)]
  exact congrArg (lowBits sz) (update_apply s.gpr g' 0 g)

theorem kslot_between_b (d a : KReg) :
    (effects E ((between d a).code .b) s).kslot d = lowBits .b (if d = a then 0 else s.kslot a) := by
  have hcode : (between d a).code .b =
      [⟨.movSt, [.rslot 1 8], [.gpr .q .r11]⟩, ⟨.movSt, [.rslot 2 8], [.gpr .q .r12]⟩] ++
      ([⟨.xor, [.gpr .q .r12], [.gpr .q .r12, .gpr .q .r12]⟩,
        ⟨.movSt, [.kslot d 8], [.gpr .q .r12]⟩] ++
      ([⟨.movLd, [.gpr .b .r11], [.kslot a 1]⟩, ⟨.movSt, [.kslot d 1], [.gpr .b .r11]⟩] ++
      [⟨.movLd, [.gpr .q .r12], [.rslot 2 8]⟩, ⟨.movLd, [.gpr .q .r11], [.rslot 1 8]⟩])) := rfl
  have hrest (t : State) : (effects E [⟨.movLd, [.gpr .q .r12], [.rslot 2 8]⟩,
      ⟨.movLd, [.gpr .q .r11], [.rslot 1 8]⟩] t).kslot = t.kslot := rfl
  rw [hcode, effects_append, effects_append, effects_append, hrest]
  obtain ⟨fl, hclear⟩ := effects_clear E (effects E [⟨.movSt, [.rslot 1 8], [.gpr .q .r11]⟩,
    ⟨.movSt, [.rslot 2 8], [.gpr .q .r12]⟩] s) .r12 d
  rw [hclear, effects_cons, effects_cons, effects_nil]
  refine (kslot_store .b E _ ?_ .r11).trans ?_
  · rw [effect_move E _ rfl, State.kslot_write_gpr]
    exact update_self d 0 s.kslot
  · rw [effect_move E _ rfl, State.gpr_write_gpr, update_self, lowBits_writeGpr]
    refine (lowBits_low .b _).trans (congrArg (lowBits .b) ?_)
    exact (update_apply s.kslot d 0 a).trans (if_congr eq_comm rfl rfl)

theorem dest_fromGpr_b (d : KReg) (g : Gpr) :
    (effects E (pushes [.flags, .reg .r15] ++ (fromGpr d g).code .b ++ pops [.flags, .reg .r15])
      s).kslot d = (fromGpr d g).left .b s := by
  obtain ⟨mem, hpushes, -⟩ := effects_pushes E [.flags, .reg .r15] s
  rw [effects_append, effects_append, kslot_pops, hpushes]
  refine (kslot_clear_store .b E _ g .r15 d).trans (congrArg (lowBits .b) ?_)
  by_cases hr15 : g = .r15
  · rw [if_pos hr15, if_pos hr15]
  · rw [if_neg hr15, if_neg hr15]
    exact update_apply s.gpr .rsp _ g

/-- The chain for words and doublewords. -/
theorem kslot_fromGpr (d : KReg) (g : Gpr) :
    (effects E [⟨.movSt, [.rslot 1 8], [.gpr .q .rax]⟩,
      ⟨.xor, [.gpr .q .rax], [.gpr .q .rax, .gpr .q .rax]⟩, ⟨.movSt, [.kslot d 8], [.gpr .q .rax]⟩,
      ⟨.movSt, [.kslot d sz.bytes], [.gpr sz g]⟩, ⟨.movLd, [.gpr .q .rax], [.rslot 1 8]⟩] s).kslot d =
    lowBits sz (if g = .rax then 0 else s.gpr g) := by
  have hstore := kslot_clear_store sz E
    (s.write false s (.rslot 1 8) (s.read 4 (.gpr .q .rax))) g .rax d
  rw [State.gpr_write_rslot] at hstore
  rw [← hstore]
  rfl

/-- Words and quadwords are moved between opmask registers through a register. -/
theorem kslot_between (d a : KReg) :
    (effects E [⟨.movSt, [.rslot 1 8], [.gpr .q .rax]⟩, ⟨.movLd, [.gpr .q .rax], [.kslot a 8]⟩,
      ⟨.movSt, [.kslot d sz.bytes], [.gpr sz .rax]⟩, ⟨.movLd, [.gpr .q .rax], [.rslot 1 8]⟩] s).kslot d =
    (merge sz.bytes ((s.kslot d).setWidth 256) ((s.kslot a).setWidth 256)).setWidth 64 := by
  have hcode : (effects E [⟨.movSt, [.rslot 1 8], [.gpr .q .rax]⟩,
      ⟨.movLd, [.gpr .q .rax], [.kslot a 8]⟩, ⟨.movSt, [.kslot d sz.bytes], [.gpr sz .rax]⟩,
      ⟨.movLd, [.gpr .q .rax], [.rslot 1 8]⟩] s).kslot d =
      (merge sz.bytes ((s.kslot d).setWidth 256) (low sz.bytes
        (((low 8 ((s.kslot a).setWidth 256)).setWidth 64).setWidth 256))).setWidth 64 := by
    simp only [effects_cons, effects_nil, effect_move E _ (show Op.isMove .movSt = true from rfl),
      effect_move E _ (show Op.isMove .movLd = true from rfl), State.kslot_write_gpr,
      State.kslot_write_kslot, State.kslot_write_rslot, State.gpr_write_gpr, update_self,
      State.read_gpr]
    rfl
  rw [hcode, low_setWidth_64, setWidth_setWidth_64]
  refine BitVec.eq_of_getLsbD_eq fun j hj ↦ ?_
  simp only [BitVec.getLsbD_setWidth, getLsbD_merge, getLsbD_low]
  by_cases h : j < 8 * sz.bytes
  · simp [h]
  · simp [h]

/-- The low bits, in a register that is cleared or cleared above them. -/
theorem writeGpr_low (old v : BitVec 64) (hsz : 4 ≤ sz.bytes ∨ old = 0) :
    State.writeGpr sz old (low sz.bytes (v.setWidth 256)) = lowBits sz v := by
  refine BitVec.eq_of_getLsbD_eq fun j hj ↦ ?_
  have hle := sz.bytes_le
  rw [State.getLsbD_writeGpr _ _ _ hj, getLsbD_low, lowBits]
  simp only [BitVec.getLsbD_setWidth]
  by_cases h : j < 8 * sz.bytes
  · simp [h, hj, show j < 256 by omega]
  · have hold : (!decide (sz = .d) && old.getLsbD j) = false := by
      rcases hsz with hsz | rfl
      · cases sz with
        | b | w => exact absurd hsz (by decide)
        | d => rfl
        | q => exact absurd hj h
      · simp
    simp [h, hold]

theorem gpr_toGpr_b (g : Gpr) (a : KReg) :
    (effects E (pushes [.flags] ++ (toGpr g a).code .b ++ pops [.flags]) s).gpr g =
      (toGpr g a).left .b s := by
  obtain ⟨fl, hclear⟩ := effect_clear E (effects E (pushes [.flags]) s)
    (show 4 ≤ GprSize.d.bytes by decide) g
  have hbyte : (effects E ((toGpr g a).code .b) (effects E (pushes [.flags]) s)).gpr g =
      lowBits .b (s.kslot a) := by
    rw [code, effects_cons, hclear, effects_cons, effect_move E _ rfl, effects_nil,
      State.gpr_write_gpr, update_self]
    refine (writeGpr_low .b _ _ (.inr (update_self g 0 _))).trans ?_
    rw [kslot_pushes]
  have hpop (u : State) : (effects E (pops [.flags]) u).gpr = update u.gpr .rsp (u.gpr .rsp + 8) := by
    have heffect := effect_pop E u (show Saved.flags ≠ .reg .rsp by decide)
    exact congrArg State.gpr heffect
  rw [effects_append, effects_append, hpop, update_apply, left]
  split
  next hg =>
    subst hg
    rw [hbyte]
  · exact hbyte

/-- Only `eax` is extended. -/
theorem gpr_toGpr_w (g : Gpr) (a : KReg) :
    (effects E ((toGpr g a).code .w) s).gpr g = (toGpr g a).left .w s := by
  have hread : s.read 4 (.kslot a 2) = low GprSize.w.bytes ((s.kslot a).setWidth 256) := rfl
  rw [code, effects_cons, effect_move E s rfl, effects_cons, effect_move E _ rfl, effects_nil,
    State.gpr_write_gpr, left, update_apply, State.gpr_write_gpr]
  split
  next hg =>
    subst hg
    rw [State.read_gpr, State.gpr_write_gpr, update_self]
    refine BitVec.eq_of_getLsbD_eq fun j hj ↦ ?_
    simp only [State.getLsbD_writeGpr _ _ _ hj, getLsbD_low, BitVec.getLsbD_setWidth, lowBits, hread]
    by_cases h : j < 8 * GprSize.w.bytes
    · simp [h, hj, show j < 8 * GprSize.d.bytes from h.trans (by decide), show j < 256 by omega]
    · simp [h]
  next hg =>
    rw [update_self]
    refine BitVec.eq_of_getLsbD_eq fun j hj ↦ ?_
    simp only [State.getLsbD_writeGpr _ _ _ hj, hread, getLsbD_low]
    by_cases h : j < 8 * GprSize.w.bytes
    · simp [h]
    · simp [h]

theorem dest_code (h : f.isLegal sz = true) :
    f.dest (effects E (pushes (f.saves sz) ++ f.code sz ++ pops (f.saves sz)) s) = f.left sz s := by
  cases f with
  | between d a =>
    cases sz with
    | b =>
      refine Eq.trans ?_ ((kslot_between_b E (effects E (pushes [.flags]) s) d a).trans ?_)
      · rw [effects_append, effects_append]
        exact congrFun (kslot_pops E [.flags] _) d
      · rw [kslot_pushes]
        rfl
    | w => exact kslot_between .w E s d a
    | d => cases h
    | q =>
      exact (kslot_between .q E s d a).trans
        ((setWidth_merge_8 _ _).trans (setWidth_setWidth_64 (s.kslot a)))
  | fromGpr d g =>
    cases sz with
    | b => exact dest_fromGpr_b E s d g
    | w => exact kslot_fromGpr .w E s d g
    | d => exact kslot_fromGpr .d E s d g
    | q =>
      have heffect := effect_move E s (show Op.isMove .movSt = true from rfl) (.kslot d 8) (.gpr .q g)
      rw [State.read_q, State.write_kslot] at heffect
      exact (congrFun (congrArg State.kslot heffect) d).trans (update_self d _ _)
  | toGpr g a =>
    cases sz with
    | b => exact gpr_toGpr_b E s g a
    | w => exact gpr_toGpr_w E s g a
    | d =>
      have heffect := effect_move E s (show Op.isMove .movLd = true from rfl) (.gpr .d g) (.kslot a 4)
      refine (congrFun (congrArg State.gpr heffect) g).trans ((update_self g _ _).trans ?_)
      exact writeGpr_low .d _ _ (.inl (by decide))
    | q =>
      have heffect := effect_move E s (show Op.isMove .movLd = true from rfl) (.gpr .q g) (.kslot a 8)
      rw [State.read_kslot, State.write_q] at heffect
      exact (congrFun (congrArg State.gpr heffect) g).trans (update_self g _ _)

/-! ## When it is right -/

/-- The widths and operands for which the value is the one to be moved. -/
def ok : Bool :=
  match sz, f with
  | .b, between d a => d ≠ a
  | .b, fromGpr _ g => g ≠ .r15 ∧ g ≠ .rsp
  | .b, toGpr g _ => g ≠ .rsp
  | .w, between _ _ | .d, between _ _ => false
  | .w, fromGpr _ g | .d, fromGpr _ g => g ≠ .rax
  | .w, toGpr g _ => g = .rax
  | .d, toGpr _ _ | .q, _ => true

/-- A state in which all bits are ones. -/
def ones : State := { State.blank with gpr := fun _ ↦ -1, kslot := fun _ ↦ -1 }

/-- From this state the wrong ones can be told. -/
theorem left_ones_ne (hlegal : f.isLegal sz = true) (hok : f.ok sz = false) :
    f.left sz ones ≠ lowBits sz (f.source ones) := by
  cases f with
  | between d a =>
    cases sz with
    | b =>
      obtain rfl : d = a := by simpa [ok] using hok
      rw [left, if_pos rfl]
      exact show lowBits .b 0 ≠ lowBits .b (-1) by decide
    | w => exact show State.writeGpr .w (-1) ((-1 : BitVec 64).setWidth 256) ≠ lowBits .w (-1) by decide
    | d => cases hlegal
    | q => cases hok
  | fromGpr d g =>
    cases sz with
    | b =>
      have hg : g = .r15 ∨ g = .rsp := by simpa [ok, imp_iff_not_or] using hok
      rcases hg with rfl | rfl
      · exact show lowBits .b 0 ≠ lowBits .b (-1) by decide
      · exact show lowBits .b (-1 - 16) ≠ lowBits .b (-1) by decide
    | w =>
      obtain rfl : g = .rax := by simpa [ok] using hok
      exact show lowBits .w 0 ≠ lowBits .w (-1) by decide
    | d =>
      obtain rfl : g = .rax := by simpa [ok] using hok
      exact show lowBits .d 0 ≠ lowBits .d (-1) by decide
    | q => cases hok
  | toGpr g a =>
    cases sz with
    | b =>
      obtain rfl : g = .rsp := by simpa [ok] using hok
      exact show lowBits .b (-1) + 8 ≠ lowBits .b (-1) by decide
    | w =>
      have hg : g ≠ .rax := by simpa [ok] using hok
      rw [left, if_neg hg]
      exact show State.writeGpr .w (-1) ((-1 : BitVec 64).setWidth 256) ≠ lowBits .w (-1) by decide
    | d => cases hok
    | q => cases hok

theorem lowBits_q (v : BitVec 64) : lowBits .q v = v := by
  have hwidth : lowBits .q v = (v.setWidth 64).setWidth 64 := rfl
  rw [hwidth, BitVec.setWidth_eq, BitVec.setWidth_eq]

theorem left_eq_of_ok (hok : f.ok sz = true) : f.left sz s = lowBits sz (f.source s) := by
  cases f with
  | between d a =>
    cases sz with
    | b =>
      have hne : d ≠ a := by simpa [ok] using hok
      rw [left, if_neg hne]
      rfl
    | w | d => cases hok
    | q => exact (lowBits_q _).symm
  | fromGpr d g =>
    cases sz with
    | b =>
      obtain ⟨hr15, hrsp⟩ : g ≠ .r15 ∧ g ≠ .rsp := by simpa [ok] using hok
      rw [left, if_neg hr15, if_neg hrsp]
      rfl
    | w | d =>
      have hne : g ≠ .rax := by simpa [ok] using hok
      rw [left, if_neg hne]
      rfl
    | q => exact (lowBits_q _).symm
  | toGpr g a =>
    cases sz with
    | b =>
      have hne : g ≠ .rsp := by simpa [ok] using hok
      rw [left, if_neg hne]
      rfl
    | w =>
      have heq : g = .rax := by simpa [ok] using hok
      rw [left, if_pos heq]
      rfl
    | d => rfl
    | q => exact (lowBits_q _).symm

theorem isLegal_of_ok (hok : f.ok sz = true) : f.isLegal sz = true := by
  cases f with
  | between d a => cases sz <;> first | rfl | cases hok
  | fromGpr d g | toGpr g a => cases sz <;> rfl

/-- It is a question about the value the chain leaves. -/
theorem ensures_iff_left (c : Context) :
    (kmov sz).Ensures c (f.instr sz) (fun s t ↦ f.dest t = lowBits sz (f.source s)) ↔
      f.isLegal sz = true ∧ ∀ s, f.left sz s = lowBits sz (f.source s) := by
  obtain ⟨linked, hrun⟩ := f.run_kmov sz c
  have hplain : (pushes (f.saves sz) ++ f.code sz ++ pops (f.saves sz)).all Insn.isPlain = true := by
    cases sz <;> cases f <;> rfl
  rw [Gen.ensures_iff_of_plain hrun hplain, straight_append, straight_append, straight_pushes,
    straight_pops, straight_code, Bool.true_and, Bool.and_true]
  refine and_congr_right fun hlegal ↦ ?_
  simp only [dest_code sz f _ _ hlegal]
  exact ⟨fun h ↦ h .blank, fun h _ ↦ h⟩

end KMove

/-- The chains for `kmov` leave the low bits of the source in the destination, and zeros above, for
these operands and no others. -/
theorem kmov_ensures_iff (sz : GprSize) (f : KMove) (c : Context) :
    (kmov sz).Ensures c (f.instr sz) (fun s t ↦ f.dest t = lowBits sz (f.source s)) ↔
      f.ok sz = true := by
  rw [KMove.ensures_iff_left]
  constructor
  · rintro ⟨hlegal, hleft⟩
    by_contra hok
    rw [Bool.not_eq_true] at hok
    exact KMove.left_ones_ne sz f hlegal hok (hleft KMove.ones)
  · intro hok
    exact ⟨KMove.isLegal_of_ok sz f hok, fun s ↦ KMove.left_eq_of_ok sz f s hok⟩

/-- What is above the low word of an opmask register stays when it is moved to. -/
theorem not_ensures_kmovw_k1_k2 : ¬rwFuncKmovw.Ensures ⟨false, fun _ ↦ 0⟩
    ⟨[.opmask 1], [.opmask 2], false⟩ (fun s t ↦ t.kslot 1 = lowBits .w (s.kslot 2)) := by
  intro h
  obtain ⟨-, hleft⟩ := (KMove.ensures_iff_left .w (.between 1 2) _).mp h
  exact KMove.left_ones_ne .w (.between 1 2) rfl rfl (hleft KMove.ones)

end DrAvx
