import DrAvx.Contract.Legality
import DrAvx.Machine.Compare

/-!
# Chains run to their end

A chain all of whose instructions are legal runs to its end from every state.  Most chains jump
forward only.  Some have a loop, which counts in a general purpose register from zero up to a
constant: the counter is incremented once on the way through the loop and compared with the constant
before control goes back.

The analysis follows the counter.  It gives every point of the chain a rank that goes down along the
run: the phase (before, in or after the loop), then how much is left to count, then how far it is to
the end of the chain.
-/

set_option autoImplicit false

namespace DrAvx

open Decision Flow Function StateTransition

/-- The value in a part of a general purpose register. -/
def State.part (s : State) (sz : GprSize) (g : Gpr) : ℕ :=
  (low sz.bytes ((s.gpr g).setWidth 256)).toNat

/-! ## The analysis -/

/-- A counter: a part of a register and the number it counts to. -/
structure Counter where
  reg : Gpr
  size : GprSize
  limit : ℕ

/-- Where a chain is with respect to its loop. -/
inductive Counting
  /-- before the counter is set to zero -/
  | before
  /-- in the loop; has the counter been incremented, and has it been compared since? -/
  | inside (incremented compared : Bool)
  | after
  /-- a jump back to the beginning of the loop without having counted -/
  | stuck
  deriving DecidableEq

namespace Counting

variable (C : Counter)

/-- The instruction sets the counter to zero. -/
def resets (i : TInsn) : Bool :=
  match i.dsts, i.srcs, i.op with
  | [.g sz (.fixed r)], [.g sz₁ (.fixed r₁), .g sz₂ (.fixed r₂)], .xor =>
    sz == C.size && sz₁ == C.size && sz₂ == C.size && r == C.reg && r₁ == C.reg && r₂ == C.reg
  | _, _, _ => false

/-- The instruction increments the counter. -/
def increments (i : TInsn) : Bool :=
  match i.dsts, i.srcs, i.op with
  | [.g sz (.fixed r)], [.g sz₁ (.fixed r₁)], .inc =>
    sz == C.size && sz₁ == C.size && r == C.reg && r₁ == C.reg
  | _, _, _ => false

/-- The instruction compares the counter with its limit. -/
def compares (i : TInsn) : Bool :=
  match i.dsts, i.srcs, i.op with
  | [], [.g sz (.fixed r), .imm v _], .cmp => sz == C.size && r == C.reg && v == C.limit
  | _, _, _ => false

/-- The instruction does not write the register. -/
def spares (P : Profile) (i : TInsn) : Bool :=
  (i.dsts.filterMap (TOpnd.gprRole P)).all fun r ↦ match r with
    | .fixed r => r != C.reg
    | _ => false

def transfer (P : Profile) (i : TInsn) : Counting → Counting
  | before => if resets C i then inside false false else before
  | inside inc cmp =>
    if increments C i then (if inc then after else inside true false)
    else if compares C i then inside inc true
    else if spares C P i then inside inc (cmp && !i.op.setsFlags)
    else after
  | after => after
  | stuck => stuck

/-- The conditions under which control goes back. -/
def goesOn : Cond → Bool
  | .l | .nz => true
  | _ => false

/-- After a branch; `heads` are the labels to which control goes back. -/
def atBranch (heads : List ℕ) (i : TInsn) (taken : Bool) (a : Counting) : Option Counting :=
  match i.ctl with
  | .branch n =>
    if taken && heads.contains n then
      match a, i.op with
      | inside true true, .jcc c => some (if goesOn c then inside false false else stuck)
      | _, _ => some stuck
    else some a
  | _ => some a

def le (a b : Counting) : Bool :=
  a != stuck && (a == b || b == after || match a, b with
    | inside i true, inside j false => i == j
    | _, _ => false)

def join : Counting → Counting → Counting
  | inside i c, inside j d => if i = j then inside i (c && d) else after
  | a, b => if a = b then a else after

/-- The analysis of a template. -/
def analysis (P : Profile) (heads : List ℕ) : Analysis TInsn Counting where
  ctl := TInsn.ctl
  needs _ _ := true
  transfer := transfer C P
  atBranch := atBranch heads
  le := le

/-- What the facts say of a state. -/
def Holds (s : State) : Counting → Prop
  | inside inc cmp => s.part C.size C.reg ≤ C.limit ∧
      (inc = false → s.part C.size C.reg < C.limit) ∧
      (cmp = true → ∀ c, goesOn c = true → c.holds s.flags = true →
        s.part C.size C.reg < C.limit)
  | _ => True

/-- How much is left to do. -/
def load (s : State) : Counting → ℕ
  | before => C.limit + 2
  | inside inc _ => C.limit + 1 + inc.toNat - s.part C.size C.reg
  | after | stuck => 0

/-! ## Soundness -/

section Sound

variable {C} {c : Context} {F : Facts} {T : Template} {e : Env} (h : Emitted c F T e)
variable {E : Ext} {s : State} {a b : Counting} {i : TInsn}

theorem Holds.weaken (hle : a.le b = true) (hs : Holds C s a) :
    Holds C s b ∧ load C s b ≤ load C s a := by
  simp only [le, Bool.and_eq_true, Bool.or_eq_true, beq_iff_eq] at hle
  obtain ⟨-, (rfl | rfl) | hle⟩ := hle
  · exact ⟨hs, le_rfl⟩
  · exact ⟨trivial, Nat.zero_le _⟩
  · split at hle
    next i' j =>
      obtain rfl : i' = j := by simpa using hle
      exact ⟨⟨hs.1, hs.2.1, nofun⟩, le_rfl⟩
    · cases hle

theorem eq_of_resets (hi : resets C i = true) :
    i = ⟨.xor, [.g C.size (.fixed C.reg)], [.g C.size (.fixed C.reg), .g C.size (.fixed C.reg)]⟩ := by
  obtain ⟨op, dsts, srcs⟩ := i
  unfold resets at hi
  split at hi
  next hdsts hsrcs hop =>
    simp only [Bool.and_eq_true, beq_iff_eq] at hi
    obtain ⟨⟨⟨⟨⟨rfl, rfl⟩, rfl⟩, rfl⟩, rfl⟩, rfl⟩ := hi
    exact congr (congr (congrArg TInsn.mk hop) hdsts) hsrcs
  · cases hi

theorem eq_of_increments (hi : increments C i = true) :
    i = ⟨.inc, [.g C.size (.fixed C.reg)], [.g C.size (.fixed C.reg)]⟩ := by
  obtain ⟨op, dsts, srcs⟩ := i
  unfold increments at hi
  split at hi
  next hdsts hsrcs hop =>
    simp only [Bool.and_eq_true, beq_iff_eq] at hi
    obtain ⟨⟨⟨rfl, rfl⟩, rfl⟩, rfl⟩ := hi
    exact congr (congr (congrArg TInsn.mk hop) hdsts) hsrcs
  · cases hi

theorem eq_of_compares (hi : compares C i = true) :
    ∃ n, i = ⟨.cmp, [], [.g C.size (.fixed C.reg), .imm C.limit n]⟩ := by
  obtain ⟨op, dsts, srcs⟩ := i
  unfold compares at hi
  split at hi
  next sz r v n hdsts hsrcs hop =>
    simp only [Bool.and_eq_true, beq_iff_eq] at hi
    obtain ⟨⟨rfl, rfl⟩, rfl⟩ := hi
    exact ⟨n, congr (congr (congrArg TInsn.mk hop) hdsts) hsrcs⟩
  · cases hi

theorem part_of_resets (hi : resets C i = true) :
    ((i.inst e).effect E s).part C.size C.reg = 0 := by
  rw [eq_of_resets hi]
  generalize C.size = sz
  have hgpr : ((TInsn.inst e ⟨.xor, [.g sz (.fixed C.reg)], [.g sz (.fixed C.reg),
      .g sz (.fixed C.reg)]⟩).effect E s).gpr C.reg = State.writeGpr sz (s.gpr C.reg)
        (low sz.bytes ((s.gpr C.reg).setWidth 256) ^^^ low sz.bytes ((s.gpr C.reg).setWidth 256)) :=
    update_self ..
  rw [State.part, hgpr, State.low_writeGpr, BitVec.xor_self]
  simp [low]

theorem part_of_increments (hi : increments C i = true)
    (hlt : s.part C.size C.reg + 1 < 2 ^ (8 * C.size.bytes)) :
    ((i.inst e).effect E s).part C.size C.reg = s.part C.size C.reg + 1 := by
  rw [eq_of_increments hi]
  revert hlt
  generalize C.size = sz
  intro hlt
  have hbytes : 0 < sz.bytes ∧ sz.bytes ≤ 32 := by cases sz <;> decide
  have hgpr : ((TInsn.inst e ⟨.inc, [.g sz (.fixed C.reg)], [.g sz (.fixed C.reg)]⟩).effect E
      s).gpr C.reg = State.writeGpr sz (s.gpr C.reg) (low sz.bytes (low sz.bytes (low sz.bytes
        ((s.gpr C.reg).setWidth 256)) + low sz.bytes 1)) :=
    update_self ..
  have hone : (low sz.bytes 1).toNat = 1 := by cases sz <;> decide
  have hle : 2 ^ (8 * sz.bytes) ≤ 2 ^ 256 := Nat.pow_le_pow_right (by omega) (by omega)
  rw [State.part] at hlt ⊢
  rw [hgpr, State.low_writeGpr, low_low, low_low, toNat_low hbytes.2, BitVec.toNat_add, hone,
    Nat.mod_eq_of_lt (Nat.lt_of_lt_of_le hlt hle), Nat.mod_eq_of_lt hlt]
  rfl

/-- The counter is compared with its limit. -/
theorem lt_of_compares (hi : compares C i = true) (hlimit : C.limit < 2 ^ (8 * C.size.bytes - 1))
    (hle : s.part C.size C.reg ≤ C.limit) :
    ((i.inst e).effect E s).part C.size C.reg = s.part C.size C.reg ∧
      ∀ c, goesOn c = true → c.holds ((i.inst e).effect E s).flags = true →
        s.part C.size C.reg < C.limit := by
  obtain ⟨n, rfl⟩ := eq_of_compares hi
  revert hlimit hle
  generalize C.size = sz
  intro hlimit hle
  have hbytes : 0 < sz.bytes ∧ sz.bytes ≤ 32 := by cases sz <;> decide
  have hpow : 2 ^ (8 * sz.bytes - 1) ≤ 2 ^ (8 * sz.bytes) :=
    Nat.pow_le_pow_right (by omega) (by omega)
  -- the limit is read as it is
  have hb : (low sz.bytes (BitVec.ofInt 256 C.limit)).toNat = C.limit := by
    have h256 : 2 ^ (8 * sz.bytes) ≤ 2 ^ 256 := Nat.pow_le_pow_right (by omega) (by omega)
    rw [toNat_low hbytes.2, BitVec.ofInt_natCast, BitVec.toNat_ofNat,
      Nat.mod_eq_of_lt (by omega), Nat.mod_eq_of_lt (by omega)]
  have ha : (low sz.bytes (low sz.bytes ((s.gpr C.reg).setWidth 256))).toNat = s.part sz C.reg := by
    rw [low_low]
    rfl
  have hflags : ((TInsn.inst e ⟨.cmp, [], [.g sz (.fixed C.reg), .imm C.limit n]⟩).effect E s).flags =
      (subWithFlags sz.bytes (low sz.bytes ((s.gpr C.reg).setWidth 256))
        (BitVec.ofInt 256 C.limit)).2 := rfl
  refine ⟨rfl, fun c hc hholds ↦ ?_⟩
  rw [hflags] at hholds
  cases c with
  | l =>
    rw [holds_l_of_subWithFlags hbytes.1 hbytes.2 (by rw [ha, hb]; exact hle)
      (by rw [hb]; exact hlimit), ha, hb] at hholds
    exact of_decide_eq_true hholds
  | nz =>
    rw [Cond.holds, subWithFlags_zf hbytes.2] at hholds
    refine lt_of_le_of_ne hle fun heq ↦ ?_
    rw [← ha, ← hb] at heq
    simp [BitVec.eq_of_toNat_eq heq] at hholds
  | _ => cases hc

include h in
theorem part_of_spares (hi : spares C F.profile i = true) :
    ((i.inst e).effect E s).part C.size C.reg = s.part C.size C.reg := by
  rw [State.part, State.part, Insn.effect_gpr fun sz hsz ↦ ?_]
  obtain ⟨o, ho, hinst⟩ := List.mem_map.mp hsz
  obtain ⟨r, hr, hg⟩ := TOpnd.gprRole_of_inst hinst
  rw [← h.profile] at hr
  have hne := List.all_eq_true.mp hi r (List.mem_filterMap.mpr ⟨o, ho, hr⟩)
  cases r with
  | fixed r =>
    obtain rfl := Option.some.inj hg
    simp at hne
  | _ => cases hne

include h in
/-- An instruction takes the chain no further from its end. -/
theorem Holds.transfer (hpos : 0 < C.limit) (hlimit : C.limit < 2 ^ (8 * C.size.bytes - 1))
    (hs : Holds C s a) :
    Holds C ((i.inst e).effect E s) (transfer C F.profile i a) ∧
      load C ((i.inst e).effect E s) (transfer C F.profile i a) ≤ load C s a := by
  have hpow : 2 ^ (8 * C.size.bytes - 1) ≤ 2 ^ (8 * C.size.bytes) :=
    Nat.pow_le_pow_right (by omega) (by omega)
  cases a with
  | before =>
    rw [Counting.transfer]
    split_ifs with hi
    · have hpart := part_of_resets (e := e) (E := E) (s := s) hi
      refine ⟨⟨by omega, fun _ ↦ by omega, nofun⟩, ?_⟩
      simp [load, hpart]
    · exact ⟨trivial, le_rfl⟩
  | inside inc cmp =>
    obtain ⟨hle, hlt, hcmp⟩ := hs
    rw [Counting.transfer]
    split_ifs with hi hinc hi' hi''
    · exact ⟨trivial, Nat.zero_le _⟩
    · obtain rfl : inc = false := by simpa using hinc
      have hpart := part_of_increments (e := e) (E := E) (s := s) hi (by have := hlt rfl; omega)
      refine ⟨⟨by have := hlt rfl; omega, nofun, nofun⟩, ?_⟩
      simp only [load, hpart, Bool.toNat_true, Bool.toNat_false]
      omega
    · obtain ⟨hpart, hgoesOn⟩ := lt_of_compares (e := e) (E := E) hi' hlimit hle
      rw [← hpart] at hle hlt hgoesOn
      refine ⟨⟨hle, hlt, fun _ ↦ hgoesOn⟩, ?_⟩
      simp [load, hpart]
    · have hpart := part_of_spares (E := E) (s := s) h hi''
      refine ⟨⟨hpart ▸ hle, hpart ▸ hlt, fun hc c hc' hholds ↦ ?_⟩, by simp [load, hpart]⟩
      rw [Bool.and_eq_true, Bool.not_eq_true'] at hc
      have hflags : (i.inst e).op.setsFlags = false := hc.2
      rw [Insn.effect_flags hflags] at hholds
      rw [hpart]
      exact hcmp hc.1 c hc' hholds
    · exact ⟨trivial, Nat.zero_le _⟩
  | after => exact ⟨trivial, le_rfl⟩
  | stuck => exact ⟨trivial, le_rfl⟩

theorem atBranch_false {heads : List ℕ} : atBranch heads i false a = some a := by
  unfold Counting.atBranch
  split
  · rfl
  · rfl

/-- A branch takes it no further either, and a branch back takes it closer. -/
theorem Holds.branch (heads : List ℕ) {n : ℕ} (hn : i.ctl = .branch n) (hs : Holds C s a) :
    ∃ b, atBranch heads i ((i.inst e).jumpsTo s.flags).isSome a = some b ∧
      (b = stuck ∨ Holds C s b ∧ load C s b ≤ load C s a ∧
        (((i.inst e).jumpsTo s.flags).isSome = true → n ∈ heads → load C s b < load C s a)) := by
  unfold Counting.atBranch
  rw [hn]
  dsimp only
  split_ifs with htaken
  · rw [Bool.and_eq_true] at htaken
    split
    next c hop =>
      refine ⟨_, rfl, ?_⟩
      split_ifs with hgoesOn
      · -- the counter is below its limit
        have hlt := hs.2.2 rfl c hgoesOn (TInsn.isSome_jumpsTo hn hop s.flags ▸ htaken.1)
        have hload : load C s (inside false false) < load C s (inside true true) := by
          simp only [load, Bool.toNat_true, Bool.toNat_false]
          omega
        exact .inr ⟨⟨hs.1, fun _ ↦ hlt, nofun⟩, hload.le, fun _ _ ↦ hload⟩
      · exact .inl rfl
    · exact ⟨_, rfl, .inl rfl⟩
  · refine ⟨a, rfl, .inr ⟨hs, le_rfl, fun htaken' hmem ↦ absurd ?_ htaken⟩⟩
    simp [htaken', hmem]

end Sound

end Counting

/-! ## Progress -/

namespace Template

/-- The position of a label. -/
def target (body : List TInsn) (n : ℕ) : Option ℕ := body.findIdx? fun i ↦ i.ctl == .label n

/-- The labels that are jumped to from below. -/
def heads (body : List TInsn) : List ℕ :=
  body.zipIdx.filterMap fun (i, pc) ↦ match i.ctl with
    | .jump n | .branch n => if (target body n).any (pc < ·) then none else some n
    | _ => none

/-- The labels that are jumped to exist, and only branches go back. -/
def aimed (body : List TInsn) : Bool :=
  body.all fun i ↦ match i.ctl with
    | .jump n => (target body n).isSome && !(heads body).contains n
    | .branch n => (target body n).isSome
    | _ => true

/-- The counter of the loop, if there is one: what is compared right before control goes back. -/
def counter? (body : List TInsn) : Option Counter :=
  (body.zip (body.drop 1)).findSome? fun (i, j) ↦ match i.op, i.srcs, j.ctl with
    | .cmp, [.g sz (.fixed r), .imm v _], .branch n =>
      if (heads body).contains n then some ⟨r, sz, v.toNat⟩ else none
    | _, _, _ => none

/-- The template has at most one loop, which counts. -/
def progresses (T : Template) (P : Profile) : Bool :=
  let heads := heads T.body
  let C := (counter? T.body).getD ⟨.rax, .d, 1⟩
  aimed T.body && decide (0 < C.limit) && decide (C.limit < 2 ^ (8 * C.size.bytes - 1)) &&
    ((Counting.analysis C P heads).run Counting.join 2
      (if heads.isEmpty then .after else .before) T.body).isSome

end Template

section Runs

variable {c : Context} {F : Facts} {T : Template} {e : Env} (h : Emitted c F T e)
variable {E : Ext}

theorem Template.lt_of_target {body : List TInsn} {pc q n : ℕ} {i : TInsn}
    (hi : body[pc]? = some i) (hn : i.ctl = .jump n ∨ i.ctl = .branch n)
    (hheads : n ∉ heads body) (hq : target body n = some q) : pc < q := by
  by_contra hlt
  refine hheads (List.mem_filterMap.mpr ⟨(i, pc), ?_, ?_⟩)
  · exact List.mem_zipIdx_iff_getElem?.mpr hi
  · rcases hn with hn | hn <;> simp [hn, hq, hlt]

include h

/-- From a point of the chain where the facts hold, it runs to its end. -/
theorem Emitted.exists_reaches (hlegal : (T.body.map (TInsn.inst e)).all Insn.legal = true)
    (haimed : Template.aimed T.body = true) {C : Counter} (hpos : 0 < C.limit)
    (hlimit : C.limit < 2 ^ (8 * C.size.bytes - 1)) {inv : ℕ → Option Counting}
    {a₀ fin : Option Counting}
    (hscan : (Counting.analysis C F.profile (Template.heads T.body)).scan inv a₀ T.body = some fin)
    {pc : ℕ} {s : State} {a : Counting} (hpc : pc ≤ T.body.length)
    (ha : (Counting.analysis C F.profile (Template.heads T.body)).factAt inv a₀ T.body pc = some a)
    (hs : Counting.Holds C s a) :
    ∃ t, Reaches (next E (T.body.map (TInsn.inst e))) (pc, s) (T.body.length, t) := by
  rcases Nat.eq_or_lt_of_le hpc with rfl | hlt
  · exact ⟨s, .refl⟩
  let D := Counting.analysis C F.profile (Template.heads T.body)
  let i := T.body.get ⟨pc, hlt⟩
  have hi : T.body[pc]? = some i := List.getElem?_eq_getElem hlt
  have hmem : i ∈ T.body := List.mem_of_getElem? hi
  have hlegal' : (i.inst e).legal = true :=
    List.all_eq_true.mp hlegal _ (List.mem_map_of_mem hmem)
  -- it is enough to get to a point from where there is less to do
  have hgo {pc' : ℕ} {b : Counting} (hpc' : pc' ≤ T.body.length)
      (hnext : nextPc (T.body.map (TInsn.inst e)) pc (i.inst e) s.flags = some pc')
      (hb : D.factAt inv a₀ T.body pc' = some b)
      (hs' : Counting.Holds C ((i.inst e).effect E s) b)
      (hless : Counting.load C ((i.inst e).effect E s) b < Counting.load C s a ∨
        Counting.load C ((i.inst e).effect E s) b ≤ Counting.load C s a ∧ pc < pc') :
      ∃ t, Reaches (next E (T.body.map (TInsn.inst e))) (pc, s) (T.body.length, t) := by
    obtain ⟨t, ht⟩ := exists_reaches hlegal haimed hpos hlimit hscan hpc' hb hs'
    refine ⟨t, .head ?_ ht⟩
    rw [Option.mem_def, next, List.getElem?_map, hi, Option.map_some]
    simp only [hlegal', if_true, hnext, Option.map_some]
  have haimed' := List.all_eq_true.mp haimed i hmem
  have hctl : (i.inst e).ctl = i.ctl := TInsn.ctl_inst h.opnd_ne_label i
  -- where control goes if the instruction is left upwards or to a label
  have hsucc (hnone : (i.inst e).jumpsTo s.flags = none) :
      nextPc (T.body.map (TInsn.inst e)) pc (i.inst e) s.flags = some (pc + 1) := by
    rw [nextPc, hnone]
  have hto {n q : ℕ} (hsome : (i.inst e).jumpsTo s.flags = some n)
      (hq : Template.target T.body n = some q) :
      nextPc (T.body.map (TInsn.inst e)) pc (i.inst e) s.flags = some q := by
    rw [nextPc, hsome]
    exact (findIdx?_map_inst h.opnd_ne_label _ _).trans hq
  have hweaken {b b' : Counting} {s' : State} (hb : b = b' ∨ b.le b' = true)
      (hs' : Counting.Holds C s' b) :
      Counting.Holds C s' b' ∧ Counting.load C s' b' ≤ Counting.load C s' b :=
    hb.elim (fun hb ↦ hb ▸ ⟨hs', le_rfl⟩) hs'.weaken
  have hD : D.ctl i = i.ctl := rfl
  rcases (i.inst e).jumpsTo_cases s.flags with ⟨hnone, hnojump⟩ | ⟨n, hsome, hn⟩
  · -- control goes on with the next instruction
    have hnojump' (n : ℕ) : D.ctl i ≠ .jump n := fun hn ↦ hnojump n (hctl.trans hn)
    obtain ⟨b, hout, hs', hload⟩ : ∃ b, D.out i false a = some b ∧
        Counting.Holds C ((i.inst e).effect E s) b ∧
        Counting.load C ((i.inst e).effect E s) b ≤ Counting.load C s a := by
      rw [Analysis.out, hD]
      cases hc : i.ctl with
      | plain => exact ⟨_, rfl, hs.transfer h hpos hlimit⟩
      | jump n => exact absurd (hctl.trans hc) (hnojump n)
      | label n =>
        rw [Insn.effect_of_ctl (by simp [hctl, hc])]
        exact ⟨a, rfl, hs, le_rfl⟩
      | branch n =>
        rw [Insn.effect_of_ctl (by simp [hctl, hc])]
        exact ⟨a, Counting.atBranch_false, hs, le_rfl⟩
    obtain ⟨b', hb', hle⟩ := Analysis.factAt_succ hscan hi ha hnojump' hout
    obtain ⟨hs'', hload'⟩ := hweaken hle hs'
    exact hgo hlt (hsucc hnone) hb' hs'' (.inr ⟨hload'.trans hload, Nat.lt_succ_self pc⟩)
  · -- control goes to a label
    rw [hctl] at hn
    have heffect : (i.inst e).effect E s = s := Insn.effect_of_ctl (by
      rw [hctl]
      rcases hn with hn | hn <;> simp [hn]) E s
    obtain ⟨q, hq⟩ : ∃ q, Template.target T.body n = some q := by
      rw [← Option.isSome_iff_exists]
      rcases hn with hn | hn <;> simp only [hn, Bool.and_eq_true] at haimed'
      · exact haimed'.1
      · exact haimed'
    obtain ⟨hqlt, hlabel, -⟩ := List.findIdx?_eq_some_iff_getElem.mp hq
    obtain ⟨b, hout, hb⟩ : ∃ b, D.out i true a = some b ∧ (b = .stuck ∨ Counting.Holds C s b ∧
        Counting.load C s b ≤ Counting.load C s a ∧
        (n ∈ Template.heads T.body → Counting.load C s b < Counting.load C s a)) := by
      rw [Analysis.out, hD]
      rcases hn with hn | hn
      · simp only [hn, Bool.and_eq_true, Bool.not_eq_true'] at haimed' ⊢
        have hhead : n ∉ Template.heads T.body := by simpa using haimed'.2
        exact ⟨a, rfl, .inr ⟨hs, le_rfl, fun hmem ↦ absurd hmem hhead⟩⟩
      · obtain ⟨b, hb, hcases⟩ := hs.branch (e := e) (Template.heads T.body) hn
        rw [hsome] at hb hcases
        simp only [hn]
        exact ⟨b, hb, hcases.imp_right fun hb ↦ ⟨hb.1, hb.2.1, hb.2.2 rfl⟩⟩
    obtain ⟨b', hb', hle⟩ := Analysis.le_of_scan hscan hi ha hn hout
    have hfact : D.factAt inv a₀ T.body q = some b' :=
      (Analysis.factAt_label (List.getElem?_eq_getElem hqlt) (eq_of_beq hlabel)).trans hb'
    rcases hb with rfl | ⟨hs', hload, hless⟩
    · cases hle
    · obtain ⟨hs'', hload'⟩ := hweaken (.inr hle) hs'
      refine hgo hqlt.le (hto hsome hq) hfact (heffect.symm ▸ hs'') ?_
      rw [heffect]
      by_cases hhead : n ∈ Template.heads T.body
      · exact .inl (hload'.trans_lt (hless hhead))
      · exact .inr ⟨hload'.trans hload, Template.lt_of_target hi hn hhead hq⟩
termination_by (Counting.load C s a, T.body.length - pc)
decreasing_by
  rcases hless with hless | ⟨hload, hlt'⟩
  · exact Prod.Lex.left _ _ hless
  · rcases Nat.eq_or_lt_of_le hload with heq | hless
    · rw [heq]
      exact Prod.Lex.right _ (by omega)
    · exact Prod.Lex.left _ _ hless

theorem Emitted.exists_exec (hlegal : (T.body.map (TInsn.inst e)).all Insn.legal = true)
    (hprogresses : T.progresses F.profile = true) (s : State) :
    ∃ t, Exec E (T.body.map (TInsn.inst e)) s t := by
  simp only [Template.progresses, Bool.and_eq_true, decide_eq_true_eq, Option.isSome_iff_exists]
    at hprogresses
  obtain ⟨⟨⟨haimed, hpos⟩, hlimit⟩, b, hrun⟩ := hprogresses
  obtain ⟨inv, hscan⟩ := Analysis.exists_scan_of_run hrun
  obtain ⟨a, ha, hle⟩ := Analysis.factAt_zero hscan
  have hstart : Counting.Holds ((Template.counter? T.body).getD ⟨.rax, .d, 1⟩) s
      (if (Template.heads T.body).isEmpty then .after else .before) := by
    split
    · trivial
    · trivial
  have hs := hle.elim (fun hle ↦ hle ▸ hstart) fun hle ↦ (hstart.weaken hle).1
  obtain ⟨t, ht⟩ := h.exists_reaches hlegal haimed hpos hlimit hscan (Nat.zero_le _) ha hs
  refine ⟨t, ?_⟩
  rwa [Exec, List.length_map]

end Runs

/-- At every leaf the chain cannot be encoded, or its loop counts. -/
theorem progresses_of_legal : ∀ h ∈ RwFunc.all, h.check (Leaf.every fun F T ↦
    T.isStraight || settles surveying h.residual F false || T.progresses F.profile) = true := by
  apply RwFunc.forall_mem_all <;> decide +kernel

/-- A chain that can be encoded runs to its end from every state. -/
theorem RwFunc.exists_exec {h : RwFunc} {c : Context} {i : AppInstr} (hi : h.Decodes i) {n : ℕ}
    {linked : Bool} {code : List Insn} (hrun : h.gen.run c i = .chain n linked code)
    (hlegal : ¬i.Matches c h.residual) (E : Ext) (s : State) : ∃ t, Exec E code s t := by
  obtain ⟨F, T, e, hemitted, rfl, -, rfl, htest⟩ :=
    exists_emitted (progresses_of_legal h h.mem_all) hi hrun
  have hall := (all_legal_iff hi hrun).mpr hlegal
  rw [Bool.or_eq_true, Bool.or_eq_true] at htest
  rcases htest with (hstraight | hresidual) | hprogresses
  · exact ⟨_, exec_effects hall (hemitted.all_plain hstraight) E s⟩
  · exact absurd (matches_of_settles hresidual hemitted.sat) hlegal
  · exact hemitted.exists_exec hall hprogresses s

end DrAvx
