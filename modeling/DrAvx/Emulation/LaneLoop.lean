import DrAvx.Machine.Saving

/-!
# Loops over the lanes of two operands

The comparisons into opmask registers go through the eight doublewords of their operands, which lie
on the stack, one by one.  The number of the lane is in `rbx`, and the result is collected bit by bit
in `r9`.  With a mask in `r11`, a lane that is masked out leaves its bit as it was.

## What is here

* `collect`: the bits after so many lanes.
* `LaneLoop.effects_fetch`, `LaneLoop.effects_count`, …: the blocks the loops are made of.
* `LaneLoop.round_plain`, `LaneLoop.round_masked`: one lane.
* `LaneLoop.exec_plain`, `LaneLoop.exec_masked`: all lanes.
-/

set_option autoImplicit false

namespace DrAvx

open Function

/-! ## Collecting bits -/

/-- The bit with a number, set or cleared. -/
def setBit (j : ℕ) (b : Bool) (v : BitVec 32) : BitVec 32 :=
  if b then v ||| 1#32 <<< j else v &&& ~~~(1#32 <<< j)

theorem getLsbD_setBit {j : ℕ} (b : Bool) (v : BitVec 32) {i : ℕ} (hi : i < 32) :
    (setBit j b v).getLsbD i = if i = j then b else v.getLsbD i := by
  have hbit : (1#32 <<< j).getLsbD i = decide (i = j) := by
    rw [BitVec.getLsbD_shiftLeft, BitVec.getLsbD_one, Bool.eq_iff_iff]
    simp only [Bool.and_eq_true, Bool.not_eq_true', decide_eq_true_eq, decide_eq_false_iff_not]
    omega
  cases b with
  | true =>
    rw [setBit, if_pos rfl, BitVec.getLsbD_or, hbit]
    by_cases h : i = j <;> simp [h]
  | false =>
    rw [setBit, if_neg Bool.false_ne_true, BitVec.getLsbD_and, BitVec.getLsbD_not, hbit]
    by_cases h : i = j <;> simp [h, hi]

/-- The bits after so many lanes: `active` says which lanes are not masked out, and `test` what the
comparison of a lane comes to. -/
def collect (active test : ℕ → Bool) (v : BitVec 32) : ℕ → BitVec 32
  | 0 => v
  | j + 1 => if active j then setBit j (test j) (collect active test v j) else collect active test v j

theorem getLsbD_collect (active test : ℕ → Bool) (v : BitVec 32) (n : ℕ) {i : ℕ} (hi : i < 32) :
    (collect active test v n).getLsbD i =
      if i < n ∧ active i = true then test i else v.getLsbD i := by
  induction n with
  | zero => simp [collect]
  | succ n ih =>
    rw [collect]
    by_cases hactive : active n = true
    · rw [if_pos hactive, getLsbD_setBit _ _ hi, ih]
      by_cases hin : i = n
      · simp [hin, hactive]
      · simp [hin, show i < n + 1 ↔ i < n by omega]
    · rw [if_neg hactive, ih]
      by_cases hin : i = n
      · simp [hin, hactive]
      · simp [show i < n + 1 ↔ i < n by omega]

namespace LaneLoop

/-! ## The blocks -/

/-- Lane `rbx` of the operand that lies so far above the stack pointer. -/
def elem (disp : ℤ) : Opnd := .mem .scratch (.baseDisp none (some .rsp) (.gpr .rbx) 4 disp) 4

/-- Compares the lanes. -/
def fetch : List Insn :=
  [⟨.movLd, [.gpr .d .r13], [elem 0]⟩, ⟨.movLd, [.gpr .d .r14], [elem 32]⟩,
    ⟨.cmp, [], [.gpr .d .r13, .gpr .d .r14]⟩]

/-- Sets or clears the bit of the lane. -/
def bit (set : Bool) : Insn :=
  ⟨if set then .bts else .btr, [.gpr .d .r9], [.gpr .d .rbx, .gpr .d .r9]⟩

/-- Goes to the next lane. -/
def count : List Insn :=
  [⟨.inc, [.gpr .d .rbx], [.gpr .d .rbx]⟩, ⟨.cmp, [], [.gpr .d .rbx, .imm 8 4]⟩]

/-- Looks at the bit of the lane in the mask. -/
def select : List Insn :=
  [⟨.movImm, [.gpr .d .r12], [.imm 1 4]⟩, ⟨.movLd, [.gpr .b .rcx], [.gpr .b .rbx]⟩,
    ⟨.shl, [.gpr .d .r12], [.gpr .b .rcx, .gpr .d .r12]⟩,
    ⟨.test, [], [.gpr .d .r12, .gpr .d .r11]⟩]

/-- The operands are on the stack. -/
def Operands (x y : ℕ → BitVec 32) (s : State) : Prop :=
  ∀ j < 8, load s.mem (s.gpr .rsp + BitVec.ofNat 64 (4 * j)) 4 = (x j).setWidth 256 ∧
    load s.mem (s.gpr .rsp + BitVec.ofNat 64 (32 + 4 * j)) 4 = (y j).setWidth 256

/-- A test of one bit. -/
theorem low_and_twoPow (v : BitVec 64) {j : ℕ} (hj : j < 8) :
    (low 4 ((BitVec.twoPow 32 j).setWidth 256 &&& (v.setWidth 32).setWidth 256) == 0#256) =
      !v.getLsbD j := by
  have hzero : 0#256 = (0#32).setWidth 256 := by decide
  rw [← BitVec.setWidth_and, low_setWidth_32, BitVec.and_comm, BitVec.and_twoPow, hzero,
    setWidth_beq (by decide), BitVec.getLsbD_setWidth, decide_eq_true (show j < 32 by omega),
    Bool.true_and]
  cases v.getLsbD j with
  | true =>
    rw [if_pos rfl]
    revert j
    decide
  | false => rfl

section Blocks

variable (E : Ext) {s : State} {j : ℕ} {x y : ℕ → BitVec 32}

theorem read_elem (hrbx : s.gpr .rbx = BitVec.ofNat 64 j) (k : ℕ) :
    s.read 4 (elem k) = load s.mem (s.gpr .rsp + BitVec.ofNat 64 (k + 4 * j)) 4 := by
  have hread : s.read 4 (elem k) =
      load s.mem (0 + s.gpr .rsp + s.gpr .rbx * BitVec.ofNat 64 4 + BitVec.ofInt 64 k) 4 := rfl
  rw [hread, hrbx, BitVec.ofInt_natCast, ← BitVec.ofNat_mul, BitVec.ofNat_eq_ofNat, BitVec.zero_add,
    BitVec.add_assoc, ← BitVec.ofNat_add, Nat.mul_comm, Nat.add_comm]

theorem effects_fetch (hj : j < 8) (hrbx : s.gpr .rbx = BitVec.ofNat 64 j) (h : Operands x y s) :
    Keeps [.r13, .r14] s (effects E fetch s) ∧
      ∀ c : Cond, c.holds (effects E fetch s).flags = c.compare (x j) (y j) := by
  refine ⟨keeps_effects rfl E s, fun c ↦ ?_⟩
  have hx : s.read 4 (elem 0) = (x j).setWidth 256 := by
    refine (read_elem hrbx 0).trans ?_
    rw [Nat.zero_add, (h j hj).1]
  rw [fetch, effects_cons, effect_move E s rfl, hx, State.write_d]
  have hy : ({ s with gpr := update s.gpr .r13 ((x j).setWidth 64) } : State).read 4 (elem 32) =
      (y j).setWidth 256 := (read_elem hrbx 32).trans (h j hj).2
  rw [effects_cons, effect_move E _ rfl, hy, State.write_d, effects_cons, effect_cmp, effects_nil,
    State.read_d, State.read_d]
  refine Eq.trans ?_ (holds_cmp (x j) (y j) c)
  simp only [update_self, ne_eq, reduceCtorEq, not_false_eq_true, update_of_ne, setWidth_64_32]
  rfl

/-- The bit of the lane. -/
theorem effect_bit (set : Bool) (hj : j < 8) (hrbx : s.gpr .rbx = BitVec.ofNat 64 j) :
    Keeps [.r9] s ((bit set).effect E s) ∧
      (((bit set).effect E s).gpr .r9).setWidth 32 = setBit j set ((s.gpr .r9).setWidth 32) := by
  refine ⟨keeps_effect rfl E s, ?_⟩
  have hindex : (s.read 4 (.gpr .d .rbx)).toNat % (8 * 4) = j := by
    rw [State.read_d, hrbx, BitVec.toNat_setWidth_of_le (by decide), BitVec.toNat_setWidth,
      BitVec.toNat_ofNat]
    omega
  have hwidth : ∀ j < 8, (1#256 <<< j).setWidth 32 = 1#32 <<< j ∧
      (~~~(1#256 <<< j)).setWidth 32 = ~~~(1#32 <<< j) := by decide
  obtain ⟨hone, hnot⟩ := hwidth j hj
  cases set with
  | true =>
    obtain ⟨fl, heffect⟩ := effect_combine_d E s (g := .r9) (b := .gpr .d .rbx)
      (show Op.combine .bts _ _ _ = some _ from rfl)
    rw [bit, if_pos rfl, heffect, hindex, BitVec.setWidth_or, setWidth_setWidth_32, hone]
    exact (congrArg _ (update_self Gpr.r9 _ s.gpr)).trans (setWidth_64_32 _)
  | false =>
    obtain ⟨fl, heffect⟩ := effect_combine_d E s (g := .r9) (b := .gpr .d .rbx)
      (show Op.combine .btr _ _ _ = some _ from rfl)
    rw [bit, if_neg Bool.false_ne_true, heffect, hindex, BitVec.setWidth_and, setWidth_setWidth_32,
      hnot]
    exact (congrArg _ (update_self Gpr.r9 _ s.gpr)).trans (setWidth_64_32 _)

theorem effects_count (hj : j < 8) (hrbx : s.gpr .rbx = BitVec.ofNat 64 j) :
    Keeps [.rbx] s (effects E count s) ∧
      (effects E count s).gpr .rbx = BitVec.ofNat 64 (j + 1) ∧
      Cond.l.holds (effects E count s).flags = decide (j + 1 < 8) := by
  refine ⟨keeps_effects rfl E s, ?_⟩
  have hnext : ∀ j < 8, (addWithFlags 4 (((BitVec.ofNat 64 j).setWidth 32).setWidth 256) 1).1 =
      (BitVec.ofNat 32 (j + 1)).setWidth 256 ∧
      (BitVec.ofNat 32 (j + 1)).setWidth 64 = BitVec.ofNat 64 (j + 1) ∧
      Cond.l.compare (BitVec.ofNat 32 (j + 1)) 8#32 = decide (j + 1 < 8) := by decide
  obtain ⟨hinc, hwide, hless⟩ := hnext j hj
  have height : BitVec.ofInt 256 8 = (8#32).setWidth 256 := by decide
  have hbytes : (Opnd.gpr .d .rbx).bytes = 4 := rfl
  rw [count, effects_cons, effect_inc, hbytes, State.read_d, hrbx, hinc, State.write_d, effects_cons,
    effect_cmp, effects_nil]
  refine ⟨(update_self Gpr.rbx _ s.gpr).trans hwide, ?_⟩
  rw [← hless, ← holds_cmp, ← height, State.read_d]
  simp only [update_self, setWidth_64_32]
  rfl

theorem effects_select (hj : j < 8) (hrbx : s.gpr .rbx = BitVec.ofNat 64 j) :
    Keeps [.r12, .rcx] s (effects E select s) ∧
      Cond.z.holds (effects E select s).flags = !(s.gpr .r11).getLsbD j := by
  refine ⟨keeps_effects rfl E s, ?_⟩
  have hone : BitVec.ofInt 256 1 = (1#32).setWidth 256 := by decide
  have himm : s.read 4 (.imm 1 4) = BitVec.ofInt 256 1 := rfl
  rw [select, effects_cons, effect_move E s rfl, himm, hone, State.write_d, effects_cons,
    effect_move E _ rfl]
  generalize hs₁ : State.write _ _ _ _ _ = s₁
  have hrcx : (s₁.read 4 (.gpr .b .rcx)).toNat % 32 = j := by
    have hlow : s₁.read 4 (.gpr .b .rcx) = low 1 (low 1 ((s.gpr .rbx).setWidth 256)) := by
      rw [← hs₁, State.read_gpr, State.gpr_write_gpr, update_self]
      exact State.low_writeGpr .b _ _
    rw [hlow, low_low, toNat_low (by decide), hrbx, BitVec.toNat_setWidth_of_le (by decide),
      BitVec.toNat_ofNat]
    omega
  have hr12 : (s₁.gpr .r12).setWidth 32 = 1#32 := by
    rw [← hs₁]
    rfl
  have hr11 : s₁.gpr .r11 = s.gpr .r11 := by
    rw [← hs₁]
    rfl
  obtain ⟨fl, heffect⟩ := effect_combine_d E s₁ (g := .r12) (b := .gpr .b .rcx)
      (show Op.combine .shl _ _ _ = some _ from rfl)
  have hshift : ∀ j < 8, ((1#32).setWidth 256 <<< j).setWidth 32 = BitVec.twoPow 32 j := by decide
  have hcount : (if 4 = 8 then 64 else 32) = 32 := rfl
  rw [effects_cons, heffect, effects_cons, effect_test, effects_nil, State.read_d, State.read_d, hr12,
    hcount, hrcx, hshift j hj]
  simp only [update_self, ne_eq, reduceCtorEq, not_false_eq_true, update_of_ne, setWidth_64_32, hr11]
  exact low_and_twoPow (s.gpr .r11) hj

end Blocks

/-! ## The loops -/

/-- Without a mask. -/
def plain (c : Cond) : List Insn :=
  [⟨.label, [], [.label 0]⟩] ++ fetch ++ [⟨.jcc c, [], [.label 1]⟩, bit false] ++ count ++
  [⟨.jcc .l, [], [.label 0]⟩, ⟨.jmp, [], [.label 2]⟩, ⟨.label, [], [.label 1]⟩, bit true] ++ count ++
  [⟨.jcc .l, [], [.label 0]⟩, ⟨.label, [], [.label 2]⟩]

/-- The same, with the last jump behind the label. -/
def plainLate (c : Cond) : List Insn :=
  [⟨.label, [], [.label 0]⟩] ++ fetch ++ [⟨.jcc c, [], [.label 1]⟩, bit false] ++ count ++
  [⟨.jcc .l, [], [.label 0]⟩, ⟨.jmp, [], [.label 2]⟩, ⟨.label, [], [.label 1]⟩, bit true] ++ count ++
  [⟨.label, [], [.label 2]⟩, ⟨.jcc .l, [], [.label 0]⟩]

/-- The mask is brought to `r11` for every lane, or has been there from the beginning. -/
def reload (again : Bool) : List Insn :=
  if again then [⟨.movLd, [.gpr .q .r11], [.gpr .q .r10]⟩] else []

/-- Where the mask is in the beginning. -/
def maskReg (again : Bool) : Gpr := if again then .r10 else .r11

/-- With a mask. -/
def masked (again : Bool) (c : Cond) : List Insn :=
  [⟨.label, [], [.label 0]⟩] ++ reload again ++ select ++ [⟨.jcc .z, [], [.label 1]⟩] ++ fetch ++
  [⟨.jcc c, [], [.label 2]⟩, bit false, ⟨.label, [], [.label 1]⟩] ++ count ++
  [⟨.jcc .l, [], [.label 0]⟩, ⟨.jmp, [], [.label 3]⟩, ⟨.label, [], [.label 2]⟩, bit true] ++ count ++
  [⟨.jcc .l, [], [.label 0]⟩, ⟨.label, [], [.label 3]⟩]

/-- The registers that the loops change. -/
def changed (again : Bool) : List Gpr :=
  if again then [.rbx, .r9, .r13, .r14, .r12, .rcx, .r11] else [.rbx, .r9, .r13, .r14, .r12, .rcx]

/-- A state of the loop that began in `s₀`: it is at lane `j`, and has collected these bits. -/
structure At (again : Bool) (s₀ : State) (j : ℕ) (v : BitVec 32) (s : State) : Prop where
  keeps : Keeps (changed again) s₀ s
  rbx : s.gpr .rbx = BitVec.ofNat 64 j
  r9 : (s.gpr .r9).setWidth 32 = v

section Rounds

variable {again : Bool} {E : Ext} {code : List Insn} {pc back : ℕ} {c : Cond} {x y : ℕ → BitVec 32}
  {s s₀ : State} {j : ℕ} {v : BitVec 32}

/-- Blocks that change none of the two registers. -/
theorem At.of_keeps {t : State} {gs : List Gpr} (h : At again s₀ j v s) (hkeeps : Keeps gs s t)
    (hgs : gs ⊆ changed again) (hrbx : .rbx ∉ gs) (hr9 : .r9 ∉ gs) : At again s₀ j v t where
  keeps := h.keeps.trans (hkeeps.mono hgs)
  rbx := (hkeeps.gpr _ hrbx).trans h.rbx
  r9 := (congrArg (BitVec.setWidth 32) (hkeeps.gpr _ hr9)).trans h.r9

theorem At.operands (h : At again s₀ j v s) (hops : Operands x y s₀) : Operands x y s := by
  intro i hi
  rw [h.keeps.mem, h.keeps.gpr .rsp (by cases again <;> decide)]
  exact hops i hi

theorem At.fetch (h : At again s₀ j v s) (hj : j < 8) (hops : Operands x y s₀) :
    At again s₀ j v (effects E fetch s) ∧
      ∀ c : Cond, c.holds (effects E LaneLoop.fetch s).flags = c.compare (x j) (y j) := by
  obtain ⟨hkeeps, hholds⟩ := effects_fetch E hj h.rbx (h.operands hops)
  exact ⟨h.of_keeps hkeeps (by cases again <;> decide) (by decide) (by decide), hholds⟩

/-- The bit of a lane is written. -/
theorem At.bit (h : At again s₀ j v s) (hj : j < 8) (set : Bool) :
    At again s₀ j (setBit j set v) ((bit set).effect E s) := by
  obtain ⟨hkeeps, hvalue⟩ := effect_bit E set hj h.rbx
  refine ⟨h.keeps.trans (hkeeps.mono (by cases again <;> decide)),
    (hkeeps.gpr _ (by decide)).trans h.rbx, ?_⟩
  rw [hvalue, h.r9]

/-- The lanes are counted. -/
theorem At.count (h : At again s₀ j v s) (hj : j < 8) :
    At again s₀ (j + 1) v (effects E count s) ∧
      Cond.l.holds (effects E LaneLoop.count s).flags = decide (j + 1 < 8) := by
  obtain ⟨hkeeps, hnext, hless⟩ := effects_count E hj h.rbx
  refine ⟨⟨h.keeps.trans (hkeeps.mono (by cases again <;> decide)), hnext, ?_⟩, hless⟩
  rw [hkeeps.gpr .r9 (by decide), h.r9]

/-- The mask is in `r11`. -/
theorem At.reload (h : At again s₀ j v s) : At again s₀ j v (effects E (reload again) s) ∧
    (effects E (LaneLoop.reload again) s).gpr .r11 = s₀.gpr (maskReg again) := by
  cases again with
  | true =>
    have hkeeps : Keeps [.r11] s (effects E (LaneLoop.reload true) s) := keeps_effects rfl E s
    refine ⟨h.of_keeps hkeeps (by decide) (by decide) (by decide), ?_⟩
    have heffect : effects E (LaneLoop.reload true) s =
        s.write false s (.gpr .q .r11) (s.read 4 (.gpr .q .r10)) := rfl
    rw [heffect, State.read_q, State.write_q]
    exact (update_self Gpr.r11 _ s.gpr).trans (h.keeps.gpr .r10 (by decide))
  | false => exact ⟨h, h.keeps.gpr .r11 (by decide)⟩

/-- Back to the beginning or out of the loop. -/
theorem runs_less {p : Prop} [Decidable p] (pc : ℕ) (hless : Cond.l.holds s.flags = decide p)
    (hjump : code[pc]? = some ⟨.jcc .l, [], [.label 0]⟩)
    (hback : code.findIdx? (Insn.isLabel 0) = some back) :
    Runs E code pc s (if p then back else pc + 1) s := by
  split
  next hp => exact runs_jcc hjump hback (hless.trans (decide_eq_true hp))
  next hp => exact runs_jcc_not hjump (hless.trans (decide_eq_false hp))

/-- Where the loop is left there may be a way to go. -/
theorem runs_ite {p : Prop} [Decidable p] {pc' pc'' : ℕ} {t : State}
    (h : Runs E code pc s (if p then back else pc') t) (h' : ¬p → Runs E code pc' t pc'' t) :
    Runs E code pc s (if p then back else pc'') t := by
  split at h
  next hp => rwa [if_pos hp]
  next hp =>
    rw [if_neg hp]
    exact h.trans (h' hp)

/-- A round without a mask. -/
theorem round_plain (hj : j < 8) (hops : Operands x y s₀) (h : At false s₀ j v s) :
    ∃ t, At false s₀ (j + 1) (setBit j (c.compare (x j) (y j)) v) t ∧
      Runs E (plain c) 0 s (if j + 1 < 8 then 0 else 16) t := by
  obtain ⟨hfetch, hholds⟩ := h.fetch (E := E) hj hops
  have hstart : Runs E (plain c) 0 s 4 (effects E fetch s) :=
    (runs_label rfl).trans (runs_segment fetch rfl rfl s)
  have hend (t : State) : Runs E (plain c) 15 t 16 t := runs_label rfl
  cases hcond : c.compare (x j) (y j) with
  | true =>
    obtain ⟨ht, hless⟩ := (hfetch.bit (E := E) hj true).count (E := E) hj
    refine ⟨_, ht, hstart.trans (Runs.trans ?_ (runs_ite (runs_less 14 hless rfl rfl)
      fun _ ↦ hend _))⟩
    exact (runs_jcc rfl rfl ((hholds c).trans hcond)).trans <| (runs_label rfl).trans <|
      (runs_insn rfl rfl rfl).trans (runs_segment count rfl rfl _)
  | false =>
    obtain ⟨ht, hless⟩ := (hfetch.bit (E := E) hj false).count (E := E) hj
    refine ⟨_, ht, hstart.trans (Runs.trans ?_ (runs_ite (runs_less 8 hless rfl rfl)
      fun _ ↦ (runs_jmp rfl rfl).trans (hend _)))⟩
    exact (runs_jcc_not rfl ((hholds c).trans hcond)).trans <|
      (runs_insn rfl rfl rfl).trans (runs_segment count rfl rfl _)

/-- A round with the last jump behind the label. -/
theorem round_plainLate (hj : j < 8) (hops : Operands x y s₀) (h : At false s₀ j v s) :
    ∃ t, At false s₀ (j + 1) (setBit j (c.compare (x j) (y j)) v) t ∧
      Runs E (plainLate c) 0 s (if j + 1 < 8 then 0 else 16) t := by
  obtain ⟨hfetch, hholds⟩ := h.fetch (E := E) hj hops
  have hstart : Runs E (plainLate c) 0 s 4 (effects E fetch s) :=
    (runs_label rfl).trans (runs_segment fetch rfl rfl s)
  cases hcond : c.compare (x j) (y j) with
  | true =>
    obtain ⟨ht, hless⟩ := (hfetch.bit (E := E) hj true).count (E := E) hj
    refine ⟨_, ht, hstart.trans (Runs.trans ?_ (runs_less 15 hless rfl rfl))⟩
    exact (runs_jcc rfl rfl ((hholds c).trans hcond)).trans <| (runs_label rfl).trans <|
      (runs_insn rfl rfl rfl).trans <| (runs_segment count rfl rfl _).trans (runs_label rfl)
  | false =>
    obtain ⟨ht, hless⟩ := (hfetch.bit (E := E) hj false).count (E := E) hj
    -- the jump behind the label is not taken either
    have hend (hlast : ¬j + 1 < 8) : Runs E (plainLate c) 15 _ 16 _ :=
      runs_jcc_not rfl (hless.trans (decide_eq_false hlast))
    refine ⟨_, ht, hstart.trans (Runs.trans ?_ (runs_ite (runs_less 8 hless rfl rfl)
      fun hlast ↦ (runs_jmp rfl rfl).trans ((runs_label rfl).trans (hend hlast))))⟩
    exact (runs_jcc_not rfl ((hholds c).trans hcond)).trans <|
      (runs_insn rfl rfl rfl).trans (runs_segment count rfl rfl _)

/-- A round with a mask. -/
theorem round_masked (hj : j < 8) (hops : Operands x y s₀) (h : At again s₀ j v s) :
    ∃ t, At again s₀ (j + 1) (if (s₀.gpr (maskReg again)).getLsbD j then
        setBit j (c.compare (x j) (y j)) v else v) t ∧
      Runs E (masked again c) 0 s (if j + 1 < 8 then 0 else (masked again c).length) t := by
  obtain ⟨hreload, hmask⟩ := h.reload (E := E)
  obtain ⟨hkeeps, hbit⟩ := effects_select E hj hreload.rbx
  have hselect := hreload.of_keeps hkeeps (by cases again <;> decide) (by decide) (by decide)
  rw [hmask] at hbit
  generalize hk : (reload again).length = k
  have hlength : (masked again c).length = k + 22 := by
    rw [← hk]
    cases again <;> rfl
  have hstart : Runs E (masked again c) 0 s (k + 5) (effects E select (effects E (reload again) s)) := by
    subst hk
    have hlabel : Runs E (masked again c) 0 s 1 s := runs_label rfl
    have hreload : Runs E (masked again c) 1 s (1 + (reload again).length)
        (effects E (reload again) s) :=
      runs_segment (reload again) (by cases again <;> rfl) (by cases again <;> rfl) s
    rw [Nat.add_comm] at hreload
    exact (hlabel.trans hreload).trans (runs_segment select (by cases again <;> rfl) rfl _)
  have hend (t : State) : Runs E (masked again c) (k + 21) t (k + 22) t := by
    subst hk
    exact runs_label (n := 3) (by cases again <;> rfl)
  -- from the label of the lanes that are masked out
  have hnext {t u : State} (hless : Cond.l.holds u.flags = decide (j + 1 < 8))
      (hu : u = effects E count t) : Runs E (masked again c) (k + 11) t
        (if j + 1 < 8 then 0 else (masked again c).length) u := by
    subst hk hu
    rw [hlength]
    exact (runs_label (n := 1) (by cases again <;> rfl)).trans <| (runs_segment count
      (by cases again <;> rfl) rfl t).trans (runs_ite (runs_less _ hless (by cases again <;> rfl) rfl)
        fun _ ↦ (runs_jmp (n := 3) (k := (reload again).length + 21) (by cases again <;> rfl) (by cases again <;> rfl)).trans (hend _))
  cases hactive : (s₀.gpr (maskReg again)).getLsbD j with
  | false =>
    rw [hactive] at hbit
    obtain ⟨ht, hless⟩ := hselect.count (E := E) hj
    refine ⟨_, ht, hstart.trans (Runs.trans ?_ (hnext hless rfl))⟩
    subst hk
    exact runs_jcc (c := .z) (n := 1) (by cases again <;> rfl) (by cases again <;> rfl) hbit
  | true =>
    rw [hactive] at hbit
    obtain ⟨hfetch, hholds⟩ := hselect.fetch (E := E) hj hops
    have hcompare : Runs E (masked again c) 0 s (k + 9) (effects E fetch
        (effects E select (effects E (reload again) s))) := by
      refine hstart.trans ?_
      subst hk
      exact (runs_jcc_not (c := .z) (n := 1) (by cases again <;> rfl) hbit).trans
        (runs_segment fetch (by cases again <;> rfl) rfl _)
    cases hcond : c.compare (x j) (y j) with
    | true =>
      obtain ⟨ht, hless⟩ := (hfetch.bit (E := E) hj true).count (E := E) hj
      refine ⟨_, ht, hcompare.trans ?_⟩
      rw [hlength]
      subst hk
      exact (runs_jcc (n := 2) (k := (reload again).length + 16) (by cases again <;> rfl)
        (by cases again <;> rfl) ((hholds c).trans hcond)).trans <|
        (runs_label (n := 2) (by cases again <;> rfl)).trans <|
        (runs_insn (i := bit true) (by cases again <;> rfl) rfl rfl).trans <| (runs_segment count
          (by cases again <;> rfl) rfl _).trans (runs_ite (runs_less _ hless
            (by cases again <;> rfl) rfl) fun _ ↦ hend _)
    | false =>
      obtain ⟨ht, hless⟩ := (hfetch.bit (E := E) hj false).count (E := E) hj
      refine ⟨_, ht, hcompare.trans (Runs.trans ?_ (hnext hless rfl))⟩
      subst hk
      exact (runs_jcc_not (n := 2) (by cases again <;> rfl) ((hholds c).trans hcond)).trans
        (runs_insn (i := bit false) (by cases again <;> rfl) rfl rfl)

end Rounds

/-! ## All lanes -/

section Lanes

variable {E : Ext} {c : Cond} {x y : ℕ → BitVec 32} {s : State}

/-- From the rounds to the whole loop. -/
theorem exec_rounds {again : Bool} {loop : List Insn} {active test : ℕ → Bool} {v : BitVec 32}
    (hround : ∀ j < 8, ∀ v t, At again s j v t →
      ∃ u, At again s (j + 1) (if active j then setBit j (test j) v else v) u ∧
        Runs E loop 0 t (if j + 1 < 8 then 0 else loop.length) u)
    (h : At again s 0 v s) : ∃ t, At again s 8 (collect active test v 8) t ∧ Exec E loop s t :=
  Runs.loop (P := fun j ↦ At again s j (collect active test v j))
    (fun j hj t ht ↦ hround j hj _ t ht) (by decide) h

theorem at_zero (again : Bool) (hrbx : s.gpr .rbx = 0) : At again s 0 ((s.gpr .r9).setWidth 32) s :=
  ⟨.refl _ s, hrbx, rfl⟩

theorem exec_plain (hrbx : s.gpr .rbx = 0) (hops : Operands x y s) :
    ∃ t, At false s 8 (collect (fun _ ↦ true) (fun j ↦ c.compare (x j) (y j))
      ((s.gpr .r9).setWidth 32) 8) t ∧ Exec E (plain c) s t :=
  exec_rounds (fun _ hj _ _ ht ↦ round_plain hj hops ht) (at_zero _ hrbx)

theorem exec_plainLate (hrbx : s.gpr .rbx = 0) (hops : Operands x y s) :
    ∃ t, At false s 8 (collect (fun _ ↦ true) (fun j ↦ c.compare (x j) (y j))
      ((s.gpr .r9).setWidth 32) 8) t ∧ Exec E (plainLate c) s t :=
  exec_rounds (fun _ hj _ _ ht ↦ round_plainLate hj hops ht) (at_zero _ hrbx)

theorem exec_masked (again : Bool) (hrbx : s.gpr .rbx = 0) (hops : Operands x y s) :
    ∃ t, At again s 8 (collect (s.gpr (maskReg again)).getLsbD (fun j ↦ c.compare (x j) (y j))
      ((s.gpr .r9).setWidth 32) 8) t ∧ Exec E (masked again c) s t :=
  exec_rounds (fun _ hj _ _ ht ↦ round_masked hj hops ht) (at_zero _ hrbx)

end Lanes

end LaneLoop

end DrAvx
