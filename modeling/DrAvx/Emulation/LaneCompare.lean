import DrAvx.Emulation.LaneLoop

/-!
# Comparisons into opmask registers

Around the loop over the lanes there is always the same code: registers and the flags are saved, the
operands are brought to the stack, the bits are collected, and what has been collected goes to the
slot of the destination.  The chains differ in how the operands get to the stack, in what the
collection begins with, and in the loop.

## What is here

* `LaneCompare.Loads`: code that brings two operands to the stack.
* `LaneCompare.code`: the whole chain.
* `LaneCompare.exec_code`: what it does, `LaneCompare.collected`.
* `LaneCompare.getLsbD_collected`: the bits that are left in the destination.
-/

set_option autoImplicit false

namespace DrAvx

open Function Bits

namespace LaneCompare

/-! ## Operands on the stack -/

/-- Stores a register to the stack. -/
def put (k : ℕ) (a : VReg) : Insn := ⟨.vmovdqu, [stackOpnd k 32], [.vec .ymm a]⟩

/-- Saves a register to its slot. -/
def saveYmm (t : VReg) : Insn := ⟨.vmovdqu, [.zslot t false 32], [.vec .ymm t]⟩

/-- Loads a register from the slot of another one, or its own. -/
def loadYmm (t a : VReg) : Insn := ⟨.vmovdqu, [.vec .ymm t], [.zslot a false 32]⟩

/-- Copies a register. -/
def moveYmm (t a : VReg) : Insn := ⟨.vmovdqu, [.vec .ymm t], [.vec .ymm a]⟩

/-- Memory with the two operands at an address. -/
def operandsAt (mem : BitVec 64 → BitVec 8) (sp : BitVec 64) (x y : Val) : BitVec 64 → BitVec 8 :=
  store (store mem (sp + BitVec.ofNat 64 0) 32 x) (sp + BitVec.ofNat 64 32) 32 y

/-- The code brings the two registers to the stack, and changes nothing else but slots of registers
that do not need them. -/
def Loads (load : List Insn) (a b : VReg) : Prop :=
  straight load = true ∧ ∀ E s, ∃ lo, effects E load s = { s with
    lo := lo
    mem := operandsAt s.mem (s.gpr .rsp) (s.zmmLo a) (s.zmmLo b) }

section Loads

/-- The instructions are legal if the register is one of the first sixteen. -/
theorem legal_put (k : ℕ) (a : VReg) : (put k a).legal = !a.high := by
  have hlegal (high : Bool) :
      Op.encodable .vmovdqu [(stackOpnd k 32).shape] [.vec .ymm high] = !high := by
    cases high <;> rfl
  exact hlegal a.high

theorem straight_put (k : ℕ) (a : VReg) (code : List Insn) :
    straight (put k a :: code) = (!a.high && straight code) :=
  congrArg (· && true && straight code) (legal_put k a) |>.trans (by rw [Bool.and_true])

theorem straight_saveYmm (t : VReg) (code : List Insn) :
    straight (saveYmm t :: code) = (!t.high && straight code) := by
  have hlegal (high : Bool) :
      Op.encodable .vmovdqu [(Opnd.zslot t false 32).shape] [.vec .ymm high] = !high := by
    cases high <;> rfl
  exact congrArg (· && true && straight code) (hlegal t.high) |>.trans (by rw [Bool.and_true])

theorem straight_loadYmm (t a : VReg) (code : List Insn) :
    straight (loadYmm t a :: code) = (!t.high && straight code) := by
  have hlegal (high : Bool) :
      Op.encodable .vmovdqu [.vec .ymm high] [(Opnd.zslot a false 32).shape] = !high := by
    cases high <;> rfl
  exact congrArg (· && true && straight code) (hlegal t.high) |>.trans (by rw [Bool.and_true])

theorem straight_moveYmm (t a : VReg) (code : List Insn) :
    straight (moveYmm t a :: code) = (!t.high && !a.high && straight code) := by
  have hlegal (high high' : Bool) :
      Op.encodable .vmovdqu [.vec .ymm high] [.vec .ymm high'] = (!high && !high') := by
    cases high <;> cases high' <;> rfl
  exact congrArg (· && true && straight code) (hlegal t.high a.high) |>.trans (by rw [Bool.and_true])

theorem effect_put (E : Ext) (s : State) (k : ℕ) (a : VReg) : (put k a).effect E s =
    { s with mem := store s.mem (s.gpr .rsp + BitVec.ofNat 64 k) 32 (s.ymm a) } := by
  have hread : s.read 4 (.vec .ymm a) = low 32 (s.ymm a) := rfl
  rw [put, effect_move E s rfl, write_stackOpnd, hread, low_32, BitVec.ofInt_natCast]

theorem effect_save (E : Ext) (s : State) (t : VReg) :
    (saveYmm t).effect E s = { s with lo := update s.lo t (s.ymm t) } :=
  Insn.effect_saveYmm E s t t

theorem effect_load (E : Ext) (s : State) (t a : VReg) :
    (loadYmm t a).effect E s = { s with ymm := update s.ymm t (s.lo a) } :=
  Insn.effect_restoreYmm E s t a

theorem effect_moveYmm (E : Ext) (s : State) (t a : VReg) :
    (moveYmm t a).effect E s = { s with ymm := update s.ymm t (s.ymm a) } := by
  have heffect : (moveYmm t a).effect E s =
      { s with ymm := update s.ymm t (low 32 (low 32 (s.ymm a))) } := rfl
  rw [heffect, low_32, low_32]

variable {a b t u : VReg}

theorem zmmLo_low (ha : a.high = false) (s : State) : s.zmmLo a = s.ymm a := by
  rw [State.zmmLo, ha]
  rfl

theorem zmmLo_high (ha : a.high = true) (s : State) : s.zmmLo a = s.lo a := by
  rw [State.zmmLo, ha]
  rfl

/-- A register that is found in a slot is not a scratch register. -/
theorem ne_of_high (ha : a.high = true) (ht : t.high = false) : a ≠ t := by
  rintro rfl
  rw [ha] at ht
  cases ht

/-- Neither register is spilled. -/
theorem loads_regs (ha : a.high = false) (hb : b.high = false) : Loads [put 0 a, put 32 b] a b := by
  refine ⟨?_, fun E s ↦ ⟨s.lo, ?_⟩⟩
  · rw [straight_put, straight_put, ha, hb]
    rfl
  · rw [effects_cons, effect_put, effects_cons, effect_put, effects_nil, zmmLo_low ha, zmmLo_low hb]
    rfl

/-- The first register is spilled, and the scratch register restored at once. -/
theorem loads_first (ha : a.high = true) (hb : b.high = false) (ht : t.high = false) :
    Loads [saveYmm t, loadYmm t a, put 0 t, loadYmm t t, put 32 b] a b := by
  refine ⟨?_, fun E s ↦ ⟨update s.lo t (s.ymm t), ?_⟩⟩
  · rw [straight_saveYmm, straight_loadYmm, straight_put, straight_loadYmm, straight_put, ht, hb]
    rfl
  · rw [effects_cons, effect_save, effects_cons, effect_load, effects_cons, effect_put, effects_cons,
      effect_load, effects_cons, effect_put, effects_nil, zmmLo_high ha, zmmLo_low hb]
    simp only [update_self, update_idem, update_eq_self, update_of_ne (ne_of_high ha ht)]
    rfl

/-- The first register is spilled, and the scratch register restored in the end.  If it is the second
register, the first one is stored twice. -/
theorem loads_first_late (ha : a.high = true) (hb : b.high = false) (ht : t.high = false) :
    Loads [saveYmm t, loadYmm t a, put 0 t, put 32 b, loadYmm t t] a (if b = t then a else b) := by
  refine ⟨?_, fun E s ↦ ⟨update s.lo t (s.ymm t), ?_⟩⟩
  · rw [straight_saveYmm, straight_loadYmm, straight_put, straight_put, straight_loadYmm, ht, hb]
    rfl
  · have hstored : update s.ymm t (s.lo a) b = s.zmmLo (if b = t then a else b) := by
      rw [update_apply]
      split
      · exact (zmmLo_high ha s).symm
      · exact (zmmLo_low hb s).symm
    rw [effects_cons, effect_save, effects_cons, effect_load, effects_cons, effect_put, effects_cons,
      effect_put, effects_cons, effect_load, effects_nil, zmmLo_high ha, ← hstored]
    simp only [update_self, update_idem, update_eq_self, update_of_ne (ne_of_high ha ht)]
    rfl

/-- The second register is spilled. -/
theorem loads_second (ha : a.high = false) (hb : b.high = true) (ht : t.high = false) (hat : a ≠ t) :
    Loads [saveYmm t, loadYmm t b, put 0 a, put 32 t, loadYmm t t] a b := by
  refine ⟨?_, fun E s ↦ ⟨update s.lo t (s.ymm t), ?_⟩⟩
  · rw [straight_saveYmm, straight_loadYmm, straight_put, straight_put, straight_loadYmm, ht, ha]
    rfl
  · rw [effects_cons, effect_save, effects_cons, effect_load, effects_cons, effect_put, effects_cons,
      effect_put, effects_cons, effect_load, effects_nil, zmmLo_low ha, zmmLo_high hb]
    simp only [update_self, update_idem, update_eq_self, update_of_ne (ne_of_high hb ht),
      update_of_ne hat]
    rfl

/-- Both registers are spilled. -/
theorem loads_both (ha : a.high = true) (hb : b.high = true) (ht : t.high = false)
    (hu : u.high = false) (htu : t ≠ u) :
    Loads [saveYmm t, loadYmm t a, saveYmm u, loadYmm u b, put 0 t, put 32 u, loadYmm t t,
      loadYmm u u] a b := by
  refine ⟨?_, fun E s ↦ ⟨update (update s.lo t (s.ymm t)) u (s.ymm u), ?_⟩⟩
  · rw [straight_saveYmm, straight_loadYmm, straight_saveYmm, straight_loadYmm, straight_put,
      straight_put, straight_loadYmm, straight_loadYmm, ht, hu]
    rfl
  · rw [zmmLo_high ha, zmmLo_high hb, effects_cons, effect_save, effects_cons, effect_load,
      effects_cons, effect_save, effects_cons, effect_load]
    simp only [update_of_ne (ne_of_high ha ht), update_of_ne (ne_of_high hb ht),
      update_of_ne (ne_of_high hb hu), update_of_ne htu.symm]
    rw [effects_cons, effect_put, effects_cons, effect_put, effects_cons, effect_load,
      effects_cons, effect_load, effects_nil]
    have hymm (x y : Val) :
        update (update (update (update s.ymm t x) u y) t (s.ymm t)) u (s.ymm u) = s.ymm := by
      funext r
      rcases eq_or_ne r u with rfl | hru
      · rw [update_self]
      rcases eq_or_ne r t with rfl | hrt
      · rw [update_of_ne hru, update_self]
      rw [update_of_ne hru, update_of_ne hrt, update_of_ne hru, update_of_ne hrt]
    simp only [update_self, update_of_ne htu, hymm]
    rfl

/-- The second operand is moved through a scratch register as if it were in memory. -/
theorem loads_moved (ha : a.high = false) (hb : b.high = false) (ht : t.high = false) :
    Loads [put 0 a, saveYmm t, moveYmm t b, put 32 t, loadYmm t t] a b := by
  refine ⟨?_, fun E s ↦ ⟨update s.lo t (s.ymm t), ?_⟩⟩
  · rw [straight_put, straight_saveYmm, straight_moveYmm, straight_put, straight_loadYmm, ha, hb, ht]
    rfl
  · rw [effects_cons, effect_put, effects_cons, effect_save, effects_cons, effect_moveYmm,
      effects_cons, effect_put, effects_cons, effect_load, effects_nil, zmmLo_low ha, zmmLo_low hb]
    simp only [update_self, update_idem, update_eq_self]
    rfl

end Loads

/-! ## The chain -/

/-- How the bits are collected. -/
inductive Loop
  | plain
  | plainLate
  | masked (again : Bool)

namespace Loop

variable (loop : Loop) (c : Cond) (k : KReg) (s : State)

def code : List Insn :=
  match loop with
  | plain => LaneLoop.plain c
  | plainLate => LaneLoop.plainLate c
  | masked again => LaneLoop.masked again c

/-- Brings the mask to where the loop looks for it. -/
def fetchMask : List Insn :=
  match loop with
  | plain | plainLate => []
  | masked again =>
    ⟨.movLd, [.gpr .q .r10], [.kslot k 8]⟩ :: LaneLoop.reload (!again)

/-- The lanes that are looked at. -/
def active : ℕ → Bool :=
  match loop with
  | plain | plainLate => fun _ ↦ true
  | masked _ => (s.kslot k).getLsbD

end Loop

/-- What is saved. -/
def saved : List Saved :=
  [.reg .rbx, .reg .rcx, .reg .r9, .reg .r10, .reg .r11, .reg .r12, .reg .r13, .reg .r14, .flags]

/-- Makes room for the operands. -/
def down : Insn := ⟨.sub, [.gpr .q .rsp], [.imm 64 4, .gpr .q .rsp]⟩

def up : Insn := ⟨.add, [.gpr .q .rsp], [.imm 64 4, .gpr .q .rsp]⟩

/-- The collection begins with the old destination, or with nothing. -/
def begin (keep : Bool) (d : KReg) : Insn :=
  if keep then ⟨.movLd, [.gpr .q .r9], [.kslot d 8]⟩
  else ⟨.xor, [.gpr .d .r9], [.gpr .d .r9, .gpr .d .r9]⟩

/-- What comes before the loop, apart from the operands. -/
def prepare (keep : Bool) (loop : Loop) (d k : KReg) : List Insn :=
  [begin keep d, ⟨.xor, [.gpr .d .rbx], [.gpr .d .rbx, .gpr .d .rbx]⟩] ++ loop.fetchMask k

/-- What comes after the loop. -/
def finish (d : KReg) : List Insn :=
  [⟨.and, [.gpr .d .r9], [.imm 255 4, .gpr .d .r9]⟩, ⟨.movSt, [.kslot d 8], [.gpr .q .r9]⟩, up]

/-- The whole chain. -/
def code (load : List Insn) (keep : Bool) (loop : Loop) (c : Cond) (d k : KReg) : List Insn :=
  pushes saved ++ ((down :: load ++ prepare keep loop d k) ++ loop.code c ++ finish d) ++ pops saved

section Parts

variable (E : Ext) (s : State) (keep : Bool) (loop : Loop) (c : Cond) (d k : KReg)

theorem setWidth_read_64 : (s.read 4 (.imm 64 4)).setWidth 64 = BitVec.ofNat 64 64 := by
  have hread : s.read 4 (.imm 64 4) = BitVec.ofInt 256 64 := rfl
  rw [hread]
  decide

theorem effect_down : ∃ fl, down.effect E s =
    { s with gpr := update s.gpr .rsp (below (s.gpr .rsp) 64), flags := fl } := by
  obtain ⟨fl, heffect⟩ := effect_combine_q E s (g := .rsp) (b := .imm 64 4)
    (show Op.combine .sub _ _ _ = some _ from rfl)
  rw [setWidth_subWithFlags, setWidth_setWidth_64, setWidth_read_64] at heffect
  exact ⟨fl, heffect⟩

theorem effect_up : ∃ fl, up.effect E s =
    { s with gpr := update s.gpr .rsp (s.gpr .rsp + BitVec.ofNat 64 64), flags := fl } := by
  obtain ⟨fl, heffect⟩ := effect_combine_q E s (g := .rsp) (b := .imm 64 4)
    (show Op.combine .add _ _ _ = some _ from rfl)
  rw [setWidth_addWithFlags, setWidth_setWidth_64, setWidth_read_64] at heffect
  exact ⟨fl, heffect⟩

/-- What the collection begins with. -/
def initial : BitVec 64 := if keep then s.kslot d else 0

theorem effect_begin : ∃ fl, (begin keep d).effect E s =
    { s with gpr := update s.gpr .r9 (initial s keep d), flags := fl } := by
  cases keep with
  | true =>
    refine ⟨s.flags, ?_⟩
    rw [begin, if_pos rfl, effect_move E s rfl, State.read_kslot, State.write_q]
    rfl
  | false => exact effect_clear E s (show 4 ≤ GprSize.d.bytes by decide) .r9

theorem effects_fetchMask : Keeps [.r10, .r11] s (effects E (loop.fetchMask k) s) ∧
    ∀ again, loop = .masked again →
      (effects E (loop.fetchMask k) s).gpr (LaneLoop.maskReg again) = s.kslot k := by
  constructor
  · rcases loop with _ | _ | (_ | _) <;> exact keeps_effects rfl E s
  rintro again rfl
  have hload : (Insn.mk .movLd [.gpr .q .r10] [.kslot k 8]).effect E s =
      { s with gpr := update s.gpr .r10 (s.kslot k) } := by
    rw [effect_move E s rfl, State.read_kslot, State.write_q]
  cases again with
  | true =>
    rw [Loop.fetchMask, effects_cons, hload]
    exact update_self Gpr.r10 _ s.gpr
  | false =>
    rw [Loop.fetchMask, effects_cons, hload, Bool.not_false, LaneLoop.reload, if_pos rfl,
      effects_cons, effect_move E _ rfl, State.read_q, State.write_q, effects_nil]
    simp only [update_self]
    exact update_self Gpr.r11 _ _

theorem straight_prepare : straight (prepare keep loop d k) = true := by
  cases keep <;> rcases loop with _ | _ | (_ | _) <;> rfl

/-- Before the loop. -/
theorem effects_prepare : Keeps [.r9, .rbx, .r10, .r11] s (effects E (prepare keep loop d k) s) ∧
    (effects E (prepare keep loop d k) s).gpr .rbx = 0 ∧
    (effects E (prepare keep loop d k) s).gpr .r9 = initial s keep d ∧
    ∀ again, loop = .masked again →
      (effects E (prepare keep loop d k) s).gpr (LaneLoop.maskReg again) = s.kslot k := by
  refine ⟨keeps_effects ?_ E s, ?_⟩
  · cases keep <;> rcases loop with _ | _ | (_ | _) <;> rfl
  obtain ⟨fl, hbegin⟩ := effect_begin E s keep d
  obtain ⟨fl', hclear⟩ := effect_clear E { s with
    gpr := update s.gpr .r9 (initial s keep d)
    flags := fl } (show 4 ≤ GprSize.d.bytes by decide) .rbx
  rw [prepare, effects_append, effects_cons, hbegin, effects_cons, hclear, effects_nil]
  generalize hstate : State.mk _ _ _ _ _ _ _ _ _ = t
  obtain ⟨hkeeps, hmask⟩ := effects_fetchMask E t loop k
  rw [hkeeps.gpr .rbx (by decide), hkeeps.gpr .r9 (by decide)]
  rw [← hstate] at hmask ⊢
  exact ⟨rfl, rfl, hmask⟩

/-- The loop. -/
theorem exec_loop {x y : ℕ → BitVec 32} (hrbx : s.gpr .rbx = 0)
    (hmask : ∀ again, loop = .masked again → s.gpr (LaneLoop.maskReg again) = s.kslot k)
    (hops : LaneLoop.Operands x y s) :
    ∃ t, Keeps (LaneLoop.changed true) s t ∧
      (t.gpr .r9).setWidth 32 = collect (loop.active k s) (fun j ↦ c.compare (x j) (y j))
        ((s.gpr .r9).setWidth 32) 8 ∧
      Exec E (loop.code c) s t := by
  cases loop with
  | plain =>
    obtain ⟨t, ht, hexec⟩ := LaneLoop.exec_plain (E := E) (c := c) hrbx hops
    exact ⟨t, ht.keeps.mono (by decide), ht.r9, hexec⟩
  | plainLate =>
    obtain ⟨t, ht, hexec⟩ := LaneLoop.exec_plainLate (E := E) (c := c) hrbx hops
    exact ⟨t, ht.keeps.mono (by decide), ht.r9, hexec⟩
  | masked again =>
    obtain ⟨t, ht, hexec⟩ := LaneLoop.exec_masked again (E := E) (c := c) hrbx hops
    refine ⟨t, ht.keeps.mono (by cases again <;> decide), ?_, hexec⟩
    rw [ht.r9, hmask again rfl]
    rfl

/-- After the loop. -/
theorem effects_finish : ∃ gpr fl, effects E (finish d) s = { s with
      gpr := gpr
      flags := fl
      kslot := update s.kslot d (((s.gpr .r9).setWidth 32 &&& 255#32).setWidth 64) } ∧
    gpr .rsp = s.gpr .rsp + BitVec.ofNat 64 64 ∧ ∀ g, g ≠ .rsp → g ≠ .r9 → gpr g = s.gpr g := by
  obtain ⟨fl, hand⟩ := effect_combine_d E s (g := .r9) (b := .imm 255 4)
    (show Op.combine .and _ _ _ = some _ from rfl)
  have himm : (s.read 4 (.imm 255 4)).setWidth 32 = 255#32 := by
    have hread : s.read 4 (.imm 255 4) = BitVec.ofInt 256 255 := rfl
    rw [hread]
    decide
  rw [BitVec.setWidth_and, himm, setWidth_setWidth_32, BitVec.and_comm] at hand
  generalize ((s.gpr .r9).setWidth 32 &&& 255#32).setWidth 64 = v at hand ⊢
  obtain ⟨fl', hup⟩ := effect_up E { s with
    gpr := update s.gpr .r9 v
    flags := fl
    kslot := update s.kslot d v }
  refine ⟨update (update s.gpr .r9 v) .rsp (s.gpr .rsp + BitVec.ofNat 64 64), fl', ?_,
    update_self Gpr.rsp _ _, fun g hrsp hr9 ↦ ?_⟩
  · rw [finish, effects_cons, hand, effects_cons, effect_move E _ rfl, State.read_q,
      State.write_kslot, effects_cons, effects_nil]
    simp only [update_self]
    exact hup
  · rw [update_of_ne hrsp, update_of_ne hr9]

end Parts

/-! ## The operands in memory -/

theorem operands_of_mem {s : State} {mem : BitVec 64 → BitVec 8} {x y : Val}
    (hmem : s.mem = operandsAt mem (s.gpr .rsp) x y) :
    LaneLoop.Operands (fun j ↦ lane 32 j x) (fun j ↦ lane 32 j y) s := by
  have hx : load s.mem (s.gpr .rsp + BitVec.ofNat 64 0) 32 = x := by
    rw [hmem, operandsAt, (outside_offsets _ (by decide) (by decide) (by decide)).load_store,
      load_store_self _ _ _ (by decide), low_32]
  have hy : load s.mem (s.gpr .rsp + BitVec.ofNat 64 32) 32 = y := by
    rw [hmem, operandsAt, load_store_self _ _ _ (by decide), low_32]
  -- a lane is what is loaded from its place
  have hlane (v : Val) (k : ℕ) (hv : load s.mem (s.gpr .rsp + BitVec.ofNat 64 k) 32 = v) (j : ℕ)
      (hj : j < 8) :
      load s.mem (s.gpr .rsp + BitVec.ofNat 64 (k + 4 * j)) 4 = (lane 32 j v).setWidth 256 := by
    have hload : lane 32 j v = (load s.mem (s.gpr .rsp + BitVec.ofNat 64 k +
        BitVec.ofNat 64 (4 * j)) 4).setWidth 32 := by
      rw [← hv]
      exact lane_load (m := 4) (n := 32) s.mem _ (by omega) (by decide)
    rw [hload, BitVec.ofNat_add, ← BitVec.add_assoc]
    exact (low_load s.mem _ (by decide)).symm
  intro j hj
  refine ⟨?_, hlane y 32 hy j hj⟩
  rw [← hlane x 0 hx j hj, Nat.zero_add]

theorem below_64_add (sp : BitVec 64) : below sp 64 + BitVec.ofNat 64 64 = sp :=
  (below_add sp 64 0).trans (BitVec.sub_zero sp)

/-- What is above the operands stays. -/
theorem operandsAt_above (mem : BitVec 64 → BitVec 8) (sp : BitVec 64) (x y : Val) {k : ℕ}
    (hk : k < 72) :
    operandsAt mem (below sp 64) x y (sp + BitVec.ofNat 64 k) = mem (sp + BitVec.ofNat 64 k) := by
  have hsp : sp + BitVec.ofNat 64 k = below sp 64 + BitVec.ofNat 64 (64 + k) := by
    rw [BitVec.ofNat_add, ← BitVec.add_assoc, below_64_add]
  have hne (n l : ℕ) (hn : n ≤ 32) (hl : l < 32) :
      sp + BitVec.ofNat 64 k ≠ below sp 64 + BitVec.ofNat 64 n + BitVec.ofNat 64 l := by
    rw [hsp, BitVec.add_assoc, ← BitVec.ofNat_add]
    intro heq
    have := add_ofNat_inj _ (by omega) (by omega) heq
    omega
  rw [operandsAt, store_apply_of_ne _ _ fun l hl ↦ hne 32 l le_rfl hl,
    store_apply_of_ne _ _ fun l hl ↦ hne 0 l (by decide) hl]

/-! ## The whole chain -/

section Chain

variable (E : Ext) (s : State) (keep : Bool) (loop : Loop) (c : Cond) (d k : KReg) {a b : VReg}
  {load : List Insn}

/-- What is left in the destination. -/
def collected (a b : VReg) : BitVec 64 :=
  ((collect (loop.active k s) (fun j ↦ c.compare (lane 32 j (s.zmmLo a)) (lane 32 j (s.zmmLo b)))
    ((initial s keep d).setWidth 32) 8) &&& 255#32).setWidth 64

theorem getLsbD_collected (a b : VReg) (j : ℕ) : (collected s keep loop c d k a b).getLsbD j =
    (decide (j < 8) && if loop.active k s j then
      c.compare (lane 32 j (s.zmmLo a)) (lane 32 j (s.zmmLo b)) else (initial s keep d).getLsbD j) := by
  have hbits : ∀ j < 32, (255#32).getLsbD j = decide (j < 8) := by decide
  rw [collected, BitVec.getLsbD_setWidth, BitVec.getLsbD_and]
  rcases Nat.lt_or_ge j 32 with hj | hj
  · rw [hbits j hj, getLsbD_collect _ _ _ _ hj, BitVec.getLsbD_setWidth]
    by_cases hj8 : j < 8
    · simp [hj, hj8, show j < 64 by omega]
    · simp [hj8]
  · rw [BitVec.getLsbD_of_ge _ j hj]
    simp [show ¬j < 8 by omega]

/-- The chain without the pushes and pops. -/
theorem exec_inner (hload : Loads load a b) : ∃ lo t, Exec E
      ((down :: load ++ prepare keep loop d k) ++ loop.code c ++ finish d) s t ∧
    t = { s with
      gpr := t.gpr
      flags := t.flags
      lo := lo
      mem := operandsAt s.mem (below (s.gpr .rsp) 64) (s.zmmLo a) (s.zmmLo b)
      kslot := update s.kslot d (collected s keep loop c d k a b) } ∧
    t.gpr .rsp = s.gpr .rsp ∧ ∀ g, g ≠ .rsp → .reg g ∉ saved → t.gpr g = s.gpr g := by
  obtain ⟨hstraight, hload⟩ := hload
  -- before the loop
  obtain ⟨fl, hdown⟩ := effect_down E s
  obtain ⟨lo, hlo⟩ := hload E (down.effect E s)
  generalize hs₁ : effects E load (down.effect E s) = s₁ at hlo
  rw [hdown] at hlo
  have hrsp₁ : s₁.gpr .rsp = below (s.gpr .rsp) 64 := by
    rw [hlo]
    exact update_self Gpr.rsp _ s.gpr
  have hmem₁ : s₁.mem = operandsAt s.mem (s₁.gpr .rsp) (s.zmmLo a) (s.zmmLo b) := by
    rw [hrsp₁, hlo]
    simp only [update_self]
    rfl
  obtain ⟨hkeeps, hrbx, hr9, hmask⟩ := effects_prepare E s₁ keep loop d k
  generalize hs₂ : effects E (prepare keep loop d k) s₁ = s₂ at *
  have hkslot₂ : s₂.kslot = s.kslot := by rw [hkeeps.kslot, hlo]
  -- the loop
  have hops : LaneLoop.Operands (fun j ↦ lane 32 j (s.zmmLo a)) (fun j ↦ lane 32 j (s.zmmLo b)) s₂ := by
    rw [← hkeeps.mem, ← hkeeps.gpr .rsp (by decide)] at hmem₁
    exact operands_of_mem hmem₁
  obtain ⟨t, hkeeps', ht, hexec⟩ := exec_loop E s₂ loop c k hrbx
    (fun again hagain ↦ by rw [hmask again hagain, hkeeps.kslot]) hops
  obtain ⟨gpr, fl', hfinish, hrsp, hother⟩ := effects_finish E t d
  have hactive : loop.active k s₂ = loop.active k s := by
    cases loop with
    | plain | plainLate => rfl
    | masked again => exact congrArg (fun slots ↦ (slots k).getLsbD) hkslot₂
  have hinitial : initial s₁ keep d = initial s keep d := by
    rw [hlo]
    rfl
  have hkeeps'' : Keeps [.r9, .rbx, .r10, .r11, .r13, .r14, .r12, .rcx] s₁ t :=
    (hkeeps.mono (by decide)).trans (hkeeps'.mono (by decide))
  refine ⟨lo, effects E (finish d) t, ?_, ?_, ?_, fun g hgrsp hg ↦ ?_⟩
  · refine Exec.wrap ?_ rfl ?_
    · rw [straight_append, straight_prepare, Bool.and_true]
      exact Bool.and_eq_true_iff.mpr ⟨rfl, hstraight⟩
    · rw [effects_append, effects_cons, hs₁, hs₂]
      exact hexec
  · rw [hfinish]
    ext1
    · rfl
    · rfl
    · rw [hkeeps''.ymm, hlo]
    · rw [hkeeps''.lo, hlo]
    · rw [hkeeps''.hi, hlo]
    · rw [ht, hactive, hr9, hinitial, hkeeps''.kslot, hlo]
      rfl
    · rw [hkeeps''.rslot, hlo]
    · rw [hkeeps''.mem, hmem₁, hrsp₁]
    · rw [hkeeps''.segBase, hlo]
  · rw [hfinish]
    exact hrsp.trans (by rw [hkeeps''.gpr .rsp (by decide), hrsp₁, below_64_add])
  · rw [hfinish]
    have hr9 : g ≠ .r9 := by
      rintro rfl
      exact hg (by decide)
    have hsaved : ∀ g ∈ [Gpr.r9, .rbx, .r10, .r11, .r13, .r14, .r12, .rcx], .reg g ∈ saved := by
      decide
    refine (hother g hgrsp hr9).trans ((hkeeps''.gpr g fun hmem ↦ hg (hsaved g hmem)).trans ?_)
    rw [hlo]
    exact update_of_ne hgrsp _ _

/-- The chain changes nothing but the destination, slots of registers that do not need them, and
memory below the stack. -/
theorem exec_code (hload : Loads load a b) : ∃ lo mem, Exec E (code load keep loop c d k) s { s with
    lo := lo
    mem := mem
    kslot := update s.kslot d (collected s keep loop c d k a b) } := by
  obtain ⟨mem, hpushes, -⟩ := effects_pushes E saved s
  obtain ⟨lo, t, hexec, ht, hrsp, hother⟩ :=
    exec_inner E (effects E (pushes saved) s) keep loop c d k hload
  have hmem : t.mem = operandsAt (effects E (pushes saved) s).mem (below (t.gpr .rsp) 64)
      (s.zmmLo a) (s.zmmLo b) := by
    rw [hrsp, ht, hpushes]
    rfl
  have hrsp' : t.gpr .rsp = below (s.gpr .rsp) (8 * saved.length) := by
    rw [hrsp, hpushes]
    exact update_self Gpr.rsp _ s.gpr
  have hrestored : Exec E (code load keep loop c d k) s (restored saved s t) :=
    hexec.saving (by decide) (by decide) hrsp' fun i hi ↦ by rw [hmem, operandsAt_above _ _ _ _ hi]
  have hstate : restored saved s t = { s with
      lo := lo
      mem := t.mem
      kslot := update s.kslot d (collected s keep loop c d k a b) } := by
    ext1
    · funext g
      by_cases hg : g = .rsp ∨ .reg g ∈ saved
      · exact if_pos hg
      refine (if_neg hg).trans ?_
      rw [not_or] at hg
      rw [hother g hg.1 hg.2, hpushes]
      exact update_of_ne hg.1 _ _
    · rfl
    · rw [restored, ht, hpushes]
    · rw [restored, ht]
    · rw [restored, ht, hpushes]
    · rw [restored, ht, hpushes]
      rfl
    · rw [restored, ht, hpushes]
    · rfl
    · rw [restored, ht, hpushes]
  rw [hstate] at hrestored
  exact ⟨lo, t.mem, hrestored⟩

end Chain

end LaneCompare

end DrAvx
