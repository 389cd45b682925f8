import DrAvx.Rewrite.Spill

/-!
# Instruction templates

A handler of the rewriter builds its chain out of the operands of the application's instruction and
of scratch registers.  Which chain it builds depends on the instruction only through a few tests: is
a register one of the upper sixteen, are two operands the same register, is the mask `k0`.  Once the
tests are answered, the chain is always the same up to the registers that take part.

So a chain is written here over *roles*: operand positions of the original instruction, scratch
registers in the order in which they are found, fixed registers.  `Template.emit` finds the scratch
registers and puts the registers in for the roles.  Facts about every choice of operands can then be
read off the template, once and for all.
-/

set_option autoImplicit false

namespace DrAvx

/-! ## The application's instruction -/

/-- The instruction to be rewritten: its operands as the decoder delivers them, and whether it has
zero masking. -/
structure AppInstr where
  dsts : List Opnd
  srcs : List Opnd
  zeroMask : Bool

/-- An operand position: the destinations and sources, as `instr_get_dst` and `instr_get_src` number
them. -/
inductive Pos
  | d0 | d1 | s0 | s1 | s2 | s3
  deriving DecidableEq

namespace AppInstr

/-- The operand at a position. -/
def opnd? (i : AppInstr) : Pos → Option Opnd
  | .d0 => i.dsts[0]?
  | .d1 => i.dsts[1]?
  | .s0 => i.srcs[0]?
  | .s1 => i.srcs[1]?
  | .s2 => i.srcs[2]?
  | .s3 => i.srcs[3]?

def opnd (i : AppInstr) (p : Pos) : Opnd := (i.opnd? p).getD .null

end AppInstr

namespace Opnd

/-- The number of the vector register an operand names. -/
def vreg : Opnd → VReg
  | vec _ r => r
  | _ => 0

/-- The number of the vector register that indexes a memory operand. -/
def indexVreg : Opnd → VReg
  | mem _ (.baseDisp _ _ (.vec _ r) _ _) _ => r
  | _ => 0

def kreg : Opnd → KReg
  | opmask k => k
  | _ => 0

def gpr? : Opnd → Option Gpr
  | gpr _ r => some r
  | _ => none

def base : Opnd → Option Gpr
  | mem _ (.baseDisp _ b _ _ _) _ => b
  | _ => none

def index : Opnd → Option Gpr
  | mem _ (.baseDisp _ _ (.gpr r) _ _) _ => some r
  | _ => none

def immVal : Opnd → ℤ
  | imm v _ => v
  | _ => 0

end Opnd

/-! ## Roles -/

/-- What a vector register of a template stands for. -/
inductive Role
  /-- the register operand at a position -/
  | op (p : Pos)
  /-- the index register of the memory operand at a position -/
  | index (p : Pos)
  /-- the `n`-th scratch register found -/
  | t (n : ℕ)
  /-- `XMM_SPILL_SLOTn`, or the ymm register of the same number -/
  | spill (n : ℕ)
  deriving DecidableEq

/-- What a general purpose register of a template stands for. -/
inductive GRole
  | fixed (r : Gpr)
  /-- the register operand at a position -/
  | op (p : Pos)
  /-- the base register of the memory operand at a position -/
  | base (p : Pos)
  /-- the index register of the memory operand at a position -/
  | index (p : Pos)
  /-- the `n`-th general purpose scratch register found -/
  | t (n : ℕ)
  deriving DecidableEq

/-- The registers in the roles. -/
structure Env where
  instr : AppInstr
  vecs : List VReg
  gprs : List Gpr

namespace Env

def vreg (e : Env) : Role → VReg
  | .op p => (e.instr.opnd p).vreg
  | .index p => (e.instr.opnd p).indexVreg
  | .t n => e.vecs.getD n 0
  | .spill n => Fin.ofNat 32 (10 + n)

/-- `DR_REG_NULL` is `none`. -/
def gpr (e : Env) : GRole → Option Gpr
  | .fixed r => some r
  | .op p => (e.instr.opnd p).gpr?
  | .base p => (e.instr.opnd p).base
  | .index p => (e.instr.opnd p).index
  | .t n => e.gprs[n]?

end Env

/-! ## Operands and instructions -/

/-- The immediates that are computed from an immediate: the value itself, or the counts of the two
shifts that make up a rotation.  The remainder takes the sign of the immediate, as in C. -/
inductive ImmFn
  | self | rotate | rotateBack

def ImmFn.apply (v : ℤ) : ImmFn → ℤ
  | self => v
  | rotate => v.tmod 64
  | rotateBack => 64 - v.tmod 64

/-- An operand of a template. -/
inductive TOpnd
  | v (w : VecWidth) (r : Role)
  | g (sz : GprSize) (r : GRole)
  /-- the operand at a position, unchanged -/
  | app (p : Pos)
  /-- a register operand that names `DR_REG_NULL` -/
  | null
  /-- a half of the zmm slot of a register -/
  | slot (r : Role) (upper : Bool) (bytes : ℕ)
  /-- the slot of the opmask register at a position -/
  | kslot (p : Pos) (bytes : ℕ)
  | rslot (n : Fin 4) (bytes : ℕ)
  /-- an operand in thread-local storage whose offset was computed from the number of the register
  in the wrong register class, or from `DR_REG_NULL` -/
  | stray (r : Option Role) (offset : ℕ) (bytes : ℕ)
  /-- the offset of the slot of the opmask register at a position, used as an address -/
  | kaddr (p : Pos) (bytes : ℕ)
  /-- the memory operand at a position, built anew so many bytes further on -/
  | mem (p : Pos) (offset : ℤ) (bytes : ℕ)
  /-- the same, without its index -/
  | memBase (p : Pos) (offset : ℤ) (bytes : ℕ)
  /-- scratch memory -/
  | scratch (base : GRole) (index : Option GRole) (scale : ℕ) (disp : ℤ) (bytes : ℕ)
  | imm (v : ℤ) (bytes : ℕ)
  /-- an immediate byte computed from the immediate at a position -/
  | immOf (p : Pos) (f : ImmFn)
  | label (n : ℕ)

/-- A displacement is a 32-bit integer: adding to it wraps around. -/
def addDisp (disp offset : ℤ) : ℤ := (disp + offset).bmod (2 ^ 32)

/-- A memory operand taken apart and built anew, as with `opnd_create_base_disp` and
`opnd_create_rel_addr`.  Neither takes a segment. -/
def MemRef.rebuild (offset : ℤ) : MemRef → MemRef
  | .baseDisp _ b i sc d => .baseDisp none b i sc (addDisp d offset)
  | .rel _ a => .rel none (a + offset)
  | .abs _ a => .rel none (a + offset)

/-- A memory operand built anew from its base and displacement only. -/
def MemRef.rebuildBase (offset : ℤ) : MemRef → MemRef
  | .baseDisp _ b _ _ d => .baseDisp none b .none 0 (addDisp d offset)
  | .rel _ a => .rel none (a + offset)
  | .abs _ a => .rel none (a + offset)

/-- The memory operand rebuilt with `f` and another size. -/
def Opnd.withMem (f : MemRef → MemRef) (bytes : ℕ) : Opnd → Opnd
  | .mem o m _ => .mem o (f m) bytes
  | .zslot r upper _ => .zslot r upper bytes
  | .kslot k _ => .kslot k bytes
  | .rslot n _ => .rslot n bytes
  | _ => .null

/-- The operand with the registers put in. -/
def TOpnd.inst (e : Env) : TOpnd → Opnd
  | v w r => .vec w (e.vreg r)
  | g sz r => match e.gpr r with
    | some r => .gpr sz r
    | none => .null
  | app p => e.instr.opnd p
  | null => .null
  | slot r u b => .zslot (e.vreg r) u b
  | kslot p b => .kslot (e.instr.opnd p).kreg b
  | rslot n b => .rslot n b
  | stray r off b =>
    .mem .scratch (.baseDisp (some .gs) none .none 0 (64 * (r.elim 0 fun r ↦ (e.vreg r).val) + off)) b
  | kaddr p b =>
    .mem .scratch (.baseDisp none none .none 0 (32 + 8 * (e.instr.opnd p).kreg.val)) b
  | mem p off b => (e.instr.opnd p).withMem (.rebuild off) b
  | memBase p off b => (e.instr.opnd p).withMem (.rebuildBase off) b
  | scratch base index sc d b =>
    .mem .scratch (.baseDisp none (e.gpr base)
      (match index.bind e.gpr with
        | none => .none
        | some r => .gpr r) sc d) b
  | imm x b => .imm x b
  | immOf p f => .imm (f.apply (e.instr.opnd p).immVal) 1
  | label n => .label n

/-- An instruction of a template. -/
structure TInsn where
  op : Op
  dsts : List TOpnd
  srcs : List TOpnd

def TInsn.inst (e : Env) (i : TInsn) : Insn :=
  ⟨i.op, i.dsts.map (TOpnd.inst e), i.srcs.map (TOpnd.inst e)⟩

/-! ## Templates -/

/-- A chain over roles: the registers each scratch register in turn has to avoid, and the code. -/
structure Template where
  vecs : List (List Role)
  gprs : List (List GRole)
  body : List TInsn

/-- Finds the vector scratch registers, one after the other. -/
def findVecs (i : AppInstr) : List (List Role) → List VReg → Option (List VReg)
  | [], found => some found
  | avoid :: rest, found =>
    (findAvailableSpill (avoid.map (Env.vreg ⟨i, found, []⟩))).bind fun r ↦
      findVecs i rest (found ++ [r])

/-- Finds the general purpose scratch registers, one after the other. -/
def findGprs (i : AppInstr) : List (List GRole) → List Gpr → Option (List Gpr)
  | [], found => some found
  | avoid :: rest, found =>
    (findAvailableSpillGpr (avoid.filterMap (Env.gpr ⟨i, [], found⟩))).bind fun r ↦
      findGprs i rest (found ++ [r])

/-- The scratch registers of a template; `none` when a pool is exhausted. -/
def Template.env? (T : Template) (i : AppInstr) : Option Env :=
  (findVecs i T.vecs []).bind fun vecs ↦ (findGprs i T.gprs []).map fun gprs ↦ ⟨i, vecs, gprs⟩

/-- The chain of a template. -/
def Template.emit (T : Template) (i : AppInstr) : Option (List Insn) :=
  (T.env? i).map fun e ↦ T.body.map (TInsn.inst e)

/-! ## The scratch registers that are found -/

section Scratch

variable {i : AppInstr}

/-- Where a scratch register is found, it is in the pool and differs from those it had to avoid. -/
theorem findVecs_spec {avoids : List (List Role)} {found vecs : List VReg}
    (h : findVecs i avoids found = some vecs) :
    vecs.length = found.length + avoids.length ∧ vecs.take found.length = found ∧
      ∀ n (hn : n < avoids.length), ∃ r, vecs[found.length + n]? = some r ∧ r ∈ spillPool ∧
        ∀ a ∈ avoids[n], (Env.mk i (vecs.take (found.length + n)) []).vreg a ≠ r := by
  induction avoids generalizing found with
  | nil =>
    obtain rfl : found = vecs := by simpa [findVecs] using h
    simp
  | cons avoid rest ih =>
    simp only [findVecs, Option.bind_eq_some_iff] at h
    obtain ⟨r, hr, hrest⟩ := h
    obtain ⟨hlen, htake, hall⟩ := ih hrest
    have hget : vecs[found.length]? = some r := by
      have := congrArg (·[found.length]?) htake
      simpa [List.getElem?_take] using this
    have hfound : vecs.take found.length = found := by
      have := congrArg (List.take found.length) htake
      simpa [List.take_take] using this
    refine ⟨by simp at hlen ⊢; omega, hfound, fun n hn ↦ ?_⟩
    cases n with
    | zero =>
      refine ⟨r, hget, mem_spillPool_of_findAvailableSpill hr, fun a ha heq ↦ ?_⟩
      rw [Nat.add_zero, hfound] at heq
      exact notMem_of_findAvailableSpill hr (List.mem_map.mpr ⟨a, ha, heq⟩)
    | succ n =>
      have := hall n (by simpa using hn)
      rwa [List.length_append, List.length_singleton, Nat.add_right_comm] at this

/-- The role is taken before the `n`-th scratch register is looked for. -/
def Role.before (n : ℕ) : Role → Bool
  | t m => m < n
  | _ => true

theorem Env.vreg_take {a : Role} {n : ℕ} (ha : a.before n) (vecs : List VReg) (gprs : List Gpr) :
    (Env.mk i (vecs.take n) []).vreg a = (Env.mk i vecs gprs).vreg a := by
  cases a with
  | t m =>
    have hm : m < n := by simpa [Role.before] using ha
    simp [vreg, hm]
  | op p => rfl
  | index p => rfl
  | spill m => rfl

/-- The scratch registers of a template are in the pool and differ from those they avoid. -/
theorem Template.env?_spec {T : Template} {e : Env} (h : T.env? i = some e) :
    e.instr = i ∧ (∀ r ∈ e.vecs, r ∈ spillPool) ∧ ∀ n (hn : n < T.vecs.length),
      ∀ a ∈ T.vecs[n], a.before n → e.vreg a ≠ e.vreg (.t n) := by
  simp only [Template.env?, Option.bind_eq_some_iff, Option.map_eq_some_iff] at h
  obtain ⟨vecs, hvecs, gprs, -, rfl⟩ := h
  obtain ⟨hlen, -, hspec⟩ := findVecs_spec hvecs
  rw [List.length_nil, Nat.zero_add] at hlen
  refine ⟨rfl, fun r hr ↦ ?_, fun n hn a ha hbefore ↦ ?_⟩
  · obtain ⟨n, hn, rfl⟩ := List.mem_iff_getElem.mp hr
    obtain ⟨r, hr, hpool, -⟩ := hspec n (hlen ▸ hn)
    simp only [List.length_nil, Nat.zero_add, List.getElem?_eq_getElem hn, Option.some.injEq] at hr
    exact hr ▸ hpool
  · obtain ⟨r, hr, -, hne⟩ := hspec n hn
    rw [List.length_nil, Nat.zero_add] at hr hne
    have hvreg : (Env.mk i vecs gprs).vreg (.t n) = r := by simp [Env.vreg, hr]
    rw [hvreg, ← Env.vreg_take hbefore vecs gprs]
    exact hne a ha

theorem length_of_findGprs {avoids : List (List GRole)} {found gprs : List Gpr}
    (h : findGprs i avoids found = some gprs) : gprs.length = found.length + avoids.length := by
  induction avoids generalizing found with
  | nil =>
    obtain rfl : found = gprs := by simpa [findGprs] using h
    rfl
  | cons avoid rest ih =>
    simp only [findGprs, Option.bind_eq_some_iff] at h
    obtain ⟨r, -, hrest⟩ := h
    rw [ih hrest, List.length_append, List.length_singleton, List.length_cons]
    omega

/-- As many general purpose scratch registers are found as are asked for. -/
theorem Template.length_gprs {T : Template} {e : Env} (h : T.env? i = some e) :
    e.gprs.length = T.gprs.length := by
  simp only [Template.env?, Option.bind_eq_some_iff, Option.map_eq_some_iff] at h
  obtain ⟨vecs, -, gprs, hgprs, rfl⟩ := h
  simpa using length_of_findGprs hgprs

theorem mem_gprSpillPool_of_findGprs {avoids : List (List GRole)} {found gprs : List Gpr}
    (h : findGprs i avoids found = some gprs) (hfound : ∀ r ∈ found, r ∈ gprSpillPool) :
    ∀ r ∈ gprs, r ∈ gprSpillPool := by
  induction avoids generalizing found with
  | nil =>
    obtain rfl : found = gprs := by simpa [findGprs] using h
    exact hfound
  | cons avoid rest ih =>
    simp only [findGprs, Option.bind_eq_some_iff] at h
    obtain ⟨r, hr, hrest⟩ := h
    refine ih hrest fun q hq ↦ ?_
    rcases List.mem_append.mp hq with hq | hq
    · exact hfound q hq
    · rw [List.mem_singleton.mp hq]
      exact List.mem_of_find?_eq_some hr

/-- The stack pointer is no scratch register. -/
theorem Template.gprs_ne_rsp {T : Template} {e : Env} (h : T.env? i = some e) : .rsp ∉ e.gprs := by
  simp only [Template.env?, Option.bind_eq_some_iff, Option.map_eq_some_iff] at h
  obtain ⟨vecs, -, gprs, hgprs, rfl⟩ := h
  intro hmem
  have hpool := mem_gprSpillPool_of_findGprs hgprs (by simp) _ hmem
  revert hpool
  decide

/-- Is the register in a role one of the upper sixteen? -/
def AppInstr.high (i : AppInstr) : Role → Bool
  | .op p => (i.opnd p).vreg.high
  | .index p => (i.opnd p).indexVreg.high
  | .t _ => false
  | .spill n => VReg.high (Fin.ofNat 32 (10 + n))

theorem AppInstr.high_vreg {vecs : List VReg} (h : ∀ r ∈ vecs, r ∈ spillPool) (gprs : List Gpr)
    (a : Role) : ((Env.mk i vecs gprs).vreg a).high = i.high a := by
  cases a with
  | t n =>
    rw [Env.vreg, List.getD_eq_getElem?_getD]
    cases hr : vecs[n]? with
    | none => rfl
    | some r => exact not_high_of_mem_spillPool (h r (List.mem_of_getElem? hr))
  | op p => rfl
  | index p => rfl
  | spill n => rfl

/-- Scratch registers are found as long as fewer than six of the registers to avoid are below
sixteen. -/
theorem exists_findVecs {avoids : List (List Role)}
    (h : ∀ avoid ∈ avoids, (avoid.filter fun a ↦ !i.high a).length < 6) {found : List VReg}
    (hfound : ∀ r ∈ found, r ∈ spillPool) : ∃ vecs, findVecs i avoids found = some vecs := by
  induction avoids generalizing found with
  | nil => exact ⟨found, rfl⟩
  | cons avoid rest ih =>
    have hlow : ((avoid.map (Env.vreg ⟨i, found, []⟩)).filter fun r ↦ !r.high).length < 6 := by
      rw [List.filter_map, List.length_map]
      simpa [Function.comp_def, AppInstr.high_vreg hfound] using h avoid List.mem_cons_self
    obtain ⟨r, hr⟩ := exists_findAvailableSpill hlow
    have hpool : ∀ q ∈ found ++ [r], q ∈ spillPool := by
      simpa [or_imp, forall_and] using ⟨hfound, mem_spillPool_of_findAvailableSpill hr⟩
    obtain ⟨vecs, hvecs⟩ := ih (fun a ha ↦ h a (List.mem_cons_of_mem _ ha)) hpool
    exact ⟨vecs, by rw [findVecs, hr]; exact hvecs⟩

/-- General purpose scratch registers are found as long as fewer than fourteen are to be avoided. -/
theorem exists_findGprs {avoids : List (List GRole)} (h : ∀ avoid ∈ avoids, avoid.length < 14)
    (found : List Gpr) : ∃ gprs, findGprs i avoids found = some gprs := by
  induction avoids generalizing found with
  | nil => exact ⟨found, rfl⟩
  | cons avoid rest ih =>
    have hlen : (avoid.filterMap (Env.gpr ⟨i, [], found⟩)).length < 14 :=
      Nat.lt_of_le_of_lt (List.length_filterMap_le _ _) (h avoid List.mem_cons_self)
    obtain ⟨r, hr⟩ := exists_findAvailableSpillGpr hlen
    obtain ⟨gprs, hgprs⟩ := ih (fun a ha ↦ h a (List.mem_cons_of_mem _ ha)) (found ++ [r])
    exact ⟨gprs, by rw [findGprs, hr]; exact hgprs⟩

end Scratch

end DrAvx
