import DrAvx.Rewrite.Gen

/-!
# The vocabulary of the generators

The generators are written with a small vocabulary: how a handler looks at its operands, how it asks
which registers have to be spilled in, and the instructions it strings together.  The names follow
the macros of the source where there are any.
-/

set_option autoImplicit false

namespace DrAvx

/-! ## Looking at the operands -/

/-- A conditional on a question. -/
def ifQ (q : Query) (yes no : Gen) : Gen := .ask q fun b ↦ if b then yes else no

/-- `instr_get_src` and `instr_get_dst`: the operands have to be there. -/
def opnds (ps : List Pos) (k : Gen) : Gen := ps.foldr (fun p g ↦ ifQ (.test p .exists) g .abort) k

/-- `opnd_get_reg`: the operands have to be registers. -/
def regs (ps : List Pos) (k : Gen) : Gen :=
  ps.foldr (fun p g ↦ ifQ (.test p (.isKind .reg)) g .abort) k

/-- The alternatives in turn; where none applies, the pattern is not supported. -/
def firstOf (alts : List (Query × Gen)) : Gen := alts.foldr (fun a g ↦ ifQ a.1 a.2 g) (.null 0)

/-- A `switch` on the kind of an operand. -/
def onKind (p : Pos) (alts : List (Kind × Gen)) : Gen :=
  firstOf (alts.map fun a ↦ (.test p (.isKind a.1), a.2))

/-- A chain of `IS_XMM_REG`, `IS_YMM_REG` and `IS_ZMM_REG`, in whatever order. -/
def byWidth (p : Pos) (x y z : Gen) : Gen :=
  firstOf [(.test p (.isVec .xmm), x), (.test p (.isVec .ymm), y), (.test p (.isVec .zmm), z)]

/-- A `switch` on the value of an immediate. -/
def onImm (p : Pos) (alts : List (ℤ × Gen)) : Gen :=
  firstOf (alts.map fun a ↦ (.immIs p a.1, a.2))

/-- A generator that says that its pattern is not supported and returns null. -/
def unsupported : Gen := .null 0

section NeedSpill

variable (w : VecWidth)

/-- Asks whether one register has to be spilled in. -/
def needSpill1 (p : Pos) (k : Bool → Gen) : Gen := .ask (.test p (.needSpill w)) k

/-- Asks which of two registers have to be spilled in. -/
def needSpill2 (p q : Pos) (k : Bool → Bool → Gen) : Gen :=
  .ask (.test p (.needSpill w)) fun a ↦ .ask (.test q (.needSpill w)) (k a)

/-- Asks which of three registers have to be spilled in. -/
def needSpill3 (p q r : Pos) (k : Bool → Bool → Bool → Gen) : Gen :=
  .ask (.test p (.needSpill w)) fun a ↦ .ask (.test q (.needSpill w)) fun b ↦
    .ask (.test r (.needSpill w)) (k a b)

end NeedSpill

/-! ## Returning a chain -/

/-- Returns a chain, having unlinked the instruction so many times. -/
def chain (removed : ℕ) (linked : Bool) (vecs : List (List Role)) (gprs : List (List GRole))
    (body : List TInsn) : Gen :=
  .leaf (.chain removed linked ⟨vecs, gprs, body⟩)

/-- The usual end of a handler: the chain is linked with `instrlist_concat_next_instr`, the
instruction is unlinked and destroyed. -/
def emit (vecs : List (List Role)) (body : List TInsn) : Gen := chain 1 true vecs [] body

/-- The same, with general purpose scratch registers. -/
def emitG (vecs : List (List Role)) (gprs : List (List GRole)) (body : List TInsn) : Gen :=
  chain 1 true vecs gprs body

/-- So many scratch registers, each avoiding the given ones and those found before it. -/
def fresh (avoid : List Role) (n : ℕ) : List (List Role) :=
  (List.range n).map fun j ↦ avoid ++ (List.range j).map .t

/-- Scratch registers that are found in this way differ from one another and from those that each of
them has to avoid. -/
theorem findVecs_fresh {i : AppInstr} {avoid : List Role} {n : ℕ} {ts : List VReg}
    (h : findVecs i (fresh avoid n) [] = some ts) : ts.length = n ∧ ts.Nodup ∧
      (∀ t ∈ ts, t ∈ spillPool) ∧ ∀ p, .op p ∈ avoid → (i.opnd p).vreg ∉ ts := by
  obtain ⟨hlen, -, hspec⟩ := findVecs_spec h
  simp only [List.length_nil, Nat.zero_add, fresh, List.length_map, List.length_range] at hlen hspec
  have hget (m : ℕ) (hm : m < ts.length) : ts[m] ∈ spillPool ∧
      (∀ a ∈ avoid, (Env.mk i (ts.take m) []).vreg a ≠ ts[m]) ∧
      ∀ l < m, (Env.mk i (ts.take m) []).vreg (.t l) ≠ ts[m] := by
    obtain ⟨r, hr, hpool, hne⟩ := hspec m (hlen ▸ hm)
    rw [List.getElem?_eq_getElem hm, Option.some.injEq] at hr
    subst hr
    refine ⟨hpool, fun a ha ↦ hne a ?_, fun l hl ↦ hne (.t l) ?_⟩
    · simp [ha]
    · simp [hl]
  refine ⟨hlen, List.pairwise_iff_getElem.mpr fun l m hl hm hlm ↦ ?_, fun t ht ↦ ?_,
    fun p hp hmem ↦ ?_⟩
  · have hne := (hget m hm).2.2 l hlm
    rwa [Env.vreg, List.getD_eq_getElem?_getD, List.getElem?_take_of_lt hlm,
      List.getElem?_eq_getElem hl, Option.getD_some] at hne
  · obtain ⟨m, hm, rfl⟩ := List.mem_iff_getElem.mp ht
    exact (hget m hm).1
  · obtain ⟨m, hm, heq⟩ := List.mem_iff_getElem.mp hmem
    exact (hget m hm).2.1 _ hp heq.symm

/-- They are found as long as there are no more than six registers in play. -/
theorem exists_findVecs_fresh (i : AppInstr) {avoid : List Role} {n : ℕ} (h : avoid.length + n ≤ 6) :
    ∃ ts, findVecs i (fresh avoid n) [] = some ts := by
  refine exists_findVecs (fun as has ↦ ?_) (fun _ hr ↦ absurd hr List.not_mem_nil)
  obtain ⟨j, hj, rfl⟩ := List.mem_map.mp has
  refine Nat.lt_of_le_of_lt (List.length_filter_le _ _) ?_
  rw [List.mem_range] at hj
  rw [List.length_append, List.length_map, List.length_range]
  omega

/-- The same for general purpose registers. -/
def freshG (avoid : List GRole) (n : ℕ) : List (List GRole) :=
  (List.range n).map fun j ↦ avoid ++ (List.range j).map .t

/-! ## Roles and operands -/

section Roles

abbrev d0 : Role := .op .d0
abbrev s0 : Role := .op .s0
abbrev s1 : Role := .op .s1
abbrev s2 : Role := .op .s2
abbrev s3 : Role := .op .s3
abbrev t0 : Role := .t 0
abbrev t1 : Role := .t 1
abbrev t2 : Role := .t 2
abbrev t3 : Role := .t 3
abbrev t4 : Role := .t 4
abbrev t5 : Role := .t 5
/-- `XMM_SPILL_SLOT0` and `YMM_SPILL_SLOT0`. -/
abbrev spill0 : Role := .spill 0
abbrev spill1 : Role := .spill 1
abbrev spill4 : Role := .spill 4
abbrev spill5 : Role := .spill 5

abbrev rax : GRole := .fixed .rax
abbrev rcx : GRole := .fixed .rcx
abbrev rdx : GRole := .fixed .rdx
abbrev rbx : GRole := .fixed .rbx
abbrev rsp : GRole := .fixed .rsp
abbrev rdi : GRole := .fixed .rdi
abbrev r8 : GRole := .fixed .r8
abbrev r9 : GRole := .fixed .r9
abbrev r10 : GRole := .fixed .r10
abbrev r11 : GRole := .fixed .r11
abbrev r12 : GRole := .fixed .r12
abbrev r13 : GRole := .fixed .r13
abbrev r14 : GRole := .fixed .r14
abbrev r15 : GRole := .fixed .r15
abbrev g0 : GRole := .t 0
abbrev g1 : GRole := .t 1
abbrev g2 : GRole := .t 2

def xmm (r : Role) : TOpnd := .v .xmm r
def ymm (r : Role) : TOpnd := .v .ymm r
def zmm (r : Role) : TOpnd := .v .zmm r

def reg64 (r : GRole) : TOpnd := .g .q r
def reg32 (r : GRole) : TOpnd := .g .d r
def reg16 (r : GRole) : TOpnd := .g .w r
def reg8 (r : GRole) : TOpnd := .g .b r

/-- So many bytes on the stack. -/
def stk (disp : ℤ) (bytes : ℕ) : TOpnd := .scratch rsp none 0 disp bytes

/-- An element of an array on the stack. -/
def stkAt (index : GRole) (scale : ℕ) (disp : ℤ) (bytes : ℕ) : TOpnd :=
  .scratch rsp (some index) scale disp bytes

end Roles

/-! ## Instructions -/

section Instructions

/-- An instruction with one destination. -/
def ins (op : Op) (d : TOpnd) (srcs : List TOpnd) : TInsn := ⟨op, [d], srcs⟩

/-- An instruction without a destination. -/
def ins0 (op : Op) (srcs : List TOpnd) : TInsn := ⟨op, [], srcs⟩

/-- An instruction whose destination is its last source, too. -/
def rmw (op : Op) (d a : TOpnd) : TInsn := ⟨op, [d], [a, d]⟩

/-- A lane-wise operation on registers of one width. -/
def vop (op : Op) (w : VecWidth) (d a b : Role) : TInsn := ⟨op, [.v w d], [.v w a, .v w b]⟩

def pushOpnd (o : TOpnd) : TInsn := ⟨.push, [reg64 rsp, stk (-8) 8], [o, reg64 rsp]⟩
def popOpnd (o : TOpnd) : TInsn := ⟨.pop, [o, reg64 rsp], [reg64 rsp, stk 0 8]⟩
def push (r : GRole) : TInsn := pushOpnd (reg64 r)
def pop (r : GRole) : TInsn := popOpnd (reg64 r)
def pushf : TInsn := ⟨.pushf, [reg64 rsp, stk (-8) 8], [reg64 rsp]⟩
def popf : TInsn := ⟨.popf, [reg64 rsp], [reg64 rsp, stk 0 8]⟩

def lbl (n : ℕ) : TInsn := ⟨.label, [], [.label n]⟩
def jmp (n : ℕ) : TInsn := ⟨.jmp, [], [.label n]⟩
def jcc (c : Cond) (n : ℕ) : TInsn := ⟨.jcc c, [], [.label n]⟩

variable (w : VecWidth)

/-- `RESTORE_SIMD_FROM_SIZED_TLS` from the slot of the register `r`. -/
def ldSlot (d r : Role) : TInsn := ⟨.vmovdqu, [.v w d], [.slot r false w.bytes]⟩

/-- `SAVE_SIMD_TO_SIZED_TLS` to the slot of the register `r`. -/
def stSlot (r a : Role) : TInsn := ⟨.vmovdqu, [.slot r false w.bytes], [.v w a]⟩

/-- Saves a register to its own slot. -/
def save (t : Role) : TInsn := stSlot w t t

/-- Restores a register from its own slot. -/
def restore (t : Role) : TInsn := ldSlot w t t

def saves (ts : List Role) : List TInsn := ts.map (save w)
def restores (ts : List Role) : List TInsn := ts.map (restore w)

/-- The code between saves and restores of the registers it borrows. -/
def borrow (ts : List Role) (body : List TInsn) : List TInsn := saves w ts ++ body ++ restores w ts

/-- Loads the upper half of an emulated register. -/
def ldHi (d r : Role) : TInsn := ⟨.vmovdqu, [ymm d], [.slot r true 32]⟩

/-- Stores the upper half of an emulated register. -/
def stHi (r a : Role) : TInsn := ⟨.vmovdqu, [.slot r true 32], [ymm a]⟩

end Instructions

end DrAvx
