import Mathlib.Data.List.Sections
import DrAvx.Machine.Memory
import DrAvx.Rewrite.Profile

/-!
# What the decoder delivers

The decoder's tables give every instruction one or more lists of operand types.  A type says what
kinds of operands the decoder may find at a position; for most of them this depends on the vector
length in the prefix.  Here the types are cut down to what the handlers can tell apart: the width of
a register and whether it is one of the upper sixteen, the kind and the size of a memory operand.

A form may let through more than the processor does.  An opmask register in a gather may be `k0`,
and the size of a general purpose operand is not tied to that of another.
-/

set_option autoImplicit false

namespace DrAvx

/-! ## Operand types -/

/-- The operand types of the decoder's tables, as far as the handled instructions use them. -/
inductive OpType
  /-- `Ve`, `He`, `Vfs` and so on: a vector register of the vector length -/
  | ve
  /-- `We` and so on: the same, or memory of the vector length -/
  | we
  /-- `Mes`, `Med`: memory of the vector length -/
  | me
  /-- `Md`, `Mq`: so many bytes of memory -/
  | m (bytes : ℕ)
  /-- `Voq`, `Uoq`, `Hdq_f`: a zmm register, whatever the vector length -/
  | voq
  /-- `Vdq`, `Hsd`, `Uss` and so on: an xmm register, whatever the vector length -/
  | vdq
  /-- `Wdq`, `Wss`, `Wsd` and so on: the same, or so many bytes of memory -/
  | wdq (bytes : ℕ)
  /-- `Wh_e`, `Wi_e`, `Wj_e`: a fraction of the vector length -/
  | wPart (fraction : ℕ)
  /-- `MVd`, `MVq`: elements of so many bytes, indexed by a vector register -/
  | mv (bytes : ℕ)
  /-- `KEw`, `KPw`, `KVw`, `KRw` and so on: an opmask register -/
  | k
  /-- `KQw` and so on: the same, or so many bytes of memory -/
  | kq (bytes : ℕ)
  /-- `Ib`: an immediate byte -/
  | ib
  /-- `Gd`, `Rd`: a doubleword register -/
  | gd
  /-- `Gy`, `Ry`: a doubleword or quadword register -/
  | gy
  | ed
  | ey
  | eq
  /-- `Rd_Mb`: a doubleword register, or a byte of memory -/
  | rdMb

/-- The vector registers of a width. -/
def vecClasses (w : VecWidth) : List OpndClass := [.vec w false, .vec w true]

/-- Memory operands of so many bytes.  In 64-bit code the decoder delivers no absolute addresses for
instructions with a ModR/M byte. -/
def memClasses (bytes : ℕ) : List OpndClass := [.baseDisp bytes, .relAddr bytes]

theorem exists_mem_of_cls {o : Opnd} {b : ℕ} (h : o.cls ∈ memClasses b) :
    ∃ og m, o = .mem og m b ∧ m.flat = true := by
  rw [memClasses, List.mem_cons, List.mem_singleton] at h
  cases o with
  | mem og m b =>
    rcases m with ⟨_, _, _ | _ | _, _, _⟩ | _ | _ <;> rcases h with h | h <;> cases h <;>
      exact ⟨og, _, rfl, rfl⟩
  | imm v b =>
    rw [Opnd.cls] at h
    split at h <;> rcases h with h | h <;> cases h
  | _ => rcases h with h | h <;> cases h

/-- The width of the register that holds so many bytes. -/
def VecWidth.ofBytes (bytes : ℕ) : VecWidth :=
  if bytes ≤ 16 then .xmm else if bytes ≤ 32 then .ymm else .zmm

/-- The operands of a type, at vector length `L`. -/
def OpType.classes (L : VecWidth) : OpType → List OpndClass
  | ve => vecClasses L
  | we => vecClasses L ++ memClasses L.bytes
  | me => memClasses L.bytes
  | m b => memClasses b
  | voq => vecClasses .zmm
  | vdq => vecClasses .xmm
  | wdq b => vecClasses .xmm ++ memClasses b
  | wPart n => vecClasses (.ofBytes (L.bytes / n)) ++ memClasses (L.bytes / n)
  | mv b => [.vsib L false false b, .vsib L false true b, .vsib L true false b, .vsib L true true b]
  | k => [.opmask]
  | kq b => .opmask :: memClasses b
  | ib => [.immed 1]
  | gd => [.gpr .d]
  | gy => [.gpr .d, .gpr .q]
  | ed => .gpr .d :: memClasses 4
  | ey => [.gpr .d, .gpr .q] ++ memClasses 4 ++ memClasses 8
  | eq => .gpr .q :: memClasses 8
  | rdMb => .gpr .d :: memClasses 1

/-! ## Operand lists -/

/-- An entry of the decoder's tables: the vector lengths it comes in and the types of its operands. -/
structure DecForm where
  lens : List VecWidth
  dsts : List OpType
  srcs : List OpType

/-- The classes of the operands of an instruction: destinations and sources. -/
abbrev Classes := List OpndClass × List OpndClass

namespace DecForm

/-- An entry that comes in all three vector lengths. -/
def evex (dsts srcs : List OpType) : DecForm := ⟨[.xmm, .ymm, .zmm], dsts, srcs⟩

/-- An entry that ignores the vector length. -/
def lig (dsts srcs : List OpType) : DecForm := ⟨[.xmm], dsts, srcs⟩

/-- An entry that does not exist with 128-bit vectors. -/
def evex256 (dsts srcs : List OpType) : DecForm := ⟨[.ymm, .zmm], dsts, srcs⟩

/-- What the decoder may deliver for an entry. -/
def classes (f : DecForm) : List Classes :=
  f.lens.flatMap fun L ↦
    (f.dsts.map (OpType.classes L)).sections ×ˢ (f.srcs.map (OpType.classes L)).sections

end DecForm

/-- The classes of an instruction's operands. -/
def AppInstr.classes (i : AppInstr) : Classes := (i.dsts.map Opnd.cls, i.srcs.map Opnd.cls)

/-- The profile of an instruction whose operands have the given classes. -/
def Classes.profile (cs : Classes) : Profile
  | .d0 => cs.1.getD 0 .absent
  | .d1 => cs.1.getD 1 .absent
  | .s0 => cs.2.getD 0 .absent
  | .s1 => cs.2.getD 1 .absent
  | .s2 => cs.2.getD 2 .absent
  | .s3 => cs.2.getD 3 .absent

end DrAvx
