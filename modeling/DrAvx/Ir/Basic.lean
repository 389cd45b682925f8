import Mathlib.Algebra.Group.Int.Defs
import Mathlib.Algebra.GroupWithZero.Nat

/-!
# Instructions

The part of the intermediate representation that the rewriter deals in: registers, operands and
instructions.  An instruction is what `instr_create_*` builds, an opcode with its list of
destinations and its list of sources, in the order of the encoder's templates; a destination that is
also read occurs in both lists.

Thread-local storage is not modelled as memory.  The rewriter addresses it only through the macros
`TLS_ZMM_idx_SLOT`, `TLS_K_idx_SLOT` and `TLS_REGn_SLOT`, so an operand in it names the slot: `zslot`
for one half of the 64 bytes that stand for a zmm register, `kslot` for the eight bytes of an opmask
register, `rslot` for a general purpose spill slot.

A memory operand says whether it was built from the memory operand of the application's instruction
or is scratch space of the emitted sequence (`Origin`).  The machine does not look at that; it is
what lets one speak of the accesses a sequence makes on behalf of the original operand.
-/

set_option autoImplicit false

namespace DrAvx

/-! ## Registers -/

/-- The general purpose registers, in encoding order. -/
inductive Gpr
  | rax | rcx | rdx | rbx | rsp | rbp | rsi | rdi
  | r8 | r9 | r10 | r11 | r12 | r13 | r14 | r15
  deriving DecidableEq

/-- The part of a general purpose register an operand names. -/
inductive GprSize
  | b | w | d | q
  deriving DecidableEq

def GprSize.bytes : GprSize → ℕ
  | b => 1
  | w => 2
  | d => 4
  | q => 8

/-- The number of a vector register, whatever its width. -/
abbrev VReg := Fin 32

/-- The registers an AVX2 host does not have: `NEED_SPILL_XMM` and its copies. -/
def VReg.high (r : VReg) : Bool := 16 ≤ r.val

/-- The number of an opmask register. -/
abbrev KReg := Fin 8

-- The literals of these types rest on one proof each, whatever module they stand in.
instance neZeroVReg : NeZero 32 := ⟨by decide⟩

instance neZeroKReg : NeZero 8 := ⟨by decide⟩

instance neZeroRslot : NeZero 4 := ⟨by decide⟩

/-- The width a vector register is named with. -/
inductive VecWidth
  | xmm | ymm | zmm
  deriving DecidableEq

def VecWidth.bytes : VecWidth → ℕ
  | xmm => 16
  | ymm => 32
  | zmm => 64

inductive SegReg
  | es | cs | ss | ds | fs | gs
  deriving DecidableEq

/-! ## Operands -/

/-- The index part of a base-displacement operand: none, a general purpose register, or, in the
gathers and scatters, a vector register of so many index elements. -/
inductive Index
  | none
  | gpr (r : Gpr)
  | vec (w : VecWidth) (r : VReg)
  deriving DecidableEq

/-- What a memory operand points at.  The displacement is the 32-bit value of the operand. -/
inductive MemRef
  | baseDisp (seg : Option SegReg) (base : Option Gpr) (index : Index) (scale : ℕ) (disp : ℤ)
  | rel (seg : Option SegReg) (target : ℤ)
  | abs (seg : Option SegReg) (target : ℤ)
  deriving DecidableEq

/-- On whose behalf a memory operand accesses memory. -/
inductive Origin
  | app | scratch
  deriving DecidableEq

/-- The operands of instructions.  `null` is a register operand that names `DR_REG_NULL`. -/
inductive Opnd
  | vec (w : VecWidth) (r : VReg)
  | gpr (sz : GprSize) (r : Gpr)
  | opmask (k : KReg)
  | null
  | zslot (r : VReg) (upper : Bool) (bytes : ℕ)
  | kslot (k : KReg) (bytes : ℕ)
  | rslot (n : Fin 4) (bytes : ℕ)
  | mem (o : Origin) (m : MemRef) (bytes : ℕ)
  | imm (v : ℤ) (bytes : ℕ)
  | label (n : ℕ)
  deriving DecidableEq

/-! ## Opcodes -/

/-- The conditions of the jumps the rewriter emits. -/
inductive Cond
  | b | nb | z | nz | l | le | nle | p
  deriving DecidableEq

/-- The opcodes the rewriter emits. -/
inductive Op
  -- control flow
  | label | jmp | jcc (c : Cond) | nop
  -- general purpose
  | movLd | movSt | movImm | movzx | lea | push | pop | pushf | popf
  | add | sub | and | or | xor | cmp | test | inc | not | shl | shr | imul | bt | btr | bts
  | clc | stc
  -- legacy SSE
  | addsd | addss | subsd | subss | cvtsi2sd | cvtsi2ss | cvttsd2si | cvttss2si | ucomisd | ucomiss
  | extractps | movd | movsd | movss | movupd | pextrq | pinsrd | pinsrq | pslld | psrld | pxor
  -- VEX moves
  | vmovdqu | vmovaps | vmovapd | vmovups | vmovupd | vmovntps | vmovntpd | vmovd | vmovq | vmovss
  | vmovddup | vmovsldup | vmovshdup | vmovhpd | vmovhps | vmovlpd | vmovlps | vmovlhps
  -- VEX integer arithmetic
  | vpaddw | vpaddd | vpaddq | vpsubb | vpsubw | vpsubd | vpsubq | vpmulld
  | vpand | vpandn | vpor | vpxor | vpcmpeqw | vpcmpeqd | vpcmpeqq | vpcmpgtd | vpcmpgtq
  | vpsllw | vpslld | vpsllq | vpsrld | vpsrlq | vpsrad | vpsrldq | vpackuswb | vpblendvb
  -- VEX data movement between lanes
  | vpbroadcastb | vpbroadcastw | vpbroadcastd | vpbroadcastq | vbroadcastss
  | vextractf128 | vextracti128 | vinserti128 | vinsertps | vperm2i128 | vpermps
  | vpextrb | vpextrd | vpextrq | vpinsrd | vpinsrq | vpgatherdd | vpgatherdq | vpgatherqq
  | vpmovsxdq | vpmovsxwd | vpmovzxbw | vpmovzxdq | vpmovzxwd
  | vunpckhpd | vunpckhps | vunpcklpd | vunpcklps
  -- VEX floating point
  | vroundps | vroundsd | vroundss | vsqrtpd | vsqrtps | vsqrtsd | vsqrtss
  | vcomisd | vcomiss | vucomisd | vucomiss | vcvtsd2si | vcvtss2si | vcvttsd2si | vcvttss2si
  | vcvtsi2sd | vcvtsi2ss | vmovmskpd | vmovmskps
  deriving DecidableEq

/-- An instruction of a chain. -/
structure Insn where
  op : Op
  dsts : List Opnd
  srcs : List Opnd
  deriving DecidableEq

end DrAvx
