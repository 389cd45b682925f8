import DrAvx.Ir.Basic

/-!
# Instructions an AVX2 host can run

Which instructions have a VEX or legacy encoding.  An instruction is checked against the operand
forms its opcode has, and a form is a pattern for each destination and source, in the order in which
the decoder's tables list them.  Two things vary inside a form: the vector length, which all
length-dependent operands share, and the size of the general purpose operands.

No pattern admits a zmm register, an opmask register or one of the vector registers from 16 on:
these have no encoding outside EVEX.  An operand in thread-local storage is memory of its size, so a
save or restore only fits when the slot is as wide as the register.

The encoding does not depend on which registers and addresses an instruction uses, beyond what the
`Shape` of its operands records.  The count register of a shift is not checked: the rewriter never
uses another one than `cl`.
-/

set_option autoImplicit false

namespace DrAvx

/-! ## Operand shapes -/

/-- What the encoding of an operand depends on. -/
inductive Shape
  | vec (w : VecWidth) (high : Bool)
  | gpr (sz : GprSize)
  | mem (bytes : ℕ)
  /-- memory with a vector register as its index -/
  | vsib (w : VecWidth) (high : Bool) (bytes : ℕ)
  /-- an immediate: does its value fit its size, and does it when sign-extended? -/
  | imm (bytes : ℕ) (fits signed : Bool)
  | label
  /-- an opmask register, or no register at all -/
  | other
  deriving DecidableEq

/-- The shape of an immediate. -/
def Shape.ofImm (v : ℤ) (bytes : ℕ) : Shape :=
  .imm bytes (decide (-2 ^ (8 * bytes - 1) ≤ v) && decide (v < 2 ^ (8 * bytes)))
    (decide (-2 ^ (8 * bytes - 1) ≤ v) && decide (v < 2 ^ (8 * bytes - 1)))

def Opnd.shape : Opnd → Shape
  | .vec w r => .vec w r.high
  | .gpr sz _ => .gpr sz
  | .opmask _ => .other
  | .null => .other
  | .zslot _ _ b => .mem b
  | .kslot _ b => .mem b
  | .rslot _ b => .mem b
  | .mem _ (.baseDisp _ _ (.vec w r) _ _) b => .vsib w r.high b
  | .mem _ _ b => .mem b
  | .imm v b => .ofImm v b
  | .label _ => .label

/-! ## Operand patterns -/

/-- What an operand position of an instruction form takes.  `L` is the vector length of the
instruction and `n` the size of its general purpose operands. -/
inductive Pat
  /-- a vector register of length `L` -/
  | v
  /-- a vector register or memory of length `L` -/
  | vm
  /-- memory of length `L` -/
  | mL
  /-- an xmm register, or half as much memory as `L` -/
  | half
  /-- an xmm register -/
  | x
  /-- an xmm register or so many bytes of memory -/
  | xm (bytes : ℕ)
  /-- so many bytes of memory -/
  | m (bytes : ℕ)
  /-- a general purpose register of size `n` -/
  | r
  /-- a general purpose register or memory of size `n` -/
  | rm
  /-- a general purpose register or memory of a fixed size -/
  | rmOf (sz : GprSize)
  /-- a general purpose register of a fixed size -/
  | rOf (sz : GprSize)
  /-- an immediate byte -/
  | ib
  /-- an immediate of size `n`, except that a quadword operation takes four sign-extended bytes -/
  | iz
  /-- an immediate of size `n` -/
  | iv
  /-- an address that is not accessed -/
  | addr
  /-- memory elements of so many bytes, indexed by a vector register of length `L`: the encoder goes
  by `L`, also where only half of the register holds indices -/
  | vsib (bytes : ℕ)
  /-- a jump target -/
  | label
  deriving DecidableEq

namespace Shape

/-- A vector register of the given width that exists on the host. -/
def isVec (w : VecWidth) : Shape → Bool
  | vec w' high => w' == w && w != .zmm && !high
  | _ => false

def isGpr (sz : GprSize) : Shape → Bool
  | gpr sz' => sz' == sz
  | _ => false

/-- Memory of so many bytes. -/
def isMem (bytes : ℕ) : Shape → Bool
  | mem b => b == bytes
  | _ => false

/-- An immediate of so many bytes whose value those bytes can hold. -/
def isImm (bytes : ℕ) : Shape → Bool
  | imm b fits _ => b == bytes && fits
  | _ => false

/-- An immediate of so many bytes that stands for itself when sign-extended. -/
def isSignedImm (bytes : ℕ) : Shape → Bool
  | imm b _ signed => b == bytes && signed
  | _ => false

/-- Memory elements of so many bytes over the given index register. -/
def isVsib (w : VecWidth) (bytes : ℕ) : Shape → Bool
  | vsib w' high b => w' == w && w != .zmm && !high && b == bytes
  | _ => false

/-- The operand fits the pattern, at vector length `L` and operand size `n`. -/
def fits (L : VecWidth) (n : GprSize) (o : Shape) : Pat → Bool
  | .v => o.isVec L
  | .vm => o.isVec L || o.isMem L.bytes
  | .mL => o.isMem L.bytes
  | .half => o.isVec .xmm || o.isMem (L.bytes / 2)
  | .x => o.isVec .xmm
  | .xm b => o.isVec .xmm || o.isMem b
  | .m b => o.isMem b
  | .r => o.isGpr n
  | .rm => o.isGpr n || o.isMem n.bytes
  | .rmOf sz => o.isGpr sz || o.isMem sz.bytes
  | .rOf sz => o.isGpr sz
  | .ib => o.isImm 1
  | .iz => if n = .q then o.isSignedImm 4 else o.isImm n.bytes
  | .iv => o.isImm n.bytes
  | .addr => match o with
    | .mem _ => true
    | _ => false
  | .vsib b => o.isVsib L b
  | .label => o == .label

/-- The operands fit the patterns position by position. -/
def fitAll (L : VecWidth) (n : GprSize) : List Shape → List Pat → Bool
  | [], [] => true
  | o :: os, p :: ps => o.fits L n p && fitAll L n os ps
  | _, _ => false

end Shape

/-! ## Instruction forms -/

/-- An operand form of an opcode: the vector lengths and operand sizes it comes in, and the patterns
of its destinations and sources. -/
structure Form where
  lens : List VecWidth
  sizes : List GprSize
  dsts : List Pat
  srcs : List Pat

namespace Form

/-- A form that comes in both vector lengths. -/
def vex (dsts srcs : List Pat) : Form := ⟨[.xmm, .ymm], [.q], dsts, srcs⟩

/-- A form that only exists with 256-bit vectors. -/
def vex256 (dsts srcs : List Pat) : Form := ⟨[.ymm], [.q], dsts, srcs⟩

/-- A form without a length or an operand size of its own. -/
def fixed (dsts srcs : List Pat) : Form := ⟨[.xmm], [.q], dsts, srcs⟩

/-- A form whose general purpose operands have one of the given sizes. -/
def sized (sizes : List GprSize) (dsts srcs : List Pat) : Form := ⟨[.xmm], sizes, dsts, srcs⟩

end Form

open Form Pat GprSize

/-- A register operation on two vectors. -/
def vec3Forms : List Form := [vex [v] [v, vm]]

/-- A shift of vector lanes, by an xmm register or by an immediate. -/
def shiftForms : List Form := [vex [v] [v, xm 16], vex [v] [ib, v]]

/-- A move of whole vectors. -/
def vecMovForms : List Form := [vex [v] [vm], vex [mL] [v]]

/-- A move of a half of an xmm register to or from memory. -/
def halfMovForms : List Form := [fixed [x] [x, m 8], fixed [m 8] [x]]

/-- A legacy scalar operation on operands of so many bytes. -/
def scalarForms (bytes : ℕ) : List Form := [fixed [x] [xm bytes, x]]

/-- A comparison of scalars of so many bytes that sets the flags. -/
def comisForms (bytes : ℕ) : List Form := [fixed [] [x, xm bytes]]

/-- A conversion of a scalar of so many bytes to an integer register. -/
def toIntForms (bytes : ℕ) : List Form := [sized [d, q] [r] [xm bytes]]

/-- The two-operand arithmetic instructions. -/
def arithForms : List Form :=
  [sized [b, w, d, q] [rm] [r, rm], sized [b, w, d, q] [r] [rm, r],
    sized [b, w, d, q] [rm] [iz, rm], sized [w, d, q] [rm] [ib, rm]]

def shiftGprForms : List Form :=
  [sized [b, w, d, q] [rm] [ib, rm], sized [b, w, d, q] [rm] [rOf b, rm]]

def bitForms : List Form := [sized [w, d, q] [rm] [r, rm], sized [w, d, q] [rm] [ib, rm]]

/-- The forms of an opcode that need no EVEX prefix. -/
def Op.forms : Op → List Form
  | .label | .jmp | .jcc _ => [fixed [] [.label]]
  | .nop | .clc | .stc => [fixed [] []]
  | .movLd => [sized [b, w, d, q] [r] [rm]]
  | .movSt => [sized [b, w, d, q] [rm] [r], sized [b, w, d, q] [rm] [iz]]
  | .movImm => [sized [b, w, d, q] [r] [iv], sized [q] [r] [iz]]
  | .movzx => [sized [w, d, q] [r] [rmOf b], sized [d, q] [r] [rmOf w]]
  | .lea => [sized [w, d, q] [r] [addr]]
  | .push => [fixed [rOf q, m 8] [rOf q, rOf q]]
  | .pop => [fixed [rOf q, rOf q] [rOf q, m 8]]
  | .pushf => [fixed [rOf q, m 8] [rOf q]]
  | .popf => [fixed [rOf q] [rOf q, m 8]]
  | .add | .sub | .and | .or | .xor => arithForms
  | .cmp => [sized [b, w, d, q] [] [rm, r], sized [b, w, d, q] [] [r, rm],
      sized [b, w, d, q] [] [rm, iz], sized [w, d, q] [] [rm, ib]]
  | .test => [sized [b, w, d, q] [] [rm, r], sized [b, w, d, q] [] [rm, iz]]
  | .inc | .not => [sized [b, w, d, q] [rm] [rm]]
  | .shl | .shr => shiftGprForms
  | .imul => [sized [w, d, q] [r] [rm, r], sized [w, d, q] [r] [rm, ib], sized [w, d, q] [r] [rm, iz]]
  | .bt => [sized [w, d, q] [] [rm, r], sized [w, d, q] [] [rm, ib]]
  | .btr | .bts => bitForms
  | .addsd | .subsd => scalarForms 8
  | .addss | .subss => scalarForms 4
  | .cvtsi2sd | .cvtsi2ss => [sized [d, q] [x] [rm]]
  | .vcvtsi2sd | .vcvtsi2ss => [sized [d, q] [x] [x, rm]]
  | .vmovmskpd | .vmovmskps => [vex [rOf d] [v]]
  | .cvttsd2si | .vcvtsd2si | .vcvttsd2si => toIntForms 8
  | .cvttss2si | .vcvtss2si | .vcvttss2si => toIntForms 4
  | .ucomisd | .vcomisd | .vucomisd => comisForms 8
  | .ucomiss | .vcomiss | .vucomiss => comisForms 4
  | .extractps => [fixed [rmOf d] [x, ib]]
  | .movd => [sized [d, q] [x] [rm], sized [d, q] [rm] [x]]
  | .movsd => [fixed [x] [xm 8], fixed [xm 8] [x]]
  | .movss => [fixed [x] [xm 4], fixed [xm 4] [x]]
  | .movupd => [fixed [x] [xm 16], fixed [xm 16] [x]]
  | .pextrq => [fixed [rmOf q] [x, ib]]
  | .pinsrd => [fixed [x] [rmOf d, ib]]
  | .pinsrq => [fixed [x] [rmOf q, ib]]
  | .pxor => [fixed [x] [xm 16, x]]
  | .pslld | .psrld => [fixed [x] [xm 16, x], fixed [x] [ib, x]]
  | .vmovdqu | .vmovaps | .vmovapd | .vmovups | .vmovupd => vecMovForms
  | .vmovntps | .vmovntpd => [vex [mL] [v]]
  | .vmovd => [fixed [x] [rmOf d], fixed [rmOf d] [x]]
  | .vmovq => [fixed [x] [xm 8], fixed [xm 8] [x], fixed [x] [rmOf q], fixed [rmOf q] [x]]
  | .vmovss => [fixed [x] [x, x], fixed [x] [m 4], fixed [m 4] [x]]
  | .vmovddup => [fixed [x] [xm 8], vex256 [v] [vm]]
  | .vmovsldup | .vmovshdup | .vsqrtps | .vsqrtpd => [vex [v] [vm]]
  | .vmovhpd | .vmovhps | .vmovlpd | .vmovlps => halfMovForms
  | .vmovlhps => [fixed [x] [x, x]]
  | .vpaddw | .vpaddd | .vpaddq | .vpsubb | .vpsubw | .vpsubd | .vpsubq | .vpmulld
  | .vpand | .vpandn | .vpor | .vpxor | .vpcmpeqw | .vpcmpeqd | .vpcmpeqq | .vpcmpgtd | .vpcmpgtq
  | .vpackuswb | .vunpckhpd | .vunpckhps | .vunpcklpd | .vunpcklps => vec3Forms
  | .vpsllw | .vpslld | .vpsllq | .vpsrld | .vpsrlq | .vpsrad => shiftForms
  | .vpsrldq => [vex [v] [ib, v]]
  | .vpblendvb => [vex [v] [v, vm, v]]
  | .vpbroadcastb => [vex [v] [xm 1]]
  | .vpbroadcastw => [vex [v] [xm 2]]
  | .vpbroadcastd | .vbroadcastss => [vex [v] [xm 4]]
  | .vpbroadcastq => [vex [v] [xm 8]]
  | .vextractf128 | .vextracti128 => [vex256 [xm 16] [v, ib]]
  | .vinserti128 => [vex256 [v] [v, xm 16, ib]]
  | .vinsertps => [fixed [x] [ib, x, xm 4]]
  | .vperm2i128 => [vex256 [v] [v, vm, ib]]
  | .vpermps => [vex256 [v] [v, vm]]
  | .vpextrb => [fixed [rOf d] [x, ib], fixed [m 1] [x, ib]]
  | .vpextrd => [sized [d, q] [rm] [x, ib]]
  | .vpextrq => [fixed [rmOf q] [x, ib]]
  | .vpinsrd => [fixed [x] [x, rmOf d, ib]]
  | .vpinsrq => [fixed [x] [x, rmOf q, ib]]
  | .vpgatherdd => [vex [v, v] [vsib 4, v]]
  | .vpgatherdq | .vpgatherqq => [vex [v, v] [vsib 8, v]]
  | .vpmovsxdq | .vpmovsxwd | .vpmovzxbw | .vpmovzxdq | .vpmovzxwd => [vex [v] [half]]
  | .vroundps => [vex [v] [vm, ib]]
  | .vroundsd => [fixed [x] [x, xm 8, ib]]
  | .vroundss => [fixed [x] [x, xm 4, ib]]
  | .vsqrtsd => [fixed [x] [x, xm 8]]
  | .vsqrtss => [fixed [x] [x, xm 4]]

/-- The operands fit the form. -/
def Form.admits (f : Form) (dsts srcs : List Shape) : Bool :=
  f.lens.any fun L ↦ f.sizes.any fun n ↦
    Shape.fitAll L n dsts f.dsts && Shape.fitAll L n srcs f.srcs

/-- The opcode has a VEX or legacy encoding with operands of these shapes. -/
def Op.encodable (op : Op) (dsts srcs : List Shape) : Bool :=
  op.forms.any fun f ↦ f.admits dsts srcs

/-- The instruction has a VEX or legacy encoding. -/
def Insn.legal (i : Insn) : Bool := i.op.encodable (i.dsts.map Opnd.shape) (i.srcs.map Opnd.shape)

end DrAvx
