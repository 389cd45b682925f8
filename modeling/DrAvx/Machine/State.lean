import Mathlib.Logic.Function.Basic
import DrAvx.Bits.Lanes
import DrAvx.Ir.Basic

/-!
# The state of the host

The machine a rewritten block runs on: sixteen general purpose registers, the arithmetic flags,
the physical vector registers, memory, and the thread's local storage.  The storage holds 64 bytes
for each of the 32 emulated zmm registers, kept here as two halves `lo` and `hi`, 8 bytes for each
opmask register and the general purpose spill slots.

Operand values are 256 bits wide whatever the operand; a narrower operand is zero-extended when it
is read, and a write takes the bytes it needs.  The vector registers are indexed by all 32 register
numbers, although only the first sixteen exist: an instruction that names another one is not legal
and never executes.
-/

set_option autoImplicit false

namespace DrAvx

open Function

/-- The arithmetic flags. -/
structure Flags where
  cf : Bool
  pf : Bool
  af : Bool
  zf : Bool
  sf : Bool
  of : Bool
  deriving DecidableEq

/-- The state of the host, as far as emitted code can see it. -/
@[ext] structure State where
  gpr : Gpr → BitVec 64
  flags : Flags
  ymm : VReg → BitVec 256
  /-- bytes 0 to 31 of the zmm slots -/
  lo : VReg → BitVec 256
  /-- bytes 32 to 63 of the zmm slots -/
  hi : VReg → BitVec 256
  kslot : KReg → BitVec 64
  rslot : Fin 4 → BitVec 64
  mem : BitVec 64 → BitVec 8
  segBase : SegReg → BitVec 64

/-- The state in which everything is zero. -/
def State.blank : State where
  gpr _ := 0
  flags := ⟨false, false, false, false, false, false⟩
  ymm _ := 0
  lo _ := 0
  hi _ := 0
  kslot _ := 0
  rslot _ := 0
  mem _ := 0
  segBase _ := 0

/-- The value of an operand. -/
abbrev Val := BitVec 256

/-- The low bytes of a value. -/
def low (bytes : ℕ) (v : Val) : Val := (v.setWidth (8 * bytes)).setWidth 256

/-- The low bytes of `v` under the high bytes of `old`. -/
def merge (bytes : ℕ) (old v : Val) : Val :=
  ((old >>> (8 * bytes)) <<< (8 * bytes)) ||| low bytes v

@[simp] theorem low_32 (v : Val) : low 32 v = v := by
  simp [low]

@[simp] theorem merge_32 (old v : Val) : merge 32 old v = v := by
  simp [merge, BitVec.ushiftRight_eq_zero]

/-! ## Memory -/

/-- The little-endian value of so many bytes of memory. -/
def load (mem : BitVec 64 → BitVec 8) (a : BitVec 64) : ℕ → Val
  | 0 => 0
  | n + 1 => (mem a).setWidth 256 ||| (load mem (a + 1) n <<< 8)

/-- Memory after so many bytes of a value are stored. -/
def store (mem : BitVec 64 → BitVec 8) (a : BitVec 64) (bytes : ℕ) (v : Val) :
    BitVec 64 → BitVec 8 :=
  fun b ↦ if (b - a).toNat < bytes then Bits.lane 8 (b - a).toNat v else mem b

namespace State

variable (s : State)

/-- The base of an optional segment; the segments of flat addressing start at zero. -/
def seg : Option SegReg → BitVec 64
  | none => 0
  | some r => s.segBase r

def base : Option Gpr → BitVec 64
  | none => 0
  | some r => s.gpr r

/-- The address a memory operand names; for a gather, the part common to its elements. -/
def ea : MemRef → BitVec 64
  | .baseDisp sg b .none _ disp => s.seg sg + s.base b + BitVec.ofInt 64 disp
  | .baseDisp sg b (.gpr r) scale disp =>
    s.seg sg + s.base b + s.gpr r * BitVec.ofNat 64 scale + BitVec.ofInt 64 disp
  | .baseDisp sg b (.vec _ _) _ disp => s.seg sg + s.base b + BitVec.ofInt 64 disp
  | .rel sg target => s.seg sg + BitVec.ofInt 64 target
  | .abs sg target => s.seg sg + BitVec.ofInt 64 target

/-- The elements a gather loads: one for each index lane that has room in the result. -/
def gather (m : MemRef) (r : VReg) (scale indexBytes bytes : ℕ) : Val :=
  Bits.ofLanes 256 (fun j ↦
    let index := (Bits.lane (8 * indexBytes) j (s.ymm r)).signExtend 64
    (load s.mem (s.ea m + index * BitVec.ofNat 64 scale) bytes).setWidth (8 * bytes))
    (32 / max indexBytes bytes)

/-! ## Reading and writing operands -/

/-- The value of an operand; `indexBytes` is the size of the index elements of a gather. -/
def read (indexBytes : ℕ) : Opnd → Val
  | .vec w r => low w.bytes (s.ymm r)
  | .gpr sz r => low sz.bytes ((s.gpr r).setWidth 256)
  | .opmask _ => 0
  | .null => 0
  | .zslot r upper b => low b (if upper then s.hi r else s.lo r)
  | .kslot k b => low b ((s.kslot k).setWidth 256)
  | .rslot n b => low b ((s.rslot n).setWidth 256)
  | .mem _ (.baseDisp sg bs (.vec w r) scale disp) b =>
    s.gather (.baseDisp sg bs (.vec w r) scale disp) r scale indexBytes b
  | .mem _ m b => load s.mem (s.ea m) b
  | .imm v _ => BitVec.ofInt 256 v
  | .label _ => 0

/-- A general purpose register after a write to a part of it: a doubleword clears the upper half,
a byte or a word leaves the rest. -/
def writeGpr (sz : GprSize) (old : BitVec 64) (v : Val) : BitVec 64 :=
  match sz with
  | .q => v.setWidth 64
  | .d => (low 4 v).setWidth 64
  | .w => (merge 2 (old.setWidth 256) v).setWidth 64
  | .b => (merge 1 (old.setWidth 256) v).setWidth 64

/-- The state after a write to an operand; `p` supplies the addresses.  A VEX instruction clears the
vector register above the operand, a legacy one leaves it. -/
def write (legacy : Bool) (p : State) : Opnd → Val → State
  | .vec w r, v =>
    { s with ymm := update s.ymm r (if legacy then merge 16 (s.ymm r) v else low w.bytes v) }
  | .gpr sz r, v => { s with gpr := update s.gpr r (writeGpr sz (s.gpr r) v) }
  | .zslot r false b, v => { s with lo := update s.lo r (merge b (s.lo r) v) }
  | .zslot r true b, v => { s with hi := update s.hi r (merge b (s.hi r) v) }
  | .kslot k b, v =>
    { s with kslot := update s.kslot k ((merge b ((s.kslot k).setWidth 256) v).setWidth 64) }
  | .rslot n b, v =>
    { s with rslot := update s.rslot n ((merge b ((s.rslot n).setWidth 256) v).setWidth 64) }
  | .mem _ m b, v => { s with mem := store s.mem (p.ea m) b v }
  | .opmask _, _ => s
  | .null, _ => s
  | .imm _ _, _ => s
  | .label _, _ => s

end State

/-! ## Emulated registers -/

namespace State

variable (s : State)

/-- The low half of an emulated zmm register: the physical register where there is one. -/
def zmmLo (r : VReg) : BitVec 256 := if r.high then s.lo r else s.ymm r

/-- The emulated value of a zmm register. -/
def zmm (r : VReg) : BitVec 512 := s.hi r ++ s.zmmLo r

end State

end DrAvx
