import Mathlib.Computability.StateTransition
import DrAvx.Ir.Encoding
import DrAvx.Machine.State

/-!
# Executing emitted code

An instruction reads its sources, computes, and writes its destinations; addresses are computed in
the state before.  What it computes is `Op.eval`.  Floating point and a few lane shuffles are left to
a parameter, `Ext`, which also stands for the flags that an instruction leaves undefined: every
result holds whatever these compute.

A chain is executed from its first instruction until control leaves it at the end.  Jumps go to
labels of the chain.  An instruction that is not legal does not execute, so a chain with such an
instruction on the way has no completed run.
-/

set_option autoImplicit false

namespace DrAvx

open Bits

/-! ## What instructions compute -/

/-- The operations that are not modelled bit by bit. -/
structure Ext where
  val : Op → ℕ → List Val → Val
  flags : Op → ℕ → List Val → Flags → Flags

/-- One choice for them: no value but zero, and no change of the flags. -/
def Ext.blank : Ext := ⟨fun _ _ _ ↦ 0, fun _ _ _ fl ↦ fl⟩

/-- The condition of a jump. -/
def Cond.holds (fl : Flags) : Cond → Bool
  | b => fl.cf
  | nb => !fl.cf
  | z => fl.zf
  | nz => !fl.zf
  | l => fl.sf != fl.of
  | le => fl.zf || fl.sf != fl.of
  | nle => !(fl.zf || fl.sf != fl.of)
  | p => fl.pf

namespace Flags

/-- The image of the flags that `pushf` stores. -/
def image (fl : Flags) : Val :=
  BitVec.ofNat 256 (fl.cf.toNat + 2 + 4 * fl.pf.toNat + 16 * fl.af.toNat + 64 * fl.zf.toNat +
    128 * fl.sf.toNat + 2048 * fl.of.toNat)

/-- The flags that `popf` loads. -/
def ofImage (v : Val) : Flags :=
  ⟨v.getLsbD 0, v.getLsbD 2, v.getLsbD 4, v.getLsbD 6, v.getLsbD 7, v.getLsbD 11⟩

/-- The flags of a result of so many bytes. -/
def ofResult (n : ℕ) (r : Val) (cf af of : Bool) : Flags where
  cf := cf
  pf := (List.range 8).countP (r.getLsbD ·) % 2 == 0
  af := af
  zf := low n r == 0
  sf := r.getLsbD (8 * n - 1)
  of := of

end Flags

/-- `a + b` in so many bytes, with its flags. -/
def addWithFlags (n : ℕ) (a b : Val) : Val × Flags :=
  let a := low n a
  let b := low n b
  let r := low n (a + b)
  let sign (v : Val) := v.getLsbD (8 * n - 1)
  (r, .ofResult n r (decide (2 ^ (8 * n) ≤ a.toNat + b.toNat))
    (decide (16 ≤ a.toNat % 16 + b.toNat % 16)) (sign a == sign b && sign r != sign a))

/-- `a - b` in so many bytes, with its flags. -/
def subWithFlags (n : ℕ) (a b : Val) : Val × Flags :=
  let a := low n a
  let b := low n b
  let r := low n (a - b)
  let sign (v : Val) := v.getLsbD (8 * n - 1)
  (r, .ofResult n r (decide (a.toNat < b.toNat)) (decide (a.toNat % 16 < b.toNat % 16))
    (sign a != sign b && sign r != sign a))

/-- The result of a comparison of two lanes: all ones or all zeros. -/
def laneMask {w : ℕ} (b : Bool) : BitVec w := if b then BitVec.allOnes w else 0

/-- The low lane in every lane. -/
def broadcast (w : ℕ) (v : Val) : Val := ofLanes 256 (fun _ ↦ lane w 0 v) (256 / w)

/-- The vector with one lane replaced. -/
def insertLane (w : ℕ) (j : ℕ) (v : Val) (x : BitVec w) : Val :=
  ofLanes 256 (fun i ↦ if i = j then x else lane w i v) (256 / w)

/-- A shift of every lane by the same count. -/
def shiftLanes (w : ℕ) (f : BitVec w → ℕ → BitVec w) (v : Val) (count : ℕ) : Val :=
  ofLanes 256 (fun j ↦ f (lane w j v) count) (256 / w)

/-- The lanes of `v` that the lanes of `idx` select. -/
def permuteLanes (w : ℕ) (idx v : Val) : Val :=
  ofLanes 256 (fun j ↦ lane w ((lane w j idx).toNat % (256 / w)) v) (256 / w)

/-- Bytes of `b` where the top bit of the mask byte is set, bytes of `a` elsewhere. -/
def blend (w : ℕ) (a b mask : Val) : Val :=
  ofLanes 256 (fun j ↦ if (lane w j mask).getLsbD (w - 1) then lane w j b else lane w j a) (256 / w)

/-- Does the opcode leave its result in the flags, or change them besides? -/
def Op.setsFlags : Op → Bool
  | .popf | .add | .sub | .and | .or | .xor | .cmp | .test | .inc | .shl | .shr | .imul
  | .bt | .btr | .bts | .clc | .stc
  | .ucomisd | .ucomiss | .vcomisd | .vcomiss | .vucomisd | .vucomiss => true
  | _ => false

/-- An operation with one input. -/
def eval1 (f : Val → Val) : List Val → List Val
  | [a] => [f a]
  | _ => []

/-- An operation with two inputs. -/
def eval2 (f : Val → Val → Val) : List Val → List Val
  | [a, b] => [f a b]
  | _ => []

/-- An operation with three inputs. -/
def eval3 (f : Val → Val → Val → Val) : List Val → List Val
  | [a, b, c] => [f a b c]
  | _ => []

/-- A vector shift by an immediate comes with the immediate first, one by a register with it
second. -/
def evalShift (E : Ext) (op : Op) (n w : ℕ) (f : BitVec w → ℕ → BitVec w) (byImm : Bool) :
    List Val → List Val
  | [a, b] =>
    if byImm then [shiftLanes w f b (low 1 a).toNat] else [shiftLanes w f a (low 8 b).toNat]
  | vs => [E.val op n vs]

/-- The values an opcode computes: `n` is the size of its operands in bytes, `byImm` says whether
its first source is an immediate. -/
def Op.values (E : Ext) (op : Op) (n : ℕ) (byImm : Bool) (vs : List Val) (fl : Flags) : List Val :=
  match op with
  | .label | .jmp | .jcc _ | .nop | .clc | .stc | .cmp | .test | .bt
  | .ucomisd | .ucomiss | .vcomisd | .vcomiss | .vucomisd | .vucomiss => []
  | .movLd | .movSt | .movImm | .movzx | .lea | .movupd
  | .vmovdqu | .vmovaps | .vmovapd | .vmovups | .vmovupd | .vmovntps | .vmovntpd => eval1 id vs
  | .push => match vs with
    | [v, sp] => [sp - 8, v]
    | _ => []
  | .pop => match vs with
    | [sp, v] => [v, sp + 8]
    | _ => []
  | .pushf => match vs with
    | [sp] => [sp - 8, fl.image]
    | _ => []
  | .popf => match vs with
    | [sp, _] => [sp + 8]
    | _ => []
  | .add => eval2 (fun b a ↦ (addWithFlags n a b).1) vs
  | .sub => eval2 (fun b a ↦ (subWithFlags n a b).1) vs
  | .inc => eval1 (fun a ↦ (addWithFlags n a 1).1) vs
  | .and => eval2 (· &&& ·) vs
  | .or => eval2 (· ||| ·) vs
  | .xor | .pxor => eval2 (· ^^^ ·) vs
  | .not => eval1 (~~~ ·) vs
  | .imul => eval2 (· * ·) vs
  | .btr => eval2 (fun b a ↦ a &&& ~~~(1#256 <<< (b.toNat % (8 * n)))) vs
  | .bts => eval2 (fun b a ↦ a ||| 1#256 <<< (b.toNat % (8 * n))) vs
  | .shl => eval2 (fun b a ↦ a <<< (b.toNat % (if n = 8 then 64 else 32))) vs
  | .shr => eval2 (fun b a ↦ a >>> (b.toNat % (if n = 8 then 64 else 32))) vs
  | .movd | .vmovd | .vmovq => eval1 (low (min n 8)) vs
  | .movss => match vs with
    | [v, old] => [merge 4 old v]
    | _ => eval1 id vs
  | .movsd => match vs with
    | [v, old] => [merge 8 old v]
    | _ => eval1 id vs
  | .pinsrd => eval3 (fun v j old ↦ insertLane 32 (j.toNat % 4) old (lane 32 0 v)) vs
  | .pinsrq => eval3 (fun v j old ↦ insertLane 64 (j.toNat % 2) old (lane 64 0 v)) vs
  | .vpinsrd => eval3 (fun a v j ↦ insertLane 32 (j.toNat % 4) a (lane 32 0 v)) vs
  | .vpinsrq => eval3 (fun a v j ↦ insertLane 64 (j.toNat % 2) a (lane 64 0 v)) vs
  | .pextrq | .vpextrq => eval2 (fun v j ↦ (lane 64 (j.toNat % 2) v).setWidth 256) vs
  | .vpextrd => eval2 (fun v j ↦ (lane (8 * n) (j.toNat % (16 / n)) v).setWidth 256) vs
  | .vpextrb => eval2 (fun v j ↦ (lane 8 (j.toNat % 16) v).setWidth 256) vs
  | .extractps => eval2 (fun v j ↦ (lane 32 (j.toNat % 4) v).setWidth 256) vs
  | .vpaddw => eval2 (zipLanes 16 (· + ·)) vs
  | .vpaddd => eval2 (zipLanes 32 (· + ·)) vs
  | .vpaddq => eval2 (zipLanes 64 (· + ·)) vs
  | .vpsubb => eval2 (zipLanes 8 (· - ·)) vs
  | .vpsubw => eval2 (zipLanes 16 (· - ·)) vs
  | .vpsubd => eval2 (zipLanes 32 (· - ·)) vs
  | .vpsubq => eval2 (zipLanes 64 (· - ·)) vs
  | .vpmulld => eval2 (zipLanes 32 (· * ·)) vs
  | .vpand => eval2 (· &&& ·) vs
  | .vpandn => eval2 (fun a b ↦ ~~~a &&& b) vs
  | .vpor => eval2 (· ||| ·) vs
  | .vpxor => eval2 (· ^^^ ·) vs
  | .vpcmpeqw => eval2 (zipLanes 16 fun a b ↦ laneMask (a == b)) vs
  | .vpcmpeqd => eval2 (zipLanes 32 fun a b ↦ laneMask (a == b)) vs
  | .vpcmpeqq => eval2 (zipLanes 64 fun a b ↦ laneMask (a == b)) vs
  | .vpcmpgtd => eval2 (zipLanes 32 fun a b ↦ laneMask (b.slt a)) vs
  | .vpcmpgtq => eval2 (zipLanes 64 fun a b ↦ laneMask (b.slt a)) vs
  | .vpsllw => evalShift E op n 16 (· <<< ·) byImm vs
  | .vpslld => evalShift E op n 32 (· <<< ·) byImm vs
  | .vpsllq => evalShift E op n 64 (· <<< ·) byImm vs
  | .vpsrld => evalShift E op n 32 (· >>> ·) byImm vs
  | .vpsrlq => evalShift E op n 64 (· >>> ·) byImm vs
  | .vpsrad => evalShift E op n 32 (fun a c ↦ a.sshiftRight c) byImm vs
  -- the count comes first in the legacy encodings, also from a register
  | .pslld => eval2 (fun c a ↦ shiftLanes 32 (· <<< ·) a (low (if byImm then 1 else 8) c).toNat) vs
  | .psrld => eval2 (fun c a ↦ shiftLanes 32 (· >>> ·) a (low (if byImm then 1 else 8) c).toNat) vs
  | .vpbroadcastb => eval1 (broadcast 8) vs
  | .vpbroadcastw => eval1 (broadcast 16) vs
  | .vpbroadcastd | .vbroadcastss => eval1 (broadcast 32) vs
  | .vpbroadcastq => eval1 (broadcast 64) vs
  | .vextracti128 | .vextractf128 => eval2 (fun v j ↦ (lane 128 (j.toNat % 2) v).setWidth 256) vs
  | .vinserti128 => eval3 (fun a v j ↦ insertLane 128 (j.toNat % 2) a (lane 128 0 v)) vs
  | .vpermps => eval2 (permuteLanes 32) vs
  | .vpblendvb => eval3 (fun a b mask ↦ blend 8 a b mask) vs
  | .vpgatherdd => match vs with
    | [loaded, mask, old, _] => [blend 32 old loaded mask, 0]
    | _ => []
  | .vpgatherdq | .vpgatherqq => match vs with
    | [loaded, mask, old, _] => [blend 64 old loaded mask, 0]
    | _ => []
  | .vmovss => match vs with
    | [a, v] => [merge 4 a v]
    | _ => eval1 id vs
  | op => [E.val op n vs]

/-- The flags after an opcode that sets them. -/
def Op.newFlags (E : Ext) (op : Op) (n : ℕ) (vs : List Val) (fl : Flags) : Flags :=
  match op, vs with
  | .popf, [_, v] => .ofImage v
  | .clc, _ => { fl with cf := false }
  | .stc, _ => { fl with cf := true }
  | .add, [b, a] => (addWithFlags n a b).2
  | .sub, [b, a] => (subWithFlags n a b).2
  | .cmp, [a, b] => (subWithFlags n a b).2
  | .inc, [a] => { (addWithFlags n a 1).2 with cf := fl.cf }
  -- the logical operations leave the auxiliary carry undefined
  | .and, [a, b] => .ofResult n (a &&& b) false (E.flags op n vs fl).af false
  | .test, [a, b] => .ofResult n (a &&& b) false (E.flags op n vs fl).af false
  | .or, [a, b] => .ofResult n (a ||| b) false (E.flags op n vs fl).af false
  | .xor, [a, b] => .ofResult n (a ^^^ b) false (E.flags op n vs fl).af false
  -- of the bit tests only the carry is defined, and the zero flag stays
  | .bt, [a, b] => { E.flags op n vs fl with cf := a.getLsbD (b.toNat % (8 * n)), zf := fl.zf }
  | .btr, [b, a] => { E.flags op n vs fl with cf := a.getLsbD (b.toNat % (8 * n)), zf := fl.zf }
  | .bts, [b, a] => { E.flags op n vs fl with cf := a.getLsbD (b.toNat % (8 * n)), zf := fl.zf }
  | op, vs => E.flags op n vs fl

/-! ## One instruction -/

namespace Opnd

/-- The size of an operand. -/
def bytes : Opnd → ℕ
  | vec w _ => w.bytes
  | gpr sz _ => sz.bytes
  | zslot _ _ b | kslot _ b | rslot _ b | mem _ _ b | imm _ b => b
  | opmask _ => 8
  | null | label _ => 0

def isImmediate : Opnd → Bool
  | imm _ _ => true
  | _ => false

end Opnd

namespace Insn

/-- The size of an instruction's operands: that of the first destination, or source. -/
def bytes (i : Insn) : ℕ := ((i.dsts ++ i.srcs).head?.map Opnd.bytes).getD 0

/-- Instructions that keep a part of their destination without listing it as a source. -/
def readsDst (i : Insn) : Bool :=
  match i.op, i.srcs with
  | .movss, .vec _ _ :: _ => true
  | .movsd, .vec _ _ :: _ => true
  | .cvtsi2sd, _ | .cvtsi2ss, _ | .pinsrd, _ | .pinsrq, _ => true
  | .vpgatherdd, _ | .vpgatherdq, _ | .vpgatherqq, _ => true
  | _, _ => false

/-- The operands an instruction reads. -/
def inputs (i : Insn) : List Opnd := if i.readsDst then i.srcs ++ i.dsts else i.srcs

/-- The size of the index elements of a gather. -/
def indexBytes (i : Insn) : ℕ := if i.op = .vpgatherqq then 8 else 4

/-- Instructions with a legacy SSE encoding, which leave the upper half of a vector register. -/
def legacySse (i : Insn) : Bool :=
  match i.op with
  | .addsd | .addss | .subsd | .subss | .cvtsi2sd | .cvtsi2ss | .movd | .movsd | .movss | .movupd
  | .pinsrd | .pinsrq | .pslld | .psrld | .pxor => true
  | _ => false

/-- The value an instruction takes from an operand: of the operand of `lea`, the address. -/
def operandVal (i : Insn) (s : State) (o : Opnd) : Val :=
  match i.op, o with
  | .lea, .mem _ m _ => (s.ea m).setWidth 256
  | _, o => s.read i.indexBytes o

def inputVals (i : Insn) (s : State) : List Val := i.inputs.map (i.operandVal s)

/-- The values of an instruction's destinations. -/
def outputs (E : Ext) (i : Insn) (s : State) : List Val :=
  i.op.values E i.bytes ((i.srcs.head?.map Opnd.isImmediate).getD false) (i.inputVals s) s.flags

/-- Writes a list of results.  The first destination is written last, as `pop` into the stack
pointer requires. -/
def writeAll (legacy : Bool) (p : State) : List (Opnd × Val) → State → State
  | [], s => s
  | (o, v) :: rest, s => (writeAll legacy p rest s).write legacy p o v

/-- The state after an instruction. -/
def effect (E : Ext) (i : Insn) (s : State) : State :=
  let s' := writeAll i.legacySse s (i.dsts.zip (i.outputs E s)) s
  if i.op.setsFlags then { s' with flags := i.op.newFlags E i.bytes (i.inputVals s) s.flags } else s'

/-- The label an instruction jumps to in the given state, if it does. -/
def jumpsTo (i : Insn) (fl : Flags) : Option ℕ :=
  match i.op, i.srcs with
  | .jmp, [.label n] => some n
  | .jcc c, [.label n] => if c.holds fl then some n else none
  | _, _ => none

def isLabel (n : ℕ) (i : Insn) : Bool := i.op == .label && i.srcs == [.label n]

end Insn

/-! ## Chains -/

/-- Where control goes after the instruction `i` at position `pc`. -/
def nextPc (code : List Insn) (pc : ℕ) (i : Insn) (fl : Flags) : Option ℕ :=
  match i.jumpsTo fl with
  | none => some (pc + 1)
  | some n => code.findIdx? (Insn.isLabel n)

/-- One step of the execution of a chain. -/
def next (E : Ext) (code : List Insn) (c : ℕ × State) : Option (ℕ × State) :=
  match code[c.1]? with
  | none => none
  | some i =>
    if i.legal then (nextPc code c.1 i c.2.flags).map fun pc ↦ (pc, i.effect E c.2) else none

/-- The chain runs from its beginning in `s` to its end, where the state is `t`. -/
def Exec (E : Ext) (code : List Insn) (s t : State) : Prop :=
  StateTransition.Reaches (next E code) (0, s) (code.length, t)

/-! ## Completed runs -/

section Runs

variable {E : Ext} {code : List Insn} {s t u : State}

theorem next_length : next E code (code.length, s) = none := by
  simp [next]

/-- A chain ends in at most one state. -/
theorem Exec.unique (ht : Exec E code s t) (hu : Exec E code s u) : t = u := by
  have mem (v : State) (h : Exec E code s v) :
      (code.length, v) ∈ StateTransition.eval (next E code) (0, s) :=
    StateTransition.mem_eval.mpr ⟨h, next_length⟩
  simpa using Part.mem_unique (mem t ht) (mem u hu)

/-- The state after all instructions of a list, one after the other. -/
def effects (E : Ext) (code : List Insn) (s : State) : State := code.foldl (fun s i ↦ i.effect E s) s

/-- Code that is legal and has no jumps is executed instruction by instruction. -/
theorem exec_foldl (hlegal : ∀ i ∈ code, i.legal = true)
    (hjump : ∀ i ∈ code, ∀ fl, i.jumpsTo fl = none) (s : State) :
    Exec E code s (code.foldl (fun s i ↦ i.effect E s) s) := by
  -- after `n` instructions, what is left to do is the rest of the fold
  suffices h : ∀ n ≤ code.length, StateTransition.Reaches (next E code) (0, s)
      (n, (code.take n).foldl (fun s i ↦ i.effect E s) s) by
    have hend := h code.length le_rfl
    rwa [List.take_length] at hend
  intro n hn
  induction n with
  | zero => exact .refl
  | succ n ih =>
    refine (ih (by omega)).tail ?_
    have hn' : n < code.length := hn
    have hmem : code[n] ∈ code := List.getElem_mem hn'
    rw [List.take_succ_eq_append_getElem hn', List.foldl_append, Option.mem_def, next]
    simp only [List.getElem?_eq_getElem hn', hlegal _ hmem, nextPc, hjump _ hmem]
    rfl

end Runs

end DrAvx
