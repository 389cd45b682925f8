import DrAvx.Emulation.Judge
import DrAvx.Handlers.Shuffle

/-!
# Broadcasts from a general purpose register

There are twelve generators, one for each element size and each width of the destination.  They were
copied from one another, and the changes made to the copies differ: some do not spill the upper
registers, some ask whether a 512-bit register is one of the upper 256-bit registers, one uses a
256-bit register with a slot of 16 bytes, one copies the result to a scratch register it has not
saved, and one leaves the instruction as it is, with another width.  Each of the twelve is right for
all destinations, for the lower or the upper ones only, or for none.

## What is here

* `Element`, `broadcastInstr`: the element sizes and the instructions.
* `value_wantBroadcast`: what the instructions of the host compute.
* `Element.broadcast_writes_iff`: the destinations for which each generator is right.
-/

set_option autoImplicit false

namespace DrAvx

open Straight Bits

/-! ## Instructions -/

/-- The sizes of the elements that are broadcast. -/
inductive Element
  | byte | word | dword | qword
  deriving DecidableEq, Repr

namespace Element

def bits : Element → ℕ
  | byte => 8
  | word => 16
  | dword => 32
  | qword => 64

/-- The size of the source register: only a quadword takes a 64-bit one. -/
def gprSize : Element → GprSize
  | qword => .q
  | _ => .d

/-- The handler of the instruction. -/
def broadcastFunc : Element → Gen
  | byte => rwFuncVpbroadcastb
  | word => rwFuncVpbroadcastw
  | dword => rwFuncVpbroadcastd
  | qword => rwFuncVpbroadcastq

/-- The instruction of the host that broadcasts the lowest element of a vector. -/
def broadcastOp : Element → Op
  | byte => .vpbroadcastb
  | word => .vpbroadcastw
  | dword => .vpbroadcastd
  | qword => .vpbroadcastq

/-- The instruction of the host that takes the source to a vector register. -/
def moveOp : Element → Op
  | qword => .vmovq
  | _ => .vmovd

end Element

/-- `vpbroadcast{b,w,d,q} d {k0}, g`. -/
def broadcastInstr (k : Element) (w : VecWidth) (d : VReg) (g : Gpr) (z : Bool) : AppInstr :=
  ⟨[.vec w d], [.opmask 0, .gpr k.gprSize g], z⟩

theorem like_broadcastInstr {fixed : List VReg} (π : Renaming fixed) (k : Element) (w : VecWidth)
    (d : VReg) (g g' : Gpr) (z z' : Bool) :
    (broadcastInstr k w d g z).Like π (broadcastInstr k w (π d) g' z') :=
  AppInstr.like_of_forall₂ (.cons (Opnd.like_vec π w d) .nil) (.cons (Opnd.like_opmask π 0) <|
    .cons (Opnd.like_gpr π k.gprSize g g') .nil) z z'

/-! ## The result -/

/-- The result of the instructions of the host in either half. -/
def wantBroadcast (k : Element) (w : VecWidth) : Halves :=
  let t : Term (Loc VReg) TOpnd VOp := .un (.op k.broadcastOp w.lowBytes false)
    (.un (.low 16) (.un (.op k.moveOp 16 false) (.inp (.app .s1))))
  (t, t)

theorem value_wantBroadcast {fixed : List VReg} (π : Renaming fixed) (E : Ext) {e : Env} (s : State)
    (k : Element) (w : VecWidth) {d : VReg} {g : Gpr} {z : Bool}
    (he : e.instr = broadcastInstr k w d g z) :
    (wantBroadcast k w).value w E e π s = fill (8 * w.bytes) ((s.gpr g).setWidth k.bits) := by
  have hinp : (symAlgebra E e s).inp (.app .s1) = low k.gprSize.bytes ((s.gpr g).setWidth 256) :=
    congrArg (fun i : AppInstr ↦ (s.put fun _ ↦ 0).read 4 ((i.opnd? .s1).getD .null)) he
  have hlane : lane k.bits 0 (low 16 (low 8 (low k.gprSize.bytes ((s.gpr g).setWidth 256)))) =
      (s.gpr g).setWidth k.bits := by
    refine BitVec.eq_of_getLsbD_eq fun j hj ↦ ?_
    rw [getLsbD_lane, getLsbD_low, getLsbD_low, getLsbD_low, BitVec.getLsbD_setWidth,
      BitVec.getLsbD_setWidth]
    cases k <;> simp only [Element.bits, Element.gprSize, GprSize.bytes] at hj ⊢ <;>
      simp [hj, show j < 128 by omega, show j < 64 by omega, show j < 256 by omega] <;> omega
  have hpos : 0 < k.bits := by cases k <;> decide
  have hdvd : k.bits * (128 / k.bits) = 128 := by cases k <;> rfl
  rw [← VecWidth.assemble_fill hpos hdvd, ← hlane, ← hinp]
  cases k <;> rfl

/-! ## The verdict -/

/-- The destinations for which the generator is right. -/
def Element.broadcasts (k : Element) (w : VecWidth) (d : VReg) : Bool :=
  match k, w with
  | byte, .zmm => false
  | byte, .ymm | word, .xmm | dword, .ymm | qword, _ => true
  | byte, .xmm | word, .ymm | dword, .xmm | dword, .zmm => !d.high
  | word, .zmm => d.high

/-- A state in which no location holds zero. -/
def ones (_ : Loc VReg) : Val := 1

theorem broadcast_judged (k : Element) (w : VecWidth) : ∀ d ∈ canon [10, 11] 0 [],
    k.broadcastFunc.judge [10, 11] (broadcastInstr k w d .rax false) w (some w) d (wantBroadcast k w) ones =
      if k.broadcasts w d then .right else .wrong := by
  cases k <;> cases w <;> decide +kernel

theorem Element.broadcasts_apply {fixed : List VReg} (π : Renaming fixed) (k : Element)
    (w : VecWidth) (d : VReg) : k.broadcasts w (π d) = k.broadcasts w d := by
  cases k <;> cases w <;> simp only [broadcasts, π.high_apply]

theorem Element.broadcast_writes_iff (k : Element) (c : Context) (w : VecWidth) (d : VReg) (g : Gpr)
    (z : Bool) : k.broadcastFunc.Writes c (broadcastInstr k w d g z) w (some w) d
      (fun s ↦ fill (8 * w.bytes) ((s.gpr g).setWidth k.bits)) ↔ k.broadcasts w d = true := by
  obtain ⟨π, d, hd, rfl⟩ := exists_renaming1 (by decide : ∀ r ∈ [(10 : VReg), 11], r ∈ spillPool) d
  rw [k.broadcasts_apply π]
  exact Gen.writes_iff (like_broadcastInstr π k w d .rax g false z) (broadcast_judged k w d hd)
    (fun E e he s ↦ (value_wantBroadcast π E s k w he).symm) c

/-- Every generator leaves the broadcast element in the destination, and the other registers as they
were, for the destinations given and for no others. -/
theorem vpbroadcast_writes_iff (k : Element) (c : Context) (w : VecWidth) (d : VReg) (g : Gpr)
    (z : Bool) : k.broadcastFunc.Writes c (broadcastInstr k w d g z) w (some w) d
      (fun s ↦ fill (8 * w.bytes) ((s.gpr g).setWidth k.bits)) ↔
    match k, w with
    | .byte, .zmm => False
    | .byte, .ymm | .word, .xmm | .dword, .ymm | .qword, _ => True
    | .byte, .xmm | .word, .ymm | .dword, .xmm | .dword, .zmm => d.high = false
    | .word, .zmm => d.high = true := by
  rw [k.broadcast_writes_iff]
  cases k <;> cases w <;> simp [Element.broadcasts]

/-- `vpbroadcastw zmm0, eax` overwrites a scratch register it has not saved. -/
theorem not_writes_vpbroadcastw_zmm0 :
    ¬rwFuncVpbroadcastw.Writes ⟨false, fun _ ↦ 0⟩ (broadcastInstr .word .zmm 0 .rax false) .zmm (some .zmm) 0
      (fun s ↦ fill 512 ((s.gpr .rax).setWidth 16)) := by
  refine (Element.broadcast_writes_iff .word _ .zmm 0 .rax false).not.mpr ?_
  decide

end DrAvx
