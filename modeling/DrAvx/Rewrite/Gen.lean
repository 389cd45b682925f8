import DrAvx.Decision.Basic
import DrAvx.Rewrite.Template

/-!
# Handlers as decisions

A handler asks a number of questions about the instruction it is given and then either gives up or
emits a template.  So a handler is a decision tree: a question, with the rest of the handler for
either answer.  Written with a function for the rest, it reads like the `switch` it stands for, and
unlike a plain function of the instruction it can be walked: the instruction enters only through the
answers, so what holds at every leaf holds of every instruction.

What a handler does to the list around it is in the leaf, too: how often it unlinks the instruction,
and whether the chain it returns is doubly linked.  A few handlers link their chain by assigning the
`next` field alone.
-/

set_option autoImplicit false

namespace DrAvx

/-! ## Classes of operands -/

/-- The kinds of operands, `opnd.kind`. -/
inductive Kind
  | reg | baseDisp | relAddr | absAddr | immed
  deriving DecidableEq

/-- What the tests on a single operand can tell about it. -/
inductive OpndClass
  /-- there is no operand at the position -/
  | absent
  | vec (w : VecWidth) (high : Bool)
  | gpr (sz : GprSize)
  | opmask
  | baseDisp (bytes : ℕ)
  /-- a base-displacement operand with a vector register as its index, with or without a base -/
  | vsib (w : VecWidth) (high based : Bool) (bytes : ℕ)
  | relAddr (bytes : ℕ)
  | absAddr (bytes : ℕ)
  /-- a sign-extended immediate -/
  | immed (bytes : ℕ)
  /-- anything the decoder does not deliver -/
  | other
  deriving DecidableEq

def Opnd.cls : Opnd → OpndClass
  | .vec w r => .vec w r.high
  | .gpr sz _ => .gpr sz
  | .opmask _ => .opmask
  | .mem _ (.baseDisp _ bs (.vec w r) _ _) b => .vsib w r.high bs.isSome b
  | .mem _ (.baseDisp _ _ _ _ _) b => .baseDisp b
  | .mem _ (.rel _ _) b => .relAddr b
  | .mem _ (.abs _ _) b => .absAddr b
  | .imm v b => if -2 ^ (8 * b - 1) ≤ v ∧ v < 2 ^ (8 * b - 1) then .immed b else .other
  | .null | .zslot _ _ _ | .kslot _ _ | .rslot _ _ | .label _ => .other

/-- The class of the operand at a position. -/
def AppInstr.cls (i : AppInstr) (p : Pos) : OpndClass := ((i.opnd? p).map Opnd.cls).getD .absent

namespace OpndClass

def kind : OpndClass → Option Kind
  | vec _ _ | gpr _ | opmask => some .reg
  | baseDisp _ | vsib _ _ _ _ => some .baseDisp
  | relAddr _ => some .relAddr
  | absAddr _ => some .absAddr
  | immed _ => some .immed
  | absent | other => none

/-- The size of an operand as `opnd_get_size` reports it. -/
def bytes : OpndClass → ℕ
  | vec w _ => w.bytes
  | gpr sz => sz.bytes
  | opmask => 8
  | baseDisp b | vsib _ _ _ b | relAddr b | absAddr b | immed b => b
  | absent | other => 0

end OpndClass

/-! ## Questions -/

/-- A test on a single operand.  The handlers make all of them but the last two. -/
inductive Test
  /-- is there an operand? -/
  | exists
  | isKind (k : Kind)
  /-- `opnd_is_memory_reference` -/
  | isMem
  /-- `IS_XMM_REG`, `IS_YMM_REG` or `IS_ZMM_REG` -/
  | isVec (w : VecWidth)
  /-- `IS_64GPR_REG`, `IS_32GPR_REG` and so on -/
  | isGpr (sz : GprSize)
  /-- `IS_MASK_REG` -/
  | isMask
  /-- `NEED_SPILL_XMM` and its copies: is it one of the upper sixteen registers of this width? -/
  | needSpill (w : VecWidth)
  /-- is the operand of so many bytes? -/
  | hasSize (bytes : ℕ)
  /-- has the memory a base register besides the vector of indices? -/
  | hasBase
  /-- is the vector of indices one of the upper sixteen registers? -/
  | indexHigh
  deriving DecidableEq

def Test.holds (c : OpndClass) : Test → Bool
  | .exists => c != .absent
  | isKind k => c.kind == some k
  | isMem => match c with
    | .baseDisp _ | .vsib _ _ _ _ | .relAddr _ | .absAddr _ => true
    | _ => false
  | isVec w => match c with
    | .vec w' _ => w' == w
    | _ => false
  | isGpr sz => c == .gpr sz
  | isMask => c == .opmask
  | needSpill w => c == .vec w true
  | hasSize b => c.bytes == b
  | hasBase => match c with
    | .vsib _ _ based _ => based
    | _ => false
  | indexHigh => match c with
    | .vsib _ high _ _ => high
    | _ => false

/-- A register has to be spilled in if it is one of the upper sixteen. -/
theorem needSpill_vec (w : VecWidth) (r : VReg) :
    (Test.needSpill w).holds (Opnd.vec w r).cls = r.high := by
  cases h : r.high <;> simp [Test.holds, Opnd.cls, h]

/-- A question that a handler asks. -/
inductive Query
  | test (p : Pos) (t : Test)
  /-- are the operands the same register? -/
  | same (p q : Pos)
  /-- do the operands have the same register number, whatever their widths? -/
  | sameIndex (p q : Pos)
  /-- is the operand the xmm register `XMM_SPILL_SLOTn`? -/
  | isSpill (p : Pos) (n : ℕ)
  /-- is the opmask register the given one? -/
  | isK (p : Pos) (k : KReg)
  /-- `is_avx512_zero_mask` -/
  | zeroMask
  /-- is the immediate the given value? -/
  | immIs (p : Pos) (v : ℤ)
  /-- is the immediate at most the given value? -/
  | immLe (p : Pos) (v : ℤ)
  /-- is the base register of the memory operand the given one? -/
  | baseIs (p : Pos) (r : Gpr)
  /-- the runtime option `quick_rw` -/
  | quickRw
  /-- does the slot of the opmask register hold the given value when the block is rewritten? -/
  | kslotIs (p : Pos) (v : ℕ)
  deriving DecidableEq

/-- What a handler can see besides the instruction. -/
structure Context where
  quickRw : Bool
  kslots : KReg → ℕ

/-- The answer to a question. -/
def Query.answer (c : Context) (i : AppInstr) : Query → Bool
  | test p t => t.holds (i.cls p)
  | same p q => i.opnd p == i.opnd q
  | sameIndex p q => (i.opnd p).vreg == (i.opnd q).vreg
  | isSpill p n => i.opnd p == .vec .xmm (Fin.ofNat 32 (10 + n))
  | isK p k => i.opnd p == .opmask k
  | zeroMask => i.zeroMask
  | immIs p v => (i.opnd p).immVal == v
  | immLe p v => decide ((i.opnd p).immVal ≤ v)
  | baseIs p r => (i.opnd p).base == some r
  | quickRw => c.quickRw
  | kslotIs p v => c.kslots (i.opnd p).kreg == v

/-! ## Handlers -/

/-- How a handler ends. -/
inductive Leaf
  /-- an assertion fails, or a null pointer is dereferenced -/
  | abort
  /-- returns null, having unlinked the instruction so many times -/
  | null (removed : ℕ)
  /-- returns a chain, having unlinked the instruction so many times; `linked` says whether the
  `prev` fields of the chain are set -/
  | chain (removed : ℕ) (linked : Bool) (T : Template)

/-- A handler, or a generator that a handler calls. -/
abbrev Gen := Decision.Tree Query Leaf

/-- What comes out of a handler. -/
inductive Outcome
  | abort
  | null (removed : ℕ)
  /-- a scratch register was needed and the pool was exhausted -/
  | exhausted
  | chain (removed : ℕ) (linked : Bool) (code : List Insn)
  deriving DecidableEq

/-- The outcome for an instruction that leads to the leaf. -/
def Leaf.run (i : AppInstr) : Leaf → Outcome
  | abort => .abort
  | null n => .null n
  | chain n l T => match T.emit i with
    | some code => .chain n l code
    | none => .exhausted

namespace Gen

def abort : Gen := .leaf .abort
def null (removed : ℕ) : Gen := .leaf (.null removed)

/-- The outcome of a handler on an instruction. -/
def run (c : Context) (i : AppInstr) (g : Gen) : Outcome := (g.eval (Query.answer c i)).run i

end Gen

end DrAvx
