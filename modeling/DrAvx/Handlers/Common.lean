import DrAvx.Rewrite.Vocabulary

/-!
# Patterns of generators

The rewriter has a generator for every opcode, width and form of the operands.  Many of them are
copies of one another up to the opcode and the width; the patterns that occur in several of the
modules below are collected here.
-/

set_option autoImplicit false

namespace DrAvx

/-! ## Moves -/

section Moves

variable (op : Op) (w : VecWidth)

/-- A load into a register that may have to be spilled in. -/
def loadGen : Gen :=
  needSpill1 w .d0 fun
    | false => emit [] [ins op (.v w d0) [.app .s1]]
    | true => emit [] <| borrow w [spill0] [ins op (.v w spill0) [.app .s1], stSlot w d0 spill0]

/-- A store from a register that may have to be spilled in. -/
def storeGen : Gen :=
  needSpill1 w .s1 fun
    | false => emit [] [ins op (.app .d0) [.v w s1]]
    | true => emit [] <| borrow w [spill0] [ldSlot w spill0 s1, ins op (.app .d0) [.v w spill0]]

/-- A load that takes the destination register as it is. -/
def plainLoadGen : Gen := emit [] [ins op (.v w d0) [.app .s1]]

/-- A move between registers. -/
def reg2regGen : Gen :=
  needSpill2 w .s1 .d0 fun
    | false, false => emit [] [ins op (.v w d0) [.v w s1]]
    | true, false => emit [[d0]] <| borrow w [t0] [ldSlot w t0 s1, ins op (.v w d0) [.v w t0]]
    | false, true => emit [[s1]] <| borrow w [t0] [ins op (.v w t0) [.v w s1], stSlot w d0 t0]
    | true, true =>
      emit [] <|
        borrow w [spill0]
          [ldSlot w spill0 s1, ins op (.v w spill0) [.v w spill0], stSlot w d0 spill0]

end Moves

/-! ## Operations on three registers

Most lane-wise handlers were written after one pattern, case by case over the registers that have to
be spilled in, and some of them share only a few of the cases. -/

section ThreeRegisters

variable (op : Op) (w : VecWidth)

/-- Only the first source has to be spilled in. -/
def spilledSrc1 : Gen :=
  ifQ (.same .d0 .s2)
    (emit [[s2]] <| borrow w [t0] [ldSlot w t0 s1, vop op w d0 t0 s2])
    (emit [[s2, d0]] <| borrow w [t0] [ldSlot w t0 s1, vop op w d0 t0 s2])

/-- Only the second source has to be spilled in. -/
def spilledSrc2 : Gen :=
  ifQ (.same .d0 .s1)
    (emit [[s2]] <| borrow w [t0] [ldSlot w t0 s2, vop op w d0 s1 t0])
    (emit [[s1, d0]] <| borrow w [t0] [ldSlot w t0 s2, vop op w d0 s1 t0])

/-- All three registers have to be spilled in. -/
def spilled3 : Gen :=
  ifQ (.same .d0 .s1)
    (ifQ (.same .d0 .s2)
       (emit [] <|
          borrow w [spill0]
            [ldSlot w spill0 s1, vop op w spill0 spill0 spill0, stSlot w d0 spill0])
       (emit [] <|
          borrow w [spill0, spill1]
            [ldSlot w spill0 s1, ldSlot w spill1 s2, vop op w spill0 spill0 spill1,
              stSlot w d0 spill0]))
    (ifQ (.same .d0 .s2)
       (emit [] <|
          borrow w [spill0, spill1]
            [ldSlot w spill0 s1, ldSlot w spill1 s2, vop op w spill1 spill0 spill1,
              stSlot w d0 spill1])
       (emit [] <|
          borrow w [spill0, spill1]
            [ldSlot w spill0 s1, ldSlot w spill1 s2, vop op w spill0 spill0 spill1,
              stSlot w d0 spill0]))

/-- The whole pattern. -/
def vop3Gen : Gen :=
  needSpill3 w .s1 .s2 .d0 fun
    | false, false, false => emit [] [vop op w d0 s1 s2]
    | true, false, false => spilledSrc1 op w
    | false, true, false => spilledSrc2 op w
    | true, true, false =>
      emit [] <|
        borrow w [spill0, spill1]
          [ldSlot w spill0 s1, ldSlot w spill1 s2, vop op w d0 spill0 spill1]
    | false, false, true => emit [] <| borrow w [spill0] [vop op w spill0 s1 s2, stSlot w d0 spill0]
    | true, false, true =>
      emit [] <|
        borrow w [spill0, spill1]
          [ldSlot w spill0 s1, vop op w spill1 spill0 s2, stSlot w d0 spill1]
    | false, true, true =>
      emit [] <|
        borrow w [spill0, spill1]
          [ldSlot w spill0 s2, vop op w spill1 s1 spill0, stSlot w d0 spill1]
    | true, true, true => spilled3 op w

end ThreeRegisters

end DrAvx
