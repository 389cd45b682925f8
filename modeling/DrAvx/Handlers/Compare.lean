import DrAvx.Rewrite.Vocabulary

/-!
# Handlers of the comparisons into opmask registers

Of the eight predicates of `vpcmpd`, `vpcmpud` and `vpcmpw` only the ones listed in the dispatchers
are supported, and only for 256-bit operands.
-/

set_option autoImplicit false

namespace DrAvx

/-! ## The loop

The comparisons work through the lanes one by one.  The operands are at `rsp` and `rsp + 32`, the
lane number is in `rbx`, and the result is collected in `r9`.  Only the masked variants look at the
mask; a lane that is masked out keeps the bit that `r9` had before. -/

def compareEnter : List TInsn :=
  [push rbx, push rcx, push r9, push r10, push r11, push r12, push r13, push r14, pushf,
    rmw .sub (reg64 rsp) (.imm 64 4)]

def compareLeave : List TInsn :=
  [rmw .add (reg64 rsp) (.imm 64 4), popf, pop r14, pop r13, pop r12, pop r11, pop r10, pop r9,
    pop rcx, pop rbx]

/-- Starts with the mask in the destination. -/
def keepMask : TInsn := ins .movLd (reg64 r9) [.kslot .d0 8]

/-- Starts with all bits cleared. -/
def clearMask : TInsn := rmw .xor (reg32 r9) (reg32 r9)

/-- Compares lane `rbx`. -/
def compareLane : List TInsn :=
  [ins .movLd (reg32 r13) [stkAt rbx 4 0 4], ins .movLd (reg32 r14) [stkAt rbx 4 32 4],
    ins0 .cmp [reg32 r13, reg32 r14]]

/-- Goes to the next of `n` lanes. -/
def nextLane (n : ℤ) : List TInsn :=
  [ins .inc (reg32 rbx) [reg32 rbx], ins0 .cmp [reg32 rbx, .imm n 4], jcc .l 0]

/-- Without a mask: the bit is set where the comparison satisfies the condition. -/
def compareLoop (c : Cond) : List TInsn :=
  [rmw .xor (reg32 rbx) (reg32 rbx), lbl 0] ++ compareLane ++
  [jcc c 1, rmw .btr (reg32 r9) (reg32 rbx)] ++ nextLane 8 ++
  [jmp 2, lbl 1, rmw .bts (reg32 r9) (reg32 rbx)] ++ nextLane 8 ++
  [lbl 2, rmw .and (reg32 r9) (.imm 255 4), ins .movSt (.kslot .d0 8) [reg64 r9]] ++ compareLeave

/-- Is lane `rbx` masked out?  The mask is in `r11`. -/
def maskedOut : List TInsn :=
  [ins .movImm (reg32 r12) [.imm 1 4], ins .movLd (reg8 rcx) [reg8 rbx],
    rmw .shl (reg32 r12) (reg8 rcx), ins0 .test [reg32 r12, reg32 r11], jcc .z 1]

/-- The end of the masked loop over eight lanes. -/
def endMasked (c : Cond) : List TInsn :=
  compareLane ++ [jcc c 2, rmw .btr (reg32 r9) (reg32 rbx), lbl 1] ++ nextLane 8 ++
  [jmp 3, lbl 2, rmw .bts (reg32 r9) (reg32 rbx)] ++ nextLane 8 ++
  [lbl 3, rmw .and (reg32 r9) (.imm 255 4), ins .movSt (.kslot .d0 8) [reg64 r9]] ++ compareLeave

/-- With a mask. -/
def compareLoopMasked (c : Cond) : List TInsn :=
  [rmw .xor (reg32 rbx) (reg32 rbx), ins .movLd (reg64 r10) [.kslot .s0 8], lbl 0,
    ins .movLd (reg64 r11) [reg64 r10]] ++
  maskedOut ++ endMasked c

/-- The operands are a register and memory. -/
def compareLoadMem (a : Role) : List TInsn :=
  compareEnter ++
  [ins .vmovdqu (stk 0 32) [.app .s2], save .ymm a, ins .vmovdqu (ymm a) [.app .s3],
    ins .vmovdqu (stk 32 32) [ymm a], restore .ymm a]

/-- The operands are registers that need no spilling. -/
def compareLoadRegs : List TInsn :=
  compareEnter ++ [ins .vmovdqu (stk 0 32) [.app .s2], ins .vmovdqu (stk 32 32) [.app .s3]]

/-! ## `vpcmpd` -/

def rwFuncVpcmpdNLEYmmM256 : Gen :=
  needSpill1 .ymm .s2 fun
    | false =>
      emit [] <|
        compareEnter ++
        [ins .vmovdqu (stk 0 32) [ymm s2], save .ymm spill0, ins .vmovdqu (ymm spill0) [.app .s3],
          ins .vmovdqu (stk 32 32) [ymm spill0], restore .ymm spill0,
          keepMask] ++
        compareLoopMasked .nle
    | true => .null 1

def rwFuncVpcmpdNLEYmmYmm : Gen :=
  needSpill1 .ymm .s2 fun
    | false =>
      needSpill1 .ymm .s3 fun
        | false =>
          emit [] <|
            compareEnter ++
            [ins .vmovdqu (stk 0 32) [ymm s2], ins .vmovdqu (stk 32 32) [ymm s3], clearMask,
              rmw .xor (reg32 rbx) (reg32 rbx), ins .movLd (reg64 r10) [.kslot .s0 8],
              ins .movLd (reg64 r11) [reg64 r10], lbl 0] ++
            maskedOut ++ endMasked .nle
        | true => .null 1
    | true => .null 1

def rwFuncVpcmpdNEQYmmYmm : Gen :=
  needSpill2 .ymm .s2 .s3 fun
    | false, false =>
      ifQ (.isK .s0 0)
        (emit [] <|
           compareLoadRegs ++ [clearMask] ++
           compareLoop .nz)
        (emit [] <|
           compareLoadRegs ++ [clearMask] ++
           compareLoopMasked .nz)
    | true, false =>
      ifQ (.isK .s0 0)
        (emit [[s3]] <|
           compareEnter ++
           [save .ymm t0, ldSlot .ymm t0 s2, ins .vmovdqu (stk 0 32) [ymm t0], restore .ymm t0,
             ins .vmovdqu (stk 32 32) [.app .s3], clearMask] ++
           [rmw .xor (reg32 rbx) (reg32 rbx), lbl 0] ++ compareLane ++
           -- here the last jump of the loop comes after the label behind it
           [jcc .nz 1, rmw .btr (reg32 r9) (reg32 rbx)] ++ nextLane 8 ++
           [jmp 2, lbl 1, rmw .bts (reg32 r9) (reg32 rbx), ins .inc (reg32 rbx) [reg32 rbx],
             ins0 .cmp [reg32 rbx, .imm 8 4], lbl 2, jcc .l 0, rmw .and (reg32 r9) (.imm 255 4),
             ins .movSt (.kslot .d0 8) [reg64 r9]] ++
           compareLeave)
        (emit [] <|
           compareEnter ++
           [save .ymm spill0, ldSlot .ymm spill0 s2, ins .vmovdqu (stk 0 32) [ymm spill0],
             ins .vmovdqu (stk 32 32) [.app .s3], restore .ymm spill0,
             clearMask] ++
           compareLoopMasked .nz)
    | _, _ => .null 1

def rwFuncVpcmpdLEYmmM256 : Gen :=
  needSpill1 .ymm .s2 fun
    | false =>
      ifQ (.isK .s0 0)
        (emit [[s2]] <|
           compareLoadMem t0 ++ [keepMask] ++ compareLoop .le)
        (emit [] <|
           compareLoadMem spill0 ++ [keepMask] ++ compareLoopMasked .le)
    | true => .null 1

def rwFuncVpcmpdLEYmmYmm : Gen :=
  needSpill1 .ymm .s2 fun
    | false =>
      emit [] <|
        compareLoadRegs ++ [keepMask] ++
        compareLoopMasked .le
    | true => .null 1

def rwFuncVpcmpdEQYmmM256 : Gen :=
  needSpill1 .ymm .s2 fun
    | false =>
      ifQ (.isK .s0 0)
        (emit [[s2]] <|
           compareLoadMem t0 ++ [keepMask] ++ compareLoop .z)
        (emit [[s2]] <|
           compareLoadMem t0 ++ [keepMask] ++ compareLoopMasked .z)
    | true =>
      emit [] <|
        compareEnter ++ saves .ymm [spill0, spill1] ++
        [ldSlot .ymm spill0 s2, ins .vmovdqu (stk 0 32) [ymm spill0],
          ins .vmovdqu (ymm spill1) [.app .s3], ins .vmovdqu (stk 32 32) [ymm spill1],
          restore .ymm spill0, ins .movLd (ymm spill1) [.slot spill1 false 32],
          keepMask] ++
        compareLoopMasked .z

def rwFuncVpcmpdEQYmmYmm : Gen :=
  needSpill2 .ymm .s2 .s3 fun
    | false, false =>
      ifQ (.isK .s0 0)
        (emit [] <|
           compareLoadRegs ++ [keepMask] ++
           compareLoop .z)
        (emit [] <|
           compareLoadRegs ++ [clearMask] ++
           compareLoopMasked .z)
    | true, false =>
      ifQ (.isK .s0 0)
        (emit [[s3]] <|
           compareEnter ++
           [save .ymm t0, ldSlot .ymm t0 s2, ins .vmovdqu (stk 0 32) [ymm t0], restore .ymm t0,
             ins .vmovdqu (stk 32 32) [.app .s3], clearMask] ++
           compareLoop .z)
        (emit [[s3]] <|
           compareEnter ++
           [save .ymm t0, ldSlot .ymm t0 s2, ins .vmovdqu (stk 0 32) [ymm t0],
             ins .vmovdqu (stk 32 32) [.app .s3], restore .ymm t0,
             keepMask] ++
           compareLoopMasked .z)
    | false, true =>
      emit [[s2]] <|
        compareEnter ++
        [save .ymm t0, ldSlot .ymm t0 s3, ins .vmovdqu (stk 0 32) [.app .s2],
          ins .vmovdqu (stk 32 32) [ymm t0], restore .ymm t0,
          keepMask] ++
        compareLoopMasked .z
    | true, true =>
      emit [] <|
        compareEnter ++
        [save .ymm spill0, ldSlot .ymm spill0 s2, save .ymm spill1, ldSlot .ymm spill1 s3,
          ins .vmovdqu (stk 0 32) [ymm spill0], ins .vmovdqu (stk 32 32) [ymm spill1]] ++
        restores .ymm [spill0, spill1] ++ [keepMask] ++
        compareLoopMasked .z

/-- The dispatch of `vpcmpd` for one predicate. -/
def vpcmpdGen (regReg regMem : Gen) : Gen :=
  byWidth .s2 unsupported (onKind .s3 [(.reg, regReg), (.relAddr, regMem)]) unsupported

def rwFuncVpcmpd : Gen :=
  opnds [.s1, .s3] <|
  ifQ (.test .s1 (.isKind .immed))
    (regs [.s0, .d0, .s2] <|
     onImm .s1
       [(0, vpcmpdGen rwFuncVpcmpdEQYmmYmm rwFuncVpcmpdEQYmmM256),
        (2, vpcmpdGen rwFuncVpcmpdLEYmmYmm rwFuncVpcmpdLEYmmM256),
        (4, vpcmpdGen rwFuncVpcmpdNEQYmmYmm unsupported),
        (6, vpcmpdGen rwFuncVpcmpdNLEYmmYmm rwFuncVpcmpdNLEYmmM256)])
    .abort

/-! ## `vpcmpud`

The comparison for unsigned numbers jumps on the condition for signed ones. -/

def rwFuncVpcmpudNLEYmmYmm : Gen :=
  ifQ (.test .s3 (.isKind .reg))
    (needSpill1 .ymm .s2 fun
       | false =>
         needSpill1 .ymm .s3 fun
           | false =>
             ifQ (.isK .s0 0)
               (emit [[s2]] <|
                  compareLoadMem t0 ++ [clearMask] ++ compareLoop .nle)
               (emit [[s2]] <|
                  compareLoadMem t0 ++ [keepMask] ++
                  compareLoopMasked .nle)
           | true => .null 1
       | true => .null 1)
    (needSpill1 .ymm .s2 fun
       | false =>
         ifQ (.isK .s0 0)
           (emit [[s2]] <|
              compareLoadMem t0 ++ [clearMask] ++ compareLoop .nle)
           (emit [[s2]] <|
              compareLoadMem t0 ++ [keepMask] ++ compareLoopMasked .nle)
       | true => .null 1)

def rwFuncVpcmpudEQYmmYmm : Gen :=
  .null 1

def rwFuncVpcmpud : Gen :=
  opnds [.s1, .s3] <|
  ifQ (.test .s1 (.isKind .immed))
    (regs [.s0, .d0, .s2] <|
     onImm .s1
       [(0, byWidth .s2 unsupported rwFuncVpcmpudEQYmmYmm unsupported),
        (6, byWidth .s2 unsupported rwFuncVpcmpudNLEYmmYmm unsupported)])
    .abort

/-! ## `vpcmpw` -/

/-- Sixteen lanes.  `set` is the register whose number is the bit that is set. -/
def vpcmpwGen (c : Cond) (set : GRole) : Gen :=
  needSpill1 .ymm .s2 fun
    | false =>
      needSpill1 .ymm .s3 fun
        | false =>
          emit [] <|
            compareLoadRegs ++
            [keepMask, rmw .xor (reg32 rbx) (reg32 rbx), ins .movLd (reg16 r10) [.kslot .s0 2],
              lbl 0, ins .movLd (reg64 r11) [reg64 r10]] ++
            maskedOut ++
            [ins .movzx (reg32 r13) [stkAt rbx 2 0 2], ins .movzx (reg32 r14) [stkAt rbx 2 32 2],
              ins0 .cmp [reg32 r13, reg32 r14], jcc c 2, rmw .btr (reg32 r9) (reg32 rbx), lbl 1] ++
            nextLane 16 ++ [jmp 3, lbl 2, rmw .bts (reg32 r9) (reg32 set)] ++ nextLane 16 ++
            [lbl 3, rmw .and (reg32 r9) (.imm 65535 4), ins .movSt (.kslot .d0 2) [reg16 r9]] ++
            compareLeave
        | true => .null 1
    | true => .null 1

/-- The bit that is set is the one with the number in `r12`, not in `rbx`. -/
def rwFuncVpcmpwNEQYmmYmm : Gen := vpcmpwGen .nz r12
def rwFuncVpcmpwEQYmmYmm : Gen := vpcmpwGen .z rbx

def rwFuncVpcmpw : Gen :=
  opnds [.s1] <|
  ifQ (.test .s1 (.isKind .immed))
    (regs [.s0, .d0, .s2, .s3] <|
     onImm .s1
       [(0, byWidth .s2 unsupported rwFuncVpcmpwEQYmmYmm unsupported),
        (4, byWidth .s2 unsupported rwFuncVpcmpwNEQYmmYmm unsupported)])
    .abort

end DrAvx
