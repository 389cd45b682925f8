import DrAvx.Handlers.Common

/-!
# Handlers of the integer moves

`vmovdqa32` and `vmovdqa64` share the generators of `vmovdqu32` and `vmovdqu64`.  The masked forms
are emulated for some widths and lane sizes only, each in its own way; where they are not, some
generators move the whole register and others give up.
-/

set_option autoImplicit false

namespace DrAvx

/-! ## Masks

The masked moves turn the opmask into a vector of lanes that are all ones or all zeros.  They put a
table on the stack whose lane `n` has bit `n` set, broadcast the opmask and test the bits.  An
opmask of zeros jumps to label 0, one of ones to label 1. -/

/-- Puts a table of quadwords on the stack. -/
def pushTable (g : GRole) (vs : List ℤ) : List TInsn :=
  vs.zipIdx.flatMap fun v ↦
    [ins .movImm (reg64 g) [.imm v.1 8], ins .movSt (stk (8 * v.2) 8) [reg64 g]]

/-- The tables for 64-bit lanes.  Each quadword has the bit twice, in both of its halves. -/
def bits4 : List ℤ := [0x100000001, 0x200000002, 0x400000004, 0x800000008]
def bits2 : List ℤ := [0x100000001, 0x200000002]

/-- The table for 32-bit lanes. -/
def bits8 : List ℤ := [0x200000001, 0x800000004, 0x2000000010, 0x8000000040]

/-- The table for 16-bit lanes. -/
def bits16 : List ℤ :=
  [0x0008000400020001, 0x0080004000200010, 0x0800040002000100, 0x8000400020001000]

/-- Reads the opmask and leaves if it is all zeros or all ones. -/
def testMask (g : GRole) (ones : ℤ) : List TInsn :=
  [ins .movLd (reg32 g) [.kslot .s0 4], ins0 .test [reg32 g, reg32 g], jcc .z 0,
    ins0 .cmp [reg32 g, .imm ones 4], jcc .z 1]

/-- Turns the opmask into the mask vector `b`, given the table in `a`. -/
def expandMask (w : VecWidth) (g : GRole) (a b : Role) : List TInsn :=
  [ins .movLd (reg32 g) [.kslot .s0 4], ins .vmovd (xmm b) [reg32 g],
    ins .vpbroadcastd (.v w b) [xmm b], vop .vpand w b b a, vop .vpcmpeqq w b b a]

/-- The mask vector of four 64-bit lanes in `b`. -/
def laneMaskYmm (a b c : Role) : List TInsn :=
  testMask rax 15 ++ saves .ymm [a, b, c] ++ [rmw .sub (reg64 rsp) (.imm 32 4)] ++
  pushTable rax bits4 ++ [ins .vmovdqu (ymm a) [stk 0 32], rmw .add (reg64 rsp) (.imm 32 4)] ++
  expandMask .ymm rax a b

/-- The mask vector of two 64-bit lanes in `b`. -/
def laneMaskXmm (a b c : Role) : List TInsn :=
  testMask rax 3 ++ saves .xmm [a, b, c] ++ [rmw .sub (reg64 rsp) (.imm 16 4)] ++
  pushTable rax bits2 ++ [ins .vmovdqu (xmm a) [stk 0 16], rmw .add (reg64 rsp) (.imm 16 4)] ++
  expandMask .xmm rax a b

/-- The first part of a masked move to or from memory: the table is in `t0`, but still on the stack,
too. -/
def laneBitsYmm : List TInsn :=
  testMask g0 15 ++ saves .ymm [t0, t1, t2, t3] ++ [rmw .sub (reg64 rsp) (.imm 32 4)] ++
  pushTable g0 bits4 ++ [ins .vmovdqu (ymm t0) [stk 0 32]]

/-- The second part: blends `b` into `a`. -/
def blendLanesYmm (a b : Role) : List TInsn :=
  [rmw .add (reg64 rsp) (.imm 32 4)] ++ expandMask .ymm g0 t0 t1 ++
  [ins .vpblendvb (ymm t3) [ymm a, ymm b, ymm t1]]

/-- A masked load of two 64-bit lanes into `a`. -/
def vmovdqu64XmmLoad (a : Role) : List TInsn :=
  testMask g0 3 ++ saves .xmm [t0, t1, t2, t3] ++ [rmw .sub (reg64 rsp) (.imm 16 4)] ++
  pushTable g0 bits2 ++
  [ins .vmovdqu (xmm t0) [stk 0 16], ins .vmovdqu (xmm t2) [.app .s1],
    rmw .add (reg64 rsp) (.imm 16 4)] ++
  expandMask .xmm g0 t0 t1 ++
  [ins .vpblendvb (xmm t3) [xmm a, xmm t2, xmm t1], ins .vmovdqu (xmm a) [xmm t3]] ++
  restores .xmm [t0, t1, t2, t3] ++ [jmp 0, lbl 1, ins .vmovdqu (xmm a) [.app .s1], lbl 0]

/-- A masked store of two 64-bit lanes from `a`. -/
def vmovdqu64XmmStore (a : Role) : List TInsn :=
  testMask rax 3 ++ saves .xmm [t0, t1, t2, t3] ++ [rmw .sub (reg64 rsp) (.imm 16 4)] ++
  pushTable rax bits2 ++
  [ins .vmovdqu (xmm t0) [stk 0 16], ins .vmovdqu (xmm t2) [.app .d0],
    rmw .add (reg64 rsp) (.imm 16 4)] ++
  expandMask .xmm rax t0 t1 ++
  [ins .vpblendvb (xmm t3) [xmm t2, xmm a, xmm t1], ins .vmovdqu (.app .d0) [xmm t3]] ++
  restores .xmm [t0, t1, t2, t3] ++ [jmp 0, lbl 1, ins .vmovdqu (.app .d0) [xmm a], lbl 0]

/-- Reads the mask of a byte move, leaves if it is all zeros or all ones, and reserves room for two
registers on the stack. -/
def vmovdqu8YmmEnter : List TInsn :=
  [push rax, push rcx, push rdx, pushf, ins .movLd (reg32 rdx) [.kslot .s0 4],
    ins0 .test [reg16 rdx, reg16 rdx], jcc .z 0, ins0 .cmp [reg32 rdx, .imm (-1) 4], jcc .z 1,
    rmw .sub (reg64 rsp) (.imm 64 4)]

def vmovdqu8XmmEnter : List TInsn :=
  [push rax, push rcx, push rdx, pushf, ins .movLd (reg16 rdx) [.kslot .s0 2],
    ins0 .test [reg16 rdx, reg16 rdx], jcc .z 0, ins0 .cmp [reg32 rdx, .imm 65535 4], jcc .z 1,
    rmw .sub (reg64 rsp) (.imm 32 4)]

def vmovdqu8Leave : List TInsn := [lbl 0, popf, pop rdx, pop rcx, pop rax]

/-- Copies the bytes whose mask bit is set from `rsp + 32` into `a`, byte by byte. -/
def vmovdqu8YmmLoop (a : Role) : List TInsn :=
  [ins .vmovdqu (stk 0 32) [ymm a], rmw .xor (reg64 rcx) (reg64 rcx), lbl 2,
    ins .movSt (reg32 rax) [reg32 rdx], ins0 .bt [reg32 rax, reg32 rcx], jcc .nb 3,
    ins .movLd (reg8 rax) [stkAt rcx 1 32 1], ins .movSt (stkAt rcx 1 0 1) [reg8 rax], lbl 3,
    ins .inc (reg64 rcx) [reg64 rcx], ins0 .cmp [reg64 rcx, .imm 32 4], jcc .l 2,
    ins .vmovdqu (ymm a) [stk 0 32]]

/-- Copies the bytes whose mask bit is set from `rsp + 16` to `rsp`, byte by byte. -/
def vmovdqu8XmmLoop : List TInsn :=
  [rmw .xor (reg64 rcx) (reg64 rcx), lbl 2, ins .movSt (reg32 rax) [reg32 rdx],
    ins0 .bt [reg32 rax, reg32 rcx], jcc .nb 3, ins .movLd (reg8 rax) [stkAt rcx 1 16 1],
    ins .movSt (stkAt rcx 1 0 1) [reg8 rax], lbl 3, ins .inc (reg64 rcx) [reg64 rcx],
    ins0 .cmp [reg64 rcx, .imm 16 4], jcc .l 2]

/-! ## 32-bit lanes -/

/-- Stores both halves of the source from its slot. -/
def storeHalves (a b : Role) : List TInsn :=
  borrow .ymm [a, b]
    [ldSlot .ymm a s1, ldHi b s1, ins .vmovdqu (.mem .d0 0 32) [ymm a],
      ins .vmovdqu (.mem .d0 32 32) [ymm b]]

def vmovdqu32YmmAbsaddr2regGen : Gen :=
  emit [] [ins .vmovdqu (.app .d0) [.app .s1]]

def vmovdqu32XmmAbsaddr2regGen : Gen := vmovdqu32YmmAbsaddr2regGen
def vmovdqu32YmmReladdr2regGen : Gen := plainLoadGen .vmovdqu .ymm

def vmovdqu32XmmReladdr2regGen : Gen :=
  needSpill1 .xmm .d0 fun
    | false => emit [] [ins .vmovdqu (xmm d0) [.app .s1]]
    | true =>
      regs [.s1] <|
      emit [[s1]] <| borrow .xmm [t0] [ins .vmovdqu (xmm t0) [.app .s1], stSlot .xmm d0 t0]

def vmovdqu32ZmmDisp2regGen : Gen :=
  ifQ (.test .s1 (.isKind .baseDisp))
    (needSpill1 .zmm .d0 fun
       | false =>
         emit [[d0]] <|
           borrow .ymm [t0]
             [ins .vmovdqu (ymm d0) [.mem .s1 0 32], ins .vmovdqu (ymm t0) [.mem .s1 32 32],
               stHi d0 t0]
       | true =>
         emit [] <|
           borrow .ymm [spill0]
             [ins .vmovdqu (ymm spill0) [.mem .s1 0 32], stSlot .ymm d0 spill0,
               ins .vmovdqu (ymm spill0) [.mem .s1 32 32], stHi d0 spill0])
    .abort

def vmovdqu32YmmDisp2regGen : Gen := loadGen .vmovdqu .ymm
def vmovdqu32XmmDisp2regGen : Gen := plainLoadGen .vmovdqu .xmm
def vmovdqu32YmmReg2reladdrGen : Gen := storeGen .vmovdqu .ymm

/-- A store that takes the source register as it is. -/
def plainStoreGen (w : VecWidth) : Gen :=
  emit [] [ins .vmovdqu (.app .d0) [.v w s1]]

def vmovdqu32XmmReg2reladdrGen : Gen := plainStoreGen .xmm

def vmovdqu32ZmmReg2dispGen : Gen :=
  ifQ (.test .d0 (.isKind .baseDisp))
    (needSpill1 .zmm .s1 fun
       | false =>
         emit [[s1]] <|
           borrow .ymm [t0]
             [ldHi t0 s1, restore .ymm s1, ins .vmovdqu (.mem .d0 0 32) [ymm s1],
               ins .vmovdqu (.mem .d0 32 32) [ymm t0]]
       | true => emit (fresh [] 2) <| storeHalves t0 t1)
    .abort

def vmovdqu32YmmReg2dispGen : Gen := storeGen .vmovdqu .ymm
def vmovdqu32XmmReg2dispGen : Gen := storeGen .vmovdqu .xmm

def vmovdqu32ZmmReg2regGen : Gen :=
  needSpill2 .zmm .s1 .d0 fun
    | false, false =>
      emit [[s1, d0]] <| borrow .ymm [t0] [ins .vmovdqu (ymm d0) [ymm s1], ldHi t0 s1, stHi d0 t0]
    | true, false =>
      emit [[d0]] <|
        borrow .ymm [t0]
          [ldSlot .ymm t0 s1, ins .vmovdqu (ymm d0) [ymm t0], ldHi t0 s1, stHi d0 t0]
    | false, true => emit [[s1]] <| borrow .ymm [t0] [stSlot .ymm d0 s1, ldHi t0 s1, stHi d0 t0]
    | true, true =>
      emit [] <|
        borrow .ymm [spill0]
          [ldSlot .ymm spill0 s1, stSlot .ymm d0 spill0, ldHi spill0 s1, stHi d0 spill0]

def vmovdqu32YmmReg2regGen : Gen :=
  needSpill2 .ymm .s1 .d0 fun
    | false, false =>
      ifQ (.isK .s0 0)
        (emit [] [ins .vmovdqu (ymm d0) [ymm s1]])
        (emit (fresh [s1, d0] 3) <|
           [push rax, pushf] ++ testMask rax 255 ++ saves .ymm [t0, t1, t2] ++
           [rmw .sub (reg64 rsp) (.imm 32 4)] ++ pushTable rax bits8 ++
           [ins .vmovdqu (ymm t0) [stk 0 32], rmw .add (reg64 rsp) (.imm 32 4),
             ins .movLd (reg32 rax) [.kslot .s0 4], ins .vmovd (xmm t1) [reg32 rax],
             ins .vpbroadcastd (ymm t1) [xmm t1], vop .vpand .ymm t1 t1 t0,
             vop .vpcmpeqd .ymm t1 t1 t0,
             ins .vpblendvb (ymm t2) [ymm d0, ymm s1, ymm t1], ins .vmovdqu (ymm d0) [ymm t2]] ++
           restores .ymm [t0, t1, t2] ++
           [jmp 0, lbl 1, ins .vmovdqu (ymm d0) [ymm s1], lbl 0, popf, pop rax])
    | true, false => ifQ (.isK .s0 0) (emit [] [ldSlot .ymm d0 s1]) .abort
    | false, true => ifQ (.isK .s0 0) (emit [] [stSlot .ymm d0 s1]) .abort
    | true, true =>
      ifQ (.isK .s0 0)
        (emit [] <| borrow .ymm [spill0] [ldSlot .ymm spill0 s1, stSlot .ymm d0 spill0])
        (.null 1)

def vmovdqu32XmmReg2regGen : Gen :=
  needSpill1 .xmm .s1 fun
    | false =>
      needSpill1 .xmm .d0 fun
        | false => emit [] [ins .vmovdqu (xmm d0) [xmm s1]]
        | true => emit [] [ldSlot .xmm d0 s1]
    | true => emit [] [ldSlot .xmm d0 s1]

/-! ## 64-bit lanes -/

def vmovdqu64YmmAbsaddr2regGen : Gen := vmovdqu32YmmAbsaddr2regGen
def vmovdqu64XmmAbsaddr2regGen : Gen := vmovdqu32YmmAbsaddr2regGen
def vmovdqu64YmmReladdr2regGen : Gen := plainLoadGen .vmovdqu .ymm

def vmovdqu64XmmReladdr2regGen : Gen :=
  needSpill1 .xmm .d0 fun
    | false => emit [] [ins .vmovdqu (xmm d0) [.app .s1]]
    | true => emit [[d0]] <| borrow .xmm [t0] [ins .vmovdqu (xmm t0) [.app .s1], stSlot .xmm d0 t0]

def vmovdqu64ZmmDisp2regGen : Gen := vmovdqu32ZmmDisp2regGen

def vmovdqu64YmmDisp2regGen : Gen :=
  ifQ (.isK .s0 0)
    (loadGen .vmovdqu .ymm)
    (needSpill1 .ymm .d0 fun
       | false =>
         ifQ (.test .s1 (.isKind .baseDisp))
           (emitG (fresh [d0] 4) [[.base .s1, .index .s1]] <|
              [push g0, pushf] ++ laneBitsYmm ++ [ins .vmovdqu (ymm t2) [.app .s1]] ++
              blendLanesYmm d0 t2 ++ [ins .vmovdqu (ymm d0) [ymm t3]] ++
              restores .ymm [t0, t1, t2, t3] ++
              [jmp 0, lbl 1, ins .vmovdqu (ymm d0) [.app .s1], lbl 0, popf, pop g0])
           .abort
       | true =>
         ifQ (.test .s1 (.isKind .baseDisp))
           (emitG (fresh [spill0] 4) [[.base .s1, .index .s1]] <|
              [push g0, pushf, save .ymm spill0, ldSlot .ymm spill0 d0] ++ laneBitsYmm ++
              [ins .vmovdqu (ymm t2) [.app .s1]] ++ blendLanesYmm spill0 t2 ++
              [ins .vmovdqu (ymm spill0) [ymm t3]] ++ restores .ymm [t0, t1, t2, t3] ++
              [jmp 0, lbl 1, ins .vmovdqu (ymm spill0) [.app .s1], lbl 0, stSlot .ymm d0 spill0,
                restore .ymm spill0, popf, pop g0])
           .abort)

def vmovdqu64XmmDisp2regGen : Gen :=
  ifQ (.isK .s0 0)
    (loadGen .vmovdqu .xmm)
    (needSpill1 .xmm .d0 fun
       | false =>
         ifQ (.test .s1 (.isKind .baseDisp))
           (emitG (fresh [d0] 4) [[.base .s1, .index .s1]] <|
              [push g0, pushf] ++ vmovdqu64XmmLoad d0 ++ [popf, pop g0])
           .abort
       | true =>
         ifQ (.test .s1 (.isKind .baseDisp))
           (emitG (fresh [spill0] 4) [[.base .s1, .index .s1]] <|
              [push g0, pushf, save .xmm spill0, ldSlot .xmm spill0 d0] ++
              vmovdqu64XmmLoad spill0 ++
              [stSlot .xmm d0 spill0, restore .xmm spill0, popf, pop g0])
           .abort)

def vmovdqu64ZmmReg2reladdrGen : Gen :=
  needSpill1 .zmm .s1 fun
    | false =>
      ifQ (.test .d0 (.isKind .relAddr))
        (emit [[s1]] <|
           borrow .ymm [t0]
             [ldHi t0 s1, restore .ymm s1, ins .vmovdqu (.mem .d0 0 32) [ymm s1],
               ins .vmovdqu (.mem .d0 32 32) [ymm t0]])
        (ifQ (.test .d0 (.isKind .absAddr))
           (emit [[s1]] <|
              borrow .ymm [t0]
                [ldHi t0 s1, restore .ymm s1, ins .vmovdqu (.mem .d0 0 32) [ymm s1],
                  ins .vmovdqu (.mem .d0 32 32) [ymm t0]])
           .abort)
    | true =>
      ifQ (.test .d0 (.isKind .relAddr))
        (emit (fresh [] 2) <| storeHalves t0 t1)
        (ifQ (.test .d0 (.isKind .absAddr)) (emit (fresh [] 2) <| storeHalves t0 t1) .abort)

def vmovdqu64YmmReg2reladdrGen : Gen := plainStoreGen .ymm
def vmovdqu64XmmReg2reladdrGen : Gen := plainStoreGen .xmm

def vmovdqu64ZmmReg2dispGen : Gen :=
  ifQ (.test .d0 (.isKind .baseDisp))
    (needSpill1 .zmm .s1 fun
       | false =>
         emit [[s1]] <|
           borrow .ymm [t0]
             [ldHi t0 s1, ins .vmovdqu (.mem .d0 0 32) [ymm s1],
               ins .vmovdqu (.mem .d0 32 32) [ymm t0]]
       | true => emit (fresh [] 2) <| storeHalves t0 t1)
    .abort

def vmovdqu64YmmReg2dispGen : Gen :=
  needSpill1 .ymm .s1 fun
    | false =>
      ifQ (.isK .s0 0)
        (emit [] [ins .vmovdqu (.app .d0) [ymm s1]])
        (ifQ (.test .d0 (.isKind .baseDisp))
           (emitG (fresh [s1] 4) [[.base .d0, .index .d0]] <|
              [push g0, pushf] ++ laneBitsYmm ++ [ins .vmovdqu (ymm t2) [.app .d0]] ++
              blendLanesYmm t2 s1 ++ [ins .vmovdqu (.app .d0) [ymm t3]] ++
              restores .ymm [t0, t1, t2, t3] ++
              [jmp 0, lbl 1, ins .vmovdqu (.app .d0) [ymm s1], lbl 0, popf, pop g0])
           .abort)
    | true =>
      ifQ (.isK .s0 0)
        (emit [] <|
           borrow .ymm [spill0] [ldSlot .ymm spill0 s1, ins .vmovdqu (.app .d0) [ymm spill0]])
        (ifQ (.test .d0 (.isKind .baseDisp))
           (emitG (fresh [spill0] 4) [[.base .d0, .index .d0]] <|
              [push g0, pushf, save .ymm spill0, ldSlot .ymm spill0 s1] ++ laneBitsYmm ++
              [ins .vmovdqu (ymm t2) [.app .d0]] ++ blendLanesYmm t2 spill0 ++
              [ins .vmovdqu (.app .d0) [ymm t3]] ++ restores .ymm [t0, t1, t2, t3] ++
              [jmp 0, lbl 1, ins .vmovdqu (.app .d0) [ymm spill0], lbl 0, restore .ymm spill0,
                popf, pop g0])
           .abort)

def vmovdqu64XmmReg2dispGen : Gen :=
  needSpill1 .xmm .s1 fun
    | false =>
      ifQ (.isK .s0 0)
        (emit [] [ins .vmovdqu (.app .d0) [xmm s1]])
        (emit (fresh [s1] 4) <| [push rax, pushf] ++ vmovdqu64XmmStore s1 ++ [popf, pop rax])
    | true =>
      ifQ (.isK .s0 0)
        (emit [] <|
           borrow .xmm [spill0] [ldSlot .xmm spill0 s1, ins .vmovdqu (.app .d0) [xmm spill0]])
        (emit (fresh [spill0] 4) <|
           [push rax, pushf, save .xmm spill0, ldSlot .xmm spill0 s1] ++
           vmovdqu64XmmStore spill0 ++ [restore .xmm spill0, popf, pop rax])

def vmovdqu64ZmmReg2regGen : Gen := vmovdqu32ZmmReg2regGen

def vmovdqu64YmmReg2regGen : Gen :=
  needSpill2 .ymm .s1 .d0 fun
    | false, false =>
      ifQ .zeroMask
        (ifQ (.isK .s0 0)
           (emit [] [ins .vmovdqu (ymm d0) [ymm s1]])
           (emit (fresh [s1, d0] 4) <|
              [push rax, pushf, ins .movLd (reg32 rax) [.kslot .s0 4],
                ins0 .cmp [reg32 rax, .imm 15 4], jcc .z 0] ++
              saves .ymm [t0, t1, t2, t3] ++ [rmw .sub (reg64 rsp) (.imm 32 4)] ++
              pushTable rax bits4 ++
              [ins .vmovdqu (ymm t0) [stk 0 32], rmw .add (reg64 rsp) (.imm 32 4),
                vop .vpxor .ymm t3 t3 t3] ++
              expandMask .ymm rax t0 t1 ++
              [ins .vpblendvb (ymm t2) [ymm t3, ymm s1, ymm t1], ins .vmovdqu (ymm d0) [ymm t2]] ++
              restores .ymm [t0, t1, t2, t3] ++
              [jmp 1, lbl 0, ins .vmovdqu (ymm d0) [ymm s1], lbl 1, popf, pop rax]))
        (ifQ (.isK .s0 0)
           (emit [] [ins .vmovdqu (ymm d0) [ymm s1]])
           (emit (fresh [s1, d0] 3) <|
              [push rax, pushf] ++ laneMaskYmm t0 t1 t2 ++
              [ins .vpblendvb (ymm t2) [ymm d0, ymm s1, ymm t1], ins .vmovdqu (ymm d0) [ymm t2]] ++
              restores .ymm [t0, t1, t2] ++
              [jmp 0, lbl 1, ins .vmovdqu (ymm d0) [ymm s1], lbl 0, popf, pop rax]))
    | true, false =>
      ifQ (.isK .s0 0)
        (emit [] [ldSlot .ymm d0 s1])
        (emit (fresh [d0] 4) <|
           [push rax, pushf, save .ymm t0, ldSlot .ymm t0 s1] ++ laneMaskYmm t1 t2 t3 ++
           [ins .vpblendvb (ymm t3) [ymm d0, ymm t0, ymm t2], ins .vmovdqu (ymm d0) [ymm t3]] ++
           restores .ymm [t1, t2, t3] ++
           [jmp 0, lbl 1, ins .vmovdqu (ymm d0) [ymm t0], lbl 0, restore .ymm t0, popf, pop rax])
    | false, true =>
      ifQ .zeroMask
        (ifQ (.isK .s0 0)
           (emit [] [stSlot .ymm d0 s1])
           (emit (fresh [s1] 5) <|
              [push rax, pushf, save .ymm t0, ldSlot .ymm t0 d0,
                ins .movLd (reg32 rax) [.kslot .s0 4], ins0 .cmp [reg32 rax, .imm 15 4],
                jcc .z 0] ++
              saves .ymm [t1, t2, t3, t4] ++ [rmw .sub (reg64 rsp) (.imm 32 4)] ++
              pushTable rax bits4 ++
              [ins .vmovdqu (ymm t1) [stk 0 32], rmw .add (reg64 rsp) (.imm 32 4),
                vop .vpxor .ymm t4 t4 t4] ++
              expandMask .ymm rax t1 t2 ++
              [ins .vpblendvb (ymm t3) [ymm t4, ymm s1, ymm t2], ins .vmovdqu (ymm t0) [ymm t3]] ++
              restores .ymm [t1, t2, t3, t4] ++
              [jmp 1, lbl 0, ins .vmovdqu (ymm t0) [ymm s1], lbl 1, stSlot .ymm d0 t0,
                restore .ymm t0, popf, pop rax]))
        (ifQ (.isK .s0 0)
           (emit [] [stSlot .ymm d0 s1])
           (emit (fresh [s1] 4) <|
              [push rax, pushf, save .ymm t0, ldSlot .ymm t0 d0] ++ laneMaskYmm t1 t2 t3 ++
              [ins .vpblendvb (ymm t3) [ymm t0, ymm s1, ymm t2], ins .vmovdqu (ymm t0) [ymm t3]] ++
              restores .ymm [t1, t2, t3] ++
              [jmp 0, lbl 1, ins .vmovdqu (ymm t0) [ymm s1], lbl 0, stSlot .ymm d0 t0,
                restore .ymm t0, popf, pop rax]))
    | true, true =>
      ifQ (.isK .s0 0)
        (emit [] <| borrow .ymm [spill0] [ldSlot .ymm spill0 s1, stSlot .ymm d0 spill0])
        (emit (fresh [spill0] 3) <|
           [push rax, pushf] ++ saves .ymm [spill0, spill1] ++
           [ldSlot .ymm spill0 s1, ldSlot .ymm spill1 d0] ++ laneMaskYmm t0 t1 t2 ++
           [ins .vpblendvb (ymm t2) [ymm spill1, ymm spill0, ymm t1],
             ins .vmovdqu (ymm spill1) [ymm t2]] ++
           restores .ymm [t0, t1, t2] ++
           [jmp 0, lbl 1, ins .vmovdqu (ymm spill1) [ymm spill0], lbl 0, stSlot .ymm d0 spill1] ++
           restores .ymm [spill0, spill1] ++ [popf, pop rax])

def vmovdqu64XmmReg2regGen : Gen :=
  needSpill2 .xmm .s1 .d0 fun
    | false, false =>
      ifQ (.isK .s0 0)
        (emit [] [ins .vmovdqu (xmm d0) [xmm s1]])
        (emit (fresh [s1, d0] 3) <|
           [push rax, pushf] ++ laneMaskXmm t0 t1 t2 ++
           [ins .vpblendvb (xmm t2) [xmm d0, xmm s1, xmm t1], ins .vmovdqu (xmm d0) [xmm t2]] ++
           restores .xmm [t0, t1, t2] ++
           [jmp 0, lbl 1, ins .vmovdqu (xmm d0) [xmm s1], lbl 0, popf, pop rax])
    | true, false =>
      ifQ (.isK .s0 0)
        (emit [] [ldSlot .xmm d0 s1])
        (emit (fresh [d0] 4) <|
           [push rax, pushf, save .xmm t0, ldSlot .xmm t0 s1] ++ laneMaskXmm t1 t2 t3 ++
           [ins .vpblendvb (xmm t3) [xmm d0, xmm t0, xmm t2], ins .vmovdqu (xmm d0) [xmm t3]] ++
           restores .xmm [t1, t2, t3] ++
           [jmp 0, lbl 1, ins .vmovdqu (xmm d0) [xmm t0], lbl 0, restore .xmm t0, popf, pop rax])
    | false, true =>
      ifQ (.isK .s0 0)
        (emit [] [stSlot .xmm d0 s1])
        (emit (fresh [s1] 4) <|
           [push rax, pushf, save .xmm t0, ldSlot .xmm t0 d0] ++ laneMaskXmm t1 t2 t3 ++
           [ins .vpblendvb (xmm t3) [xmm t0, xmm s1, xmm t2], ins .vmovdqu (xmm t0) [xmm t3]] ++
           restores .xmm [t1, t2, t3] ++
           [jmp 0, lbl 1, ins .vmovdqu (xmm t0) [xmm s1], lbl 0, stSlot .xmm d0 t0,
             restore .xmm t0, popf, pop rax])
    | true, true =>
      ifQ (.isK .s0 0)
        (emit [] <| borrow .xmm [spill0] [ldSlot .xmm spill0 s1, stSlot .xmm d0 spill0])
        (emit (fresh [spill1, spill0] 3) <|
           [push rax, pushf] ++ saves .xmm [spill0, spill1] ++
           [ldSlot .xmm spill0 s1, ldSlot .xmm spill1 d0] ++ laneMaskXmm t0 t1 t2 ++
           [ins .vpblendvb (xmm t2) [xmm spill1, xmm spill0, xmm t1],
             ins .vmovdqu (xmm spill1) [xmm t2]] ++
           restores .xmm [t0, t1, t2] ++
           [jmp 0, lbl 1, ins .vmovdqu (xmm spill1) [xmm spill0], lbl 0, stSlot .xmm d0 spill1] ++
           restores .xmm [spill0, spill1] ++ [popf, pop rax])

/-! ## 16-bit lanes -/

def vmovdqu16XmmAbsaddr2regGen : Gen := vmovdqu32YmmAbsaddr2regGen
def vmovdqu16YmmAbsaddr2regGen : Gen := vmovdqu32YmmAbsaddr2regGen
def vmovdqu16XmmReladdr2regGen : Gen := vmovdqu64XmmReladdr2regGen
def vmovdqu16YmmReladdr2regGen : Gen := plainLoadGen .vmovdqu .ymm
def vmovdqu16XmmDisp2regGen : Gen := loadGen .vmovdqu .xmm
def vmovdqu16YmmDisp2regGen : Gen := loadGen .vmovdqu .ymm
def vmovdqu16ZmmDisp2regGen : Gen := vmovdqu32ZmmDisp2regGen
def vmovdqu16XmmReg2reladdrGen : Gen := plainStoreGen .xmm

def vmovdqu16YmmReg2reladdrGen : Gen :=
  ifQ (.isK .s0 0)
    (emit [] [ins .vmovdqu (.app .d0) [ymm s1]])
    (emit (fresh [s1] 4) <|
       [push rax, pushf] ++ testMask rax 65535 ++ saves .ymm [t0, t1, t2, t3] ++
       [rmw .sub (reg64 rsp) (.imm 32 4)] ++ pushTable rax bits16 ++
       [ins .vmovdqu (ymm t0) [stk 0 32], ins .vmovdqu (ymm t2) [.app .d0],
         rmw .add (reg64 rsp) (.imm 32 4), ins .movLd (reg32 rax) [.kslot .s0 4],
         ins .imul (reg32 rax) [reg32 rax, .imm 65537 4], ins .vmovd (xmm t1) [reg32 rax],
         ins .vpbroadcastd (ymm t1) [xmm t1],
         vop .vpand .ymm t1 t1 t0, vop .vpcmpeqw .ymm t1 t1 t0,
         ins .vpblendvb (ymm t3) [ymm t2, ymm s1, ymm t1], ins .vmovdqu (.app .d0) [ymm t3]] ++
       restores .ymm [t0, t1, t2, t3] ++
       [jmp 0, lbl 1, ins .vmovdqu (.app .d0) [ymm s1], lbl 0, popf, pop rax])

def vmovdqu16XmmReg2dispGen : Gen := plainStoreGen .xmm
def vmovdqu16YmmReg2dispGen : Gen := vmovdqu16YmmReg2reladdrGen

def vmovdqu16ZmmReg2dispGen : Gen :=
  ifQ (.test .d0 (.isKind .baseDisp))
    (needSpill1 .zmm .s1 fun
       | false =>
         emit [[s1]] <|
           borrow .ymm [t0]
             [ldHi t0 s1, restore .ymm s1, ins .vmovdqu (.mem .d0 0 32) [ymm s1],
               ins .vmovdqu (.mem .d0 32 32) [ymm t0]]
       | true => emit [[spill0]] <| storeHalves spill0 t0)
    .abort

/-- A move that takes the registers as they are. -/
def plainMoveGen (w : VecWidth) : Gen :=
  emit [] [ins .vmovdqu (.v w d0) [.v w s1]]

def vmovdqu16XmmReg2regGen : Gen := plainMoveGen .xmm
def vmovdqu16YmmReg2regGen : Gen := plainMoveGen .ymm
def vmovdqu16ZmmReg2regGen : Gen := vmovdqu32ZmmReg2regGen

/-! ## 8-bit lanes -/

def vmovdqu8YmmAbsaddr2regGen : Gen := vmovdqu32YmmAbsaddr2regGen
def vmovdqu8XmmAbsaddr2regGen : Gen := vmovdqu32YmmAbsaddr2regGen

def vmovdqu8YmmReladdr2regGen : Gen :=
  ifQ (.isK .s0 0) (emit [] [ins .vmovdqu (ymm d0) [.app .s1]]) (.null 0)

def vmovdqu8XmmReladdr2regGen : Gen := loadGen .vmovdqu .xmm
def vmovdqu8ZmmDisp2regGen : Gen := vmovdqu32ZmmDisp2regGen

def vmovdqu8YmmDisp2regGen : Gen :=
  ifQ (.isK .s0 0)
    (loadGen .vmovdqu .ymm)
    (.null 1)

def vmovdqu8XmmDisp2regGen : Gen :=
  needSpill1 .xmm .d0 fun
    | false => ifQ (.isK .s0 0) (emit [] [ins .vmovdqu (xmm d0) [.app .s1]]) (.null 1)
    | true =>
      ifQ (.isK .s0 0)
        (emit [] <|
           borrow .xmm [spill0] [ins .vmovdqu (xmm spill0) [.app .s1], stSlot .xmm d0 spill0])
        (.null 1)

def vmovdqu8YmmReg2reladdrGen : Gen := plainStoreGen .ymm
def vmovdqu8XmmReg2reladdrGen : Gen := plainStoreGen .xmm
def vmovdqu8ZmmReg2dispGen : Gen := vmovdqu32ZmmReg2dispGen

/-- A store that gives up when there is a mask, after it has unlinked the instruction. -/
def unmaskedStoreGen (w : VecWidth) : Gen :=
  needSpill1 w .s1 fun
    | false => ifQ (.isK .s0 0) (emit [] [ins .vmovdqu (.app .d0) [.v w s1]]) (.null 1)
    | true =>
      ifQ (.isK .s0 0)
        (emit [] <| borrow w [spill0] [ldSlot w spill0 s1, ins .vmovdqu (.app .d0) [.v w spill0]])
        (.null 1)

def vmovdqu8YmmReg2dispGen : Gen := unmaskedStoreGen .ymm
def vmovdqu8XmmReg2dispGen : Gen := unmaskedStoreGen .xmm
def vmovdqu8ZmmReg2regGen : Gen := vmovdqu32ZmmReg2regGen

def vmovdqu8YmmReg2regGen : Gen :=
  needSpill2 .ymm .s1 .d0 fun
    | false, false =>
      ifQ (.isK .s0 0)
        (emit [] [ins .vmovdqu (ymm d0) [ymm s1]])
        (emit [] <|
           vmovdqu8YmmEnter ++ [ins .vmovdqu (stk 32 32) [ymm s1]] ++ vmovdqu8YmmLoop d0 ++
           [rmw .add (reg64 rsp) (.imm 64 4), jmp 0, lbl 1, ins .vmovdqu (ymm d0) [ymm s1]] ++
           vmovdqu8Leave)
    | true, false =>
      ifQ (.isK .s0 0)
        (emit [] [ldSlot .ymm d0 s1])
        (emit [[d0]] <|
           vmovdqu8YmmEnter ++ [ldSlot .ymm t0 s1, ins .vmovdqu (stk 32 32) [ymm t0]] ++
           vmovdqu8YmmLoop d0 ++
           [rmw .add (reg64 rsp) (.imm 64 4), jmp 0, lbl 1, ldSlot .ymm d0 s1] ++
           vmovdqu8Leave)
    | false, true =>
      ifQ (.isK .s0 0)
        (emit [] [stSlot .ymm d0 s1])
        (emit [[s1]] <|
           vmovdqu8YmmEnter ++
           [ins .vmovdqu (stk 32 32) [ymm s1], save .ymm t0, ldSlot .ymm t0 d0] ++
           vmovdqu8YmmLoop t0 ++
           [stSlot .ymm d0 t0, restore .ymm t0, rmw .add (reg64 rsp) (.imm 64 4), jmp 0, lbl 1,
             stSlot .ymm d0 s1] ++
           vmovdqu8Leave)
    | true, true =>
      ifQ (.isK .s0 0)
        (emit [] <| borrow .ymm [spill0] [ldSlot .ymm spill0 s1, stSlot .ymm d0 spill0])
        (emit [] <|
           vmovdqu8YmmEnter ++ saves .ymm [spill1, spill0] ++
           [ldSlot .ymm spill1 s1, ldSlot .ymm spill0 d0, ins .vmovdqu (stk 32 32) [ymm spill1]] ++
           vmovdqu8YmmLoop spill0 ++ [stSlot .ymm d0 spill0] ++ restores .ymm [spill1, spill0] ++
           [rmw .add (reg64 rsp) (.imm 64 4), jmp 0, lbl 1, save .ymm spill1,
             ldSlot .ymm spill1 s1, stSlot .ymm d0 spill1, restore .ymm spill1] ++
           vmovdqu8Leave)

def vmovdqu8XmmReg2regGen : Gen :=
  needSpill2 .xmm .s1 .d0 fun
    | false, false =>
      ifQ (.isK .s0 0)
        (emit [] [ins .vmovdqu (xmm d0) [xmm s1]])
        (emit [] <|
           vmovdqu8XmmEnter ++
           [ins .vmovdqu (stk 16 16) [xmm s1], ins .vmovdqu (stk 0 16) [xmm d0]] ++
           vmovdqu8XmmLoop ++
           [ins .vmovdqu (xmm d0) [stk 0 16], rmw .add (reg64 rsp) (.imm 32 4), jmp 0, lbl 1,
             ins .vmovdqu (xmm d0) [xmm s1]] ++
           vmovdqu8Leave)
    | true, false =>
      ifQ (.isK .s0 0)
        (emit [] [ldSlot .xmm d0 s1])
        (emit [[]] <|
           vmovdqu8XmmEnter ++
           [ins .vmovdqu (ymm t0) [.slot s1 false 16], ins .vmovdqu (stk 16 16) [ymm t0],
             ins .vmovdqu (stk 0 16) [xmm d0]] ++
           vmovdqu8XmmLoop ++
           [ins .vmovdqu (xmm d0) [stk 0 16], rmw .add (reg64 rsp) (.imm 32 4), jmp 0, lbl 1,
             ldSlot .xmm d0 s1] ++
           vmovdqu8Leave)
    | false, true =>
      ifQ (.isK .s0 0)
        (emit [] [stSlot .xmm d0 s1])
        (emit [[]] <|
           vmovdqu8XmmEnter ++
           [ins .vmovdqu (stk 16 16) [xmm s1],
             ins .vmovdqu (.stray (some t0) 7232 16) [ymm t0],
             ins .vmovdqu (ymm t0) [.slot d0 false 16], ins .vmovdqu (stk 0 16) [ymm t0]] ++
           vmovdqu8XmmLoop ++
           [ins .vmovdqu (ymm t0) [stk 0 16], ins .vmovdqu (.slot d0 false 16) [ymm t0],
             ins .vmovdqu (ymm t0) [.stray (some t0) 7232 16], rmw .add (reg64 rsp) (.imm 32 4),
             jmp 0, lbl 1, stSlot .xmm s1 d0] ++
           vmovdqu8Leave)
    | true, true =>
      ifQ (.isK .s0 0)
        (emit [] <| borrow .xmm [spill0] [ldSlot .xmm spill0 s1, stSlot .xmm d0 spill0])
        (emit [] <|
           vmovdqu8XmmEnter ++ saves .xmm [spill1, spill0] ++
           [ldSlot .xmm spill1 s1, ldSlot .xmm spill0 d0, ins .vmovdqu (stk 16 16) [xmm spill1],
             ins .vmovdqu (stk 0 16) [xmm spill0]] ++
           vmovdqu8XmmLoop ++ [ins .vmovdqu (xmm spill0) [stk 0 16], stSlot .xmm d0 spill0] ++
           restores .xmm [spill1, spill0] ++
           [rmw .add (reg64 rsp) (.imm 32 4), jmp 0, lbl 1, save .xmm spill1,
             ldSlot .xmm spill1 s1, stSlot .xmm d0 spill1, restore .xmm spill1] ++
           vmovdqu8Leave)

/-! ## Dispatch -/

/-- A generator for each width. -/
structure Widths where
  x : Gen
  y : Gen
  z : Gen

def Widths.on (p : Pos) (g : Widths) : Gen := byWidth p g.x g.y g.z

/-- The dispatch of the integer moves on the kinds of their operands. -/
def intMoveGen (reg2reg reg2disp reg2reladdr disp2reg reladdr2reg absaddr2reg : Widths) : Gen :=
  opnds [.s1, .d0] <| regs [.s0] <|
  onKind .s1
    [(.reg,
       onKind .d0
         [(.reg, reg2reg.on .d0), (.baseDisp, reg2disp.on .s1), (.relAddr, reg2reladdr.on .s1)]),
     (.baseDisp, regs [.d0] <| disp2reg.on .d0),
     (.relAddr, regs [.d0] <| reladdr2reg.on .d0),
     (.absAddr, regs [.d0] <| absaddr2reg.on .d0)]

def rwFuncVmovdqa32 : Gen :=
  intMoveGen
    ⟨vmovdqu32XmmReg2regGen, vmovdqu32YmmReg2regGen, vmovdqu32ZmmReg2regGen⟩
    ⟨vmovdqu32XmmReg2dispGen, vmovdqu32YmmReg2dispGen, vmovdqu32ZmmReg2dispGen⟩
    ⟨vmovdqu32XmmReg2reladdrGen, vmovdqu32YmmReg2reladdrGen, unsupported⟩
    ⟨vmovdqu32XmmDisp2regGen, vmovdqu32YmmDisp2regGen, vmovdqu32ZmmDisp2regGen⟩
    ⟨vmovdqu32XmmReladdr2regGen, vmovdqu32YmmReladdr2regGen, unsupported⟩
    ⟨vmovdqu32XmmAbsaddr2regGen, vmovdqu32YmmAbsaddr2regGen, unsupported⟩

def rwFuncVmovdqu32 : Gen :=
  intMoveGen
    ⟨vmovdqu32XmmReg2regGen, vmovdqu32YmmReg2regGen, vmovdqu32ZmmReg2regGen⟩
    ⟨vmovdqu32XmmReg2dispGen, vmovdqu32YmmReg2dispGen, vmovdqu32ZmmReg2dispGen⟩
    ⟨vmovdqu32XmmReg2reladdrGen, vmovdqu32YmmReg2reladdrGen, unsupported⟩
    ⟨vmovdqu32XmmDisp2regGen, vmovdqu32YmmDisp2regGen, vmovdqu32ZmmDisp2regGen⟩
    ⟨vmovdqu32XmmReladdr2regGen, vmovdqu32YmmReladdr2regGen, unsupported⟩
    ⟨vmovdqu32XmmAbsaddr2regGen, vmovdqu32YmmAbsaddr2regGen, unsupported⟩

def rwFuncVmovdqa64 : Gen :=
  intMoveGen
    ⟨vmovdqu64XmmReg2regGen, vmovdqu64YmmReg2regGen, vmovdqu64ZmmReg2regGen⟩
    ⟨vmovdqu64XmmReg2dispGen, vmovdqu64YmmReg2dispGen, vmovdqu64ZmmReg2dispGen⟩
    ⟨vmovdqu64XmmReg2reladdrGen, vmovdqu64YmmReg2reladdrGen, vmovdqu64ZmmReg2reladdrGen⟩
    ⟨vmovdqu64XmmDisp2regGen, vmovdqu64YmmDisp2regGen, vmovdqu64ZmmDisp2regGen⟩
    ⟨vmovdqu64XmmReladdr2regGen, vmovdqu64YmmReladdr2regGen, unsupported⟩
    ⟨vmovdqu64XmmAbsaddr2regGen, vmovdqu64YmmAbsaddr2regGen, unsupported⟩

def rwFuncVmovdqu64 : Gen :=
  intMoveGen
    ⟨vmovdqu64XmmReg2regGen, vmovdqu64YmmReg2regGen, vmovdqu64ZmmReg2regGen⟩
    ⟨vmovdqu64XmmReg2dispGen, vmovdqu64YmmReg2dispGen, vmovdqu64ZmmReg2dispGen⟩
    ⟨vmovdqu64XmmReg2reladdrGen, vmovdqu64YmmReg2reladdrGen, vmovdqu64ZmmReg2reladdrGen⟩
    ⟨vmovdqu64XmmDisp2regGen, vmovdqu64YmmDisp2regGen, vmovdqu64ZmmDisp2regGen⟩
    ⟨vmovdqu64XmmReladdr2regGen, vmovdqu64YmmReladdr2regGen, unsupported⟩
    ⟨vmovdqu64XmmAbsaddr2regGen, vmovdqu64YmmAbsaddr2regGen, unsupported⟩

def rwFuncVmovdqu16 : Gen :=
  intMoveGen
    ⟨vmovdqu16XmmReg2regGen, vmovdqu16YmmReg2regGen, vmovdqu16ZmmReg2regGen⟩
    ⟨vmovdqu16XmmReg2dispGen, vmovdqu16YmmReg2dispGen, vmovdqu16ZmmReg2dispGen⟩
    ⟨vmovdqu16XmmReg2reladdrGen, vmovdqu16YmmReg2reladdrGen, unsupported⟩
    ⟨vmovdqu16XmmDisp2regGen, vmovdqu16YmmDisp2regGen, vmovdqu16ZmmDisp2regGen⟩
    ⟨vmovdqu16XmmReladdr2regGen, vmovdqu16YmmReladdr2regGen, unsupported⟩
    ⟨vmovdqu16XmmAbsaddr2regGen, vmovdqu16YmmAbsaddr2regGen, unsupported⟩

def rwFuncVmovdqu8 : Gen :=
  intMoveGen
    ⟨vmovdqu8XmmReg2regGen, vmovdqu8YmmReg2regGen, vmovdqu8ZmmReg2regGen⟩
    ⟨vmovdqu8XmmReg2dispGen, vmovdqu8YmmReg2dispGen, vmovdqu8ZmmReg2dispGen⟩
    ⟨vmovdqu8XmmReg2reladdrGen, vmovdqu8YmmReg2reladdrGen, unsupported⟩
    ⟨vmovdqu8XmmDisp2regGen, vmovdqu8YmmDisp2regGen, vmovdqu8ZmmDisp2regGen⟩
    ⟨vmovdqu8XmmReladdr2regGen, vmovdqu8YmmReladdr2regGen, unsupported⟩
    ⟨vmovdqu8XmmAbsaddr2regGen, vmovdqu8YmmAbsaddr2regGen, unsupported⟩

end DrAvx
