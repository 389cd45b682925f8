import DrAvx.Handlers.Common

/-!
# Handlers of the floating point moves
-/

set_option autoImplicit false

namespace DrAvx

/-- `rw_func_vmovss`, and `rw_func_vmovsd` which emits `vmovss` as well. -/
def scalarGen (op : Op) : Gen :=
  regs [.s1, .s2, .d0] <|
  vop3Gen op .xmm

def rwFuncVmovss : Gen := scalarGen .vmovss
def rwFuncVmovsd : Gen := scalarGen .vmovss

/-- The packed moves and what was copied from them.  The source they look at is operand 0, which in
an EVEX instruction is the mask register, and they treat every register as an xmm register when it
comes to spilling. -/
def packedGen (op : Op) : Gen :=
  regs [.s0, .d0] <|
  needSpill2 .xmm .s0 .d0 fun
    | false, false => emit [] [ins op (.app .d0) [.app .s0]]
    | true, false => emit [[d0]] <| borrow .xmm [t0] [ldSlot .xmm t0 s0, ins op (.app .d0) [xmm t0]]
    | false, true =>
      emit [] <| borrow .xmm [spill0] [ins op (xmm spill0) [.app .s0], stSlot .xmm d0 spill0]
    | true, true =>
      emit [] <|
        borrow .xmm [spill0, spill1]
          [ldSlot .xmm spill0 s0, ins op (xmm spill1) [xmm spill0], stSlot .xmm d0 spill1]

def rwFuncVmovups : Gen := packedGen .vmovups
def rwFuncVmovupd : Gen := packedGen .vmovupd

/-- The moves of half a register. -/
def halfGen (op : Op) : Gen :=
  regs [.s0, .d0] <|
  needSpill2 .xmm .s0 .d0 fun
    | false, false => emit [] [ins op (xmm d0) [xmm s0]]
    | true, false => emit [[d0]] <| borrow .xmm [t0] [ldSlot .xmm t0 s0, ins op (xmm d0) [xmm t0]]
    | false, true =>
      emit [] <| borrow .xmm [spill0] [ins op (xmm spill0) [xmm s0], stSlot .xmm d0 spill0]
    | true, true =>
      emit [] <|
        borrow .xmm [spill0, spill1]
          [ldSlot .xmm spill0 s0, ins op (xmm spill1) [xmm spill0], stSlot .xmm d0 spill1]

def rwFuncVmovlps : Gen := halfGen .vmovlps
def rwFuncVmovsldup : Gen := packedGen .vmovsldup
def rwFuncVmovlpd : Gen := halfGen .vmovlpd
def rwFuncVmovddup : Gen := packedGen .vmovddup
def rwFuncVmovhps : Gen := halfGen .vmovhps
def rwFuncVmovshdup : Gen := packedGen .vmovshdup
def rwFuncVmovhpd : Gen := halfGen .vmovhpd

def vmovapsZmmDisp2regGen : Gen :=
  ifQ (.test .s1 (.isKind .baseDisp))
    (needSpill1 .zmm .d0 fun
       | false =>
         emit [[d0]] <|
           borrow .ymm [t0]
             [ins .vmovaps (ymm d0) [.mem .s1 0 32], ins .vmovaps (ymm t0) [.mem .s1 32 32],
               save .ymm d0, stHi d0 t0]
       | true =>
         emit (fresh [] 2) <|
           borrow .ymm [t0, t1]
             [ins .vmovaps (ymm t0) [.mem .s1 0 32], ins .vmovaps (ymm t1) [.mem .s1 32 32],
               stSlot .ymm d0 t0, stHi d0 t1])
    .abort

def vmovapsYmmDisp2regGen : Gen := loadGen .vmovaps .ymm
def vmovapsXmmDisp2regGen : Gen := loadGen .vmovaps .xmm

def vmovapsZmmReg2dispGen : Gen :=
  ifQ (.test .d0 (.isKind .baseDisp))
    (needSpill1 .zmm .s1 fun
       | false =>
         emit [[s1]] <|
           borrow .ymm [t0]
             [ldHi t0 s1, ins .vmovaps (.mem .d0 0 32) [ymm s1],
               ins .vmovaps (.mem .d0 32 32) [ymm t0]]
       | true =>
         emit (fresh [] 2) <|
           borrow .ymm [t0, t1]
             [ldSlot .ymm t0 s1, ldHi t1 s1, ins .vmovaps (.mem .d0 0 32) [ymm t0],
               ins .vmovaps (.mem .d0 32 32) [ymm t1]])
    .abort

def vmovapsYmmReg2dispGen : Gen := storeGen .vmovaps .ymm
def vmovapsXmmReg2dispGen : Gen := storeGen .vmovaps .xmm

def vmovapsZmmReg2regGen : Gen :=
  needSpill2 .zmm .s1 .d0 fun
    | false, false =>
      emit (fresh [s1, d0] 2) <|
        borrow .ymm [t0, t1]
          [ldHi t0 s1, ldHi t1 d0, ins .vmovaps (ymm d0) [ymm s1], ins .vmovaps (ymm t1) [ymm t0],
            save .ymm d0, stHi d0 t1]
    | true, true =>
      emit [[], [t0], [t1], [t2]] <|
        borrow .ymm [t0, t1, t2, t3]
          [ldSlot .ymm t0 s1, ldHi t1 s1, ins .vmovaps (ymm t2) [ymm t0],
            ins .vmovaps (ymm t3) [ymm t1], stSlot .ymm d0 t2, stHi d0 t3]
    | _, _ => .null 1

def vmovapsYmmReg2regGen : Gen := reg2regGen .vmovaps .ymm
def vmovapsXmmReg2regGen : Gen := reg2regGen .vmovaps .xmm

def rwFuncVmovaps : Gen :=
  opnds [.s1, .d0] <| regs [.s0] <|
  onKind .s1
    [(.reg,
       ifQ (.test .d0 (.isKind .reg))
         (byWidth .d0 vmovapsXmmReg2regGen vmovapsYmmReg2regGen vmovapsZmmReg2regGen)
         (byWidth .s1 vmovapsXmmReg2dispGen vmovapsYmmReg2dispGen vmovapsZmmReg2dispGen)),
     (.baseDisp,
       regs [.d0] <| byWidth .d0 vmovapsXmmDisp2regGen vmovapsYmmDisp2regGen vmovapsZmmDisp2regGen)]

def rwFuncVmovapd : Gen := packedGen .vmovapd
def rwFuncVmovntps : Gen := packedGen .vmovntps
def rwFuncVmovntpd : Gen := packedGen .vmovntpd
def rwFuncVmovmskps : Gen := packedGen .vmovmskps
def rwFuncVmovmskpd : Gen := packedGen .vmovmskpd

def rwFuncVmovq : Gen :=
  opnds [.d0] <| regs [.s0] <|
  emit [] [ins .vmovq (.app .d0) [.app .s0]]

end DrAvx
