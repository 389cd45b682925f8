import DrAvx.Handlers.Common

/-!
# Handlers of lane-wise arithmetic
-/

set_option autoImplicit false

namespace DrAvx

def vpsrlqYmmImmRegGen : Gen :=
  needSpill2 .ymm .s2 .d0 fun
    | false, false => emit [] [ins .vpsrlq (.app .d0) [.app .s1, .app .s2]]
    | true, false =>
      emit [[d0]] <|
        borrow .ymm [t0] [ldSlot .ymm t0 s2, ins .vpsrlq (.app .d0) [.app .s1, ymm t0]]
    | false, true =>
      emit [[s2]] <|
        borrow .ymm [t0] [ins .vpsrlq (ymm t0) [.app .s1, .app .s2], stSlot .ymm d0 t0]
    | true, true =>
      emit [] <|
        borrow .ymm [spill0]
          [ldSlot .ymm spill0 s2, rmw .vpsrlq (ymm spill0) (.app .s1), stSlot .ymm d0 spill0]

def rwFuncVpsrlq : Gen :=
  opnds [.s1, .s2] <| regs [.d0] <|
  onKind .s1
    [(.reg, regs [.s2] <| byWidth .d0 unsupported unsupported unsupported),
     (.baseDisp, regs [.s2] <| byWidth .d0 unsupported unsupported unsupported),
     (.immed, regs [.s2] <| byWidth .d0 unsupported vpsrlqYmmImmRegGen unsupported)]

def vpaddqXmmMemGen : Gen :=
  needSpill2 .xmm .s1 .d0 fun
    | false, false => chain 0 true [] [] [ins .vpaddq (xmm d0) [xmm s1, .app .s2]]
    | true, false =>
      chain 0 true [[d0]] [] <|
        borrow .xmm [t0] [ldSlot .xmm t0 s1, ins .vpaddq (xmm d0) [xmm t0, .app .s2]]
    | false, true =>
      chain 0 true [[s1]] [] <|
        borrow .xmm [t0] [ins .vpaddq (xmm t0) [xmm s1, .app .s2], stSlot .xmm d0 t0]
    | true, true =>
      chain 0 true [] [] <|
        borrow .xmm [spill0]
          [ldSlot .xmm spill0 s1, ins .vpaddq (xmm spill0) [xmm spill0, .app .s2],
            stSlot .xmm d0 spill0]

/-- A lane-wise 512-bit operation is done on the two halves separately.  The lower half of a
register below 16 is the physical register; everything else is fetched from the slots, so up to six
registers are borrowed, which is the whole pool. -/
def zmmArithGen (op : Op) : Gen :=
  needSpill3 .zmm .s1 .s2 .d0 fun
    | false, false, false =>
      ifQ (.same .d0 .s1)
        (emit (fresh [s1, s2] 2) <|
           borrow .ymm [t0, t1]
             [ldHi t0 s1, ldHi t1 s2, vop op .ymm s1 s1 s2, vop op .ymm t0 t0 t1,
               stSlot .ymm d0 s1, stHi d0 t0])
        (emit (fresh [s1, s2, d0] 3) <|
           borrow .ymm [t0, t1, t2]
             [ldHi t0 s1, ldHi t1 s2, vop op .ymm d0 s1 s2, vop op .ymm t2 t0 t1, save .ymm d0,
               stHi d0 t2])
    | true, false, false =>
      emit (fresh [s1, s2, d0] 4) <|
        borrow .ymm [t0, t1, t2, t3]
          [ldSlot .ymm t0 s1, ldHi t1 s1, ldHi t2 s2, vop op .ymm d0 t0 s2, vop op .ymm t3 t1 t2,
            save .ymm d0, stHi d0 t3]
    | false, true, false =>
      emit (fresh [s1, s2, d0] 4) <|
        borrow .ymm [t0, t1, t2, t3]
          [ldHi t1 s1, ldSlot .ymm t0 s2, ldHi t2 s2, vop op .ymm d0 s1 t0, vop op .ymm t3 t1 t2,
            save .ymm d0, stHi d0 t3]
    | true, true, false =>
      emit (fresh [s1, s2, d0] 5) <|
        borrow .ymm [t0, t1, t2, t3, t4]
          [ldSlot .ymm t0 s1, ldHi t2 s1, ldSlot .ymm t1 s2, ldHi t3 s2, vop op .ymm d0 t0 t1,
            vop op .ymm t4 t2 t3, save .ymm d0, stHi d0 t4]
    | false, false, true =>
      emit (fresh [s1, s2, d0] 4) <|
        borrow .ymm [t0, t1, t2, t3]
          [ldHi t1 s1, ldHi t2 s2, vop op .ymm t0 s1 s2, vop op .ymm t3 t1 t2, stSlot .ymm d0 t0,
            stHi d0 t3]
    | true, false, true =>
      emit (fresh [s1, s2, d0] 5) <|
        borrow .ymm [t0, t1, t2, t3, t4]
          [ldSlot .ymm t0 s1, ldHi t2 s1, ldHi t3 s2, vop op .ymm t1 t0 s2, vop op .ymm t4 t2 t3,
            stSlot .ymm d0 t1, stHi d0 t4]
    | false, true, true =>
      emit (fresh [s1, s2, d0] 5) <|
        borrow .ymm [t0, t1, t2, t3, t4]
          [ldHi t2 s1, ldSlot .ymm t0 s2, ldHi t3 s2, vop op .ymm t1 s1 t0, vop op .ymm t4 t2 t3,
            stSlot .ymm d0 t1, stHi d0 t4]
    | true, true, true =>
      emit (fresh [s1, s2, d0] 6) <|
        borrow .ymm [t0, t1, t2, t3, t4, t5]
          [ldSlot .ymm t0 s1, ldHi t3 s1, ldSlot .ymm t1 s2, ldHi t4 s2, vop op .ymm t2 t0 t1,
            vop op .ymm t5 t3 t4, stSlot .ymm d0 t2, stHi d0 t5]

def vpaddqZmmRegRegGen : Gen := zmmArithGen .vpaddq

def rwFuncVpaddq : Gen :=
  opnds [.s2] <| regs [.s0, .s1, .d0] <|
  onKind .s2
    [(.reg, byWidth .d0 unsupported unsupported vpaddqZmmRegRegGen),
      (.baseDisp, byWidth .d0 vpaddqXmmMemGen unsupported unsupported)]

def vpsradXmm2xmmGen : Gen :=
  needSpill2 .xmm .s2 .d0 fun
    | false, false => emit [] [ins .vpsrad (xmm d0) [.app .s1, xmm s2]]
    | true, false =>
      emit [[d0]] <| borrow .xmm [t0] [ldSlot .xmm t0 s2, ins .vpsrad (xmm d0) [.app .s1, xmm t0]]
    | false, true =>
      emit [[d0]] <| borrow .xmm [t0] [ins .vpsrad (xmm t0) [.app .s1, xmm s2], stSlot .xmm d0 t0]
    | true, true =>
      emit [] <|
        borrow .xmm [spill0] <|
          borrow .xmm [spill1]
            [ldSlot .xmm spill0 s2, ins .vpsrad (xmm spill1) [.app .s1, xmm spill0],
              stSlot .xmm d0 spill1]

def vpsradYmm2ymmGen : Gen :=
  needSpill2 .ymm .s2 .d0 fun
    | false, false => emit [] [ins .vpsrad (ymm d0) [.app .s1, .app .s2]]
    | true, false =>
      emit [[d0]] <| borrow .ymm [t0] [ldSlot .ymm t0 s2, ins .vpsrad (ymm d0) [.app .s1, ymm t0]]
    | false, true =>
      emit [[d0]] <|
        borrow .ymm [t0] [ins .vpsrad (ymm t0) [.app .s1, .app .s2], stSlot .ymm d0 t0]
    | true, true =>
      emit [] <|
        borrow .ymm [spill0] <|
          borrow .ymm [spill1]
            [ldSlot .ymm spill0 s2, ins .vpsrad (ymm spill1) [.app .s1, ymm spill0],
              stSlot .ymm d0 spill1]

def rwFuncVpsrad : Gen :=
  opnds [.s0, .s1, .s2, .d0] <|
  onKind .s2
    [(.reg, regs [.s0, .d0] <| byWidth .d0 vpsradXmm2xmmGen vpsradYmm2ymmGen unsupported)]

/-- Shifts by the count in an xmm register, of the registers as they are. -/
def ymmShiftGen (op : Op) : Gen :=
  emit [] [ins op (ymm d0) [ymm s1, xmm s2]]

def vpsllwYmm2ymmGen : Gen := ymmShiftGen .vpsllw

/-- The same on xmm registers. -/
def xmmShiftGen (op : Op) : Gen :=
  emit [] [vop op .xmm d0 s1 s2]

def vpsllwXmm2xmmGen : Gen := xmmShiftGen .vpsllw

def vpsllwImmed2ymmGen : Gen :=
  needSpill2 .ymm .s2 .d0 fun
    | false, false => emit [] [ins .vpsllw (ymm d0) [.app .s1, ymm s2]]
    | true, false =>
      emit [[d0]] <| borrow .ymm [t0] [ldSlot .ymm t0 s2, ins .vpsllw (ymm d0) [.app .s1, ymm t0]]
    | false, true =>
      emit [[s2]] <| borrow .ymm [t0] [ins .vpsllw (ymm t0) [.app .s1, ymm s2], stSlot .ymm d0 t0]
    | true, true =>
      ifQ (.same .d0 .s2)
        (emit [[s2]] <|
           borrow .ymm [t0]
             [ldSlot .ymm t0 s2, rmw .vpsllw (ymm t0) (.app .s1), stSlot .ymm d0 t0])
        (emit [] <|
           borrow .ymm [spill0]
             [ldSlot .ymm spill0 s2, rmw .vpsllw (ymm spill0) (.app .s1), stSlot .ymm d0 spill0])

def rwFuncVpsllw : Gen :=
  opnds [.s1] <| regs [.s0, .s2, .d0] <|
  onKind .s1
    [(.immed, byWidth .d0 unsupported vpsllwImmed2ymmGen unsupported),
      (.reg, byWidth .d0 vpsllwXmm2xmmGen vpsllwYmm2ymmGen unsupported)]

def vpslldYmm2ymmGen : Gen := ymmShiftGen .vpslld
def vpslldXmm2xmmGen : Gen := xmmShiftGen .vpslld

/-- Shifts by an immediate. -/
def shiftImmedGen (op : Op) (w : VecWidth) : Gen :=
  needSpill2 w .s2 .d0 fun
    | false, false => emit [] [ins op (.v w d0) [.app .s1, .v w s2]]
    | true, false =>
      emit [[d0]] <| borrow w [t0] [ldSlot w t0 s2, ins op (.v w d0) [.app .s1, .v w t0]]
    | false, true =>
      emit [[s2]] <| borrow w [t0] [ins op (.v w t0) [.app .s1, .v w s2], stSlot w d0 t0]
    | true, true =>
      ifQ (.same .d0 .s2)
        (emit [] <|
           borrow w [spill0]
             [ldSlot w spill0 s2, rmw op (.v w spill0) (.app .s1), stSlot w d0 spill0])
        (emit [] <|
           borrow w [spill0, spill1]
             [ldSlot w spill1 s2, ins op (.v w spill0) [.app .s1, .v w spill1],
               stSlot w d0 spill0])

def vpslldImmed2ymmGen : Gen := shiftImmedGen .vpslld .ymm

def vpslldImmed2xmmGen : Gen :=
  needSpill2 .xmm .s2 .d0 fun
    | false, false => emit [] [ins .vpslld (xmm d0) [.app .s1, xmm s2]]
    | true, false =>
      emit [[d0]] <| borrow .xmm [t0] [ldSlot .xmm t0 s2, ins .vpslld (xmm d0) [.app .s1, xmm t0]]
    | false, true =>
      emit [[d0]] <| borrow .xmm [t0] [ins .vpslld (xmm t0) [.app .s1, xmm s2], stSlot .xmm d0 t0]
    | true, true =>
      emit [] <|
        borrow .xmm [spill0]
          [ldSlot .xmm spill0 s2, rmw .vpslld (xmm spill0) (.app .s1), stSlot .xmm d0 spill0]

def rwFuncVpslld : Gen :=
  opnds [.s1] <| regs [.s0, .s2, .d0] <|
  onKind .s1
    [(.immed, byWidth .d0 vpslldImmed2xmmGen vpslldImmed2ymmGen unsupported),
      (.reg, byWidth .d0 vpslldXmm2xmmGen vpslldYmm2ymmGen unsupported)]

def vpsllqZmm2zmmGen : Gen :=
  needSpill1 .zmm .s1 fun
    | false =>
      needSpill1 .zmm .s2 fun
        | false =>
          needSpill1 .zmm .d0 fun
            | false => emit [] [ins .vpsllq (zmm d0) [zmm s1, xmm s2]]
            | true => .null 1
        | true => .null 1
    | true => .null 1

def vpsllqYmm2ymmGen : Gen :=
  needSpill1 .ymm .s1 fun
    | false =>
      needSpill1 .ymm .s2 fun
        | false =>
          needSpill1 .ymm .d0 fun
            | false => emit [] [ins .vpsllq (ymm d0) [ymm s1, xmm s2]]
            | true => .null 1
        | true => .null 1
    | true => .null 1

def vpsllqXmm2xmmGen : Gen := vop3Gen .vpsllq .xmm

def vpsllqImmed2zmmGen : Gen :=
  needSpill1 .zmm .s2 fun
    | false =>
      needSpill1 .zmm .d0 fun
        | false => emit [] [ins .vpsllq (zmm d0) [zmm s2, .app .s1]]
        | true => .null 1
    | true => .null 1

def vpsllqImmed2ymmGen : Gen :=
  emit [] [ins .vpsllq (ymm d0) [.app .s1, ymm s2]]

def vpsllqImmed2xmmGen : Gen := shiftImmedGen .vpsllq .xmm

def rwFuncVpsllq : Gen :=
  opnds [.s1] <| regs [.s0, .s2, .d0] <|
  onKind .s1
    [(.immed, byWidth .d0 vpsllqImmed2xmmGen vpsllqImmed2ymmGen vpsllqImmed2zmmGen),
     (.reg, byWidth .d0 vpsllqXmm2xmmGen vpsllqYmm2ymmGen vpsllqZmm2zmmGen)]

def vpsubbXmmAndXmmGen : Gen :=
  needSpill2 .xmm .s1 .s2 fun
    | false, false =>
      needSpill1 .xmm .d0 fun
        | false => emit [] [vop .vpsubb .xmm d0 s1 s2]
        | true => .null 1
    | true, false =>
      needSpill1 .xmm .d0 fun
        | false => spilledSrc1 .vpsubb .xmm
        | true => .null 1
    | false, true =>
      needSpill1 .xmm .d0 fun
        | false => spilledSrc2 .vpsubb .xmm
        | true => .null 1
    | true, true => .null 1

def vpsubbYmmAndYmmGen : Gen :=
  needSpill3 .ymm .s1 .s2 .d0 fun
    | false, false, false => emit [] [vop .vpsubb .ymm d0 s1 s2]
    | true, false, false => spilledSrc1 .vpsubb .ymm
    | false, true, false => spilledSrc2 .vpsubb .ymm
    | true, true, true =>
      emit [] <|
        borrow .ymm [spill0, spill1]
          [ldSlot .ymm spill0 s1, ldSlot .ymm spill1 s2, vop .vpsubb .ymm spill0 spill0 spill1,
            stSlot .ymm d0 spill0]
    | _, _, _ => .null 1

def rwFuncVpsubb : Gen :=
  regs [.s0, .s1, .s2, .d0] <|
  byWidth .d0 vpsubbXmmAndXmmGen vpsubbYmmAndYmmGen unsupported

def vpsubwXmmAndXmmGen : Gen := vop3Gen .vpsubw .xmm
def vpsubwYmmAndYmmGen : Gen := vop3Gen .vpsubw .ymm

def rwFuncVpsubw : Gen :=
  regs [.s0, .s1, .s2, .d0] <|
  byWidth .d0 vpsubwXmmAndXmmGen vpsubwYmmAndYmmGen unsupported

def vpsubdZmmAndZmmGen : Gen :=
  needSpill1 .zmm .s1 fun
    | false =>
      needSpill1 .zmm .s2 fun
        | false =>
          needSpill1 .zmm .d0 fun
            | false =>
              emit (fresh [s1, s2, d0] 3) <|
                borrow .ymm [t0, t1, t2]
                  [vop .vpsubd .ymm d0 s1 s2, ldHi t0 s1, ldHi t1 s2, vop .vpsubd .ymm t2 t0 t1,
                    save .ymm d0, stHi d0 t2]
            | true => .null 1
        | true => .null 1
    | true => .null 1

/-- Lane-wise operations on xmm registers.  When both sources have to be spilled in, the second
scratch register is not restored; when the second source and the destination have to be, the first
source is restored instead of the scratch register. -/
def xmmArithGen (op : Op) : Gen :=
  needSpill3 .xmm .s1 .s2 .d0 fun
    | false, false, false => emit [] [vop op .xmm d0 s1 s2]
    | true, false, false => spilledSrc1 op .xmm
    | false, true, false => spilledSrc2 op .xmm
    | true, true, false =>
      emit (fresh [d0] 2) <|
        borrow .xmm [t0]
          [save .xmm t1, ldSlot .xmm t0 s1, ldSlot .xmm t1 s2, vop op .xmm d0 t0 t1,
            restore .xmm t0]
    | false, false, true =>
      emit [[s1, s2]] <| borrow .xmm [t0] [vop op .xmm t0 s1 s2, stSlot .xmm d0 t0]
    | true, false, true =>
      emit [[s2]] <| borrow .xmm [t0] [ldSlot .xmm t0 s1, vop op .xmm t0 t0 s2, stSlot .xmm d0 t0]
    | false, true, true =>
      emit [[s1]] <|
        [save .xmm t0, ldSlot .xmm t0 s2, vop op .xmm t0 s1 t0, stSlot .xmm d0 t0,
          restore .xmm s1]
    | true, true, true => spilled3 op .xmm

def vpsubdXmmAndXmmGen : Gen := xmmArithGen .vpsubd
def vpsubdYmmAndYmmGen : Gen := vop3Gen .vpsubd .ymm

def rwFuncVpsubd : Gen :=
  regs [.s0, .s1, .s2, .d0] <|
  byWidth .d0 vpsubdXmmAndXmmGen vpsubdYmmAndYmmGen vpsubdZmmAndZmmGen

def vpsubqZmmAndZmmGen : Gen := zmmArithGen .vpsubq
def vpsubqXmmAndXmmGen : Gen := xmmArithGen .vpsubq
def vpsubqYmmAndYmmGen : Gen := vop3Gen .vpsubq .ymm

def rwFuncVpsubq : Gen :=
  regs [.s0, .s1, .s2, .d0] <|
  byWidth .d0 vpsubqXmmAndXmmGen vpsubqYmmAndYmmGen vpsubqZmmAndZmmGen

def vpaddwXmmAndXmmGen : Gen := xmmArithGen .vpaddw

def vpaddwYmmAndYmmGen : Gen :=
  needSpill3 .ymm .s1 .s2 .d0 fun
    | false, false, false => emit [] [vop .vpaddw .ymm d0 s1 s2]
    | true, false, false => spilledSrc1 .vpaddw .ymm
    | false, true, false => spilledSrc2 .vpaddw .ymm
    | true, false, true =>
      ifQ (.same .d0 .s1)
        (emit [[s2]] <|
           borrow .ymm [t0] [ldSlot .ymm t0 s1, vop .vpaddw .ymm t0 t0 s2, stSlot .ymm d0 t0])
        (emit (fresh [s2] 2) <|
           borrow .ymm [t0, t1] [ldSlot .ymm t0 s1, vop .vpaddw .ymm t1 t0 s2, stSlot .ymm d0 t1])
    | true, true, true => spilled3 .vpaddw .ymm
    | _, _, _ => .null 1

def rwFuncVpaddw : Gen :=
  regs [.s0, .s1, .s2, .d0] <|
  byWidth .d0 vpaddwXmmAndXmmGen vpaddwYmmAndYmmGen unsupported

def vpadddXmmAndXmmGen : Gen := xmmArithGen .vpaddd

def vpadddYmmAndYmmGen : Gen :=
  needSpill3 .ymm .s1 .s2 .d0 fun
    | false, false, false => emit [] [vop .vpaddd .ymm d0 s1 s2]
    | true, false, false => spilledSrc1 .vpaddd .ymm
    | false, true, false => spilledSrc2 .vpaddd .ymm
    | true, true, false =>
      emit (fresh [d0] 2) <|
        borrow .ymm [t0, t1] [ldSlot .ymm t0 s1, ldSlot .ymm t1 s2, vop .vpaddd .ymm d0 t0 t1]
    | false, false, true =>
      emit [[s1, s2]] <| borrow .ymm [t0] [vop .vpaddd .ymm t0 s1 s2, stSlot .ymm d0 t0]
    | true, false, true =>
      emit (fresh [s2] 2) <|
        borrow .ymm [t0, t1] [ldSlot .ymm t0 s1, vop .vpaddd .ymm t1 t0 s2, stSlot .ymm d0 t1]
    | false, true, true =>
      emit (fresh [s1] 2) <|
        borrow .ymm [t0, t1] [ldSlot .ymm t0 s2, vop .vpaddd .ymm t1 s1 t0, stSlot .ymm d0 t1]
    | true, true, true => spilled3 .vpaddd .ymm

def vpadddZmmAndZmmGen : Gen := zmmArithGen .vpaddd

def rwFuncVpaddd : Gen :=
  regs [.s0, .s1, .s2, .d0] <|
  byWidth .d0 vpadddXmmAndXmmGen vpadddYmmAndYmmGen vpadddZmmAndZmmGen

def vpsrldqYmm2ymmGen : Gen :=
  emit [] [ins .vpsrldq (ymm d0) [.app .s0, ymm s1]]

def vpsrldqXmm2xmmGen : Gen :=
  needSpill2 .xmm .s1 .d0 fun
    | false, false => emit [] [ins .vpsrldq (xmm d0) [.app .s0, xmm s1]]
    | true, false =>
      emit [[d0]] <|
        borrow .xmm [t0] [ldSlot .xmm t0 s1, ins .vpsrldq (xmm d0) [.app .s0, xmm t0]]
    | false, true =>
      emit [[s1]] <|
        borrow .xmm [t0] [ins .vpsrldq (xmm t0) [.app .s0, xmm s1], stSlot .xmm d0 t0]
    | true, true =>
      emit (fresh [s1, d0] 2) <|
        borrow .xmm [t0, t1]
          [ldSlot .xmm t0 s1, ins .vpsrldq (xmm t1) [.app .s0, xmm t0], stSlot .xmm d0 t1]

def vpsrldqDisp2ymmGen : Gen :=
  emit [] [ins .vpsrldq (ymm d0) [.app .s0, .app .s1]]

def vpsrldqDisp2xmmGen : Gen :=
  needSpill1 .xmm .d0 fun
    | false =>
      emit [[d0]] <|
        borrow .xmm [t0]
          [ins .vmovdqu (xmm t0) [.app .s1], ins .vpsrldq (xmm d0) [.app .s0, xmm t0]]
    | true =>
      emit (fresh [d0] 2) <|
        borrow .xmm [t0, t1]
          [ins .vmovdqu (xmm t1) [.app .s1], ins .vpsrldq (xmm t0) [.app .s0, xmm t1],
            stSlot .xmm d0 t0]

def rwFuncVpsrldq : Gen :=
  opnds [.s0, .s1] <| regs [.d0] <|
  onKind .s1
    [(.baseDisp, byWidth .d0 vpsrldqDisp2xmmGen vpsrldqDisp2ymmGen unsupported),
      (.reg, byWidth .d0 vpsrldqXmm2xmmGen vpsrldqYmm2ymmGen unsupported)]

/-- `vpmulld` and `vpandd` on xmm registers.  When the first source has to be spilled in, the
scratch register is restored from an operand computed with the macro for ymm registers. -/
def xmmBinGen (op : Op) : Gen :=
  needSpill3 .xmm .s1 .s2 .d0 fun
    | false, false, false => emit [] [vop op .xmm d0 s1 s2]
    | true, false, false =>
      emit [[s2, d0]] <|
        [save .xmm t0, ldSlot .xmm t0 s1, vop op .xmm d0 t0 s2,
          ins .vmovdqu (xmm t0) [.stray (some t0) 58560 32]]
    | false, true, false =>
      emit [[s1, d0]] <| borrow .xmm [t0] [ldSlot .xmm t0 s2, vop op .xmm d0 s1 t0]
    | true, true, false =>
      emit (fresh [d0] 2) <|
        borrow .xmm [t0] <|
          borrow .xmm [t1] [ldSlot .xmm t0 s1, ldSlot .xmm t1 s2, vop op .xmm d0 t0 t1]
    | false, false, true =>
      emit [[s1, s2]] <| borrow .xmm [t0] [vop op .xmm t0 s1 s2, stSlot .xmm d0 t0]
    | true, false, true =>
      emit [[s2, d0]] <|
        borrow .xmm [t0] [ldSlot .xmm t0 s1, vop op .xmm t0 t0 s2, stSlot .xmm d0 t0]
    | false, true, true =>
      emit [[s1, d0]] <|
        borrow .xmm [t0] [ldSlot .xmm t0 s2, vop op .xmm t0 s1 t0, stSlot .xmm d0 t0]
    | true, true, true => .null 1

def vpmulldXmmAndXmmGen : Gen := xmmBinGen .vpmulld

/-- `vpmulld` and `vpandd` on ymm registers. -/
def ymmBinGen (op : Op) : Gen :=
  needSpill3 .ymm .s1 .s2 .d0 fun
    | false, false, false => emit [] [vop op .ymm d0 s1 s2]
    | true, false, false =>
      emit [[s2, d0]] <| borrow .ymm [t0] [ldSlot .ymm t0 s1, vop op .ymm d0 t0 s2]
    | false, true, false =>
      emit [[s1, d0]] <| borrow .ymm [t0] [ldSlot .ymm t0 s2, vop op .ymm d0 s1 t0]
    | true, true, false =>
      emit (fresh [d0] 2) <|
        borrow .ymm [t0] <|
          borrow .ymm [t1] [ldSlot .ymm t0 s1, ldSlot .ymm t1 s2, vop op .ymm d0 t0 t1]
    | false, false, true =>
      emit [[s1, s2]] <| borrow .ymm [t0] [vop op .ymm t0 s1 s2, stSlot .ymm d0 t0]
    | true, false, true =>
      ifQ (.same .d0 .s1)
        (emit [[s2, d0]] <|
           borrow .ymm [t0] [ldSlot .ymm t0 s1, vop op .ymm t0 t0 s2, stSlot .ymm d0 t0])
        (.null 1)
    | _, _, _ => .null 1

def vpmulldYmmAndYmmGen : Gen := ymmBinGen .vpmulld

def rwFuncVpmulld : Gen :=
  regs [.s0, .s1, .s2, .d0] <|
  byWidth .d0 vpmulldXmmAndXmmGen vpmulldYmmAndYmmGen unsupported

def vpanddXmmAndXmmGen : Gen := xmmBinGen .vpand
def vpanddYmmAndYmmGen : Gen := ymmBinGen .vpand

def rwFuncVpandd : Gen :=
  regs [.s0, .s1, .s2, .d0] <|
  byWidth .d0 vpanddXmmAndXmmGen vpanddYmmAndYmmGen unsupported

def vpandqXmmAndXmmGen : Gen := xmmArithGen .vpand

/-- The stack frame of the operations that are done lane by lane in general purpose registers. -/
def scalarEnter : List TInsn :=
  [pushf, push rax, push rcx, push r9, push r10, push rdx, rmw .sub (reg64 rsp) (.imm 96 4)]

/-- Four 64-bit lanes at `rsp + 32` and `rsp + 64`, the results at `rsp`. -/
def scalarLanes (op : Op) : List TInsn :=
  [ins .movLd (reg64 rax) [stk 32 8], rmw op (reg64 rax) (stk 64 8),
    ins .movLd (reg64 r9) [stk 40 8], rmw op (reg64 r9) (stk 72 8),
    ins .movLd (reg64 rcx) [stk 48 8], rmw op (reg64 rcx) (stk 80 8),
    ins .movLd (reg64 r10) [stk 56 8], rmw op (reg64 r10) (stk 88 8),
    ins .movSt (stk 0 8) [reg64 rax], ins .movSt (stk 8 8) [reg64 r9],
    ins .movSt (stk 16 8) [reg64 rcx], ins .movSt (stk 24 8) [reg64 r10]]

def scalarLeave : List TInsn :=
  [rmw .add (reg64 rsp) (.imm 96 4), pop rdx, pop r10, pop r9, pop rcx, pop rax, popf]

/-- `vpandq` and `vpmullq` on ymm registers. -/
def ymmScalarGen (op : Op) : Gen :=
  needSpill3 .ymm .s1 .s2 .d0 fun
    | false, false, false =>
      emit [] <|
        scalarEnter ++
        [ins .vmovdqu (stk 32 32) [.app .s1], ins .vmovdqu (stk 64 32) [.app .s2]] ++
        scalarLanes op ++ [ins .vmovdqu (.app .d0) [stk 0 32]] ++ scalarLeave
    | true, false, false =>
      emit [[s2]] <|
        scalarEnter ++
        [save .ymm t0, ldSlot .ymm t0 s1, ins .vmovdqu (stk 32 32) [ymm t0],
          ins .vmovdqu (stk 64 32) [.app .s2], restore .ymm t0] ++
        scalarLanes op ++ [ins .vmovdqu (.app .d0) [stk 0 32]] ++ scalarLeave
    | false, true, false =>
      emit [[s1]] <|
        scalarEnter ++
        [save .ymm t0, ldSlot .ymm t0 s2, ins .vmovdqu (stk 32 32) [.app .s1],
          ins .vmovdqu (stk 64 32) [ymm t0], restore .ymm t0] ++
        scalarLanes op ++ [ins .vmovdqu (.app .d0) [stk 0 32]] ++ scalarLeave
    | true, true, false =>
      emit (fresh [d0] 2) <|
        scalarEnter ++ saves .ymm [t0, t1] ++
        [ldSlot .ymm t0 s1, ldSlot .ymm t1 s2, ins .vmovdqu (stk 32 32) [ymm t0],
          ins .vmovdqu (stk 64 32) [ymm t1]] ++
        scalarLanes op ++ [ins .vmovdqu (ymm d0) [stk 0 32]] ++ restores .ymm [t0, t1] ++
        scalarLeave
    | false, false, true =>
      emit [[s1, s2]] <|
        scalarEnter ++
        [ins .vmovdqu (stk 32 32) [.app .s1], ins .vmovdqu (stk 64 32) [.app .s2]] ++
        scalarLanes op ++
        [save .ymm t0, ins .vmovdqu (ymm t0) [stk 0 32], stSlot .ymm d0 t0, restore .ymm t0] ++
        scalarLeave
    | true, false, true =>
      emit [[s2]] <|
        scalarEnter ++
        [save .ymm t0, ldSlot .ymm t0 s1, ins .vmovdqu (stk 32 32) [ymm t0],
          ins .vmovdqu (stk 64 32) [.app .s2]] ++
        scalarLanes op ++ [ins .vmovdqu (ymm t0) [stk 0 32], stSlot .ymm d0 t0, restore .ymm t0] ++
        scalarLeave
    | false, true, true =>
      emit [[s1]] <|
        scalarEnter ++
        [save .ymm t0, ldSlot .ymm t0 s2, ins .vmovdqu (stk 32 32) [.app .s1],
          ins .vmovdqu (stk 64 32) [ymm t0]] ++
        scalarLanes op ++ [ins .vmovdqu (ymm t0) [stk 0 32], stSlot .ymm d0 t0, restore .ymm t0] ++
        scalarLeave
    | true, true, true =>
      emit [] <|
        scalarEnter ++ saves .ymm [spill0, spill1] ++
        [ldSlot .ymm spill0 s1, ldSlot .ymm spill1 s2, ins .vmovdqu (stk 32 32) [ymm spill0],
          ins .vmovdqu (stk 64 32) [ymm spill1]] ++
        scalarLanes op ++ [ins .vmovdqu (ymm spill0) [stk 0 32], stSlot .ymm d0 spill0] ++
        restores .ymm [spill0, spill1] ++ scalarLeave

def vpandqYmmAndYmmGen : Gen := ymmScalarGen .and

def rwFuncVpandq : Gen :=
  regs [.s0, .s1, .s2, .d0] <|
  byWidth .d0 vpandqXmmAndXmmGen vpandqYmmAndYmmGen unsupported

/-- The code of `vpmullq_ymm_and_mem_gen`: the operand is read so many bytes further on, which makes
up for the pushes where its base is `rsp`. -/
def vpmullqYmmMem (shift : ℤ) : List TInsn :=
  scalarEnter ++
  [ins .vmovdqu (stk 32 32) [.app .s1], ins .movLd (reg64 rdx) [.mem .s2 shift 8],
    ins .movSt (stk 64 8) [reg64 rdx], ins .movLd (reg64 rdx) [.mem .s2 (shift + 8) 8],
    ins .movSt (stk 72 8) [reg64 rdx], ins .movLd (reg64 rdx) [.mem .s2 (shift + 16) 8],
    ins .movSt (stk 80 8) [reg64 rdx], ins .movLd (reg64 rdx) [.mem .s2 (shift + 24) 8],
    ins .movSt (stk 88 8) [reg64 rdx]] ++
  scalarLanes .imul ++ [ins .vmovdqu (.app .d0) [stk 0 32]] ++ scalarLeave

def vpmullqYmmAndMemGen : Gen :=
  ifQ (.test .s2 .isMem)
    (ifQ (.test .s2 (.isKind .baseDisp))
       (ifQ (.baseIs .s2 .rsp) (emit [] (vpmullqYmmMem 144)) (emit [] (vpmullqYmmMem 0)))
       .abort)
    .abort

/-- The code of `vpmullq_xmm_and_mem_gen`. -/
def vpmullqXmmMem (shift : ℤ) : List TInsn :=
  [push rax, push rbx, push rcx, push rdx, pushf, save .xmm spill5,
    ins .vmovq (reg64 rax) [.app .s1], ins .movLd (reg64 rbx) [.mem .s2 shift 8],
    rmw .imul (reg64 rax) (reg64 rbx), ins .pextrq (reg64 rcx) [.app .s1, .imm 1 1],
    ins .movLd (reg64 rdx) [.mem .s2 (shift + 8) 8], rmw .imul (reg64 rdx) (reg64 rcx),
    ins .vmovq (.app .d0) [reg64 rax], ins .vmovq (xmm spill5) [reg64 rdx],
    ins .vmovlhps (.app .d0) [.app .d0, xmm spill5], restore .xmm spill5, popf, pop rdx, pop rcx,
    pop rbx, pop rax]

def vpmullqXmmAndMemGen : Gen :=
  ifQ (.test .s2 .isMem)
    (ifQ (.test .s2 (.isKind .baseDisp))
       (ifQ (.baseIs .s2 .rsp) (emit [] (vpmullqXmmMem 40)) (emit [] (vpmullqXmmMem 0)))
       .abort)
    .abort

def vpmullqYmmAndYmmGen : Gen := ymmScalarGen .imul

def vpmullqXmmAndXmmGen : Gen :=
  emit []
    [push rax, push rbx, push rcx, push rdx, pushf, save .xmm spill5,
      ins .vmovq (reg64 rax) [.app .s1], ins .vmovq (reg64 rbx) [.app .s2],
      ins .pextrq (reg64 rcx) [.app .s1, .imm 1 1], ins .pextrq (reg64 rdx) [.app .s2, .imm 1 1],
      rmw .imul (reg64 rax) (reg64 rbx), rmw .imul (reg64 rdx) (reg64 rcx),
      ins .vmovq (.app .d0) [reg64 rax], ins .vmovq (xmm spill5) [reg64 rdx],
      ins .vmovlhps (.app .d0) [.app .d0, xmm spill5], restore .xmm spill5, popf, pop rdx, pop rcx,
      pop rbx, pop rax]

def rwFuncVpmullq : Gen :=
  opnds [.s0, .s1, .s2, .d0] <|
  ifQ (.test .s2 (.isKind .reg))
    (regs [.s0, .s1, .d0] <| byWidth .d0 vpmullqXmmAndXmmGen vpmullqYmmAndYmmGen unsupported)
    (regs [.s0, .s1, .d0] <| byWidth .d0 vpmullqXmmAndMemGen vpmullqYmmAndMemGen unsupported)

def vporqZmmAndZmmGen : Gen := zmmArithGen .vpor

def vporqYmmAndYmmGen : Gen :=
  ifQ (.isK .s0 0)
    (needSpill3 .ymm .s1 .s2 .d0 fun
       | false, false, false => emit [] [vop .vpor .ymm d0 s1 s2]
       | true, false, false =>
         emit [[s2]] <| borrow .ymm [t0] [ldSlot .ymm t0 s1, vop .vpor .ymm d0 t0 s2]
       | false, true, false =>
         emit [[s1]] <| borrow .ymm [t0] [ldSlot .ymm t0 s2, vop .vpor .ymm d0 s1 t0]
       | true, true, false =>
         emit (fresh [d0] 2) <|
           borrow .ymm [t0, t1] [ldSlot .ymm t0 s1, ldSlot .ymm t1 s2, vop .vpor .ymm d0 t0 t1]
       | false, false, true =>
         emit [[s1, s2]] <| borrow .ymm [t0] [vop .vpor .ymm t0 s1 s2, stSlot .ymm d0 t0]
       | true, false, true =>
         emit [[s2]] <|
           borrow .ymm [t0] [ldSlot .ymm t0 s1, vop .vpor .ymm t0 t0 s2, stSlot .ymm d0 t0]
       | false, true, true =>
         emit [[s1]] <|
           borrow .ymm [t0] [ldSlot .ymm t0 s2, vop .vpor .ymm t0 s1 t0, stSlot .ymm d0 t0]
       | true, true, true =>
         emit [] <|
           borrow .ymm [spill0, spill1]
             [ldSlot .ymm spill0 s1, ldSlot .ymm spill1 s2, vop .vpor .ymm spill0 spill0 spill1,
               stSlot .ymm d0 spill0])
    (.null 1)

def vporqXmmAndXmmGen : Gen :=
  needSpill3 .xmm .s1 .s2 .d0 fun
    | false, false, false => ifQ (.isK .s0 0) (emit [] [vop .vpor .xmm d0 s1 s2]) (.null 1)
    | true, false, false =>
      ifQ (.isK .s0 0)
        (emit [[s1]] <| borrow .xmm [t0] [ldSlot .xmm t0 s1, vop .vpor .xmm d0 t0 s2])
        (.null 1)
    | false, true, false =>
      ifQ (.isK .s0 0)
        (emit [[s2]] <| borrow .xmm [t0] [ldSlot .xmm t0 s2, vop .vpor .xmm d0 s1 t0])
        (.null 1)
    | true, true, false =>
      ifQ (.same .s1 .s2)
        (ifQ (.isK .s0 0)
           (ifQ (.isSpill .d0 0)
              (emit [[s1]] <|
                 borrow .xmm [spill1] [ldSlot .xmm spill1 s1, vop .vpor .xmm d0 spill1 spill1])
              (emit [[s1]] <| borrow .xmm [t0] [ldSlot .xmm t0 s1, vop .vpor .xmm d0 t0 t0]))
           (.null 1))
        (ifQ (.isK .s0 0)
           (emit (fresh [s1, s2] 2) <|
              borrow .xmm [t0, t1] [ldSlot .xmm t0 s1, ldSlot .xmm t1 s2, vop .vpor .xmm d0 t0 t1])
           (.null 1))
    | false, false, true =>
      ifQ (.isK .s0 0)
        (emit [[d0]] <| borrow .xmm [t0] [vop .vpor .xmm t0 s1 s2, stSlot .xmm d0 t0])
        (.null 1)
    | true, false, true =>
      ifQ (.same .d0 .s1)
        (ifQ (.isK .s0 0)
           (ifQ (.isSpill .s2 0)
              (emit [[s1]] <|
                 borrow .xmm [spill1]
                   [ldSlot .xmm spill1 s1, vop .vpor .xmm spill1 spill1 s2, stSlot .xmm d0 spill1])
              (emit [[s1]] <|
                 borrow .xmm [t0] [ldSlot .xmm t0 s1, vop .vpor .xmm t0 t0 s2, stSlot .xmm d0 t0]))
           (.null 1))
        (ifQ (.isK .s0 0)
           (emit (fresh [s1, d0] 2) <|
              borrow .xmm [t0] <|
                borrow .xmm [t1] [ldSlot .xmm t0 s1, vop .vpor .xmm t1 t0 s2, stSlot .xmm d0 t1])
           (.null 1))
    | false, true, true =>
      ifQ (.same .d0 .s2)
        (ifQ (.isK .s0 0)
           (emit [[s2, s1]] <|
              borrow .xmm [t0] [ldSlot .xmm t0 s2, vop .vpor .xmm t0 s1 t0, stSlot .xmm d0 t0])
           (.null 1))
        (ifQ (.isK .s0 0)
           (emit (fresh [s2, d0] 2) <|
              borrow .xmm [t0] <|
                borrow .xmm [t1] [ldSlot .xmm t0 s2, vop .vpor .xmm t1 s1 t0, stSlot .xmm d0 t1])
           (.null 1))
    | true, true, true =>
      ifQ (.same .d0 .s1)
        (ifQ (.same .d0 .s2)
           (.null 1)
           (ifQ (.isK .s0 0)
              (emit (fresh [s1, s2] 2) <|
                 borrow .xmm [t0, t1]
                   [ldSlot .xmm t0 s1, ldSlot .xmm t1 s2, vop .vpor .xmm t0 t0 t1,
                     stSlot .xmm d0 t0])
              (.null 1)))
        (ifQ (.same .d0 .s2)
           (ifQ (.isK .s0 0)
              (emit (fresh [s1, s2] 2) <|
                 borrow .xmm [t0, t1]
                   [ldSlot .xmm t0 s1, ldSlot .xmm t1 s2, vop .vpor .xmm t1 t0 t1,
                     stSlot .xmm d0 t1])
              (.null 1))
           (ifQ (.same .s1 .s2)
              (ifQ (.isK .s0 0)
                 (ifQ (.isSpill .d0 0)
                    (emit [[s1]] <|
                       borrow .xmm [spill1]
                         [ldSlot .xmm spill1 s1, vop .vpor .xmm d0 spill1 spill1])
                    (emit [[s1]] <| borrow .xmm [t0] [ldSlot .xmm t0 s1, vop .vpor .xmm d0 t0 t0]))
                 (.null 1))
              (.null 1)))

def rwFuncVporq : Gen :=
  regs [.s0, .s1, .s2, .d0] <|
  byWidth .d0 vporqXmmAndXmmGen vporqYmmAndYmmGen vporqZmmAndZmmGen

/-- The two shifts that make up a rotation. -/
def rotateLanes (l r : ImmFn) : List TInsn :=
  [rmw .vpsllq (ymm t0) (.immOf .s1 l), rmw .vpsrlq (ymm t1) (.immOf .s1 r)]

/-- `vprolq` and `vprorq` on zmm registers, half by half.  The scratch registers are found without
naming the operands to avoid. -/
def zmmRotateGen (l r : ImmFn) : Gen :=
  needSpill2 .zmm .s2 .d0 fun
    | false, false =>
      emit (fresh [] 2) <|
        borrow .ymm [t0, t1] <|
          [ins .vmovdqu (ymm t0) [ymm s2], ins .vmovdqu (ymm t1) [ymm s2]] ++ rotateLanes l r ++
          [vop .vpor .ymm d0 t1 t0, ldHi t0 s2, ins .vmovdqu (ymm t1) [ymm t0]] ++
          rotateLanes l r ++ [vop .vpor .ymm t0 t1 t0, stHi d0 t0]
    | true, false =>
      emit (fresh [] 2) <|
        borrow .ymm [t0, t1] <|
          [ldSlot .ymm t0 s2, ins .vmovdqu (ymm t1) [ymm t0]] ++ rotateLanes l r ++
          [vop .vpor .ymm d0 t1 t0, ldHi t0 s2, ins .vmovdqu (ymm t1) [ymm t0]] ++
          rotateLanes l r ++ [vop .vpor .ymm t0 t1 t0, stHi d0 t0]
    | false, true =>
      emit (fresh [] 2) <|
        borrow .ymm [t0, t1] <|
          [ins .vmovdqu (ymm t0) [ymm s2], ins .vmovdqu (ymm t1) [ymm s2]] ++ rotateLanes l r ++
          [vop .vpor .ymm t0 t1 t0, stSlot .ymm d0 t0, ldHi t0 s2,
            ins .vmovdqu (ymm t1) [ymm t0]] ++
          rotateLanes l r ++ [vop .vpor .ymm t0 t1 t0, stHi d0 t0]
    | true, true =>
      emit (fresh [] 2) <|
        borrow .ymm [t0, t1] <|
          [ldSlot .ymm t0 s2, ins .vmovdqu (ymm t1) [ymm t0]] ++ rotateLanes l r ++
          [vop .vpor .ymm t0 t1 t0, stSlot .ymm d0 t0, ldHi t0 s2,
            ins .vmovdqu (ymm t1) [ymm t0]] ++
          rotateLanes l r ++ [vop .vpor .ymm t0 t1 t0, stHi d0 t0]

/-- `vprolq` and `vprorq` on ymm registers. -/
def ymmRotateGen (l r : ImmFn) : Gen :=
  emit (fresh [s2] 2) <|
    borrow .ymm [t0, t1] <|
      [ins .vmovdqu (ymm t0) [ymm s2], ins .vmovdqu (ymm t1) [ymm s2]] ++ rotateLanes l r ++
      [vop .vpor .ymm d0 t1 t0]

def vprolqZmmAndImmedGen : Gen := zmmRotateGen .rotate .rotateBack
def vprolqYmmAndImmedGen : Gen := ymmRotateGen .rotate .rotateBack

/-- `vprolq` and `vprorq` on xmm registers. -/
def xmmRotateGen (op1 op2 : Op) : Gen :=
  emit [] <|
    borrow .xmm [spill4, spill5]
      [ins .vmovdqu (xmm spill4) [xmm s2], ins .vmovdqu (xmm spill5) [xmm s2],
        rmw op1 (xmm spill4) (.immOf .s1 .rotate),
        rmw op2 (xmm spill5) (.immOf .s1 .rotateBack), vop .vpor .xmm d0 spill5 spill4]

def vprolqXmmAndImmedGen : Gen := xmmRotateGen .vpsllq .vpsrlq

def rwFuncVprolq : Gen :=
  opnds [.s1] <| regs [.s0, .s2, .d0] <|
  onKind .s1
    [(.immed, byWidth .d0 vprolqXmmAndImmedGen vprolqYmmAndImmedGen vprolqZmmAndImmedGen),
     (.reg, byWidth .d0 unsupported unsupported unsupported)]

/-- `vprord` counts as if the lanes had 64 bits. -/
def vprordXmmAndImmedGen : Gen := xmmRotateGen .psrld .pslld

def vprordYmmAndImmedGen : Gen :=
  emit (fresh [s2] 2) <|
    borrow .ymm [t0, t1]
      [ins .vmovdqu (ymm t0) [ymm s2], ins .vmovdqu (ymm t1) [ymm s2],
        rmw .vpslld (ymm t0) (.immOf .s1 .rotateBack), rmw .vpsrld (ymm t1) (.immOf .s1 .rotate),
        vop .vpor .ymm d0 t1 t0]

/-- The handler of `vprord`, to which no entry of the table refers. -/
def rwFuncVprord : Gen :=
  opnds [.s1] <| regs [.s0, .s2, .d0] <|
  onKind .s1
    [(.immed, byWidth .d0 vprordXmmAndImmedGen vprordYmmAndImmedGen unsupported),
     (.reg, byWidth .d0 unsupported unsupported unsupported)]

def vprorqZmmAndImmedGen : Gen := zmmRotateGen .rotateBack .rotate
def vprorqYmmAndImmedGen : Gen := ymmRotateGen .rotateBack .rotate
def vprorqXmmAndImmedGen : Gen := xmmRotateGen .vpsrlq .vpsllq

def rwFuncVprorq : Gen :=
  opnds [.s1] <| regs [.s0, .s2, .d0] <|
  onKind .s1
    [(.immed, byWidth .d0 vprorqXmmAndImmedGen vprorqYmmAndImmedGen vprorqZmmAndImmedGen),
     (.reg, byWidth .d0 unsupported unsupported unsupported)]

def vpxordXmmAndXmmGen : Gen :=
  ifQ (.same .s1 .s2)
    (needSpill1 .xmm .s1 fun
       | false =>
         ifQ (.same .d0 .s1)
           (emit [] [vop .vpxor .xmm d0 s1 s2])
           (needSpill1 .xmm .d0 fun
              | false => emit [] [vop .vpxor .xmm d0 s1 s2]
              | true => .null 1)
       | true =>
         ifQ (.same .d0 .s1)
           (emit [[]] <| borrow .ymm [t0] [vop .vpxor .xmm t0 t0 t0, stSlot .ymm s1 t0])
           (.null 1))
    (needSpill1 .xmm .s1 fun
       | false =>
         needSpill1 .xmm .s2 fun
           | false =>
             needSpill1 .xmm .d0 fun
               | false => emit [] [vop .vpxor .xmm d0 s1 s2]
               | true => .null 1
           | true => .null 1
       | true => .null 1)

def vpxordYmmAndYmmGen : Gen :=
  ifQ (.isK .s0 0) (emit [] [vop .vpxor .ymm d0 s1 s2]) (.null 1)

def rwFuncVpxord : Gen :=
  regs [.s0, .s1, .s2, .d0] <|
  byWidth .s1 vpxordXmmAndXmmGen vpxordYmmAndYmmGen unsupported

/-- `vpxorq` on xmm and ymm registers looks at the slot of `k0` when the block is rewritten. -/
def xorqGen (w : VecWidth) : Gen :=
  ifQ (.isK .s0 0)
    (ifQ (.kslotIs .s0 0)
       (emit [] [vop .vpxor w d0 s1 s2])
       (ifQ (.kslotIs .s0 2) (emit [] [vop .vpxor w d0 s1 s2]) (.null 1)))
    (.null 1)

def vpxorqXmmAndXmmGen : Gen := xorqGen .xmm
def vpxorqYmmAndYmmGen : Gen := xorqGen .ymm
def vpxorqZmmAndZmmGen : Gen := zmmArithGen .vpxor

def rwFuncVpxorq : Gen :=
  regs [.s0, .s1, .s2, .d0] <|
  byWidth .s1 vpxorqXmmAndXmmGen vpxorqYmmAndYmmGen vpxorqZmmAndZmmGen

end DrAvx
