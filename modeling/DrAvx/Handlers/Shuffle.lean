import DrAvx.Handlers.Common

/-!
# Handlers of the moves between lanes

Interleaving, packing, extension, extraction, broadcasts.
-/

set_option autoImplicit false

namespace DrAvx

/-- The interleaving moves, on xmm registers as far as spilling is concerned. -/
def unpackGen (op : Op) : Gen :=
  regs [.s1, .s2, .d0] <|
  needSpill3 .xmm .s1 .s2 .d0 fun
    | false, false, false => emit [] [ins op (.app .d0) [.app .s1, .app .s2]]
    | true, false, false =>
      ifQ (.same .d0 .s2)
        (emit [[s2]] <| borrow .xmm [t0] [ldSlot .xmm t0 s1, ins op (.app .d0) [xmm t0, .app .s2]])
        (emit [[s2, d0]] <|
           borrow .xmm [t0] [ldSlot .xmm t0 s1, ins op (.app .d0) [xmm t0, .app .s2]])
    | false, true, false =>
      ifQ (.same .d0 .s1)
        (emit [[s2]] <| borrow .xmm [t0] [ldSlot .xmm t0 s2, ins op (.app .d0) [.app .s1, xmm t0]])
        (emit [[s1, d0]] <|
           borrow .xmm [t0] [ldSlot .xmm t0 s2, ins op (.app .d0) [.app .s1, xmm t0]])
    | true, true, false =>
      emit [] <|
        borrow .xmm [spill0, spill1]
          [ldSlot .xmm spill0 s1, ldSlot .xmm spill1 s2,
            ins op (.app .d0) [xmm spill0, xmm spill1]]
    | false, false, true =>
      emit [] <|
        borrow .xmm [spill0] [ins op (xmm spill0) [.app .s1, .app .s2], stSlot .xmm d0 spill0]
    | true, false, true =>
      emit [] <|
        borrow .xmm [spill0, spill1]
          [ldSlot .xmm spill0 s1, ins op (xmm spill1) [xmm spill0, .app .s2],
            stSlot .xmm d0 spill1]
    | false, true, true =>
      emit [] <|
        borrow .xmm [spill0, spill1]
          [ldSlot .xmm spill0 s2, ins op (xmm spill1) [.app .s1, xmm spill0],
            stSlot .xmm d0 spill1]
    | true, true, true => spilled3 op .xmm

def rwFuncVunpcklps : Gen := unpackGen .vunpcklps
def rwFuncVunpcklpd : Gen := unpackGen .vunpcklpd
def rwFuncVunpckhps : Gen := unpackGen .vunpckhps
def rwFuncVunpckhpd : Gen := unpackGen .vunpckhpd

def vpackuswbXmmRegRegGen : Gen :=
  needSpill3 .xmm .s1 .s2 .d0 fun
    | false, false, false => emit [] [vop .vpackuswb .xmm d0 s1 s2]
    | true, false, false =>
      emit [[s2, d0]] <| borrow .xmm [t0] [ldSlot .xmm t0 s1, vop .vpackuswb .xmm d0 t0 s2]
    | false, true, false =>
      emit [[s1, d0]] <| borrow .xmm [t0] [ldSlot .xmm t0 s2, vop .vpackuswb .xmm d0 s1 t0]
    | true, true, false =>
      emit (fresh [d0] 2) <|
        borrow .xmm [t0, t1] [ldSlot .xmm t0 s1, ldSlot .xmm t1 s2, vop .vpackuswb .xmm d0 t0 t1]
    | false, false, true =>
      emit [[s1, s2]] <| borrow .xmm [t0] [vop .vpackuswb .xmm t0 s1 s2, stSlot .xmm d0 t0]
    | true, false, true =>
      emit [[s2]] <|
        borrow .xmm [t0] [ldSlot .xmm t0 s1, vop .vpackuswb .xmm t0 t0 s2, stSlot .xmm d0 t0]
    | false, true, true =>
      emit [[s1]] <|
        borrow .xmm [t0] [ldSlot .xmm t0 s2, vop .vpackuswb .xmm t0 s1 t0, stSlot .xmm d0 t0]
    | true, true, true =>
      emit [] <|
        borrow .xmm [spill0, spill1]
          [ldSlot .xmm spill0 s1, ldSlot .xmm spill1 s2, vop .vpackuswb .xmm spill0 spill0 spill1,
            stSlot .xmm d0 spill0]

def rwFuncVpackuswb : Gen :=
  regs [.s0, .s1, .s2, .d0] <|
  byWidth .d0 vpackuswbXmmRegRegGen unsupported unsupported

def vpmovsxwdXmmReg2regGen : Gen := reg2regGen .vpmovsxwd .xmm

/-- Extends an xmm register to a ymm register.  A source that has to be spilled in is loaded as a
ymm register and used as one. -/
def ymmExtendGen (op : Op) : Gen :=
  needSpill2 .ymm .s1 .d0 fun
    | false, false => emit [] [ins op (ymm d0) [xmm s1]]
    | true, false => emit [[d0]] <| borrow .ymm [t0] [ldSlot .ymm t0 s1, ins op (ymm d0) [ymm t0]]
    | false, true => emit [[]] <| borrow .ymm [t0] [ins op (ymm t0) [xmm s1], stSlot .ymm d0 t0]
    | true, true =>
      emit [] <|
        borrow .ymm [spill0]
          [ldSlot .ymm spill0 s1, ins op (ymm spill0) [ymm spill0], stSlot .ymm d0 spill0]

def vpmovsxwdYmmReg2regGen : Gen := ymmExtendGen .vpmovsxwd

def rwFuncVpmovsxwd : Gen :=
  opnds [.s1, .d0] <| regs [.s0] <|
  onKind .s1
    [(.reg,
       onKind .d0
         [(.reg, byWidth .d0 vpmovsxwdXmmReg2regGen vpmovsxwdYmmReg2regGen unsupported)])]

def vpmovsxdqXmmReg2regGen : Gen := reg2regGen .vpmovsxdq .xmm
def vpmovsxdqYmmReg2regGen : Gen := ymmExtendGen .vpmovsxdq

def rwFuncVpmovsxdq : Gen :=
  opnds [.s1, .d0] <| regs [.s0] <|
  onKind .s1
    [(.reg, regs [.d0] <| byWidth .d0 vpmovsxdqXmmReg2regGen vpmovsxdqYmmReg2regGen unsupported)]

def vpmovzxbwXmmReg2regGen : Gen := reg2regGen .vpmovzxbw .xmm
def vpmovzxbwYmmReg2regGen : Gen := ymmExtendGen .vpmovzxbw

def rwFuncVpmovzxbw : Gen :=
  opnds [.s1, .d0] <| regs [.s0] <|
  onKind .s1
    [(.reg,
       onKind .d0
         [(.reg, byWidth .d0 vpmovzxbwXmmReg2regGen vpmovzxbwYmmReg2regGen unsupported)])]

def vpmovzxwdXmmReg2regGen : Gen :=
  needSpill2 .xmm .s1 .d0 fun
    | false, false => emit [] [ins .vpmovzxwd (xmm d0) [xmm s1]]
    | true, false =>
      emit [[s1]] <| borrow .xmm [t0] [ldSlot .xmm t0 s1, ins .vpmovzxwd (xmm d0) [xmm t0]]
    | false, true =>
      emit [[s1]] <| borrow .xmm [t0] [ins .vpmovzxwd (xmm t0) [xmm s1], stSlot .xmm d0 t0]
    | true, true =>
      emit [] <|
        borrow .xmm [spill0]
          [ldSlot .xmm spill0 s1, ins .vpmovzxwd (xmm spill0) [xmm spill0], stSlot .xmm d0 spill0]

def vpmovzxwdYmmReg2regGen : Gen :=
  emit [] [ins .vpmovzxwd (ymm d0) [xmm s1]]

def rwFuncVpmovzxwd : Gen :=
  opnds [.s1, .d0] <| regs [.s0] <|
  onKind .s1
    [(.reg,
       onKind .d0
         [(.reg, byWidth .d0 vpmovzxwdXmmReg2regGen vpmovzxwdYmmReg2regGen unsupported)])]

def vpmovzxdqYmmReg2regGen : Gen := ymmExtendGen .vpmovzxdq
def vpmovzxdqXmmReg2regGen : Gen := reg2regGen .vpmovzxdq .xmm

def rwFuncVpmovzxdq : Gen :=
  opnds [.s1, .d0] <| regs [.s0] <|
  onKind .s1
    [(.reg,
       onKind .d0
         [(.reg, byWidth .d0 vpmovzxdqXmmReg2regGen vpmovzxdqYmmReg2regGen unsupported)])]

/-- `rw_func_vpextr_` looks at the opcode; these are its three cases.  `vpextrq` emits `vpextrd`,
and `vpextrd` unlinks the instruction twice. -/
def vpextrGen (removed : ℕ) (op : Op) : Gen :=
  opnds [.s1, .d0] <| regs [.s0] <|
  needSpill1 .xmm .s0 fun
    | false => chain removed true [] [] [ins op (.app .d0) [.app .s0, .app .s1]]
    | true =>
      chain removed true [] [] <|
        borrow .xmm [spill0] [ldSlot .xmm spill0 s0, ins op (.app .d0) [xmm spill0, .app .s1]]

def rwFuncVpextrb : Gen := vpextrGen 1 .vpextrb
def rwFuncVpextrd : Gen := vpextrGen 2 .vpextrd
def rwFuncVpextrq : Gen := vpextrGen 1 .vpextrd

/-- Broadcasts from memory to a zmm register. -/
def zmmBroadcastDispGen (op : Op) : Gen :=
  regs [.d0] <|
  needSpill1 .zmm .d0 fun
    | false => emit [] [ins op (ymm d0) [.app .s1], save .ymm d0, stHi d0 d0]
    | true =>
      emit [] <|
        borrow .ymm [spill0]
          [ins op (ymm spill0) [.app .s1], stSlot .ymm d0 spill0, stHi d0 spill0]

def vpbroadcastbZmmDisp2regGen : Gen := zmmBroadcastDispGen .vpbroadcastb

def vpbroadcastbYmmDisp2regGen : Gen := plainLoadGen .vpbroadcastb .ymm
def vpbroadcastbXmmDisp2regGen : Gen := plainLoadGen .vpbroadcastb .xmm

def vpbroadcastbZmmReg2regGen : Gen :=
  needSpill1 .ymm .d0 fun
    | false =>
      ifQ (.isK .s0 0)
        (emit [] [ins .vpbroadcastb (ymm d0) [.app .s1], save .ymm d0, stHi d0 d0])
        (.null 1)
    | true =>
      ifQ (.isK .s0 0)
        (emit [] <|
           borrow .ymm [spill0]
             [ins .vpbroadcastb (ymm spill0) [.app .s1], stSlot .ymm d0 spill0, stHi d0 spill0])
        (.null 1)

/-- Broadcasts from a general purpose register to a ymm register. -/
def ymmBroadcastGprGen (op1 op2 : Op) : Gen :=
  needSpill1 .ymm .d0 fun
    | false =>
      ifQ (.isK .s0 0)
        (emit [] [ins op1 (xmm d0) [.app .s1], ins op2 (ymm d0) [xmm d0]])
        (.null 1)
    | true =>
      ifQ (.isK .s0 0)
        (emit [] <|
           borrow .ymm [spill0]
             [ins op1 (xmm spill0) [.app .s1], ins op2 (ymm spill0) [xmm spill0],
               stSlot .ymm d0 spill0])
        (.null 1)

def vpbroadcastbYmmReg2regGen : Gen := ymmBroadcastGprGen .vmovd .vpbroadcastb

/-- Broadcasts from a general purpose register to an xmm register, taken as it is. -/
def xmmBroadcastGprGen (op : Op) : Gen :=
  chain 1 false [] [] [ins .vmovd (xmm d0) [.app .s1], ins op (xmm d0) [xmm d0]]

def vpbroadcastbXmmReg2regGen : Gen := xmmBroadcastGprGen .vpbroadcastb

def vpbroadcastwXmmDisp2regGen : Gen := loadGen .vpbroadcastw .xmm
def vpbroadcastwYmmDisp2regGen : Gen := loadGen .vpbroadcastw .ymm
def vpbroadcastwZmmDisp2regGen : Gen := zmmBroadcastDispGen .vpbroadcastw

/-- The same with spilling. -/
def xmmBroadcastSpillGen (op1 op2 : Op) : Gen :=
  needSpill1 .xmm .d0 fun
    | false => chain 1 false [] [] [ins op1 (xmm d0) [.app .s1], ins op2 (xmm d0) [xmm d0]]
    | true =>
      emit [] <|
        borrow .xmm [spill0]
          [ins op1 (xmm spill0) [.app .s1], ins op2 (xmm spill0) [xmm spill0],
            stSlot .xmm d0 spill0]

def vpbroadcastwXmmReg2regGen : Gen := xmmBroadcastSpillGen .vmovd .vpbroadcastw

def vpbroadcastwYmmReg2regGen : Gen :=
  needSpill1 .ymm .d0 fun
    | false => emit [] [ins .vmovd (xmm d0) [.app .s1], ins .vpbroadcastw (ymm d0) [xmm d0]]
    | true =>
      emit [] <|
        [ins .vmovdqu (.slot spill0 false 16) [ymm spill0], ins .vmovd (xmm spill0) [.app .s1],
          ins .vpbroadcastw (ymm spill0) [xmm spill0],
          ins .vmovdqu (.slot d0 false 16) [ymm spill0],
          ins .vmovdqu (ymm spill0) [.slot spill0 false 16]]

def vpbroadcastwZmmReg2regGen : Gen :=
  needSpill1 .zmm .d0 fun
    | false =>
      emit [[d0]] <|
        [ins .vmovd (xmm d0) [.app .s1], ins .vpbroadcastw (ymm d0) [xmm d0], save .ymm d0,
          ins .vmovdqu (ymm t0) [ymm d0], stHi d0 t0]
    | true =>
      emit [] <|
        borrow .ymm [spill0, spill1]
          [ins .vmovd (xmm spill0) [.app .s1], ins .vpbroadcastw (ymm spill0) [xmm spill0],
            stSlot .ymm d0 spill0, ins .vmovdqu (ymm spill1) [ymm spill0], stHi d0 spill1]

def vpbroadcastdXmmDisp2regGen : Gen := plainLoadGen .vpbroadcastd .xmm
def vpbroadcastdYmmDisp2regGen : Gen := plainLoadGen .vpbroadcastd .ymm
def vpbroadcastdZmmDisp2regGen : Gen := zmmBroadcastDispGen .vpbroadcastd
def vpbroadcastdXmmReg2regGen : Gen := xmmBroadcastGprGen .vpbroadcastd
def vpbroadcastdYmmReg2regGen : Gen := ymmBroadcastGprGen .vmovd .vpbroadcastd

def vpbroadcastdZmmReg2regGen : Gen :=
  needSpill1 .ymm .d0 fun
    | false =>
      ifQ (.isK .s0 0)
        (emit [] <|
           [ins .vmovd (xmm d0) [.app .s1], ins .vpbroadcastd (ymm d0) [xmm d0], save .ymm d0,
             stHi d0 d0])
        (.null 1)
    | true =>
      ifQ (.isK .s0 0)
        (emit [] <|
           borrow .ymm [spill0]
             [ins .vmovd (xmm spill0) [.app .s1], ins .vpbroadcastd (ymm spill0) [xmm spill0],
               stSlot .ymm d0 spill0])
        (.null 1)

def vpbroadcastqXmmDisp2regGen : Gen := loadGen .vpbroadcastq .xmm
def vpbroadcastqYmmDisp2regGen : Gen := loadGen .vpbroadcastq .ymm

def vpbroadcastqZmmDisp2regGen : Gen :=
  regs [.d0] <|
  needSpill1 .zmm .d0 fun
    | false =>
      ifQ (.isK .s0 0)
        (emit [] <|
           [ins .vpbroadcastq (ymm d0) [.app .s1], ins .vmovdqu (.slot d0 false 64) [ymm d0],
             ins .vmovdqu (.slot d0 true 64) [ymm d0]])
        (.null 1)
    | true =>
      ifQ (.isK .s0 0)
        (emit [] <|
           [ins .vmovdqu (.slot spill0 false 64) [ymm spill0],
             ins .vpbroadcastq (ymm spill0) [.app .s1],
             ins .vmovdqu (.slot d0 false 64) [ymm spill0],
             ins .vmovdqu (.slot d0 true 64) [ymm spill0],
             ins .vmovdqu (ymm spill0) [.slot spill0 false 64]])
        (.null 1)

def vpbroadcastqXmmReg2regGen : Gen := xmmBroadcastSpillGen .vmovq .vpbroadcastq
def vpbroadcastqYmmReg2regGen : Gen := ymmBroadcastGprGen .vmovq .vpbroadcastq

def vpbroadcastqZmmReg2regGen : Gen :=
  needSpill1 .zmm .d0 fun
    | false =>
      ifQ (.isK .s0 0)
        (emit [] <|
           [ins .vmovq (xmm d0) [.app .s1], ins .vpbroadcastq (ymm d0) [xmm d0], save .ymm d0,
             stHi d0 d0])
        (.null 1)
    | true =>
      ifQ (.isK .s0 0)
        (emit [] <|
           borrow .ymm [spill0]
             [ins .vmovq (xmm spill0) [.app .s1], ins .vpbroadcastq (ymm spill0) [xmm spill0],
               stSlot .ymm d0 spill0, stHi d0 spill0])
        (.null 1)

/-- The dispatch of the broadcasts.  A vector register as the source is not supported. -/
def broadcastGen (reg2reg disp2reg : Gen) : Gen :=
  opnds [.s1, .d0] <| regs [.s0] <|
  onKind .s1
    [(.reg,
       firstOf
         [(.test .s1 (.isGpr .d), regs [.d0] reg2reg),
           (.test .s1 (.isGpr .q), regs [.d0] reg2reg)]),
     (.baseDisp, regs [.d0] disp2reg)]

def rwFuncVpbroadcastb : Gen :=
  broadcastGen
    (byWidth .d0 vpbroadcastbXmmReg2regGen vpbroadcastbYmmReg2regGen vpbroadcastbZmmReg2regGen)
    (byWidth .d0 vpbroadcastbXmmDisp2regGen vpbroadcastbYmmDisp2regGen
       vpbroadcastbZmmDisp2regGen)

def rwFuncVpbroadcastw : Gen :=
  broadcastGen
    (byWidth .d0 vpbroadcastwXmmReg2regGen vpbroadcastwYmmReg2regGen vpbroadcastwZmmReg2regGen)
    (byWidth .d0 vpbroadcastwXmmDisp2regGen vpbroadcastwYmmDisp2regGen
       vpbroadcastwZmmDisp2regGen)

def rwFuncVpbroadcastd : Gen :=
  broadcastGen
    (byWidth .d0 vpbroadcastdXmmReg2regGen vpbroadcastdYmmReg2regGen vpbroadcastdZmmReg2regGen)
    (byWidth .d0 vpbroadcastdXmmDisp2regGen vpbroadcastdYmmDisp2regGen
       vpbroadcastdZmmDisp2regGen)

def rwFuncVpbroadcastq : Gen :=
  broadcastGen
    (byWidth .d0 vpbroadcastqXmmReg2regGen vpbroadcastqYmmReg2regGen vpbroadcastqZmmReg2regGen)
    (byWidth .d0 vpbroadcastqXmmDisp2regGen vpbroadcastqYmmDisp2regGen
       vpbroadcastqZmmDisp2regGen)

def rwFuncVextractf64x2 : Gen :=
  opnds [.s1] <| regs [.s2, .d0] <|
  ifQ (.sameIndex .d0 .s2)
    (needSpill1 .ymm .s2 fun
       | false => emit [] [ins .vextractf128 (.app .d0) [.app .s2, .app .s1]]
       | true =>
         emit [] <|
           borrow .ymm [spill0]
             [ldSlot .ymm spill0 s2, ins .vextracti128 (xmm spill0) [ymm spill0, .app .s1],
               stSlot .xmm d0 spill0])
    (emit [] [ins .vextractf128 (.app .d0) [.app .s2, .app .s1]])

def rwFuncVextracti32x4 : Gen :=
  opnds [.s1] <| regs [.s0, .s2, .d0] <|
  needSpill1 .ymm .s2 fun
    | false =>
      needSpill1 .xmm .d0 fun
        | false =>
          ifQ (.isK .s0 0)
            (emit [] [ins .vextracti128 (.app .d0) [.app .s2, .app .s1]])
            (.null 1)
        | true =>
          ifQ (.isK .s0 0)
            (emit [[]] <|
               borrow .xmm [t0]
                 [ins .vextracti128 (xmm t0) [.app .s2, .app .s1], stSlot .ymm d0 t0])
            (.null 1)
    | true =>
      needSpill1 .xmm .d0 fun
        | false =>
          ifQ (.isK .s0 0)
            (emit [[]] <|
               borrow .ymm [t0]
                 [ldSlot .ymm t0 s2, ins .vextracti128 (.app .d0) [ymm t0, .app .s1]])
            (.null 1)
        | true =>
          ifQ (.isK .s0 0)
            (ifQ (.sameIndex .d0 .s2)
               (emit [] <|
                  borrow .ymm [spill0]
                    [ldSlot .ymm spill0 s2, ins .vextracti128 (xmm spill0) [ymm spill0, .app .s1],
                      stSlot .xmm d0 spill0])
               (emit [] <|
                  [save .ymm spill0, save .xmm spill1, ldSlot .ymm spill0 s2,
                    ins .vextracti128 (xmm spill1) [ymm spill0, .app .s1], stSlot .xmm d0 spill1,
                    restore .ymm spill0, restore .xmm spill1]))
            (.null 1)

def rwFuncVextracti64x2 : Gen :=
  opnds [.s1] <| regs [.s2, .d0] <|
  ifQ (.sameIndex .d0 .s2)
    (needSpill1 .ymm .s2 fun
       | false => emit [] [ins .vextracti128 (.app .d0) [.app .s2, .app .s1]]
       | true =>
         emit [] <|
           borrow .ymm [spill0]
             [ldSlot .ymm spill0 s2, ins .vextracti128 (xmm spill0) [ymm spill0, .app .s1],
               stSlot .ymm d0 spill0])
    (emit [] [ins .vextracti128 (.app .d0) [.app .s2, .app .s1]])

def rwFuncVinserti64x4 : Gen :=
  emit [] [ins0 .nop []]

/-- `vshufi32x4` on ymm registers is `vperm2i128` with the immediate translated. -/
def vperm2i128Gen (v : ℤ) : Gen :=
  emit [] [ins .vperm2i128 (.app .d0) [.app .s2, .app .s3, .imm v 1]]

def rwFuncVshufi32x4 : Gen :=
  opnds [.s1, .s2, .s3, .d0] <| regs [.s0] <|
  ifQ (.test .s1 (.isKind .immed))
    (ifQ (.isK .s0 0)
       (ifQ (.immIs .s1 0) (vperm2i128Gen 32) <|
        ifQ (.immIs .s1 1) (vperm2i128Gen 33) <|
        ifQ (.immIs .s1 2) (vperm2i128Gen 48) <|
        ifQ (.immIs .s1 3) (vperm2i128Gen 49) (.null 1))
       (.null 0))
    .abort

end DrAvx
