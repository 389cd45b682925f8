import DrAvx.Rewrite.Vocabulary

/-!
# Handlers of the opmask instructions

The opmask registers live in thread-local storage, so these handlers load them into general purpose
registers.  Eight of the families below come in four sizes, and not all members of a family agree.
-/

set_option autoImplicit false

namespace DrAvx

/-! ## Moves -/

/-- To and from a general purpose register the handler spills `rax` to a slot.  The chains that load
a general purpose register go on to extend `ax` to `eax`, whatever the register is. -/
def rwFuncKmovw : Gen :=
  regs [.s0, .d0] <|
  ifQ (.test .s0 .isMask)
    (ifQ (.test .d0 .isMask)
       (emit []
          [ins .movSt (.rslot 1 8) [reg64 rax], ins .movLd (reg64 rax) [.kslot .s0 8],
            ins .movSt (.kslot .d0 2) [reg16 rax], ins .movLd (reg64 rax) [.rslot 1 8]])
       (ifQ (.test .d0 (.isGpr .d)) (loadW (reg16 (.op .d0))) <|
        ifQ (.test .d0 (.isGpr .q)) (loadW (reg16 (.op .d0))) (loadW (.app .d0))))
    (ifQ (.test .d0 .isMask)
       (ifQ (.test .s0 (.isGpr .d)) (storeW (reg16 (.op .s0))) <|
        ifQ (.test .s0 (.isGpr .q)) (storeW (reg16 (.op .s0))) (storeW (.app .s0)))
       (.null 1))
where
  loadW (d : TOpnd) : Gen :=
    chain 1 false [] [] [ins .movLd d [.kslot .s0 2], ins .movzx (reg32 rax) [reg16 rax]]
  storeW (s : TOpnd) : Gen :=
    emit []
      [ins .movSt (.rslot 1 8) [reg64 rax], rmw .xor (reg64 rax) (reg64 rax),
        ins .movSt (.kslot .d0 8) [reg64 rax], ins .movSt (.kslot .d0 2) [s],
        ins .movLd (reg64 rax) [.rslot 1 8]]

def rwFuncKmovb : Gen :=
  regs [.s0, .d0] <|
  ifQ (.test .s0 .isMask)
    (ifQ (.test .d0 .isMask)
       (emit []
          [pushf, ins .movSt (.rslot 1 8) [reg64 r11], ins .movSt (.rslot 2 8) [reg64 r12],
            rmw .xor (reg64 r12) (reg64 r12), ins .movSt (.kslot .d0 8) [reg64 r12],
            ins .movLd (reg8 r11) [.kslot .s0 1], ins .movSt (.kslot .d0 1) [reg8 r11],
            ins .movLd (reg64 r12) [.rslot 2 8], ins .movLd (reg64 r11) [.rslot 1 8], popf])
       (ifQ (.test .d0 (.isGpr .q)) loadB <| ifQ (.test .d0 (.isGpr .d)) loadB (.null 1)))
    (ifQ (.test .d0 .isMask)
       (ifQ (.test .s0 (.isGpr .d)) (storeB (reg8 (.op .s0))) <|
        ifQ (.test .s0 (.isGpr .q)) (storeB (reg8 (.op .s0))) <|
        ifQ (.test .s0 (.isGpr .w)) (storeB (reg8 (.op .s0))) (storeB (.app .s0)))
       (.null 1))
where
  loadB : Gen :=
    emit []
      [pushf, rmw .xor (.app .d0) (.app .d0), ins .movLd (reg8 (.op .d0)) [.kslot .s0 1], popf]
  storeB (s : TOpnd) : Gen :=
    emit []
      [pushf, push r15, rmw .xor (reg64 r15) (reg64 r15), ins .movSt (.kslot .d0 8) [reg64 r15],
        ins .movSt (.kslot .d0 1) [s], pop r15, popf]

def rwFuncKmovq : Gen :=
  regs [.s0, .d0] <|
  ifQ (.test .s0 .isMask)
    (ifQ (.test .d0 .isMask)
       (emit []
          [ins .movSt (.rslot 1 8) [reg64 rax], ins .movLd (reg64 rax) [.kslot .s0 8],
            ins .movSt (.kslot .d0 8) [reg64 rax], ins .movLd (reg64 rax) [.rslot 1 8]])
       (emit [] [ins .movLd (.app .d0) [.kslot .s0 8]]))
    (ifQ (.test .d0 .isMask) (emit [] [ins .movSt (.kslot .d0 8) [.app .s0]]) (.null 1))

/-- Between opmask registers, 64-bit registers are moved to and from four bytes of the slots. -/
def rwFuncKmovd : Gen :=
  regs [.s0, .d0] <|
  ifQ (.test .s0 .isMask)
    (ifQ (.test .d0 .isMask)
       (emit []
          [ins .movSt (.rslot 1 8) [reg64 rax], ins .movSt (.rslot 2 8) [reg64 rcx],
            rmw .xor (reg64 rcx) (reg64 rcx), ins .movSt (.kslot .d0 8) [reg64 rcx],
            ins .movLd (reg64 rax) [.kslot .s0 4], ins .movSt (.kslot .d0 4) [reg64 rax],
            ins .movLd (reg64 rcx) [.rslot 2 8], ins .movLd (reg64 rax) [.rslot 1 8]])
       (emit [] [ins .movLd (.app .d0) [.kslot .s0 4]]))
    (ifQ (.test .d0 .isMask)
       (emit []
          [ins .movSt (.rslot 1 8) [reg64 rax], rmw .xor (reg64 rax) (reg64 rax),
            ins .movSt (.kslot .d0 8) [reg64 rax], ins .movSt (.kslot .d0 4) [.app .s0],
            ins .movLd (reg64 rax) [.rslot 1 8]])
       (.null 1))

/-! ## Bitwise operations -/

section Bitwise

variable (sz : GprSize)

/-- Loads the opmask at a position. -/
def ldK (r : GRole) (p : Pos) : TInsn := ins .movLd (.g sz r) [.kslot p sz.bytes]

/-- Stores to the destination opmask. -/
def stK (r : GRole) : TInsn := ins .movSt (.kslot .d0 sz.bytes) [.g sz r]

/-- The handler forgets to unlink the instruction. -/
def kandGen : Gen :=
  regs [.s0, .s1, .d0] <|
  chain 0 true [] []
    [pushf, push rax, push rbx, ldK sz rax .s0, ldK sz rbx .s1, rmw .and (.g sz rax) (.g sz rbx),
      stK sz rax, pop rbx, pop rax, popf]

/-- The handler forgets to unlink the instruction. -/
def kandnGen : Gen :=
  regs [.s0, .s1, .d0] <|
  chain 0 true [] []
    [pushf, push rax, push rbx, ldK sz rax .s0, ldK sz rbx .s1, ins .not (.g sz rax) [.g sz rax],
      rmw .and (.g sz rax) (.g sz rbx), stK sz rax, pop rbx, pop rax, popf]

/-- The result is masked to the width of the operation, where `trim` says how. -/
def knotGen (trim : List TInsn) : Gen :=
  regs [.s0, .d0] <|
  emit [] <|
    [pushf, push rax, ldK sz rax .s0, ins .not (.g sz rax) [.g sz rax]] ++ trim ++
    [stK sz rax, pop rax, popf]

def korGen (trim : List TInsn) : Gen :=
  regs [.s0, .s1, .d0] <|
  emit [] <|
    [pushf, push rax, push rbx, ldK sz rax .s0, ldK sz rbx .s1, rmw .or (.g sz rax) (.g sz rbx)] ++
    trim ++ [stK sz rax, pop rbx, pop rax, popf]

/-- The second source is the offset of the slot in thread-local storage, without the segment. -/
def kaddrGen (op : Op) : Gen :=
  regs [.s0, .s1, .d0] <|
  emit []
    [pushf, push rax, ldK sz rax .s0, rmw op (.g sz rax) (.kaddr .s1 sz.bytes), stK sz rax, pop rax,
      popf]

/-- The tests restore the flags they are supposed to set. -/
def ktestGen (ones : ℤ) : Gen :=
  regs [.s0] <|
  chain 0 true [] []
    [pushf, push rax, ldK sz rax .s0, ins0 .test [.g sz rax, .g sz rax],
      ins0 .cmp [.g sz rax, .imm ones sz.bytes], pop rax, popf]

end Bitwise

def rwFuncKandw : Gen := kandGen .w
def rwFuncKandb : Gen := kandGen .b
def rwFuncKandq : Gen := kandGen .q
def rwFuncKandd : Gen := kandGen .d
def rwFuncKandnw : Gen := kandnGen .w
def rwFuncKandnb : Gen := kandnGen .b
def rwFuncKandnq : Gen := kandnGen .q
def rwFuncKandnd : Gen := kandnGen .d

def rwFuncKunpckbw : Gen :=
  regs [.s0, .s1, .d0] <|
  emit []
    [ins .movSt (.rslot 1 8) [reg64 rax], ins .movSt (.rslot 3 8) [reg64 rcx],
      ins .movLd (reg64 rax) [.kslot .s0 8], ins .movLd (reg64 rcx) [.kslot .s1 8],
      rmw .shl (reg64 rax) (.imm 8 1), rmw .and (reg64 rax) (.imm 65280 4),
      rmw .and (reg64 rcx) (.imm 255 4), rmw .or (reg64 rcx) (reg64 rax),
      ins .movSt (.kslot .d0 8) [reg64 rcx], ins .movLd (reg64 rcx) [.rslot 3 8],
      ins .movLd (reg64 rax) [.rslot 1 8]]

def rwFuncKunpckwd : Gen :=
  regs [.s0, .s1, .d0] <|
  emit []
    [ins .movSt (.rslot 1 8) [reg64 rax], ins .movSt (.rslot 3 8) [reg64 rcx],
      ins .movSt (.rslot 2 8) [reg64 rdx], ins .movLd (reg64 rax) [.kslot .s0 8],
      ins .movLd (reg64 rcx) [.kslot .s1 8], rmw .shl (reg64 rax) (.imm 16 1),
      ins .movImm (reg64 rdx) [.imm 4294901760 8], rmw .and (reg64 rax) (reg64 rdx),
      ins .movImm (reg64 rdx) [.imm 65535 8], rmw .and (reg64 rcx) (reg64 rdx),
      rmw .or (reg64 rcx) (reg64 rax), ins .movSt (.kslot .d0 8) [reg64 rcx],
      ins .movLd (reg64 rdx) [.rslot 2 8], ins .movLd (reg64 rcx) [.rslot 3 8],
      ins .movLd (reg64 rax) [.rslot 1 8]]

def rwFuncKnotw : Gen := knotGen .w [rmw .and (reg16 rax) (.imm 65535 2)]
def rwFuncKnotb : Gen := knotGen .b [rmw .and (reg8 rax) (.imm 255 1)]
def rwFuncKnotq : Gen := knotGen .q []
def rwFuncKnotd : Gen := knotGen .d [rmw .and (reg32 rax) (.imm 4294967295 4)]
def rwFuncKorw : Gen := korGen .w [rmw .and (reg16 rax) (.imm 65535 2)]
def rwFuncKorb : Gen := korGen .b [rmw .and (reg8 rax) (.imm 255 1)]
def rwFuncKorq : Gen := korGen .q []
def rwFuncKord : Gen := korGen .d [rmw .and (reg32 rax) (.imm 4294967295 4)]

/-- The opmask of so many ones, in the slot of the register at a position. -/
def setOnes (p : Pos) (ones : ℤ) : List TInsn :=
  [push rax, ins .movImm (reg64 rax) [.imm ones 8], ins .movSt (.kslot p 8) [reg64 rax], pop rax]

/-- The exclusive nor of whole slots, masked as `trim` says. -/
def kxnorCode (trim : List TInsn) : List TInsn :=
  [push rax, push rcx, pushf, ins .movLd (reg64 rax) [.kslot .s0 8],
    ins .movLd (reg64 rcx) [.kslot .s1 8], rmw .xor (reg64 rax) (reg64 rcx),
    ins .not (reg64 rax) [reg64 rax]] ++
  trim ++ [ins .movSt (.kslot .d0 8) [reg64 rax], popf, pop rcx, pop rax]

/-- Equal sources give ones. -/
def kxnorGen (ones : ℤ) (trim : List TInsn) : Gen :=
  regs [.d0, .s0, .s1] <|
  ifQ (.same .s0 .s1) (emit [] (setOnes .d0 ones)) (emit [] (kxnorCode trim))

def rwFuncKxnorw : Gen := kxnorGen 65535 [rmw .and (reg64 rax) (.imm 65535 4)]
def rwFuncKxnorb : Gen := kxnorGen 255 [rmw .and (reg64 rax) (.imm 255 4)]
def rwFuncKxnorq : Gen := kxnorGen 18446744073709551615 []

/-- With equal sources the ones go to the source, with different ones the instruction is not
unlinked. -/
def rwFuncKxnord : Gen :=
  regs [.s0, .s1, .d0] <|
  ifQ (.same .s0 .s1)
    (emit [] (setOnes .s0 4294967295))
    (chain 0 true [] []
       (kxnorCode [ins .movImm (reg64 rcx) [.imm 4294967295 8], rmw .and (reg64 rax) (reg64 rcx)]))

def rwFuncKxorw : Gen := kaddrGen .w .xor
def rwFuncKxorb : Gen := kaddrGen .b .xor
def rwFuncKxorq : Gen := kaddrGen .q .xor
def rwFuncKxord : Gen := kaddrGen .d .xor
def rwFuncKaddw : Gen := kaddrGen .w .add
def rwFuncKaddb : Gen := kaddrGen .b .add
def rwFuncKaddq : Gen := kaddrGen .q .add
def rwFuncKaddd : Gen := kaddrGen .d .add

/-! ## Tests and shifts -/

/-- The carry flag is set by hand when the bits are all ones; when they are all zeros or mixed it is
cleared. -/
def kortestEnd (sz : GprSize) (ones : ℤ) : List TInsn :=
  [ins0 .test [.g sz rax, .g sz rax], jcc .z 0, ins0 .cmp [reg32 rax, .imm ones 4], jcc .z 1,
    ins0 .clc [], jmp 2, lbl 0, ins0 .clc [], jmp 2, lbl 1, ins0 .test [.g sz rax, .g sz rax],
    ins0 .stc [], lbl 2]

/-- `kortestw` and `kortestb`.  The decoder delivers the first opmask as the destination. -/
def kortestGen (sz : GprSize) (ones : ℤ) : Gen :=
  regs [.s0, .d0] <|
  ifQ (.same .d0 .s0)
    (emit [] <|
       [push rax, ins .movLd (reg64 rax) [.kslot .s0 8], ins .movzx (reg32 rax) [.g sz rax]] ++
       kortestEnd sz ones ++ [pop rax])
    (emit [] <|
       [push rax, push rdx, ins .movLd (reg64 rax) [.kslot .s0 8],
         ins .movLd (reg64 rdx) [.kslot .d0 8], ins .movzx (reg32 rax) [.g sz rax],
         ins .movzx (reg32 rdx) [.g sz rdx], rmw .or (.g sz rax) (.g sz rdx)] ++
       kortestEnd sz ones ++ [pop rdx, pop rax])

/-- `kortestq` and `kortestd` look for a second source, which the decoder does not deliver. -/
def kortestGen' (sz : GprSize) : Gen :=
  regs [.s0, .s1] <|
  chain 0 true [] []
    [pushf, push rax, push rbx, ldK sz rax .s0, ldK sz rbx .s1, rmw .or (.g sz rax) (.g sz rbx),
      ldK sz rax .s0, rmw .and (.g sz rax) (.g sz rbx), pop rbx, pop rax, popf]

def rwFuncKortestw : Gen := kortestGen .w 65535
def rwFuncKortestb : Gen := kortestGen .b 255
def rwFuncKortestq : Gen := kortestGen' .q
def rwFuncKortestd : Gen := kortestGen' .d

/-- Shifts, except that of a count greater than `max` gives zero.  `load` brings the opmask into
`rax`, `reg` is the part of it that is shifted, and `store` the size that is stored. -/
def kshiftGen (removed : ℕ) (op : Op) (max : ℤ) (load : List TInsn) (reg : TOpnd)
    (store : GprSize) : Gen :=
  opnds [.s1] <| regs [.s0, .d0] <|
  ifQ (.test .s1 (.isKind .immed))
    (ifQ (.immLe .s1 max)
       (chain removed true [] [] <|
          [pushf, push rax] ++ load ++ [rmw op reg (.app .s1), stK store rax, pop rax, popf])
       (chain removed true [] []
          [pushf, push rax, rmw .xor (reg64 rax) (reg64 rax), stK store rax, pop rax, popf]))
    .abort

/-- Loads a word or a byte and extends it. -/
def ldKzx (sz : GprSize) : List TInsn := [ldK sz rax .s0, ins .movzx (reg64 rax) [.g sz rax]]

def rwFuncKshiftlw : Gen := kshiftGen 0 .shl 15 (ldKzx .w) (reg64 rax) .w
def rwFuncKshiftlb : Gen := kshiftGen 0 .shl 7 (ldKzx .b) (reg64 rax) .b
def rwFuncKshiftlq : Gen := kshiftGen 0 .shl 63 [ldK .q rax .s0] (reg64 rax) .q
def rwFuncKshiftld : Gen := kshiftGen 0 .shl 31 [ldK .d rax .s0] (reg32 rax) .d
def rwFuncKshiftrw : Gen := kshiftGen 0 .shr 15 (ldKzx .w) (reg64 rax) .w
def rwFuncKshiftrb : Gen := kshiftGen 1 .shr 7 (ldKzx .b) (reg64 rax) .q
def rwFuncKshiftrq : Gen := kshiftGen 0 .shr 63 [ldK .q rax .s0] (reg64 rax) .q
def rwFuncKshiftrd : Gen := kshiftGen 0 .shr 31 [ldK .d rax .s0] (reg32 rax) .d

def rwFuncKtestw : Gen := ktestGen .w 65535
def rwFuncKtestb : Gen := ktestGen .b 255
def rwFuncKtestq : Gen := ktestGen .q (-1)
def rwFuncKtestd : Gen := ktestGen .d (-1)

end DrAvx
