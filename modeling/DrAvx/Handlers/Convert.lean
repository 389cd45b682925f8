import DrAvx.Handlers.Move

/-!
# Handlers of conversions, comparisons and rounding
-/

set_option autoImplicit false

namespace DrAvx

/-! ## Signed integers, comparisons and square roots -/

/-- Conversions from signed integers.  They expect a register where the integer is. -/
def fromSignedGen (op : Op) : Gen :=
  regs [.s1, .s2, .d0] <|
  needSpill3 .xmm .s1 .s2 .d0 fun
    | false, false, false => emit [] [ins op (xmm d0) [.app .s1, .app .s2]]
    | true, false, false =>
      ifQ (.same .d0 .s2)
        (emit [[s2]] <| borrow .xmm [t0] [ldSlot .xmm t0 s1, ins op (xmm d0) [xmm t0, .app .s2]])
        (emit [[s2, d0]] <|
           borrow .xmm [t0] [ldSlot .xmm t0 s1, ins op (xmm d0) [xmm t0, .app .s2]])
    | false, true, false =>
      ifQ (.same .d0 .s1)
        (emit [[s2]] <| borrow .xmm [t0] [ldSlot .xmm t0 s2, ins op (xmm d0) [.app .s1, xmm t0]])
        (emit [[s1, d0]] <|
           borrow .xmm [t0] [ldSlot .xmm t0 s2, ins op (xmm d0) [.app .s1, xmm t0]])
    | true, true, false =>
      emit [] <|
        borrow .xmm [spill0, spill1]
          [ldSlot .xmm spill0 s1, ldSlot .xmm spill1 s2, vop op .xmm d0 spill0 spill1]
    | false, false, true =>
      emit [] <|
        borrow .xmm [spill0] [ins op (xmm spill0) [.app .s1, .app .s2], stSlot .xmm d0 spill0]
    | true, false, true =>
      emit [] <|
        borrow .xmm [spill0, spill1]
          [ldSlot .xmm spill0 s1, ins op (xmm spill1) [xmm spill0, .app .s2],
            stSlot .xmm d0 spill1]
    | false, true, true =>
      emit [] <|
        borrow .xmm [spill0, spill1]
          [ldSlot .xmm spill0 s2, ins op (xmm spill1) [.app .s1, xmm spill0],
            stSlot .xmm d0 spill1]
    | true, true, true => spilled3 op .xmm

def rwFuncVcvtsi2ss : Gen := fromSignedGen .vcvtsi2ss
def rwFuncVcvtsi2sd : Gen := fromSignedGen .vcvtsi2sd

def rwFuncVcvttss2si : Gen :=
  regs [.s0, .d0] <|
  needSpill2 .xmm .s0 .d0 fun
    | false, false => emit [] [ins .vcvttss2si (.app .d0) [xmm s0]]
    | true, false =>
      emit [[d0]] <| borrow .xmm [t0] [ldSlot .xmm t0 s0, ins .vcvttss2si (.app .d0) [xmm t0]]
    | false, true =>
      emit [] <|
        borrow .xmm [spill0] [ins .vcvttss2si (xmm spill0) [xmm s0], stSlot .xmm d0 spill0]
    | true, true =>
      emit [] <|
        borrow .xmm [spill0, spill1]
          [ldSlot .xmm spill0 s0, ins .vcvttss2si (xmm spill1) [xmm spill0],
            stSlot .xmm d0 spill1]

/-- Conversions to signed integers.  A source that has to be spilled in is loaded into the first
spill register, which is not saved. -/
def toSignedGen (op : Op) : Gen :=
  opnds [.s0, .d0] <|
  ifQ (.test .s0 (.isKind .reg))
    (needSpill1 .xmm .s0 fun
       | false => emit [] [ins op (.app .d0) [.app .s0]]
       | true => emit [] [ldSlot .xmm spill0 s0, ins op (.app .d0) [xmm spill0]])
    (ifQ (.test .s0 .isMem) (emit [] [ins op (.app .d0) [.app .s0]]) (.null 1))

def rwFuncVcvttsd2si : Gen := toSignedGen .vcvttsd2si
def rwFuncVcvtss2si : Gen := toSignedGen .vcvtss2si
def rwFuncVcvtsd2si : Gen := toSignedGen .vcvtsd2si

/-- The comparisons that set the flags. -/
def comisGen (op : Op) : Gen :=
  regs [.s0, .s1] <|
  needSpill2 .xmm .s0 .s1 fun
    | false, false => emit [] [ins0 op [xmm s0, xmm s1]]
    | true, false => emit [[s1]] <| borrow .xmm [t0] [ldSlot .xmm t0 s0, ins0 op [xmm t0, xmm s1]]
    | false, true => emit [[s0]] <| borrow .xmm [t0] [ldSlot .xmm t0 s1, ins0 op [xmm s0, xmm t0]]
    | true, true =>
      emit [] <|
        borrow .xmm [spill0, spill1]
          [ldSlot .xmm spill0 s0, ldSlot .xmm spill1 s1, ins0 op [xmm spill0, xmm spill1]]

def rwFuncVucomiss : Gen := comisGen .vucomiss
def rwFuncVucomisd : Gen := comisGen .vucomisd
def rwFuncVcomiss : Gen := comisGen .vcomiss
def rwFuncVcomisd : Gen := comisGen .vcomisd
def rwFuncVsqrtps : Gen := packedGen .vsqrtps
def rwFuncVsqrtss : Gen := scalarGen .vsqrtss
def rwFuncVsqrtpd : Gen := packedGen .vsqrtpd
def rwFuncVsqrtsd : Gen := scalarGen .vsqrtsd

/-! ## To unsigned integers

A value in the upper half of the unsigned range is converted after subtracting the middle of the
range, one out of range gives all ones. -/

/-- The registers of a conversion: two xmm registers with their slots, and two general purpose
registers with their lower halves. -/
structure CvtRegs where
  x0 : TOpnd
  x1 : TOpnd
  slot0 : TOpnd
  slot1 : TOpnd
  g0 : TOpnd
  g1 : TOpnd
  e0 : TOpnd
  e1 : TOpnd

namespace CvtRegs

def of (a b : Role) (g h : GRole) : CvtRegs :=
  ⟨xmm a, xmm b, .slot a false 16, .slot b false 16, reg64 g, reg64 h, reg32 g, reg32 h⟩

/-- With a pc-relative source the registers are never assigned: they are `DR_REG_NULL`, whose lower
half comes out as `r15`. -/
def null : CvtRegs :=
  ⟨.null, .null, .stray none 60736 16, .stray none 60736 16, .null, .null, reg64 r15, reg64 r15⟩

variable (c : CvtRegs)

def enter : List TInsn :=
  [pushf, pushOpnd c.g0, pushOpnd c.g1, ins .vmovdqu c.slot0 [c.x0], ins .vmovdqu c.slot1 [c.x1]]

def leave : List TInsn :=
  [ins .vmovdqu c.x0 [c.slot0], ins .vmovdqu c.x1 [c.slot1], popOpnd c.g1, popOpnd c.g0, popf]

/-- The same, except that the first xmm register is restored twice and the second not at all. -/
def leaveTwice : List TInsn :=
  [ins .vmovdqu c.x0 [c.slot0], ins .vmovdqu c.x0 [c.slot0], popOpnd c.g1, popOpnd c.g0, popf]

/-- Converts `x1`.  The value `hi` is the first out of range, `mid` the middle of the range, both as
the bits of a floating point number of so many bytes that go through `k`; `top` is the middle as an
integer, and the result is in `r`. -/
def truncate (move compare subtract convert : Op) (k : TOpnd) (bytes : ℕ) (hi mid top : ℤ)
    (r r1 : TOpnd) (size : ℕ) : List TInsn :=
  [rmw .pxor c.x0 c.x0, ins0 compare [c.x1, c.x0], jcc .p 0, jcc .b 0,
    ins .movImm k [.imm hi bytes], ins move c.x0 [k], ins0 compare [c.x1, c.x0], jcc .nb 0,
    ins .movImm k [.imm mid bytes], ins move c.x0 [k], ins0 compare [c.x1, c.x0], jcc .b 1,
    rmw subtract c.x1 c.x0, ins convert r [c.x1], ins .movImm c.g1 [.imm top 8], rmw .add r r1,
    jmp 2, lbl 1, ins convert r [c.x1], jmp 2, lbl 0, ins .movImm r [.imm (-1) size], lbl 2,
    ins .movSt (.app .d0) [r]]

/-- From a double, loaded from `src`. -/
def fromDouble (src : TOpnd) : Bool → List TInsn
  | true =>
    c.enter ++ [ins .movsd c.x1 [src]] ++
    c.truncate .vmovq .ucomisd .subsd .cvttsd2si c.g0 8 0x43F0000000000000 0x43E0000000000000
      (2 ^ 63) c.g0 c.g1 8 ++
    c.leave
  | false =>
    c.enter ++ [ins .movsd c.x1 [src]] ++
    c.truncate .vmovq .ucomisd .subsd .cvttsd2si c.g0 8 0x41F0000000000000 0x41E0000000000000
      (2 ^ 31) c.e0 c.e1 4 ++
    c.leaveTwice

/-- From a single precision number. -/
def fromSingle (src : TOpnd) : Bool → List TInsn
  | true =>
    c.enter ++ [ins .movss c.x1 [src]] ++
    c.truncate .vmovq .ucomiss .subss .cvttss2si c.g0 8 0x5F800000 0x5F000000
      (2 ^ 63) c.g0 c.g1 8 ++
    c.leave
  | false =>
    c.enter ++ [ins .movss c.x1 [src]] ++
    c.truncate .vmovd .ucomiss .subss .cvttss2si c.e0 4 0x4F800000 0x4F000000
      (2 ^ 31) c.e0 c.e1 4 ++
    c.leave

end CvtRegs

/-- With the option `quick_rw`, a signed conversion.  A source that has to be spilled in is not
loaded. -/
def fastToUnsignedGen (op : Op) : Gen :=
  regs [.s0] <|
  needSpill1 .xmm .s0 fun
    | false => emit [] [ins op (.app .d0) [.app .s0]]
    | true => emit [] <| borrow .xmm [spill0] [ins op (.app .d0) [xmm spill0]]

def fastRwFuncVcvttsd2usi : Gen := fastToUnsignedGen .vcvttsd2si
def fastRwFuncVcvttss2usi : Gen := fastToUnsignedGen .vcvttss2si

/-- Is the result a 64-bit one? -/
def bySize (p : Pos) (code : Bool → Gen) : Gen :=
  ifQ (.test p (.hasSize 8)) (code true) (code false)

def rwFuncVcvttsd2usi : Gen :=
  opnds [.s0, .d0] <|
  ifQ .quickRw
    fastRwFuncVcvttsd2usi
    (regs [.d0] <|
     ifQ (.test .s0 (.isKind .reg))
       (ifQ (.test .s0 (.isVec .xmm))
          (bySize .d0 fun b ↦
             emit (fresh [s0] 2) ((CvtRegs.of t0 t1 r11 r12).fromDouble (xmm s0) b))
          .abort)
       (ifQ (.test .s0 .isMem)
          (ifQ (.test .s0 (.isKind .baseDisp))
             (ifQ (.baseIs .s0 .rsp)
                (bySize .d0 fun b ↦
                   emitG [] [[.base .s0], [.base .s0, g0]]
                     ((CvtRegs.of spill0 spill1 g0 g1).fromDouble (.mem .s0 32 8) b))
                (bySize .d0 fun b ↦
                   emitG [] [[.base .s0], [.base .s0, g0]]
                     ((CvtRegs.of spill0 spill1 g0 g1).fromDouble (.app .s0) b)))
             (bySize .d0 fun b ↦ emit [] (CvtRegs.null.fromDouble (.app .s0) b)))
          .abort))

/-- The general purpose scratch registers of a memory operand. -/
def avoidMem (p : Pos) : List GRole := [.base p, .index p]

def rwFuncVcvttss2usi : Gen :=
  opnds [.s0, .d0] <|
  ifQ .quickRw
    fastRwFuncVcvttss2usi
    (ifQ (.test .s0 (.isKind .reg))
       (ifQ (.test .s0 (.isVec .xmm))
          (bySize .d0 fun b ↦
             emit (fresh [s0] 2) ((CvtRegs.of t0 t1 r8 rcx).fromSingle (xmm s0) b))
          .abort)
       (ifQ (.test .s0 .isMem)
          (ifQ (.test .s0 (.isKind .baseDisp))
             (ifQ (.baseIs .s0 .rsp)
                (bySize .d0 fun b ↦
                   emitG [] (freshG (avoidMem .s0) 2)
                     ((CvtRegs.of spill0 spill1 g0 g1).fromSingle (.mem .s0 24 8) b))
                (bySize .d0 fun b ↦
                   emitG [] (freshG (avoidMem .s0) 2)
                     ((CvtRegs.of spill0 spill1 g0 g1).fromSingle (.app .s0) b)))
             (bySize .d0 fun b ↦ emit [] (CvtRegs.null.fromSingle (.app .s0) b)))
          .abort))

/-! ## From unsigned integers -/

/-- Converts the integer at `src` in three general purpose registers.  The upper half of the range
is converted as a signed number and the middle of the range added to it. -/
def cvtusi2sdCode (g h k : GRole) (src : TOpnd) : Bool → List TInsn
  | true =>
    [pushf, push g, push h, push k] ++ saves .xmm [t0, t1] ++
    [ins .movupd (xmm t0) [xmm s0], ins .movImm (reg64 g) [.imm 0x43E0000000000000 8],
      ins .vmovq (xmm t1) [reg64 g], ins .movImm (reg64 k) [.imm (2 ^ 63) 8],
      ins .movLd (reg64 h) [src], ins .movLd (reg64 g) [reg64 h], rmw .shr (reg64 h) (.imm 63 1),
      jcc .z 0, rmw .sub (reg64 g) (reg64 k), ins .cvtsi2sd (xmm t0) [reg64 g],
      vop .addsd .xmm t0 t1 t0, jmp 1, lbl 0, ins .cvtsi2sd (xmm t0) [reg64 g], lbl 1,
      ins .movupd (xmm d0) [xmm t0]] ++
    restores .xmm [t0, t1] ++ [pop k, pop h, pop g, popf]
  | false =>
    [pushf, push g, push h, push k] ++ saves .xmm [t0, t1] ++
    [ins .movupd (xmm t0) [xmm s0], ins .movImm (reg64 g) [.imm 0x41E0000000000000 8],
      ins .vpinsrq (xmm t1) [xmm t1, reg64 g, .imm 0 1], ins .movImm (reg64 k) [.imm (2 ^ 31) 8],
      ins .movLd (reg32 h) [src], ins .movLd (reg32 g) [reg32 h], rmw .shr (reg32 h) (.imm 31 1),
      jcc .z 0, rmw .sub (reg32 g) (reg32 k), ins .cvtsi2sd (xmm t0) [reg32 g],
      vop .addsd .xmm t0 t1 t0, jmp 1, lbl 0, ins .cvtsi2sd (xmm t0) [reg32 g], lbl 1,
      ins .movupd (xmm d0) [xmm t0]] ++
    restores .xmm [t0, t1] ++ [pop k, pop h, pop g, popf]

def fastRwFuncVcvtusi2sd : Gen := emit [] [ins .cvtsi2sd (.app .d0) [.app .s1]]

def rwFuncVcvtusi2sd : Gen :=
  opnds [.s0, .s1, .d0] <|
  ifQ .quickRw
    fastRwFuncVcvtusi2sd
    (regs [.s0, .d0] <|
     ifQ (.test .s1 (.isKind .reg))
       (bySize .s1 fun b ↦
          emitG (fresh [s0, d0] 2) (freshG [.op .s1] 3) (cvtusi2sdCode g0 g1 g2 (.app .s1) b))
       (ifQ (.test .s1 (.isKind .baseDisp))
          (ifQ (.baseIs .s1 .rsp)
             (bySize .s1 fun b ↦
                emitG (fresh [s0, d0] 2) (freshG (avoidMem .s1) 3)
                  (cvtusi2sdCode g0 g1 g2 (.mem .s1 32 (if b then 8 else 4)) b))
             (bySize .s1 fun b ↦
                emitG (fresh [s0, d0] 2) (freshG (avoidMem .s1) 3)
                  (cvtusi2sdCode g0 g1 g2 (.app .s1) b)))
          (bySize .s1 fun b ↦
             emit (fresh [s0, d0] 2) (cvtusi2sdCode rax rdx rcx (.app .s1) b))))

/-- The destination is cleared between the shift, which sets the flags, and the jump. -/
def cvtusi2ssCode (g h k : GRole) : Bool → List TInsn
  | true =>
    [pushf, push g, push h, push k] ++ saves .xmm [t0, t1] ++
    [ins .movImm (reg32 g) [.imm 0x5F000000 4], ins .vpinsrd (xmm t1) [xmm t1, reg32 g, .imm 0 1],
      ins .movImm (reg64 k) [.imm (2 ^ 63) 8], ins .movLd (reg64 h) [.app .s1],
      ins .movLd (reg64 g) [reg64 h], rmw .shr (reg64 h) (.imm 63 1), vop .vpxor .xmm d0 d0 d0,
      jcc .z 0, rmw .sub (reg64 g) (reg64 k), ins .cvtsi2ss (xmm d0) [reg64 g],
      vop .addss .xmm d0 t1 d0, jmp 1, lbl 0, ins .cvtsi2ss (xmm d0) [reg64 g], lbl 1] ++
    restores .xmm [t0, t1] ++ [pop k, pop h, pop g, popf]
  | false =>
    [pushf, push g, push h, push k] ++ saves .xmm [t0, t1] ++
    [ins .movImm (reg64 g) [.imm 0x4F000000 8], ins .vpinsrq (xmm t1) [xmm t1, reg64 g, .imm 0 1],
      ins .movImm (reg64 k) [.imm (2 ^ 31) 8], ins .movLd (reg32 h) [.app .s1],
      ins .movLd (reg32 g) [reg32 h], rmw .shr (reg32 h) (.imm 31 1), vop .vpxor .xmm d0 d0 d0,
      jcc .z 0, rmw .sub (reg32 g) (reg32 k), ins .cvtsi2ss (xmm d0) [reg32 g],
      vop .addss .xmm d0 t1 d0, jmp 1, lbl 0, ins .cvtsi2ss (xmm d0) [reg32 g], lbl 1] ++
    restores .xmm [t0, t1] ++ [pop k, pop h, pop g, popf]

def rwFuncVcvtusi2ss : Gen :=
  opnds [.s1] <| regs [.s0, .d0] <|
  ifQ (.test .s1 (.isKind .reg))
    (bySize .s1 fun b ↦
       emitG (fresh [s0, d0] 2) (freshG [.op .s1] 3) (cvtusi2ssCode g0 g1 g2 b))
    (ifQ (.test .s1 (.isKind .baseDisp))
       (bySize .s1 fun b ↦
          emitG (fresh [s0, d0] 2) (freshG (avoidMem .s1) 3) (cvtusi2ssCode g0 g1 g2 b))
       (bySize .s1 fun b ↦ emit (fresh [s0, d0] 2) (cvtusi2ssCode rax rdx rcx b)))

/-! ## Rounding -/

def rwFuncVrndscaleps : Gen :=
  opnds [.s1, .s2, .d0] <|
  ifQ (.test .s1 (.isKind .immed))
    (ifQ (.immIs .s1 0) (emit [] [ins .vroundps (.app .d0) [.app .s2, .imm 0 1]]) (.null 1))
    .abort

def rwFuncVrndscalesd : Gen :=
  opnds [.s1, .s2, .s3, .d0] <|
  ifQ (.test .s1 (.isKind .immed))
    (regs [.s2, .d0] <|
     onKind .s3
       [(.reg, emit [] [ins .vroundsd (xmm d0) [xmm s2, xmm s3, .immOf .s1 .self]]),
         (.baseDisp, emit [] [ins .vroundsd (xmm d0) [xmm s2, .app .s3, .immOf .s1 .self]])])
    .abort

/-- `vrndscaless` rounds element 3 of the source, always with the same rounding mode. -/
def vrndscalessCode : List TInsn :=
  borrow .xmm [t0]
    [push rax, ins .extractps (reg32 rax) [xmm s3, .imm 3 1], ins .movd (xmm t0) [reg32 rax],
      ins .vbroadcastss (xmm t0) [xmm t0], pop rax,
      ins .vroundss (xmm t0) [xmm t0, xmm t0, .imm 9 1],
      ins .vinsertps (xmm d0) [.imm 0 1, xmm s2, xmm t0]]

def rwFuncVrndscaless : Gen :=
  regs [.s2, .s3, .d0] <|
  ifQ (.same .s2 .s3)
    (ifQ (.same .d0 .s3) (emit [[s2]] vrndscalessCode) (emit [[s2, s3, d0]] vrndscalessCode))
    (ifQ (.same .d0 .s2) (emit [[s2, d0]] vrndscalessCode) (emit [[s2, s3, d0]] vrndscalessCode))

end DrAvx
