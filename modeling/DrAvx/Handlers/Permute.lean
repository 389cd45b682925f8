import DrAvx.Rewrite.Vocabulary

/-!
# Handlers of the permutations of two tables
-/

set_option autoImplicit false

namespace DrAvx

/-! ## Frames and loops

The two-table permutations spill everything to a stack frame and pick the elements one by one.  The
frame is laid out differently by each of them. -/

/-- Reserves the frame and saves the flags and the registers of the loop. -/
def permuteEnter (frame : ℤ) (rs : List (GRole × ℤ)) : List TInsn :=
  [rmw .sub (reg64 rsp) (.imm frame 4), pushf] ++
  rs.map fun r ↦ ins .movSt (stk r.2 8) [reg64 r.1]

/-- Restores the registers and the flags. -/
def permuteRestore (rs : List (GRole × ℤ)) : List TInsn :=
  rs.map (fun r ↦ ins .movLd (reg64 r.1) [stk r.2 8]) ++ [popf]

def permuteLeave (frame : ℤ) (rs : List (GRole × ℤ)) : List TInsn :=
  permuteRestore rs ++ [rmw .add (reg64 rsp) (.imm frame 4)]

/-- Picks `n` words: the indices are at `idx`, the tables at `lo` and `hi`, the results at `out`. -/
def permuteLoopW (n idx lo hi out : ℤ) : List TInsn :=
  [rmw .xor (reg32 rcx) (reg32 rcx), lbl 0, ins .movzx (reg32 rax) [stkAt rcx 2 idx 2],
    ins0 .test [reg32 rax, .imm n 4], jcc .z 1, rmw .and (reg32 rax) (.imm (n - 1) 1),
    ins .movzx (reg32 rdx) [stkAt rax 2 hi 2], jmp 2, lbl 1, rmw .and (reg32 rax) (.imm (n - 1) 1),
    ins .movzx (reg32 rdx) [stkAt rax 2 lo 2], lbl 2, ins .movSt (stkAt rcx 2 out 2) [reg16 rdx],
    ins .inc (reg32 rcx) [reg32 rcx], ins0 .cmp [reg32 rcx, .imm n 4], jcc .nz 0]

/-- Picks four quadwords.  The index is tested and reduced in a register of the given size. -/
def permuteLoopQ (reg : GRole → TOpnd) (idx lo hi out : ℤ) : List TInsn :=
  [rmw .xor (reg32 rcx) (reg32 rcx), lbl 0, ins .movLd (reg64 rax) [stkAt rcx 8 idx 8],
    ins0 .test [reg rax, .imm 4 4], jcc .z 1, rmw .and (reg rax) (.imm 3 1),
    ins .movLd (reg64 rdx) [stkAt rax 8 hi 8], jmp 2, lbl 1, rmw .and (reg rax) (.imm 3 1),
    ins .movLd (reg64 rdx) [stkAt rax 8 lo 8], lbl 2, ins .movSt (stkAt rcx 8 out 8) [reg64 rdx],
    ins .inc (reg32 rcx) [reg32 rcx], ins0 .cmp [reg32 rcx, .imm 4 4], jcc .nz 0]

/-! ## `vpermi2`: the destination holds the indices -/

def vpermi2Regs : List (GRole × ℤ) := [(rdx, 272), (rax, 264), (rcx, 280)]

def vpermi2Enter : List TInsn :=
  permuteEnter 304 vpermi2Regs ++
  [ins .vmovdqu (stk 128 32) [ymm d0], ins .vmovdqu (stk 160 32) [ymm s1]]

/-- Fetches the second table from memory. -/
def loadTable (disp : ℤ) : List TInsn :=
  [save .ymm t0, ins .vmovdqu (ymm t0) [.app .s2], ins .vmovdqu (stk disp 32) [ymm t0],
    restore .ymm t0]

def vpermi2Leave : List TInsn :=
  [ins .vmovdqu (ymm d0) [stk 224 32]] ++ permuteLeave 304 [(rcx, 280), (rax, 264), (rdx, 272)]

def vpermi2qKM32YmmYmmGen : Gen :=
  ifQ (.isK .s0 0)
    (emit [[s1, d0]] <|
       vpermi2Enter ++ loadTable 192 ++ permuteLoopQ reg64 128 160 192 224 ++ vpermi2Leave)
    (.null 1)

def vpermi2qKYmmYmmYmmGen : Gen :=
  ifQ (.isK .s0 0)
    (emit [] <|
       vpermi2Enter ++ [ins .vmovdqu (stk 192 32) [ymm s2]] ++
       permuteLoopQ reg64 128 160 192 224 ++ vpermi2Leave)
    (.null 1)

def rwFuncVpermi2q : Gen :=
  opnds [.s2] <| regs [.s0, .d0, .s1] <|
  onKind .s2
    [(.reg, byWidth .s2 unsupported vpermi2qKYmmYmmYmmGen unsupported),
      (.baseDisp, byWidth .d0 unsupported vpermi2qKM32YmmYmmGen unsupported),
      (.relAddr, byWidth .d0 unsupported vpermi2qKM32YmmYmmGen unsupported)]

def vpermi2wKM32YmmYmmGen : Gen :=
  ifQ (.isK .s0 0)
    (emit [[s1, d0]] <|
       vpermi2Enter ++ loadTable 192 ++ permuteLoopW 16 128 160 192 224 ++ vpermi2Leave)
    (.null 1)

def vpermi2wKYmmYmmYmmGen : Gen :=
  ifQ (.isK .s0 0)
    (emit [] <|
       vpermi2Enter ++ [ins .vmovdqu (stk 192 32) [ymm s2]] ++
       permuteLoopW 16 128 160 192 224 ++ vpermi2Leave)
    (.null 1)

/-- The places of the operands in the frame of a permutation of xmm registers, and the loop. -/
structure XmmFrame where
  d : ℤ
  s1 : ℤ
  s2 : ℤ
  out : ℤ
  loop : List TInsn

namespace XmmFrame

variable (f : XmmFrame)

def put (a b c : Role) : List TInsn :=
  [ins .vmovdqu (stk f.d 16) [xmm a], ins .vmovdqu (stk f.s1 16) [xmm b],
    ins .vmovdqu (stk f.s2 16) [xmm c]]

def get (a : Role) : List TInsn := f.loop ++ [ins .vmovdqu (xmm a) [stk f.out 16]]

end XmmFrame

def permuteXmmRegs : List (GRole × ℤ) := [(rax, 200), (rdx, 208), (rcx, 216)]
def permuteXmmEnter : List TInsn := permuteEnter 240 permuteXmmRegs
def permuteXmmLeave : List TInsn := permuteLeave 240 permuteXmmRegs

/-- `vpermi2w` and `vpermt2w` on xmm registers.  Where both sources have to be spilled in, the chain
is cut off before the frame is dropped. -/
def permuteXmmGen (f : XmmFrame) : Gen :=
  ifQ (.isK .s0 0)
    (needSpill3 .xmm .s1 .s2 .d0 fun
       | false, false, false =>
         emit [] <| permuteXmmEnter ++ f.put d0 s1 s2 ++ f.get d0 ++ permuteXmmLeave
       | true, false, false =>
         emit [[s2, d0]] <|
           permuteXmmEnter ++ [save .xmm t0, ldSlot .xmm t0 s1] ++ f.put d0 t0 s2 ++
           [restore .xmm t0] ++ f.get d0 ++ permuteXmmLeave
       | false, true, false =>
         emit [[s1, d0]] <|
           permuteXmmEnter ++ [save .xmm t0, ldSlot .xmm t0 s2] ++ f.put d0 s1 t0 ++
           [restore .xmm t0] ++ f.get d0 ++ permuteXmmLeave
       | true, true, false =>
         emit [[s2, d0], [d0, t0]] <|
           permuteXmmEnter ++ saves .xmm [t0, t1] ++ [ldSlot .xmm t0 s1, ldSlot .xmm t1 s2] ++
           f.put d0 t0 t1 ++ restores .xmm [t0, t1] ++ f.get d0 ++ permuteRestore permuteXmmRegs
       | false, false, true =>
         emit [[s1, s2]] <|
           permuteXmmEnter ++ [save .xmm t0, ldSlot .xmm t0 d0] ++ f.put t0 s1 s2 ++ f.get t0 ++
           [ins .movLd (reg64 rax) [stk 200 8], stSlot .xmm d0 t0, restore .xmm t0] ++
           permuteLeave 240 [(rdx, 208), (rcx, 216)]
       | true, false, true =>
         emit [[s2, d0], [s2, t0]] <|
           permuteXmmEnter ++ saves .xmm [t0, t1] ++ [ldSlot .xmm t0 s1, ldSlot .xmm t1 d0] ++
           f.put t1 t0 s2 ++ f.get t1 ++ [stSlot .xmm d0 t1] ++ restores .xmm [t0, t1] ++
           permuteXmmLeave
       | false, true, true =>
         emit [[s1, d0], [s1, t0]] <|
           permuteXmmEnter ++ saves .xmm [t0, t1] ++ [ldSlot .xmm t0 s2, ldSlot .xmm t1 d0] ++
           f.put t1 s1 t0 ++ f.get t1 ++ [stSlot .xmm d0 t1] ++ restores .xmm [t0, t1] ++
           permuteXmmLeave
       | true, true, true =>
         emit (fresh [s1, s2, d0] 3) <|
           permuteXmmEnter ++ saves .xmm [t0, t1, t2] ++
           [ldSlot .xmm t0 s1, ldSlot .xmm t1 s2, ldSlot .xmm t2 d0] ++ f.put t2 t0 t1 ++
           f.get t2 ++ [stSlot .xmm d0 t2] ++ restores .xmm [t0, t1, t2] ++
           permuteRestore permuteXmmRegs)
    (.null 1)

def vpermi2wKXmmXmmXmmGen : Gen :=
  permuteXmmGen ⟨128, 144, 160, 176, permuteLoopW 8 128 144 160 176⟩

def rwFuncVpermi2w : Gen :=
  opnds [.s2] <| regs [.s0, .d0, .s1] <|
  onKind .s2
    [(.reg, byWidth .s2 vpermi2wKXmmXmmXmmGen vpermi2wKYmmYmmYmmGen unsupported),
     (.baseDisp, byWidth .d0 unsupported vpermi2wKM32YmmYmmGen unsupported),
     (.relAddr, byWidth .d0 unsupported vpermi2wKM32YmmYmmGen unsupported)]

/-! ## `vpermt2`: the first source holds the indices -/

/-- The index is reduced with a 32-bit immediate here. -/
def vpermt2dKYmmYmmYmmGen : Gen :=
  ifQ (.isK .s0 0)
    (emit [] <|
       permuteEnter 304 vpermi2Regs ++
       [ins .vmovdqu (stk 224 32) [ymm d0], ins .vmovdqu (stk 192 32) [ymm s1],
         ins .vmovdqu (stk 160 32) [ymm s2], rmw .xor (reg32 rcx) (reg32 rcx), lbl 0,
         ins .movLd (reg32 rax) [stkAt rcx 4 192 4], ins0 .test [reg32 rax, .imm 8 4], jcc .z 1,
         rmw .and (reg32 rax) (.imm 7 4), ins .movLd (reg32 rdx) [stkAt rax 4 160 4], jmp 2,
         lbl 1, rmw .and (reg32 rax) (.imm 7 4), ins .movLd (reg32 rdx) [stkAt rax 4 224 4],
         lbl 2, ins .movSt (stkAt rcx 4 128 4) [reg32 rdx], ins .inc (reg32 rcx) [reg32 rcx],
         ins0 .cmp [reg32 rcx, .imm 8 4], jcc .nz 0, ins .vmovdqu (ymm d0) [stk 128 32]] ++
       permuteLeave 304 [(rcx, 280), (rdx, 272), (rax, 264)])
    (.null 1)

def rwFuncVpermt2d : Gen :=
  opnds [.s2] <| regs [.s0, .d0, .s1] <|
  onKind .s2
    [(.reg, byWidth .d0 unsupported vpermt2dKYmmYmmYmmGen unsupported),
      (.baseDisp, byWidth .d0 unsupported unsupported unsupported)]

/-- The index decides between two permutations by its fourth bit, which is spread over the lane. -/
def vpermt2psCode : List TInsn :=
  borrow .ymm [t0] <|
    borrow .ymm [t1]
      [ins .vpslld (ymm t0) [.imm 28 1, .app .s1], rmw .vpsrad (ymm t0) (.imm 31 1),
        rmw .vpermps (.app .d0) (.app .s1), rmw .vpandn (.app .d0) (ymm t0),
        ins .vpermps (ymm t1) [.app .s1, .app .s2], vop .vpand .ymm t1 t1 t0,
        ins .vpor (.app .d0) [.app .d0, ymm t1]]

def vpermt2psKM32YmmYmmGen : Gen :=
  regs [.s1, .d0] <|
  ifQ (.test .s1 (.isVec .ymm))
    (ifQ (.test .d0 (.isVec .ymm)) (emit (fresh [s1, d0] 2) vpermt2psCode) .abort)
    .abort

def vpermt2psKYmmYmmYmmGen : Gen :=
  regs [.s1, .d0, .s2] <|
  ifQ (.test .s1 (.isVec .ymm))
    (ifQ (.test .d0 (.isVec .ymm))
       (ifQ (.test .s2 (.isVec .ymm)) (emit (fresh [s1, d0, s2] 2) vpermt2psCode) .abort)
       .abort)
    .abort

def rwFuncVpermt2ps : Gen :=
  opnds [.s1, .s2, .d0] <| regs [.s0] <|
  ifQ (.test .s2 (.isKind .reg)) vpermt2psKYmmYmmYmmGen vpermt2psKM32YmmYmmGen

def vpermt2Enter : List TInsn :=
  permuteEnter 304 [(rax, 264), (rdx, 272), (rcx, 280)] ++
  [ins .vmovdqu (stk 224 32) [ymm d0], ins .vmovdqu (stk 192 32) [ymm s1]]

/-- Restores the registers in a given order. -/
def vpermt2Leave (rs : List (GRole × ℤ)) : List TInsn :=
  [ins .vmovdqu (ymm d0) [stk 128 32]] ++ permuteLeave 304 rs

def vpermt2qKM32YmmYmmGen : Gen :=
  ifQ (.isK .s0 0)
    (emit [[s1, d0]] <|
       vpermt2Enter ++ loadTable 160 ++ permuteLoopQ reg32 192 224 160 128 ++
       vpermt2Leave [(rax, 264), (rdx, 272), (rcx, 280)])
    (.null 1)

def vpermt2qKYmmYmmYmmGen : Gen :=
  ifQ (.isK .s0 0)
    (emit [] <|
       vpermt2Enter ++ [ins .vmovdqu (stk 160 32) [ymm s2]] ++
       permuteLoopQ reg32 192 224 160 128 ++ vpermt2Leave [(rcx, 280), (rdx, 272), (rax, 264)])
    (.null 1)

def rwFuncVpermt2q : Gen :=
  opnds [.s2] <| regs [.s0, .d0, .s1] <|
  onKind .s2
    [(.reg, byWidth .d0 unsupported vpermt2qKYmmYmmYmmGen unsupported),
      (.baseDisp, byWidth .d0 unsupported vpermt2qKM32YmmYmmGen unsupported),
      (.relAddr, byWidth .d0 unsupported vpermt2qKM32YmmYmmGen unsupported)]

def vpermt2wLoop : List TInsn := permuteLoopW 8 160 176 144 128

def vpermt2wKM16XmmXmmGen : Gen :=
  ifQ (.isK .s0 0)
    (emit [[s1, d0]] <|
       permuteXmmEnter ++
       [ins .vmovdqu (stk 176 16) [xmm d0], ins .vmovdqu (stk 160 16) [xmm s1], save .xmm t0,
         ins .vmovdqu (xmm t0) [.app .s2], ins .vmovdqu (stk 144 16) [xmm t0],
         restore .xmm t0] ++
       vpermt2wLoop ++ [ins .vmovdqu (xmm d0) [stk 128 16]] ++ permuteXmmLeave)
    (.null 1)

def vpermt2wKM32YmmYmmGen : Gen :=
  ifQ (.isK .s0 0)
    (emit [[s1, d0]] <|
       vpermt2Enter ++ loadTable 160 ++ permuteLoopW 16 192 224 160 128 ++
       vpermt2Leave [(rax, 264), (rdx, 272), (rcx, 280)])
    (.null 1)

def vpermt2wKXmmXmmXmmGen : Gen := permuteXmmGen ⟨176, 160, 144, 128, vpermt2wLoop⟩

def vpermt2wKYmmYmmYmmGen : Gen :=
  ifQ (.isK .s0 0)
    (emit [] <|
       vpermt2Enter ++ [ins .vmovdqu (stk 160 32) [ymm s2]] ++
       permuteLoopW 16 192 224 160 128 ++ vpermt2Leave [(rax, 264), (rdx, 272), (rcx, 280)])
    (.null 1)

def rwFuncVpermt2w : Gen :=
  opnds [.s2] <| regs [.s0, .d0, .s1] <|
  onKind .s2
    [(.reg, byWidth .d0 vpermt2wKXmmXmmXmmGen vpermt2wKYmmYmmYmmGen unsupported),
     (.baseDisp, byWidth .d0 vpermt2wKM16XmmXmmGen vpermt2wKM32YmmYmmGen unsupported),
     (.relAddr, byWidth .d0 vpermt2wKM16XmmXmmGen vpermt2wKM32YmmYmmGen unsupported)]

end DrAvx
