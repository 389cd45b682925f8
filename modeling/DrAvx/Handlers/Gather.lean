import DrAvx.Rewrite.Vocabulary

/-!
# Handlers of gathers and scatters
-/

set_option autoImplicit false

namespace DrAvx

/-! ## Gathers

The opmask becomes a vector mask, as in the masked moves, with a table that is put together in two
halves.  The register that fetches the opmask and the lanes of the table is chosen not to be the
base of the operand. -/

/-- Puts 32-bit values into the lanes of an xmm register, starting at a lane. -/
def insertLanes32 (r : GRole) (t : Role) (lane : ℕ) (vs : List ℤ) : List TInsn :=
  vs.zipIdx.flatMap fun v ↦
    [ins .movImm (reg32 r) [.imm v.1 4], ins .pinsrd (xmm t) [reg32 r, .imm (lane + v.2) 1]]

/-- The same with 64-bit values. -/
def insertLanes64 (r : GRole) (t : Role) (lane : ℕ) (vs : List ℤ) : List TInsn :=
  vs.zipIdx.flatMap fun v ↦
    [ins .movImm (reg64 r) [.imm v.1 8], ins .pinsrq (xmm t) [reg64 r, .imm (lane + v.2) 1]]

/-- Tests the bits of the opmask in `t0` against the table, whose halves are in `t1` and `t2`. -/
def gatherMask (compare : Op) : List TInsn :=
  [ins .vinserti128 (ymm t1) [ymm t1, xmm t2, .imm 1 1], vop .vpand .ymm t0 t0 t1,
    vop .vpxor .ymm t2 t2 t2, vop compare .ymm t0 t0 t2]

/-- Gathers, and clears the opmask. -/
def gatherEnd (op : Op) (r : GRole) : List TInsn :=
  [⟨op, [ymm d0, ymm t0], [.app .s1, ymm t0]⟩, rmw .xor (reg64 r) (reg64 r),
    ins .movSt (.kslot .s0 8) [reg64 r]] ++
  restores .ymm [t2, t1, t0] ++ [pop r, popf]

/-- The mask is broadcast from `eax` whichever register was loaded with it. -/
def vpgatherddCode (r : GRole) : List TInsn :=
  [pushf, push r] ++ saves .ymm [t0, t1, t2] ++
  [ins .movLd (reg64 r) [.kslot .s0 8], ins .vmovd (xmm t0) [reg32 rax],
    ins .vpbroadcastd (ymm t0) [xmm t0]] ++
  insertLanes32 r t1 0 [1, 2, 4, 8] ++ insertLanes32 r t2 0 [16, 32, 64, 128] ++
  gatherMask .vpcmpgtd ++ gatherEnd .vpgatherdd r

def vpgatherddYmmGen : Gen :=
  ifQ (.test .s1 (.isKind .baseDisp))
    (ifQ (.baseIs .s1 .rax)
       (emit (fresh [.index .s1, d0] 3) (vpgatherddCode rbx))
       (emit (fresh [.index .s1, d0] 3) (vpgatherddCode rax)))
    .abort

def rwFuncVpgatherdd : Gen :=
  opnds [.s1] <| regs [.s0, .d0] <|
  byWidth .d0 unsupported vpgatherddYmmGen unsupported

/-- The destination is cleared before the gather. -/
def vpgatherdqCode (r : GRole) : List TInsn :=
  [pushf, push r] ++ saves .ymm [t0, t1, t2] ++
  [ins .movLd (reg64 r) [.kslot .s0 8], ins .vmovq (xmm t0) [reg64 r],
    ins .vpbroadcastq (ymm t0) [xmm t0], vop .vpxor .ymm d0 d0 d0] ++
  insertLanes64 r t1 0 [1, 2] ++ insertLanes64 r t2 0 [4, 8] ++
  gatherMask .vpcmpgtq ++ gatherEnd .vpgatherdq r

def vpgatherdqYmmGen : Gen :=
  ifQ (.test .s1 (.isKind .baseDisp))
    (ifQ (.baseIs .s1 .r11)
       (emit (fresh [.index .s1, d0] 3) (vpgatherdqCode r12))
       (emit (fresh [.index .s1, d0] 3) (vpgatherdqCode r11)))
    .abort

def rwFuncVpgatherdq : Gen :=
  opnds [.s1] <| regs [.s0, .d0] <|
  byWidth .d0 unsupported vpgatherdqYmmGen unsupported

/-- The upper half of the table is put into lanes 2 and 3 of an xmm register. -/
def vpgatherqqCode (r : GRole) : List TInsn :=
  [pushf, push r] ++ saves .ymm [t0, t1, t2] ++
  [ins .movLd (reg64 r) [.kslot .s0 8], ins .vmovq (xmm t0) [.kslot .s0 8],
    ins .vpbroadcastq (ymm t0) [xmm t0]] ++
  insertLanes64 r t1 0 [1, 2] ++ insertLanes64 r t2 2 [4, 8] ++
  gatherMask .vpcmpgtq ++ gatherEnd .vpgatherqq r

def vpgatherqqYmmGen : Gen :=
  ifQ (.test .s1 (.isKind .baseDisp))
    (ifQ (.baseIs .s1 .rax)
       (emit (fresh [.index .s1, d0] 3) (vpgatherqqCode rbx))
       (emit (fresh [.index .s1, d0] 3) (vpgatherqqCode rax)))
    .abort

def rwFuncVpgatherqq : Gen :=
  opnds [.s1] <| regs [.s0, .d0] <|
  byWidth .d0 unsupported vpgatherqqYmmGen unsupported

/-! ## Scatter -/

/-- Stores lane `n` if its mask bit is set.  The data are at `rsp`, the indices at `rsp + 32`. -/
def scatterLane (n : ℕ) : List TInsn :=
  [ins0 .bt [reg64 rdx, .imm n 1], jcc .nb n, ins .movLd (reg32 rax) [stk (32 + 4 * n) 4],
    ins .lea (reg64 rdi) [.scratch rbx (some rax) 4 0 0], ins .movLd (reg32 rcx) [stk (4 * n) 4],
    ins .movSt (.scratch rdi none 0 0 4) [reg32 rcx], lbl n]

def vpscatterddYmmGen : Gen :=
  ifQ (.test .d0 (.isKind .baseDisp))
    (emit [] <|
       [push rax, ins .movLd (reg64 rax) [reg64 (.base .d0)], push rdx, push rbx, push rdi,
         push rcx, pushf, rmw .sub (reg64 rsp) (.imm 64 4), ins .vmovdqu (stk 0 32) [ymm s1],
         ins .vmovdqu (stk 32 32) [ymm (.index .d0)], ins .movLd (reg64 rdx) [.kslot .s0 8],
         ins .movLd (reg64 rbx) [reg64 rax]] ++
       (List.range 8).flatMap scatterLane ++
       [rmw .xor (reg64 rax) (reg64 rax), ins .movSt (.kslot .s0 8) [reg64 rax],
         rmw .add (reg64 rsp) (.imm 64 4), popf, pop rcx, pop rdi, pop rbx, pop rdx, pop rax])
    .abort

def rwFuncVpscatterdd : Gen :=
  opnds [.d0] <| regs [.s0, .s1] <|
  ifQ (.test .d0 (.isKind .baseDisp)) (byWidth .s1 unsupported vpscatterddYmmGen unsupported) .abort

end DrAvx
