import Mathlib.Data.List.Perm.Subperm
import DrAvx.Ir.Basic

/-!
# Choosing scratch registers

The rewriter borrows vector registers from a pool of six, ymm10 to ymm15, and general purpose
registers from a pool of fourteen.  A finder scans its pool and takes the first register that is not
among those it is told to avoid.  The source has a copy of the scan for every width and every number
of arguments, with `DR_REG_NULL` as the result when the pool is exhausted; a register number that
belongs to another width is never equal to a candidate, so passing one has no effect.
-/

set_option autoImplicit false

namespace DrAvx

/-- The registers `XMM_SPILL_SLOT0` to `XMM_SPILL_SLOT5`, or their ymm counterparts. -/
def spillPool : List VReg := [10, 11, 12, 13, 14, 15]

/-- `find_one_available_spill_xmm`, `find_available_spill_xmm_avoiding`, their variadic form and
their copies for ymm registers. -/
def findAvailableSpill (avoid : List VReg) : Option VReg :=
  spillPool.find? fun r ↦ !avoid.contains r

theorem mem_spillPool_of_findAvailableSpill {avoid : List VReg} {r : VReg}
    (h : findAvailableSpill avoid = some r) : r ∈ spillPool :=
  List.mem_of_find?_eq_some h

theorem notMem_of_findAvailableSpill {avoid : List VReg} {r : VReg}
    (h : findAvailableSpill avoid = some r) : r ∉ avoid := by
  simpa using List.find?_some h

theorem not_high_of_mem_spillPool {r : VReg} (h : r ∈ spillPool) : r.high = false := by
  revert r
  decide

/-- A scan succeeds when the registers of the pool that it has to avoid are among fewer than there
are in the pool. -/
theorem exists_find?_notMem {α : Type} [DecidableEq α] {pool avoid low : List α}
    (hpool : pool.Nodup) (hsub : ∀ r ∈ pool, r ∈ avoid → r ∈ low)
    (hlen : low.length < pool.length) : ∃ r, pool.find? (fun r ↦ !avoid.contains r) = some r := by
  rw [← Option.isSome_iff_exists, List.find?_isSome]
  by_contra hnone
  -- otherwise the whole pool occurs among the registers to avoid
  have hall : pool ⊆ low := by
    intro r hr
    simp only [not_exists, not_and] at hnone
    exact hsub r hr (by simpa using hnone r hr)
  have := (List.subperm_of_subset hpool hall).length_le
  omega

/-- Six registers are enough to avoid five: a finder succeeds when fewer than six of the registers
to avoid exist on the host. -/
theorem exists_findAvailableSpill {avoid : List VReg}
    (h : (avoid.filter fun r ↦ !r.high).length < 6) : ∃ r, findAvailableSpill avoid = some r := by
  refine exists_find?_notMem (by decide) (fun r hr ha ↦ ?_) h
  simpa [not_high_of_mem_spillPool hr] using ha

/-- `find_available_spill_gprs_avoiding_outptrs` scans the registers in this order; the stack and
frame pointers are not in the pool. -/
def gprSpillPool : List Gpr :=
  [.rax, .rcx, .rdx, .rbx, .rsi, .rdi, .r8, .r9, .r10, .r11, .r12, .r13, .r14, .r15]

/-- `find_one_available_spill_gpr_avoiding_variadic`; the multi-register finders call the same scan
with the registers found so far avoided as well. -/
def findAvailableSpillGpr (avoid : List Gpr) : Option Gpr :=
  gprSpillPool.find? fun r ↦ !avoid.contains r

theorem exists_findAvailableSpillGpr {avoid : List Gpr} (h : avoid.length < 14) :
    ∃ r, findAvailableSpillGpr avoid = some r :=
  exists_find?_notMem (by decide) (fun _ _ ha ↦ ha) h

end DrAvx
