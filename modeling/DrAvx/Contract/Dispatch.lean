import DrAvx.Handlers.Table
import DrAvx.InstrList.Driver

/-!
# Dispatching on the opcode

The block builder flags the instructions that have an EVEX prefix, and the operations on opmask
registers, which have none.  For a flagged instruction the driver indexes `rewrite_funcs` with the
distance of its opcode from `OP_vmovss`, whatever the opcode.  The table follows the enumeration of
the opcodes, but ends with the opcode it knew last: the extensions that were enumerated later are
flagged all the same, and the driver reads past the end of the table for them.
-/

set_option autoImplicit false

namespace DrAvx

/-! ## Flagging -/

/-- What the block builder looks at: is there an EVEX prefix, and the opcode. -/
structure Decoded where
  evex : Bool
  opcode : ℕ

/-- The opcodes that have an entry with an EVEX prefix in the decoder's tables, as intervals of the
enumeration. -/
def evexOpcodes : List (ℕ × ℕ) :=
  [(636, 664), (667, 670), (675, 748), (750, 752), (754, 756), (758, 770), (772, 774), (776, 781),
    (783, 791), (801, 801), (805, 805), (812, 816), (821, 846), (853, 855), (863, 865), (881, 882),
    (886, 887), (891, 952), (1075, 1082), (1089, 1092), (1094, 1102), (1158, 1403), (1426, 1434)]

/-- `OP_kmovw` and `OP_ktestd`, the first and the last of the operations on opmask registers. -/
def opKmovw : ℕ := 1107
def opKtestd : ℕ := 1157

namespace Decoded

/-- The decoder delivers the instruction: one with an EVEX prefix has an entry in its tables. -/
def Valid (d : Decoded) : Prop :=
  d.evex = true → ∃ run ∈ evexOpcodes, run.1 ≤ d.opcode ∧ d.opcode ≤ run.2

/-- `is_avx512_instr`, as `build_bb_ilist` sets it. -/
def isAvx512Instr (d : Decoded) : Bool :=
  d.evex || (decide (opKmovw ≤ d.opcode) && decide (d.opcode ≤ opKtestd))

end Decoded

/-! ## Dispatch -/

/-- The driver finds an entry of the table for the opcode, and it is `rw_func_empty` or the handler
for that opcode. -/
def Dispatches (opcode : ℕ) : Prop :=
  0 ≤ toAvx512RwfuncIndex opcode ∧ ∃ entry,
    rewriteFuncs[(toAvx512RwfuncIndex opcode).toNat]? = some entry ∧ ∀ h ∈ entry, h.opcode = opcode

/-- The opcodes that were enumerated after the table was laid out: `vpdpbusd`, `vpdpbusds`,
`vpdpwssd`, `vpdpwssds`, `vcvtne2ps2bf16`, `vcvtneps2bf16`, `vdpbf16ps`, `vpopcntd` and
`vpopcntq`. -/
def lateOpcodes : List ℕ := [1426, 1427, 1428, 1429, 1430, 1431, 1432, 1433, 1434]

theorem length_rewriteFuncs : rewriteFuncs.length = 768 := by
  decide +kernel

/-- The order of the table is that of the enumeration. -/
theorem opcode_of_mem_zipIdx : ∀ e ∈ rewriteFuncs.zipIdx, ∀ h ∈ e.1, h.opcode = e.2 + 636 := by
  decide +kernel

/-- The opcodes from `OP_vmovss` on, as many as the table has entries, are dispatched to the entry
meant for them. -/
theorem dispatches_iff_bounds (opcode : ℕ) :
    Dispatches opcode ↔ 636 ≤ opcode ∧ opcode < 636 + 768 := by
  have hindex : toAvx512RwfuncIndex opcode = opcode - 636 := rfl
  refine ⟨fun ⟨hnonneg, entry, hget, _⟩ ↦ ?_, fun ⟨hle, hlt⟩ ↦ ?_⟩
  · have hlen := (List.getElem?_eq_some_iff.mp hget).1
    rw [length_rewriteFuncs] at hlen
    omega
  · have hn : opcode - 636 < rewriteFuncs.length := by
      rw [length_rewriteFuncs]
      omega
    have htoNat : (toAvx512RwfuncIndex opcode).toNat = opcode - 636 := by omega
    refine ⟨by omega, rewriteFuncs[opcode - 636], ?_, fun h hh ↦ ?_⟩
    · rw [htoNat, List.getElem?_eq_getElem hn]
    · have hmem : (rewriteFuncs[opcode - 636], opcode - 636) ∈ rewriteFuncs.zipIdx :=
        List.mk_mem_zipIdx_iff_getElem?.mpr (List.getElem?_eq_getElem hn)
      have := opcode_of_mem_zipIdx _ hmem h hh
      omega

/-- An opcode with an EVEX entry is dispatched unless it is one of the late ones. -/
theorem bounds_of_evex {opcode : ℕ} (h : ∃ run ∈ evexOpcodes, run.1 ≤ opcode ∧ opcode ≤ run.2) :
    636 ≤ opcode ∧ (opcode < 636 + 768 ↔ opcode ∉ lateOpcodes) := by
  simp only [evexOpcodes, List.mem_cons, List.not_mem_nil, or_false, exists_eq_or_imp,
    exists_eq_left] at h
  simp only [lateOpcodes, List.mem_cons, List.not_mem_nil, or_false]
  omega

/-- The driver stays inside the table for exactly those flagged instructions whose opcode is not one
of the late ones. -/
theorem Decoded.dispatches_iff (d : Decoded) (hd : d.Valid) (hflag : d.isAvx512Instr = true) :
    Dispatches d.opcode ↔ d.opcode ∉ lateOpcodes := by
  rw [dispatches_iff_bounds]
  rcases (Bool.or_eq_true _ _).mp hflag with hevex | hmask
  · obtain ⟨hle, hiff⟩ := bounds_of_evex (hd hevex)
    exact ⟨fun h ↦ hiff.mp h.2, fun h ↦ ⟨hle, hiff.mpr h⟩⟩
  · rw [Bool.and_eq_true] at hmask
    have hlow : 1107 ≤ d.opcode := of_decide_eq_true hmask.1
    have hhigh : d.opcode ≤ 1157 := of_decide_eq_true hmask.2
    simp only [lateOpcodes, List.mem_cons, List.not_mem_nil, or_false]
    omega

/-- `vpopcntd` with an EVEX prefix is flagged, and the table has no entry for it. -/
theorem not_dispatches_vpopcntd : Decoded.Valid ⟨true, 1433⟩ ∧
    Decoded.isAvx512Instr ⟨true, 1433⟩ = true ∧ ¬Dispatches 1433 :=
  ⟨fun _ ↦ ⟨(1426, 1434), by decide, by decide⟩, rfl, by rw [dispatches_iff_bounds]; decide⟩

/-- `vmovss` with an EVEX prefix is dispatched to its own handler. -/
theorem dispatches_vmovss : Decoded.Valid ⟨true, 636⟩ ∧ Dispatches 636 :=
  ⟨fun _ ↦ ⟨(636, 664), by decide, by decide⟩, (Decoded.dispatches_iff ⟨true, 636⟩
    (fun _ ↦ ⟨(636, 664), by decide, by decide⟩) rfl).mpr (by decide)⟩

end DrAvx
