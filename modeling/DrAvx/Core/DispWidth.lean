import DrAvx.Core.ModRm
import Mathlib.Tactic.Linarith

/-!
# The width of a displacement that is decoded and encoded again

The operand that `decode_modrm` makes has no field for the width of its displacement.  What is known
of the bytes is kept in two flags: `encode_zero_disp` for a zero that is written out, and
`force_full_disp` for four bytes where one would do.  The decoder looks for the latter in the range
of a byte, but the encoder compresses: a multiple of `N` between the two ranges, in four bytes, is
written in one.  Apart from the displacement, a sib byte that says nothing gets lost.  In all other
cases the operand is encoded as it was (`keepsForm_iff`).

The functions of `DrAvx.Core.ModRm` are for addresses in 64-bit general purpose registers.  Here
they are completed to the addresses of 64-bit mode: with the address size prefix the registers are
their lower halves, and the index of a VSIB operand is a vector register.

## What is here

* `decodeMem` and `encodeMem`: `decode_modrm` and `encode_base_disp` for all these addresses;
* `readModrm_reads`: what is known of fields that were read from bytes;
* `encodeDisp_mod_eq_iff`: when the encoder chooses the mod that was decoded;
* `KeepsForm` and `keepsForm_iff`.
-/

set_option autoImplicit false

namespace DrAvx

namespace ModRm

/-! ## Addresses of 64-bit mode -/

/-- The index of an address: a general purpose register, or the vector register of that number in
the file the instruction takes it from. -/
inductive IndexReg
  | gpr (r : Gpr)
  | vec (n : ℕ)
  deriving DecidableEq

/-- A base-disp operand.  With `shortAddr` its general purpose registers are the 32-bit ones. -/
structure MemOpnd where
  seg : Option SegReg
  base : Option Gpr
  index : Option IndexReg
  scale : ℕ
  disp : BitVec 32
  encodeZeroDisp : Bool
  forceFullDisp : Bool
  shortAddr : Bool
  deriving DecidableEq

/-- What the rm field can stand for. -/
inductive MemRm
  | mem (o : MemOpnd)
  | relAddr (seg : Option SegReg) (addr : BitVec 64)
  | reg (n : ℕ)
  deriving DecidableEq

/-- `decode_info_t` with `PREFIX_ADDR` and `PREFIX_EVEX_VV`. -/
structure MemInfo extends DecodeInfo where
  addrPrefix : Bool
  evexVV : Bool
  deriving DecidableEq

/-- The operand with registers as the address size prefix has them. -/
def RmOpnd.toMem (addrPrefix : Bool) : RmOpnd → MemRm
  | .baseDisp o => .mem ⟨o.seg, o.base, o.index.map .gpr, o.scale, o.disp, o.encodeZeroDisp,
      o.forceFullDisp, addrPrefix⟩
  | .relAddr seg addr => .relAddr seg (if addrPrefix then addr &&& 0xffffffff else addr)
  | .reg n => .reg n

/-- `decode_reg` for `DECODE_REG_INDEX` and `TYPE_VSIB`. -/
def decodeVecIndex (di : MemInfo) : ℕ :=
  di.index.toNat + (if di.prefixes.rexX then 8 else 0) + (if di.evexVV then 16 else 0)

/-- `decode_modrm` for the rm operand of an instruction; `vsib` for `TYPE_VSIB`. -/
def decodeMem (vsib : Bool) (di : MemInfo) : Option MemRm :=
  if vsib then
    -- a VSIB operand has an index even if the field is 4, and there is none without a sib byte
    if di.hasSib then
      (decodeBaseDisp di.toDecodeInfo).map fun o ↦
        .mem ⟨o.seg, o.base, some (.vec (decodeVecIndex di)), scaleOfField di.scale, o.disp,
          o.encodeZeroDisp, o.forceFullDisp, di.addrPrefix⟩
    else none
  else (decodeModrm di.toDecodeInfo).map (RmOpnd.toMem di.addrPrefix)

/-- The general purpose register that is the index. -/
def MemOpnd.indexGpr (o : MemOpnd) : Option Gpr :=
  match o.index with
  | some (.gpr r) => some r
  | _ => none

def MemOpnd.toBaseDisp (o : MemOpnd) : BaseDisp :=
  ⟨o.seg, o.base, o.indexGpr, o.scale, o.disp, o.encodeZeroDisp, o.forceFullDisp⟩

/-- The index and scale fields of the sib byte of a VSIB operand. -/
def encodeVecIndex (di : DecodeInfo) (n scale : ℕ) : DecodeInfo :=
  { di with
    prefixes := { di.prefixes with rexX := di.prefixes.rexX || n / 8 % 2 = 1 }
    index := .ofNat 8 (n % 8)
    scale := scaleField di.scale scale }

/-- `encode_base_disp`.  The address size prefix is added where there is a sib byte only: the test
for it is behind the choice of the sib byte. -/
def encodeMem (di : MemInfo) (opnd : MemOpnd) : MemInfo :=
  if di.mod < 5 then di
  else
    match opnd.index with
    | some (.vec n) =>
      let e := { encodeDisp di.toDecodeInfo opnd.toBaseDisp with hasSib := true, rm := 4 }
      { toDecodeInfo := encodeBase (encodeVecIndex e n opnd.scale) opnd.toBaseDisp
        addrPrefix := di.addrPrefix || (opnd.shortAddr && opnd.base.isSome)
        evexVV := di.evexVV || n / 16 % 2 = 1 }
    | _ =>
      let e := encodeBaseDisp di.toDecodeInfo opnd.toBaseDisp
      { toDecodeInfo := e
        addrPrefix := di.addrPrefix ||
          (e.hasSib && opnd.shortAddr && (opnd.base.isSome || opnd.index.isSome))
        evexVV := di.evexVV }

/-! ## Fields that were read -/

/-- The number of bytes of a displacement. -/
def DecodeInfo.dispLength (di : DecodeInfo) : ℕ :=
  if di.hasDisp then if di.mod = 1 then 1 else 4 else 0

/-- What is known of the fields `dk` that were read from the bytes `pc` in the state `dj`. -/
structure DecodeInfo.Reads (dj dk : DecodeInfo) (pc rest : List (BitVec 8)) : Prop where
  evexEncoded : dk.evexEncoded = dj.evexEncoded
  tupleType : dk.tupleType = dj.tupleType
  inputSize : dk.inputSize = dj.inputSize
  prefixes : dk.prefixes = dj.prefixes
  mod_lt : dk.mod < 4
  rm_lt : dk.rm < 8
  base_lt : dk.hasSib = true → dk.base < 8
  sib_iff : dk.hasSib = true ↔ dk.rm = 4 ∧ dk.mod ≠ 3
  disp_iff : dk.hasDisp = true ↔ ((dk.mod = 0 ∧ dk.rm = 5) ∨
    (dk.hasSib = true ∧ dk.mod = 0 ∧ dk.base = 5) ∨ dk.mod = 2) ∨ dk.mod = 1
  byte : dk.mod = 1 → fitsInt8 dk.disp = true
  length : pc.length = 1 + dk.hasSib.toNat + dk.dispLength + rest.length

theorem fitsInt8_signExtend (b : BitVec 8) : fitsInt8 (b.signExtend 32) = true := by
  have hle := BitVec.le_toInt b
  have hlt := BitVec.toInt_lt (x := b)
  rw [fitsInt8, BitVec.toInt_signExtend_of_le (by decide), Bool.and_eq_true, decide_eq_true_eq,
    decide_eq_true_eq]
  omega

theorem and_three_lt (x : BitVec 8) : x &&& 3 < 4 := by
  rw [BitVec.lt_def, BitVec.toNat_and]
  exact Nat.lt_of_le_of_lt Nat.and_le_right (by decide)

theorem and_seven_lt (x : BitVec 8) : x &&& 7 < 8 := by
  rw [BitVec.lt_def, BitVec.toNat_and]
  exact Nat.lt_of_le_of_lt Nat.and_le_right (by decide)

theorem length_of_readInt {pc rest : List (BitVec 8)} {v : BitVec 32}
    (h : readInt pc = some (v, rest)) : pc.length = 4 + rest.length := by
  rw [readInt.eq_def] at h
  split at h
  · obtain rfl := (Prod.mk.inj (Option.some.inj h)).2
    simp only [List.length_cons]
    omega
  · exact absurd h (by simp)

/-- The displacement part of what is read. -/
theorem readDisp_reads {pc rest : List (BitVec 8)} {di dk : DecodeInfo}
    (h : readDisp pc di = some (dk, rest)) :
    ∃ hasDisp disp, dk = { di with hasDisp := hasDisp, disp := disp } ∧
      (hasDisp = true ↔ ((di.mod = 0 ∧ di.rm = 5) ∨
        (di.hasSib = true ∧ di.mod = 0 ∧ di.base = 5) ∨ di.mod = 2) ∨ di.mod = 1) ∧
      (di.mod = 1 → fitsInt8 disp = true) ∧
      pc.length = (if hasDisp then if di.mod = 1 then 1 else 4 else 0) + rest.length := by
  rw [readDisp] at h
  split_ifs at h with hfour hone
  · obtain ⟨⟨v, pc'⟩, hread, heq⟩ := Option.map_eq_some_iff.1 h
    obtain ⟨rfl, rfl⟩ := Prod.mk.inj heq
    have hne : di.mod ≠ 1 := by
      rcases hfour with ⟨h0, -⟩ | ⟨-, h0, -⟩ | h2
      · rw [h0]; decide
      · rw [h0]; decide
      · rw [h2]; decide
    refine ⟨true, v, rfl, iff_of_true rfl (.inl hfour), fun h1 ↦ absurd h1 hne, ?_⟩
    rw [if_pos rfl, if_neg hne]
    exact length_of_readInt hread
  · obtain ⟨⟨v, pc'⟩, hread, heq⟩ := Option.map_eq_some_iff.1 h
    obtain ⟨rfl, rfl⟩ := Prod.mk.inj heq
    refine ⟨true, v, rfl, iff_of_true rfl (.inr hone), fun _ ↦ ?_, ?_⟩
    · cases pc with
      | nil => exact absurd hread (by simp [readSbyte])
      | cons b pc =>
        obtain rfl := (Prod.mk.inj (Option.some.inj hread)).1
        exact fitsInt8_signExtend b
    · cases pc with
      | nil => exact absurd hread (by simp [readSbyte])
      | cons b pc =>
        obtain rfl := (Prod.mk.inj (Option.some.inj hread)).2
        simp [hone]
        omega
  · obtain ⟨rfl, rfl⟩ := Prod.mk.inj (Option.some.inj h)
    exact ⟨false, di.disp, rfl, iff_of_false (by simp) (not_or.2 ⟨hfour, hone⟩),
      fun h1 ↦ absurd h1 hone, by simp⟩

theorem readModrm_reads {pc rest : List (BitVec 8)} {dj dk : DecodeInfo}
    (h : readModrm pc dj = some (dk, rest)) : dj.Reads dk pc rest := by
  rw [readModrm.eq_def] at h
  split at h
  · exact absurd h (by simp)
  rename_i modrm pc
  dsimp only at h
  split_ifs at h with hsib
  · split at h
    · exact absurd h (by simp)
    rename_i sib pc
    obtain ⟨hasDisp, disp, rfl, hdisp, hbyte, hlength⟩ := readDisp_reads h
    refine ⟨rfl, rfl, rfl, rfl, and_three_lt _, and_seven_lt _, fun _ ↦ and_seven_lt _, ?_, hdisp,
      hbyte, ?_⟩
    · exact iff_of_true rfl hsib
    · rw [List.length_cons, List.length_cons, hlength, DecodeInfo.dispLength]
      simp only [Bool.toNat_true]
      omega
  · obtain ⟨hasDisp, disp, rfl, hdisp, hbyte, hlength⟩ := readDisp_reads h
    refine ⟨rfl, rfl, rfl, rfl, and_three_lt _, and_seven_lt _, fun hf ↦ absurd hf (by simp), ?_,
      hdisp, hbyte, ?_⟩
    · exact iff_of_false (by simp) hsib
    · rw [List.length_cons, hlength, DecodeInfo.dispLength]
      simp only [Bool.toNat_false]
      omega

/-! ## Ranges -/

/-- The displacement is a multiple of `n`, and the quotient fits in a byte. -/
def Compressible (n disp : ℤ) : Prop :=
  n ∣ disp ∧ -128 * n ≤ disp ∧ disp ≤ 127 * n

theorem fitsInt8_iff {d : BitVec 32} :
    fitsInt8 d = true ↔ -128 ≤ d.toInt ∧ d.toInt ≤ 127 := by
  rw [fitsInt8, Bool.and_eq_true, decide_eq_true_eq, decide_eq_true_eq]

/-- The test of the encoder, without bits. -/
theorem srem_sdiv_iff {d n : BitVec 32} (hn : 0 < n.toInt) :
    d.srem n = 0 ∧ fitsInt8 (d.sdiv n) = true ↔ Compressible n.toInt d.toInt := by
  have hrem : d.srem n = 0 ↔ n.toInt ∣ d.toInt := by
    rw [← BitVec.toInt_inj, BitVec.toInt_srem, Int.dvd_iff_tmod_eq_zero]
    rfl
  have hq : (d.sdiv n).toInt = d.toInt.tdiv n.toInt := by
    refine BitVec.toInt_sdiv_of_ne_or_ne d n (.inr ?_)
    rintro rfl
    exact absurd hn (by decide)
  rw [hrem, Compressible]
  refine and_congr_right fun ⟨q, hdq⟩ ↦ ?_
  rw [fitsInt8_iff, hq, hdq, Int.mul_tdiv_cancel_left _ (by omega), Int.mul_comm n.toInt q]
  exact and_congr (Int.mul_le_mul_right hn).symm (Int.mul_le_mul_right hn).symm

/-- Scaling a byte does not overflow. -/
theorem toInt_mul_of_fitsInt8 {d n : BitVec 32} (hd : fitsInt8 d = true) (hn : 0 < n.toInt)
    (hle : n.toInt ≤ 64) : (d * n).toInt = d.toInt * n.toInt := by
  rw [fitsInt8_iff] at hd
  rw [BitVec.toInt_mul]
  have hlow : -128 * 64 ≤ d.toInt * n.toInt := by nlinarith
  have hhigh : d.toInt * n.toInt ≤ 127 * 64 := by nlinarith
  exact Int.bmod_eq_of_le (by omega) (by omega)

variable {di : DecodeInfo}

/-- The scale is a size, or -1. -/
theorem compressedDispScale_pos (h : compressedDispScale di ≠ -1) :
    0 < compressedDispScale di := by
  revert h
  unfold compressedDispScale byLength
  dsimp only
  repeat' split
  all_goals decide

/-! ## What the operand keeps -/

/-- The displacement in the fields, before it is scaled. -/
def DecodeInfo.rawDisp (di : DecodeInfo) : BitVec 32 := if di.hasDisp then di.disp else 0

/-- What the decoded operand keeps of the base and the displacement of the fields. -/
structure Describes (dk : DecodeInfo) (opnd : BaseDisp) : Prop where
  scale_pos : 0 < compressedDispScale dk
  base : opnd.base = (decodeRegs dk).1
  disp : opnd.disp =
    if dk.mod = 1 then dk.rawDisp * .ofInt 32 (compressedDispScale dk) else dk.rawDisp
  encodeZero_iff : opnd.encodeZeroDisp = true ↔ dk.hasDisp = true ∧ dk.rawDisp = 0
  forceFull_iff : opnd.forceFullDisp = true ↔
    dk.rawDisp.srem (.ofInt 32 (compressedDispScale dk)) = 0 ∧ dk.hasDisp = true ∧
      fitsInt8 dk.rawDisp = true ∧ dk.mod = 2

theorem decodeBaseDisp_describes {dk : DecodeInfo} {o : BaseDisp} (hev : dk.evexEncoded = true)
    (h : decodeBaseDisp dk = some o) : Describes dk o ∧ o.index = (decodeRegs dk).2.1 := by
  have hraw : (if dk.hasDisp then dk.disp else 0) = dk.rawDisp := rfl
  rw [decodeBaseDisp] at h
  simp only [hraw, hev, true_and, Bool.true_and] at h
  split_ifs at h with hscale hone
  · obtain rfl := Option.some.inj h
    refine ⟨⟨compressedDispScale_pos hscale, rfl, (if_pos hone).symm, ?_, ?_⟩, rfl⟩
    · simp
    · simp [hone]
  · obtain rfl := Option.some.inj h
    refine ⟨⟨compressedDispScale_pos hscale, rfl, (if_neg hone).symm, ?_, ?_⟩, rfl⟩
    · simp
    · simp only [Bool.and_eq_true, Bool.not_eq_true', Bool.and_eq_false_iff, decide_eq_true_eq,
        decide_eq_false_iff_not, ne_eq, hone, not_not, false_or, and_assoc]

/-- The bits of a register that was decoded are those of the field. -/
theorem bits_decodeGpr {field : BitVec 8} (h : field < 8) (extend : Bool) :
    (decodeGpr field extend).bits = field := by
  have all : ∀ f : Fin 8, ∀ extend, (decodeGpr (.ofNat 8 f) extend).bits = BitVec.ofNat 8 f := by
    decide
  simpa using all ⟨field.toNat, h⟩ extend

/-- The fields are those of a memory operand with a base. -/
structure DecodeInfo.Based (dk : DecodeInfo) (b : Gpr) : Prop where
  mod_lt : dk.mod < 3
  disp_iff : dk.hasDisp = true ↔ dk.mod = 1 ∨ dk.mod = 2
  bits_ne : dk.mod = 0 → b.bits ≠ 5

variable {b : Gpr}

theorem DecodeInfo.Reads.based {dj dk : DecodeInfo} {pc rest : List (BitVec 8)}
    (h : dj.Reads dk pc rest) (hrel : ¬(dk.hasSib = false ∧ dk.mod = 0 ∧ dk.rm = 5))
    (hreg : ¬(dk.hasSib = false ∧ dk.mod = 3)) (hb : (decodeRegs dk).1 = some b) :
    dk.Based b := by
  have hlt := h.mod_lt
  have hdisp (hrm : ¬(dk.mod = 0 ∧ dk.rm = 5))
      (hbase : ¬(dk.hasSib = true ∧ dk.mod = 0 ∧ dk.base = 5)) :
      dk.hasDisp = true ↔ dk.mod = 1 ∨ dk.mod = 2 := by
    rw [h.disp_iff, or_iff_right hrm, or_iff_right hbase, or_comm]
  cases hsib : dk.hasSib with
  | false =>
    have h3 : dk.mod ≠ 3 := fun h3 ↦ hreg ⟨hsib, h3⟩
    rw [decodeRegs, hsib, if_neg (by simp)] at hb
    obtain rfl := Option.some.inj hb
    refine ⟨by bv_omega, hdisp (fun hr ↦ hrel ⟨hsib, hr⟩) (by simp [hsib]), fun h0 ↦ ?_⟩
    rw [bits_decodeGpr h.rm_lt]
    exact fun h5 ↦ hrel ⟨hsib, h0, h5⟩
  | true =>
    obtain ⟨h4, h3⟩ := h.sib_iff.1 hsib
    rw [decodeRegs_sib _ hsib] at hb
    dsimp only at hb
    split_ifs at hb with h5
    obtain rfl := Option.some.inj hb
    refine ⟨by bv_omega, hdisp (by simp [h4]) (fun hr ↦ h5 ⟨hr.2.2, hr.2.1⟩), fun h0 ↦ ?_⟩
    rw [bits_decodeGpr (h.base_lt hsib)]
    exact fun h5' ↦ h5 ⟨h5', h0⟩

/-! ## The choice of mod -/

/-- A displacement that is compressed although it does not fit in a byte by itself. -/
def Between (n disp : ℤ) : Prop := Compressible n disp ∧ ¬(-128 ≤ disp ∧ disp ≤ 127)

theorem encodeDisp_mod (hev : di.evexEncoded = true) (opnd : BaseDisp) :
    (encodeDisp di opnd).mod =
      if opnd.disp = 0 ∧ (opnd.base ≠ some .rbp ∧ opnd.base ≠ some .r13) ∧ ¬opnd.encodeZeroDisp
      then 0
      else if (opnd.disp.srem (.ofInt 32 (compressedDispScale di)) = 0 ∧
        fitsInt8 (opnd.disp.sdiv (.ofInt 32 (compressedDispScale di)))) ∧ ¬opnd.forceFullDisp then 1
      else 2 := by
  rw [encodeDisp, if_pos hev]
  simp only [hev, true_and, not_true, false_and, if_false, and_assoc]
  split_ifs <;> rfl

section Choice

variable {di dk : DecodeInfo} {opnd : BaseDisp} {b : Gpr} (hev : di.evexEncoded = true)
  (hscale : compressedDispScale di = compressedDispScale dk) (hbased : dk.Based b)
  (h : Describes dk opnd)

include h in
/-- The test of the encoder with the scale of the decoder. -/
theorem Describes.test_iff (d : BitVec 32) :
    d.srem (.ofInt 32 (compressedDispScale dk)) = 0 ∧
        fitsInt8 (d.sdiv (.ofInt 32 (compressedDispScale dk))) = true ↔
      Compressible (compressedDispScale dk) d.toInt := by
  have hn := toInt_compressedDispScale h.scale_pos
  rw [srem_sdiv_iff (by rw [hn]; exact h.scale_pos), hn]

include hbased h in
/-- A zero that is written out is marked. -/
theorem Describes.encodeZero_of_disp (hmod : dk.mod = 1 ∨ dk.mod = 2) (hzero : dk.disp = 0) :
    opnd.encodeZeroDisp = true := by
  have hdisp := hbased.disp_iff.2 hmod
  rw [h.encodeZero_iff, DecodeInfo.rawDisp, if_pos hdisp]
  exact ⟨hdisp, hzero⟩

include hev hbased h in
/-- Without a displacement the flags are clear, and the base is one that can do without. -/
theorem Describes.mod_zero (hbase : opnd.base = some b) (h0 : dk.mod = 0) :
    (encodeDisp di opnd).mod = 0 := by
  have hdisp : dk.hasDisp = false := by
    rw [Bool.eq_false_iff, ne_eq, hbased.disp_iff, h0]
    decide
  have hzero : opnd.disp = 0 := by
    rw [h.disp, h0, if_neg (by decide), DecodeInfo.rawDisp, hdisp, if_neg (by simp)]
  have hflag : ¬opnd.encodeZeroDisp = true := by
    rw [h.encodeZero_iff, hdisp]
    simp
  have hbits := hbased.bits_ne h0
  have hb : opnd.base ≠ some .rbp ∧ opnd.base ≠ some .r13 := by
    rw [hbase]
    constructor
    · rintro ⟨rfl⟩
      exact hbits rfl
    · rintro ⟨rfl⟩
      exact hbits rfl
  rw [encodeDisp_mod hev, if_pos ⟨hzero, hb, hflag⟩]

include hev hscale hbased h in
/-- A displacement that was one byte, times the scale, is compressed to that byte again. -/
theorem Describes.mod_one (hbyte : fitsInt8 dk.disp = true) (h1 : dk.mod = 1) :
    (encodeDisp di opnd).mod = 1 := by
  have hn := toInt_compressedDispScale h.scale_pos
  have hmul : opnd.disp.toInt = dk.disp.toInt * compressedDispScale dk := by
    rw [h.disp, if_pos h1, DecodeInfo.rawDisp, if_pos (hbased.disp_iff.2 (.inl h1)),
      toInt_mul_of_fitsInt8 hbyte (by rw [hn]; exact h.scale_pos), hn]
    rw [hn]
    exact compressedDispScale_le dk
  have hforce : ¬opnd.forceFullDisp = true := by
    rw [h.forceFull_iff, h1]
    simp
  have hnot : ¬(opnd.disp = 0 ∧ (opnd.base ≠ some .rbp ∧ opnd.base ≠ some .r13) ∧
      ¬opnd.encodeZeroDisp = true) := by
    rintro ⟨hzero, -, hflag⟩
    rw [hzero] at hmul
    have hd : dk.disp.toInt = 0 := (Int.mul_eq_zero.1 hmul.symm).resolve_right h.scale_pos.ne'
    exact hflag (h.encodeZero_of_disp hbased (.inl h1) (BitVec.toInt_inj.1 hd))
  have hfits := fitsInt8_iff.1 hbyte
  have hcompress : Compressible (compressedDispScale dk) opnd.disp.toInt := by
    rw [hmul]
    exact ⟨Int.dvd_mul_left _ _, (Int.mul_le_mul_right h.scale_pos).2 hfits.1,
      (Int.mul_le_mul_right h.scale_pos).2 hfits.2⟩
  rw [encodeDisp_mod hev, hscale, if_neg hnot, if_pos ⟨(h.test_iff _).2 hcompress, hforce⟩]

include hev hscale hbased h in
/-- Four bytes stay four bytes if the displacement is not compressed, or if it fits in a byte and is
marked for that. -/
theorem Describes.mod_two_iff (h2 : dk.mod = 2) :
    (encodeDisp di opnd).mod = 2 ↔ ¬Between (compressedDispScale dk) dk.disp.toInt := by
  have hdisp := hbased.disp_iff.2 (.inr h2)
  have hraw : dk.rawDisp = dk.disp := if_pos hdisp
  have hfull : opnd.disp = dk.disp := by rw [h.disp, h2, if_neg (by decide), hraw]
  have hnot : ¬(opnd.disp = 0 ∧ (opnd.base ≠ some .rbp ∧ opnd.base ≠ some .r13) ∧
      ¬opnd.encodeZeroDisp = true) := by
    rintro ⟨hzero, -, hflag⟩
    exact hflag (h.encodeZero_of_disp hbased (.inr h2) (hfull.symm.trans hzero))
  rw [encodeDisp_mod hev, hscale, if_neg hnot, hfull]
  constructor
  · rintro hmod ⟨hcompress, hrange⟩
    have hforce : ¬opnd.forceFullDisp = true := by
      rw [h.forceFull_iff, hraw, fitsInt8_iff]
      exact fun hf ↦ hrange hf.2.2.1
    rw [if_pos ⟨(h.test_iff _).2 hcompress, hforce⟩] at hmod
    exact absurd hmod (by decide)
  · intro hbetween
    rw [if_neg]
    rintro ⟨hcompress, hforce⟩
    refine hbetween ⟨(h.test_iff _).1 hcompress, fun hfits ↦ hforce (h.forceFull_iff.2 ?_)⟩
    rw [hraw]
    exact ⟨hcompress.1, hdisp, fitsInt8_iff.2 hfits, h2⟩

include hev hscale hbased h in
/-- The encoder chooses the mod that was decoded, except for four bytes with a displacement that
is compressed but is not in the range of a byte. -/
theorem encodeDisp_mod_eq_iff (hbyte : dk.mod = 1 → fitsInt8 dk.disp = true)
    (hbase : opnd.base = some b) :
    (encodeDisp di opnd).mod = dk.mod ↔
      ¬(dk.mod = 2 ∧ Between (compressedDispScale dk) dk.disp.toInt) := by
  have hlt := hbased.mod_lt
  have hcases : dk.mod = 0 ∨ dk.mod = 1 ∨ dk.mod = 2 := by bv_omega
  rcases hcases with h0 | h1 | h2
  · rw [h.mod_zero hev hbased hbase h0, h0]
    simp
  · rw [h.mod_one hev hscale hbased (hbyte h1) h1, h1]
    simp
  · rw [h2, h.mod_two_iff hev hscale hbased h2]
    simp

end Choice

/-! ## The sib byte -/

/-- A sib byte that says nothing: there is no index, and the base is one that can do without. -/
def SpareSib (vsib : Bool) (di : DecodeInfo) : Prop :=
  vsib = false ∧ di.hasSib = true ∧ di.index = 4 ∧ di.prefixes.rexX = false ∧ di.base ≠ 4

/-- The parts of an encoding that make its length are the same. -/
structure SameForm (e e' : DecodeInfo) : Prop where
  mod : e'.mod = e.mod
  hasDisp : e'.hasDisp = e.hasDisp
  hasSib : e'.hasSib = e.hasSib

theorem SameForm.trans {e e' e'' : DecodeInfo} (h : SameForm e e') (h' : SameForm e' e'') :
    SameForm e e'' :=
  ⟨h'.mod.trans h.mod, h'.hasDisp.trans h.hasDisp, h'.hasSib.trans h.hasSib⟩

theorem sameForm_encodeBase (di : DecodeInfo) {opnd : BaseDisp}
    (hbase : opnd.base = some b) : SameForm di (encodeBase di opnd) := by
  rw [encodeBase, hbase]
  exact ⟨rfl, rfl, rfl⟩

theorem sameForm_encodeIndex (di : DecodeInfo) (opnd : BaseDisp) :
    SameForm di (encodeIndex di opnd) := by
  rw [encodeIndex]
  cases opnd.index <;> exact ⟨rfl, rfl, rfl⟩

/-- What the encoder settles for an operand with a base, given its choice of mod. -/
theorem sameForm_encodeBaseDisp (hmod : di.mod = 5) {opnd : BaseDisp}
    (hbase : opnd.base = some b) :
    SameForm { encodeDisp di opnd with hasSib := opnd.index.isSome || b.bits = 4 }
      (encodeBaseDisp di opnd) := by
  have hsib : SameForm { encodeDisp di opnd with hasSib := true, rm := 4 }
      (encodeBase (encodeIndex { encodeDisp di opnd with hasSib := true, rm := 4 } opnd) opnd) :=
    (sameForm_encodeIndex _ opnd).trans (sameForm_encodeBase _ hbase)
  rw [encodeBaseDisp, if_neg (by rw [hmod]; decide), hbase]
  cases hindex : opnd.index with
  | none =>
    dsimp only
    split_ifs with hb
    · have h4 : b.bits ≠ 4 := fun h4 ↦ (Gpr.bits_eq_four.1 h4).elim hb.1 hb.2
      exact ⟨rfl, rfl, by rw [decide_eq_false h4]; rfl⟩
    · have h4 : b.bits = 4 := by
        rw [Gpr.bits_eq_four]
        exact (not_and_or.1 hb).imp not_not.1 not_not.1
      exact ⟨hsib.mod, hsib.hasDisp, hsib.hasSib.trans (by simp [h4])⟩
  | some r => exact ⟨hsib.mod, hsib.hasDisp, hsib.hasSib⟩

theorem sameForm_encodeMem {di : MemInfo} (hmod : di.mod = 5) {opnd : MemOpnd}
    (hbase : opnd.base = some b) :
    SameForm { encodeDisp di.toDecodeInfo opnd.toBaseDisp with
      hasSib := opnd.index.isSome || b.bits = 4 } (encodeMem di opnd).toDecodeInfo := by
  have hgpr : SameForm { encodeDisp di.toDecodeInfo opnd.toBaseDisp with
      hasSib := opnd.indexGpr.isSome || b.bits = 4 } _ := sameForm_encodeBaseDisp hmod hbase
  rw [encodeMem, if_neg (by rw [hmod]; decide)]
  rw [MemOpnd.indexGpr] at hgpr
  rcases hindex : opnd.index with _ | ⟨r | n⟩
  · rwa [hindex] at hgpr
  · rwa [hindex] at hgpr
  · refine SameForm.trans ?_ (sameForm_encodeBase _ hbase)
    exact ⟨rfl, rfl, rfl⟩

theorem length_emitDisp (di : DecodeInfo) (rel : BitVec 32) :
    (emitDisp di rel).length = di.dispLength := by
  rw [emitDisp, DecodeInfo.dispLength]
  split_ifs <;> rfl

theorem length_emitModrm (hmod : di.mod ≠ 5) (rel : BitVec 32) :
    (emitModrm di rel).length = 1 + di.hasSib.toNat + di.dispLength := by
  rw [emitModrm, if_neg hmod, List.length_cons, List.length_append, length_emitDisp]
  cases di.hasSib
  · simp
    omega
  · simp
    omega

/-! ## Decoding and encoding again -/

/-- What is known of the fields a memory operand was decoded from. -/
structure DecodesTo (vsib : Bool) (dk : DecodeInfo) (o : MemOpnd) : Prop where
  describes : Describes dk o.toBaseDisp
  not_rel : ¬(dk.hasSib = false ∧ dk.mod = 0 ∧ dk.rm = 5)
  not_reg : ¬(dk.hasSib = false ∧ dk.mod = 3)
  index_iff : o.index.isSome = true ↔ vsib = true ∨ (decodeRegs dk).2.1.isSome = true
  sib_of_vsib : vsib = true → dk.hasSib = true

theorem decodeBaseDisp_of_decodeModrm {dk : DecodeInfo} {o : BaseDisp}
    (h : decodeModrm dk = some (.baseDisp o)) :
    ¬(dk.hasSib = false ∧ dk.mod = 0 ∧ dk.rm = 5) ∧ ¬(dk.hasSib = false ∧ dk.mod = 3) ∧
      decodeBaseDisp dk = some o := by
  rw [decodeModrm] at h
  by_cases hrel : ¬dk.hasSib = true ∧ dk.mod = 0 ∧ dk.rm = 5
  · rw [if_pos hrel] at h
    exact absurd (Option.some.inj h) (by simp)
  rw [if_neg hrel] at h
  by_cases hreg : ¬dk.hasSib = true ∧ dk.mod = 3
  · rw [if_pos hreg] at h
    exact absurd (Option.some.inj h) (by simp)
  rw [if_neg hreg] at h
  obtain ⟨o', ho', heq⟩ := Option.map_eq_some_iff.1 h
  obtain rfl := RmOpnd.baseDisp.inj heq
  rw [Bool.not_eq_true] at hrel hreg
  exact ⟨hrel, hreg, ho'⟩

theorem decodeMem_decodesTo {vsib : Bool} {dk : MemInfo} {o : MemOpnd}
    (hev : dk.evexEncoded = true) (h : decodeMem vsib dk = some (.mem o)) :
    DecodesTo vsib dk.toDecodeInfo o := by
  rw [decodeMem] at h
  cases vsib with
  | true =>
    rw [if_pos rfl] at h
    split_ifs at h with hsib
    obtain ⟨o', ho', heq⟩ := Option.map_eq_some_iff.1 h
    obtain rfl := MemRm.mem.inj heq
    obtain ⟨hd, -⟩ := decodeBaseDisp_describes hev ho'
    exact ⟨⟨hd.scale_pos, hd.base, hd.disp, hd.encodeZero_iff, hd.forceFull_iff⟩, by simp [hsib],
      by simp [hsib], by simp, fun _ ↦ hsib⟩
  | false =>
    rw [if_neg (by simp)] at h
    obtain ⟨rm, hrm, heq⟩ := Option.map_eq_some_iff.1 h
    cases rm with
    | relAddr seg addr => exact absurd heq (by simp [RmOpnd.toMem])
    | reg n => exact absurd heq (by simp [RmOpnd.toMem])
    | baseDisp o' =>
      obtain rfl := MemRm.mem.inj heq
      obtain ⟨hrel, hreg, ho'⟩ := decodeBaseDisp_of_decodeModrm hrm
      obtain ⟨hd, hindex⟩ := decodeBaseDisp_describes hev ho'
      refine ⟨⟨hd.scale_pos, hd.base, hd.disp, hd.encodeZero_iff, hd.forceFull_iff⟩, hrel, hreg, ?_,
        fun hf ↦ absurd hf (by simp)⟩
      simp [hindex]

/-- The sib byte is there again, unless it said nothing. -/
theorem DecodesTo.sib_eq_iff {vsib : Bool} {dj dk : DecodeInfo} {pc rest : List (BitVec 8)}
    {o : MemOpnd} (h : DecodesTo vsib dk o) (hread : dj.Reads dk pc rest)
    (hb : (decodeRegs dk).1 = some b) :
    (o.index.isSome || b.bits = 4) = dk.hasSib ↔ ¬SpareSib vsib dk := by
  cases hsib : dk.hasSib with
  | false =>
    have hvsib : vsib = false := by
      rw [Bool.eq_false_iff]
      intro hv
      exact absurd (hsib.symm.trans (h.sib_of_vsib hv)) (by simp)
    have h4 : dk.rm ≠ 4 := fun h4 ↦ by
      rw [hread.sib_iff.2 ⟨h4, fun h3 ↦ h.not_reg ⟨hsib, h3⟩⟩] at hsib
      exact absurd hsib (by simp)
    have hindex := h.index_iff
    rw [decodeRegs, hsib, if_neg (by simp)] at hb hindex
    obtain rfl := Option.some.inj hb
    rw [bits_decodeGpr hread.rm_lt, decide_eq_false h4, Bool.or_false]
    refine iff_of_true ?_ fun hspare ↦ absurd (hsib.symm.trans hspare.2.1) (by simp)
    rw [Bool.eq_false_iff, ne_eq, hindex, hvsib]
    simp
  | true =>
    have hindex := h.index_iff
    rw [decodeRegs_sib _ hsib] at hb hindex
    dsimp only at hb hindex
    have hbits : b.bits = dk.base := by
      split_ifs at hb
      rw [← Option.some.inj hb, bits_decodeGpr (hread.base_lt hsib)]
    rw [Bool.or_eq_true, hindex, hbits, decide_eq_true_eq, SpareSib]
    split_ifs with hno
    · rw [Bool.not_eq_true] at hno
      cases vsib <;> simp [hsib, hno.1, hno.2]
    · refine iff_of_true (.inl (.inr rfl)) fun hspare ↦ hno ⟨hspare.2.2.1, ?_⟩
      simp [hspare.2.2.2.1]

/-- The operand is encoded with the mod it was decoded with, in as many bytes as were used. -/
def KeepsForm (dk : DecodeInfo) (used : List (BitVec 8)) (e : DecodeInfo) : Prop :=
  e.mod = dk.mod ∧ ∀ rel, (emitModrm e rel).length = used.length

/-- A memory operand with a base keeps its form, in any context with the same scale, exactly if its
displacement is not a multiple of the scale in four bytes that is between the two ranges, and it has
no sib byte that says nothing. -/
theorem keepsForm_iff (vsib : Bool) {di dj : MemInfo} {dk : DecodeInfo}
    {used rest : List (BitVec 8)} {o : MemOpnd} (hevex : dj.evexEncoded = true)
    (hread : readModrm (used ++ rest) dj.toDecodeInfo = some (dk, rest))
    (hdecode : decodeMem vsib { dj with toDecodeInfo := dk } = some (.mem o))
    (hbase : o.base.isSome = true) (hmod : di.mod = 5) (hev : di.evexEncoded = true)
    (hscale : compressedDispScale di.toDecodeInfo = compressedDispScale dk) :
    KeepsForm dk used (encodeMem di o).toDecodeInfo ↔
      ¬(dk.mod = 2 ∧ Between (compressedDispScale dk) dk.disp.toInt) ∧ ¬SpareSib vsib dk := by
  have hreads := readModrm_reads hread
  have hto : DecodesTo vsib dk o := decodeMem_decodesTo (hreads.evexEncoded.trans hevex) hdecode
  obtain ⟨b, hb⟩ := Option.isSome_iff_exists.1 hbase
  have hregs : (decodeRegs dk).1 = some b := hto.describes.base.symm.trans hb
  have hbased := hreads.based hto.not_rel hto.not_reg hregs
  have hform := sameForm_encodeMem hmod hb
  have hencoded := encodeDisp_encoded hev (hscale ▸ hto.describes.scale_pos) o.toBaseDisp
  have hchoice := encodeDisp_mod_eq_iff hev hscale hbased hto.describes hreads.byte hb
  have hlength := hreads.length
  rw [List.length_append] at hlength
  rw [KeepsForm, ← hto.sib_eq_iff hreads hregs, ← hchoice, hform.mod]
  refine and_congr_right fun hsame ↦ ?_
  -- with the same mod there are as many bytes of displacement
  have hdisp : (encodeMem di o).hasDisp = dk.hasDisp := by
    rw [hform.hasDisp, Bool.eq_iff_iff, hencoded.hasDisp_iff, hbased.disp_iff, hsame]
  have hdispLength : (encodeMem di o).toDecodeInfo.dispLength = dk.dispLength := by
    rw [DecodeInfo.dispLength, DecodeInfo.dispLength, hdisp, hform.mod, hsame]
  have hmod5 : (encodeMem di o).mod ≠ 5 := by
    have hlt := hbased.mod_lt
    rw [hform.mod, hsame]
    bv_omega
  have hsib : (encodeMem di o).hasSib = (o.index.isSome || b.bits = 4) := hform.hasSib
  rw [← hsib]
  constructor
  · intro hall
    have := hall 0
    rw [length_emitModrm hmod5, hdispLength] at this
    cases hs : (encodeMem di o).hasSib <;> cases hk : dk.hasSib <;> simp_all
  · intro hsame rel
    rw [length_emitModrm hmod5, hdispLength, hsame]
    omega

/-- The state of an encoder or decoder for an instruction on zmm registers. -/
def zmmInfo (tupleType : TupleType) (inputSize : OpndSize) : MemInfo :=
  ⟨newInfo tupleType inputSize (zmmPrefixes false false), false, false⟩

/-- A displacement of 128 with four bytes: it is twice the size of a zmm register, and comes back in
one byte. -/
theorem not_keepsForm_twice_zmm :
    ∃ dk o, readModrm ([0x80, 0x80, 0, 0, 0] ++ []) (zmmInfo .fv .na).toDecodeInfo = some (dk, []) ∧
      decodeMem false { zmmInfo .fv .na with toDecodeInfo := dk } = some (.mem o) ∧
      o.base = some .rax ∧ dk.mod = 2 ∧
      ¬KeepsForm dk [0x80, 0x80, 0, 0, 0] (encodeMem (zmmInfo .fv .na) o).toDecodeInfo :=
  ⟨_, _, rfl, rfl, rfl, rfl, fun h ↦ absurd h.1 (by decide)⟩

/-- The operand of a gather of dwords, with the displacement -4. -/
def gatherOpnd : MemOpnd := ⟨none, some .rax, some (.vec 1), 4, -4, false, false, false⟩

theorem keepsForm_gather :
    ∃ dk, readModrm ([0x44, 0x88, 0xff] ++ []) (zmmInfo .t1s .opsz4).toDecodeInfo = some (dk, []) ∧
      decodeMem true { zmmInfo .t1s .opsz4 with toDecodeInfo := dk } = some (.mem gatherOpnd) ∧
      KeepsForm dk [0x44, 0x88, 0xff]
        (encodeMem (zmmInfo .t1s .opsz4) gatherOpnd).toDecodeInfo := by
  obtain ⟨dk, hread, hdecode, hscale, hmod⟩ : ∃ dk,
      readModrm ([0x44, 0x88, 0xff] ++ []) (zmmInfo .t1s .opsz4).toDecodeInfo = some (dk, []) ∧
      decodeMem true { zmmInfo .t1s .opsz4 with toDecodeInfo := dk } = some (.mem gatherOpnd) ∧
      compressedDispScale (zmmInfo .t1s .opsz4).toDecodeInfo = compressedDispScale dk ∧
      dk.mod = 1 := by
    refine ⟨_, rfl, ?_⟩
    exact ⟨rfl, rfl, rfl⟩
  refine ⟨dk, hread, hdecode, (keepsForm_iff true rfl hread hdecode rfl rfl rfl hscale).2 ?_⟩
  exact ⟨fun h ↦ absurd (hmod.symm.trans h.1) (by decide), fun h ↦ absurd h.1 (by decide)⟩

end ModRm

end DrAvx
