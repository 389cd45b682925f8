import DrAvx.Ir.Basic
import Mathlib.Data.Int.Order.Basic
import Mathlib.Data.Nat.Basic
import Mathlib.Tactic.Set

/-!
# Memory operands in the encoder and the decoder

A memory operand of an EVEX instruction travels through `encode_base_disp`, which chooses a mod, rm
and sib encoding for it, through the bytes `instr_encode_arch` emits, and back through `read_modrm`
and `decode_modrm`.  An eight bit displacement is *compressed*: the byte counts units of `N` bytes,
where `N` (`compressedDispScale`) depends on the tuple type of the instruction, the size of its
elements, the vector length and the broadcast bit.  The encoder divides by `N` and truncates, the
decoder extends the sign and multiplies.

Everything is in 64-bit mode with 64-bit addresses, so the addr16 branches and the address size
prefix do not occur.  Assertions are compiled away, as in a release build: where one of them fails
the function goes on.

## What is here

* `encodeBaseDisp`, `emitModrm`, `readModrm`, `decodeModrm`: the four functions, over the fields of
  `decode_info_t` they share.
* `readModrm_emitModrm`: what is read back from the emitted bytes, for every encoding in which the
  presence of the sib byte and of the displacement agrees with mod, rm and base (`DecodeInfo.Regular`).
* `decodeModrm_encodeBaseDisp`: the operand that comes back.
-/

set_option autoImplicit false

namespace DrAvx

/-- The register with an encoding number, as `REG_START_64 + n`. -/
def Gpr.ofNum : ℕ → Gpr
  | 0 => .rax | 1 => .rcx | 2 => .rdx | 3 => .rbx | 4 => .rsp | 5 => .rbp | 6 => .rsi | 7 => .rdi
  | 8 => .r8 | 9 => .r9 | 10 => .r10 | 11 => .r11 | 12 => .r12 | 13 => .r13 | 14 => .r14 | _ => .r15

/-- `reg_get_bits`: the three bits of a register that stand in the modrm and sib bytes. -/
def Gpr.bits : Gpr → BitVec 8
  | .rax | .r8 => 0
  | .rcx | .r9 => 1
  | .rdx | .r10 => 2
  | .rbx | .r11 => 3
  | .rsp | .r12 => 4
  | .rbp | .r13 => 5
  | .rsi | .r14 => 6
  | .rdi | .r15 => 7

/-- `reg_is_extended`: the registers whose fourth bit is in a prefix. -/
def Gpr.isExtended : Gpr → Bool
  | .r8 | .r9 | .r10 | .r11 | .r12 | .r13 | .r14 | .r15 => true
  | _ => false

theorem Gpr.bits_lt (r : Gpr) : r.bits < 8 := by cases r <;> decide

theorem Gpr.bits_eq_four {r : Gpr} : r.bits = 4 ↔ r = .rsp ∨ r = .r12 := by cases r <;> decide

theorem Gpr.bits_eq_five {r : Gpr} : r.bits = 5 ↔ r = .rbp ∨ r = .r13 := by cases r <;> decide

theorem Gpr.eq_rsp {r : Gpr} (h : r.bits = 4) (hr : r.isExtended = false) : r = .rsp := by
  cases r <;> first | rfl | exact absurd h (by decide) | exact absurd hr (by decide)

namespace ModRm

/-! ## The fields of `decode_info_t` -/

/-- `dr_tuple_type_t`. -/
inductive TupleType
  | none | fv | hv | fvm | t1s | t1f | t2 | t4 | t8 | hvm | qvm | ovm | m128 | dup
  deriving DecidableEq

/-- The operand sizes that occur here. -/
inductive OpndSize
  | na | opsz1 | opsz2 | opsz4 | opsz8 | opsz16 | opsz32 | opsz64
  deriving DecidableEq

/-- The bits of `di->prefixes` that are looked at. -/
structure Prefixes where
  rexW : Bool
  rexX : Bool
  rexB : Bool
  vexL : Bool
  evexLL : Bool
  evexB : Bool
  deriving DecidableEq

/-- The part of `decode_info_t` that encoder and decoder share.  A mod of 5 and a reg of 8 stand for
fields that have not been set. -/
structure DecodeInfo where
  evexEncoded : Bool
  tupleType : TupleType
  inputSize : OpndSize
  prefixes : Prefixes
  segOverride : Option SegReg
  startPc : BitVec 64
  origPc : BitVec 64
  len : BitVec 64
  mod : BitVec 8
  reg : BitVec 8
  rm : BitVec 8
  hasSib : Bool
  scale : BitVec 8
  index : BitVec 8
  base : BitVec 8
  hasDisp : Bool
  disp : BitVec 32
  deriving DecidableEq

/-- A base-disp operand, apart from its size. -/
structure BaseDisp where
  seg : Option SegReg
  base : Option Gpr
  index : Option Gpr
  scale : ℕ
  disp : BitVec 32
  encodeZeroDisp : Bool
  forceFullDisp : Bool
  deriving DecidableEq

/-- What the rm field can stand for: an address, an address relative to the program counter, or, when
mod is 3, the register of that number in the file the instruction takes it from. -/
inductive RmOpnd
  | baseDisp (o : BaseDisp)
  | relAddr (seg : Option SegReg) (addr : BitVec 64)
  | reg (n : ℕ)
  deriving DecidableEq

/-! ## The scale of a compressed displacement -/

/-- `decode_get_vector_length`. -/
def vectorLength (vexL evexLL : Bool) : OpndSize :=
  match vexL, evexLL with
  | false, false => .opsz16
  | true, false => .opsz32
  | false, true => .opsz64
  | true, true => .na

/-- The switch over the vector length that most tuple types end in. -/
def byLength (vl : OpndSize) (l16 l32 l64 : ℤ) : ℤ :=
  match vl with
  | .opsz16 => l16
  | .opsz32 => l32
  | .opsz64 => l64
  | _ => -1

/-- `decode_get_compressed_disp_scale`. -/
def compressedDispScale (di : DecodeInfo) : ℤ :=
  let inputSize :=
    if di.inputSize = .na then (if di.prefixes.rexW then .opsz8 else .opsz4) else di.inputSize
  let vl := vectorLength di.prefixes.vexL di.prefixes.evexLL
  if vl = .na then -1
  else match di.tupleType with
    | .fv =>
      if di.prefixes.evexB then
        let n := if inputSize = .opsz4 then 4 else 8
        byLength vl n n n
      else byLength vl 16 32 64
    | .hv => if di.prefixes.evexB then byLength vl 4 4 4 else byLength vl 8 16 32
    | .fvm => byLength vl 16 32 64
    | .t1s =>
      match inputSize with
      | .opsz1 => 1
      | .opsz2 => 2
      | .opsz4 => 4
      | .opsz8 => 8
      | _ => -1
    | .t1f =>
      match inputSize with
      | .opsz4 => 4
      | .opsz8 => 8
      | _ => -1
    | .t2 =>
      match inputSize with
      | .opsz4 => 8
      | .opsz8 => 16
      | _ => -1
    | .t4 =>
      match inputSize with
      | .opsz4 => 16
      | .opsz8 => 32
      | _ => -1
    | .t8 => 32
    | .hvm => byLength vl 8 16 32
    | .qvm => byLength vl 4 8 16
    | .ovm => byLength vl 2 4 8
    | .m128 => byLength vl 16 16 16
    | .dup => byLength vl 8 32 64
    | .none => 1

/-! ## The encoder -/

/-- The test `disp >= INT8_MIN && disp <= INT8_MAX`. -/
def fitsInt8 (disp : BitVec 32) : Bool := -128 ≤ disp.toInt && disp.toInt ≤ 127

/-- The part of `encode_base_disp` that chooses mod and the displacement: none, one byte, or four. -/
def encodeDisp (di : DecodeInfo) (opnd : BaseDisp) : DecodeInfo :=
  let n : BitVec 32 := if di.evexEncoded then .ofInt 32 (compressedDispScale di) else 0
  if opnd.disp = 0 ∧ (opnd.base ≠ some .rbp ∧ opnd.base ≠ some .r13) ∧ ¬opnd.encodeZeroDisp then
    { di with mod := 0, hasDisp := false }
  else if di.evexEncoded ∧ opnd.disp.srem n = 0 ∧ fitsInt8 (opnd.disp.sdiv n) ∧
      ¬opnd.forceFullDisp then
    { di with mod := 1, hasDisp := true, disp := opnd.disp.sdiv n }
  else if ¬di.evexEncoded ∧ fitsInt8 opnd.disp ∧ ¬opnd.forceFullDisp then
    { di with mod := 1, hasDisp := true, disp := opnd.disp }
  else
    { di with mod := 2, hasDisp := true, disp := opnd.disp }

/-- `encode_reg_ext_prefixes` with `PREFIX_REX_B`. -/
def setRexB (di : DecodeInfo) (r : Gpr) : DecodeInfo :=
  { di with prefixes := { di.prefixes with rexB := di.prefixes.rexB || r.isExtended } }

/-- `encode_reg_ext_prefixes` with `PREFIX_REX_X`. -/
def setRexX (di : DecodeInfo) (r : Gpr) : DecodeInfo :=
  { di with prefixes := { di.prefixes with rexX := di.prefixes.rexX || r.isExtended } }

/-- The switch over the scale of the operand; another scale leaves the field as it is. -/
def scaleField (old : BitVec 8) : ℕ → BitVec 8
  | 1 => 0
  | 2 => 1
  | 4 => 2
  | 8 => 3
  | _ => old

/-- The index and scale fields of the sib byte. -/
def encodeIndex (di : DecodeInfo) (opnd : BaseDisp) : DecodeInfo :=
  match opnd.index with
  | none => { di with index := 4, scale := 0 }
  | some r => { setRexX di r with index := r.bits, scale := scaleField di.scale opnd.scale }

/-- The base field of the sib byte.  Without a base, mod goes back to 0 and the displacement to the
full one, whatever `encodeDisp` had chosen. -/
def encodeBase (di : DecodeInfo) (opnd : BaseDisp) : DecodeInfo :=
  match opnd.base with
  | none => { di with base := 5, mod := 0, hasDisp := true, disp := opnd.disp }
  | some r => { setRexB di r with base := r.bits }

/-- `encode_base_disp`. -/
def encodeBaseDisp (di : DecodeInfo) (opnd : BaseDisp) : DecodeInfo :=
  if di.mod < 5 then di
  else match opnd.base, opnd.index with
    | none, none =>
      -- An absolute address needs a sib byte: without one it would be relative to the pc.
      { di with mod := 0, rm := 4, hasSib := true, scale := 0, index := 4, base := 5,
                hasDisp := true, disp := opnd.disp }
    | some b, none =>
      if b ≠ .rsp ∧ b ≠ .r12 then
        { setRexB (encodeDisp di opnd) b with hasSib := false, rm := b.bits }
      else encodeBase (encodeIndex { encodeDisp di opnd with hasSib := true, rm := 4 } opnd) opnd
    | _, some _ =>
      encodeBase (encodeIndex { encodeDisp di opnd with hasSib := true, rm := 4 } opnd) opnd

/-- `MODRM_BYTE`, and the sib byte with it: two bits and twice three. -/
def packByte (hi mid lo : BitVec 8) : BitVec 8 := (hi <<< 6) ||| (mid <<< 3) ||| lo

/-- The four bytes of an `int` in memory. -/
def intBytes (v : BitVec 32) : List (BitVec 8) :=
  [v.extractLsb' 0 8, v.extractLsb' 8 8, v.extractLsb' 16 8, v.extractLsb' 24 8]

/-- The displacement bytes.  `rel` is what is written into a displacement relative to the program
counter once the length of the instruction is known. -/
def emitDisp (di : DecodeInfo) (rel : BitVec 32) : List (BitVec 8) :=
  if di.hasDisp then
    if di.mod = 1 then [di.disp.setWidth 8]
    else if di.mod = 0 ∧ di.rm = 5 then intBytes rel
    else intBytes di.disp
  else []

/-- The bytes `instr_encode_arch` emits for modrm, sib and displacement. -/
def emitModrm (di : DecodeInfo) (rel : BitVec 32) : List (BitVec 8) :=
  if di.mod = 5 then []
  else
    let reg := if di.reg = 8 then 0 else di.reg
    let sib := if di.hasSib then [packByte di.scale di.index di.base] else []
    packByte di.mod reg di.rm :: (sib ++ emitDisp di rel)

/-! ## The decoder -/

/-- Reading an `int` from memory. -/
def readInt : List (BitVec 8) → Option (BitVec 32 × List (BitVec 8))
  | b₀ :: b₁ :: b₂ :: b₃ :: pc => some (b₃ ++ b₂ ++ b₁ ++ b₀, pc)
  | _ => none

/-- Reading a signed byte, extended to an `int`. -/
def readSbyte : List (BitVec 8) → Option (BitVec 32 × List (BitVec 8))
  | b :: pc => some (b.signExtend 32, pc)
  | [] => none

/-- The displacement part of `read_modrm`. -/
def readDisp (pc : List (BitVec 8)) (di : DecodeInfo) : Option (DecodeInfo × List (BitVec 8)) :=
  if (di.mod = 0 ∧ di.rm = 5) ∨ (di.hasSib ∧ di.mod = 0 ∧ di.base = 5) ∨ di.mod = 2 then
    (readInt pc).map fun p ↦ ({ di with hasDisp := true, disp := p.1 }, p.2)
  else if di.mod = 1 then
    (readSbyte pc).map fun p ↦ ({ di with hasDisp := true, disp := p.1 }, p.2)
  else some ({ di with hasDisp := false }, pc)

/-- `read_modrm`: the fields read and what follows them, unless the bytes run out. -/
def readModrm (pc : List (BitVec 8)) (di : DecodeInfo) : Option (DecodeInfo × List (BitVec 8)) :=
  match pc with
  | [] => none
  | modrm :: pc =>
    let mod := (modrm >>> 6) &&& 3
    let reg := (modrm >>> 3) &&& 7
    let rm := modrm &&& 7
    if rm = 4 ∧ mod ≠ 3 then
      match pc with
      | [] => none
      | sib :: pc =>
        readDisp pc { di with mod := mod, reg := reg, rm := rm, hasSib := true,
                              scale := (sib >>> 6) &&& 3, index := (sib >>> 3) &&& 7,
                              base := sib &&& 7 }
    else readDisp pc { di with mod := mod, reg := reg, rm := rm, hasSib := false }

/-- `decode_reg` for a general purpose register: the field, and the prefix bit that extends it. -/
def decodeGpr (field : BitVec 8) (extend : Bool) : Gpr :=
  .ofNum (field.toNat + if extend then 8 else 0)

/-- `decode_reg` for `DECODE_REG_RM` and a vector type: EVEX has a fifth bit, and takes it from where
the index of a memory operand would have its fourth. -/
def decodeVecRm (di : DecodeInfo) : ℕ :=
  di.rm.toNat + (if di.prefixes.rexB then 8 else 0) +
    (if di.evexEncoded && di.prefixes.rexX then 16 else 0)

/-- The scale that a field of the sib byte stands for. -/
def scaleOfField (field : BitVec 8) : ℕ :=
  if field = 0 then 1 else if field = 1 then 2 else if field = 2 then 4 else if field = 3 then 8
  else 0

/-- The registers and the scale that `decode_modrm` finds for a memory operand. -/
def decodeRegs (di : DecodeInfo) : Option Gpr × Option Gpr × ℕ :=
  if di.hasSib then
    let (index, scale) :=
      if di.index = 4 ∧ ¬di.prefixes.rexX then (none, 0)
      else (some (decodeGpr di.index di.prefixes.rexX), scaleOfField di.scale)
    let base := if di.base = 5 ∧ di.mod = 0 then none else some (decodeGpr di.base di.prefixes.rexB)
    (base, index, scale)
  else (some (decodeGpr di.rm di.prefixes.rexB), none, 0)

/-- The end of `decode_modrm`: the displacement is scaled and the operand is put together.  A scale of
-1 makes the decoding fail. -/
def decodeBaseDisp (di : DecodeInfo) : Option BaseDisp :=
  let (base, index, scale) := decodeRegs di
  let disp := if di.hasDisp then di.disp else 0
  let encodeZeroDisp := di.hasDisp && disp = 0
  let n := compressedDispScale di
  if di.evexEncoded ∧ n = -1 then none
  else
    let full := if di.evexEncoded ∧ di.mod = 1 then disp * .ofInt 32 n else disp
    let needsFullDisp := di.evexEncoded && di.mod ≠ 1 && disp.srem (.ofInt 32 n) ≠ 0
    let forceFullDisp := !needsFullDisp && di.hasDisp && fitsInt8 full && di.mod = 2
    some ⟨di.segOverride, base, index, scale, full, encodeZeroDisp, forceFullDisp⟩

/-- `decode_modrm` for the rm operand of an instruction whose memory operand is not a VSIB one. -/
def decodeModrm (di : DecodeInfo) : Option RmOpnd :=
  if ¬di.hasSib ∧ di.mod = 0 ∧ di.rm = 5 then
    let pc := if di.origPc ≠ di.startPc then di.origPc else di.startPc
    some (.relAddr di.segOverride (pc + di.len + di.disp.signExtend 64))
  else if ¬di.hasSib ∧ di.mod = 3 then some (.reg (decodeVecRm di))
  else (decodeBaseDisp di).map .baseDisp

/-! ## Bytes and bits -/

theorem unpack_packByte {hi mid lo : BitVec 8} (hhi : hi < 4) (hmid : mid < 8) (hlo : lo < 8) :
    (packByte hi mid lo >>> 6) &&& 3 = hi ∧ (packByte hi mid lo >>> 3) &&& 7 = mid ∧
      packByte hi mid lo &&& 7 = lo := by
  -- Each field is below its bound, so there are only 256 bytes to look at.
  have all : ∀ h : Fin 4, ∀ m l : Fin 8,
      (packByte (.ofNat 8 h) (.ofNat 8 m) (.ofNat 8 l) >>> 6) &&& 3 = BitVec.ofNat 8 h ∧
      (packByte (.ofNat 8 h) (.ofNat 8 m) (.ofNat 8 l) >>> 3) &&& 7 = BitVec.ofNat 8 m ∧
      packByte (.ofNat 8 h) (.ofNat 8 m) (.ofNat 8 l) &&& 7 = BitVec.ofNat 8 l := by
    decide +kernel
  simpa using all ⟨hi.toNat, hhi⟩ ⟨mid.toNat, hmid⟩ ⟨lo.toNat, hlo⟩

theorem readInt_intBytes (v : BitVec 32) (rest : List (BitVec 8)) :
    readInt (intBytes v ++ rest) = some (v, rest) := by
  have bytes : v.extractLsb' 24 8 ++ v.extractLsb' 16 8 ++ v.extractLsb' 8 8 ++ v.extractLsb' 0 8
      = v := by
    rw [BitVec.extractLsb'_append_extractLsb'_eq_extractLsb' (by rfl),
      BitVec.extractLsb'_append_extractLsb'_eq_extractLsb' (by rfl),
      BitVec.extractLsb'_append_extractLsb'_eq_extractLsb' (by rfl), BitVec.extractLsb'_eq_self]
  exact congrArg some (Prod.ext bytes rfl)

/-- The byte that is emitted for a displacement in range stands for the displacement. -/
theorem signExtend_setWidth_of_fitsInt8 {v : BitVec 32} (h : fitsInt8 v = true) :
    (v.setWidth 8).signExtend 32 = v := by
  simp only [fitsInt8, Bool.and_eq_true, decide_eq_true_eq] at h
  have low : (v.setWidth 8).toInt = v.toInt.bmod (2 ^ 8) := by
    rw [BitVec.toInt_setWidth, BitVec.toInt_eq_toNat_bmod, Int.bmod_bmod_of_dvd (by decide)]
  rw [← BitVec.toInt_inj, BitVec.toInt_signExtend_of_le (by decide), low,
    Int.bmod_eq_of_le (by omega) (by omega)]

/-- Multiplying undoes the division when there is no remainder. -/
theorem sdiv_mul_of_srem_eq_zero {d n : BitVec 32} (hn : 0 < n.toInt) (h : d.srem n = 0) :
    d.sdiv n * n = d := by
  have hrem : d.toInt.tmod n.toInt = 0 := by
    rw [← BitVec.toInt_srem, h]
    rfl
  have hq : (d.sdiv n).toInt = d.toInt.tdiv n.toInt := by
    refine BitVec.toInt_sdiv_of_ne_or_ne d n (.inr ?_)
    rintro rfl
    exact absurd hn (by decide)
  rw [← BitVec.toInt_inj, BitVec.toInt_mul, hq, Int.tdiv_mul_cancel (Int.dvd_of_tmod_eq_zero hrem)]
  exact Int.bmod_eq_of_le (BitVec.le_toInt d) BitVec.toInt_lt

theorem decodeGpr_bits (r : Gpr) : decodeGpr r.bits r.isExtended = r := by cases r <;> decide

theorem scaleOfField_scaleField {n : ℕ} (h : n ∈ [1, 2, 4, 8]) (old : BitVec 8) :
    scaleField old n < 4 ∧ scaleOfField (scaleField old n) = n := by
  simp only [List.mem_cons, List.not_mem_nil, or_false] at h
  rcases h with rfl | rfl | rfl | rfl <;> exact ⟨by decide +revert, rfl⟩

/-! ## From the fields to the bytes and back -/

/-- What makes the fields of an encoding readable from its bytes: they fit, and the sib byte and the
displacement are there exactly when mod, rm and base say so. -/
structure DecodeInfo.Regular (di : DecodeInfo) : Prop where
  mod_lt : di.mod < 3
  reg_le : di.reg ≤ 8
  rm_lt : di.rm < 8
  sib_iff : di.hasSib = true ↔ di.rm = 4
  sib_lt : di.hasSib = true → di.scale < 4 ∧ di.index < 8 ∧ di.base < 8
  disp_iff : di.hasDisp = true ↔ di.mod = 1 ∨ di.mod = 2 ∨ (di.hasSib = true ∧ di.base = 5)
  not_rel : ¬(di.mod = 0 ∧ di.rm = 5)

/-- The displacement that is read back, before it is scaled. -/
def DecodeInfo.dispRead (di : DecodeInfo) : BitVec 32 :=
  if di.mod = 1 then (di.disp.setWidth 8).signExtend 32 else di.disp

/-- What `read_modrm` makes of a decoder `dj` when it reads the bytes of `di`: the fields that are in
the bytes come from `di`, the others stay. -/
structure DecodeInfo.ReadInto (di dj dk : DecodeInfo) : Prop where
  evexEncoded : dk.evexEncoded = dj.evexEncoded
  tupleType : dk.tupleType = dj.tupleType
  inputSize : dk.inputSize = dj.inputSize
  prefixes : dk.prefixes = dj.prefixes
  segOverride : dk.segOverride = dj.segOverride
  mod : dk.mod = di.mod
  rm : dk.rm = di.rm
  hasSib : dk.hasSib = di.hasSib
  sib : di.hasSib = true → dk.scale = di.scale ∧ dk.index = di.index ∧ dk.base = di.base
  hasDisp : dk.hasDisp = di.hasDisp
  disp : di.hasDisp = true → dk.disp = di.dispRead


theorem DecodeInfo.Regular.four_iff {di dj : DecodeInfo} (h : di.Regular) (hmod : dj.mod = di.mod)
    (hrm : dj.rm = di.rm) (hsib : dj.hasSib = di.hasSib)
    (hbase : di.hasSib = true → dj.base = di.base) :
    ((dj.mod = 0 ∧ dj.rm = 5) ∨ (dj.hasSib ∧ dj.mod = 0 ∧ dj.base = 5) ∨ dj.mod = 2) ↔
      di.hasDisp = true ∧ di.mod ≠ 1 := by
  rw [h.disp_iff, hmod, hrm, hsib]
  have hlt := h.mod_lt
  constructor
  · rintro (hrel | ⟨hs, h0, h5⟩ | h2)
    · exact absurd hrel h.not_rel
    · exact ⟨.inr (.inr ⟨hs, hbase hs ▸ h5⟩), by rw [h0]; decide⟩
    · exact ⟨.inr (.inl h2), by rw [h2]; decide⟩
  · rintro ⟨h1 | h2 | ⟨hs, h5⟩, hne⟩
    · exact absurd h1 hne
    · exact .inr (.inr h2)
    · by_cases h2 : di.mod = 2
      · exact .inr (.inr h2)
      · exact .inr (.inl ⟨hs, by bv_omega, (hbase hs).trans h5⟩)

variable {di : DecodeInfo}

/-- The displacement part: what is written last is read. -/
theorem readDisp_emitDisp (h : di.Regular) (dj : DecodeInfo) (rel : BitVec 32)
    (rest : List (BitVec 8)) (hmod : dj.mod = di.mod) (hrm : dj.rm = di.rm)
    (hsib : dj.hasSib = di.hasSib) (hbase : di.hasSib = true → dj.base = di.base) :
    ∃ disp, (di.hasDisp = true → disp = di.dispRead) ∧ readDisp (emitDisp di rel ++ rest) dj
      = some ({ dj with hasDisp := di.hasDisp, disp := disp }, rest) := by
  have four := h.four_iff hmod hrm hsib hbase
  by_cases hdisp : di.hasDisp = true
  · refine ⟨di.dispRead, fun _ ↦ rfl, ?_⟩
    rw [emitDisp, if_pos hdisp, DecodeInfo.dispRead, hdisp]
    by_cases one : di.mod = 1
    · rw [if_pos one, if_pos one, readDisp, if_neg fun hf ↦ (four.mp hf).2 one, hmod, if_pos one]
      rfl
    · rw [if_neg one, if_neg h.not_rel, if_neg one, readDisp, if_pos (four.mpr ⟨hdisp, one⟩),
        readInt_intBytes]
      rfl
  · refine ⟨dj.disp, fun hd ↦ absurd hd hdisp, ?_⟩
    have hne : di.mod ≠ 1 := fun one ↦ hdisp (h.disp_iff.mpr (.inl one))
    rw [emitDisp, if_neg hdisp, readDisp, if_neg fun hf ↦ hdisp (four.mp hf).1, hmod, if_neg hne,
      Bool.eq_false_iff.mpr hdisp]
    rfl

/-- Reading the emitted bytes gives the fields of the encoding, and nothing after them is touched. -/
theorem readModrm_emitModrm (h : di.Regular) (dj : DecodeInfo) (rel : BitVec 32)
    (rest : List (BitVec 8)) :
    ∃ dk, readModrm (emitModrm di rel ++ rest) dj = some (dk, rest) ∧ di.ReadInto dj dk := by
  have hlt := h.mod_lt
  have hle := h.reg_le
  have hreg : (if di.reg = 8 then 0 else di.reg) < 8 := by
    split_ifs with h8
    · decide
    · bv_omega
  obtain ⟨hm, hg, hr⟩ := unpack_packByte (show di.mod < 4 by bv_omega) hreg h.rm_lt
  have hmod3 : di.mod ≠ 3 := by bv_omega
  rw [emitModrm, if_neg (show di.mod ≠ 5 by bv_omega), List.cons_append, List.append_assoc]
  unfold readModrm
  simp only [hm, hg, hr]
  by_cases hsib : di.hasSib = true
  · obtain ⟨hs, hi, hb⟩ := unpack_packByte (h.sib_lt hsib).1 (h.sib_lt hsib).2.1 (h.sib_lt hsib).2.2
    rw [if_pos ⟨h.sib_iff.mp hsib, hmod3⟩, if_pos hsib]
    simp only [List.cons_append, List.nil_append, hs, hi, hb]
    obtain ⟨disp, hdisp, hread⟩ := readDisp_emitDisp h
      { dj with mod := di.mod, reg := if di.reg = 8 then 0 else di.reg, rm := di.rm, hasSib := true,
                scale := di.scale, index := di.index, base := di.base }
      rel rest rfl rfl hsib.symm fun _ ↦ rfl
    exact ⟨_, hread, rfl, rfl, rfl, rfl, rfl, rfl, rfl, hsib.symm, fun _ ↦ ⟨rfl, rfl, rfl⟩, rfl,
      hdisp⟩
  · rw [if_neg fun h4 ↦ hsib (h.sib_iff.mpr h4.1), if_neg hsib]
    obtain ⟨disp, hdisp, hread⟩ := readDisp_emitDisp h
      { dj with mod := di.mod, reg := if di.reg = 8 then 0 else di.reg, rm := di.rm,
                hasSib := false }
      rel rest rfl rfl (Bool.eq_false_iff.mpr hsib).symm fun hs ↦ absurd hs hsib
    exact ⟨_, hread, rfl, rfl, rfl, rfl, rfl, rfl, rfl, (Bool.eq_false_iff.mpr hsib).symm,
      fun hs ↦ absurd hs hsib, rfl, hdisp⟩

/-! ## From the operand to the fields and back -/

/-- The state in which `encode_base_disp` finds an EVEX instruction: no operand has set the modrm
fields that describe a memory operand, or the prefix bits that go with them. -/
structure DecodeInfo.Fresh (di : DecodeInfo) : Prop where
  evexEncoded : di.evexEncoded = true
  mod : di.mod = 5
  reg_le : di.reg ≤ 8
  rexX : di.prefixes.rexX = false
  rexB : di.prefixes.rexB = false

/-- The displacement that comes back: extended if it is one byte, and scaled by `n`. -/
def DecodeInfo.dispValue (di : DecodeInfo) (n : BitVec 32) : BitVec 32 :=
  let disp := if di.hasDisp then di.dispRead else 0
  if di.mod = 1 then disp * n else disp

/-- What `encodeDisp` settles: a mod and a displacement that stand for the displacement of the
operand.  mod is 0 only where that does not mean something else. -/
structure DispEncoded (di : DecodeInfo) (opnd : BaseDisp) (e : DecodeInfo) : Prop where
  rest : ∃ mod hasDisp disp, e = { di with mod := mod, hasDisp := hasDisp, disp := disp }
  mod_lt : e.mod < 3
  hasDisp_iff : e.hasDisp = true ↔ e.mod = 1 ∨ e.mod = 2
  base_ne : e.mod = 0 → opnd.base ≠ some .rbp ∧ opnd.base ≠ some .r13
  value : e.dispValue (.ofInt 32 (compressedDispScale di)) = opnd.disp

/-- The scale is a small number, so it survives as an `int`. -/
theorem compressedDispScale_le (di : DecodeInfo) : compressedDispScale di ≤ 64 := by
  unfold compressedDispScale byLength
  dsimp only
  repeat' split
  all_goals decide

theorem toInt_compressedDispScale (h : 0 < compressedDispScale di) :
    (BitVec.ofInt 32 (compressedDispScale di)).toInt = compressedDispScale di := by
  have hle := compressedDispScale_le di
  rw [BitVec.toInt_ofInt]
  exact Int.bmod_eq_of_le (by omega) (by omega)

theorem encodeDisp_encoded (hev : di.evexEncoded = true)
    (hn : 0 < compressedDispScale di) (opnd : BaseDisp) :
    DispEncoded di opnd (encodeDisp di opnd) := by
  rw [encodeDisp, if_pos hev]
  set n := BitVec.ofInt 32 (compressedDispScale di)
  by_cases zero : opnd.disp = 0 ∧ (opnd.base ≠ some .rbp ∧ opnd.base ≠ some .r13) ∧
      ¬opnd.encodeZeroDisp = true
  · rw [if_pos zero]
    exact ⟨⟨_, _, _, rfl⟩, by simp, by simp, fun _ ↦ zero.2.1, zero.1.symm⟩
  rw [if_neg zero]
  by_cases byte : di.evexEncoded = true ∧ opnd.disp.srem n = 0 ∧
      fitsInt8 (opnd.disp.sdiv n) = true ∧ ¬opnd.forceFullDisp = true
  · rw [if_pos byte]
    refine ⟨⟨_, _, _, rfl⟩, by simp, by simp, by simp, ?_⟩
    show ((opnd.disp.sdiv n).setWidth 8).signExtend 32 * n = opnd.disp
    rw [signExtend_setWidth_of_fitsInt8 byte.2.2.1]
    exact sdiv_mul_of_srem_eq_zero (by rwa [toInt_compressedDispScale hn]) byte.2.1
  · rw [if_neg byte, if_neg fun h ↦ h.1 hev]
    exact ⟨⟨_, _, _, rfl⟩, by simp, by simp, by simp, rfl⟩

/-- What `encode_base_disp` settles: fields that can be read from the bytes, and that stand for the
operand. -/
structure Encoded (di : DecodeInfo) (opnd : BaseDisp) (e : DecodeInfo) : Prop where
  regular : e.Regular
  evexEncoded : e.evexEncoded = true
  scale : compressedDispScale e = compressedDispScale di
  value : e.dispValue (.ofInt 32 (compressedDispScale di)) = opnd.disp
  regs : decodeRegs e = (opnd.base, opnd.index, if opnd.index.isSome then opnd.scale else 0)

theorem encoded_absolute (h : di.Fresh) {opnd : BaseDisp}
    (hbase : opnd.base = none) (hindex : opnd.index = none) :
    Encoded di opnd { di with mod := 0, rm := 4, hasSib := true, scale := 0, index := 4, base := 5,
                              hasDisp := true, disp := opnd.disp } := by
  refine ⟨⟨by simp, h.reg_le, by simp, by simp, by simp, by simp, by simp⟩, h.evexEncoded, rfl, rfl,
    ?_⟩
  simp [decodeRegs, h.rexX, hbase, hindex]

theorem encoded_base {di e : DecodeInfo} (h : di.Fresh) {opnd : BaseDisp}
    (he : DispEncoded di opnd e) {b : Gpr} (hbase : opnd.base = some b) (hindex : opnd.index = none)
    (hb : b ≠ .rsp ∧ b ≠ .r12) :
    Encoded di opnd { setRexB e b with hasSib := false, rm := b.bits } := by
  obtain ⟨⟨mod, hasDisp, disp, rfl⟩, hlt, hdisp, hne, hvalue⟩ := he
  have h4 : b.bits ≠ 4 := fun h4 ↦ (Gpr.bits_eq_four.mp h4).elim hb.1 hb.2
  refine ⟨⟨hlt, h.reg_le, b.bits_lt, ?_, ?_, ?_, ?_⟩, h.evexEncoded, rfl, hvalue, ?_⟩
  · simpa using h4
  · simp
  · simpa [setRexB] using hdisp
  · rintro ⟨h0, h5⟩
    rcases Gpr.bits_eq_five.mp h5 with rfl | rfl
    · exact (hne h0).1 hbase
    · exact (hne h0).2 hbase
  · simp [decodeRegs, setRexB, h.rexB, decodeGpr_bits, hbase, hindex]

theorem decodeRegs_sib (di : DecodeInfo) (h : di.hasSib = true) :
    decodeRegs di =
      (if di.base = 5 ∧ di.mod = 0 then none else some (decodeGpr di.base di.prefixes.rexB),
       if di.index = 4 ∧ ¬di.prefixes.rexX then none
         else some (decodeGpr di.index di.prefixes.rexX),
       if di.index = 4 ∧ ¬di.prefixes.rexX then 0 else scaleOfField di.scale) := by
  rw [decodeRegs, if_pos h]
  split_ifs <;> rfl

/-- The index half of the sib byte. -/
theorem encodeIndex_fields (h : di.prefixes.rexX = false) {opnd : BaseDisp}
    (hrsp : opnd.index ≠ some .rsp) (hscale : opnd.scale ∈ [1, 2, 4, 8]) :
    ∃ rexX index scale,
      encodeIndex di opnd = { di with prefixes := { di.prefixes with rexX := rexX }, index := index,
                                      scale := scale } ∧
      index < 8 ∧ scale < 4 ∧
      (if index = 4 ∧ ¬rexX then none else some (decodeGpr index rexX)) = opnd.index ∧
      (if index = 4 ∧ ¬rexX then 0 else scaleOfField scale)
        = if opnd.index.isSome then opnd.scale else 0 := by
  rw [encodeIndex]
  cases hindex : opnd.index with
  | none =>
    refine ⟨false, 4, 0, ?_, by decide, by decide, rfl, rfl⟩
    rw [← h]
  | some r =>
    have hfield := scaleOfField_scaleField hscale di.scale
    have hreg : ¬(r.bits = 4 ∧ ¬r.isExtended = true) := by
      rintro ⟨h4, hext⟩
      exact hrsp (hindex.trans (congrArg some (Gpr.eq_rsp h4 (Bool.eq_false_iff.mpr hext))))
    refine ⟨r.isExtended, r.bits, scaleField di.scale opnd.scale, ?_, r.bits_lt, hfield.1, ?_, ?_⟩
    · simp [setRexX, h]
    · rw [if_neg hreg, decodeGpr_bits]
    · rw [if_neg hreg, hfield.2]
      rfl

theorem encoded_sib {di e : DecodeInfo} (h : di.Fresh) {opnd : BaseDisp}
    (he : DispEncoded di opnd e) (hrsp : opnd.index ≠ some .rsp)
    (hscale : opnd.scale ∈ [1, 2, 4, 8]) :
    Encoded di opnd (encodeBase (encodeIndex { e with hasSib := true, rm := 4 } opnd) opnd) := by
  obtain ⟨⟨mod, hasDisp, disp, rfl⟩, hlt, hdisp, hne, hvalue⟩ := he
  obtain ⟨rexX, index, scale, heq, hilt, hslt, hindex, hsc⟩ :=
    @encodeIndex_fields { di with mod := mod, hasDisp := hasDisp, disp := disp, hasSib := true,
                                  rm := 4 } h.rexX opnd hrsp hscale
  rw [heq, encodeBase]
  cases hbase : opnd.base with
  | none =>
    refine ⟨⟨by simp, h.reg_le, by simp, by simp, fun _ ↦ ⟨hslt, hilt, by simp⟩, by simp, by simp⟩,
      h.evexEncoded, rfl, rfl, ?_⟩
    rw [decodeRegs_sib _ rfl, hbase]
    exact Prod.ext rfl (Prod.ext hindex hsc)
  | some b =>
    have h5 : ¬(b.bits = 5 ∧ mod = 0) := by
      rintro ⟨h5, h0⟩
      rcases Gpr.bits_eq_five.mp h5 with rfl | rfl
      · exact (hne h0).1 hbase
      · exact (hne h0).2 hbase
    refine ⟨⟨hlt, h.reg_le, by simp [setRexB], by simp [setRexB], fun _ ↦ ⟨hslt, hilt, b.bits_lt⟩, ?_,
      by simp [setRexB]⟩, h.evexEncoded, rfl, hvalue, ?_⟩
    · refine hdisp.trans ⟨fun hm ↦ hm.imp_right .inl, ?_⟩
      rintro (h1 | h2 | ⟨-, hb⟩)
      · exact .inl h1
      · exact .inr h2
      · -- A base of rbp or r13 was not given mod 0, so it has a displacement.
        have hmod : mod < 3 := hlt
        have h0 : mod ≠ 0 := fun h0 ↦ h5 ⟨hb, h0⟩
        show mod = 1 ∨ mod = 2
        bv_omega
    · rw [decodeRegs_sib _ rfl, hbase]
      refine Prod.ext ?_ (Prod.ext hindex hsc)
      show (if b.bits = 5 ∧ mod = 0 then none else _) = some b
      rw [if_neg h5]
      simp [setRexB, h.rexB, decodeGpr_bits]

theorem encodeBaseDisp_encoded (h : di.Fresh) (hn : 0 < compressedDispScale di)
    {opnd : BaseDisp} (hrsp : opnd.index ≠ some .rsp) (hscale : opnd.scale ∈ [1, 2, 4, 8]) :
    Encoded di opnd (encodeBaseDisp di opnd) := by
  have hdisp := encodeDisp_encoded h.evexEncoded hn opnd
  rw [encodeBaseDisp, if_neg (by rw [h.mod]; decide)]
  cases hbase : opnd.base with
  | none =>
    cases hindex : opnd.index with
    | none => exact encoded_absolute h hbase hindex
    | some r => exact encoded_sib h hdisp hrsp hscale
  | some b =>
    cases hindex : opnd.index with
    | none =>
      dsimp only
      split_ifs with hb
      · exact encoded_base h hdisp hbase hindex hb
      · exact encoded_sib h hdisp hrsp hscale
    | some r => exact encoded_sib h hdisp hrsp hscale

/-- A decoder that has read the prefixes of an encoding and knows its instruction. -/
structure DecodeInfo.Prefixed (dj e : DecodeInfo) : Prop where
  evexEncoded : dj.evexEncoded = e.evexEncoded
  tupleType : dj.tupleType = e.tupleType
  inputSize : dj.inputSize = e.inputSize
  prefixes : dj.prefixes = e.prefixes

theorem DecodeInfo.ReadInto.compressedDispScale_eq {e dj dk : DecodeInfo} (h : e.ReadInto dj dk)
    (hj : dj.Prefixed e) : compressedDispScale dk = compressedDispScale e := by
  unfold compressedDispScale
  rw [h.tupleType, h.inputSize, h.prefixes, hj.tupleType, hj.inputSize, hj.prefixes]

theorem DecodeInfo.ReadInto.decodeRegs_eq {e dj dk : DecodeInfo} (h : e.ReadInto dj dk)
    (hj : dj.Prefixed e) : decodeRegs dk = decodeRegs e := by
  have hprefixes := h.prefixes.trans hj.prefixes
  by_cases hsib : e.hasSib = true
  · obtain ⟨hs, hi, hb⟩ := h.sib hsib
    rw [decodeRegs_sib _ (h.hasSib.trans hsib), decodeRegs_sib _ hsib, hprefixes, hs, hi, hb, h.mod]
  · rw [decodeRegs, if_neg (by rwa [h.hasSib]), decodeRegs, if_neg hsib, hprefixes, h.rm]

/-- Decoding fields that stand for an operand gives the operand back, apart from its flags. -/
theorem DecodeInfo.ReadInto.decodeModrm_eq {di e dj dk : DecodeInfo} {opnd : BaseDisp}
    (he : Encoded di opnd e) (hn : 0 < compressedDispScale di) (hj : dj.Prefixed e)
    (h : e.ReadInto dj dk) :
    ∃ o : BaseDisp, decodeModrm dk = some (.baseDisp o) ∧ o.seg = dj.segOverride ∧
      o.base = opnd.base ∧ o.index = opnd.index ∧
      o.scale = (if opnd.index.isSome then opnd.scale else 0) ∧ o.disp = opnd.disp := by
  have hlt := he.regular.mod_lt
  have hn' : compressedDispScale dk = compressedDispScale di :=
    (h.compressedDispScale_eq hj).trans he.scale
  have hev : dk.evexEncoded = true := (h.evexEncoded.trans hj.evexEncoded).trans he.evexEncoded
  have hregs := (h.decodeRegs_eq hj).trans he.regs
  have hdisp : (if dk.hasDisp then dk.disp else 0) = if e.hasDisp then e.dispRead else 0 := by
    rw [h.hasDisp]
    split_ifs with hd
    · exact h.disp hd
    · rfl
  rw [decodeModrm, if_neg (by rw [h.mod, h.rm]; exact fun hrel ↦ he.regular.not_rel hrel.2),
    if_neg (by rw [h.mod]; intro h3; bv_omega), decodeBaseDisp, hregs]
  dsimp only
  rw [if_neg (by rw [hn']; omega), hdisp, hn', h.mod]
  refine ⟨_, rfl, h.segOverride, rfl, rfl, rfl, ?_⟩
  dsimp only
  simp only [← he.value, DecodeInfo.dispValue, hev, true_and]

/-- **What comes back.**  Encoding a memory operand of an EVEX instruction, emitting the bytes and
decoding them gives the base, the index and the displacement of the operand.  The scale comes back
with an index; without one it is 0. -/
theorem decodeModrm_encodeBaseDisp (di dj : DecodeInfo) (opnd : BaseDisp) (hdi : di.Fresh)
    (hn : 0 < compressedDispScale di) (hrsp : opnd.index ≠ some .rsp)
    (hscale : opnd.scale ∈ [1, 2, 4, 8]) (hdj : dj.Prefixed (encodeBaseDisp di opnd))
    (rel : BitVec 32) (rest : List (BitVec 8)) :
    ∃ dk o, readModrm (emitModrm (encodeBaseDisp di opnd) rel ++ rest) dj = some (dk, rest) ∧
      decodeModrm dk = some (.baseDisp o) ∧ o.base = opnd.base ∧ o.index = opnd.index ∧
      o.scale = (if opnd.index.isSome then opnd.scale else 0) ∧ o.disp = opnd.disp := by
  have he := encodeBaseDisp_encoded hdi hn hrsp hscale
  obtain ⟨dk, hread, hinto⟩ := readModrm_emitModrm he.regular dj rel rest
  obtain ⟨o, hdecode, -, hbase, hindex, hsc, hdisp⟩ := hinto.decodeModrm_eq he hn hdj
  exact ⟨dk, o, hread, hdecode, hbase, hindex, hsc, hdisp⟩

/-- The state `instr_encode_arch` starts an EVEX instruction in. -/
def newInfo (tupleType : TupleType) (inputSize : OpndSize) (prefixes : Prefixes) : DecodeInfo :=
  ⟨true, tupleType, inputSize, prefixes, none, 0, 0, 0, 5, 8, 0, false, 0, 0, 0, false, 0⟩

/-- The prefix bits of an instruction on zmm registers. -/
def zmmPrefixes (rexX rexB : Bool) : Prefixes := ⟨true, rexX, rexB, false, true, false⟩

/-- A negative multiple of 64, which is compressed, on r13 and r12, which need prefix bits. -/
theorem decodeModrm_encodeBaseDisp_r13_r12 :
    0 < compressedDispScale (newInfo .fv .na (zmmPrefixes false false)) ∧
    ∃ dk o, readModrm (emitModrm (encodeBaseDisp (newInfo .fv .na (zmmPrefixes false false))
          ⟨none, some .r13, some .r12, 8, -128, false, false⟩) 0 ++ [])
        (newInfo .fv .na (zmmPrefixes true true)) = some (dk, []) ∧
      decodeModrm dk = some (.baseDisp o) ∧ o.base = some .r13 ∧ o.index = some .r12 ∧
      o.scale = 8 ∧ o.disp = -128 := by
  refine ⟨by decide, ?_⟩
  exact decodeModrm_encodeBaseDisp (newInfo .fv .na (zmmPrefixes false false))
    (newInfo .fv .na (zmmPrefixes true true)) ⟨none, some .r13, some .r12, 8, -128, false, false⟩
    ⟨rfl, rfl, by decide, rfl, rfl⟩ (by decide) (by decide) (by decide) ⟨rfl, rfl, rfl, by decide⟩ 0 []

/-- Without an index there is no place for the scale: `[rax]` with a scale of 4 comes back with a
scale of 0. -/
theorem decodeModrm_scale_without_index :
    (readModrm (emitModrm (encodeBaseDisp (newInfo .fv .na (zmmPrefixes false false))
          ⟨none, some .rax, none, 4, 64, false, false⟩) 0)
        (newInfo .fv .na (zmmPrefixes false false))).bind (fun p ↦ decodeModrm p.1)
      = some (.baseDisp ⟨none, some .rax, none, 0, 64, false, false⟩) := by
  decide +kernel

end ModRm

end DrAvx
