import Mathlib.Data.BitVec
import DrAvx.Contract.Progress
import DrAvx.Contract.Stack

/-!
# What vector instructions leave alone

A vector instruction that does not compare into the flags changes its destination and nothing else of
the application's state.  A chain that works with vector registers and their slots alone keeps to
that.  A chain that needs a general purpose register or changes the flags saves them on the stack,
which is memory of the application, below the stack pointer.

A 512-bit store is split in two, and the memory operands of the halves are built anew, without the
segment and with a displacement that may wrap around.  Then they are not in the destination.
-/

set_option autoImplicit false

namespace DrAvx

open Decision Flow Function

/-! ## The frame -/

/-- The byte is a part of the operand.  An operand with a vector of indices names an element for each
of them; the scatter that is handled has doublewords for indices. -/
def State.covers (s : State) (a : BitVec 64) : Opnd → Prop
  | .mem _ (.baseDisp sg b (.vec w r) sc d) n =>
    ∃ j < w.bytes / 4, (a - (s.ea (.baseDisp sg b (.vec w r) sc d) +
      (Bits.lane 32 j (s.zmm r)).signExtend 64 * BitVec.ofNat 64 sc)).toNat < n
  | .mem _ m n => (a - s.ea m).toNat < n
  | _ => False

/-- Between the states, nothing has changed but the destinations of the instruction and vector
registers. -/
structure Framed (i : AppInstr) (s t : State) : Prop where
  flags : t.flags = s.flags
  gpr : ∀ r, (∀ sz, .gpr sz r ∉ i.dsts) → t.gpr r = s.gpr r
  mem : ∀ a, (∀ o ∈ i.dsts, ¬s.covers a o) → t.mem a = s.mem a

/-- The memory operand can be taken apart and built anew so many bytes further on. -/
def MemRef.shiftable (off : ℤ) : MemRef → Bool
  | .baseDisp sg _ _ _ d => sg.isNone && BitVec.ofInt 64 (addDisp d off) == BitVec.ofInt 64 (d + off)
  | .rel sg _ => sg.isNone
  | .abs sg _ => sg.isNone

/-- The halves of a 64-byte memory operand that are built anew are where they should be. -/
def Opnd.splits : Opnd → Bool
  | .mem _ m _ => m.shiftable 0 && m.shiftable 32
  | _ => true

theorem State.ea_rebuild {m : MemRef} {off : ℤ} (h : m.shiftable off = true)
    (hm : ∀ sg b w r sc d, m ≠ .baseDisp sg b (.vec w r) sc d) (s : State) :
    s.ea (m.rebuild off) = s.ea m + BitVec.ofInt 64 off := by
  cases m with
  | baseDisp sg b ix sc d =>
    simp only [MemRef.shiftable, Bool.and_eq_true, beq_iff_eq, Option.isNone_iff_eq_none] at h
    obtain ⟨rfl, hd⟩ := h
    cases ix with
    | none => rw [MemRef.rebuild, ea, ea, hd, BitVec.ofInt_add]; grind
    | gpr r => rw [MemRef.rebuild, ea, ea, hd, BitVec.ofInt_add]; grind
    | vec w r => exact absurd rfl (hm _ _ _ _ _ _)
  | rel sg a =>
    obtain rfl := Option.isNone_iff_eq_none.mp h
    rw [MemRef.rebuild, ea, ea, BitVec.ofInt_add]
    grind
  | abs sg a =>
    obtain rfl := Option.isNone_iff_eq_none.mp h
    rw [MemRef.rebuild, ea, ea, BitVec.ofInt_add]
    grind

/-- The displacement wraps around by a multiple of its size. -/
theorem exists_addDisp (d off : ℤ) : ∃ k, addDisp d off = d + off + 2 ^ 32 * k := by
  rw [addDisp, Int.bmod_def]
  split
  · exact ⟨-((d + off) / 2 ^ 32), by omega⟩
  · exact ⟨-((d + off) / 2 ^ 32) - 1, by omega⟩

/-- A state in which no segment starts at zero. -/
def State.segmented : State := { State.blank with segBase := fun _ ↦ 2 ^ 20 }

/-- An operand that cannot be built anew is not in the original one. -/
theorem State.not_covers_of_not_shiftable {m : MemRef} {off : ℤ} (h : m.shiftable off = false)
    (hm : ∀ sg b w r sc d, m ≠ .baseDisp sg b (.vec w r) sc d) (hle : 0 ≤ off) (hlt : off < 64) :
    ¬(State.segmented.ea (m.rebuild off) - State.segmented.ea m).toNat < 64 := by
  have hdist (sg : Option SegReg) (x : ℤ) {k : ℤ} (hk : sg = none → ¬(2 : ℤ) ^ 64 ∣ 2 ^ 32 * k) :
      ¬(BitVec.ofInt 64 (x + off + 2 ^ 32 * k) -
        (State.segmented.seg sg + BitVec.ofInt 64 x)).toNat < 64 := by
    cases sg with
    | none =>
      have hx : BitVec.ofInt 64 (x + off + 2 ^ 32 * k) - (0 + BitVec.ofInt 64 x) =
          BitVec.ofInt 64 (off + 2 ^ 32 * k) := by
        simp only [BitVec.ofInt_add]
        grind
      have hk := hk rfl
      rw [seg, hx, BitVec.toNat_ofInt]
      omega
    | some r =>
      have hx : BitVec.ofInt 64 (x + off + 2 ^ 32 * k) - (2 ^ 20 + BitVec.ofInt 64 x) =
          BitVec.ofInt 64 (off + 2 ^ 32 * k + -2 ^ 20) := by
        have hseg : BitVec.ofInt 64 (-2 ^ 20) = -(2 ^ 20 : BitVec 64) := by decide
        simp only [BitVec.ofInt_add, hseg]
        grind
      rw [seg, State.segmented, hx, BitVec.toNat_ofInt]
      omega
  cases m with
  | baseDisp sg b ix sc d =>
    obtain ⟨k, hk⟩ := exists_addDisp d off
    have hwrap (hsg : sg = none) : ¬(2 : ℤ) ^ 64 ∣ 2 ^ 32 * k := by
      rintro ⟨q, hq⟩
      have hzero : BitVec.ofInt 64 (2 ^ 32 * k) = 0 := by
        rw [hq, ← BitVec.toNat_inj, BitVec.toNat_ofInt]
        simp
      rw [MemRef.shiftable, hsg, hk, BitVec.ofInt_add (d + off), hzero] at h
      simp at h
    have hbase : State.segmented.base b = 0 := by cases b <;> rfl
    have hnone : State.segmented.seg none = 0 := rfl
    cases ix with
    | none => simpa [MemRef.rebuild, ea, hbase, hnone, hk] using hdist sg d hwrap
    | gpr r =>
      have hr : State.segmented.gpr r = 0 := rfl
      simpa [MemRef.rebuild, ea, hbase, hnone, hr, hk] using hdist sg d hwrap
    | vec w r => exact absurd rfl (hm _ _ _ _ _ _)
  | rel sg a =>
    have hsg : sg ≠ none := fun hsg ↦ by simp [MemRef.shiftable, hsg] at h
    have hnone : State.segmented.seg none = 0 := rfl
    simpa [MemRef.rebuild, ea, hnone] using hdist sg a (k := 0) fun hsg' ↦ absurd hsg' hsg
  | abs sg a =>
    have hsg : sg ≠ none := fun hsg ↦ by simp [MemRef.shiftable, hsg] at h
    have hnone : State.segmented.seg none = 0 := rfl
    simpa [MemRef.rebuild, ea, hnone] using hdist sg a (k := 0) fun hsg' ↦ absurd hsg' hsg

/-! ## Chains that keep to the frame -/

/-- A write to the operand changes no more than the instruction may; `halves` allows for the halves
of its destination, built anew. -/
def TOpnd.inFrame (P : Profile) (halves : Bool) : TOpnd → Bool
  | .g _ r => r == .op .d0
  | .app p => p == .d0 || match P p with
    | .vec _ _ | .opmask => true
    | _ => false
  | .mem p off b => halves && p == .d0 && (off == 0 || off == 32) && b == 32
  | .stray _ _ _ | .kaddr _ _ | .memBase _ _ _ | .scratch _ _ _ _ _ => false
  | _ => true

def TInsn.inFrame (P : Profile) (halves : Bool) (i : TInsn) : Bool :=
  !i.op.setsFlags && i.dsts.all (TOpnd.inFrame P halves)

/-- Not a memory operand with a vector of indices. -/
def OpndClass.scalar : OpndClass → Bool
  | .vsib _ _ _ _ => false
  | _ => true

/-- The chain keeps to the frame. -/
def Template.inFrame (T : Template) (P : Profile) (halves : Bool) : Bool :=
  (P .d0).scalar && (!halves || (P .d0).bytes == 64) && T.body.all (TInsn.inFrame P halves)

/-- The frame of a chain whose one destination is the first operand. -/
structure InFrame (o : Opnd) (s₀ s : State) : Prop where
  flags : s.flags = s₀.flags
  gpr : ∀ r, o.gpr? ≠ some r → s.gpr r = s₀.gpr r
  segBase : s.segBase = s₀.segBase
  mem : ∀ a, ¬s₀.covers a o → s.mem a = s₀.mem a

theorem State.ea_congr {s s' : State} (hgpr : s.gpr = s'.gpr) (hseg : s.segBase = s'.segBase)
    (m : MemRef) : s.ea m = s'.ea m := by
  have hseg' (sg : Option SegReg) : s.seg sg = s'.seg sg := by
    cases sg with
    | none => rfl
    | some r => rw [seg, seg, hseg]
  have hbase (b : Option Gpr) : s.base b = s'.base b := by
    cases b with
    | none => rfl
    | some r => rw [base, base, hgpr]
  rcases m with ⟨sg, b, _ | r | _, _, _⟩ | _ | _ <;> simp only [ea, hseg', hbase, hgpr]

section Frame

variable {c : Context} {F : Facts} {T : Template} {e : Env} (h : Emitted c F T e)
variable {E : Ext} {s₀ s t : State} {halves : Bool} {i : TInsn}
include h

/-- The first operand has no vector of indices. -/
theorem Emitted.not_vsib (hscalar : (F.profile .d0).scalar = true) {o : Origin} {m : MemRef} {n : ℕ}
    (hd0 : e.instr.opnd .d0 = .mem o m n) (sg : Option SegReg) (b : Option Gpr) (w : VecWidth)
    (r : VReg) (sc : ℕ) (d : ℤ) : m ≠ .baseDisp sg b (.vec w r) sc d := by
  rintro rfl
  obtain ⟨-, -, ho⟩ | ⟨o', -, hc, ho⟩ := e.instr.cls_eq .d0
  · rw [ho] at hd0
    cases hd0
  · rw [h.profile, hc, ← ho, hd0] at hscalar
    cases hscalar

/-- The size of a memory operand. -/
theorem Emitted.bytes_of_mem {p : Pos} {o : Origin} {m : MemRef} {n : ℕ}
    (hp : e.instr.opnd p = .mem o m n) : (F.profile p).bytes = n := by
  obtain ⟨-, -, ho⟩ | ⟨o', -, hc, ho⟩ := e.instr.cls_eq p
  · rw [ho] at hp
    cases hp
  · rw [h.profile, hc, ← ho, hp]
    rcases m with ⟨_, _, _ | _ | _, _, _⟩ | _ | _ <;> rfl

/-- Which of the registers an instruction of the chain writes. -/
theorem Emitted.gpr?_of_inFrame (hi : i.inFrame F.profile halves = true) {sz : GprSize} {r : Gpr}
    (hr : .gpr sz r ∈ (i.inst e).dsts) : (e.instr.opnd .d0).gpr? = some r := by
  obtain ⟨o, ho, hinst⟩ := List.mem_map.mp hr
  obtain ⟨ρ, hρ, hg⟩ := TOpnd.gprRole_of_inst hinst
  have hframe := List.all_eq_true.mp (Bool.and_eq_true_iff.mp hi).2 o ho
  cases o with
  | g sz' ρ' =>
    obtain rfl := Option.some.inj hρ
    obtain rfl : ρ' = .op .d0 := by simpa [TOpnd.inFrame] using hframe
    exact hg
  | app p =>
    rw [TOpnd.inFrame, Bool.or_eq_true, beq_iff_eq, h.profile] at hframe
    rw [TOpnd.gprRole] at hρ
    split at hρ
    · cases hρ
      rcases hframe with rfl | hframe
      · exact hg
      · simp [*] at hframe
    · cases hρ
  | _ => cases hρ

/-- A byte outside of the destination is not written. -/
theorem Emitted.not_covered (hscalar : (F.profile .d0).scalar = true)
    (hbytes : halves = true → (F.profile .d0).bytes = 64)
    (hsplits : halves = true → (e.instr.opnd .d0).splits = true)
    (hs : InFrame (e.instr.opnd .d0) s₀ s) (hi : i.inFrame F.profile halves = true) {a : BitVec 64}
    (ha : ¬s₀.covers a (e.instr.opnd .d0)) {o : Origin} {m : MemRef} {b : ℕ}
    (hmem : .mem o m b ∈ (i.inst e).dsts) : ¬(a - s.ea m).toNat < b := by
  obtain ⟨d, hd, hinst⟩ := List.mem_map.mp hmem
  have hframe := List.all_eq_true.mp (Bool.and_eq_true_iff.mp hi).2 d hd
  -- where the destination is memory, no register changes, and addresses stay what they are
  have hea {o' : Origin} {m' : MemRef} {b' : ℕ} (hd0 : e.instr.opnd .d0 = .mem o' m' b')
      (m : MemRef) : s.ea m = s₀.ea m :=
    State.ea_congr (funext fun r ↦ hs.gpr r (by rw [hd0]; exact nofun)) hs.segBase m
  have hcovers {o' : Origin} {m' : MemRef} {b' : ℕ} (hd0 : e.instr.opnd .d0 = .mem o' m' b') :
      ¬(a - s₀.ea m').toNat < b' := by
    have hvsib := h.not_vsib hscalar hd0
    rw [hd0] at ha
    rcases m' with ⟨_, _, _ | _ | _, _, _⟩ | _ | _
    case baseDisp.vec => exact absurd rfl (hvsib _ _ _ _ _ _)
    all_goals exact ha
  cases d with
  | app p =>
    have hp : e.instr.opnd p = .mem o m b := hinst
    obtain rfl : p = .d0 := by
      rw [TOpnd.inFrame, Bool.or_eq_true, beq_iff_eq] at hframe
      rcases hframe with rfl | hframe
      · rfl
      · obtain ⟨-, -, ho⟩ | ⟨o', -, hc, ho⟩ := e.instr.cls_eq p
        · rw [ho] at hp
          cases hp
        · rw [h.profile, hc, ← ho, hp] at hframe
          rcases m with ⟨_, _, _ | _ | _, _, _⟩ | _ | _ <;> cases hframe
    rw [hea hp]
    exact hcovers hp
  | mem p off n =>
    simp only [TOpnd.inFrame, Bool.and_eq_true, Bool.or_eq_true, beq_iff_eq] at hframe
    obtain ⟨⟨⟨rfl, rfl⟩, hoff⟩, rfl⟩ := hframe
    rw [TOpnd.inst] at hinst
    cases hd0 : e.instr.opnd .d0 with
    | mem o' m' b' =>
      rw [hd0, Opnd.withMem] at hinst
      cases hinst
      have hb' : b' = 64 := (h.bytes_of_mem hd0).symm.trans (hbytes rfl)
      have hshift : m'.shiftable off = true := by
        have hsplits := hsplits rfl
        rw [hd0, Opnd.splits, Bool.and_eq_true] at hsplits
        rcases hoff with rfl | rfl
        · exact hsplits.1
        · exact hsplits.2
      have hnot := hcovers hd0
      rw [hea hd0, State.ea_rebuild hshift (h.not_vsib hscalar hd0)]
      rw [hb'] at hnot
      intro hlt
      apply hnot
      rcases hoff with rfl | rfl
      · simp at hlt ⊢
        omega
      · have hsum : a - s₀.ea m' = a - (s₀.ea m' + BitVec.ofInt 64 32) + BitVec.ofInt 64 32 := by
          grind
        rw [hsum, BitVec.toNat_add]
        have h32 : (BitVec.ofInt 64 32).toNat = 32 := by decide
        omega
    | _ => rw [hd0] at hinst; cases hinst
  | g sz r =>
    rw [TOpnd.inst] at hinst
    split at hinst <;> cases hinst
  | stray r off n => cases hframe
  | kaddr p n => cases hframe
  | memBase p off n => cases hframe
  | scratch base index sc d n => cases hframe
  | _ => cases hinst

theorem Emitted.inFrame_effect (hscalar : (F.profile .d0).scalar = true)
    (hbytes : halves = true → (F.profile .d0).bytes = 64)
    (hsplits : halves = true → (e.instr.opnd .d0).splits = true)
    (hi : i.inFrame F.profile halves = true) (hs : InFrame (e.instr.opnd .d0) s₀ s) :
    InFrame (e.instr.opnd .d0) s₀ ((i.inst e).effect E s) where
  flags := by
    have hflags : i.op.setsFlags = false := by simpa using (Bool.and_eq_true_iff.mp hi).1
    rw [Insn.effect_flags (i := i.inst e) hflags, hs.flags]
  gpr := fun r hr ↦ by
    rw [Insn.effect_gpr fun sz hsz ↦ hr (h.gpr?_of_inFrame hi hsz), hs.gpr r hr]
  segBase := by rw [Insn.effect_segBase, hs.segBase]
  mem := fun a ha ↦ by
    rw [Insn.effect_mem fun o m b hmem ↦ h.not_covered hscalar hbytes hsplits hs hi ha hmem,
      hs.mem a ha]

omit h in
/-- A register operand at the first position is a destination. -/
theorem AppInstr.mem_dsts_of_opnd {i : AppInstr} {o : Opnd} (h : i.opnd .d0 = o) (ho : o ≠ .null) :
    o ∈ i.dsts := by
  rw [opnd, opnd?] at h
  cases hd : i.dsts[0]? with
  | none =>
    rw [hd] at h
    exact absurd h.symm ho
  | some o' =>
    rw [hd, Option.getD_some] at h
    exact h ▸ List.mem_of_getElem? hd

omit h in
theorem InFrame.framed {i : AppInstr} (ht : InFrame (i.opnd .d0) s t) : Framed i s t where
  flags := ht.flags
  gpr := fun r hr ↦ ht.gpr r fun hg ↦ by
    cases hd0 : i.opnd .d0 with
    | gpr sz q =>
      rw [hd0] at hg
      cases hg
      exact hr sz (AppInstr.mem_dsts_of_opnd hd0 nofun)
    | _ =>
      rw [hd0] at hg
      cases hg
  mem := fun a ha ↦ ht.mem a fun hcov ↦ by
    cases hd0 : i.opnd .d0 with
    | mem o m b =>
      rw [hd0] at hcov
      exact ha _ (AppInstr.mem_dsts_of_opnd hd0 nofun) hcov
    | _ =>
      rw [hd0] at hcov
      exact hcov

theorem Emitted.framed (hT : T.inFrame F.profile halves = true)
    (hsplits : halves = true → (e.instr.opnd .d0).splits = true)
    (hexec : Exec E (T.body.map (TInsn.inst e)) s t) : Framed e.instr s t := by
  simp only [Template.inFrame, Bool.and_eq_true, Bool.or_eq_true, Bool.not_eq_true', beq_iff_eq,
    List.all_eq_true] at hT
  obtain ⟨⟨hscalar, hbytes⟩, hall⟩ := hT
  refine InFrame.framed (hexec.invariant (P := InFrame (e.instr.opnd .d0) s) (fun j hj u hu ↦ ?_)
    ⟨rfl, fun _ _ ↦ rfl, rfl, fun _ _ ↦ rfl⟩)
  obtain ⟨k, hk, rfl⟩ := List.mem_map.mp hj
  refine h.inFrame_effect hscalar (fun hhalves ↦ ?_) hsplits (hall k hk) hu
  rcases hbytes with hbytes | hbytes
  · rw [hhalves] at hbytes
    cases hbytes
  · exact hbytes

end Frame

/-! ## Chains that write elsewhere -/

theorem State.covers_poke {s : State} {a x : BitVec 64} {v : BitVec 8} {o : Opnd} :
    (s.poke x v).covers a o ↔ s.covers a o := by
  cases o with
  | mem o m b =>
    rcases m with ⟨_, _, _ | _ | _, _, _⟩ | _ | _ <;> simp only [covers, poke, ea_withMem]
    rfl
  | _ => rfl

/-- A byte that is lost and is not a part of a destination breaks the frame. -/
theorem not_framed_of_lost {i : AppInstr} {s t t' : State} {x : BitVec 64}
    (hx : ∀ o ∈ i.dsts, ¬s.covers x o) (heq : t' = t) (ht : Framed i s t)
    (ht' : Framed i (s.poke x (s.mem x + 1)) t') : False := by
  have hold : t.mem x = s.mem x := ht.mem x hx
  have hnew : t'.mem x = s.mem x + 1 :=
    (ht'.mem x fun o ho hcov ↦ hx o ho (State.covers_poke.mp hcov)).trans (update_self x _ s.mem)
  rw [heq, hold] at hnew
  exact absurd hnew (by grind)

/-- Two bytes that are too far apart are not both in a range. -/
theorem not_both_lt {sp A : BitVec 64} {k : ℤ} {b : ℕ} (hb : b ≤ 64) (hk : (b : ℤ) ≤ -1 - k)
    (hk' : -1 - k ≤ 64) (h₁ : (sp + BitVec.ofInt 64 (-1) - A).toNat < b) :
    ¬(sp + BitVec.ofInt 64 k - A).toNat < b := by
  intro h₂
  have hsum : sp + BitVec.ofInt 64 (-1) - A =
      sp + BitVec.ofInt 64 k - A + BitVec.ofInt 64 (-1 - k) := by
    have hone : BitVec.ofInt 64 (-1) = BitVec.ofInt 64 k + BitVec.ofInt 64 (-1 - k) := by
      rw [← BitVec.ofInt_add]
      congr 1
      omega
    rw [hone]
    grind
  rw [hsum, BitVec.toNat_add, BitVec.toNat_ofInt] at h₁
  omega

/-- The destinations are where the handlers look for them. -/
theorem RwFunc.Decodes.mem_dsts {h : RwFunc} {i : AppInstr} (hi : h.Decodes i) {o : Opnd}
    (ho : o ∈ i.dsts) : o = i.opnd .d0 ∨ o = i.opnd .d1 := by
  obtain ⟨f, hf, hclasses⟩ := hi
  obtain ⟨L, -, hmem⟩ := List.mem_flatMap.mp hclasses
  have hlen := (List.mem_sections.mp (List.pair_mem_product.mp hmem).1).length_eq
  have hforms : ∀ h ∈ RwFunc.all, ∀ f ∈ h.forms, f.dsts.length ≤ 2 := by decide +kernel
  have hle := hforms h h.mem_all f hf
  simp only [List.length_map] at hlen
  obtain ⟨n, hn, rfl⟩ := List.mem_iff_getElem.mp ho
  have hn' : n < 2 := by omega
  rcases n with _ | _ | n
  · exact .inl (by simp [AppInstr.opnd, AppInstr.opnd?, hn])
  · exact .inr (by simp [AppInstr.opnd, AppInstr.opnd?, hn])
  · omega

section Lost

variable {h : RwFunc} {c : Context} {F : Facts} {T : Template} {e : Env} {n : ℕ} {linked : Bool}
variable (hemitted : Emitted c F T e) (hi : h.Decodes e.instr)
variable (hexec : ∀ E s, ∃ t, Exec E (T.body.map (TInsn.inst e)) s t)
include hemitted hi hexec

omit hi hexec in
theorem Emitted.not_covers {p : Pos} (hp : Test.isMem.holds (F.profile p) = false) (s : State)
    (a : BitVec 64) : ¬s.covers a (e.instr.opnd p) := by
  have hmem : (e.instr.opnd p).isMem = false :=
    Poked.isMem_inst hemitted (o := .app p) (by simpa [TOpnd.sparesMem] using hp)
  intro hcov
  cases ho : e.instr.opnd p with
  | mem o m b =>
    rw [ho] at hmem
    cases hmem
  | _ =>
    rw [ho] at hcov
    exact hcov

/-- A chain that loses a byte of the stack does not keep to the frame of an instruction that does not
write memory. -/
theorem Emitted.not_framed_of_loses {k : ℤ} (hd0 : Test.isMem.holds (F.profile .d0) = false)
    (hd1 : Test.isMem.holds (F.profile .d1) = false) (hloses : T.loses F.profile k = true) :
    ¬∀ E s t, Exec E (T.body.map (TInsn.inst e)) s t → Framed e.instr s t := by
  intro hframed
  let x := State.blank.gpr .rsp + BitVec.ofInt 64 k
  obtain ⟨t, ht⟩ := hexec .blank .blank
  obtain ⟨t', ht'⟩ := hexec .blank (State.blank.poke x (State.blank.mem x + 1))
  refine not_framed_of_lost (x := x) (fun o ho ↦ ?_)
    (hemitted.eq_of_loses hloses (State.sameBut_poke _ _ _) ht ht') (hframed _ _ _ ht)
    (hframed _ _ _ ht')
  rcases hi.mem_dsts ho with rfl | rfl
  · exact hemitted.not_covers hd0 _ _
  · exact hemitted.not_covers hd1 _ _

omit hemitted hi hexec in
/-- Where the vector registers are zero, all elements of an operand are at the same place. -/
theorem State.exists_range {s : State} (hzmm : ∀ r, s.zmm r = 0) (o : Origin) (m : MemRef) (b : ℕ) :
    ∃ A : BitVec 64, ∀ a, s.covers a (.mem o m b) → (a - A).toNat < b := by
  refine ⟨s.ea m, fun a ha ↦ ?_⟩
  rcases m with ⟨sg, bs, _ | _ | ⟨w, r⟩, sc, d⟩ | _ | _
  case baseDisp.vec =>
    obtain ⟨j, -, hj⟩ := ha
    have hlane : Bits.lane 32 j (0 : BitVec 512) = 0 := by simp [Bits.lane]
    rw [hzmm, hlane] at hj
    simpa using hj
  all_goals exact ha

/-- One that loses two bytes does not keep to the frame of an instruction that writes memory, if they
are too far apart to be both in its destination. -/
theorem Emitted.not_framed_of_losesMasked {k : ℤ} (hd1 : Test.isMem.holds (F.profile .d1) = false)
    (hb : (F.profile .d0).bytes ≤ 64) (hk : ((F.profile .d0).bytes : ℤ) ≤ -1 - k)
    (hk' : -1 - k ≤ 64) (hloses : T.loses F.profile (-1) = true)
    (hfar : T.losesMasked F.profile k = true ∨ T.loses F.profile k = true) :
    ¬∀ E s t, Exec E (T.body.map (TInsn.inst e)) s t → Framed e.instr s t := by
  intro hframed
  let s : State := { State.blank with kslot := fun _ ↦ 1 }
  have hzmm (r : VReg) : s.zmm r = 0 := by
    have hzero : (0 : BitVec 256) ++ (0 : BitVec 256) = (0 : BitVec 512) := by decide +kernel
    rw [State.zmm, State.zmmLo]
    split <;> exact hzero
  have hlost {x : BitVec 64} (hx : ¬s.covers x (e.instr.opnd .d0))
      (heq : ∀ t t', Exec .blank (T.body.map (TInsn.inst e)) s t →
        Exec .blank (T.body.map (TInsn.inst e)) (s.poke x (s.mem x + 1)) t' → t' = t) : False := by
    obtain ⟨t, ht⟩ := hexec .blank s
    obtain ⟨t', ht'⟩ := hexec .blank (s.poke x (s.mem x + 1))
    refine not_framed_of_lost (x := x) (fun o ho ↦ ?_) (heq t t' ht ht') (hframed _ _ _ ht)
      (hframed _ _ _ ht')
    rcases hi.mem_dsts ho with rfl | rfl
    · exact hx
    · exact hemitted.not_covers hd1 _ _
  by_cases hnear : s.covers (s.gpr .rsp + BitVec.ofInt 64 (-1)) (e.instr.opnd .d0)
  · refine hlost (x := s.gpr .rsp + BitVec.ofInt 64 k) (fun hcov ↦ ?_) fun t t' ht ht' ↦ ?_
    · cases hd0 : e.instr.opnd .d0 with
      | mem o m b =>
        obtain ⟨A, hA⟩ := State.exists_range hzmm o m b
        rw [hemitted.bytes_of_mem hd0] at hb hk
        rw [hd0] at hnear hcov
        exact not_both_lt hb hk hk' (hA _ hnear) (hA _ hcov)
      | _ =>
        rw [hd0] at hnear
        exact hnear
    · rcases hfar with hfar | hfar
      · exact hemitted.eq_of_losesMasked hfar rfl (State.sameBut_poke _ _ _) ht ht'
      · exact hemitted.eq_of_loses hfar (State.sameBut_poke _ _ _) ht ht'
  · exact hlost hnear fun t t' ht ht' ↦
      hemitted.eq_of_loses hloses (State.sameBut_poke _ _ _) ht ht'

end Lost

/-- The chain loses bytes of the stack that cannot all be in the destination. -/
def Template.disturbs (T : Template) (P : Profile) : Bool :=
  !Test.isMem.holds (P .d1) &&
    if Test.isMem.holds (P .d0) then
      T.loses P (-1) && decide ((P .d0).bytes ≤ 64) && [-32, -48].any fun k ↦
        decide (((P .d0).bytes : ℤ) ≤ -1 - k) && (T.losesMasked P k || T.loses P k)
    else [-1, -241, -305].any (T.loses P)

theorem Emitted.not_framed_of_disturbs {h : RwFunc} {c : Context} {F : Facts} {T : Template}
    {e : Env} (hemitted : Emitted c F T e) (hi : h.Decodes e.instr)
    (hexec : ∀ E s, ∃ t, Exec E (T.body.map (TInsn.inst e)) s t)
    (hdisturbs : T.disturbs F.profile = true) :
    ¬∀ E s t, Exec E (T.body.map (TInsn.inst e)) s t → Framed e.instr s t := by
  rw [Template.disturbs, Bool.and_eq_true, Bool.not_eq_true'] at hdisturbs
  obtain ⟨hd1, hdisturbs⟩ := hdisturbs
  split at hdisturbs
  · rw [Bool.and_eq_true, Bool.and_eq_true, decide_eq_true_eq, List.any_eq_true] at hdisturbs
    obtain ⟨⟨hloses, hb⟩, k, hk, hfar⟩ := hdisturbs
    rw [Bool.and_eq_true, decide_eq_true_eq, Bool.or_eq_true] at hfar
    have hk' : -1 - k ≤ 64 := by
      simp only [List.mem_cons, List.not_mem_nil, or_false] at hk
      omega
    exact hemitted.not_framed_of_losesMasked hi hexec hd1 hb hfar.1 hk' hloses hfar.2
  next hd0 =>
    obtain ⟨k, -, hloses⟩ := List.any_eq_true.mp hdisturbs
    exact hemitted.not_framed_of_loses hi hexec (by simpa using hd0) hd1 hloses

/-! ## Stores that are split -/

/-- The instruction stores a half of the destination, built anew. -/
def TInsn.storesHalf (off : ℤ) (i : TInsn) : Bool :=
  match i.dsts, i.srcs with
  | [.mem .d0 off' 32], [_] => off' == off && i.op.computes 1
  | _, _ => false

/-- The instruction reads no memory. -/
def TInsn.readsNoMem (P : Profile) (i : TInsn) : Bool := Poked.needs P i (.pending none)

/-- The chain stores both halves of the destination and reads no memory. -/
def Template.storesHalves (T : Template) (P : Profile) : Bool :=
  T.isStraight && Test.isMem.holds (P .d0) && !Test.isMem.holds (P .d1) &&
    T.body.all (TInsn.readsNoMem P) && T.body.any (TInsn.storesHalf 0) &&
    T.body.any (TInsn.storesHalf 32)

section Halves

variable {c : Context} {F : Facts} {T : Template} {e : Env} (h : Emitted c F T e)
variable {E : Ext} {s s' : State} {x : BitVec 64} {body : List TInsn}
include h

/-- A byte in a half is lost. -/
theorem Emitted.effects_eq_of_storesHalf {o : Origin} {m : MemRef} {b : ℕ} {off : ℤ}
    (hd0 : e.instr.opnd .d0 = .mem o m b)
    (hframe : body.all (TInsn.inFrame F.profile true) = true)
    (hreads : body.all (TInsn.readsNoMem F.profile) = true)
    (hstores : body.any (TInsn.storesHalf off) = true) (hs : s.SameBut x s')
    (hx : (x - s.ea (m.rebuild off)).toNat < 32) :
    effects E (body.map (TInsn.inst e)) s' = effects E (body.map (TInsn.inst e)) s := by
  induction body generalizing s s' with
  | nil => cases hstores
  | cons i rest ih =>
    rw [List.all_cons, Bool.and_eq_true] at hframe hreads
    rw [List.any_cons, Bool.or_eq_true] at hstores
    have hinputs := Poked.isMem_of_needs h hreads.1
    rcases hstores with hi | hstores
    · -- the states are the same from here on
      refine congrArg (effects E (rest.map (TInsn.inst e))) ?_
      unfold TInsn.storesHalf at hi
      split at hi
      next off' y hdsts hsrcs =>
        rw [Bool.and_eq_true, beq_iff_eq] at hi
        obtain ⟨rfl, hcomputes⟩ := hi
        have hdsts' : (i.inst e).dsts = [.mem o (m.rebuild off') 32] := by
          rw [TInsn.inst, hdsts, List.map_singleton, TOpnd.inst, hd0, Opnd.withMem]
        have hkeeps : i.op.keepsDst = false := by
          have hneeds := hreads.1
          simp only [TInsn.readsNoMem, Poked.needs, Bool.and_eq_true, Bool.not_eq_true'] at hneeds
          exact hneeds.2
        obtain ⟨v, vs, houtputs⟩ := Insn.exists_outputs (i := i.inst e)
          (by simpa [TInsn.inst, hsrcs] using hcomputes) hkeeps E s
        refine hs.effect_eq hinputs (o := o) (v := v) ?_ hx
        rw [hdsts', houtputs]
        exact List.mem_cons_self
      · cases hi
    · refine ih hframe.2 hreads.2 hstores (hs.effect hinputs) ?_
      rwa [State.ea_congr (funext fun r ↦ Insn.effect_gpr fun sz hsz ↦ ?_) Insn.effect_segBase]
      have hg := h.gpr?_of_inFrame hframe.1 hsz
      rw [hd0] at hg
      cases hg

/-- A split store does not keep to the frame if a half is not where it should be. -/
theorem Emitted.not_framed_of_storesHalves {f : RwFunc} (hi : f.Decodes e.instr)
    (hlegal : (T.body.map (TInsn.inst e)).all Insn.legal = true)
    (hframe : T.inFrame F.profile true = true) (hhalves : T.storesHalves F.profile = true)
    (hsplits : (e.instr.opnd .d0).splits = false) :
    ¬∀ E s t, Exec E (T.body.map (TInsn.inst e)) s t → Framed e.instr s t := by
  intro hframed
  simp only [Template.inFrame, Template.storesHalves, Bool.and_eq_true, Bool.not_eq_true',
    Bool.or_eq_true, beq_iff_eq, Bool.true_eq_false, false_or] at hframe hhalves
  obtain ⟨⟨hscalar, hbytes⟩, hall⟩ := hframe
  obtain ⟨⟨⟨⟨⟨hstraight, -⟩, hd1⟩, hreads⟩, hfirst⟩, hsecond⟩ := hhalves
  cases hd0 : e.instr.opnd .d0 with
  | mem o m b =>
    obtain rfl : b = 64 := (h.bytes_of_mem hd0).symm.trans hbytes
    have hvsib := h.not_vsib hscalar hd0
    obtain ⟨off, hle, hlt, hshift, hstores⟩ : ∃ off : ℤ, 0 ≤ off ∧ off < 64 ∧
        m.shiftable off = false ∧ T.body.any (TInsn.storesHalf off) = true := by
      rw [hd0, Opnd.splits, Bool.and_eq_false_iff] at hsplits
      rcases hsplits with hshift | hshift
      · exact ⟨0, by decide, by decide, hshift, hfirst⟩
      · exact ⟨32, by decide, by decide, hshift, hsecond⟩
    -- the first byte of the half, in a state where it is not in the destination
    let s := State.segmented
    let x := s.ea (m.rebuild off)
    have hnot : ∀ o ∈ e.instr.dsts, ¬s.covers x o := by
      intro o' ho'
      rcases hi.mem_dsts ho' with rfl | rfl
      · rw [hd0]
        intro hcov
        refine State.not_covers_of_not_shiftable hshift hvsib hle hlt ?_
        rcases m with ⟨_, _, _ | _ | _, _, _⟩ | _ | _
        case baseDisp.vec => exact absurd rfl (hvsib _ _ _ _ _ _)
        all_goals exact hcov
      · exact h.not_covers hd1 _ _
    have hexec := exec_effects hlegal (h.all_plain hstraight) .blank
    refine not_framed_of_lost hnot ?_ (hframed _ _ _ (hexec s))
      (hframed _ _ _ (hexec (s.poke x (s.mem x + 1))))
    exact h.effects_eq_of_storesHalf hd0 hall hreads hstores (State.sameBut_poke _ _ _) (by simp [x])
  | _ =>
    rw [hd0] at hsplits
    cases hsplits

end Halves

/-! ## Which chains keep to the frame -/

/-- The handlers of instructions on opmask registers. -/
def RwFunc.isOpmask (h : RwFunc) : Bool := 1107 ≤ h.opcode && h.opcode ≤ 1157

/-- The instructions that leave their result in the flags. -/
def RwFunc.definesFlags : RwFunc → Bool
  | .vucomiss | .vucomisd | .vcomiss | .vcomisd => true
  | .kortestw | .kortestb | .kortestq | .kortestd | .ktestw | .ktestb | .ktestq | .ktestd => true
  | _ => false

/-- The operands for which a handler uses the stack of the application. -/
def RwFunc.disturbing : RwFunc → List (Cube Query)
  | .vpgatherdd | .vpgatherdq | .vpgatherqq | .vcvtusi2ss | .vpcmpd | .vpcmpud | .vpcmpw
  | .vpermi2q | .vpermi2w | .vpermt2d | .vpermt2q | .vpermt2w | .vpmullq | .vpscatterdd
  | .vrndscaless =>
    [[]]
  | .vcvttsd2usi | .vcvttss2usi | .vcvtusi2sd => [[isnt .quickRw]]
  | .vmovdqa32 | .vmovdqu32 => [[isnt unmasked, is (vec .ymm .d0), is (vec .ymm .s1)]]
  | .vmovdqa64 | .vmovdqu64 =>
    [[is (based .s1), isnt unmasked, is (vec .xmm .d0)],
      [isnt unmasked, is (vec .xmm .d0), is (vec .xmm .s1)],
      [is (based .s1), isnt unmasked, is (vec .ymm .d0)],
      [isnt unmasked, is (vec .ymm .d0), is (vec .ymm .s1)],
      [is (based .d0), isnt unmasked, is (vec .xmm .s1)],
      [is (based .d0), isnt unmasked, is (vec .ymm .s1)]]
  | .vmovdqu16 => [[isnt unmasked, is (mem .d0), is (vec .ymm .s1)]]
  | .vmovdqu8 =>
    [[isnt unmasked, is (vec .xmm .d0), is (vec .xmm .s1)], [isnt unmasked, is (vec .ymm .d0)]]
  | .vpandq => [[is (vec .ymm .s2)]]
  | _ => []

/-- The operands for which a handler splits a store. -/
def RwFunc.splitting : RwFunc → List (Cube Query)
  | .vmovaps | .vmovdqa32 | .vmovdqa64 | .vmovdqu16 | .vmovdqu32 | .vmovdqu64 | .vmovdqu8 =>
    [[is (mem .d0), is (vec .zmm .s1)]]
  | _ => []

/-- At every leaf the lists decide whether the chain keeps to the frame. -/
theorem disturbing_settles : ∀ h ∈ RwFunc.all, h.isOpmask = false → h.definesFlags = false →
    h.check (Leaf.every fun F T ↦
      settles surveying h.residual F false ||
      settles surveying h.residual F true &&
        (settles surveying h.disturbing F false && T.disturbs F.profile ||
        settles surveying h.disturbing F true &&
          (settles surveying h.splitting F true && T.inFrame F.profile false ||
          settles surveying h.splitting F false && T.inFrame F.profile true &&
            T.storesHalves F.profile))) = true := by
  apply RwFunc.forall_mem_all <;> decide +kernel

/-- The 256-bit `vpandq` of ymm2 and ymm3 into ymm1. -/
def andYmm : AppInstr := ⟨[.vec .ymm 1], [.opmask 0, .vec .ymm 2, .vec .ymm 3], false⟩

/-- The chain for it starts with `pushf`. -/
def andYmmChain : List Insn :=
  match RwFunc.vpandq.gen.run ⟨false, fun _ ↦ 0⟩ andYmm with
  | .chain _ _ code => code
  | _ => []

end DrAvx
