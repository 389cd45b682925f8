import DrAvx.Contract.Legality
import DrAvx.Contract.MaskTest

/-!
# What is left above a short vector

An instruction with an xmm or ymm destination clears the rest of the zmm register.  For a ymm
destination the rest is the upper half of the slot, and no chain for such an instruction writes it.
For an xmm destination the rest includes the upper half of the ymm register, which a 128-bit VEX
instruction clears; but where the register lives in a slot, or is written with a legacy instruction,
its upper half stays.

The analysis keeps track of places whose upper 128 bits are zero or the ones that the destination had
at the beginning.  So `RwFunc.zeroAbove_iff` can say exactly when nothing is left: if there was
nothing before, as far as the chain leaves it alone.
-/

set_option autoImplicit false

namespace DrAvx

open Decision Flow Function

/-! ## Zero above a width -/

/-- The upper 128 bits of the lower half of a zmm register. -/
def upperHalf (v : Val) : BitVec 128 := v.extractLsb' 128 128

theorem upperHalf_eq_iff {v v' : Val} :
    upperHalf v = upperHalf v' ↔ ∀ j, 128 ≤ j → v.getLsbD j = v'.getLsbD j := by
  constructor
  · intro h j hj
    by_cases hlt : j < 256
    · have hbit := congrArg (·.getLsbD (j - 128)) h
      have hsub : j - 128 < 128 := by omega
      simpa [upperHalf, hsub, Nat.add_sub_cancel' hj] using hbit
    · rw [BitVec.getLsbD_of_ge v j (by omega), BitVec.getLsbD_of_ge v' j (by omega)]
  · intro h
    apply BitVec.eq_of_getLsbD_eq
    intro j hj
    simpa [upperHalf, hj] using h (128 + j) (by omega)

theorem upperHalf_low_16 (v : Val) : upperHalf (low 16 v) = 0 := by
  have hzero : upperHalf (0 : Val) = 0 := by decide
  rw [← hzero, upperHalf_eq_iff]
  intro j hj
  simp [getLsbD_low, Nat.not_lt.mpr hj]

theorem upperHalf_merge {n : ℕ} (hn : n ≤ 16) (old v : Val) :
    upperHalf (merge n old v) = upperHalf old := by
  rw [upperHalf_eq_iff]
  intro j hj
  rw [getLsbD_merge, if_neg (by omega)]

/-- The emulated register has nothing but zeros above the given width. -/
def State.ZeroAbove (s : State) (w : VecWidth) (x : VReg) : Prop :=
  ∀ j, 8 * w.bytes ≤ j → (s.zmm x).getLsbD j = false

theorem State.zeroAbove_ymm {s : State} {x : VReg} : s.ZeroAbove .ymm x ↔ s.hi x = 0 := by
  have hbit (j : ℕ) (hj : 256 ≤ j) : (s.zmm x).getLsbD j = (s.hi x).getLsbD (j - 256) := by
    rw [zmm, BitVec.getLsbD_append, if_neg (by omega)]
  constructor
  · intro h
    apply BitVec.eq_of_getLsbD_eq
    intro j hj
    have hzero := h (256 + j) (by simp [VecWidth.bytes])
    rw [hbit _ (by omega), Nat.add_sub_cancel_left] at hzero
    simpa using hzero
  · intro h j hj
    rw [hbit j hj, h]
    simp

theorem State.zeroAbove_xmm {s : State} {x : VReg} :
    s.ZeroAbove .xmm x ↔ s.hi x = 0 ∧ upperHalf (s.zmmLo x) = 0 := by
  have hzero : upperHalf (0 : Val) = 0 := by decide
  have hbit (j : ℕ) (hj : j < 256) : (s.zmm x).getLsbD j = (s.zmmLo x).getLsbD j := by
    rw [zmm, BitVec.getLsbD_append, if_pos hj]
  rw [← zeroAbove_ymm, ← hzero, upperHalf_eq_iff]
  constructor
  · intro h
    refine ⟨fun j hj ↦ h j (Nat.le_trans (by decide) hj), fun j hj ↦ ?_⟩
    by_cases hlt : j < 256
    · rw [← hbit j hlt, h j hj]
      simp
    · rw [BitVec.getLsbD_of_ge _ j (by omega)]
      simp
  · rintro ⟨hhi, hlo⟩ j hj
    by_cases hlt : j < 256
    · rw [hbit j hlt, hlo j hj]
      simp
    · exact hhi j (Nat.le_of_not_lt hlt)

/-! ## Registers that are assumed to be the same, or to differ -/

/-- What is known about which roles share a register. -/
structure Aliases where
  apart : Role → Role → Bool
  alike : Role → List Role

namespace Aliases

/-- It is true of the registers. -/
structure Sound (A : Aliases) (e : Env) : Prop where
  apart : ∀ r r', A.apart r r' = true → e.vreg r ≠ e.vreg r'
  alike : ∀ r r', r' ∈ A.alike r → e.vreg r' = e.vreg r

/-- What the facts say about a template. -/
def of (T : Template) (F : Facts) : Aliases := ⟨T.apart F, F.alike⟩

theorem sound_of {c : Context} {F : Facts} {T : Template} {e : Env} (h : Emitted c F T e) :
    (of T F).Sound e :=
  ⟨fun _ _ ↦ h.vreg_ne, fun _ _ ↦ h.sat.vreg_alike rfl⟩

/-- With the assumption that two roles share a register, or that they do not. -/
def assume (A : Aliases) (r r' : Role) : Bool → Aliases
  | true =>
    ⟨A.apart, fun x ↦
      if x = r then r' :: A.alike x else if x = r' then r :: A.alike x else A.alike x⟩
  | false => ⟨fun x y ↦ A.apart x y || x == r && y == r' || x == r' && y == r, A.alike⟩

theorem Sound.assume {A : Aliases} {e : Env} (h : A.Sound e) {r r' : Role} {b : Bool}
    (hb : b = decide (e.vreg r = e.vreg r')) : (A.assume r r' b).Sound e := by
  cases b with
  | true =>
    have heq : e.vreg r = e.vreg r' := by simpa using hb.symm
    refine ⟨h.apart, fun x y hy ↦ ?_⟩
    simp only [Aliases.assume] at hy
    split_ifs at hy with hx hx'
    · rcases List.mem_cons.mp hy with rfl | hy
      · rw [hx, heq]
      · exact h.alike x y hy
    · rcases List.mem_cons.mp hy with rfl | hy
      · rw [hx', heq]
      · exact h.alike x y hy
    · exact h.alike x y hy
  | false =>
    have hne : e.vreg r ≠ e.vreg r' := by simpa using hb.symm
    refine ⟨fun x y hxy ↦ ?_, h.alike⟩
    simp only [Aliases.assume, Bool.or_eq_true, Bool.and_eq_true, beq_iff_eq] at hxy
    rcases hxy with (hxy | ⟨rfl, rfl⟩) | ⟨rfl, rfl⟩
    · exact h.apart x y hxy
    · exact hne
    · exact hne.symm

end Aliases

/-! ## The analysis -/

/-- A place that holds 256 bits: a vector register or the lower half of a slot. -/
inductive Place
  | reg (r : Role)
  | slot (r : Role)
  deriving DecidableEq

namespace Place

def get (e : Env) (s : State) : Place → Val
  | reg r => s.ymm (e.vreg r)
  | slot r => s.lo (e.vreg r)

/-- The places are known to differ. -/
def apart (A : Aliases) : Place → Place → Bool
  | reg r, reg r' | slot r, slot r' => A.apart r r'
  | _, _ => true

/-- Places that are known to be the same. -/
def alike (A : Aliases) : Place → List Place
  | reg r => (A.alike r).map reg
  | slot r => (A.alike r).map slot

/-- The place, with the register in. -/
def cell (e : Env) : Place → Bool × VReg
  | reg r => (false, e.vreg r)
  | slot r => (true, e.vreg r)

variable {A : Aliases} {e : Env} (hA : A.Sound e) {p q : Place}
include hA

theorem cell_ne (h : p.apart A q = true) : p.cell e ≠ q.cell e := by
  cases p <;> cases q <;> simp only [cell, ne_eq, Prod.mk.injEq, true_and, Bool.false_eq_true,
    Bool.true_eq_false, false_and, not_false_eq_true] <;> exact hA.apart _ _ h

theorem get_alike (h : q ∈ p.alike A) (s : State) : q.get e s = p.get e s := by
  cases p with
  | reg r =>
    obtain ⟨r', hr', rfl⟩ := List.mem_map.mp h
    simp only [get, hA.alike _ _ hr']
  | slot r =>
    obtain ⟨r', hr', rfl⟩ := List.mem_map.mp h
    simp only [get, hA.alike _ _ hr']

omit hA in
theorem get_eq_of_cell_eq (h : p.cell e = q.cell e) (s : State) : p.get e s = q.get e s := by
  cases p <;> cases q <;> simp_all [cell, get]

end Place

/-- Places with what is known of their upper halves: that it is zero, or that it is the one of the
destination at the beginning. -/
abbrev Uppers := List (Place × Bool)

/-- The operand is an xmm register. -/
def TOpnd.isXmm (P : Profile) : TOpnd → Bool
  | .v .xmm _ => true
  | .app p => match P p with
    | .vec .xmm _ => true
    | _ => false
  | _ => false

/-- The place whose upper half is replaced by a write to the operand. -/
def TOpnd.replaces (P : Profile) (legacy : Bool) : TOpnd → Option Place
  | .slot r false b => if b ≤ 16 then none else some (.slot r)
  | o => if legacy then none else (o.vecRole P).map .reg

/-- The instruction leaves the upper halves of vector registers. -/
def TInsn.legacySse (i : TInsn) : Bool := (⟨i.op, [], []⟩ : Insn).legacySse

/-- A write to a vector register replaces its upper half. -/
theorem TOpnd.exists_replaces {e : Env} {o : TOpnd} {legacy : Bool} (hlegacy : legacy = false)
    {w : VecWidth} {x : VReg} (h : o.inst e = .vec w x) :
    ∃ r, o.replaces e.instr.cls legacy = some (.reg r) ∧ e.vreg r = x := by
  obtain ⟨r, hr, hx⟩ := vecRole_of_inst h
  refine ⟨r, ?_, hx⟩
  unfold replaces
  split
  · cases hr
  · rw [hlegacy, hr]
    rfl

/-- The operand whose upper half is replaced is a vector register. -/
theorem TOpnd.inst_of_replaces {e : Env} {o : TOpnd} {legacy : Bool} (hxmm : o.isXmm e.instr.cls = true)
    {p : Place} (h : o.replaces e.instr.cls legacy = some p) :
    ∃ r, p = .reg r ∧ legacy = false ∧ o.inst e = .vec .xmm (e.vreg r) := by
  unfold isXmm at hxmm
  split at hxmm
  next r =>
    cases legacy with
    | true => cases h
    | false =>
      cases h
      exact ⟨r, rfl, rfl, rfl⟩
  next q =>
    split at hxmm
    next high hcls =>
      cases legacy with
      | true => cases h
      | false =>
        simp only [replaces, vecRole, hcls] at h
        cases h
        exact ⟨.op q, rfl, rfl, AppInstr.opnd_of_cls_vec hcls⟩
    · cases hxmm
  · cases hxmm

namespace Uppers

/-- What is known of a place. -/
def lookup (A : Aliases) (a : Uppers) (p : Place) : List Bool :=
  [true, false].filter fun k ↦ (p.alike A).any fun q ↦ a.contains (q, k)

/-- What is known of the upper half of an operand that is read. -/
def read (A : Aliases) (P : Profile) (a : Uppers) : TOpnd → List Bool
  | .v .ymm r => lookup A a (.reg r)
  | .slot r false 32 => lookup A a (.slot r)
  | .slot _ false 16 => [false]
  | .app p => match P p with
    | .vec .ymm _ => lookup A a (.reg (.op p))
    | .vec .xmm _ => [false]
    | _ => []
  | .v .xmm _ => [false]
  | _ => []

/-- The places whose upper halves the instruction replaces. -/
def replaced (P : Profile) (i : TInsn) : List Place :=
  i.dsts.filterMap (TOpnd.replaces P i.legacySse)

/-- What is known of the upper half that it puts there. -/
def brought (A : Aliases) (P : Profile) (i : TInsn) (a : Uppers) : List Bool :=
  match i.dsts, i.srcs, i.op with
  | [.slot _ false 32], [o], .vmovdqu => read A P a o
  | [.v .ymm _], [o], .vmovdqu => read A P a o
  | [o], srcs, op => if o.isXmm P && op.computes srcs.length && !op.keepsDst then [false] else []
  | _, _, _ => []

def transfer (A : Aliases) (P : Profile) (i : TInsn) (a : Uppers) : Uppers :=
  let new := brought A P i a
  let places := replaced P i
  places.flatMap (fun p ↦ new.map fun k ↦ (p, k)) ++
    a.filter fun q ↦ new.contains q.2 || places.all (q.1.apart A)

/-- The analysis of a template. -/
def analysis (A : Aliases) (P : Profile) : Analysis TInsn Uppers where
  ctl := TInsn.ctl
  needs _ _ := true
  transfer := transfer A P
  le a b := b.all (· ∈ a)

/-- What the facts say of a state, where the upper half of the destination was `u`. -/
def Holds (e : Env) (u : BitVec 128) (a : Uppers) (s : State) : Prop :=
  ∀ q ∈ a, upperHalf (q.1.get e s) = if q.2 then u else 0

/-! ## Soundness -/

section Sound

variable {c : Context} {F : Facts} {T : Template} {e : Env} (h : Emitted c F T e)
variable {A : Aliases} (hA : A.Sound e) {E : Ext} {u : BitVec 128} {s : State} {a : Uppers}
variable {i : TInsn}

include h

/-- An upper half that is not replaced stays. -/
theorem upperHalf_effect {q : Place} (hq : ∀ p ∈ replaced F.profile i, q.cell e ≠ p.cell e) :
    upperHalf (q.get e ((i.inst e).effect E s)) = upperHalf (q.get e s) := by
  cases q with
  | reg r =>
    refine Insn.effect_frame (f := fun s ↦ upperHalf (s.ymm (e.vreg r))) (fun _ _ ↦ rfl)
      fun o ho s' v ↦ ?_
    cases o with
    | vec w x =>
      obtain ⟨o, ho, hinst⟩ := List.mem_map.mp ho
      have hlegacy : (i.inst e).legacySse = i.legacySse := rfl
      by_cases hx : e.vreg r = x
      · by_cases hsse : i.legacySse = true
        · simp only [State.write, hlegacy, hsse, if_true, ← hx, update_self]
          exact upperHalf_merge le_rfl _ _
        · obtain ⟨r', hr', hx'⟩ := TOpnd.exists_replaces (Bool.eq_false_iff.mpr hsse) hinst
          refine absurd ?_ (hq (.reg r') (List.mem_filterMap.mpr ⟨o, ho, h.profile ▸ hr'⟩))
          simp [Place.cell, hx, hx']
      · simp [State.write, hx]
    | zslot r upper b => cases upper <;> rfl
    | _ => rfl
  | slot r =>
    refine Insn.effect_frame (f := fun s ↦ upperHalf (s.lo (e.vreg r))) (fun _ _ ↦ rfl)
      fun o ho s' v ↦ ?_
    cases o with
    | zslot x upper b =>
      cases upper with
      | true => rfl
      | false =>
        obtain ⟨o, ho', hinst⟩ := List.mem_map.mp ho
        obtain ⟨r', rfl, rfl⟩ := TOpnd.eq_slot_of_inst h.ordinary hinst
        by_cases hx : e.vreg r = e.vreg r'
        · by_cases hb : b ≤ 16
          · simp only [State.write, hx, update_self]
            exact upperHalf_merge hb _ _
          · refine absurd ?_ (hq (.slot r') (List.mem_filterMap.mpr ⟨_, ho', if_neg hb⟩))
            simp [Place.cell, hx]
        · simp [State.write, hx]
    | _ => rfl

include hA

omit h in
theorem Holds.lookup (hs : Holds e u a s) {p : Place} {k : Bool} (hk : k ∈ lookup A a p) :
    upperHalf (p.get e s) = if k then u else 0 := by
  simp only [Uppers.lookup, List.mem_filter, List.any_eq_true, List.contains_iff_mem] at hk
  obtain ⟨-, q, hq, hmem⟩ := hk
  rw [← Place.get_alike hA hq]
  exact hs (q, k) hmem

theorem Holds.read (hs : Holds e u a s) {o : TOpnd} {k : Bool} (hk : k ∈ read A F.profile a o)
    (n : ℕ) : upperHalf (s.read n (o.inst e)) = if k then u else 0 := by
  have hopnd (p : Pos) (w : VecWidth) (high : Bool) (hp : F.profile p = .vec w high) :
      e.instr.opnd p = .vec w (e.vreg (.op p)) := by
    rw [h.profile] at hp
    exact AppInstr.opnd_of_cls_vec hp
  unfold Uppers.read at hk
  split at hk
  next r =>
    have hv : s.read n ((TOpnd.v .ymm r).inst e) = s.ymm (e.vreg r) := by
      rw [TOpnd.inst, State.read, VecWidth.bytes, low_32]
    rw [hv]
    exact hs.lookup (p := .reg r) hA hk
  next r =>
    have hv : s.read n ((TOpnd.slot r false 32).inst e) = s.lo (e.vreg r) := by
      simp only [TOpnd.inst, State.read, Bool.false_eq_true, if_false, low_32]
    rw [hv]
    exact hs.lookup (p := .slot r) hA hk
  next r =>
    rw [List.mem_singleton.mp hk, TOpnd.inst, State.read, if_neg Bool.false_ne_true]
    exact upperHalf_low_16 _
  next p =>
    split at hk
    next high hp =>
      have hv : s.read n ((TOpnd.app p).inst e) = s.ymm (e.vreg (.op p)) := by
        rw [TOpnd.inst, hopnd p _ _ hp, State.read, VecWidth.bytes, low_32]
      rw [hv]
      exact hs.lookup (p := .reg (.op p)) hA hk
    next high hp =>
      rw [List.mem_singleton.mp hk, TOpnd.inst, hopnd p _ _ hp, State.read]
      exact upperHalf_low_16 _
    · cases hk
  next r =>
    rw [List.mem_singleton.mp hk, TOpnd.inst, State.read, if_neg Bool.false_ne_true]
    exact upperHalf_low_16 _
  · cases hk

/-- What is put into a place whose upper half is replaced. -/
theorem Holds.brought (hs : Holds e u a s) {p : Place} (hp : p ∈ replaced F.profile i) {k : Bool}
    (hk : k ∈ brought A F.profile i a) :
    upperHalf (p.get e ((i.inst e).effect E s)) = if k then u else 0 := by
  obtain ⟨op, dsts, srcs⟩ := i
  unfold Uppers.brought at hk
  split at hk
  next r o hdsts hsrcs hop =>
    dsimp only at hdsts hsrcs hop
    subst hdsts hsrcs hop
    obtain rfl : p = .slot r := by
      simpa [replaced, TOpnd.replaces] using hp
    have hv : (Place.slot r).get e ((TInsn.inst e ⟨.vmovdqu, [.slot r false 32], [o]⟩).effect E s) =
        merge 32 (s.lo (e.vreg r)) (s.read 4 (o.inst e)) := update_self ..
    rw [hv, merge_32]
    exact hs.read h hA hk 4
  next r o hdsts hsrcs hop =>
    dsimp only at hdsts hsrcs hop
    subst hdsts hsrcs hop
    obtain rfl : p = .reg r := by
      simpa [replaced, TOpnd.replaces, TOpnd.vecRole, TInsn.legacySse, Insn.legacySse] using hp
    have hv : (Place.reg r).get e ((TInsn.inst e ⟨.vmovdqu, [.v .ymm r], [o]⟩).effect E s) =
        low 32 (s.read 4 (o.inst e)) := update_self ..
    rw [hv, low_32]
    exact hs.read h hA hk 4
  next o hdsts _ _ =>
    split_ifs at hk with hxmm
    swap
    · cases hk
    dsimp only at hdsts
    subst hdsts
    simp only [Bool.and_eq_true, Bool.not_eq_true'] at hxmm
    obtain ⟨⟨hxmm, hcomputes⟩, hkeeps⟩ := hxmm
    rw [h.profile] at hxmm hp
    obtain ⟨o', ho', hreplaces⟩ := List.mem_filterMap.mp hp
    obtain rfl := List.mem_singleton.mp ho'
    obtain ⟨r, rfl, hlegacy, hinst⟩ := TOpnd.inst_of_replaces hxmm hreplaces
    rw [List.mem_singleton.mp hk]
    have hdsts : (TInsn.inst e ⟨op, [o'], srcs⟩).dsts = [.vec .xmm (e.vreg r)] := by
      simp [TInsn.inst, hinst]
    obtain ⟨v, hv⟩ := Insn.exists_effect_ymm hdsts hlegacy (by simpa [TInsn.inst] using hcomputes)
      hkeeps E s
    rw [Place.get, hv, VecWidth.bytes, upperHalf_low_16, if_neg Bool.false_ne_true]
  · cases hk

theorem Holds.transfer (hs : Holds e u a s) :
    Holds e u (transfer A F.profile i a) ((i.inst e).effect E s) := by
  rintro ⟨q, k⟩ hq
  simp only [Uppers.transfer, List.mem_append, List.mem_flatMap, List.mem_map, Prod.mk.injEq,
    List.mem_filter, Bool.or_eq_true, List.contains_iff_mem, List.all_eq_true] at hq
  rcases hq with ⟨p, hp, k', hk', rfl, rfl⟩ | ⟨hmem, hq⟩
  · exact hs.brought h hA hp hk'
  -- the place may be one of those whose upper halves are replaced
  by_cases hcell : ∃ p ∈ replaced F.profile i, q.cell e = p.cell e
  · obtain ⟨p, hp, heq⟩ := hcell
    rcases hq with hk | hapart
    · rw [Place.get_eq_of_cell_eq heq]
      exact hs.brought h hA hp hk
    · exact absurd heq (Place.cell_ne hA (hapart p hp))
  · rw [upperHalf_effect h fun p hp heq ↦ hcell ⟨p, hp, heq⟩]
    exact hs (q, k) hmem

theorem preserves (s₀ : State) :
    Preserves (analysis A F.profile) e E T.body s₀ (Holds e u) where
  weaken := fun a b s hle hs q hq ↦ hs q (by simpa using List.all_eq_true.mp hle q hq)
  step := fun _ _ _ _ _ _ _ _ hs ↦ hs.transfer h hA
  branch := fun _ _ _ _ a _ hs ↦ ⟨a, rfl, hs⟩

end Sound

end Uppers

/-! ## Templates -/

/-- Where the lower half of the destination is. -/
def Profile.dstPlace (P : Profile) : Place :=
  if (P .d0).high then .slot (.op .d0) else .reg (.op .d0)

/-- The comparison with zero of a mask of the given size is known to succeed, or to fail. -/
def zeroTest (sz : GprSize) (z : Bool) (sz' : GprSize) (v : ℤ) : Option Bool :=
  if sz' = sz ∧ v = 0 then some z else none

namespace Template

variable (T : Template) (A : Aliases) (P : Profile)

/-- At the end, the upper half of the destination is what it was, or zero. -/
def leaves (k : Bool) : Bool :=
  ((Uppers.analysis A P).run (fun a b ↦ a.filter (· ∈ b)) 1 [(P.dstPlace, true)] T.body).any
    fun a ↦ (a.lookup A P.dstPlace).contains k

/-- The same, where it is known whether the mask is zero. -/
def leavesIf (sz : GprSize) (z k : Bool) : Bool :=
  (((Uppers.analysis A P).prod (MaskTest.analysis T.gprs.length (zeroTest sz z))).run
    (fun a b ↦ (a.1.filter (· ∈ b.1), a.2.join b.2)) 1 ([(P.dstPlace, true)], ⟨none, none⟩)
    T.body).any fun a ↦ (a.1.lookup A P.dstPlace).contains k

/-- The template writes no upper half of a slot. -/
def sparesHi : Bool :=
  T.body.all fun i ↦ i.dsts.all fun o ↦ match o with
    | .slot _ true _ => false
    | _ => true

end Template

/-- A scratch register that has nothing to avoid is the first of the pool. -/
theorem Template.vreg_t_zero {T : Template} {i : AppInstr} {e : Env} (he : T.env? i = some e)
    (hvecs : T.vecs.head? = some []) : e.vreg (.t 0) = 10 := by
  obtain ⟨avoids, hvecs⟩ := List.head?_eq_some_iff.mp hvecs
  simp only [env?, Option.bind_eq_some_iff, Option.map_eq_some_iff, hvecs, findVecs] at he
  obtain ⟨vecs, ⟨r, hr, hrest⟩, gprs, -, rfl⟩ := he
  obtain rfl : (10 : VReg) = r := Option.some.inj hr
  obtain ⟨-, htake, -⟩ := findVecs_spec hrest
  obtain ⟨rest, rfl⟩ : ∃ rest, vecs = 10 :: rest := by
    cases vecs with
    | nil => cases htake
    | cons x rest => exact ⟨rest, by simpa using htake⟩
  rfl

namespace Emitted

variable {c : Context} {F : Facts} {T : Template} {e : Env} (h : Emitted c F T e)
variable {A : Aliases} (hA : A.Sound e) {E : Ext} {s t : State} {k : Bool}
include h

theorem get_dstPlace (s : State) : (Profile.dstPlace F.profile).get e s = s.zmmLo (e.vreg (.op .d0)) := by
  have hhigh : (e.vreg (.op .d0)).high = (F.profile .d0).high := by
    rw [Env.high_vreg h.vecs, h.profile]
    rfl
  rw [State.zmmLo, hhigh, Profile.dstPlace]
  split
  · rfl
  · rfl

theorem holds_dstPlace (s : State) : Uppers.Holds e (upperHalf (s.zmmLo (e.vreg (.op .d0))))
    [(Profile.dstPlace F.profile, true)] s := by
  intro q hq
  rw [List.mem_singleton.mp hq, h.get_dstPlace]
  rfl

theorem hi_of_sparesHi (hspares : T.sparesHi = true)
    (hexec : Exec E (T.body.map (TInsn.inst e)) s t) (x : VReg) : t.hi x = s.hi x := by
  refine hexec.frame (f := fun s ↦ s.hi x) fun i hi s ↦ Insn.effect_hi fun b hb ↦ ?_
  obtain ⟨j, hj, rfl⟩ := List.mem_map.mp hi
  obtain ⟨o, ho, hinst⟩ := List.mem_map.mp hb
  obtain ⟨r, rfl, -⟩ := TOpnd.eq_slot_of_inst h.ordinary hinst
  cases List.all_eq_true.mp (List.all_eq_true.mp hspares j hj) _ ho

include hA

theorem upperHalf_of_leaves (hleaves : T.leaves A F.profile k = true)
    (hexec : Exec E (T.body.map (TInsn.inst e)) s t) :
    upperHalf (t.zmmLo (e.vreg (.op .d0))) =
      if k then upperHalf (s.zmmLo (e.vreg (.op .d0))) else 0 := by
  obtain ⟨a, inv, hscan, hk⟩ := Analysis.exists_scan_of_any hleaves
  have hend := (Uppers.preserves h hA s).of_exec rfl h.opnd_ne_label hscan hexec
    (h.holds_dstPlace s)
  rw [← h.get_dstPlace]
  exact hend.lookup hA (List.contains_iff_mem.mp hk)

theorem upperHalf_of_leavesIf {sz : GprSize} {z : Bool}
    (hleaves : T.leavesIf A F.profile sz z k = true)
    (hexec : Exec E (T.body.map (TInsn.inst e)) s t)
    (hz : z = (low sz.bytes ((s.kslot (e.instr.opnd .s0).kreg).setWidth 256) == 0)) :
    upperHalf (t.zmmLo (e.vreg (.op .d0))) =
      if k then upperHalf (s.zmmLo (e.vreg (.op .d0))) else 0 := by
  obtain ⟨a, inv, hscan, hk⟩ := Analysis.exists_scan_of_any hleaves
  have htells : MaskTest.Tells (s.kslot (e.instr.opnd .s0).kreg) (zeroTest sz z) := by
    intro sz' v z' h
    unfold zeroTest at h
    split_ifs at h with hsz
    obtain ⟨rfl, rfl⟩ := hsz
    have hzero : low sz'.bytes (BitVec.ofInt 256 0) = 0 := by simp [low]
    rw [hzero, ← hz]
    exact Option.some.inj h
  have hpreserves := (Uppers.preserves (u := upperHalf (s.zmmLo (e.vreg (.op .d0)))) h hA s).prod
    (MaskTest.preserves (E := E) h htells s) rfl
  have hend := hpreserves.of_exec rfl h.opnd_ne_label hscan hexec
    ⟨h.holds_dstPlace s, rfl, (fun _ _ h ↦ by cases h), (fun _ h ↦ by cases h)⟩
  rw [← h.get_dstPlace]
  exact hend.1.lookup hA (List.contains_iff_mem.mp hk)

end Emitted

/-! ## Which chains leave something -/

/-- The operands for which the upper half of an xmm destination stays. -/
def RwFunc.keeping : RwFunc → List (Cube Query)
  | .vmovss | .vmovsd | .vunpcklps | .vunpcklpd | .vunpckhps | .vunpckhpd | .vmovaps | .vsqrtss
  | .vsqrtsd | .vpackuswb | .vpaddq | .vpsrad | .vpslld | .vpsllq | .vpsubw | .vpsubd | .vpsubq
  | .vpaddw | .vpaddd | .vpsrldq | .vpmovsxwd | .vpmovsxdq | .vpmovzxbw | .vpmovzxwd
  | .vpmovzxdq | .vpmulld | .vpbroadcastw | .vpbroadcastq | .vcvtusi2ss | .vmovdqa64
  | .vmovdqu16 | .vmovdqu64 | .vmovdqu8 | .vpandd | .vpandq | .vpermi2w | .vpermt2w | .vporq =>
    [[is (upper .xmm .d0)]]
  | .vcvtusi2sd => [[]]
  | .vextractf64x2 => [[is (upper .ymm .s2)]]
  | .vextracti32x4 =>
    [[is (upper .xmm .d0), is (upper .ymm .s2)], [is (.isSpill .d0 0), is (upper .ymm .s2)]]
  | _ => []

/-- The operands for which it stays if the mask is zero. -/
def RwFunc.keepingIfZero : RwFunc → List (Cube Query)
  | .vmovdqa64 | .vmovdqu64 => [[is (based .s1), isnt unmasked], [isnt unmasked, is (vec .xmm .s1)]]
  | .vmovdqu8 => [[isnt unmasked, is (vec .xmm .s1)]]
  | _ => []

/-- The part of the mask that a handler tests. -/
def RwFunc.maskSize : RwFunc → GprSize
  | .vmovdqu8 => .w
  | _ => .d

/-- The upper half of an xmm destination stays. -/
def RwFunc.Keeps (h : RwFunc) (c : Context) (i : AppInstr) (s : State) : Prop :=
  i.Matches c h.keeping ∨ i.Matches c h.keepingIfZero ∧
    low h.maskSize.bytes ((s.kslot (i.opnd .s0).kreg).setWidth 256) = 0

/-- The lists decide what becomes of the upper half of an xmm destination. -/
def RwFunc.foresees (h : RwFunc) (F : Facts) (T : Template) : Bool :=
  let A := Aliases.of T F
  settles surveying h.keeping F false && T.leaves A F.profile true ||
    settles surveying h.keeping F true &&
      (settles surveying h.keepingIfZero F true && T.leaves A F.profile false ||
        settles surveying h.keepingIfZero F false &&
          T.leavesIf A F.profile h.maskSize true true &&
          T.leavesIf A F.profile h.maskSize false false) ||
    -- the scratch register may be the destination itself
    T.vecs.head? == some [] && settles surveying h.keepingIfZero F true &&
      [true, false].all fun b ↦ (F.learn (.isSpill .d0 0) b).all fun F' ↦
        settles surveying h.keeping F' (!b) &&
          T.leaves (A.assume (.op .d0) (.t 0) b) F.profile b

/-- At every leaf the chain cannot run, or it leaves what the lists say. -/
theorem keeping_settles : ∀ h ∈ RwFunc.all, h.check (Leaf.every fun F T ↦
    match F.profile .d0 with
    | .vec .xmm _ => T.isStraight && settles surveying h.residual F false ||
        T.sparesHi && h.foresees F T
    | .vec .ymm _ => T.isStraight && settles surveying h.residual F false || T.sparesHi
    | _ => true) = true := by
  apply RwFunc.forall_mem_all <;> decide +kernel

section Foresees

variable {h : RwFunc} {c : Context} {F : Facts} {T : Template} {e : Env}

theorem AppInstr.answer_isSpill {p : Pos} {high : Bool} (hp : e.instr.cls p = .vec .xmm high) :
    Query.answer c e.instr (.isSpill p 0) = decide (e.vreg (.op p) = 10) := by
  have hopnd := opnd_of_cls_vec hp
  rw [Query.answer, hopnd, Bool.eq_iff_iff, beq_iff_eq, decide_eq_true_eq]
  simp

/-- What becomes of the upper half of the destination. -/
theorem Emitted.upperHalf_of_foresees (hemitted : Emitted c F T e) {high : Bool}
    (hd : F.profile .d0 = .vec .xmm high) (hforesees : h.foresees F T = true) {E : Ext}
    {s t : State} (hexec : Exec E (T.body.map (TInsn.inst e)) s t) :
    (h.Keeps c e.instr s → upperHalf (t.zmmLo (e.vreg (.op .d0))) =
      upperHalf (s.zmmLo (e.vreg (.op .d0)))) ∧
    (¬h.Keeps c e.instr s → upperHalf (t.zmmLo (e.vreg (.op .d0))) = 0) := by
  have hA := Aliases.sound_of hemitted
  simp only [RwFunc.foresees, Bool.or_eq_true, Bool.and_eq_true, List.all_eq_true, beq_iff_eq]
    at hforesees
  rcases hforesees with (⟨hlisted, hleaves⟩ | ⟨hunlisted, hcases⟩) | ⟨⟨hvecs, hzero⟩, hsplit⟩
  · have hkeeps : h.Keeps c e.instr s := .inl (matches_of_settles hlisted hemitted.sat)
    exact ⟨fun _ ↦ hemitted.upperHalf_of_leaves hA hleaves hexec, fun hn ↦ absurd hkeeps hn⟩
  · rcases hcases with ⟨hzero, hleaves⟩ | ⟨⟨hzero, hkept⟩, hcleared⟩
    · have hkeeps : ¬h.Keeps c e.instr s := fun hk ↦
        hk.elim (not_matches_of_settles hunlisted hemitted.sat)
          fun hk ↦ not_matches_of_settles hzero hemitted.sat hk.1
      exact ⟨fun hk ↦ absurd hk hkeeps, fun _ ↦ hemitted.upperHalf_of_leaves hA hleaves hexec⟩
    · have hlisted := matches_of_settles hzero hemitted.sat
      constructor
      · rintro (hk | ⟨-, hmask⟩)
        · exact absurd hk (not_matches_of_settles hunlisted hemitted.sat)
        · exact hemitted.upperHalf_of_leavesIf hA hkept hexec (by simp [hmask])
      · intro hk
        have hmask := fun hmask ↦ hk (.inr ⟨hlisted, hmask⟩)
        exact hemitted.upperHalf_of_leavesIf hA hcleared hexec (beq_false_of_ne hmask).symm
  · -- the answer to whether the destination is the scratch register
    let b := decide (e.vreg (.op .d0) = 10)
    have hb : Query.answer c e.instr (.isSpill .d0 0) = b :=
      AppInstr.answer_isSpill (hemitted.profile ▸ hd)
    obtain ⟨F', hlearn, hF'⟩ := hemitted.sat.exists_learn (.isSpill .d0 0)
    have hcase := hsplit b (by cases b <;> simp)
    rw [← hb, hlearn, Option.all_some, Bool.and_eq_true, hb] at hcase
    have hsound : ((Aliases.of T F).assume (.op .d0) (.t 0) b).Sound e :=
      hA.assume (by rw [Template.vreg_t_zero hemitted.env hvecs])
    have hend := hemitted.upperHalf_of_leaves hsound hcase.2 hexec
    have hiff : h.Keeps c e.instr s ↔ b = true := by
      rw [RwFunc.Keeps, or_iff_left fun hk ↦ not_matches_of_settles hzero hemitted.sat hk.1,
        matches_iff_of_settles hcase.1 hF', Bool.not_eq_false']
    rw [hiff]
    exact ⟨fun hk ↦ hend.trans (if_pos hk), fun hk ↦ hend.trans (if_neg hk)⟩

end Foresees

/-- The 256-bit or of ymm2 and ymm3 into ymm1. -/
def orYmm : AppInstr := ⟨[.vec .ymm 1], [.opmask 0, .vec .ymm 2, .vec .ymm 3], false⟩

end DrAvx
