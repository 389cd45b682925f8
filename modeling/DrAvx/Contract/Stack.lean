import DrAvx.Contract.MaskTest
import DrAvx.Machine.Poke

/-!
# Chains that write below the stack pointer

Many chains save flags and registers on the stack of the application, below the stack pointer.  What
was in memory there is lost, although a function of the application may keep its locals there.

To see that a byte is lost, take two runs from states that differ in this byte only.  As long as no
memory is read the runs differ in nothing else, and once the byte is written they are the same.  So
the analysis here keeps track of how far the stack pointer has moved, and of whether the byte has
been written.
-/

set_option autoImplicit false

namespace DrAvx

open Flow Function

/-! ## Arithmetic on the stack pointer -/

/-- Which offsets lie in a range of bytes. -/
theorem toNat_sub_lt {x : BitVec 64} {k d : ℤ} {b : ℕ} (hle : 0 ≤ k - d) (hlt : k - d < b)
    (hb : b ≤ 64) : (x + BitVec.ofInt 64 k - (x + BitVec.ofInt 64 d)).toNat < b := by
  have h : x + BitVec.ofInt 64 k - (x + BitVec.ofInt 64 d) = BitVec.ofInt 64 (k - d) := by
    rw [Int.sub_eq_add_neg, BitVec.ofInt_add, BitVec.ofInt_neg]
    grind
  rw [h, BitVec.toNat_ofInt]
  omega

/-! ## The analysis -/

/-- What is known of two runs from states that differ in a byte. -/
inductive Poked
  /-- they may still differ in it; the stack pointer has moved by so much, if that is known -/
  | pending (moved : Option ℤ)
  /-- they differ in nothing any more -/
  | merged
  deriving DecidableEq

/-- The operand is not in memory, for operands of the given classes. -/
def TOpnd.sparesMem (P : Profile) : TOpnd → Bool
  | .app p => !Test.isMem.holds (P p)
  | .stray _ _ _ | .kaddr _ _ | .mem _ _ _ | .memBase _ _ _ | .scratch _ _ _ _ _ => false
  | _ => true

namespace Poked

/-- The bytes that the instruction stores: how far from the stack pointer, and how many. -/
def stores? (i : TInsn) : Option (ℤ × ℕ) :=
  match i.dsts, i.srcs, i.op with
  | [.g .q (.fixed .rsp), .scratch (.fixed .rsp) none _ d b], [_, _], .push => some (d, b)
  | [.g .q (.fixed .rsp), .scratch (.fixed .rsp) none _ d b], [_], .pushf => some (d, b)
  | [.scratch (.fixed .rsp) none _ d b], [_], .movSt => some (d, b)
  | [.scratch (.fixed .rsp) none _ d b], [_], .vmovdqu => some (d, b)
  | _, _, _ => none

/-- The role is not taken by the stack pointer. -/
def sparesRsp : GRole → Bool
  | .fixed r => r != .rsp
  | .t _ => true
  | _ => false

/-- How far the instruction moves the stack pointer, if that is known. -/
def moves? (P : Profile) (i : TInsn) : Option ℤ :=
  match i.dsts, i.srcs, i.op with
  | [.g .q (.fixed .rsp), .scratch _ _ _ _ _], [_, .g .q (.fixed .rsp)], .push => some (-8)
  | [.g .q (.fixed .rsp), .scratch _ _ _ _ _], [.g .q (.fixed .rsp)], .pushf => some (-8)
  | [.g .q (.fixed .rsp)], [.imm v _, .g .q (.fixed .rsp)], .sub => some (-v)
  | _, _, _ => if (i.dsts.filterMap (TOpnd.gprRole P)).all sparesRsp then some 0 else none

/-- The instruction stores the byte at the given distance from where the stack pointer was. -/
def hits (target : ℤ) (moved : Option ℤ) (i : TInsn) : Bool :=
  match moved, stores? i with
  | some n, some (d, b) => 0 ≤ target - (n + d) && target - (n + d) < b && decide (b ≤ 64)
  | _, _ => false

def transfer (P : Profile) (target : ℤ) (i : TInsn) : Poked → Poked
  | merged => merged
  | pending moved =>
    if hits target moved i then merged
    else pending (moved.bind fun n ↦ (moves? P i).map (n + ·))

def needs (P : Profile) (i : TInsn) : Poked → Bool
  | merged => true
  | pending _ => i.srcs.all (TOpnd.sparesMem P) && !i.op.keepsDst

def le (a b : Poked) : Bool := a == b || b == pending none

def join (a b : Poked) : Poked := if a = b then a else pending none

/-- The analysis of a template for the byte at the given distance from the stack pointer. -/
def analysis (P : Profile) (target : ℤ) : Analysis TInsn Poked where
  ctl := TInsn.ctl
  needs := needs P
  transfer := transfer P target
  le := le

/-- What the facts say of two states, if the stack pointer was `sp` at the beginning. -/
def Holds (sp : BitVec 64) (target : ℤ) (s s' : State) : Poked → Prop
  | pending moved => s.SameBut (sp + BitVec.ofInt 64 target) s' ∧
      ∀ n, moved = some n → s.gpr .rsp = sp + BitVec.ofInt 64 n
  | merged => s' = s

/-! ## Soundness -/

section Sound

variable {c : Context} {F : Facts} {T : Template} {e : Env} (h : Emitted c F T e)
variable {E : Ext} {s s' : State} {sp : BitVec 64} {target : ℤ} {a b : Poked} {i : TInsn}

theorem Holds.weaken (hle : a.le b = true) (hs : a.Holds sp target s s') :
    b.Holds sp target s s' := by
  simp only [le, Bool.or_eq_true, beq_iff_eq] at hle
  rcases hle with rfl | rfl
  · exact hs
  · cases a with
    | pending moved => exact ⟨hs.1, fun n hn ↦ by cases hn⟩
    | merged =>
      obtain rfl : s' = s := hs
      exact ⟨.refl _ _, fun n hn ↦ by cases hn⟩

theorem Holds.flags (hs : a.Holds sp target s s') : s'.flags = s.flags := by
  cases a with
  | pending moved => rw [hs.1.rest]; rfl
  | merged => rw [show s' = s from hs]

/-- What is stored, and where. -/
theorem exists_of_stores {d : ℤ} {b : ℕ} (hi : stores? i = some (d, b)) :
    ∃ o r v, (.mem o r b, v) ∈ (i.inst e).dsts.zip ((i.inst e).outputs E s) ∧
      s.ea r = s.gpr .rsp + BitVec.ofInt 64 d := by
  obtain ⟨op, dsts, srcs⟩ := i
  have hea (sc : ℕ) : s.ea (.baseDisp none (some .rsp) .none sc d) =
      s.gpr .rsp + BitVec.ofInt 64 d := by
    simp [State.ea, State.seg, State.base]
  unfold stores? at hi
  split at hi <;> cases hi
  next sc x y hdsts hsrcs hop =>
    dsimp only at hdsts hsrcs hop
    subst hdsts hsrcs hop
    exact ⟨_, _, _, .tail _ (.head _), hea sc⟩
  next sc x hdsts hsrcs hop =>
    dsimp only at hdsts hsrcs hop
    subst hdsts hsrcs hop
    exact ⟨_, _, _, .tail _ (.head _), hea sc⟩
  next sc x hdsts hsrcs hop =>
    dsimp only at hdsts hsrcs hop
    subst hdsts hsrcs hop
    exact ⟨_, _, _, .head _, hea sc⟩
  next sc x hdsts hsrcs hop =>
    dsimp only at hdsts hsrcs hop
    subst hdsts hsrcs hop
    exact ⟨_, _, _, .head _, hea sc⟩

include h

/-- Only an operand in memory becomes one. -/
theorem isMem_inst {o : TOpnd} (ho : o.sparesMem F.profile = true) : (o.inst e).isMem = false := by
  cases o with
  | app p =>
    rw [TOpnd.sparesMem, h.profile, Bool.not_eq_true'] at ho
    obtain ⟨-, -, hp⟩ | ⟨o, -, hc, hp⟩ := e.instr.cls_eq p
    · rw [TOpnd.inst, hp]
      rfl
    · rw [hc] at ho
      rw [TOpnd.inst, hp]
      cases o with
      | mem o m b => rcases m with ⟨_, _, _ | _ | _, _, _⟩ | _ | _ <;> cases ho
      | _ => rfl
  | g sz r =>
    rw [TOpnd.inst]
    split <;> rfl
  | stray r off b => cases ho
  | kaddr p b => cases ho
  | mem p off b => cases ho
  | memBase p off b => cases ho
  | scratch base index sc d b => cases ho
  | _ => rfl

theorem isMem_of_needs {moved : Option ℤ} (hneeds : needs F.profile i (pending moved) = true) :
    ∀ o ∈ (i.inst e).inputs, o.isMem = false := by
  simp only [needs, Bool.and_eq_true, Bool.not_eq_true', List.all_eq_true] at hneeds
  obtain ⟨hsrcs, hkeeps⟩ := hneeds
  have hreads := Insn.readsDst_eq_false (i := i.inst e) hkeeps
  intro o ho
  rw [Insn.inputs, hreads] at ho
  obtain ⟨o', ho', rfl⟩ := List.mem_map.mp ho
  exact isMem_inst h (hsrcs o' ho')

/-- A scratch register is not the stack pointer. -/
theorem gpr_ne_rsp {r : GRole} (hr : sparesRsp r = true) : e.gpr r ≠ some .rsp := by
  cases r with
  | fixed r =>
    rintro hg
    cases hg
    cases hr
  | t n => exact fun hg ↦ Template.gprs_ne_rsp h.env (List.mem_of_getElem? hg)
  | _ => cases hr

/-- The stack pointer moves as expected. -/
theorem rsp_of_moves {d : ℤ} (hi : moves? F.profile i = some d) :
    ((i.inst e).effect E s).gpr .rsp = s.gpr .rsp + BitVec.ofInt 64 d := by
  have hpush : (low 8 ((s.gpr .rsp).setWidth 256) - 8).setWidth 64 =
      s.gpr .rsp + BitVec.ofInt 64 (-8) := by
    rw [setWidth_sub_64, setWidth_low_8]
    simp [BitVec.sub_eq_add_neg]
  unfold moves? at hi
  obtain ⟨op, dsts, srcs⟩ := i
  split at hi
  next b ix sc d' n o hdsts hsrcs hop =>
    cases hi
    dsimp only at hdsts hsrcs hop
    subst hdsts hsrcs hop
    have heffect : ((TInsn.inst e ⟨.push, [.g .q (.fixed .rsp), .scratch b ix sc d' n],
        [o, .g .q (.fixed .rsp)]⟩).effect E s).gpr .rsp =
        (low 8 ((s.gpr .rsp).setWidth 256) - 8).setWidth 64 := update_self Gpr.rsp _ s.gpr
    rw [heffect, hpush]
  next b ix sc d' n hdsts hsrcs hop =>
    cases hi
    dsimp only at hdsts hsrcs hop
    subst hdsts hsrcs hop
    have heffect : ((TInsn.inst e ⟨.pushf, [.g .q (.fixed .rsp), .scratch b ix sc d' n],
        [.g .q (.fixed .rsp)]⟩).effect E s).gpr .rsp =
        (low 8 ((s.gpr .rsp).setWidth 256) - 8).setWidth 64 := update_self Gpr.rsp _ s.gpr
    rw [heffect, hpush]
  next v b hdsts hsrcs hop =>
    cases hi
    dsimp only at hdsts hsrcs hop
    subst hdsts hsrcs hop
    have heffect : ((TInsn.inst e ⟨.sub, [.g .q (.fixed .rsp)],
        [.imm v b, .g .q (.fixed .rsp)]⟩).effect E s).gpr .rsp =
        (low 8 (low 8 (low 8 ((s.gpr .rsp).setWidth 256)) - low 8 (BitVec.ofInt 256 v))).setWidth 64 :=
      update_self Gpr.rsp _ s.gpr
    rw [heffect, setWidth_low_8, setWidth_sub_64, setWidth_low_8, setWidth_low_8, setWidth_low_8,
      setWidth_ofInt_64, BitVec.ofInt_neg]
    simp [BitVec.sub_eq_add_neg]
  · split_ifs at hi with hspares
    cases hi
    rw [Insn.effect_gpr fun sz hsz ↦ ?_]
    · simp
    · obtain ⟨o, ho, hinst⟩ := List.mem_map.mp hsz
      obtain ⟨r, hr, hg⟩ := TOpnd.gprRole_of_inst hinst
      rw [← h.profile] at hr
      exact gpr_ne_rsp h
        (List.all_eq_true.mp hspares r (List.mem_filterMap.mpr ⟨o, ho, hr⟩)) hg

theorem Holds.transfer (hneeds : a.needs F.profile i = true) (hs : a.Holds sp target s s') :
    (a.transfer F.profile target i).Holds sp target ((i.inst e).effect E s)
      ((i.inst e).effect E s') := by
  cases a with
  | merged =>
    obtain rfl : s' = s := hs
    rfl
  | pending moved =>
    have hinputs := isMem_of_needs h hneeds
    obtain ⟨hsame, hrsp⟩ := hs
    rw [Poked.transfer]
    split
    next hhits =>
      unfold hits at hhits
      split at hhits
      next n d b hstores =>
        simp only [Bool.and_eq_true, decide_eq_true_eq] at hhits
        obtain ⟨o, r, v, hmem, hea⟩ := exists_of_stores (e := e) (E := E) (s := s) hstores
        refine hsame.effect_eq hinputs hmem ?_
        rw [hea, hrsp n rfl, BitVec.add_assoc, ← BitVec.ofInt_add]
        exact toNat_sub_lt hhits.1.1 hhits.1.2 hhits.2
      · cases hhits
    · refine ⟨hsame.effect hinputs, fun m hm ↦ ?_⟩
      obtain ⟨n, hn, hmoves⟩ := Option.bind_eq_some_iff.mp hm
      obtain ⟨d, hd, rfl⟩ := Option.map_eq_some_iff.mp hmoves
      rw [rsp_of_moves h hd, hrsp n hn, BitVec.add_assoc, ← BitVec.ofInt_add]

theorem tracks (s₀ : State) :
    Tracks (analysis F.profile target) e E T.body s₀ fun a s s' ↦ a.Holds sp target s s' where
  flags := fun _ _ _ hs ↦ hs.flags
  weaken := fun _ _ _ _ hle hs ↦ hs.weaken hle
  step := fun _ _ _ _ _ _ _ hneeds _ hs ↦ hs.transfer h hneeds
  branch := fun _ _ _ _ a _ _ hs ↦ ⟨a, rfl, hs⟩

end Sound

end Poked

/-! ## Bytes that are lost -/

/-- The chain writes the byte at the given distance from the stack pointer, before it reads any
memory. -/
def Template.loses (T : Template) (P : Profile) (target : ℤ) : Bool :=
  (Poked.analysis P target).run Poked.join 1 (.pending (some 0)) T.body == some .merged

/-- The outcomes of comparisons of the mask 1. -/
def oneTells (sz : GprSize) (v : ℤ) : Option Bool :=
  some (low sz.bytes 1 == low sz.bytes (BitVec.ofInt 256 v))

/-- The chain does so if the mask is 1. -/
def Template.losesMasked (T : Template) (P : Profile) (target : ℤ) : Bool :=
  (((Poked.analysis P target).prod (MaskTest.analysis T.gprs.length oneTells)).run
    (fun a b ↦ (a.1.join b.1, a.2.join b.2)) 1 (.pending (some 0), ⟨none, none⟩) T.body).any
    (·.1 == .merged)

section Loses

variable {c : Context} {F : Facts} {T : Template} {e : Env} (h : Emitted c F T e)
variable {E : Ext} {s s' t t' : State} {target : ℤ}
include h

/-- What the byte was cannot be told afterwards. -/
theorem Emitted.eq_of_loses (hloses : T.loses F.profile target = true)
    (hs : s.SameBut (s.gpr .rsp + BitVec.ofInt 64 target) s')
    (ht : Exec E (T.body.map (TInsn.inst e)) s t) (ht' : Exec E (T.body.map (TInsn.inst e)) s' t') :
    t' = t := by
  obtain ⟨inv, hscan⟩ := Analysis.exists_scan_of_run (beq_iff_eq.mp hloses)
  obtain ⟨u, hu, hmerged⟩ := (Poked.tracks h s).of_exec rfl h.opnd_ne_label hscan ht
    ⟨hs, fun n hn ↦ by cases hn; simp⟩
  exact (ht'.unique hu).trans hmerged

theorem Emitted.eq_of_losesMasked (hloses : T.losesMasked F.profile target = true)
    (hmask : s.kslot (e.instr.opnd .s0).kreg = 1)
    (hs : s.SameBut (s.gpr .rsp + BitVec.ofInt 64 target) s')
    (ht : Exec E (T.body.map (TInsn.inst e)) s t) (ht' : Exec E (T.body.map (TInsn.inst e)) s' t') :
    t' = t := by
  obtain ⟨b, inv, hscan, hb⟩ := Analysis.exists_scan_of_any hloses
  have htells : MaskTest.Tells 1 oneTells := fun sz v z hz ↦ Option.some.inj hz
  obtain ⟨u, hu, hmerged, -⟩ := ((Poked.tracks h s).prod (MaskTest.preserves h htells s) rfl).of_exec
    rfl h.opnd_ne_label hscan ht
    ⟨⟨hs, fun n hn ↦ by cases hn; simp⟩, hmask, nofun, nofun⟩
  rw [beq_iff_eq.mp hb] at hmerged
  exact (ht'.unique hu).trans hmerged

end Loses

end DrAvx
