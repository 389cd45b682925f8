import DrAvx.Machine.Exec

/-!
# What an instruction leaves alone

An instruction changes what its destinations name, and the flags.  `Insn.effect_frame` says so for
any part of the state that is not affected by writes to the destinations; the lemmas after it are
its instances for the parts that matter.
-/

set_option autoImplicit false

namespace DrAvx

open Function

namespace Insn

variable {β : Type} {f : State → β} {E : Ext} {i : Insn} {s : State}

theorem writeAll_frame {legacy : Bool} {p : State} {ows : List (Opnd × Val)}
    (h : ∀ ov ∈ ows, ∀ s, f (s.write legacy p ov.1 ov.2) = f s) (s : State) :
    f (writeAll legacy p ows s) = f s := by
  induction ows with
  | nil => rfl
  | cons ov rest ih =>
    rw [writeAll, h ov List.mem_cons_self]
    exact ih fun ov' hov' ↦ h ov' (List.mem_cons_of_mem _ hov')

/-- The effect of an instruction on a part of the state that no write to its destinations
affects. -/
theorem effect_frame (hflags : ∀ s fl, f { s with flags := fl } = f s)
    (h : ∀ o ∈ i.dsts, ∀ s' v, f (s'.write i.legacySse s o v) = f s') :
    f (i.effect E s) = f s := by
  have hall : f (writeAll i.legacySse s (i.dsts.zip (i.outputs E s)) s) = f s :=
    writeAll_frame (fun ov hov s' ↦ h ov.1 (List.of_mem_zip hov).1 s' ov.2) s
  simp only [effect]
  split
  · rw [hflags, hall]
  · exact hall

theorem effect_ymm {x : VReg} (h : ∀ w, Opnd.vec w x ∉ i.dsts) :
    (i.effect E s).ymm x = s.ymm x := by
  refine effect_frame (f := fun s ↦ s.ymm x) (fun _ _ ↦ rfl) fun o ho s' v ↦ ?_
  cases o with
  | vec w r =>
    have hne : x ≠ r := fun heq ↦ h w (heq ▸ ho)
    exact update_of_ne hne _ _
  | zslot r upper b => cases upper <;> rfl
  | _ => rfl

theorem effect_lo {x : VReg} (h : ∀ b, Opnd.zslot x false b ∉ i.dsts) :
    (i.effect E s).lo x = s.lo x := by
  refine effect_frame (f := fun s ↦ s.lo x) (fun _ _ ↦ rfl) fun o ho s' v ↦ ?_
  cases o with
  | zslot r upper b =>
    cases upper with
    | false =>
      have hne : x ≠ r := fun heq ↦ h b (heq ▸ ho)
      exact update_of_ne hne _ _
    | true => rfl
  | _ => rfl

theorem effect_hi {x : VReg} (h : ∀ b, Opnd.zslot x true b ∉ i.dsts) :
    (i.effect E s).hi x = s.hi x := by
  refine effect_frame (f := fun s ↦ s.hi x) (fun _ _ ↦ rfl) fun o ho s' v ↦ ?_
  cases o with
  | zslot r upper b =>
    cases upper with
    | false => rfl
    | true =>
      have hne : x ≠ r := fun heq ↦ h b (heq ▸ ho)
      exact update_of_ne hne _ _
  | _ => rfl

theorem effect_gpr {r : Gpr} (h : ∀ sz, Opnd.gpr sz r ∉ i.dsts) :
    (i.effect E s).gpr r = s.gpr r := by
  refine effect_frame (f := fun s ↦ s.gpr r) (fun _ _ ↦ rfl) fun o ho s' v ↦ ?_
  cases o with
  | gpr sz q =>
    have hne : r ≠ q := fun heq ↦ h sz (heq ▸ ho)
    exact update_of_ne hne _ _
  | zslot r upper b => cases upper <;> rfl
  | _ => rfl

theorem effect_kslot {k : KReg} (h : ∀ b, Opnd.kslot k b ∉ i.dsts) :
    (i.effect E s).kslot k = s.kslot k := by
  refine effect_frame (f := fun s ↦ s.kslot k) (fun _ _ ↦ rfl) fun o ho s' v ↦ ?_
  cases o with
  | kslot q b =>
    have hne : k ≠ q := fun heq ↦ h b (heq ▸ ho)
    exact update_of_ne hne _ _
  | zslot r upper b => cases upper <;> rfl
  | _ => rfl

/-- A byte of memory that no destination covers. -/
theorem effect_mem {a : BitVec 64} (h : ∀ o m b, Opnd.mem o m b ∈ i.dsts →
    ¬(a - s.ea m).toNat < b) : (i.effect E s).mem a = s.mem a := by
  refine effect_frame (f := fun s ↦ s.mem a) (fun _ _ ↦ rfl) fun o ho s' v ↦ ?_
  cases o with
  | mem o m b => exact if_neg (h o m b ho)
  | zslot r upper b => cases upper <;> rfl
  | _ => rfl

theorem effect_flags (h : i.op.setsFlags = false) : (i.effect E s).flags = s.flags := by
  have hall : (writeAll i.legacySse s (i.dsts.zip (i.outputs E s)) s).flags = s.flags :=
    writeAll_frame (f := State.flags) (fun ov _ s' ↦ by
      obtain ⟨o, v⟩ := ov
      cases o with
      | zslot r upper b => cases upper <;> rfl
      | _ => rfl) s
  rw [effect, h]
  exact hall

theorem effect_segBase : (i.effect E s).segBase = s.segBase := by
  refine effect_frame (f := State.segBase) (fun _ _ ↦ rfl) fun o _ s' v ↦ ?_
  cases o with
  | zslot r upper b => cases upper <;> rfl
  | _ => rfl

/-- Labels and jumps have no effect. -/
theorem effect_control (h : i.op = .label ∨ i.op = .jmp ∨ ∃ c, i.op = .jcc c) :
    i.effect E s = s := by
  have houtputs : i.outputs E s = [] := by
    rcases h with h | h | ⟨c, h⟩ <;> rw [outputs, h] <;> rfl
  have hflags : i.op.setsFlags = false := by
    rcases h with h | h | ⟨c, h⟩ <;> rw [h] <;> rfl
  simp only [effect, houtputs, hflags, List.zip_nil_right, writeAll]
  rfl

/-- A vector register saved in a slot. -/
theorem effect_saveYmm (E : Ext) (s : State) (x y : VReg) :
    (⟨.vmovdqu, [.zslot x false 32], [.vec .ymm y]⟩ : Insn).effect E s =
      { s with lo := update s.lo x (s.ymm y) } := by
  have h : (⟨.vmovdqu, [.zslot x false 32], [.vec .ymm y]⟩ : Insn).effect E s =
      { s with lo := update s.lo x (merge 32 (s.lo x) (low 32 (s.ymm y))) } := rfl
  rw [h, merge_32, low_32]

/-- A vector register loaded from a slot. -/
theorem effect_restoreYmm (E : Ext) (s : State) (x y : VReg) :
    (⟨.vmovdqu, [.vec .ymm x], [.zslot y false 32]⟩ : Insn).effect E s =
      { s with ymm := update s.ymm x (s.lo y) } := by
  have h : (⟨.vmovdqu, [.vec .ymm x], [.zslot y false 32]⟩ : Insn).effect E s =
      { s with ymm := update s.ymm x (low 32 (low 32 (s.lo y))) } := rfl
  rw [h, low_32, low_32]

end Insn

/-! ## Instructions that compute something -/

/-- The opcode computes something from so many inputs. -/
def Op.computes : Op → ℕ → Bool
  | .label, _ | .jmp, _ | .jcc _, _ | .nop, _ | .clc, _ | .stc, _ | .cmp, _ | .test, _ | .bt, _
  | .ucomisd, _ | .ucomiss, _ | .vcomisd, _ | .vcomiss, _ | .vucomisd, _ | .vucomiss, _ => false
  | .movLd, n | .movSt, n | .movImm, n | .movzx, n | .lea, n | .movupd, n
  | .vmovdqu, n | .vmovaps, n | .vmovapd, n | .vmovups, n | .vmovupd, n | .vmovntps, n
  | .vmovntpd, n | .pushf, n | .inc, n | .not, n | .movd, n | .vmovd, n | .vmovq, n
  | .vpbroadcastb, n | .vpbroadcastw, n | .vpbroadcastd, n | .vbroadcastss, n
  | .vpbroadcastq, n => n == 1
  | .movss, n | .movsd, n | .vmovss, n => n == 1 || n == 2
  | .pinsrd, n | .pinsrq, n | .vpinsrd, n | .vpinsrq, n | .vinserti128, n | .vpblendvb, n => n == 3
  | .vpgatherdd, n | .vpgatherdq, n | .vpgatherqq, n => n == 4
  | .push, n | .pop, n | .popf, n | .add, n | .sub, n | .and, n | .or, n | .xor, n | .pxor, n
  | .pslld, n | .psrld, n
  | .imul, n | .btr, n | .bts, n | .shl, n | .shr, n | .pextrq, n | .vpextrq, n | .vpextrd, n
  | .vpextrb, n | .extractps, n | .vpaddw, n | .vpaddd, n | .vpaddq, n | .vpsubb, n | .vpsubw, n
  | .vpsubd, n | .vpsubq, n | .vpmulld, n | .vpand, n | .vpandn, n | .vpor, n | .vpxor, n
  | .vpcmpeqw, n | .vpcmpeqd, n | .vpcmpeqq, n | .vpcmpgtd, n | .vpcmpgtq, n
  | .vextracti128, n | .vextractf128, n | .vpermps, n => n == 2
  | _, _ => true

theorem Op.values_ne_nil {op : Op} {vs : List Val} (h : op.computes vs.length = true) (E : Ext)
    (n : ℕ) (byImm : Bool) (fl : Flags) : op.values E n byImm vs fl ≠ [] := by
  rcases vs with _ | ⟨a, _ | ⟨b, _ | ⟨c, _ | ⟨d, _ | ⟨x, vs⟩⟩⟩⟩⟩ <;> cases op <;>
    first
    | exact List.cons_ne_nil _ _
    | cases h
      done
    | cases byImm <;> exact List.cons_ne_nil _ _

/-- Instructions that may read their destination. -/
def Op.keepsDst : Op → Bool
  | .movss | .movsd | .cvtsi2sd | .cvtsi2ss | .pinsrd | .pinsrq
  | .vpgatherdd | .vpgatherdq | .vpgatherqq => true
  | _ => false

theorem Insn.keepsDst_of_readsDst {i : Insn} (h : i.readsDst = true) : i.op.keepsDst = true := by
  unfold readsDst at h
  split at h <;> first | exact absurd h Bool.false_ne_true | simp [Op.keepsDst, *]

theorem Insn.readsDst_eq_false {i : Insn} (h : i.op.keepsDst = false) : i.readsDst = false := by
  by_contra hreads
  rw [keepsDst_of_readsDst (by simpa using hreads)] at h
  cases h

/-- An instruction that computes something has a value for its first destination. -/
theorem Insn.exists_outputs {i : Insn} (hcomputes : i.op.computes i.srcs.length = true)
    (hkeeps : i.op.keepsDst = false) (E : Ext) (s : State) : ∃ v vs, i.outputs E s = v :: vs := by
  have hlength : (i.inputVals s).length = i.srcs.length := by
    simp [inputVals, inputs, readsDst_eq_false hkeeps]
  cases houtputs : i.outputs E s with
  | nil => exact absurd houtputs (Op.values_ne_nil (hlength ▸ hcomputes) E _ _ _)
  | cons v vs => exact ⟨v, vs, rfl⟩

/-- A VEX instruction with a single vector register as its destination writes all of it. -/
theorem Insn.exists_effect_ymm {i : Insn} {w : VecWidth} {x : VReg} (hdsts : i.dsts = [.vec w x])
    (hlegacy : i.legacySse = false) (hcomputes : i.op.computes i.srcs.length = true)
    (hkeeps : i.op.keepsDst = false) (E : Ext) (s : State) :
    ∃ v, (i.effect E s).ymm x = low w.bytes v := by
  obtain ⟨v, vs, houtputs⟩ := exists_outputs hcomputes hkeeps E s
  refine ⟨v, ?_⟩
  have hymm : (writeAll i.legacySse s (i.dsts.zip (i.outputs E s)) s).ymm x = low w.bytes v := by
    rw [hdsts, houtputs, hlegacy]
    exact update_self ..
  simp only [effect]
  split
  · exact hymm
  · exact hymm

/-! ## Runs -/

/-- What every instruction preserves, a run preserves. -/
theorem Exec.invariant {P : State → Prop} {E : Ext} {code : List Insn} {s t : State}
    (h : ∀ i ∈ code, ∀ s, P s → P (i.effect E s)) (hexec : Exec E code s t) (hs : P s) : P t := by
  suffices hreach : ∀ c, StateTransition.Reaches (next E code) (0, s) c → P c.2 from hreach _ hexec
  intro c hc
  induction hc with
  | refl => exact hs
  | @tail c c' _ hnext ih =>
    rw [Option.mem_def, next] at hnext
    split at hnext
    · cases hnext
    next i hi =>
      split at hnext
      case isFalse => cases hnext
      case isTrue =>
        obtain ⟨pc, -, rfl⟩ := Option.map_eq_some_iff.mp hnext
        exact h i (List.mem_of_getElem? hi) _ ih

/-- What every instruction leaves alone, a run leaves alone. -/
theorem Exec.frame {β : Type} {f : State → β} {E : Ext} {code : List Insn} {s t : State}
    (h : ∀ i ∈ code, ∀ s, f (i.effect E s) = f s) (hexec : Exec E code s t) : f t = f s :=
  hexec.invariant (P := fun u ↦ f u = f s) (fun i hi u hu ↦ (h i hi u).trans hu) rfl

/-! ## Straight code -/

/-- A run through code without jumps executes every instruction. -/
theorem Exec.all_legal {E : Ext} {code : List Insn} {s t : State}
    (hjump : ∀ i ∈ code, ∀ fl, i.jumpsTo fl = none) (h : Exec E code s t) :
    ∀ i ∈ code, i.legal = true := by
  suffices hreach : ∀ c, StateTransition.Reaches (next E code) (0, s) c →
      ∀ i ∈ code.take c.1, i.legal = true by
    have hall := hreach _ h
    rwa [List.take_length] at hall
  intro c hc
  induction hc with
  | refl => exact fun i hi ↦ by cases hi
  | @tail c c' _ hnext ih =>
    obtain ⟨pc, s'⟩ := c
    rw [Option.mem_def, next] at hnext
    cases hi : code[pc]? with
    | none => simp [hi] at hnext
    | some i =>
      simp only [hi] at hnext
      split at hnext
      case isFalse => cases hnext
      case isTrue hlegal =>
        rw [nextPc, hjump i (List.mem_of_getElem? hi)] at hnext
        obtain rfl := (Option.some.inj hnext).symm
        intro j hj
        rw [List.take_add_one, hi, List.mem_append] at hj
        rcases hj with hj | hj
        · exact ih j hj
        · rwa [List.mem_singleton.mp hj]

end DrAvx
