import Mathlib.Data.List.Find
import DrAvx.Rewrite.Symbolic

/-!
# Renaming registers

The rewriter knows vector registers by three things: whether they are among the upper sixteen,
whether they are in the pool of scratch registers, and which operands name the same one.  A
permutation that keeps the upper sixteen as a set and the scratch registers that come into play
pointwise, a `Renaming`, is not noticed by it: the same questions get the same answers
(`answer_like`), the same scratch registers are found (`findVecs_like`), and the template comes out
with its registers renamed.

So what holds for some registers holds for all that can be renamed to them, and a few
representatives are enough (`exists_renaming3`).
-/

set_option autoImplicit false

namespace DrAvx

/-- A permutation of the vector registers that keeps the given ones and the upper sixteen. -/
structure Renaming (fixed : List VReg) where
  perm : Equiv.Perm VReg
  high : ∀ r, (perm r).high = r.high
  keeps : ∀ r ∈ fixed, perm r = r

namespace Renaming

variable {fixed : List VReg}

instance : CoeFun (Renaming fixed) fun _ ↦ VReg → VReg := ⟨fun π ↦ π.perm⟩

variable (π : Renaming fixed)

theorem injective : Function.Injective π := π.perm.injective

@[simp] theorem apply_eq_iff {a b : VReg} : π a = π b ↔ a = b := π.injective.eq_iff

@[simp] theorem high_apply (r : VReg) : (π r).high = r.high := π.high r

theorem apply_eq_fixed {r : VReg} (hr : r ∈ fixed) {a : VReg} : π a = r ↔ a = r := by
  constructor
  · intro h
    rw [← π.keeps r hr] at h
    exact π.injective h
  · rintro rfl
    exact π.keeps a hr

/-- Nothing is renamed. -/
def refl (fixed : List VReg) : Renaming fixed := ⟨Equiv.refl VReg, fun _ ↦ rfl, fun _ _ ↦ rfl⟩

/-- Two registers change places first. -/
def swap {a b : VReg} (hhigh : a.high = b.high) (ha : a ∉ fixed) (hb : b ∉ fixed) :
    Renaming fixed where
  perm := (Equiv.swap a b).trans π.perm
  high r := by
    rw [Equiv.trans_apply, π.high, Equiv.swap_apply_def]
    split
    · rw [‹r = a›, hhigh]
    · split
      · rw [‹r = b›, hhigh]
      · rfl
  keeps r hr := by
    have hra : r ≠ a := fun h ↦ ha (h ▸ hr)
    have hrb : r ≠ b := fun h ↦ hb (h ▸ hr)
    rw [Equiv.trans_apply, Equiv.swap_apply_of_ne_of_ne hra hrb, π.keeps r hr]

theorem beq_fixed {x : VReg} (hx : x ∈ fixed) (r : VReg) : (π r == x) = (r == x) := by
  rw [Bool.eq_iff_iff, beq_iff_eq, beq_iff_eq]
  exact π.apply_eq_fixed hx

theorem beq_apply (r a : VReg) : (π r == π a) = (r == a) := by
  rw [Bool.eq_iff_iff, beq_iff_eq, beq_iff_eq]
  exact π.apply_eq_iff

end Renaming

/-! ## Representatives -/

section Representatives

variable {fixed : List VReg} (hfixed : ∀ r ∈ fixed, r ∈ spillPool)

/-- Registers that can stand for one more register besides those in the list: one of the list, one
that is fixed, or register `k` or `16 + k` for another one. -/
def canon (fixed : List VReg) (k : ℕ) (xs : List VReg) : List VReg :=
  (xs ++ fixed ++ [Fin.ofNat 32 k, Fin.ofNat 32 (16 + k)]).dedup

theorem canon_representatives : ∀ k < 10, VReg.high (Fin.ofNat 32 k) = false ∧
    VReg.high (Fin.ofNat 32 (16 + k)) = true ∧ Fin.ofNat 32 k ∉ spillPool ∧
      Fin.ofNat 32 (16 + k) ∉ spillPool := by
  decide

include hfixed

/-- A renaming can be changed so as to take in one more register. -/
theorem Renaming.exists_extend (π : Renaming fixed) {k : ℕ} (hk : k < 10) {xs : List VReg}
    (hlo : Fin.ofNat 32 k ∉ xs) (hhi : Fin.ofNat 32 (16 + k) ∉ xs) (b : VReg) :
    ∃ (π' : Renaming fixed), ∃ b' ∈ canon fixed k xs, π' b' = b ∧ ∀ x ∈ xs, π' x = π x := by
  obtain ⟨b₀, rfl⟩ := π.perm.surjective b
  by_cases hxs : b₀ ∈ xs
  · exact ⟨π, b₀, by simp [canon, hxs], rfl, fun _ _ ↦ rfl⟩
  by_cases hb₀ : b₀ ∈ fixed
  · exact ⟨π, b₀, by simp [canon, hb₀], rfl, fun _ _ ↦ rfl⟩
  -- it changes places with the representative on its side of sixteen
  have hswap (t : VReg) (hhigh : t.high = b₀.high) (ht : t ∉ spillPool) (htxs : t ∉ xs)
      (htc : t ∈ canon fixed k xs) : ∃ (π' : Renaming fixed), ∃ b' ∈ canon fixed k xs,
        π' b' = π b₀ ∧ ∀ x ∈ xs, π' x = π x := by
    refine ⟨π.swap hhigh (fun h ↦ ht (hfixed t h)) hb₀, t, htc, ?_, fun x hx ↦ ?_⟩
    · exact congrArg π.perm (Equiv.swap_apply_left t b₀)
    · exact congrArg π.perm (Equiv.swap_apply_of_ne_of_ne (fun h ↦ htxs (h ▸ hx))
        fun h ↦ hxs (h ▸ hx))
  obtain ⟨hlohigh, hhihigh, hlopool, hhipool⟩ := canon_representatives k hk
  cases hb : b₀.high with
  | false => exact hswap _ (by rw [hlohigh, hb]) hlopool hlo (by simp [canon])
  | true => exact hswap _ (by rw [hhihigh, hb]) hhipool hhi (by simp [canon])

/-- One register, up to renaming. -/
theorem exists_renaming1 (d : VReg) :
    ∃ (π : Renaming fixed), ∃ d' ∈ canon fixed 0 [], π d' = d := by
  obtain ⟨π, d', hd', hd, -⟩ := (Renaming.refl fixed).exists_extend hfixed (k := 0) (by decide)
    List.not_mem_nil List.not_mem_nil d
  exact ⟨π, d', hd', hd⟩

/-- The representatives for one more register are not among those before. -/
theorem notMem_canon {k : ℕ} {xs : List VReg} {x : VReg} (hx : x ∈ canon fixed k xs) {m : ℕ}
    (hkm : k < m) (hm : m < 10) (hlo : Fin.ofNat 32 m ∉ xs) (hhi : Fin.ofNat 32 (16 + m) ∉ xs) :
    Fin.ofNat 32 m ≠ x ∧ Fin.ofNat 32 (16 + m) ≠ x := by
  obtain ⟨-, -, hlopool, hhipool⟩ := canon_representatives m hm
  simp only [canon, List.mem_dedup, List.mem_append, List.mem_cons, List.not_mem_nil,
    or_false] at hx
  rcases hx with (hx | hx) | rfl | rfl
  · exact ⟨fun h ↦ hlo (h ▸ hx), fun h ↦ hhi (h ▸ hx)⟩
  · exact ⟨fun h ↦ hlopool (h ▸ hfixed x hx), fun h ↦ hhipool (h ▸ hfixed x hx)⟩
  · constructor <;> simp only [ne_eq, Fin.ext_iff, Fin.val_ofNat] <;> omega
  · constructor <;> simp only [ne_eq, Fin.ext_iff, Fin.val_ofNat] <;> omega

/-- Two registers, up to renaming. -/
theorem exists_renaming2 (d a : VReg) : ∃ (π : Renaming fixed), ∃ d' ∈ canon fixed 0 [],
    ∃ a' ∈ canon fixed 1 [d'], π d' = d ∧ π a' = a := by
  obtain ⟨π, d', hd', rfl⟩ := exists_renaming1 hfixed d
  obtain ⟨hlo, hhi⟩ := notMem_canon hfixed hd' Nat.one_pos (by decide) List.not_mem_nil
    List.not_mem_nil
  obtain ⟨π', a', ha', ha, hkeep⟩ := π.exists_extend hfixed (k := 1) (by decide)
    (List.not_mem_cons_of_ne_of_not_mem hlo List.not_mem_nil)
    (List.not_mem_cons_of_ne_of_not_mem hhi List.not_mem_nil) a
  exact ⟨π', d', hd', a', ha', hkeep d' (by simp), ha⟩

/-- Three registers, up to renaming. -/
theorem exists_renaming3 (d a b : VReg) : ∃ (π : Renaming fixed), ∃ d' ∈ canon fixed 0 [],
    ∃ a' ∈ canon fixed 1 [d'], ∃ b' ∈ canon fixed 2 [d', a'], π d' = d ∧ π a' = a ∧ π b' = b := by
  obtain ⟨π, d', hd', a', ha', rfl, rfl⟩ := exists_renaming2 hfixed d a
  obtain ⟨hlo, hhi⟩ := notMem_canon hfixed hd' (m := 2) (by decide) (by decide) List.not_mem_nil
    List.not_mem_nil
  obtain ⟨hlo', hhi'⟩ := notMem_canon hfixed ha' (m := 2) (by decide) (by decide)
    (by simpa using hlo) (by simpa using hhi)
  obtain ⟨π', b', hb', hb, hkeep⟩ := π.exists_extend hfixed (k := 2) (by decide)
    (List.not_mem_cons_of_ne_of_not_mem hlo (List.not_mem_cons_of_ne_of_not_mem hlo' List.not_mem_nil))
    (List.not_mem_cons_of_ne_of_not_mem hhi (List.not_mem_cons_of_ne_of_not_mem hhi' List.not_mem_nil))
    b
  exact ⟨π', d', hd', a', ha', b', hb', hkeep d' (by simp), hkeep a' (by simp), hb⟩

end Representatives

/-! ## Representatives besides scratch registers -/

theorem mem_canon_nil {k : ℕ} {xs : List VReg} {b : VReg} :
    b ∈ canon [] k xs ↔ b ∈ xs ∨ b = Fin.ofNat 32 k ∨ b = Fin.ofNat 32 (16 + k) := by
  simp [canon]

/-- Different registers of the pool, taken for the first ones. -/
theorem Renaming.exists_scratch {ts : List VReg} (hts : ts.Nodup) (hpool : ∀ t ∈ ts, t ∈ spillPool) :
    ∃ π : Renaming [], (spillPool.take ts.length).map π = ts := by
  induction ts using List.reverseRecOn with
  | nil => exact ⟨.refl [], rfl⟩
  | append_singleton ts t ih =>
    have hlen : ts.length < spillPool.length := by
      have hle := (List.subperm_of_subset hts hpool).length_le
      rwa [List.length_append, List.length_singleton] at hle
    rw [← List.concat_eq_append, List.nodup_concat] at hts
    obtain ⟨π, hπ⟩ := ih hts.2 fun r hr ↦ hpool r (List.mem_append_left _ hr)
    obtain ⟨x, rfl⟩ := π.perm.surjective t
    -- the next register of the pool changes places with the one that is renamed to the last
    have hnext := List.getElem_mem hlen
    have hhigh : (spillPool[ts.length]).high = x.high := by
      rw [← π.high_apply x, not_high_of_mem_spillPool hnext,
        not_high_of_mem_spillPool (hpool _ (by simp))]
    refine ⟨π.swap hhigh List.not_mem_nil List.not_mem_nil, ?_⟩
    rw [List.length_append, List.length_singleton, List.take_succ_eq_append_getElem hlen,
      List.map_append]
    refine congrArg₂ _ ((List.map_congr_left fun q hq ↦ ?_).trans hπ) ?_
    · have hqx : q ≠ x := by
        rintro rfl
        exact hts.1 (hπ ▸ List.mem_map_of_mem hq)
      have hqn : q ≠ spillPool[ts.length] := by
        have hnodup : spillPool.Nodup := by decide
        rintro rfl
        exact (List.disjoint_take_drop hnodup le_rfl) hq (List.mem_drop_iff_getElem.mpr ⟨0, by simpa using hlen, rfl⟩)
      exact congrArg π.perm (Equiv.swap_apply_of_ne_of_ne hqn hqx)
    · exact congrArg (fun r ↦ [π.perm r]) (Equiv.swap_apply_left _ x)

section Moving

variable {n : ℕ}

/-- One more register besides those in the list and the scratch registers. -/
theorem Renaming.exists_extend_scratch (π : Renaming []) {k : ℕ} (hk : k < 10) {xs : List VReg}
    (hlo : Fin.ofNat 32 k ∉ xs) (hhi : Fin.ofNat 32 (16 + k) ∉ xs) {b : VReg}
    (hb : b ∉ (spillPool.take n).map π) : ∃ (π' : Renaming []), ∃ b' ∈ canon [] k xs, π' b' = b ∧
      (spillPool.take n).map π' = (spillPool.take n).map π ∧ ∀ x ∈ xs, π' x = π x := by
  obtain ⟨-, -, hlopool, hhipool⟩ := canon_representatives k hk
  have hnotMem {r : VReg} (hr : r ∉ spillPool) (hxs : r ∉ xs) : r ∉ spillPool.take n ++ xs := by
    rw [List.mem_append]
    exact not_or.mpr ⟨fun h ↦ hr (List.mem_of_mem_take h), hxs⟩
  obtain ⟨π', b', hb', rfl, hkeep⟩ := π.exists_extend (fun _ h ↦ absurd h List.not_mem_nil) hk
    (hnotMem hlopool hlo) (hnotMem hhipool hhi) b
  have htake : (spillPool.take n).map π' = (spillPool.take n).map π :=
    List.map_congr_left fun r hr ↦ hkeep r (List.mem_append_left _ hr)
  refine ⟨π', b', ?_, rfl, htake, fun x hx ↦ hkeep x (List.mem_append_right _ hx)⟩
  rw [mem_canon_nil, List.mem_append] at hb'
  rw [mem_canon_nil]
  rcases hb' with (hmem | hmem) | hmem
  · rw [← htake] at hb
    exact absurd (List.mem_map_of_mem hmem) hb
  · exact .inl hmem
  · exact .inr hmem

variable {ts : List VReg} (hts : ts.Nodup) (hpool : ∀ t ∈ ts, t ∈ spillPool)
include hts hpool

/-- One register besides scratch registers. -/
theorem exists_moving1 {d : VReg} (hd : d ∉ ts) :
    ∃ (π : Renaming []), ∃ d' ∈ canon [] 0 [], (spillPool.take ts.length).map π = ts ∧ π d' = d := by
  obtain ⟨π, hπ⟩ := Renaming.exists_scratch hts hpool
  rw [← hπ] at hd
  obtain ⟨π', d', hd', hd, htake, -⟩ := π.exists_extend_scratch (k := 0) (by decide)
    List.not_mem_nil List.not_mem_nil hd
  exact ⟨π', d', hd', htake.trans hπ, hd⟩

/-- Two registers besides scratch registers. -/
theorem exists_moving2 {d a : VReg} (hd : d ∉ ts) (ha : a ∉ ts) :
    ∃ (π : Renaming []), ∃ d' ∈ canon [] 0 [], ∃ a' ∈ canon [] 1 [d'],
      (spillPool.take ts.length).map π = ts ∧ π d' = d ∧ π a' = a := by
  obtain ⟨π, d', hd', hπ, rfl⟩ := exists_moving1 hts hpool hd
  obtain ⟨hlo, hhi⟩ := notMem_canon (fun _ h ↦ absurd h List.not_mem_nil) hd' Nat.one_pos
    (by decide) List.not_mem_nil List.not_mem_nil
  rw [← hπ] at ha
  obtain ⟨π', a', ha', ha, htake, hkeep⟩ := π.exists_extend_scratch (k := 1) (by decide)
    (List.not_mem_cons_of_ne_of_not_mem hlo List.not_mem_nil)
    (List.not_mem_cons_of_ne_of_not_mem hhi List.not_mem_nil) ha
  exact ⟨π', d', hd', a', ha', htake.trans hπ, hkeep d' (by simp), ha⟩

/-- Three registers besides scratch registers. -/
theorem exists_moving3 {d a b : VReg} (hd : d ∉ ts) (ha : a ∉ ts) (hb : b ∉ ts) :
    ∃ (π : Renaming []), ∃ d' ∈ canon [] 0 [], ∃ a' ∈ canon [] 1 [d'], ∃ b' ∈ canon [] 2 [d', a'],
      (spillPool.take ts.length).map π = ts ∧ π d' = d ∧ π a' = a ∧ π b' = b := by
  obtain ⟨π, d', hd', a', ha', hπ, rfl, rfl⟩ := exists_moving2 hts hpool hd ha
  have hnil : ∀ r ∈ ([] : List VReg), r ∈ spillPool := fun _ h ↦ absurd h List.not_mem_nil
  obtain ⟨hlo, hhi⟩ := notMem_canon hnil hd' (m := 2) (by decide) (by decide) List.not_mem_nil
    List.not_mem_nil
  obtain ⟨hlo', hhi'⟩ := notMem_canon hnil ha' (m := 2) (by decide) (by decide)
    (List.not_mem_cons_of_ne_of_not_mem hlo List.not_mem_nil)
    (List.not_mem_cons_of_ne_of_not_mem hhi List.not_mem_nil)
  rw [← hπ] at hb
  obtain ⟨π', b', hb', hb, htake, hkeep⟩ := π.exists_extend_scratch (k := 2) (by decide)
    (List.not_mem_cons_of_ne_of_not_mem hlo (List.not_mem_cons_of_ne_of_not_mem hlo' List.not_mem_nil))
    (List.not_mem_cons_of_ne_of_not_mem hhi (List.not_mem_cons_of_ne_of_not_mem hhi' List.not_mem_nil))
    hb
  exact ⟨π', d', hd', a', ha', b', hb', htake.trans hπ, hkeep d' (by simp), hkeep a' (by simp), hb⟩

end Moving

/-! ## Instructions that differ by a renaming -/

/-- The second instruction is the first with its vector registers renamed.  Immediates, general
purpose registers and memory operands may be others of the same kind and size, and zero masking is
not looked at. -/
structure AppInstr.Like {fixed : List VReg} (π : Renaming fixed) (i i' : AppInstr) : Prop where
  cls : i'.cls = i.cls
  vreg : ∀ p w high, i.cls p = .vec w high → (i'.opnd p).vreg = π (i.opnd p).vreg
  kreg : ∀ p, i.cls p = .opmask → (i'.opnd p).kreg = (i.opnd p).kreg

/-- The same of a single operand. -/
structure Opnd.Like {fixed : List VReg} (π : Renaming fixed) (o o' : Opnd) : Prop where
  cls : o'.cls = o.cls
  vreg : ∀ w high, o.cls = .vec w high → o'.vreg = π o.vreg
  kreg : o.cls = .opmask → o'.kreg = o.kreg

section Operands

variable {fixed : List VReg} (π : Renaming fixed)

theorem Opnd.like_vec (w : VecWidth) (r : VReg) : (vec w r).Like π (vec w (π r)) where
  cls := congrArg (OpndClass.vec w) (π.high_apply r)
  vreg _ _ _ := rfl
  kreg h := by cases h

theorem Opnd.like_opmask (k : KReg) : (opmask k).Like π (opmask k) where
  cls := rfl
  vreg _ _ h := by cases h
  kreg _ := rfl

/-- Other operands of a class are not told apart. -/
theorem Opnd.like_of_cls {o o' : Opnd} {c : OpndClass} (h : o.cls = c) (h' : o'.cls = c)
    (hvec : ∀ w high, c ≠ .vec w high) (hk : c ≠ .opmask) : o.Like π o' where
  cls := h'.trans h.symm
  vreg w high hcls := absurd (h.symm.trans hcls) (hvec w high)
  kreg hcls := absurd (h.symm.trans hcls) hk

theorem Opnd.like_gpr (sz : GprSize) (r r' : Gpr) : (gpr sz r).Like π (gpr sz r') :=
  like_of_cls π (c := .gpr sz) rfl rfl nofun nofun

theorem Opnd.like_of_isFlatMem {o o' : Opnd} (h : o.cls.isFlatMem = true) (h' : o'.cls = o.cls) :
    o.Like π o' := by
  refine like_of_cls π rfl h' (fun w high hc ↦ ?_) fun hc ↦ ?_
  · rw [hc] at h
    cases h
  · rw [hc] at h
    cases h

variable {π}

/-- Lists that agree element by element agree at every index. -/
theorem getElem?_of_forall₂ {R : Opnd → Opnd → Prop} {os os' : List Opnd}
    (h : List.Forall₂ R os os') (n : ℕ) : (os[n]? = none ∧ os'[n]? = none) ∨
      ∃ o o', os[n]? = some o ∧ os'[n]? = some o' ∧ R o o' := by
  induction h generalizing n with
  | nil => exact .inl ⟨rfl, rfl⟩
  | cons hR _ ih =>
    cases n with
    | zero => exact .inr ⟨_, _, rfl, rfl, hR⟩
    | succ n => exact ih n

theorem AppInstr.like_of_forall₂ {dsts dsts' srcs srcs' : List Opnd}
    (hd : List.Forall₂ (Opnd.Like π) dsts dsts') (hs : List.Forall₂ (Opnd.Like π) srcs srcs')
    (z z' : Bool) : AppInstr.Like π ⟨dsts, srcs, z⟩ ⟨dsts', srcs', z'⟩ := by
  have hp (p : Pos) : (opnd? ⟨dsts, srcs, z⟩ p = none ∧ opnd? ⟨dsts', srcs', z'⟩ p = none) ∨
      ∃ o o', opnd? ⟨dsts, srcs, z⟩ p = some o ∧ opnd? ⟨dsts', srcs', z'⟩ p = some o' ∧
        o.Like π o' := by
    cases p with
    | d0 => exact getElem?_of_forall₂ hd 0
    | d1 => exact getElem?_of_forall₂ hd 1
    | s0 => exact getElem?_of_forall₂ hs 0
    | s1 => exact getElem?_of_forall₂ hs 1
    | s2 => exact getElem?_of_forall₂ hs 2
    | s3 => exact getElem?_of_forall₂ hs 3
  refine ⟨funext fun p ↦ ?_, fun p w high hcls ↦ ?_, fun p hcls ↦ ?_⟩
  all_goals rcases hp p with ⟨hn, hn'⟩ | ⟨o, o', ho, ho', hlike⟩
  · rw [cls, cls, hn, hn']
  · rw [cls, cls, ho, ho']
    exact hlike.cls
  · rw [cls, hn] at hcls
    cases hcls
  · rw [cls, ho] at hcls
    rw [opnd, opnd, ho, ho']
    exact hlike.vreg w high hcls
  · rw [cls, hn] at hcls
    cases hcls
  · rw [cls, ho] at hcls
    rw [opnd, opnd, ho, ho']
    exact hlike.kreg hcls

end Operands

theorem AppInstr.opnd_eq_vec {i : AppInstr} {p : Pos} {w : VecWidth} {high : Bool}
    (h : i.cls p = .vec w high) : i.opnd p = .vec w (i.opnd p).vreg :=
  AppInstr.opnd_of_cls_vec (e := ⟨i, [], []⟩) h

theorem Opnd.eq_opmask_iff {o : Opnd} {k : KReg} : o = .opmask k ↔ o.cls = .opmask ∧ o.kreg = k := by
  constructor
  · rintro rfl
    exact ⟨rfl, rfl⟩
  · rintro ⟨hcls, hk⟩
    cases o with
    | opmask k' => exact congrArg opmask hk
    | mem o m b => rcases m with ⟨_, _, _ | _ | _, _, _⟩ | _ | _ <;> cases hcls
    | imm v b => rcases cls_imm_or v b with h | h <;> rw [h] at hcls <;> cases hcls
    | _ => cases hcls

theorem AppInstr.opnd_eq_opmask_iff {i : AppInstr} {p : Pos} {k : KReg} :
    i.opnd p = .opmask k ↔ i.cls p = .opmask ∧ (i.opnd p).kreg = k := by
  obtain ⟨-, hc, ho⟩ | ⟨o, -, hc, ho⟩ := i.cls_eq p
  · rw [hc, ho]
    simp
  · rw [hc, ho, Opnd.eq_opmask_iff]

/-- The question only depends on what a renaming keeps. -/
def Query.closed (fixed : List VReg) (P : Profile) : Query → Bool
  | test _ _ | isK _ _ => true
  | same p _ => match P p with
    | .vec _ _ => true
    | _ => false
  | isSpill _ n => fixed.contains (Fin.ofNat 32 (10 + n))
  | _ => false

section Like

variable {fixed : List VReg} {π : Renaming fixed} {i i' : AppInstr} (h : i.Like π i')
include h

theorem AppInstr.Like.opnd_eq_vec_iff {p : Pos} {w : VecWidth} {r : VReg} :
    i'.opnd p = .vec w (π r) ↔ i.opnd p = .vec w r := by
  constructor
  · intro hp
    have hcls : i.cls p = .vec w (π r).high := by rw [← h.cls, AppInstr.cls_of_opnd_vec hp]
    have hreg := h.vreg p _ _ hcls
    rw [hp, Opnd.vreg, π.apply_eq_iff] at hreg
    rw [AppInstr.opnd_eq_vec hcls, ← hreg]
  · intro hp
    have hcls := AppInstr.cls_of_opnd_vec hp
    rw [AppInstr.opnd_eq_vec (h.cls ▸ hcls), h.vreg p _ _ hcls, hp, Opnd.vreg]

/-- The same questions get the same answers. -/
theorem answer_like (c c' : Context) {q : Query} (hq : q.closed fixed i.cls = true) :
    q.answer c' i' = q.answer c i := by
  cases q with
  | test p t => rw [Query.answer, Query.answer, h.cls]
  | isK p k =>
    rw [Query.answer, Query.answer, Bool.eq_iff_iff, beq_iff_eq, beq_iff_eq,
      AppInstr.opnd_eq_opmask_iff, AppInstr.opnd_eq_opmask_iff, h.cls]
    exact and_congr_right fun hp ↦ by rw [h.kreg p hp]
  | isSpill p n =>
    have hkept : Fin.ofNat 32 (10 + n) ∈ fixed := by simpa [Query.closed] using hq
    rw [Query.answer, Query.answer, Bool.eq_iff_iff, beq_iff_eq, beq_iff_eq, ← h.opnd_eq_vec_iff,
      π.keeps _ hkept]
  | same p q =>
    rw [Query.closed] at hq
    split at hq
    next w high hp =>
      rw [Query.answer, Query.answer, Bool.eq_iff_iff, beq_iff_eq, beq_iff_eq,
        AppInstr.opnd_eq_vec hp, AppInstr.opnd_eq_vec (h.cls ▸ hp), h.vreg p w high hp,
        eq_comm, h.opnd_eq_vec_iff, eq_comm]
    · cases hq
  | _ => cases hq

/-- A fixed register plays a role for both or for neither. -/
theorem vreg_like_eq_fixed {r : VReg} (hr : r ∈ fixed) {a : Role} (ha : ∀ p, a ≠ .index p)
    (found : List VReg) :
    (Env.mk i' found []).vreg a = r ↔ (Env.mk i found []).vreg a = r := by
  cases a with
  | op p =>
    simp only [Env.vreg]
    by_cases hvec : ∃ w high, i.cls p = .vec w high
    · obtain ⟨w, high, hp⟩ := hvec
      rw [h.vreg p w high hp, π.apply_eq_fixed hr]
    · -- an operand that is no register counts as register 0 for either
      have hzero (j : AppInstr) (hj : j.cls = i.cls) : (j.opnd p).vreg = 0 := by
        cases ho : j.opnd p with
        | vec w x => exact absurd ⟨w, x.high, hj ▸ AppInstr.cls_of_opnd_vec ho⟩ hvec
        | _ => rfl
      rw [hzero i' h.cls, hzero i rfl]
  | index p => exact absurd rfl (ha p)
  | t n => exact Iff.rfl
  | spill n => exact Iff.rfl

/-- The registers of the pool up to this one are fixed, so that a scan that ends here comes to the
same end after renaming. -/
def reachesFixed (fixed : List VReg) (r : VReg) : Bool :=
  spillPool.all fun q ↦ r < q || fixed.contains q

/-- The same scratch register is found. -/
theorem findAvailableSpill_like {avoid : List Role} (havoid : ∀ a ∈ avoid, ∀ p, a ≠ .index p)
    (found : List VReg) {r : VReg} (hr : reachesFixed fixed r = true)
    (hfind : findAvailableSpill (avoid.map (Env.vreg ⟨i, found, []⟩)) = some r) :
    findAvailableSpill (avoid.map (Env.vreg ⟨i', found, []⟩)) = some r := by
  have hsorted : spillPool.Pairwise (· < ·) := by decide
  -- what is skipped and what is taken is fixed
  have hsame (q : VReg) (hq : q ∈ spillPool) (hqr : ¬r < q) :
      q ∈ avoid.map (Env.vreg ⟨i', found, []⟩) ↔ q ∈ avoid.map (Env.vreg ⟨i, found, []⟩) := by
    have hkept : q ∈ fixed := by
      simpa [hqr] using List.all_eq_true.mp hr q hq
    rw [List.mem_map, List.mem_map]
    exact exists_congr fun a ↦ and_congr_right fun ha ↦
      vreg_like_eq_fixed h hkept (havoid a ha) found
  have hmem := mem_spillPool_of_findAvailableSpill hfind
  rw [findAvailableSpill, List.find?_eq_some_iff_append] at hfind ⊢
  obtain ⟨htaken, as, bs, hsplit, hskipped⟩ := hfind
  refine ⟨?_, as, bs, hsplit, fun q hq ↦ ?_⟩
  · rw [Bool.not_eq_true', ← Bool.not_eq_true, List.contains_iff_mem] at htaken ⊢
    rwa [hsame r hmem (Nat.lt_irrefl _)]
  · have hqpool : q ∈ spillPool := hsplit ▸ List.mem_append_left _ hq
    rw [hsplit, List.pairwise_append] at hsorted
    have hqr : ¬r < q := Nat.lt_asymm (hsorted.2.2 q hq r List.mem_cons_self)
    have hskip := hskipped q hq
    rw [Bool.not_not, List.contains_iff_mem] at hskip ⊢
    rwa [hsame q hqpool hqr]

/-- The same scratch registers are found. -/
theorem findVecs_like {avoids : List (List Role)} (havoids : ∀ avoid ∈ avoids, ∀ a ∈ avoid,
    ∀ p, a ≠ .index p) {found vecs : List VReg} (hvecs : findVecs i avoids found = some vecs)
    (hfixed : ∀ r ∈ vecs, reachesFixed fixed r = true) : findVecs i' avoids found = some vecs := by
  induction avoids generalizing found with
  | nil => exact hvecs
  | cons avoid rest ih =>
    obtain ⟨r, hr, hrest⟩ := Option.bind_eq_some_iff.mp hvecs
    have hmem : r ∈ vecs := by
      have htake := (findVecs_spec hrest).2.1
      refine List.mem_of_mem_take (i := (found ++ [r]).length) ?_
      rw [htake]
      simp
    rw [findVecs, findAvailableSpill_like h (havoids avoid List.mem_cons_self) found
      (hfixed r hmem) hr]
    exact ih (fun avoid ha ↦ havoids avoid (List.mem_cons_of_mem _ ha)) hrest

end Like

end DrAvx
