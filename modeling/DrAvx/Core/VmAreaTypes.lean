import DrAvx.Core.VmAreas

/-!
# The types of areas under additions

Adding a region must not change what is known about memory that is covered already: an area keeps
its flags, apart from `VM_WAS_FUTURE` and `VM_ONCE_ONLY`, which may be dropped, and only what was
not covered gets the flags of the region.

The scan respects this except in one situation.  An area of another type that swallows what is left
of the region stays among the collected areas, so that it is merged with a neighbour that has the
type of the region and touches it: with the one in front, which gives its flags to both, or with
the one behind, which gets its flags.  `Retypes` describes this on the vector and the region, and
`keepsTypes_iff` shows that it is the only way to fail.
-/

set_option autoImplicit false

namespace DrAvx

namespace VmArea

/-- The flags that may be dropped. -/
def droppable : BitVec 32 := vmWasFuture ||| vmOnceOnly

/-- The flags `f'` are those of `f`, some of the droppable ones being dropped. -/
def Lessened (f f' : AreaFlags) : Prop :=
  f'.frag = f.frag ∧ f'.vm ||| (f.vm &&& droppable) = f.vm

theorem getLsbD_dropFlag {mask : BitVec 32} {k : ℕ} (hmask : mask = BitVec.twoPow 32 k)
    (hk : k < 32) (new old : BitVec 32) (i : ℕ) :
    (dropFlag mask new old).getLsbD i =
      (old.getLsbD i && (new.getLsbD i || !mask.getLsbD i)) := by
  have htest : ∀ x : BitVec 32, x &&& mask = 0 ↔ x.getLsbD k = false := by
    intro x
    rw [hmask, BitVec.and_twoPow]
    cases h : x.getLsbD k with
    | false => simp
    | true =>
      have hne : BitVec.twoPow 32 k ≠ 0#32 := by
        intro h0
        have := congrArg (·.getLsbD k) h0
        simp [hk] at this
      simpa using hne
  have hbit : mask.getLsbD i = decide (i = k) := by
    rw [hmask, BitVec.getLsbD_twoPow]
    simp [hk, eq_comm]
  rw [dropFlag]
  by_cases hik : i = k
  · subst hik
    split_ifs with h
    · rw [ne_eq, htest, htest] at h
      simp [hbit, h.2]
    · rw [ne_eq, htest, htest] at h
      simp only [hbit, decide_true, Bool.not_true, Bool.or_false]
      cases ho : old.getLsbD i <;> cases hn : new.getLsbD i <;> simp_all
  · split_ifs with h
    · by_cases hi : i < 32
      · rw [BitVec.getLsbD_and, BitVec.getLsbD_not, hbit]
        simp [hik, hi]
      · simp [BitVec.getLsbD_of_ge old i (by omega)]
    · simp [hbit, hik]

theorem getLsbD_dropFlags (new old : AreaFlags) (i : ℕ) :
    (dropFlags new old).vm.getLsbD i =
      (old.vm.getLsbD i && (new.vm.getLsbD i || !droppable.getLsbD i)) := by
  have honce : vmOnceOnly = BitVec.twoPow 32 5 := rfl
  have hfuture : vmWasFuture = BitVec.twoPow 32 3 := rfl
  rw [dropFlags]
  dsimp only
  rw [getLsbD_dropFlag honce (by decide), getLsbD_dropFlag hfuture (by decide), droppable,
    BitVec.getLsbD_or]
  cases old.vm.getLsbD i <;> cases new.vm.getLsbD i <;> cases vmWasFuture.getLsbD i <;> rfl

theorem lessened_iff {f f' : AreaFlags} :
    Lessened f f' ↔ f'.frag = f.frag ∧ ∀ i, f'.vm.getLsbD i = f.vm.getLsbD i ∨
      (f.vm.getLsbD i = true ∧ f'.vm.getLsbD i = false ∧ droppable.getLsbD i = true) := by
  refine and_congr_right fun _ ↦ ⟨fun h i ↦ ?_, fun h ↦ BitVec.eq_of_getLsbD_eq fun i _ ↦ ?_⟩
  · have := congrArg (·.getLsbD i) h
    simp only [BitVec.getLsbD_or, BitVec.getLsbD_and] at this
    cases h₁ : f.vm.getLsbD i <;> cases h₂ : f'.vm.getLsbD i <;> simp_all
  · have := h i
    simp only [BitVec.getLsbD_or, BitVec.getLsbD_and]
    cases h₁ : f.vm.getLsbD i <;> cases h₂ : f'.vm.getLsbD i <;> simp_all

@[simp] theorem Lessened.refl (f : AreaFlags) : Lessened f f :=
  lessened_iff.2 ⟨rfl, fun _ ↦ .inl rfl⟩

/-- What an overlapping region does to the flags of an area is allowed. -/
theorem lessened_dropFlags (new f : AreaFlags) : Lessened f (dropFlags new f) := by
  refine lessened_iff.2 ⟨rfl, fun i ↦ ?_⟩
  rw [getLsbD_dropFlags]
  cases f.vm.getLsbD i <;> cases new.vm.getLsbD i <;> cases droppable.getLsbD i <;> simp

/-- An area whose flags could become those of the region is made to have them. -/
theorem dropFlags_eq_of_lessened {new f : AreaFlags} (h : Lessened f new) :
    dropFlags new f = new := by
  obtain ⟨hfrag, hvm⟩ := lessened_iff.1 h
  refine AreaFlags.ext (BitVec.eq_of_getLsbD_eq fun i _ ↦ ?_) hfrag.symm
  have := hvm i
  rw [getLsbD_dropFlags]
  cases h₁ : f.vm.getLsbD i <;> cases h₂ : new.vm.getLsbD i <;> simp_all

/-! ## The flags of an address -/

/-- The flags of the area that an address lies in. -/
def flagsAt : List VmArea → ℕ → Option AreaFlags
  | [], _ => none
  | a :: buf, x => if a.start ≤ x ∧ x < a.stop then some a.flags else flagsAt buf x

@[simp] theorem flagsAt_append (l r : List VmArea) (x : ℕ) :
    flagsAt (l ++ r) x = (flagsAt l x).or (flagsAt r x) := by
  induction l with
  | nil => rfl
  | cons a l ih =>
    rw [List.cons_append, flagsAt, flagsAt, ih]
    split_ifs <;> rfl

theorem flagsAt_eq_none_iff (buf : List VmArea) (x : ℕ) :
    flagsAt buf x = none ↔ ¬Covers buf x := by
  induction buf with
  | nil => simp [flagsAt]
  | cons a buf ih =>
    rw [flagsAt, covers_cons]
    split_ifs with h
    · simp [h]
    · simp [h, ih]

/-- The flags before and after an addition, at an address that is part of the region or not. -/
def KeepsAt (new : AreaFlags) (inRegion : Prop) : Option AreaFlags → Option AreaFlags → Prop
  | some f, f' => ∃ g, f' = some g ∧ Lessened f g
  | none, f' => inRegion → f' = some new

/-- Every address of `old` keeps its flags in `buf`, and the others of the region `U` have those of
the region. -/
def Keeps (new : AreaFlags) (U : ℕ → Prop) (old buf : List VmArea) : Prop :=
  ∀ x, KeepsAt new (U x) (flagsAt old x) (flagsAt buf x)

/-- On the two sides of an address, flags are kept independently. -/
theorem keeps_append_iff {new : AreaFlags} {U : ℕ → Prop} {l l' r r' : List VmArea} (t : ℕ)
    (hl : ∀ x, Covers l x → x < t) (hl' : ∀ x, Covers l' x → x < t)
    (hr : ∀ x, Covers r x → t ≤ x) (hr' : ∀ x, Covers r' x → t ≤ x) :
    Keeps new U (l ++ r) (l' ++ r') ↔
      Keeps new (fun x ↦ U x ∧ x < t) l l' ∧ Keeps new (fun x ↦ U x ∧ t ≤ x) r r' := by
  have hnone : ∀ {buf : List VmArea} {x : ℕ}, ¬Covers buf x → flagsAt buf x = none :=
    fun h ↦ (flagsAt_eq_none_iff _ _).2 h
  rw [Keeps, Keeps, Keeps, ← forall_and]
  refine forall_congr' fun x ↦ ?_
  rw [flagsAt_append, flagsAt_append]
  rcases Nat.lt_or_ge x t with hx | hx
  · rw [hnone (fun h ↦ absurd (hr x h) (by omega)), hnone (fun h ↦ absurd (hr' x h) (by omega)),
      Option.or_none, Option.or_none]
    have hright : KeepsAt new (U x ∧ t ≤ x) none none := fun h ↦ absurd h.2 (by omega)
    simp only [hright, and_true, hx]
  · rw [hnone (fun h ↦ absurd (hl x h) (by omega)), hnone (fun h ↦ absurd (hl' x h) (by omega)),
      Option.none_or, Option.none_or]
    have hleft : KeepsAt new (U x ∧ x < t) none none := fun h ↦ absurd h.2 (by omega)
    simp only [hleft, true_and, hx, and_true]

theorem Keeps.refl {new : AreaFlags} {U : ℕ → Prop} {buf : List VmArea}
    (hU : ∀ x, U x → Covers buf x) : Keeps new U buf buf := by
  intro x
  cases hx : flagsAt buf x with
  | none => exact fun h ↦ absurd (hU x h) ((flagsAt_eq_none_iff _ _).1 hx)
  | some f => exact ⟨f, rfl, .refl f⟩

theorem keeps_congr {new : AreaFlags} {U V : ℕ → Prop} {old buf : List VmArea}
    (h : ∀ x, ¬Covers old x → (U x ↔ V x)) : Keeps new U old buf ↔ Keeps new V old buf := by
  refine forall_congr' fun x ↦ ?_
  cases hx : flagsAt old x with
  | none =>
    have := h x ((flagsAt_eq_none_iff _ _).1 hx)
    exact imp_congr_left this
  | some f => rfl

/-! ## The flags of the scan -/

section

variable {never : Bool} {new : AreaFlags}

/-- The areas `old` may all get the flags of the region, and cover what those collected cover. -/
def Absorbed (new : AreaFlags) (old collected : List VmArea) : Prop :=
  ∀ x, (Covers old x ↔ Covers collected x) ∧ ∀ f, flagsAt old x = some f → Lessened f new

theorem mem_hull_iff (new : AreaFlags) {collected : List VmArea} {start stop : ℕ} (hlt : start < stop)
    (h : Canonical collected) (hmet : Met collected start stop) (x : ℕ) :
    (hull new collected start stop).start ≤ x ∧ x < (hull new collected start stop).stop ↔
      Covers collected x ∨ (start ≤ x ∧ x < stop) := by
  have hspec := (close_spec new hlt (by rwa [List.append_nil]) hmet (by simp)).2 x
  simpa only [close, covers_cons, covers_nil, or_false, List.append_nil] using hspec

theorem flags_hull {collected : List VmArea} {start stop : ℕ}
    (hpure : ∀ a ∈ collected, a.flags = new) : (hull new collected start stop).flags = new := by
  by_cases hnil : collected = []
  · rw [hnil]
    rfl
  · rw [hull, List.head?_eq_some_head hnil, List.getLast?_eq_some_getLast hnil]
    exact hpure (collected.head hnil) (List.head_mem hnil)

variable {old collected : List VmArea}

/-- Collected areas of the type of the region are merged with it, and nothing else changes. -/
theorem keeps_close {start stop : ℕ} (hlt : start < stop)
    (h : Canonical collected) (hmet : Met collected start stop)
    (hpure : ∀ a ∈ collected, a.flags = new) (habsorbed : Absorbed new old collected) :
    Keeps new (fun x ↦ start ≤ x ∧ x < stop) old [hull new collected start stop] := by
  intro x
  have hmem := mem_hull_iff new hlt h hmet x
  rw [flagsAt, flags_hull hpure, flagsAt]
  cases hx : flagsAt old x with
  | some f =>
    have hold : Covers old x := by
      by_contra hnot
      rw [(flagsAt_eq_none_iff _ _).2 hnot] at hx
      exact Option.some_ne_none _ hx.symm
    rw [if_pos (hmem.2 (.inl ((habsorbed x).1.1 hold)))]
    exact ⟨new, rfl, (habsorbed x).2 f hx⟩
  | none =>
    intro hU
    rw [if_pos (hmem.2 (.inr hU))]

/-- The scan merges an area that swallows the region with a neighbour of the region's type: with one
collected before it, which costs it its type, or with the next one, which gets its type. -/
def Misfits (never : Bool) (new : AreaFlags) (collected : List VmArea) (start stop : ℕ) :
    List VmArea → Prop
  | [] => False
  | a :: rest =>
    if touches never new start stop a then
      if new ≠ (dropped new a).flags then
        if start < a.start then a.stop < stop ∧ Misfits never new [] a.stop stop rest
        else if a.stop < stop then Misfits never new [] a.stop stop rest
        else collected ≠ [] ∨ (rest.head?.any (touches never new start stop) = true ∧
          ¬Lessened new (dropped new a).flags)
      else Misfits never new (collected ++ [dropped new a]) start stop rest
    else if collected ≠ [] then False
    else if stop ≤ a.start then False
    else Misfits never new [] start stop rest

/-- The region may be merged with the area if it is adjacent to it. -/
def Mergeable (never : Bool) (new : AreaFlags) (a : VmArea) : Prop :=
  a.flags = new ∧ a.flags.frag &&& fragCoarseGrain = 0 ∧ never = false

variable {a : VmArea}

theorem touches_iff {start stop : ℕ} :
    touches never new start stop a = true ↔ (start < a.stop ∧ a.start < stop) ∨
      (start ≤ a.stop ∧ a.start ≤ stop ∧ Mergeable never new a) := by
  simp only [touches, Mergeable, Bool.or_eq_true, Bool.and_eq_true, decide_eq_true_eq,
    beq_iff_eq, Bool.not_eq_true', eq_comm (a := new)]
  tauto

theorem dropped_eq_self (h : a.flags = new) : dropped new a = a := by
  rw [dropped, ← h, dropFlags_self]

theorem scan_of_lt {collected rest : List VmArea} {start stop : ℕ} (hne : collected ≠ [])
    (hrest : ∀ a ∈ rest, stop < a.start) :
    scan never new collected start stop rest = hull new collected start stop :: rest := by
  cases rest with
  | nil => rfl
  | cons a rest =>
    have hlt := hrest a List.mem_cons_self
    rw [scan, if_neg, if_pos hne]
    · rfl
    · rw [touches_iff]
      omega

/-- Behind an area that swallows the region, at most one more area is collected. -/
theorem scan_of_le {collected rest : List VmArea} {start stop : ℕ} (hne : collected ≠ [])
    (h : Canonical rest) (hrest : ∀ a ∈ rest, stop ≤ a.start) :
    (rest.head?.any (touches never new start stop) = false ∧
        scan never new collected start stop rest = hull new collected start stop :: rest) ∨
      (rest.head?.any (touches never new start stop) = true ∧ ∃ b rest', rest = b :: rest' ∧
        b.flags = new ∧ b.start = stop ∧
        scan never new collected start stop rest =
          hull new (collected ++ [b]) start stop :: rest') := by
  cases rest with
  | nil => exact .inl ⟨rfl, rfl⟩
  | cons b rest =>
    rw [List.head?_cons, Option.any_some, scan]
    by_cases htouches : touches never new start stop b = true
    · obtain ⟨hb, hbrest, -⟩ := canonical_cons.1 h
      have hstop := hrest b List.mem_cons_self
      obtain hover | ⟨-, hle, hmergeable⟩ := touches_iff.1 htouches
      · omega
      · rw [if_pos htouches, dropped_eq_self hmergeable.1, if_neg (by simp [hmergeable.1])]
        refine .inr ⟨htouches, b, rest, rfl, hmergeable.1, by omega, ?_⟩
        exact scan_of_lt (by simp) fun a ha ↦ by
          have := hbrest a ha
          omega
    · rw [if_neg htouches, if_pos hne]
      exact .inl ⟨by simpa using htouches, rfl⟩

theorem keepsAt_rest {inRegion : Prop} {o : Option AreaFlags} (h : o = none → ¬inRegion) :
    KeepsAt new inRegion o o := by
  cases o with
  | none => exact fun hin ↦ absurd hin (h rfl)
  | some f => exact ⟨f, rfl, .refl f⟩

variable {rest : List VmArea}

/-- An area that swallows the region and stays alone. -/
theorem keeps_swallowed {start stop : ℕ}
    (hstart : a.start ≤ start) (hstop : stop ≤ a.stop) :
    Keeps new (fun x ↦ start ≤ x ∧ x < stop) (a :: rest)
      (hull new [dropped new a] start stop :: rest) := by
  have hhull : hull new [dropped new a] start stop = dropped new a := by
    have : ¬start < a.start := by omega
    simp [hull, dropped, this]
    omega
  intro x
  rw [hhull, flagsAt, flagsAt, dropped_start, dropped_stop]
  by_cases hx : a.start ≤ x ∧ x < a.stop
  · rw [if_pos hx, if_pos hx]
    exact ⟨_, rfl, lessened_dropFlags new a.flags⟩
  · rw [if_neg hx, if_neg hx]
    refine keepsAt_rest fun _ ↦ ?_
    omega

/-- An area that swallows the region and is merged with the next one. -/
theorem keeps_swallowed_next_iff {a b : VmArea} {start stop : ℕ}
    (h : Canonical (a :: b :: rest)) (hstart : a.start ≤ start) (hstop : stop ≤ a.stop)
    (hbstart : b.start = stop) (hbflags : b.flags = new) :
    Keeps new (fun x ↦ start ≤ x ∧ x < stop) (a :: b :: rest)
        (hull new [dropped new a, b] start stop :: rest) ↔
      Lessened new (dropped new a).flags := by
  obtain ⟨ha, hab, hbrest⟩ := canonical_cons.1 h
  obtain ⟨hb, -, -⟩ := canonical_cons.1 hbrest
  have hle := hab b List.mem_cons_self
  have hhull : hull new [dropped new a, b] start stop =
      ⟨a.start, b.stop, (dropped new a).flags⟩ := by
    have : ¬start < a.start := by omega
    simp [hull, this]
    omega
  rw [hhull]
  constructor
  · intro hkeeps
    have := hkeeps b.start
    simp only [flagsAt] at this
    rw [if_neg (by omega), if_pos (by omega), if_pos (by omega)] at this
    obtain ⟨f, hf, hless⟩ := this
    rwa [hbflags, ← Option.some_inj.1 hf] at hless
  · intro hless x
    simp only [flagsAt]
    by_cases hxa : a.start ≤ x ∧ x < a.stop
    · rw [if_pos hxa, if_pos (by omega)]
      exact ⟨_, rfl, lessened_dropFlags new a.flags⟩
    · by_cases hxb : b.start ≤ x ∧ x < b.stop
      · rw [if_neg hxa, if_pos hxb, if_pos (by omega), hbflags]
        exact ⟨_, rfl, hless⟩
      · rw [if_neg hxa, if_neg hxb, if_neg (by omega)]
        refine keepsAt_rest fun _ ↦ ?_
        omega

/-- An area of another type that is merged with areas of the region's type loses its type. -/
theorem not_keeps_of_hull {old collected more rest rest' : List VmArea}
    {start stop : ℕ} (hlt : start < stop) (h : Canonical (collected ++ dropped new a :: more))
    (hmet : Met (collected ++ dropped new a :: more) start stop) (hnil : collected ≠ [])
    (hpure : ∀ b ∈ collected, b.flags = new) (habsorbed : Absorbed new old collected)
    (hne : new ≠ (dropped new a).flags) (U : ℕ → Prop) :
    ¬Keeps new U (old ++ a :: rest)
      (hull new (collected ++ dropped new a :: more) start stop :: rest') := by
  obtain ⟨-, ham, hle⟩ := canonical_append.1 h
  have ha : a.start < a.stop := ham.nonempty (dropped new a) List.mem_cons_self
  intro hkeeps
  have hold : flagsAt old a.start = none := by
    rw [flagsAt_eq_none_iff, (habsorbed a.start).1]
    rintro ⟨b, hb, -, hlt'⟩
    have := hle b hb (dropped new a) List.mem_cons_self
    rw [dropped_start] at this
    omega
  have hmem := (mem_hull_iff new hlt h hmet a.start).2 (.inl (by simp [ha]))
  have hflags : (hull new (collected ++ dropped new a :: more) start stop).flags = new := by
    obtain ⟨first, tail, rfl⟩ := List.exists_cons_of_ne_nil hnil
    rw [hull, List.cons_append, List.head?_cons, List.getLast?_cons]
    exact hpure first List.mem_cons_self
  have := hkeeps a.start
  rw [flagsAt_append, hold, Option.none_or, flagsAt, if_pos ⟨le_rfl, ha⟩, flagsAt, if_pos hmem,
    hflags] at this
  obtain ⟨f, hf, hless⟩ := this
  rw [← Option.some_inj.1 hf] at hless
  exact hne (dropFlags_eq_of_lessened hless).symm

/-- The three lemmas above, for an area that swallows the region. -/
theorem keeps_swallowed_iff {old collected rest : List VmArea} {start stop : ℕ}
    (hlt : start < stop) (h : Canonical (collected ++ a :: rest)) (hmet : Met collected start stop)
    (hpure : ∀ b ∈ collected, b.flags = new) (habsorbed : Absorbed new old collected)
    (hne : new ≠ (dropped new a).flags) (hstart : a.start ≤ start) (hstop : stop ≤ a.stop) :
    Keeps new (fun x ↦ start ≤ x ∧ x < stop) (old ++ a :: rest)
        (scan never new (collected ++ [dropped new a]) start stop rest) ↔
      ¬(collected ≠ [] ∨ (rest.head?.any (touches never new start stop) = true ∧
          ¬Lessened new (dropped new a).flags)) := by
  obtain ⟨hc, har, hca⟩ := canonical_append.1 h
  obtain ⟨ha, harest, hr⟩ := canonical_cons.1 har
  have hrest : ∀ b ∈ rest, stop ≤ b.start := fun b hb ↦ hstop.trans (harest b hb)
  have hcanonical : Canonical (collected ++ dropped new a :: rest) := h.of_map (by simp [dropped])
  have hdropped : start ≤ (dropped new a).stop ∧ (dropped new a).start ≤ stop := by
    rw [dropped_start, dropped_stop]
    omega
  have hscan := @scan_of_le never new (collected ++ [dropped new a]) rest start stop (by simp) hr
    hrest
  by_cases hnil : collected = []
  · subst hnil
    have hold : ∀ x, flagsAt old x = none := fun x ↦
      (flagsAt_eq_none_iff _ _).2 fun hx ↦ covers_nil x ((habsorbed x).1.1 hx)
    have hkeeps : ∀ buf, Keeps new (fun x ↦ start ≤ x ∧ x < stop) (old ++ a :: rest) buf ↔
        Keeps new (fun x ↦ start ≤ x ∧ x < stop) (a :: rest) buf := by
      intro buf
      simp only [Keeps, flagsAt_append, hold, Option.none_or]
    rw [hkeeps]
    obtain ⟨hany, heq⟩ | ⟨hany, b, rest', rfl, hbflags, hbstart, heq⟩ := hscan
    · rw [heq]
      exact iff_of_true (keeps_swallowed hstart hstop) (by simp [hany])
    · rw [heq, List.nil_append, List.singleton_append,
        keeps_swallowed_next_iff har hstart hstop hbstart hbflags, hany]
      simp
  · refine iff_of_false ?_ (by simp [hnil])
    obtain ⟨more, rest', rfl, hmore, heq⟩ : ∃ more rest', rest = more ++ rest' ∧
        (∀ b ∈ more, b.start = stop) ∧
        scan never new (collected ++ [dropped new a]) start stop rest =
          hull new (collected ++ dropped new a :: more) start stop :: rest' := by
      obtain ⟨-, heq⟩ | ⟨-, b, rest', rfl, -, hbstart, heq⟩ := hscan
      · exact ⟨[], rest, rfl, by simp, heq⟩
      · refine ⟨[b], rest', rfl, by simpa using hbstart, heq.trans ?_⟩
        rw [List.append_assoc, List.singleton_append]
    have hmerged : Canonical (collected ++ dropped new a :: more) := by
      rw [← List.cons_append, ← List.append_assoc] at hcanonical
      exact (canonical_append.1 hcanonical).1
    rw [heq]
    refine not_keeps_of_hull hlt hmerged ?_ hnil hpure habsorbed hne _
    intro b hb
    rcases List.mem_append.1 hb with hb | hb
    · exact hmet b hb
    rcases List.mem_cons.1 hb with rfl | hb
    · exact hdropped
    · have h₁ := hmerged.nonempty b (by simp [hb])
      have h₂ := hmore b hb
      omega

theorem Absorbed.nil {new : AreaFlags} : Absorbed new [] [] :=
  fun x ↦ ⟨Iff.rfl, by simp [flagsAt]⟩

/-- An area of the type of the region, up to what is dropped, can be collected. -/
theorem Absorbed.append (h : Absorbed new old collected)
    (ha : (dropped new a).flags = new) : Absorbed new (old ++ [a]) (collected ++ [dropped new a]) := by
  intro x
  refine ⟨by simp [(h x).1], fun f hf ↦ ?_⟩
  rw [flagsAt_append, Option.or_eq_some_iff] at hf
  obtain hf | ⟨-, hf⟩ := hf
  · exact (h x).2 f hf
  · rw [flagsAt, flagsAt] at hf
    split_ifs at hf with hx
    rw [← Option.some_inj.1 hf, ← ha]
    exact lessened_dropFlags new a.flags

theorem Absorbed.lt (h : Absorbed new old collected) {t : ℕ}
    (hle : ∀ b ∈ collected, b.stop ≤ t) (x : ℕ) (hx : Covers old x) : x < t := by
  obtain ⟨b, hb, -, hlt⟩ := (h x).1.1 hx
  exact hlt.trans_le (hle b hb)

theorem flagsAt_of_pure {buf : List VmArea} (h : ∀ a ∈ buf, a.flags = new) {x : ℕ}
    (hx : Covers buf x) : flagsAt buf x = some new := by
  induction buf with
  | nil => exact absurd hx (covers_nil x)
  | cons a buf ih =>
    obtain ⟨ha, hbuf⟩ := List.forall_mem_cons.1 h
    rw [flagsAt, ha]
    split_ifs with hxa
    · rfl
    · exact ih hbuf (((covers_cons _ _ _).1 hx).resolve_left hxa)

/-- The collected areas may stay in place of those before. -/
theorem Absorbed.keeps {U : ℕ → Prop}
    (h : Absorbed new old collected) (hpure : ∀ b ∈ collected, b.flags = new)
    (hU : ∀ x, ¬U x) : Keeps new U old collected := by
  intro x
  cases hx : flagsAt old x with
  | none => exact fun hin ↦ absurd hin (hU x)
  | some f =>
    have hold : Covers old x := by
      by_contra hnot
      rw [(flagsAt_eq_none_iff _ _).2 hnot] at hx
      exact Option.some_ne_none _ hx.symm
    exact ⟨new, flagsAt_of_pure hpure ((h x).1.1 hold), (h x).2 f hx⟩

/-- The collected areas and the region in front of areas that stay. -/
theorem keeps_close_append_iff {old collected rest rest' : List VmArea} {U : ℕ → Prop}
    {start stop t : ℕ} (hlt : start < stop) (h : Canonical collected)
    (hmet : Met collected start stop) (hpure : ∀ b ∈ collected, b.flags = new)
    (habsorbed : Absorbed new old collected) (hle : ∀ b ∈ collected, b.stop ≤ t)
    (hstop : stop ≤ t) (hU : ∀ x, U x ∧ x < t ↔ start ≤ x ∧ x < stop)
    (hrest : ∀ x, Covers rest x → t ≤ x) (hrest' : ∀ x, Covers rest' x → t ≤ x) :
    Keeps new U (old ++ rest) (close new collected start stop rest') ↔
      Keeps new (fun x ↦ U x ∧ t ≤ x) rest rest' := by
  have hhull : ∀ x, Covers [hull new collected start stop] x → x < t := by
    intro x hx
    rw [covers_cons, mem_hull_iff new hlt h hmet] at hx
    obtain (⟨b, hb, -, hxb⟩ | hx) | hx := hx
    · exact hxb.trans_le (hle b hb)
    · omega
    · exact absurd hx (covers_nil x)
  rw [close, ← List.singleton_append, keeps_append_iff t (habsorbed.lt hle) hhull hrest hrest']
  refine and_iff_right ?_
  rw [keeps_congr fun x _ ↦ hU x]
  exact keeps_close hlt h hmet hpure habsorbed

/-- An area that keeps its part of the region, in front of what is added behind it. -/
theorem keeps_cons_iff {rest rest' : List VmArea} {U : ℕ → Prop}
    (h : Canonical (a :: rest)) (hU : ∀ x, U x → a.start ≤ x)
    (hrest' : ∀ x, Covers rest' x → a.stop ≤ x) :
    Keeps new U (a :: rest) (dropped new a :: rest') ↔
      Keeps new (fun x ↦ U x ∧ a.stop ≤ x) rest rest' := by
  obtain ⟨-, hle, -⟩ := canonical_cons.1 h
  have happend := @keeps_append_iff new U [a] [dropped new a] rest rest' a.stop (by simp)
    (by simp) (fun x hx ↦ hx.le hle) hrest'
  rw [List.singleton_append, List.singleton_append] at happend
  refine happend.trans (and_iff_right fun x ↦ ?_)
  rw [flagsAt, flagsAt, flagsAt, flagsAt, dropped_start, dropped_stop]
  split_ifs with hx
  · exact ⟨_, rfl, lessened_dropFlags new a.flags⟩
  · exact fun hin ↦ absurd ⟨hU x hin.1, hin.2⟩ hx

/-- **The scan keeps all flags exactly if it merges no misfit.** -/
theorem keeps_scan_iff {old collected rest : List VmArea} {start stop : ℕ} (hlt : start < stop)
    (h : Canonical (collected ++ rest)) (hmet : Met collected start stop)
    (hpure : ∀ b ∈ collected, b.flags = new) (habsorbed : Absorbed new old collected) :
    Keeps new (fun x ↦ start ≤ x ∧ x < stop) (old ++ rest)
        (scan never new collected start stop rest) ↔
      ¬Misfits never new collected start stop rest := by
  induction rest generalizing old collected start with
  | nil =>
    rw [scan, Misfits, not_false_iff, iff_true, List.append_nil]
    exact keeps_close hlt (canonical_append.1 h).1 hmet hpure habsorbed
  | cons a rest ih =>
    obtain ⟨hc, har, hca⟩ := canonical_append.1 h
    obtain ⟨ha, harest, hr⟩ := canonical_cons.1 har
    have hcanonical : Canonical (collected ++ dropped new a :: rest) := h.of_map (by simp [dropped])
    have hlea : ∀ b ∈ collected, b.stop ≤ a.start := fun b hb ↦ hca b hb a List.mem_cons_self
    have hmeta : Met collected start a.start := fun b hb ↦ by
      have h₁ := hmet b hb
      have h₂ := hc.nonempty b hb
      have h₃ := hlea b hb
      omega
    have hfrom : ∀ x, Covers (a :: rest) x → a.start ≤ x := fun x hx ↦
      hx.le (har.head_start_le (List.cons_ne_nil a rest))
    -- what is added behind the area
    have hbehind (hstop : a.stop < stop) : ∀ x, Covers (scan never new [] a.stop stop rest) x →
        a.stop ≤ x := fun x hx ↦
      (((scan_extends [] hstop hr (by simp [Met])).2 x).1 hx).elim (Covers.le harest) And.left
    have ih' {s : ℕ} (hs : s < stop) :
        Keeps new (fun x ↦ s ≤ x ∧ x < stop) rest (scan never new [] s stop rest) ↔
          ¬Misfits never new [] s stop rest :=
      @ih [] [] s hs hr (by simp [Met]) (by simp) .nil
    -- the dropped area in front of areas that start behind it
    have hdropped {next : List VmArea} (hnext : ∀ x, Covers next x → a.stop ≤ x) :
        ∀ x, Covers (dropped new a :: next) x → a.start ≤ x := by
      rintro x hx
      rcases (covers_cons _ _ _).1 hx with hx | hx
      · exact hx.1
      · exact ha.le.trans (hnext x hx)
    rw [scan, Misfits]
    dsimp only
    split_ifs with htouches hne hcut hstop hstop hnil hstop
    · rw [keeps_close_append_iff hcut hc hmeta hpure habsorbed hlea le_rfl (by omega) hfrom
        (hdropped (hbehind hstop)), keeps_cons_iff har (by omega) (hbehind hstop),
        and_iff_right hstop, ← ih' hstop]
      refine keeps_congr fun x _ ↦ ?_
      omega
    · have hover := lt_stop_of_touches htouches hne
      rw [keeps_close_append_iff hcut hc hmeta hpure habsorbed hlea le_rfl (by omega) hfrom
        (hdropped fun x hx ↦ hx.le harest), keeps_cons_iff har (by omega) fun x hx ↦ hx.le harest]
      exact iff_of_true (.refl (by omega)) (by tauto)
    · -- the collected areas stay as they are
      have hover := lt_stop_of_touches htouches hne
      have hcollected : ∀ x, Covers collected x → x < a.start := by
        rintro x ⟨b, hb, -, hxb⟩
        exact hxb.trans_le (hlea b hb)
      rw [keeps_append_iff a.start (habsorbed.lt hlea) hcollected hfrom (hdropped (hbehind hstop)),
        keeps_cons_iff har (by omega) (hbehind hstop), ← ih' hstop,
        and_iff_right (habsorbed.keeps hpure (by omega))]
      refine keeps_congr fun x _ ↦ ?_
      omega
    · exact keeps_swallowed_iff hlt h hmet hpure habsorbed hne (by omega) (by omega)
    · -- the area has the type of the region, and is collected
      have hflags : (dropped new a).flags = new := (not_not.1 hne).symm
      have := @ih (old ++ [a]) (collected ++ [dropped new a]) start hlt (by simpa using hcanonical)
        ?_ ?_ (habsorbed.append hflags)
      · simpa using this
      · intro b hb
        rcases List.mem_append.1 hb with hb | hb
        · exact hmet b hb
        · rw [List.mem_singleton.1 hb]
          exact (le_stop_of_touches htouches : start ≤ a.stop ∧ a.start ≤ stop)
      · intro b hb
        rcases List.mem_append.1 hb with hb | hb
        · exact hpure b hb
        · rw [List.mem_singleton.1 hb, hflags]
    · have hstop : stop ≤ a.start := by
        obtain ⟨b, hb⟩ := List.exists_mem_of_ne_nil _ hnil
        have h₁ := hmet b hb
        have h₂ := hlea b hb
        have h₃ := not_overlaps_of_not_touches htouches
        omega
      rw [keeps_close_append_iff hlt hc hmet hpure habsorbed hlea hstop (by omega) hfrom hfrom]
      exact iff_of_true (.refl (by omega)) not_false
    · obtain rfl := not_not.1 hnil
      rw [keeps_close_append_iff hlt hc hmet hpure habsorbed hlea hstop (by omega) hfrom hfrom]
      exact iff_of_true (.refl (by omega)) not_false
    · -- the area is passed over
      obtain rfl := not_not.1 hnil
      have hover := not_overlaps_of_not_touches htouches
      have hscan : ∀ x, Covers (scan never new [] start stop rest) x → a.stop ≤ x := by
        intro x hx
        rcases ((scan_extends [] hlt hr (by simp [Met])).2 x).1 hx with hx | hx
        · exact hx.le harest
        · omega
      have hold : ∀ x, flagsAt old x = none := fun x ↦
        (flagsAt_eq_none_iff _ _).2 fun hx ↦ covers_nil x ((habsorbed x).1.1 hx)
      have happend := @keeps_append_iff new (fun x ↦ start ≤ x ∧ x < stop) [a] [a] rest _ a.stop
        (by simp) (by simp) (fun x hx ↦ hx.le harest) hscan
      rw [List.singleton_append, List.singleton_append] at happend
      rw [← ih' hlt]
      simp only [Keeps, flagsAt_append, hold, Option.none_or] at happend ⊢
      refine happend.trans ((and_iff_right (Keeps.refl (by omega))).trans ?_)
      refine keeps_congr fun x _ ↦ ?_
      omega

/-! ## The failing regions -/

/-- The area is not of the type of the region, even after what is dropped. -/
def Other (new : AreaFlags) (a : VmArea) : Prop :=
  dropFlags new a.flags ≠ new

/-- The region starts where an area of another type starts, lies inside it, and touches an area of
its own type in front of it. -/
def MergedFront (never : Bool) (new : AreaFlags) (buf : List VmArea) (start stop : ℕ) : Prop :=
  ∃ a ∈ buf, a.start = start ∧ stop ≤ a.stop ∧ Other new a ∧
    ∃ b ∈ buf, b.stop = start ∧ Mergeable never new b

/-- The region ends where an area ends that cannot be given its type, touches an area of its own
type behind it, and either lies inside the first area or reaches over one of another type that ends
where the first area starts. -/
def MergedBehind (never : Bool) (new : AreaFlags) (buf : List VmArea) (start stop : ℕ) : Prop :=
  ∃ a ∈ buf, a.stop = stop ∧ ¬Lessened new (dropFlags new a.flags) ∧
    (a.start ≤ start ∨ ∃ p ∈ buf, p.stop = a.start ∧ start < p.stop ∧ Other new p) ∧
    ∃ b ∈ buf, b.start = stop ∧ Mergeable never new b

theorem MergedBehind.cons {start stop : ℕ} (a : VmArea)
    (h : MergedBehind never new rest start stop) :
    MergedBehind never new (a :: rest) start stop := by
  obtain ⟨a₀, ha₀, hstop, hless, hwhere, b, hb, hbstart⟩ := h
  refine ⟨a₀, .tail _ ha₀, hstop, hless, hwhere.imp_right ?_, b, .tail _ hb, hbstart⟩
  rintro ⟨p, hp, hpstop⟩
  exact ⟨p, .tail _ hp, hpstop⟩

/-- An area of another type leaves the part of the region behind it to the next areas. -/
theorem mergedBehind_cons_iff {start stop : ℕ}
    (h : Canonical (a :: rest)) (hstart : start < a.stop) (hstop : a.stop < stop)
    (hother : Other new a) :
    MergedBehind never new (a :: rest) start stop ↔ MergedBehind never new rest a.stop stop := by
  obtain ⟨ha, harest, hr⟩ := canonical_cons.1 h
  constructor
  · rintro ⟨a₀, ha₀, hstop₀, hless, hwhere, b, hb, hbstart, hmergeable⟩
    replace ha₀ : a₀ ∈ rest := (List.mem_cons.1 ha₀).resolve_left (by rintro rfl; omega)
    replace hb : b ∈ rest := (List.mem_cons.1 hb).resolve_left (by rintro rfl; omega)
    refine ⟨a₀, ha₀, hstop₀, hless, ?_, b, hb, hbstart, hmergeable⟩
    have hle := harest a₀ ha₀
    obtain hwhere | ⟨p, hp, hpstop, -, hpother⟩ := hwhere
    · omega
    · rcases List.mem_cons.1 hp with rfl | hp
      · exact .inl hpstop.ge
      · have h₁ := harest p hp
        have h₂ := hr.nonempty p hp
        exact .inr ⟨p, hp, hpstop, by omega, hpother⟩
  · rintro ⟨a₀, ha₀, hstop₀, hless, hwhere, b, hb, hbstart, hmergeable⟩
    refine ⟨a₀, .tail _ ha₀, hstop₀, hless, .inr ?_, b, .tail _ hb, hbstart, hmergeable⟩
    have hle := harest a₀ ha₀
    obtain hwhere | ⟨p, hp, hpstop, hlt, hpother⟩ := hwhere
    · exact ⟨a, .head _, by omega, hstart, hother⟩
    · exact ⟨p, .tail _ hp, hpstop, by omega, hpother⟩

/-- An area that the region does not reach, or that has its type, plays no part. -/
theorem mergedBehind_cons_iff_of_not_other {start stop : ℕ}
    (h : Canonical (a :: rest)) (hlt : start < stop) (ha : a.stop ≤ start ∨ ¬Other new a) :
    MergedBehind never new (a :: rest) start stop ↔ MergedBehind never new rest start stop := by
  obtain ⟨hne, harest, hr⟩ := canonical_cons.1 h
  refine ⟨?_, MergedBehind.cons a⟩
  rintro ⟨a₀, ha₀, hstop₀, hless, hwhere, b, hb, hbstart, hmergeable⟩
  replace ha₀ : a₀ ∈ rest := by
    refine (List.mem_cons.1 ha₀).resolve_left ?_
    rintro rfl
    obtain ha | ha := ha
    · omega
    · exact hless (by rw [not_not.1 ha]; exact .refl new)
  have h₁ := harest a₀ ha₀
  have h₂ := hr.nonempty a₀ ha₀
  replace hb : b ∈ rest := (List.mem_cons.1 hb).resolve_left (by rintro rfl; omega)
  refine ⟨a₀, ha₀, hstop₀, hless, hwhere.imp_right ?_, b, hb, hbstart, hmergeable⟩
  rintro ⟨p, hp, hpstop, hplt, hpother⟩
  refine ⟨p, (List.mem_cons.1 hp).resolve_left ?_, hpstop, hplt, hpother⟩
  rintro rfl
  obtain ha | ha := ha
  · omega
  · exact ha hpother

/-- The region does not reach beyond the first area, or ends before all of them. -/
theorem mergedBehind_iff_of_le {start stop : ℕ}
    (h : Canonical (a :: rest)) (hstop : stop ≤ a.stop) :
    MergedBehind never new (a :: rest) start stop ↔ a.stop = stop ∧
      ¬Lessened new (dropFlags new a.flags) ∧ a.start ≤ start ∧
      ∃ b ∈ rest, b.start = stop ∧ Mergeable never new b := by
  obtain ⟨hne, harest, hr⟩ := canonical_cons.1 h
  constructor
  · rintro ⟨a₀, ha₀, hstop₀, hless, hwhere, b, hb, hbstart, hmergeable⟩
    rcases List.mem_cons.1 ha₀ with rfl | ha₀
    · refine ⟨hstop₀, hless, ?_, b, (List.mem_cons.1 hb).resolve_left (by rintro rfl; omega),
        hbstart, hmergeable⟩
      obtain hwhere | ⟨p, hp, hpstop, -⟩ := hwhere
      · exact hwhere
      · rcases List.mem_cons.1 hp with rfl | hp
        · omega
        · have h₁ := harest p hp
          have h₂ := hr.nonempty p hp
          omega
    · have h₁ := harest a₀ ha₀
      have h₂ := hr.nonempty a₀ ha₀
      omega
  · rintro ⟨hstop₀, hless, hle, b, hb, hbstart⟩
    exact ⟨a, .head _, hstop₀, hless, .inl hle, b, .tail _ hb, hbstart⟩

/-- Behind an area that the region does not leave, the next area is collected exactly if it starts
where that area and the region end. -/
theorem any_head_touches_iff {start stop : ℕ}
    (h : Canonical (a :: rest)) (hlt : start < stop) (hstop : stop ≤ a.stop) :
    rest.head?.any (touches never new start stop) = true ↔
      a.stop = stop ∧ ∃ b ∈ rest, b.start = stop ∧ Mergeable never new b := by
  obtain ⟨ha, harest, hr⟩ := canonical_cons.1 h
  cases rest with
  | nil => simp
  | cons b rest =>
    obtain ⟨hb, hbrest, -⟩ := canonical_cons.1 hr
    have hab := harest b List.mem_cons_self
    rw [List.head?_cons, Option.any_some, touches_iff]
    constructor
    · rintro (hover | ⟨-, hle, hmergeable⟩)
      · omega
      · exact ⟨by omega, b, .head _, by omega, hmergeable⟩
    · rintro ⟨heq, c, hc, hcstart, hmergeable⟩
      rcases List.mem_cons.1 hc with rfl | hc
      · exact .inr ⟨by omega, by omega, hmergeable⟩
      · have := hbrest c hc
        omega

theorem misfits_iff {collected rest : List VmArea} {start stop : ℕ} (hlt : start < stop)
    (h : Canonical (collected ++ rest)) (hmet : Met collected start stop) :
    Misfits never new collected start stop rest ↔
      (∃ a ∈ rest, a.start = start ∧ stop ≤ a.stop ∧ Other new a ∧
        (collected ≠ [] ∨ ∃ b ∈ rest, b.stop = start ∧ Mergeable never new b)) ∨
      MergedBehind never new rest start stop := by
  induction rest generalizing collected start with
  | nil => simp [Misfits, MergedBehind]
  | cons a rest ih =>
    obtain ⟨hc, har, hca⟩ := canonical_append.1 h
    obtain ⟨ha, harest, hr⟩ := canonical_cons.1 har
    have hnonempty := hr.nonempty
    have hlea : ∀ b ∈ collected, b.stop ≤ a.start := fun b hb ↦ hca b hb a List.mem_cons_self
    have hcanonical : Canonical (collected ++ dropped new a :: rest) := h.of_map (by simp [dropped])
    have hbehind {s : ℕ} (hs : s < stop) : Misfits never new [] s stop rest ↔ _ :=
      @ih [] s hs hr (by simp [Met])
    -- behind an area, no area ends where the rest of the region starts
    have hnofront (hs : a.stop < stop) :
        Misfits never new [] a.stop stop rest ↔ MergedBehind never new rest a.stop stop := by
      rw [hbehind hs, or_iff_right]
      rintro ⟨-, -, -, -, -, hnil | ⟨b, hb, hbstop, -⟩⟩
      · exact hnil rfl
      · have h₁ := harest b hb
        have h₂ := hnonempty b hb
        omega
    have hfirst : ∀ b ∈ a :: rest, a.start ≤ b.start := har.head_start_le (List.cons_ne_nil a rest)
    -- the region ends before all the areas
    have hends (hs : stop ≤ a.start) : ¬((∃ b ∈ a :: rest, b.start = start ∧ stop ≤ b.stop ∧
        Other new b ∧ (collected ≠ [] ∨ ∃ c ∈ a :: rest, c.stop = start ∧ Mergeable never new c)) ∨
        MergedBehind never new (a :: rest) start stop) := by
      rw [mergedBehind_iff_of_le har (by omega)]
      rintro (⟨b, hb, hbstart, -⟩ | ⟨hstop, -⟩)
      · have := hfirst b hb
        omega
      · omega
    rw [Misfits]
    split_ifs with htouches hne hcut hstop hnil hstop
    · have hover := lt_stop_of_touches htouches hne
      rw [or_iff_right]
      · by_cases hstop : a.stop < stop
        · rw [and_iff_right hstop, hnofront hstop,
            mergedBehind_cons_iff har hover.1 hstop (Ne.symm hne)]
        · rw [mergedBehind_iff_of_le har (by omega)]
          refine iff_of_false (fun hmis ↦ hstop hmis.1) ?_
          rintro ⟨-, -, hle, -⟩
          omega
      · rintro ⟨b, hb, hbstart, -⟩
        have := hfirst b hb
        omega
    · have hover := lt_stop_of_touches htouches hne
      rw [or_iff_right, hnofront hstop, mergedBehind_cons_iff har hover.1 hstop (Ne.symm hne)]
      rintro ⟨b, hb, hbstart, hbstop, -⟩
      rcases List.mem_cons.1 hb with rfl | hb
      · omega
      · have := harest b hb
        omega
    · have hover := lt_stop_of_touches htouches hne
      rw [mergedBehind_iff_of_le har (by omega)]
      refine or_congr ⟨fun hnil ↦ ?_, ?_⟩ ?_
      · obtain ⟨b, hb⟩ := List.exists_mem_of_ne_nil _ hnil
        have h₁ := hmet b hb
        have h₂ := hlea b hb
        exact ⟨a, .head _, by omega, by omega, Ne.symm hne, .inl hnil⟩
      · rintro ⟨b, hb, hbstart, -, -, hnil | ⟨c, hc', hcstop, -⟩⟩
        · exact hnil
        · rcases List.mem_cons.1 hc' with rfl | hc'
          · omega
          · have h₁ := harest c hc'
            have h₂ := hnonempty c hc'
            omega
      · rw [and_comm, ← and_assoc, and_comm (a := a.stop = stop), and_assoc, dropped]
        refine and_congr_right fun _ ↦ ?_
        rw [and_iff_right (by omega : a.start ≤ start)]
        exact any_head_touches_iff har hlt (by omega)
    · have hflags : dropFlags new a.flags = new := (not_not.1 hne).symm
      have hother : ¬Other new a := fun h ↦ h hflags
      have hmet' : Met (collected ++ [dropped new a]) start stop := by
        intro b hb
        rcases List.mem_append.1 hb with hb | hb
        · exact hmet b hb
        · rw [List.mem_singleton.1 hb]
          exact (le_stop_of_touches htouches : start ≤ a.stop ∧ a.start ≤ stop)
      rw [ih hlt (by simpa using hcanonical) hmet',
        mergedBehind_cons_iff_of_not_other har hlt (.inr hother)]
      refine or_congr_left ⟨?_, ?_⟩
      · rintro ⟨b, hb, hbstart, hbstop, hbother, -⟩
        refine ⟨b, .tail _ hb, hbstart, hbstop, hbother, .inr ⟨a, .head _, ?_⟩⟩
        have hab := harest b hb
        obtain hover | ⟨hle, -, hmergeable⟩ := touches_iff.1 htouches
        · omega
        · exact ⟨by omega, hmergeable⟩
      · rintro ⟨b, hb, hbstart, hbstop, hbother, -⟩
        rcases List.mem_cons.1 hb with rfl | hb
        · exact absurd hbother hother
        · exact ⟨b, hb, hbstart, hbstop, hbother, .inl (by simp)⟩
    · obtain ⟨b, hb⟩ := List.exists_mem_of_ne_nil _ hnil
      have h₁ := hmet b hb
      have h₂ := hlea b hb
      have h₃ := not_overlaps_of_not_touches htouches
      exact iff_of_false not_false (hends (by omega))
    · exact iff_of_false not_false (hends hstop)
    · have hover := not_overlaps_of_not_touches htouches
      obtain rfl := not_not.1 hnil
      rw [hbehind hlt, mergedBehind_cons_iff_of_not_other har hlt (.inl (by omega))]
      refine or_congr_left ⟨?_, ?_⟩
      · rintro ⟨b, hb, hbstart, hbstop, hother, hnil | ⟨c, hc', hcstop⟩⟩
        · exact absurd rfl hnil
        · exact ⟨b, .tail _ hb, hbstart, hbstop, hother, .inr ⟨c, .tail _ hc', hcstop⟩⟩
      · rintro ⟨b, hb, hbstart, hbstop, hother, hnil | ⟨c, hc', hcstop, hmergeable⟩⟩
        · exact absurd rfl hnil
        · have hb' : b ∈ rest := (List.mem_cons.1 hb).resolve_left (by rintro rfl; omega)
          refine ⟨b, hb', hbstart, hbstop, hother, .inr ⟨c, ?_, hcstop, hmergeable⟩⟩
          refine (List.mem_cons.1 hc').resolve_left ?_
          rintro rfl
          exact htouches (touches_iff.2 (.inr ⟨by omega, by omega, hmergeable⟩))

/-- Adding the region changes no type of memory that was covered, and what was not covered gets
the flags of the region. -/
def KeepsTypes (never : Bool) (new : AreaFlags) (buf : List VmArea) (start stop : ℕ) : Prop :=
  ∀ x, KeepsAt new (start ≤ x ∧ x < stop) (flagsAt buf x)
    (flagsAt (addVmArea never new buf start stop) x)

theorem keepsTypes_iff_not_merged {buf : List VmArea} (h : Canonical buf) {start stop : ℕ}
    (hlt : start < stop) :
    KeepsTypes never new buf start stop ↔
      ¬(MergedFront never new buf start stop ∨ MergedBehind never new buf start stop) := by
  have hkeeps := @keeps_scan_iff never new [] [] buf start stop hlt h (by simp [Met]) (by simp) .nil
  rw [@misfits_iff never new [] buf start stop hlt h (by simp [Met])] at hkeeps
  rw [KeepsTypes, addVmArea_eq_scan h]
  refine hkeeps.trans (not_congr (or_congr_left ?_))
  simp only [ne_eq, not_true_eq_false, false_or]
  rfl

end

/-- **When an addition changes no type.**  On a vector in order, which `Run.canonical` shows every
vector to be, the types of all addresses are right after an addition except when an area that
swallows the region, or the end of it, is merged with a neighbour that has the region's type. -/
theorem Canonical.keepsTypes_iff {never : Bool} {new : AreaFlags} {buf : List VmArea}
    (h : Canonical buf) {start stop : ℕ} (hlt : start < stop) :
    KeepsTypes never new buf start stop ↔
      ¬(MergedFront never new buf start stop ∨ MergedBehind never new buf start stop) :=
  keepsTypes_iff_not_merged h hlt

/-- An area of plain code, and behind it one of self-modifying code, whose fragments have the flag
`FRAG_SELFMOD_SANDBOXED`. -/
def plainThenSelfmod : List VmArea :=
  [⟨0x1000, 0x2000, ⟨0, 0⟩⟩, ⟨0x2000, 0x3000, ⟨0, 0x8000⟩⟩]

theorem canonical_plainThenSelfmod : Canonical plainThenSelfmod :=
  ⟨by decide, by decide⟩

/-- Adding plain code at the start of the area of self-modifying code makes all of it plain. -/
theorem not_keepsTypes_selfmod :
    ¬KeepsTypes false ⟨0, 0⟩ plainThenSelfmod 0x2000 0x2800 := by
  rw [keepsTypes_iff_not_merged canonical_plainThenSelfmod (by decide), not_not]
  refine .inl ⟨⟨0x2000, 0x3000, ⟨0, 0x8000⟩⟩, by decide, rfl, by decide, by unfold Other; decide,
    ⟨0x1000, 0x2000, ⟨0, 0⟩⟩, by decide, rfl, rfl, by decide, rfl⟩

/-- Adding plain code in the middle of the area of self-modifying code changes nothing. -/
theorem keepsTypes_selfmod_middle :
    KeepsTypes false ⟨0, 0⟩ plainThenSelfmod 0x2400 0x2800 := by
  rw [canonical_plainThenSelfmod.keepsTypes_iff (by decide)]
  rintro (⟨a, ha, hstart, -⟩ | ⟨a, ha, hstop, -⟩)
  · revert a
    decide
  · revert a
    decide

end VmArea

end DrAvx
