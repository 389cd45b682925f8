import Mathlib.Data.Finset.Card

/-!
# Linear probing

The slots of an open-addressing table are the positions `0, …, n - 1` of a circle.  An entry is put
into the first free slot from its home position on, so a search that starts at the home position
may stop at the first free slot it meets.  What makes that right is `Unbroken`: all slots from the
home position of an entry up to the slot it is in are taken.

Emptying a slot may break that for the entries behind it.  Knuth's Algorithm R repairs it by walking
on from the hole and pulling back the first entry that the hole cuts off from its home position;
the slot that entry was in is the next hole.  `Gap` is the invariant of the walk: only the hole may
break the way to an entry, and only to an entry the walk has not come to yet.
-/

set_option autoImplicit false

namespace Probing

variable {A : Type*} {n : ℕ}

/-! ## The circle -/

/-- The number of steps forward from `i` to `j` on a circle of `n` positions. -/
def dist (n i j : ℕ) : ℕ :=
  if i ≤ j then j - i else j + n - i

/-- The position after `i`. -/
def next (n i : ℕ) : ℕ :=
  (i + 1) % n

variable {i j : ℕ}

theorem next_eq (hi : i < n) : next n i = if i + 1 = n then 0 else i + 1 := by
  rw [next]
  split_ifs with h
  · rw [h, Nat.mod_self]
  · exact Nat.mod_eq_of_lt (by omega)

theorem next_lt (hi : i < n) : next n i < n :=
  Nat.mod_lt _ (by omega)

@[simp] theorem dist_self (i : ℕ) : dist n i i = 0 := by
  simp [dist]

theorem dist_lt (hi : i < n) (hj : j < n) : dist n i j < n := by
  rw [dist]
  split_ifs <;> omega

theorem dist_eq_zero (hi : i < n) (h : dist n i j = 0) : i = j := by
  rw [dist] at h
  split_ifs at h <;> omega

theorem dist_next (hi : i < n) (hj : j < n) (hij : i ≠ j) :
    dist n i j = dist n (next n i) j + 1 := by
  rw [next_eq hi, dist, dist]
  split_ifs <;> omega

theorem dist_next_right (hi : i < n) (hj : j < n) (hij : next n j ≠ i) :
    dist n i (next n j) = dist n i j + 1 := by
  rw [next_eq hj] at hij ⊢
  rw [dist, dist]
  split_ifs at hij ⊢ <;> omega

theorem dist_inj {i j k : ℕ} (hi : i < n) (hj : j < n) (hk : k < n)
    (h : dist n i j = dist n i k) : j = k := by
  rw [dist, dist] at h
  split_ifs at h <;> omega

/-- If a walk from `i` meets `h` before `j`, it meets what lies between `h` and `j` before `j`
too. -/
theorem dist_between {i h j k : ℕ} (hi : i < n) (hh : h < n) (hj : j < n)
    (hhj : dist n i h < dist n i j) (hkj : dist n h k < dist n h j) :
    dist n i k < dist n i j := by
  rw [dist, dist] at hhj hkj ⊢
  split_ifs at hhj hkj ⊢ <;> omega

/-! ## Searching -/

/-- The search from position `i` on: it stops at a free slot or at an entry that is a hit, and is
given up after `fuel` slots. -/
def probe (n : ℕ) (slots : ℕ → Option A) (hit : A → Bool) : ℕ → ℕ → Option ℕ
  | 0, _ => none
  | fuel + 1, i =>
    match slots i with
    | none => some i
    | some a => if hit a then some i else probe n slots hit fuel (next n i)

variable {slots : ℕ → Option A} {hit : A → Bool}

/-- The search goes on behind `i`. -/
def Passes (slots : ℕ → Option A) (hit : A → Bool) (i : ℕ) : Prop :=
  ∃ a, slots i = some a ∧ hit a = false

theorem probe_of_passes (h : Passes slots hit i) (fuel : ℕ) :
    probe n slots hit (fuel + 1) i = probe n slots hit fuel (next n i) := by
  obtain ⟨a, ha, hhit⟩ := h
  rw [probe, ha]
  simp [hhit]

theorem probe_of_not_passes (h : ¬Passes slots hit i) (fuel : ℕ) :
    probe n slots hit (fuel + 1) i = some i := by
  rw [probe]
  cases ha : slots i with
  | none => rfl
  | some a =>
    cases hhit : hit a with
    | false => exact absurd ⟨a, ha, hhit⟩ h
    | true => simp [hhit]

/-- A search that ends has passed all slots before the one it stops at. -/
theorem probe_sound {fuel s i : ℕ} (hs : s < n) (h : probe n slots hit fuel s = some i) :
    i < n ∧ ¬Passes slots hit i ∧ ∀ j < n, dist n s j < dist n s i → Passes slots hit j := by
  induction fuel generalizing s with
  | zero => simp [probe] at h
  | succ fuel ih =>
    by_cases hp : Passes slots hit s
    · rw [probe_of_passes hp] at h
      obtain ⟨hi, hstop, hpass⟩ := ih (next_lt hs) h
      have hsi : s ≠ i := by
        rintro rfl
        exact hstop hp
      refine ⟨hi, hstop, fun j hj hlt ↦ ?_⟩
      by_cases hsj : s = j
      · exact hsj ▸ hp
      · rw [dist_next hs hj hsj, dist_next hs hi hsi] at hlt
        exact hpass j hj (by omega)
    · rw [probe_of_not_passes hp, Option.some.injEq] at h
      subst h
      exact ⟨hs, hp, fun j _ hlt ↦ absurd hlt (by simp)⟩

/-- A search ends if there is a slot to stop at. -/
theorem exists_probe {fuel s k : ℕ} (hs : s < n) (hk : k < n) (hstop : ¬Passes slots hit k)
    (hfuel : dist n s k < fuel) : ∃ i, probe n slots hit fuel s = some i := by
  induction fuel generalizing s with
  | zero => omega
  | succ fuel ih =>
    by_cases hp : Passes slots hit s
    · have hsk : s ≠ k := by
        rintro rfl
        exact hstop hp
      rw [dist_next hs hk hsk] at hfuel
      rw [probe_of_passes hp]
      exact ih (next_lt hs) (by omega)
    · exact ⟨s, probe_of_not_passes hp fuel⟩

/-! ## Entries reachable from their home positions -/

/-- All slots from the home position of an entry up to its own slot are taken. -/
def Unbroken (n : ℕ) (home : A → ℕ) (slots : ℕ → Option A) : Prop :=
  ∀ j < n, ∀ a, slots j = some a → ∀ i < n, dist n (home a) i < dist n (home a) j → slots i ≠ none

variable {home : A → ℕ}

variable {a : A}

/-- A search for an entry of the table, from its home position, stops at a hit. -/
theorem Unbroken.probe_hit (h : Unbroken n home slots) {fuel i j : ℕ} (hj : j < n)
    (ha : slots j = some a) (hhome : home a < n) (hhit : hit a = true)
    (hi : probe n slots hit fuel (home a) = some i) : ∃ b, slots i = some b ∧ hit b = true := by
  obtain ⟨hin, hstop, hpass⟩ := probe_sound hhome hi
  have hji : ¬dist n (home a) j < dist n (home a) i := by
    intro hlt
    obtain ⟨b, hb, hmiss⟩ := hpass j hj hlt
    rw [ha, Option.some.injEq] at hb
    rw [← hb, hhit] at hmiss
    exact absurd hmiss (by simp)
  have hne : slots i ≠ none := by
    rcases Nat.lt_or_ge (dist n (home a) i) (dist n (home a) j) with hlt | hge
    · exact h j hj a ha i hin hlt
    · have hij : i = j := dist_inj hhome hin hj (by omega)
      rw [hij, ha]
      exact Option.some_ne_none a
  obtain ⟨b, hb⟩ := Option.ne_none_iff_exists'.1 hne
  refine ⟨b, hb, ?_⟩
  by_contra hmiss
  exact hstop ⟨b, hb, by simpa using hmiss⟩

/-- An entry may be put into a free slot if all slots before that, from its home position on, are
taken. -/
theorem Unbroken.insert (h : Unbroken n home slots)
    (hbefore : ∀ j < n, dist n (home a) j < dist n (home a) i → slots j ≠ none) :
    Unbroken n home (Function.update slots i (some a)) := by
  intro j hj b hb k hk hlt
  by_cases hki : k = i
  · rw [hki, Function.update_self]
    exact Option.some_ne_none a
  rw [Function.update_of_ne hki]
  by_cases hji : j = i
  · subst hji
    rw [Function.update_self, Option.some.injEq] at hb
    subst hb
    exact hbefore k hk hlt
  · rw [Function.update_of_ne hji] at hb
    exact h j hj b hb k hk hlt

/-! ## Closing a gap -/

/-- The slot `hole` is free and may cut off entries from their home positions, but none of those in
the slots from the hole up to `cur`. -/
structure Gap (n : ℕ) (home : A → ℕ) (slots : ℕ → Option A) (hole cur : ℕ) : Prop where
  free : slots hole = none
  unbroken : ∀ j < n, ∀ a, slots j = some a → ∀ i < n, dist n (home a) i < dist n (home a) j →
    i ≠ hole → slots i ≠ none
  settled : ∀ j < n, ∀ a, slots j = some a → dist n hole j ≤ dist n hole cur →
    ¬dist n (home a) hole < dist n (home a) j

/-- Emptying a slot makes a gap. -/
theorem Unbroken.gap (h : Unbroken n home slots) {hole : ℕ} (hh : hole < n) :
    Gap n home (Function.update slots hole none) hole hole where
  free := Function.update_self ..
  unbroken := by
    intro j hj a ha i hi hlt hne
    have hjh : j ≠ hole := by
      rintro rfl
      simp at ha
    rw [Function.update_of_ne hjh] at ha
    rw [Function.update_of_ne hne]
    exact h j hj a ha i hi hlt
  settled := by
    intro j hj a ha hle
    rw [dist_self] at hle
    have hjh : hole = j := dist_eq_zero hh (Nat.le_zero.1 hle)
    subst hjh
    simp at ha

variable {hole cur : ℕ}

/-- The walk passes an entry that the hole does not cut off. -/
theorem Gap.skip (h : Gap n home slots hole cur) (hh : hole < n) (hc : cur < n)
    (hne : next n cur ≠ hole) (ha : slots (next n cur) = some a)
    (hkeep : ¬dist n (home a) hole < dist n (home a) (next n cur)) :
    Gap n home slots hole (next n cur) where
  free := h.free
  unbroken := h.unbroken
  settled := by
    intro j hj b hb hle
    rcases Nat.lt_or_ge (dist n hole cur) (dist n hole j) with hlt | hge
    · have hjc : j = next n cur := by
        refine dist_inj hh hj (next_lt hc) ?_
        rw [dist_next_right hh hc hne] at hle ⊢
        omega
      subst hjc
      rw [ha, Option.some.injEq] at hb
      exact hb ▸ hkeep
    · exact h.settled j hj b hb hge

/-- Moving a cut-off entry from `j` into the hole makes `j` the hole. -/
theorem Gap.move (h : Gap n home slots hole cur) (hh : hole < n) {j : ℕ} (hj : j < n)
    (ha : slots j = some a) (hcut : dist n (home a) hole < dist n (home a) j) :
    Gap n home (Function.update (Function.update slots hole (some a)) j none) j j where
  free := Function.update_self ..
  unbroken := by
    intro k hk b hb i hi hlt hij
    have hkj : k ≠ j := by
      rintro rfl
      simp at hb
    rw [Function.update_of_ne hkj] at hb
    rw [Function.update_of_ne hij]
    by_cases hih : i = hole
    · rw [hih, Function.update_self]
      exact Option.some_ne_none a
    rw [Function.update_of_ne hih]
    by_cases hkh : k = hole
    · -- the entry that was moved: its way to the hole is a part of its way to `j`
      subst hkh
      rw [Function.update_self, Option.some.injEq] at hb
      subst hb
      exact h.unbroken j hj a ha i hi (by omega) hih
    · rw [Function.update_of_ne hkh] at hb
      exact h.unbroken k hk b hb i hi hlt hih
  settled := by
    intro k hk b hb hle
    rw [dist_self] at hle
    have hjk : j = k := dist_eq_zero hj (Nat.le_zero.1 hle)
    subst hjk
    simp at hb

/-- When the walk comes to a free slot, the gap cuts off no entry. -/
theorem Gap.close (h : Gap n home slots hole cur) (hhome : ∀ a, home a < n) (hh : hole < n)
    (hc : cur < n) (hfree : slots (next n cur) = none) : Unbroken n home slots := by
  have hkeep : ∀ j < n, ∀ a, slots j = some a → ¬dist n (home a) hole < dist n (home a) j := by
    intro j hj a ha hcut
    rcases Nat.lt_or_ge (dist n hole cur) (dist n hole j) with hlt | hge
    · by_cases hne : next n cur = hole
      · -- the walk has come to the hole itself, so that nothing lies behind `cur`
        have hjh : hole ≠ j := by
          rintro rfl
          rw [h.free] at ha
          exact absurd ha (by simp)
        rw [next_eq hc] at hne
        rw [dist, dist] at hlt
        split_ifs at hne hlt <;> omega
      · have hjc : j ≠ next n cur := by
          rintro rfl
          rw [hfree] at ha
          exact absurd ha (by simp)
        have hbefore : dist n hole (next n cur) < dist n hole j := by
          have hdj : dist n hole j ≠ dist n hole (next n cur) :=
            fun heq ↦ hjc (dist_inj hh hj (next_lt hc) heq)
          rw [dist_next_right hh hc hne] at hdj ⊢
          omega
        exact h.unbroken j hj a ha _ (next_lt hc)
          (dist_between (hhome a) hh hj hcut hbefore) hne hfree
    · exact h.settled j hj a ha hge hcut
  intro j hj a ha i hi hlt
  refine h.unbroken j hj a ha i hi hlt ?_
  rintro rfl
  exact hkeep j hj a ha hlt

/-! ## Counting -/

/-- The slots that are taken. -/
def taken (n : ℕ) (slots : ℕ → Option A) : Finset ℕ :=
  (Finset.range n).filter fun i ↦ (slots i).isSome

theorem mem_taken : i ∈ taken n slots ↔ i < n ∧ (slots i).isSome := by
  rw [taken, Finset.mem_filter, Finset.mem_range]

theorem card_taken_le : (taken n slots).card ≤ n :=
  (Finset.card_filter_le _ _).trans (by rw [Finset.card_range])

theorem card_taken_lt_iff : (taken n slots).card < n ↔ ∃ i < n, slots i = none := by
  constructor
  · intro hlt
    by_contra hall
    push Not at hall
    have hfull : taken n slots = Finset.range n := by
      ext i
      rw [mem_taken, Finset.mem_range, and_iff_left_iff_imp]
      exact fun hi ↦ Option.isSome_iff_ne_none.2 (hall i hi)
    rw [hfull, Finset.card_range] at hlt
    exact lt_irrefl _ hlt
  · rintro ⟨i, hi, hnone⟩
    have hsub : taken n slots ⊂ Finset.range n := by
      refine ⟨Finset.filter_subset _ _, fun hsup ↦ ?_⟩
      have := (mem_taken.1 (hsup (Finset.mem_range.2 hi))).2
      rw [hnone] at this
      exact absurd this (by simp)
    calc (taken n slots).card < (Finset.range n).card := Finset.card_lt_card hsub
      _ = n := Finset.card_range n

end Probing
