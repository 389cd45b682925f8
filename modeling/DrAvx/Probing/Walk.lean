import DrAvx.Probing.Basic

/-!
# Where a removal moves entries

`Probing.Basic` shows that the walk of Algorithm R leaves a table in which every entry can be
reached.  A program that goes over the slots of a table and removes entries on its way has to know
more: which slots the walk has changed, and where the entries in them come from.

The walk from slot `i` goes forward on the circle and stops before it comes back to `i`.  So the
slots it has not come to are unchanged, and every entry it moves goes back towards `i` and towards
its home position.  Whether the walk crosses the end of the array is a question about the table
before the removal:

* if it does not cross, nothing below `i` moves;
* if it crosses right away, the entry that comes into slot `i` is from the start of the array, and
  nothing above `i` moves;
* otherwise an entry from above `i` comes into slot `i` and an entry from the start of the array
  comes to its end.

The third case is a `Hazard`: it takes an entry at the start of the array whose home position is at
the end, and no cut between `i` and that home position.
-/

set_option autoImplicit false

namespace Probing

variable {A : Type*} {n : ℕ} {home : A → ℕ} {T slots : ℕ → Option A} {i hole cur : ℕ}

/-! ## The walk -/

/-- The states of the walk that follows the removal of the entry in slot `i` of the table `T`: the
slots, the hole and the slot the walk has come to. -/
inductive Walk (n : ℕ) (home : A → ℕ) (T : ℕ → Option A) (i : ℕ) : (ℕ → Option A) → ℕ → ℕ → Prop
  | start : Walk n home T i (Function.update T i none) i i
  | skip {slots : ℕ → Option A} {hole cur : ℕ} {a : A} (h : Walk n home T i slots hole cur)
      (ha : slots (next n cur) = some a)
      (hkeep : ¬dist n (home a) hole < dist n (home a) (next n cur)) :
      Walk n home T i slots hole (next n cur)
  | move {slots : ℕ → Option A} {hole cur : ℕ} {a : A} (h : Walk n home T i slots hole cur)
      (ha : slots (next n cur) = some a)
      (hcut : dist n (home a) hole < dist n (home a) (next n cur)) :
      Walk n home T i (Function.update (Function.update slots hole (some a)) (next n cur) none)
        (next n cur) (next n cur)

/-- What holds in every state of the walk: the slots up to `cur` were taken, those behind the hole
are as they were, and an entry that was moved was moved back, from a slot up to the hole and nearer
to its home position. -/
structure Walked (n : ℕ) (home : A → ℕ) (T : ℕ → Option A) (i : ℕ) (slots : ℕ → Option A)
    (hole cur : ℕ) : Prop where
  hole_lt : hole < n
  cur_lt : cur < n
  hole_le : dist n i hole ≤ dist n i cur
  taken : ∀ x < n, dist n i x ≤ dist n i cur → T x ≠ none
  ahead : ∀ x < n, dist n i hole < dist n i x → slots x = T x
  kept : ∀ x, x ≠ hole → T x ≠ none → slots x ≠ none
  source : ∀ x < n, ∀ a, slots x = some a → ∃ y < n, T y = some a ∧
    (x = y ∧ x ≠ i ∨ dist n i x < dist n i y ∧ dist n i y ≤ dist n i hole) ∧
    dist n (home a) x ≤ dist n (home a) y

/-- The walk does not come back to the slot it began at, since there is a free slot before that. -/
theorem Walked.dist_next_cur (h : Walked n home T i slots hole cur) (hi : i < n)
    (hfree : ∃ k < n, T k = none) : dist n i (next n cur) = dist n i cur + 1 := by
  obtain ⟨k, hk, hnone⟩ := hfree
  have hbehind : dist n i cur < dist n i k := by
    by_contra hle
    exact h.taken k hk (Nat.le_of_not_lt hle) hnone
  have hlast := dist_lt hi hk
  have hcur := h.cur_lt
  refine dist_next_right hi hcur fun heq ↦ ?_
  rw [next_eq hcur] at heq
  have hd : dist n i cur = n - 1 := by
    rw [dist]
    split_ifs at heq ⊢ <;> omega
  omega

/-- The slot the walk comes to next is as it was. -/
theorem Walked.eq_next (h : Walked n home T i slots hole cur) (hi : i < n)
    (hfree : ∃ k < n, T k = none) : slots (next n cur) = T (next n cur) := by
  refine h.ahead _ (next_lt h.cur_lt) ?_
  have hle := h.hole_le
  rw [h.dist_next_cur hi hfree]
  omega

theorem Walked.start (hi : i < n) (hTi : T i ≠ none) :
    Walked n home T i (Function.update T i none) i i where
  hole_lt := hi
  cur_lt := hi
  hole_le := le_rfl
  taken x hx hle := by
    rw [dist_self] at hle
    rwa [← dist_eq_zero hi (Nat.le_zero.1 hle)]
  ahead x hx hlt := by
    refine Function.update_of_ne ?_ _ _
    rintro rfl
    exact absurd hlt (lt_irrefl _)
  kept x hxi hx := by rwa [Function.update_of_ne hxi]
  source x hx a ha := by
    have hxi : x ≠ i := by
      rintro rfl
      rw [Function.update_self] at ha
      exact absurd ha (by simp)
    rw [Function.update_of_ne hxi] at ha
    exact ⟨x, hx, ha, .inl ⟨rfl, hxi⟩, le_rfl⟩

/-- The slots up to the next one were taken if that one was. -/
theorem Walked.taken_next (h : Walked n home T i slots hole cur) (hi : i < n)
    (hfree : ∃ k < n, T k = none) {a : A} (ha : T (next n cur) = some a) :
    ∀ x < n, dist n i x ≤ dist n i (next n cur) → T x ≠ none := by
  intro x hx hle
  rw [h.dist_next_cur hi hfree] at hle
  rcases Nat.lt_or_ge (dist n i cur) (dist n i x) with hlt | hge
  · have hxc : x = next n cur := by
      refine dist_inj hi hx (next_lt h.cur_lt) ?_
      rw [h.dist_next_cur hi hfree]
      omega
    rw [hxc, ha]
    exact Option.some_ne_none a
  · exact h.taken x hx hge

theorem Walked.skip (h : Walked n home T i slots hole cur) (hi : i < n)
    (hfree : ∃ k < n, T k = none) {a : A} (ha : slots (next n cur) = some a) :
    Walked n home T i slots hole (next n cur) where
  hole_lt := h.hole_lt
  cur_lt := next_lt h.cur_lt
  hole_le := by
    have hle := h.hole_le
    rw [h.dist_next_cur hi hfree]
    omega
  taken := h.taken_next hi hfree ((h.eq_next hi hfree).symm.trans ha)
  ahead := h.ahead
  kept := h.kept
  source := h.source

theorem Walked.move (h : Walked n home T i slots hole cur) (hi : i < n)
    (hfree : ∃ k < n, T k = none) {a : A} (ha : slots (next n cur) = some a)
    (hcut : dist n (home a) hole < dist n (home a) (next n cur)) :
    Walked n home T i (Function.update (Function.update slots hole (some a)) (next n cur) none)
      (next n cur) (next n cur) := by
  have hnext := next_lt h.cur_lt
  have hTa : T (next n cur) = some a := (h.eq_next hi hfree).symm.trans ha
  have hfurther : dist n i hole < dist n i (next n cur) := by
    have hle := h.hole_le
    rw [h.dist_next_cur hi hfree]
    omega
  have hne : hole ≠ next n cur := by
    intro heq
    rw [heq] at hfurther
    exact absurd hfurther (lt_irrefl _)
  refine ⟨hnext, hnext, le_rfl, h.taken_next hi hfree hTa, ?_, ?_, ?_⟩
  · intro x hx hlt
    have hxn : x ≠ next n cur := by
      rintro rfl
      exact absurd hlt (lt_irrefl _)
    have hxh : x ≠ hole := by
      rintro rfl
      omega
    rw [Function.update_of_ne hxn, Function.update_of_ne hxh]
    exact h.ahead x hx (hfurther.trans hlt)
  · intro x hxn hx
    rw [Function.update_of_ne hxn]
    by_cases hxh : x = hole
    · rw [hxh, Function.update_self]
      exact Option.some_ne_none a
    · rw [Function.update_of_ne hxh]
      exact h.kept x hxh hx
  · intro x hx b hb
    have hxn : x ≠ next n cur := by
      rintro rfl
      rw [Function.update_self] at hb
      exact absurd hb (by simp)
    rw [Function.update_of_ne hxn] at hb
    by_cases hxh : x = hole
    · -- the entry that this step has moved
      subst hxh
      rw [Function.update_self, Option.some.injEq] at hb
      subst hb
      exact ⟨next n cur, hnext, hTa, .inr ⟨hfurther, le_rfl⟩, hcut.le⟩
    · rw [Function.update_of_ne hxh] at hb
      obtain ⟨y, hy, hTy, hmoved, hnear⟩ := h.source x hx b hb
      exact ⟨y, hy, hTy, hmoved.imp_right fun hm ↦ ⟨hm.1, hm.2.trans hfurther.le⟩, hnear⟩

section

variable (hi : i < n) (hTi : T i ≠ none) (hfree : ∃ k < n, T k = none)
include hi hTi hfree

theorem Walk.walked (h : Walk n home T i slots hole cur) : Walked n home T i slots hole cur := by
  induction h with
  | start => exact Walked.start hi hTi
  | skip _ ha _ ih => exact ih.skip hi hfree ha
  | move _ ha hcut ih => exact ih.move hi hfree ha hcut

theorem Walk.gap (hT : Unbroken n home T) (h : Walk n home T i slots hole cur) :
    Gap n home slots hole cur := by
  induction h with
  | start => exact hT.gap hi
  | skip h ha hkeep ih =>
    have hw := h.walked hi hTi hfree
    refine ih.skip hw.hole_lt hw.cur_lt (fun heq ↦ ?_) ha hkeep
    rw [heq, ih.free] at ha
    exact absurd ha (by simp)
  | move h ha hcut ih =>
    have hw := h.walked hi hTi hfree
    exact ih.move hw.hole_lt (next_lt hw.cur_lt) ha hcut

end

/-! ## Crossing the end of the array -/

/-- If the hole is not below `i`, nothing below `i` has moved. -/
theorem Walked.eq_of_lt (h : Walked n home T i slots hole cur) (hi : i < n) (hle : i ≤ hole) {x : ℕ}
    (hx : x < i) : slots x = T x := by
  have hh := h.hole_lt
  refine h.ahead x (hx.trans hi) ?_
  rw [dist, dist]
  split_ifs <;> omega

/-- If the hole is not below `i`, entries above `i` have moved down only. -/
theorem Walked.source_of_le (h : Walked n home T i slots hole cur) (hle : i ≤ hole) {x : ℕ}
    (hx : i ≤ x) (hxn : x < n) {a : A} (ha : slots x = some a) :
    ∃ y < n, T y = some a ∧ (x = y ∧ x ≠ i ∨ x < y) := by
  obtain ⟨y, hy, hTy, hmoved, -⟩ := h.source x hxn a ha
  refine ⟨y, hy, hTy, hmoved.imp_right fun hm ↦ ?_⟩
  have hh := h.hole_lt
  rw [dist, dist, dist] at hm
  split_ifs at hm <;> omega

/-- A walk that has crossed the end found all slots from `i` on taken. -/
theorem Walked.full (h : Walked n home T i slots hole cur) (hi : i < n) (hlt : hole < i) {x : ℕ}
    (hx : i ≤ x) (hxn : x < n) : T x ≠ none := by
  refine h.taken x hxn (le_trans ?_ h.hole_le)
  rw [dist, dist]
  split_ifs <;> omega

/-- The walk has crossed the end with its next hole if it had before or does now. -/
theorem Walked.next_lt_iff (h : Walked n home T i slots hole cur) (hi : i < n)
    (hfree : ∃ k < n, T k = none) : next n cur < i ↔ hole < i ∨ next n cur < hole := by
  have hd := h.dist_next_cur hi hfree
  have hle := h.hole_le
  have hh := h.hole_lt
  have hnext := next_lt h.cur_lt
  have hfurther : dist n i hole < dist n i (next n cur) := by omega
  rw [dist, dist] at hfurther
  split_ifs at hfurther <;> omega

/-- Some entry above slot `x` is reached from its home position through `x`, within the array. -/
def Spanned (n : ℕ) (home : A → ℕ) (T : ℕ → Option A) (x : ℕ) : Prop :=
  ∃ y b, x < y ∧ y < n ∧ T y = some b ∧ home b ≤ x

/-- A removal from slot `i` moves an entry from above `i` into slot `i` and an entry from the start
of the array to its end. -/
def Hazard (n : ℕ) (home : A → ℕ) (T : ℕ → Option A) (i : ℕ) : Prop :=
  Spanned n home T i ∧ ∃ j w, j < n ∧ T j = some w ∧ j < home w ∧
    ∀ x, i ≤ x → x < home w → Spanned n home T x

section

variable (hi : i < n) (hTi : T i ≠ none) (hfree : ∃ k < n, T k = none) (hT : Unbroken n home T)
  (hhome : ∀ a, home a < n)
include hi hTi hfree

/-- Once there has been a move, but not across the end, slot `i` holds an entry from above. -/
theorem Walk.pulled (h : Walk n home T i slots hole cur) (hlt : i < hole) :
    ∃ y b, i < y ∧ y < n ∧ T y = some b ∧ slots i = some b := by
  have hw := h.walked hi hTi hfree
  obtain ⟨b, hb⟩ := Option.ne_none_iff_exists'.1 (hw.kept i hlt.ne hTi)
  obtain ⟨y, hy, hTy, ⟨-, hii⟩ | hiy⟩ := hw.source_of_le hlt.le le_rfl hi hb
  · exact absurd rfl hii
  · exact ⟨y, b, hiy, hy, hTy, hb⟩

include hT hhome

/-- Before the walk crosses the end, every slot from `i` up to the hole is spanned, provided that
the array is full from `i` on. -/
theorem Walk.spanned (hfull : ∀ x, i ≤ x → x < n → T x ≠ none)
    (h : Walk n home T i slots hole cur) (hle : i ≤ hole) :
    ∀ x, i ≤ x → x < hole → Spanned n home T x := by
  induction h with
  | start => exact fun x hx hxi ↦ absurd hxi (by omega)
  | skip _ _ _ ih => exact ih hle
  | @move slots hole cur a h ha hcut ih =>
    intro x hx hxn
    have hw := h.walked hi hTi hfree
    have hTa := (hw.eq_next hi hfree).symm.trans ha
    have hnext := next_lt hw.cur_lt
    have hfurther : dist n i hole < dist n i (next n cur) := by
      have hd := hw.dist_next_cur hi hfree
      have hle' := hw.hole_le
      omega
    have hbelow : i ≤ hole ∧ hole < next n cur := by
      rw [dist, dist] at hfurther
      have hh := hw.hole_lt
      split_ifs at hfurther <;> omega
    rcases Nat.lt_or_ge x hole with hxh | hxh
    · exact ih hbelow.1 x hx hxh
    -- the home position of the entry is not beyond its slot: the table would be full
    have hnear : home a ≤ next n cur := by
      by_contra hwrap
      have hlast := hhome a
      obtain ⟨k, hk, hnone⟩ := hfree
      have hki : k < i := by
        by_contra hik
        exact hfull k (Nat.le_of_not_lt hik) hk hnone
      refine hT _ hnext a hTa k hk ?_ hnone
      rw [dist, dist]
      split_ifs <;> omega
    refine ⟨next n cur, a, hxn, hnext, hTa, ?_⟩
    rw [dist, dist] at hcut
    split_ifs at hcut <;> omega

/-- What the walk has done when it has crossed the end. -/
theorem Walk.crossed (h : Walk n home T i slots hole cur) (hlt : hole < i) :
    ((∀ x, i < x → x < n → slots x = T x) ∧ ¬Spanned n home T i) ∨
      Hazard n home T i ∧ ∃ y b, i < y ∧ y < n ∧ T y = some b ∧ slots i = some b := by
  induction h with
  | start => exact absurd hlt (lt_irrefl _)
  | skip _ _ _ ih => exact ih hlt
  | @move slots hole cur a h ha hcut ih =>
    have hw := h.walked hi hTi hfree
    have hw' := (h.move ha hcut).walked hi hTi hfree
    have hTa := (hw.eq_next hi hfree).symm.trans ha
    -- neither the new hole nor a hole below `i` is one of the slots in question
    have hsame : ∀ x, i ≤ x → x ≠ hole →
        Function.update (Function.update slots hole (some a)) (next n cur) none x = slots x := by
      intro x hx hxh
      rw [Function.update_of_ne (by omega), Function.update_of_ne hxh]
    rcases Nat.lt_or_ge hole i with hbelow | habove
    · refine (ih hbelow).imp (fun hgood ↦ ⟨fun x hx hxn ↦ ?_, hgood.2⟩) fun hbad ↦ ⟨hbad.1, ?_⟩
      · rw [hsame x hx.le (by omega), hgood.1 x hx hxn]
      · obtain ⟨y, b, hy, hyn, hTy, hb⟩ := hbad.2
        exact ⟨y, b, hy, hyn, hTy, (hsame i le_rfl (by omega)).trans hb⟩
    have hcross : next n cur < home a ∧ home a ≤ hole := by
      have hlast := hhome a
      have hh := hw.hole_lt
      rw [dist, dist] at hcut
      split_ifs at hcut <;> omega
    rcases Nat.eq_or_lt_of_le habove with rfl | hmoved
    · -- the first move crosses the end, so the walk has passed all slots above `i`
      refine .inl ⟨fun x hx hxn ↦ ?_, ?_⟩
      · rw [hsame x hx.le (by omega)]
        refine hw.ahead x hxn ?_
        rw [dist_self, dist, if_pos hx.le]
        omega
      · rintro ⟨z, b, hz, hzn, hTz, hb⟩
        have hd := hw.dist_next_cur hi hfree
        have hpassed : dist n i z ≤ dist n i cur := by
          rw [dist, if_neg (by omega)] at hd
          rw [dist, if_pos hz.le]
          omega
        have hslot : slots z = some b := by
          rw [hw.ahead z hzn (by rw [dist_self, dist, if_pos hz.le]; omega), hTz]
        refine (h.gap hi hTi hfree hT).settled z hzn b hslot hpassed ?_
        rw [dist, dist]
        split_ifs <;> omega
    · have hspan := h.spanned hi hTi hfree hT hhome (fun x hx hxn ↦ hw'.full hi hlt hx hxn) habove
      obtain ⟨y, b, hy, hyn, hTy, hb⟩ := h.pulled hi hTi hfree hmoved
      refine .inr ⟨⟨hspan i le_rfl hmoved, next n cur, a, hw'.hole_lt, hTa, hcross.1, ?_⟩, y, b, hy,
        hyn, hTy, (hsame i le_rfl hmoved.ne).trans hb⟩
      exact fun x hx hxa ↦ hspan x hx (by omega)

/-- A walk that ends has crossed the end of the array if there was a hazard. -/
theorem Walk.crosses (h : Walk n home T i slots hole cur)
    (hend : slots (next n cur) = none) (hz : Hazard n home T i) : hole < i := by
  have hw := h.walked hi hTi hfree
  have hgap := h.gap hi hTi hfree hT
  have hun := hgap.close hhome hw.hole_lt hw.cur_lt hend
  have hh := hw.hole_lt
  obtain ⟨hspan, j, w, hj, hTj, hjw, hall⟩ := hz
  by_contra hle
  have hle := Nat.le_of_not_lt hle
  -- nothing behind the hole is reached through it
  have hcut : ¬Spanned n home T hole := by
    rintro ⟨z, b, hz, hzn, hTz, hb⟩
    have hslot : slots z = some b := by
      rw [hw.ahead z hzn, hTz]
      rw [dist, dist, if_pos hle, if_pos (by omega)]
      omega
    refine hun z hzn b hslot hole hh ?_ hgap.free
    rw [dist, dist, if_pos hb, if_pos (by omega)]
    omega
  have hwh : home w ≤ hole := by
    by_contra hlt
    exact hcut (hall hole hle (by omega))
  have hji : j < i := by
    by_contra hij
    -- all slots would be taken
    obtain ⟨k, hk, hnone⟩ := hfree
    rcases Nat.lt_or_ge k (home w) with hkw | hkw
    · rcases Nat.lt_or_ge k i with hki | hki
      · refine hT j hj w hTj k hk ?_ hnone
        rw [dist, dist, if_neg (by omega), if_neg (by omega)]
        omega
      · refine hw.taken k hk (le_trans ?_ hw.hole_le) hnone
        rw [dist, dist, if_pos hki, if_pos hle]
        omega
    · refine hT j hj w hTj k hk ?_ hnone
      rw [dist, dist, if_pos hkw, if_neg (by omega)]
      omega
  have hslot : slots j = some w := by rw [hw.eq_of_lt hi hle hji, hTj]
  refine hun j hj w hslot hole hh ?_ hgap.free
  rw [dist, dist, if_pos hwh, if_neg (by omega)]
  omega

end

/-! ## Hazards that remain -/

theorem Hazard.mono {T' : ℕ → Option A} {k : ℕ}
    (hspan : ∀ x, k ≤ x → Spanned n home T' x → Spanned n home T x)
    (hwrap : ∀ j w, j < n → T' j = some w → j < home w →
      ∃ y, y < n ∧ T y = some w ∧ y < home w)
    (h : Hazard n home T' k) : Hazard n home T k := by
  obtain ⟨hk, j, w, hj, hjw, hlt, hall⟩ := h
  obtain ⟨y, hy, hyw, hlt'⟩ := hwrap j w hj hjw hlt
  exact ⟨hspan k le_rfl hk, y, w, hy, hyw, hlt', fun x hx hxw ↦ hspan x hx (hall x hx hxw)⟩

/-- An entry below its home position was below it before. -/
theorem Walked.source_lt_home (h : Walked n home T i slots hole cur) (hhome : ∀ a, home a < n)
    {j : ℕ} {w : A} (hj : j < n) (hjw : slots j = some w) (hlt : j < home w) :
    ∃ y, y < n ∧ T y = some w ∧ y < home w := by
  obtain ⟨y, hy, hyw, -, hnear⟩ := h.source j hj w hjw
  refine ⟨y, hy, hyw, ?_⟩
  have hw := hhome w
  rw [dist, dist] at hnear
  split_ifs at hnear <;> omega

/-- A removal from `i` that does not cross the end makes no hazard from `i` on. -/
theorem Walked.hazard_of_le (h : Walked n home T i slots hole cur) (hhome : ∀ a, home a < n)
    (hle : i ≤ hole) {k : ℕ} (hk : i ≤ k) (hz : Hazard n home slots k) : Hazard n home T k := by
  refine hz.mono (fun x hx ↦ ?_) fun j w hj ↦ h.source_lt_home hhome hj
  rintro ⟨y, b, hxy, hyn, hb, hbx⟩
  obtain ⟨z, hz, hzb, hmoved⟩ := h.source_of_le hle (by omega) hyn hb
  exact ⟨z, b, by omega, hz, hzb, hbx⟩

/-- A removal from `i` that leaves everything above `i` in place makes no hazard above `i`. -/
theorem Walked.hazard_of_eq (h : Walked n home T i slots hole cur) (hhome : ∀ a, home a < n)
    (heq : ∀ x, i < x → x < n → slots x = T x) {k : ℕ} (hk : i < k)
    (hz : Hazard n home slots k) : Hazard n home T k := by
  refine hz.mono (fun x hx ↦ ?_) fun j w hj ↦ h.source_lt_home hhome hj
  rintro ⟨y, b, hxy, hyn, hb, hbx⟩
  exact ⟨y, b, hxy, hyn, (heq y (by omega) hyn).symm.trans hb, hbx⟩

end Probing
