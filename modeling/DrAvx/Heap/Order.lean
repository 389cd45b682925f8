import Mathlib.Logic.Equiv.Basic
import Mathlib.Order.Basic

/-!
# Heap order on positions

A binary heap in an array is an order condition on positions: the entry at a position is never
worse than the entry at a position it is the parent of.  Here the parent of `i > 0` is `i / 2`, so
position `0` has the single child `1` and every other position `i` has the children `2 i` and
`2 i + 1`.  The array itself plays no part: all a heap operation needs to know about its contents
is which of two positions holds the worse entry, and a swap of two entries exchanges the two
positions in that relation (`swapped`).

Moving an entry up or down is a sequence of swaps in between which the order fails around one
position only, the *hole*.  `Sinking` and `Rising` say how it may fail there, and the two swap
lemmas `Sinking.swap` and `Rising.swap` say that one swap moves the hole by one level.
-/

set_option autoImplicit false

namespace Heap

variable {n : ℕ} {worse : ℕ → ℕ → Prop}

/-- On the positions below `n`, `worse` is a strict weak order. -/
structure Ranks (n : ℕ) (worse : ℕ → ℕ → Prop) : Prop where
  asymm : ∀ {i j : ℕ}, i < n → j < n → worse i j → ¬worse j i
  split : ∀ {i j k : ℕ}, i < n → j < n → k < n → worse i k → worse i j ∨ worse j k

theorem Ranks.trans (h : Ranks n worse) {i j k : ℕ} (hi : i < n) (hj : j < n) (hk : k < n)
    (hij : ¬worse i j) (hjk : ¬worse j k) : ¬worse i k :=
  fun hik ↦ (h.split hi hj hk hik).elim hij hjk

/-- The entry at `i` does not beat the one at its parent. -/
def Ordered (n : ℕ) (worse : ℕ → ℕ → Prop) (i : ℕ) : Prop :=
  0 < i → i < n → ¬worse (i / 2) i

/-- No entry beats the one at its parent. -/
def IsHeap (n : ℕ) (worse : ℕ → ℕ → Prop) : Prop :=
  ∀ i, Ordered n worse i

/-- No child of `k` beats the parent of `k`, whatever stands at `k` itself. -/
def Bridged (n : ℕ) (worse : ℕ → ℕ → Prop) (k : ℕ) : Prop :=
  0 < k → ∀ c, c / 2 = k → c < n → ¬worse (k / 2) c

/-- The order may fail between `k` and its parent and between `k` and its children. -/
structure Sinking (n : ℕ) (worse : ℕ → ℕ → Prop) (k : ℕ) : Prop where
  ordered : ∀ i, i ≠ k → i / 2 ≠ k → Ordered n worse i
  bridged : Bridged n worse k

/-- The order may fail between `k` and its parent only. -/
structure Rising (n : ℕ) (worse : ℕ → ℕ → Prop) (k : ℕ) : Prop where
  ordered : ∀ i, i ≠ k → Ordered n worse i
  bridged : Bridged n worse k

theorem Rising.isHeap {k : ℕ} (h : Rising n worse k) (hk : Ordered n worse k) :
    IsHeap n worse := by
  intro i
  by_cases hi : i = k
  · rw [hi]
    exact hk
  · exact h.ordered i hi

theorem IsHeap.rising (hr : Ranks n worse) (h : IsHeap n worse) (k : ℕ) : Rising n worse k := by
  refine ⟨fun i _ ↦ h i, fun hk c hc hcn ↦ ?_⟩
  have hkc : ¬worse k c := hc ▸ h c (by omega) hcn
  exact hr.trans (by omega) (by omega) hcn (h k hk (by omega)) hkc

/-! ## Swapping two entries -/

/-- The relation on positions after the entries at `a` and `b` have changed places. -/
def swapped (worse : ℕ → ℕ → Prop) (a b i j : ℕ) : Prop :=
  worse (Equiv.swap a b i) (Equiv.swap a b j)

theorem swapped_left {a b j : ℕ} (ha : j ≠ a) (hb : j ≠ b) :
    swapped worse a b a j ↔ worse b j := by
  rw [swapped, Equiv.swap_apply_left, Equiv.swap_apply_of_ne_of_ne ha hb]

theorem swapped_right {a b i : ℕ} (ha : i ≠ a) (hb : i ≠ b) :
    swapped worse a b i b ↔ worse i a := by
  rw [swapped, Equiv.swap_apply_right, Equiv.swap_apply_of_ne_of_ne ha hb]

theorem swapped_comm (a b : ℕ) : swapped worse a b = swapped worse b a := by
  funext i j
  rw [swapped, swapped, Equiv.swap_comm]

theorem swapped_both {a b : ℕ} : swapped worse a b a b ↔ worse b a := by
  rw [swapped, Equiv.swap_apply_left, Equiv.swap_apply_right]

theorem swapped_of_ne {a b i j : ℕ} (hia : i ≠ a) (hib : i ≠ b) (hja : j ≠ a) (hjb : j ≠ b) :
    swapped worse a b i j ↔ worse i j := by
  rw [swapped, Equiv.swap_apply_of_ne_of_ne hia hib, Equiv.swap_apply_of_ne_of_ne hja hjb]

/-! ## Moving the hole down -/

/-- Where no child of `k` beats it, only the order above `k` may fail. -/
theorem Sinking.rising {k : ℕ} (h : Sinking n worse k)
    (hbest : ∀ c, 0 < c → c / 2 = k → c < n → ¬worse k c) : Rising n worse k := by
  refine ⟨fun i hik ↦ ?_, h.bridged⟩
  by_cases hchild : i / 2 = k
  · intro hpos hlt
    rw [hchild]
    exact hbest i hpos hchild hlt
  · exact h.ordered i hik hchild

/-- Exchanging the entry at `k` with a child `m` that no other child beats moves the hole to `m`,
and the order above the new hole holds. -/
theorem Sinking.swap {k m : ℕ} (h : Sinking n worse k) (hm : 0 < m) (hparent : m / 2 = k)
    (hlt : m < n) (hle : ¬worse m k)
    (hbest : ∀ c, 0 < c → c / 2 = k → c < n → ¬worse m c) :
    Sinking n (swapped worse k m) m ∧ ∀ i, i / 2 ≠ m → Ordered n (swapped worse k m) i := by
  have hkm : k ≠ m := by omega
  have hordered : ∀ i, i / 2 ≠ m → Ordered n (swapped worse k m) i := by
    intro i hi hpos hin
    by_cases hik : i = k
    · -- the parent of the hole has a new child, which was its grandchild
      subst hik
      rw [swapped_comm, swapped_right (by omega) (by omega)]
      exact h.bridged hpos m hparent hlt
    by_cases hchild : i / 2 = k
    · rw [hchild]
      by_cases him : i = m
      · rw [him, swapped_both]
        exact hle
      · rw [swapped_left hik him]
        exact hbest i hpos hchild hin
    · rw [swapped_of_ne hchild hi hik (by rintro rfl; exact hchild hparent)]
      exact h.ordered i hik hchild hpos hin
  refine ⟨⟨fun i _ hi ↦ hordered i hi, fun _ c hc hcn ↦ ?_⟩, hordered⟩
  rw [hparent, swapped_left (by omega) (by omega), ← hc]
  exact h.ordered c (by omega) (by omega) (by omega) hcn

/-! ## Moving the hole up -/

/-- Exchanging the entry at `k` with a worse one at its parent moves the hole to the parent. -/
theorem Rising.swap {k : ℕ} (hr : Ranks n worse) (h : Rising n worse k) (hk : 0 < k) (hlt : k < n)
    (hworse : worse (k / 2) k) : Rising n (swapped worse k (k / 2)) (k / 2) := by
  have hp : k / 2 < k := by omega
  -- a sibling of `k` does not beat the old parent, which is worse than the new one
  have hsibling : ∀ i, 0 < i → i < n → i / 2 = k / 2 → ¬worse k i := by
    intro i hpos hin hi hki
    by_cases hik : i = k
    · subst hik
      exact hr.asymm hin hin hki hki
    refine h.ordered i hik hpos hin ?_
    rw [hi]
    exact (hr.split (by omega) hin hlt hworse).elim id
      fun hik' ↦ absurd hki (hr.asymm hin hlt hik')
  refine ⟨fun i hi hpos hin ↦ ?_, fun hpp c hc hcn ↦ ?_⟩
  · by_cases hik : i = k
    · subst hik
      rw [swapped_comm, swapped_both]
      exact hr.asymm (by omega) hin hworse
    by_cases hchild : i / 2 = k
    · rw [hchild, swapped_left (by omega) hi]
      exact h.bridged hk i hchild hin
    by_cases hsib : i / 2 = k / 2
    · rw [hsib, swapped_comm, swapped_left hi hik]
      exact hsibling i hpos hin hsib
    · rw [swapped_of_ne hchild hsib hik hi]
      exact h.ordered i hik hpos hin
  · have hup : ¬worse (k / 2 / 2) (k / 2) := h.ordered (k / 2) (by omega) hpp (by omega)
    by_cases hck : c = k
    · subst hck
      rw [swapped_comm, swapped_right (by omega) (by omega)]
      exact hup
    · rw [swapped_of_ne (by omega) (by omega) hck (by omega)]
      have hcp : ¬worse (k / 2) c := by
        have := h.ordered c hck (by omega) hcn
        rwa [hc] at this
      exact hr.trans (by omega) (by omega) hcn hup hcp

/-! ## Descendants -/

/-- The position `j` lies below `i`: some number of steps to the parent lead from `j` to `i`. -/
def Descends : ℕ → ℕ → Prop :=
  Relation.TransGen fun j i ↦ 0 < j ∧ i = j / 2

theorem Descends.le {j i : ℕ} (h : Descends j i) : i ≤ j := by
  induction h with
  | single h => omega
  | tail _ h ih => omega

theorem descends_zero {j : ℕ} (hj : 0 < j) : Descends j 0 := by
  induction j using Nat.strongRecOn with
  | ind j ih =>
    by_cases hp : j / 2 = 0
    · exact .single ⟨hj, hp.symm⟩
    · exact .head ⟨hj, rfl⟩ (ih (j / 2) (by omega) (by omega))

/-- In a heap no entry is worse than one below it. -/
theorem IsHeap.not_worse (hr : Ranks n worse) (h : IsHeap n worse) {i j : ℕ} (hd : Descends j i)
    (hj : j < n) : ¬worse i j := by
  induction hd with
  | single hd => exact hd.2 ▸ h j hd.1 hj
  | @tail k l hd hkl ih =>
    have hk : k ≤ j := Descends.le hd
    have hlk : ¬worse l k := hkl.2 ▸ h k hkl.1 (by omega)
    exact hr.trans (by omega) (by omega) hj hlk ih

end Heap
