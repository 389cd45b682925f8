import Mathlib.Data.List.Nodup
import Mathlib.Data.Set.Insert
import DrAvx.Heap.Order

/-!
# The scheduler's flexible queue

`flexible_queue_t` is a priority queue from which any entry can be removed: a heap in a vector,
`entries_`, together with a map `entry2index_` from each entry to its position.  The heap starts at
index `0` but computes its children as `2 i` and `2 i + 1`, so that node `0` is its own left child.

The invariant has two halves.  `Indexed` ties the map to the vector and is kept by every swap; the
heap order is that of `Heap.IsHeap`, for the relation on positions that the comparator induces, and
a swap of entries is a swap of positions in it (`worse_swap`), so that both percolations follow
from the two swap lemmas of the library.
-/

set_option autoImplicit false

namespace DrAvx

open Heap

variable {α : Type*}

/-- The state of a `flexible_queue_t`. -/
structure FlexibleQueue (α : Type*) where
  /-- The heap. -/
  entries : List α
  /-- The position of every entry of the heap. -/
  entry2index : α → Option ℕ

namespace FlexibleQueue

/-- The queue of the default constructor. -/
def new : FlexibleQueue α := ⟨[], fun _ ↦ none⟩

/-- `compare_(entries_[i], entries_[j])`: the entry at `i` is worse than the one at `j`. -/
def worse (compare : α → α → Bool) (l : List α) (i j : ℕ) : Bool :=
  match l[i]?, l[j]? with
  | some x, some y => compare x y
  | _, _ => false

/-- The order on positions that the comparator induces. -/
abbrev Worse (compare : α → α → Bool) (q : FlexibleQueue α) : ℕ → ℕ → Prop :=
  fun i j ↦ worse compare q.entries i j = true

/-- The parent of a node, where `none` stands for `INVALID_INDEX`. -/
def parentNode (node : ℕ) : Option ℕ :=
  if node ≤ 0 then none else some (node / 2)

def leftChild (q : FlexibleQueue α) (node : ℕ) : Option ℕ :=
  let child := node * 2
  if q.entries.length ≤ child then none else some child

def rightChild (q : FlexibleQueue α) (node : ℕ) : Option ℕ :=
  let child := node * 2 + 1
  if q.entries.length ≤ child then none else some child

/-- The node whose entry `percolate_down` puts at `node`. -/
def shouldBeParent (compare : α → α → Bool) (q : FlexibleQueue α) (node : ℕ) : ℕ :=
  let left := q.leftChild node
  let right := q.rightChild node
  let should :=
    match left with
    | some l => if !worse compare q.entries l node then l else node
    | none => node
  match right with
  | some r =>
    if !worse compare q.entries r node then
      -- an invalid `left` is different from `should`, and is not looked up
      if some should ≠ left ∨ left.all (fun l ↦ !worse compare q.entries r l) = true then r
      else should
    else should
  | none => should

variable [DecidableEq α]

def swap (q : FlexibleQueue α) (a b : ℕ) : FlexibleQueue α :=
  match q.entries[a]?, q.entries[b]? with
  | some x, some y =>
    { entries := (q.entries.set a y).set b x
      entry2index := Function.update (Function.update q.entry2index x (some b)) y (some a) }
  | _, _ => q

@[simp] theorem length_swap (q : FlexibleQueue α) (a b : ℕ) :
    (q.swap a b).entries.length = q.entries.length := by
  rw [swap]
  split <;> simp

omit [DecidableEq α] in
/-- The node that goes up is the node itself or a node of a larger index: node `0`, which is its
own left child, is only ever exchanged with its right one. -/
theorem shouldBeParent_cases (compare : α → α → Bool) (q : FlexibleQueue α) (node : ℕ) :
    q.shouldBeParent compare node = node ∨
      node < q.shouldBeParent compare node ∧
        q.shouldBeParent compare node < q.entries.length := by
  grind [shouldBeParent, leftChild, rightChild]

def percolateDown (compare : α → α → Bool) (q : FlexibleQueue α) (node : ℕ) : FlexibleQueue α :=
  let should := q.shouldBeParent compare node
  if should = node then q else percolateDown compare (q.swap node should) should
termination_by q.entries.length - node
decreasing_by
  have := q.shouldBeParent_cases compare node
  rw [length_swap]
  omega

def percolateUp (compare : α → α → Bool) (q : FlexibleQueue α) (node : ℕ) : FlexibleQueue α :=
  match _h : parentNode node with
  | none => q
  | some parent =>
    if !worse compare q.entries parent node then q
    else percolateUp compare (q.swap node parent) parent
termination_by node
decreasing_by
  grind [parentNode]

def push (compare : α → α → Bool) (q : FlexibleQueue α) (entry : α) : FlexibleQueue α × Bool :=
  if (q.entry2index entry).isSome then (q, false)
  else
    let node := q.entries.length
    let q : FlexibleQueue α :=
      ⟨q.entries ++ [entry], Function.update q.entry2index entry (some node)⟩
    (percolateUp compare q node, true)

/-- The first entry, if there is one: the source leaves the case of an empty queue undefined. -/
def top (q : FlexibleQueue α) : Option α :=
  q.entries[0]?

/-- The last entry is gone from the vector and `entry` from the map. -/
def popBack (q : FlexibleQueue α) (entry : α) : FlexibleQueue α :=
  ⟨q.entries.dropLast, Function.update q.entry2index entry none⟩

def erase (compare : α → α → Bool) (q : FlexibleQueue α) (entry : α) : FlexibleQueue α × Bool :=
  match q.entry2index entry with
  | none => (q, false)
  | some node =>
    if node = q.entries.length - 1 then (q.popBack entry, true)
    else
      let q := (q.swap node (q.entries.length - 1)).popBack entry
      (percolateUp compare (percolateDown compare q node) node, true)

/-- Removes the first entry of a queue that has one. -/
def pop (compare : α → α → Bool) (q : FlexibleQueue α) : Option (FlexibleQueue α) :=
  q.top.map fun entry ↦ (q.erase compare entry).1

/-! ## Swaps -/

variable {q : FlexibleQueue α}

theorem getElem?_swap {a b : ℕ} (ha : a < q.entries.length)
    (hb : b < q.entries.length) (i : ℕ) :
    (q.swap a b).entries[i]? = q.entries[Equiv.swap a b i]? := by
  rw [swap, List.getElem?_eq_getElem ha, List.getElem?_eq_getElem hb]
  dsimp only
  rw [Equiv.swap_apply_def, List.getElem?_set, List.getElem?_set]
  grind

theorem worse_swap (compare : α → α → Bool) {a b : ℕ}
    (ha : a < q.entries.length) (hb : b < q.entries.length) :
    (q.swap a b).Worse compare = swapped (q.Worse compare) a b := by
  funext i j
  rw [swapped, Worse, Worse, worse, worse, getElem?_swap ha hb, getElem?_swap ha hb]

/-- The map gives every entry its position, and knows nothing else. -/
def Indexed (q : FlexibleQueue α) : Prop :=
  ∀ a i, q.entry2index a = some i ↔ q.entries[i]? = some a

omit [DecidableEq α] in
theorem Indexed.injective (h : Indexed q) {a : α} {i j : ℕ}
    (hi : q.entries[i]? = some a) (hj : q.entries[j]? = some a) : i = j := by
  rw [← h] at hi hj
  exact Option.some.inj (hi.symm.trans hj)

omit [DecidableEq α] in
theorem Indexed.nodup (h : Indexed q) : q.entries.Nodup := by
  rw [List.nodup_iff_injective_getElem]
  intro i j hij
  refine Fin.ext (h.injective (List.getElem?_eq_getElem i.2) ?_)
  rw [List.getElem?_eq_getElem j.2]
  exact congrArg some hij.symm

omit [DecidableEq α] in
theorem Indexed.isSome_iff (h : Indexed q) (a : α) :
    (q.entry2index a).isSome ↔ a ∈ q.entries := by
  rw [Option.isSome_iff_exists, List.mem_iff_getElem?]
  exact exists_congr (h a)

theorem Indexed.swap (h : Indexed q) {a b : ℕ} (ha : a < q.entries.length)
    (hb : b < q.entries.length) : Indexed (q.swap a b) := by
  intro x i
  rw [getElem?_swap ha hb]
  have hx : ∀ j, q.entries[j]? = some x ↔ q.entry2index x = some j := fun j ↦ (h x j).symm
  have hxa := hx a
  have hxb := hx b
  rw [List.getElem?_eq_getElem ha, Option.some_inj] at hxa
  rw [List.getElem?_eq_getElem hb, Option.some_inj] at hxb
  rw [FlexibleQueue.swap, List.getElem?_eq_getElem ha, List.getElem?_eq_getElem hb, hx,
    Equiv.swap_apply_def]
  dsimp only
  rw [Function.update_apply, Function.update_apply]
  grind

/-- The second queue is the first after some swaps. -/
inductive Swaps : FlexibleQueue α → FlexibleQueue α → Prop
  | refl (q : FlexibleQueue α) : Swaps q q
  | swap {q q' : FlexibleQueue α} (a b : ℕ) (ha : a < q.entries.length)
      (hb : b < q.entries.length) (h : Swaps (q.swap a b) q') : Swaps q q'

namespace Swaps

variable {q q' : FlexibleQueue α}

theorem length_eq (h : Swaps q q') : q'.entries.length = q.entries.length := by
  induction h with
  | refl => rfl
  | swap a b ha hb _ ih => rw [ih, length_swap]

theorem indexed (h : Swaps q q') (hq : Indexed q) : Indexed q' := by
  induction h with
  | refl => exact hq
  | swap a b ha hb _ ih => exact ih (hq.swap ha hb)

theorem mem_iff (h : Swaps q q') (x : α) : x ∈ q'.entries ↔ x ∈ q.entries := by
  induction h with
  | refl => rfl
  | swap a b ha hb _ ih =>
    rw [ih, List.mem_iff_getElem?, List.mem_iff_getElem?]
    refine ⟨fun ⟨i, hi⟩ ↦ ⟨Equiv.swap a b i, ?_⟩, fun ⟨i, hi⟩ ↦ ⟨Equiv.swap a b i, ?_⟩⟩
    · rwa [← getElem?_swap ha hb]
    · rwa [getElem?_swap ha hb, Equiv.swap_apply_self]

end Swaps

theorem swaps_percolateDown (compare : α → α → Bool) {node : ℕ}
    (hnode : node < q.entries.length) : Swaps q (q.percolateDown compare node) := by
  fun_induction percolateDown compare q node with
  | case1 => exact .refl _
  | case2 q node should hne ih =>
    have hlt : should < q.entries.length :=
      ((q.shouldBeParent_cases compare node).resolve_left hne).2
    exact .swap node should hnode hlt (ih (by rwa [length_swap]))

theorem swaps_percolateUp (compare : α → α → Bool) {node : ℕ}
    (hnode : node < q.entries.length) : Swaps q (q.percolateUp compare node) := by
  fun_induction percolateUp compare q node with
  | case1 | case2 => exact .refl _
  | case3 q node parent hparent hworse ih =>
    have hlt : parent < q.entries.length := by grind [parentNode]
    exact .swap node parent hnode hlt (ih (by rwa [length_swap]))

/-! ## Heap order -/

/-- The heap order of the vector. -/
def Sorted (compare : α → α → Bool) (q : FlexibleQueue α) : Prop :=
  IsHeap q.entries.length (q.Worse compare)

section Order

variable {compare : α → α → Bool} [IsStrictWeakOrder α (compare · · = true)]

omit [DecidableEq α] in
theorem compare_split {x z : α} (y : α) (h : compare x z = true) :
    compare x y = true ∨ compare y z = true := by
  by_contra hn
  obtain ⟨hxy, hyz⟩ := not_or.1 hn
  have hyx : ¬compare y x = true := fun hyx ↦ hyz (trans_of (compare · · = true) hyx h)
  have hzy : ¬compare z y = true := fun hzy ↦ hxy (trans_of (compare · · = true) h hzy)
  have hxz : ¬compare x z = true ∧ ¬compare z x = true :=
    @IsStrictWeakOrder.incomp_trans α (compare · · = true) _ x y z ⟨hxy, hyx⟩ ⟨hyz, hzy⟩
  exact hxz.1 h

omit [DecidableEq α] in
theorem ranks (q : FlexibleQueue α) : Ranks q.entries.length (q.Worse compare) where
  asymm {i j} hi hj := by
    simp only [Worse, worse, List.getElem?_eq_getElem hi, List.getElem?_eq_getElem hj]
    exact asymm_of (compare · · = true)
  split {i j k} hi hj hk := by
    simp only [Worse, worse, List.getElem?_eq_getElem hi, List.getElem?_eq_getElem hj,
      List.getElem?_eq_getElem hk]
    exact compare_split _

omit [DecidableEq α] in
/-- Either no child beats the entry at `node`, or the node chosen is a child that no other one
beats and that is not worse than `node`. -/
theorem shouldBeParent_spec (q : FlexibleQueue α) {node should : ℕ}
    (hnode : node < q.entries.length) (hshould : q.shouldBeParent compare node = should) :
    (should = node ∧
        ∀ c, 0 < c → c / 2 = node → c < q.entries.length → ¬q.Worse compare node c) ∨
      (0 < should ∧ should / 2 = node ∧ should < q.entries.length ∧
        ¬q.Worse compare should node ∧
        ∀ c, 0 < c → c / 2 = node → c < q.entries.length → ¬q.Worse compare should c) := by
  have hr : Ranks q.entries.length (q.Worse compare) := ranks q
  have hchild : ∀ c, c / 2 = node → c = node * 2 ∨ c = node * 2 + 1 := by omega
  by_cases hleft : node * 2 < q.entries.length
  · grind [shouldBeParent, leftChild, rightChild, hr.asymm, hr.split]
  · refine .inl ⟨?_, fun c _ hc hcn ↦ ?_⟩
    · grind [shouldBeParent, leftChild, rightChild]
    · omega

variable {q : FlexibleQueue α}

variable {node : ℕ}

/-- From a hole that is in order with its parent, `percolate_down` restores the heap. -/
theorem sorted_percolateDown (hnode : node < q.entries.length)
    (h : Sinking q.entries.length (q.Worse compare) node)
    (habove : Ordered q.entries.length (q.Worse compare) node) :
    Sorted compare (q.percolateDown compare node) := by
  fun_induction percolateDown compare q node with
  | case1 q node should heq =>
    obtain ⟨-, hbest⟩ | ⟨hpos, hparent, -⟩ := shouldBeParent_spec q hnode (rfl : _ = should)
    · exact (h.rising hbest).isHeap habove
    · omega
  | case2 q node should hne ih =>
    obtain ⟨heq, -⟩ | ⟨hpos, hparent, hlt, hle, hbest⟩ :=
      shouldBeParent_spec q hnode (rfl : _ = should)
    · exact absurd heq hne
    · have hswap := h.swap hpos hparent hlt hle hbest
      rw [← worse_swap compare hnode hlt] at hswap
      rw [length_swap] at ih
      exact ih hlt hswap.1 (hswap.2 should (by omega))

/-- From any hole, `percolate_down` leaves only the order above it open. -/
theorem rising_percolateDown (hnode : node < q.entries.length)
    (h : Sinking q.entries.length (q.Worse compare) node) :
    Rising q.entries.length ((q.percolateDown compare node).Worse compare) node := by
  rw [percolateDown]
  set should := q.shouldBeParent compare node
  obtain ⟨heq, hbest⟩ | ⟨hpos, hparent, hlt, hle, hbest⟩ :=
    shouldBeParent_spec q hnode (rfl : _ = should)
  · rw [if_pos heq]
    exact h.rising hbest
  · -- after one swap the new hole is in order with its parent
    have hswap := h.swap hpos hparent hlt hle hbest
    rw [← worse_swap compare hnode hlt] at hswap
    rw [if_neg (by omega)]
    have hnode' : should < (q.swap node should).entries.length := by rwa [length_swap]
    have hsorted := sorted_percolateDown hnode' (by rw [length_swap]; exact hswap.1)
      (by rw [length_swap]; exact hswap.2 should (by omega))
    have hrising := IsHeap.rising (ranks _) hsorted node
    rwa [(swaps_percolateDown compare hnode').length_eq, length_swap] at hrising

theorem sorted_percolateUp (hnode : node < q.entries.length)
    (h : Rising q.entries.length (q.Worse compare) node) :
    Sorted compare (q.percolateUp compare node) := by
  fun_induction percolateUp compare q node with
  | case1 q node hparent =>
    refine h.isHeap fun hpos ↦ ?_
    grind [parentNode]
  | case2 q node parent hparent hworse =>
    refine h.isHeap fun hpos _ ↦ ?_
    grind [parentNode]
  | case3 q node parent hparent hworse ih =>
    obtain ⟨hpos, rfl⟩ : 0 < node ∧ parent = node / 2 := by grind [parentNode]
    have hlt : node / 2 < q.entries.length := by omega
    have hswap := h.swap (ranks q) hpos hnode (by grind)
    rw [← worse_swap compare hnode hlt] at hswap
    rw [length_swap] at ih
    exact ih hlt hswap

/-! ## The operations -/

/-- The invariant of the queue. -/
structure Valid (compare : α → α → Bool) (q : FlexibleQueue α) : Prop where
  indexed : Indexed q
  sorted : Sorted compare q

omit [DecidableEq α] [IsStrictWeakOrder α (compare · · = true)] in
theorem valid_new : Valid compare (new : FlexibleQueue α) := by
  refine ⟨fun a i ↦ ?_, fun i _ hi ↦ ?_⟩
  · simp [new]
  · simp [new] at hi

theorem valid_percolateUp (hnode : node < q.entries.length)
    (hq : Indexed q) (h : Rising q.entries.length (q.Worse compare) node) :
    Valid compare (q.percolateUp compare node) :=
  ⟨(swaps_percolateUp compare hnode).indexed hq, sorted_percolateUp hnode h⟩

variable {a : α}

/-- What `push` does on a queue that does not hold `a`. -/
theorem push_absent (h : Valid compare q) (ha : a ∉ q.entries) :
    (q.push compare a).2 = true ∧ Valid compare (q.push compare a).1 ∧
      ∀ x, x ∈ (q.push compare a).1.entries ↔ x = a ∨ x ∈ q.entries := by
  have hnone : ¬(q.entry2index a).isSome := by rwa [h.indexed.isSome_iff]
  rw [push, if_neg hnone]
  set q' : FlexibleQueue α :=
    ⟨q.entries ++ [a], Function.update q.entry2index a (some q.entries.length)⟩
  have hnode : q.entries.length < q'.entries.length := by simp [q']
  have hindexed : Indexed q' := by
    intro x i
    have hx := h.indexed x i
    have ha' := h.indexed a i
    simp only [q', Function.update_apply]
    grind
  have hrising : Rising q'.entries.length (q'.Worse compare) q.entries.length := by
    refine ⟨fun i hi hpos hlt ↦ ?_, fun hpos c hc hlt ↦ ?_⟩
    · have hin : i < q.entries.length := by simp [q'] at hlt; omega
      have := h.sorted i hpos hin
      simpa only [Worse, worse, q', List.getElem?_append_left hin,
        List.getElem?_append_left (show i / 2 < q.entries.length by omega)] using this
    · simp [q'] at hlt
      omega
  refine ⟨rfl, valid_percolateUp hnode hindexed hrising, fun x ↦ ?_⟩
  rw [(swaps_percolateUp compare hnode).mem_iff]
  simp [q', or_comm]

omit [DecidableEq α] [IsStrictWeakOrder α (compare · · = true)] in
/-- Dropping the last entry keeps the relation between the positions that are left. -/
theorem worse_dropLast {l : List α} {i j : ℕ} (hi : i < l.length - 1) (hj : j < l.length - 1) :
    worse compare l.dropLast i j = worse compare l i j := by
  rw [worse, worse, List.getElem?_dropLast, List.getElem?_dropLast, if_pos hi, if_pos hj]

omit [IsStrictWeakOrder α (compare · · = true)] in
theorem Indexed.popBack (h : Indexed q)
    (ha : q.entries[q.entries.length - 1]? = some a) : Indexed (q.popBack a) := by
  intro x i
  have hx := h x i
  have hinj : q.entries[i]? = some a → i = q.entries.length - 1 := fun hi ↦ h.injective hi ha
  simp only [FlexibleQueue.popBack, Function.update_apply, List.getElem?_dropLast]
  grind

omit [IsStrictWeakOrder α (compare · · = true)] in
theorem Indexed.mem_popBack (h : Indexed q)
    (ha : q.entries[q.entries.length - 1]? = some a) (x : α) :
    x ∈ (q.popBack a).entries ↔ x ∈ q.entries ∧ x ≠ a := by
  rw [← h.isSome_iff, ← (h.popBack ha).isSome_iff]
  change (Function.update q.entry2index a none x).isSome ↔ _
  rw [Function.update_apply]
  grind

/-- What `erase` does on a queue that holds `a`. -/
theorem erase_present (h : Valid compare q) (ha : a ∈ q.entries) :
    (q.erase compare a).2 = true ∧ Valid compare (q.erase compare a).1 ∧
      ∀ x, x ∈ (q.erase compare a).1.entries ↔ x ∈ q.entries ∧ x ≠ a := by
  obtain ⟨node, hnode⟩ := List.mem_iff_getElem?.1 ha
  have hlt : node < q.entries.length := (List.getElem?_eq_some_iff.1 hnode).1
  rw [erase, (h.indexed a node).2 hnode]
  dsimp only
  by_cases hlast : node = q.entries.length - 1
  · rw [if_pos hlast]
    rw [hlast] at hnode
    refine ⟨rfl, ⟨h.indexed.popBack hnode, fun i hpos hi ↦ ?_⟩, h.indexed.mem_popBack hnode⟩
    have hi' : i < q.entries.length - 1 := by simpa [popBack] using hi
    rw [Worse, popBack, worse_dropLast (by omega) hi']
    exact h.sorted i hpos (by omega)
  · rw [if_neg hlast]
    have hlen : q.entries.length - 1 < q.entries.length := by omega
    set q₁ := q.swap node (q.entries.length - 1)
    have hindexed : Indexed q₁ := h.indexed.swap hlt hlen
    have hlength : q₁.entries.length = q.entries.length := length_swap ..
    have hback : q₁.entries[q₁.entries.length - 1]? = some a := by
      rw [hlength, getElem?_swap hlt hlen, Equiv.swap_apply_right]
      exact hnode
    set q₂ := q₁.popBack a
    have hlength₂ : q₂.entries.length = q.entries.length - 1 := by
      simp [q₂, popBack, hlength]
    have hnode₂ : node < q₂.entries.length := by omega
    -- away from `node`, the order is that of the old heap
    have hworse : ∀ i j, i ≠ node → j ≠ node → i < q₂.entries.length → j < q₂.entries.length →
        (q₂.Worse compare i j ↔ q.Worse compare i j) := by
      intro i j hi hj hin hjn
      have hswap := congrFun (congrFun (worse_swap compare hlt hlen) i) j
      rw [swapped_of_ne hi (by omega) hj (by omega)] at hswap
      rw [← hswap, Worse, show q₂.entries = q₁.entries.dropLast from rfl,
        worse_dropLast (by omega) (by omega)]
    have hsinking : Sinking q₂.entries.length (q₂.Worse compare) node := by
      refine ⟨fun i hi hchild hpos hin ↦ ?_, fun hpos c hc hcn ↦ ?_⟩
      · rw [hworse _ _ hchild hi (by omega) hin]
        exact h.sorted i hpos (by omega)
      · rw [hworse _ _ (by omega) (by omega) (by omega) hcn]
        exact (IsHeap.rising (ranks q) h.sorted node).bridged hpos c hc (by omega)
    have hdown := swaps_percolateDown compare hnode₂
    have hnode₃ : node < (q₂.percolateDown compare node).entries.length := by
      rwa [hdown.length_eq]
    have hrising := rising_percolateDown hnode₂ hsinking
    rw [← hdown.length_eq] at hrising
    refine ⟨rfl, valid_percolateUp hnode₃ (hdown.indexed (hindexed.popBack hback)) hrising,
      fun x ↦ ?_⟩
    rw [(swaps_percolateUp compare hnode₃).mem_iff, hdown.mem_iff, hindexed.mem_popBack hback,
      (Swaps.swap node (q.entries.length - 1) hlt hlen (.refl _)).mem_iff]

omit [IsStrictWeakOrder α (compare · · = true)] in
theorem push_present (h : Indexed q) (ha : a ∈ q.entries) :
    q.push compare a = (q, false) := by
  rw [push, if_pos ((h.isSome_iff a).2 ha)]

omit [IsStrictWeakOrder α (compare · · = true)] in
theorem erase_absent (h : Indexed q) (ha : a ∉ q.entries) :
    q.erase compare a = (q, false) := by
  have hnone : q.entry2index a = none := by
    rw [← Option.not_isSome_iff_eq_none, h.isSome_iff]
    exact ha
  rw [erase, hnone]

/-! ## Whole runs -/

/-- A run of the queue from its construction, with the set of the entries that were pushed and not
yet removed. -/
inductive Run (compare : α → α → Bool) : FlexibleQueue α → Set α → Prop
  | new : Run compare new ∅
  | push {q : FlexibleQueue α} {S : Set α} (a : α) (h : Run compare q S) :
      Run compare (q.push compare a).1 (insert a S)
  | pop {q q' : FlexibleQueue α} {S : Set α} {a : α} (h : Run compare q S) (htop : q.top = some a)
      (hpop : q.pop compare = some q') : Run compare q' (S \ {a})
  | erase {q : FlexibleQueue α} {S : Set α} (a : α) (h : Run compare q S) :
      Run compare (q.erase compare a).1 (S \ {a})

theorem valid_erase {S : Set α} (h : Valid compare q)
    (hS : ∀ x, x ∈ q.entries ↔ x ∈ S) (a : α) :
    Valid compare (q.erase compare a).1 ∧
      ∀ x, x ∈ (q.erase compare a).1.entries ↔ x ∈ S \ {a} := by
  by_cases ha : a ∈ q.entries
  · obtain ⟨-, hvalid, hmem⟩ := erase_present h ha
    refine ⟨hvalid, fun x ↦ ?_⟩
    rw [hmem, hS, Set.mem_sdiff, Set.mem_singleton_iff]
  · rw [erase_absent h.indexed ha]
    refine ⟨h, fun x ↦ ?_⟩
    rw [hS, Set.mem_sdiff, Set.mem_singleton_iff, iff_self_and]
    rintro hx rfl
    exact ha ((hS x).2 hx)

theorem Run.valid {S : Set α} (h : Run compare q S) :
    Valid compare q ∧ ∀ x, x ∈ q.entries ↔ x ∈ S := by
  induction h with
  | new =>
    refine ⟨valid_new, fun x ↦ ?_⟩
    simp [FlexibleQueue.new]
  | @push q S a _ ih =>
    obtain ⟨hvalid, hS⟩ := ih
    by_cases ha : a ∈ q.entries
    · rw [push_present hvalid.indexed ha, Set.insert_eq_of_mem ((hS a).1 ha)]
      exact ⟨hvalid, hS⟩
    · obtain ⟨-, hvalid', hmem⟩ := push_absent hvalid ha
      refine ⟨hvalid', fun x ↦ ?_⟩
      rw [hmem, hS, Set.mem_insert_iff]
  | @pop q q' S a _ htop hpop ih =>
    rw [FlexibleQueue.pop, htop, Option.map_some, Option.some_inj] at hpop
    subst hpop
    exact valid_erase ih.1 ih.2 a
  | erase a _ ih => exact valid_erase ih.1 ih.2 a

end Order

end FlexibleQueue

end DrAvx
