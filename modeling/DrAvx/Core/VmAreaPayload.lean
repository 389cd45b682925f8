import DrAvx.Core.VmAreas
import Mathlib.Data.List.Induction

/-!
# Who owns the payload of an area

Each area of a vector carries a payload, a pointer that the vector frees with `free_payload_func`.
When `add_vm_area` merges the new region with areas it meets, the first of them is extended and the
others are deleted.  Without a `merge_payload_func` the header says that the payload of the source
is freed; what the code does is to free the payload of the area it keeps, and those of the areas it
deletes.  The area keeps the pointer that was freed, and the payload of the new region is dropped.

So the payloads are in order exactly as long as no region that is added meets an area of the
vector.

## What is here

* `AreaVector` and its `addFrom`, the algorithm of `VmArea.addFrom` with payloads, the three
  callbacks that decide about them, and a log of what was freed;
* `map_addFrom`, which says that the areas are those of `VmArea.addFrom`;
* `Owned`, the ownership of payloads, and `owned_iff`.
-/

set_option autoImplicit false

namespace DrAvx

/-- What `vmvector_init` and the callbacks of a vector say about merging.  A callback may be
missing. -/
structure MergePolicy (P : Type) where
  /-- The flag `VECTOR_NEVER_MERGE_ADJACENT`. -/
  never : Bool
  shouldMergeFunc : Option (Bool → P → P → Bool)
  splitPayloadFunc : Option (P → P)

/-- The areas of a vector with their payloads, and the payloads that were passed to
`free_payload_func`. -/
structure AreaVector (P : Type) where
  buf : List (VmArea × P)
  freed : List P

namespace AreaVector

variable {P : Type}

section Add

variable (policy : MergePolicy P) (new : AreaFlags)

/-- The region overlaps the area, or is adjacent to it and to be merged with it. -/
def touches (data : P) (start stop : ℕ) (x : VmArea × P) : Bool :=
  decide (start < x.1.stop ∧ x.1.start < stop) ||
    (decide (start ≤ x.1.stop ∧ x.1.start ≤ stop ∧ new = x.1.flags) &&
      x.1.flags.frag &&& fragCoarseGrain == 0 && !policy.never &&
      policy.shouldMergeFunc.all fun f ↦ f true data x.2)

/-- An area of another type keeps its part of the region. -/
def splits (data : P) (x : VmArea × P) : Bool :=
  decide (new ≠ x.1.flags) && policy.shouldMergeFunc.all fun f ↦ !f false data x.2

/-- What `add_vm_area` does after its scan.  There is no `merge_payload_func`: the payloads of all
areas from `overlapStart` to `overlapEnd` are freed, and the first area keeps its own. -/
def addFinish (data : P) (v : AreaVector P) (start stop i : ℕ)
    (overlapStart overlapEnd : Option ℕ) : AreaVector P :=
  match overlapStart with
  | none => { v with buf := v.buf.take i ++ (⟨start, stop, new⟩, data) :: v.buf.drop i }
  | some s =>
    let e := overlapEnd.getD v.buf.length
    match v.buf[s]?, v.buf[e - 1]? with
    | some first, some last =>
      { buf := v.buf.take s ++
          (⟨if start < first.1.start then start else first.1.start,
            if last.1.stop < stop then stop else last.1.stop, first.1.flags⟩, first.2) ::
          v.buf.drop e
        freed := v.freed ++ first.2 :: ((v.buf.take e).drop (s + 1)).map Prod.snd }
    | _, _ => v

variable {data : P}

variable {policy new} in
theorem lt_of_splits {start stop : ℕ} {x : VmArea × P}
    (ht : touches policy new data start stop x)
    (hs : splits policy new data (VmArea.dropped new x.1, x.2)) (hlt : x.1.stop < stop) :
    stop - x.1.stop < stop - start := by
  have hne : new ≠ (VmArea.dropped new x.1).flags := by
    rw [splits, Bool.and_eq_true, decide_eq_true_eq] at hs
    exact hs.1
  by_cases hover : start < x.1.stop ∧ x.1.start < stop
  · omega
  · -- an adjacent area is of the same type, and is not split
    have hnew : new = x.1.flags := by
      simp only [touches, Bool.or_eq_true, Bool.and_eq_true, decide_eq_true_eq, hover,
        false_or] at ht
      exact ht.1.1.1.2.2
    refine absurd ?_ hne
    rw [VmArea.dropped, ← hnew, VmArea.dropFlags_self]

/-- The scan of `add_vm_area` from index `i` on, and what follows it. -/
def addFrom (data : P) (v : AreaVector P) (start stop i : ℕ) (overlapStart : Option ℕ) :
    AreaVector P :=
  match _h : v.buf[i]? with
  | none => addFinish new data v start stop i overlapStart none
  | some x =>
    if _ht : touches policy new data start stop x then
      let overlapStart := overlapStart.getD i
      let x' := (VmArea.dropped new x.1, x.2)
      let v' := { v with buf := v.buf.set i x' }
      if _hs : splits policy new data x' then
        if start < x.1.start then
          -- the region ends before this area; its part behind the area is added on its own
          let v'' := if x.1.stop < stop then
              addFrom (policy.splitPayloadFunc.elim data fun f ↦ f data) v' x.1.stop stop 0 none
            else v'
          addFinish new data v'' start x.1.start i
            (if overlapStart = i then none else some overlapStart) (some i)
        else if x.1.stop < stop then addFrom data v' x.1.stop stop (i + 1) none
        else addFrom data v' start stop (i + 1) (some overlapStart)
      else addFrom data v' start stop (i + 1) (some overlapStart)
    else if overlapStart.isSome then addFinish new data v start stop i overlapStart (some i)
    else if stop ≤ x.1.start then addFinish new data v start stop i none none
    else addFrom data v start stop (i + 1) none
termination_by (stop - start, v.buf.length - i)
decreasing_by
  -- the first two calls are for a smaller region, the others for fewer areas
  all_goals
    first
    | exact Prod.Lex.left _ _ (lt_of_splits ‹_› ‹_› ‹_›)
    | exact Prod.Lex.right _ (by grind)

def addVmArea (v : AreaVector P) (start stop : ℕ) (data : P) : AreaVector P :=
  addFrom policy new data v start stop 0 none

variable {policy new}

theorem addFrom_of_none {v : AreaVector P} {start stop i : ℕ}
    {overlapStart : Option ℕ} (h : v.buf[i]? = none) :
    addFrom policy new data v start stop i overlapStart =
      addFinish new data v start stop i overlapStart none := by
  rw [addFrom]
  split
  · rfl
  · next x hx => simp [h] at hx

/-- One round of the scan. -/
theorem addFrom_of_some {v : AreaVector P} {start stop i : ℕ} {overlapStart : Option ℕ}
    {x : VmArea × P} (h : v.buf[i]? = some x) :
    addFrom policy new data v start stop i overlapStart =
      if touches policy new data start stop x then
        let x' := (VmArea.dropped new x.1, x.2)
        let v' := { v with buf := v.buf.set i x' }
        if splits policy new data x' then
          if start < x.1.start then
            addFinish new data (if x.1.stop < stop then
                addFrom policy new (policy.splitPayloadFunc.elim data fun f ↦ f data) v' x.1.stop stop
                  0 none
              else v') start x.1.start i
              (if overlapStart.getD i = i then none else some (overlapStart.getD i)) (some i)
          else if x.1.stop < stop then addFrom policy new data v' x.1.stop stop (i + 1) none
          else addFrom policy new data v' start stop (i + 1) (some (overlapStart.getD i))
        else addFrom policy new data v' start stop (i + 1) (some (overlapStart.getD i))
      else if overlapStart.isSome then addFinish new data v start stop i overlapStart (some i)
      else if stop ≤ x.1.start then addFinish new data v start stop i none none
      else addFrom policy new data v start stop (i + 1) none := by
  rw [addFrom]
  split
  · next hx => simp [h] at hx
  · next y hy =>
    obtain rfl : x = y := Option.some.inj (h.symm.trans hy)
    simp only [dite_eq_ite]
    rfl

/-- A round at an area that the region does not meet. -/
theorem addFrom_of_not_touches {v : AreaVector P} {start stop i : ℕ}
    {overlapStart : Option ℕ} {x : VmArea × P} (h : v.buf[i]? = some x)
    (ht : touches policy new data start stop x = false) :
    addFrom policy new data v start stop i overlapStart =
      if overlapStart.isSome then addFinish new data v start stop i overlapStart (some i)
      else if stop ≤ x.1.start then addFinish new data v start stop i none none
      else addFrom policy new data v start stop (i + 1) none := by
  rw [addFrom_of_some h, if_neg (by simp [ht])]

end Add

/-- `vmvector_add`; the areas it adds have no flags. -/
def vmvectorAdd (policy : MergePolicy P) (v : AreaVector P) (start stop : ℕ) (data : P) :
    AreaVector P :=
  addVmArea policy ⟨0#32, 0#32⟩ v start stop data

/-! ## Ownership -/

/-- The arguments of a call of `vmvector_add`. -/
structure Region (P : Type) where
  start : ℕ
  stop : ℕ
  data : P

/-- The vector after a sequence of calls of `vmvector_add`, from an empty one. -/
def run (policy : MergePolicy P) (ops : List (Region P)) : AreaVector P :=
  ops.foldl (fun v op ↦ vmvectorAdd policy v op.start op.stop op.data) ⟨[], []⟩

/-- No area has a payload that was freed, and every payload that was handed over is attached to an
area or was freed once. -/
structure Owned [DecidableEq P] (handed : List P) (v : AreaVector P) : Prop where
  attached : ∀ x ∈ v.buf, x.2 ∉ v.freed
  accounted : ∀ p ∈ handed, (∃ x ∈ v.buf, x.2 = p) ∨ v.freed.count p = 1

/-! ## A region that meets no area -/

variable {policy : MergePolicy P} {new : AreaFlags} {data : P} {v : AreaVector P} {start stop : ℕ}

variable {i : ℕ}

/-- A region that meets no area becomes one, before the first area that begins behind it. -/
theorem addFrom_insert (hclear : ∀ x ∈ v.buf, touches policy new data start stop x = false)
    (hi : i ≤ v.buf.length) :
    ∃ k, i ≤ k ∧ k ≤ v.buf.length ∧
      addFrom policy new data v start stop i none =
        { v with buf := v.buf.take k ++ (⟨start, stop, new⟩, data) :: v.buf.drop k } ∧
      (∀ j x, i ≤ j → j < k → v.buf[j]? = some x → x.1.start < stop) ∧
      ∀ x, v.buf[k]? = some x → stop ≤ x.1.start := by
  induction hi using Nat.decreasingInduction with
  | self =>
    have hnone : v.buf[v.buf.length]? = none := List.getElem?_eq_none le_rfl
    refine ⟨v.buf.length, le_rfl, le_rfl, ?_, fun j x hj hjk ↦ absurd hjk (by omega), fun x hx ↦ ?_⟩
    · rw [addFrom_of_none hnone]
      rfl
    · rw [hnone] at hx
      exact absurd hx (by simp)
  | of_succ i hlt ih =>
    have hget : v.buf[i]? = some v.buf[i] := List.getElem?_eq_getElem hlt
    have hmiss := hclear v.buf[i] (List.getElem_mem hlt)
    rw [addFrom_of_not_touches hget hmiss, if_neg (by simp)]
    split_ifs with hstop
    · refine ⟨i, le_rfl, hlt.le, rfl, fun j x hj hjk ↦ absurd hjk (by omega), fun x hx ↦ ?_⟩
      rwa [← Option.some.inj (hget.symm.trans hx)]
    · obtain ⟨k, hik, hk, heq, hbefore, hafter⟩ := ih
      refine ⟨k, by omega, hk, heq, fun j x hj hjk hx ↦ ?_, hafter⟩
      rcases Nat.eq_or_lt_of_le hj with rfl | hj
      · rw [← Option.some.inj (hget.symm.trans hx)]
        omega
      · exact hbefore j x hj hjk hx

/-! ## A region that meets an area -/

variable {x : VmArea × P}

/-- An area with the flags of the region is as it was. -/
theorem set_dropped (hx : v.buf[i]? = some x) (hflags : x.1.flags = new) :
    ({ v with buf := v.buf.set i (VmArea.dropped new x.1, x.2) } : AreaVector P) = v := by
  obtain ⟨hi, rfl⟩ := List.getElem?_eq_some_iff.1 hx
  have hsame : VmArea.dropped new v.buf[i].1 = v.buf[i].1 := by
    rw [VmArea.dropped, hflags, VmArea.dropFlags_self, ← hflags]
  rw [hsame]
  show ({ v with buf := v.buf.set i v.buf[i] } : AreaVector P) = v
  rw [List.set_getElem_self]

/-- One round of the scan at an area that the region meets, of the same type. -/
theorem addFrom_touches {overlapStart : Option ℕ}
    (hx : v.buf[i]? = some x) (hflags : x.1.flags = new)
    (ht : touches policy new data start stop x = true) :
    addFrom policy new data v start stop i overlapStart =
      addFrom policy new data v start stop (i + 1) (some (overlapStart.getD i)) := by
  have hset := set_dropped hx hflags
  have hsplit : splits policy new data (VmArea.dropped new x.1, x.2) = false := by
    rw [splits, VmArea.dropped, hflags, VmArea.dropFlags_self]
    simp
  rw [addFrom_of_some hx, if_pos ht]
  dsimp only
  rw [if_neg (by simp [hsplit]), hset]

/-- A payload is attached to an area and was freed. -/
def Dangling (v : AreaVector P) : Prop :=
  ∃ x ∈ v.buf, x.2 ∈ v.freed

theorem not_owned_of_dangling [DecidableEq P] {handed : List P} (h : Dangling v) :
    ¬Owned handed v := by
  obtain ⟨x, hx, hfreed⟩ := h
  exact fun howned ↦ howned.attached x hx hfreed

/-- Merging frees the payload of the area that it keeps. -/
theorem dangling_addFinish {s e i : ℕ} {overlapEnd : Option ℕ}
    (he : overlapEnd.getD v.buf.length = e) (hse : s < e) (hle : e ≤ v.buf.length) :
    Dangling (addFinish new data v start stop i (some s) overlapEnd) := by
  have hfirst : v.buf[s]? = some v.buf[s] := List.getElem?_eq_getElem (by omega)
  have hlast : v.buf[e - 1]? = some v.buf[e - 1] := List.getElem?_eq_getElem (by omega)
  rw [addFinish, he, hfirst, hlast]
  exact ⟨_, List.mem_append_right _ List.mem_cons_self,
    List.mem_append_right _ List.mem_cons_self⟩

/-- Once an area is to be extended, the scan ends with a merge. -/
theorem dangling_addFrom (hflags : ∀ x ∈ v.buf, x.1.flags = new) {s i : ℕ} (hsi : s < i)
    (hi : i ≤ v.buf.length) : Dangling (addFrom policy new data v start stop i (some s)) := by
  induction hi using Nat.decreasingInduction with
  | self =>
    have hnone : v.buf[v.buf.length]? = none := List.getElem?_eq_none le_rfl
    rw [addFrom_of_none hnone]
    exact dangling_addFinish rfl hsi le_rfl
  | of_succ i hlt ih =>
    have hget : v.buf[i]? = some v.buf[i] := List.getElem?_eq_getElem hlt
    cases ht : touches policy new data start stop v.buf[i] with
    | true =>
      rw [addFrom_touches hget (hflags _ (List.getElem_mem hlt)) ht]
      exact ih (by omega)
    | false =>
      rw [addFrom_of_not_touches hget ht, if_pos Option.isSome_some]
      exact dangling_addFinish rfl hsi hlt.le

theorem le_of_touches (h : touches policy new data start stop x = true) :
    start ≤ x.1.stop ∧ x.1.start ≤ stop := by
  simp only [touches, Bool.or_eq_true, Bool.and_eq_true, decide_eq_true_eq] at h
  omega

theorem not_overlaps_of_touches_eq_false
    (h : touches policy new data start stop x = false) : x.1.stop ≤ start ∨ stop ≤ x.1.start := by
  simp only [touches, Bool.or_eq_false_iff, decide_eq_false_iff_not] at h
  omega

/-- A region that meets an area leaves a payload that is attached and freed. -/
theorem dangling_of_touches (hv : VmArea.Canonical (v.buf.map Prod.fst))
    (hflags : ∀ x ∈ v.buf, x.1.flags = new) {k : ℕ} (hx : v.buf[k]? = some x)
    (ht : touches policy new data start stop x = true) (hik : i ≤ k) :
    Dangling (addFrom policy new data v start stop i none) := by
  induction hik using Nat.decreasingInduction with
  | self =>
    have hk := (List.getElem?_eq_some_iff.1 hx).1
    rw [addFrom_touches hx (hflags x (List.mem_of_getElem? hx)) ht]
    exact dangling_addFrom hflags (Nat.lt_succ_self k) hk
  | of_succ i hlt ih =>
    have hk := (List.getElem?_eq_some_iff.1 hx).1
    have hi : i < v.buf.length := hlt.trans hk
    have hget : v.buf[i]? = some v.buf[i] := List.getElem?_eq_getElem hi
    cases htouch : touches policy new data start stop v.buf[i] with
    | true =>
      rw [addFrom_touches hget (hflags _ (List.getElem_mem hi)) htouch]
      exact dangling_addFrom hflags (Nat.lt_succ_self i) hi
    | false =>
      -- the area comes before the one that the region meets, so the scan goes on
      have hbelow : ¬stop ≤ v.buf[i].1.start := by
        have hsep := List.pairwise_iff_getElem.1 hv.sorted i k (by simpa using hi)
          (by simpa using hk) hlt
        have hne := hv.nonempty _ (List.mem_map_of_mem (List.getElem_mem hi))
        have hmeet := (le_of_touches ht).2
        rw [← (List.getElem?_eq_some_iff.1 hx).2] at hmeet
        rw [List.getElem_map, List.getElem_map] at hsep
        omega
      rw [addFrom_of_not_touches hget htouch, if_neg (by simp), if_neg hbelow]
      exact ih

/-! ## Sequences of additions -/

/-- The area of a region that was added without merging. -/
def Region.area (op : Region P) : VmArea × P :=
  (⟨op.start, op.stop, ⟨0#32, 0#32⟩⟩, op.data)

/-- The region `op` meets the area of the region `old`. -/
def Meets (policy : MergePolicy P) (old op : Region P) : Prop :=
  touches policy ⟨0#32, 0#32⟩ op.data op.start op.stop old.area = true

/-- The vector holds the regions, each as an area of its own, and nothing was freed. -/
structure Tracks (ops : List (Region P)) (v : AreaVector P) : Prop where
  perm : v.buf.Perm (ops.map Region.area)
  canonical : VmArea.Canonical (v.buf.map Prod.fst)
  freed : v.freed = []

theorem Tracks.flags {ops : List (Region P)} (h : Tracks ops v) :
    ∀ x ∈ v.buf, x.1.flags = ⟨0#32, 0#32⟩ := by
  intro x hx
  obtain ⟨op, -, rfl⟩ := List.mem_map.1 (h.perm.mem_iff.1 hx)
  rfl

theorem Tracks.owned [DecidableEq P] {ops : List (Region P)} (h : Tracks ops v) :
    Owned (ops.map Region.data) v where
  attached x _ := by
    rw [h.freed]
    exact List.not_mem_nil
  accounted p hp := by
    obtain ⟨op, hop, rfl⟩ := List.mem_map.1 hp
    exact .inl ⟨op.area, h.perm.mem_iff.2 (List.mem_map_of_mem hop), rfl⟩

/-- Adding a region that meets none of those before. -/
theorem Tracks.add {ops : List (Region P)} (h : Tracks ops v) {op : Region P}
    (hlt : op.start < op.stop) (hclear : ∀ old ∈ ops, ¬Meets policy old op) :
    Tracks (ops ++ [op]) (vmvectorAdd policy v op.start op.stop op.data) := by
  have hmiss : ∀ x ∈ v.buf, touches policy ⟨0#32, 0#32⟩ op.data op.start op.stop x = false := by
    intro x hx
    obtain ⟨old, hold, rfl⟩ := List.mem_map.1 (h.perm.mem_iff.1 hx)
    exact Bool.eq_false_iff.2 (hclear old hold)
  obtain ⟨k, -, hk, heq, hbefore, hafter⟩ := addFrom_insert hmiss (Nat.zero_le _)
  rw [vmvectorAdd, addVmArea, heq]
  refine ⟨?_, ?_, h.freed⟩
  · rw [List.map_append]
    refine (List.perm_middle.trans (List.Perm.cons _ ?_)).trans (List.perm_append_singleton _ _).symm
    rw [List.take_append_drop]
    exact h.perm
  · have hsplit := h.canonical
    rw [← List.take_append_drop k v.buf, List.map_append, VmArea.canonical_append] at hsplit
    obtain ⟨hleft, hright, hacross⟩ := hsplit
    rw [List.map_append, List.map_cons, VmArea.canonical_append, VmArea.canonical_cons]
    -- areas before the new one end before it, those after it begin behind it
    have hends : ∀ a ∈ (v.buf.take k).map Prod.fst, a.stop ≤ op.start := by
      intro a ha
      obtain ⟨x, hx, rfl⟩ := List.mem_map.1 ha
      obtain ⟨j, hj⟩ := List.mem_iff_getElem?.1 hx
      have hjk : j < k := by
        have := (List.getElem?_eq_some_iff.1 hj).1
        rw [List.length_take] at this
        omega
      rw [List.getElem?_take_of_lt hjk] at hj
      have hstart := hbefore j x (Nat.zero_le j) hjk hj
      rcases not_overlaps_of_touches_eq_false (hmiss x (List.mem_of_getElem? hj)) with hle | hle
      · exact hle
      · omega
    have hbegins : ∀ a ∈ (v.buf.drop k).map Prod.fst, op.stop ≤ a.start := by
      cases hdrop : v.buf.drop k with
      | nil => exact fun a ha ↦ absurd ha List.not_mem_nil
      | cons x rest =>
        have hstop : op.stop ≤ x.1.start := by
          refine hafter x ?_
          rw [← List.head?_drop, hdrop, List.head?_cons]
        rw [hdrop, List.map_cons, VmArea.canonical_cons] at hright
        intro a ha
        rcases List.mem_cons.1 ha with rfl | ha
        · exact hstop
        · exact hstop.trans (hright.1.le.trans (hright.2.1 a ha))
    refine ⟨hleft, ⟨hlt, hbegins, hright⟩, fun a ha b hb ↦ ?_⟩
    rcases List.mem_cons.1 hb with rfl | hb
    · exact hends a ha
    · exact hacross a ha b hb

theorem run_append (policy : MergePolicy P) (ops : List (Region P)) (op : Region P) :
    run policy (ops ++ [op]) = vmvectorAdd policy (run policy ops) op.start op.stop op.data := by
  rw [run, List.foldl_append]
  rfl

/-- Regions that do not meet are each an area of their own. -/
theorem tracks_run {ops : List (Region P)} (hops : ∀ op ∈ ops, op.start < op.stop)
    (hclear : ops.Pairwise fun old op ↦ ¬Meets policy old op) : Tracks ops (run policy ops) := by
  induction ops using List.reverseRecOn with
  | nil => exact ⟨List.Perm.refl _, ⟨by simp [run], by simp [run]⟩, rfl⟩
  | append_singleton ops op ih =>
    obtain ⟨hfirst, -, hlast⟩ := List.pairwise_append.1 hclear
    rw [run_append]
    refine (ih (fun a ha ↦ hops a (List.mem_append_left _ ha)) hfirst).add
      (hops op (by simp)) fun old hold ↦ hlast old hold op (by simp)

/-- After every call of a sequence the payloads are in order exactly if no region of the sequence
meets an earlier one. -/
theorem owned_iff [DecidableEq P] {ops : List (Region P)} (hops : ∀ op ∈ ops, op.start < op.stop) :
    (∀ pre, pre <+: ops → Owned (pre.map Region.data) (run policy pre)) ↔
      ops.Pairwise fun old op ↦ ¬Meets policy old op := by
  constructor
  · intro howned
    induction ops using List.reverseRecOn with
    | nil => exact List.Pairwise.nil
    | append_singleton ops op ih =>
      have hfirst : ops.Pairwise fun old op ↦ ¬Meets policy old op :=
        ih (fun a ha ↦ hops a (List.mem_append_left _ ha)) fun pre hpre ↦
          howned pre (hpre.trans (List.prefix_append ops [op]))
      refine List.pairwise_append.2 ⟨hfirst, List.pairwise_singleton _ _, ?_⟩
      intro old hold op' hop' hmeets
      obtain rfl : op' = op := List.mem_singleton.1 hop'
      have htracks := tracks_run (fun a ha ↦ hops a (List.mem_append_left _ ha)) hfirst
      have hmem := htracks.perm.mem_iff.2 (List.mem_map_of_mem hold)
      obtain ⟨k, hk⟩ := List.mem_iff_getElem?.1 hmem
      have hbad := dangling_of_touches htracks.canonical htracks.flags hk hmeets (Nat.zero_le k)
      have hlast := howned _ (List.prefix_refl _)
      rw [run_append] at hlast
      exact not_owned_of_dangling hbad hlast
  · intro hclear pre hpre
    exact (tracks_run (fun op hop ↦ hops op (hpre.subset hop))
      (hclear.sublist hpre.sublist)).owned

/-- Two adjacent regions: the first payload is freed and stays attached, the second is lost. -/
theorem not_owned_adjacent :
    run (⟨false, none, none⟩ : MergePolicy ℕ) [⟨0, 16, 1⟩, ⟨16, 32, 2⟩] =
        ⟨[(⟨0, 32, ⟨0#32, 0#32⟩⟩, 1)], [1]⟩ ∧
      ¬∀ pre, pre <+: [⟨0, 16, 1⟩, ⟨16, 32, 2⟩] →
        Owned (pre.map Region.data) (run (⟨false, none, none⟩ : MergePolicy ℕ) pre) := by
  have hfirst : vmvectorAdd (⟨false, none, none⟩ : MergePolicy ℕ) ⟨[], []⟩ 0 16 1 =
      ⟨[(⟨0, 16, ⟨0#32, 0#32⟩⟩, 1)], []⟩ := by
    rw [vmvectorAdd, addVmArea, addFrom_of_none rfl]
    rfl
  have hsecond : vmvectorAdd (⟨false, none, none⟩ : MergePolicy ℕ)
      ⟨[(⟨0, 16, ⟨0#32, 0#32⟩⟩, 1)], []⟩ 16 32 2 = ⟨[(⟨0, 32, ⟨0#32, 0#32⟩⟩, 1)], [1]⟩ := by
    have hmeets : touches (⟨false, none, none⟩ : MergePolicy ℕ) ⟨0#32, 0#32⟩ 2 16 32
        (⟨0, 16, ⟨0#32, 0#32⟩⟩, 1) = true := by decide
    refine Eq.trans (addFrom_touches rfl rfl hmeets) ?_
    rw [addFrom_of_none rfl]
    rfl
  have hrun : run (⟨false, none, none⟩ : MergePolicy ℕ) [⟨0, 16, 1⟩, ⟨16, 32, 2⟩] =
      ⟨[(⟨0, 32, ⟨0#32, 0#32⟩⟩, 1)], [1]⟩ := by
    rw [run, List.foldl_cons, List.foldl_cons, List.foldl_nil, hfirst, hsecond]
  refine ⟨hrun, fun howned ↦ ?_⟩
  have hlast := howned _ (List.prefix_refl _)
  rw [hrun] at hlast
  exact hlast.attached _ List.mem_cons_self List.mem_cons_self

/-- Two regions with a gap between them. -/
theorem owned_apart :
    Owned [1, 2] (run (⟨false, none, none⟩ : MergePolicy ℕ) [⟨0, 16, 1⟩, ⟨32, 48, 2⟩]) := by
  refine (owned_iff (by simp)).2 ?_ _ (List.prefix_refl [⟨0, 16, 1⟩, ⟨32, 48, 2⟩])
  simp [Meets, touches, Region.area]

end AreaVector

end DrAvx
