import Mathlib.Data.List.Basic
import Mathlib.Data.Set.Basic

/-!
# Vectors of memory areas

`vm_area_vector_t` is a sorted array of areas `[start, end)`, each with its flags.  `add_vm_area`
scans it once.  Areas that the new region overlaps, or touches while they have its flags, are
collected from `overlap_start` on and replaced by their hull at the end of the scan.  An area with
other flags keeps its part of the region: it cuts the region off in front of it (and what is left
behind it is added by a recursive call), or moves the start of the region behind it, or swallows
the region.

The scan works on indices of an array that the recursive call changes.  `scan` is the same
algorithm on lists: it carries the areas collected so far and recurses on those that come after
them, and `addFrom_eq_scan` shows that this is what the code computes.  What the operations do to
the areas is then proved by induction on the list.
-/

set_option autoImplicit false

namespace DrAvx

/-- The flags of an area. -/
@[ext]
structure AreaFlags where
  vm : BitVec 32
  frag : BitVec 32
deriving DecidableEq

/-- A `vm_area_t`; `stop` is its field `end`. -/
structure VmArea where
  start : ℕ
  stop : ℕ
  flags : AreaFlags
deriving DecidableEq

def vmWasFuture : BitVec 32 := 0x0008#32
def vmOnceOnly : BitVec 32 := 0x0020#32
def vmAddToSharedData : BitVec 32 := 0x1000#32
def fragCoarseGrain : BitVec 32 := 0x10000000#32

namespace VmArea

/-- The flag `mask` of an area is dropped if the region that overlaps it does not have it. -/
def dropFlag (mask new old : BitVec 32) : BitVec 32 :=
  if old &&& mask ≠ 0 ∧ new &&& mask = 0 then old &&& ~~~mask else old

/-- The flags of an area that a region with flags `new` overlaps. -/
def dropFlags (new old : AreaFlags) : AreaFlags :=
  ⟨dropFlag vmOnceOnly new.vm (dropFlag vmWasFuture new.vm old.vm), old.frag⟩

@[simp] theorem dropFlag_self (mask vm : BitVec 32) : dropFlag mask vm vm = vm := by
  rw [dropFlag, if_neg (by tauto)]

@[simp] theorem dropFlags_self (f : AreaFlags) : dropFlags f f = f := by
  simp [dropFlags]

/-- The area after it was overlapped by a region with flags `new`. -/
def dropped (new : AreaFlags) (a : VmArea) : VmArea :=
  { a with flags := dropFlags new a.flags }

@[simp] theorem dropped_start (new : AreaFlags) (a : VmArea) : (dropped new a).start = a.start :=
  rfl

@[simp] theorem dropped_stop (new : AreaFlags) (a : VmArea) : (dropped new a).stop = a.stop :=
  rfl

section Add

/- `never` is the flag `VECTOR_NEVER_MERGE_ADJACENT` of the vector, `new` the flags of the region
that is added. -/
variable (never : Bool) (new : AreaFlags)

/-- The region overlaps the area, or is adjacent to it and of the same type. -/
def touches (start stop : ℕ) (a : VmArea) : Bool :=
  decide (start < a.stop ∧ a.start < stop) ||
    (decide (start ≤ a.stop ∧ a.start ≤ stop ∧ new = a.flags) &&
      a.flags.frag &&& fragCoarseGrain == 0 && !never)

/-- What `add_vm_area` does after its scan: it puts a new area before index `i`, or replaces the
areas from `overlapStart` to `overlapEnd` by one. -/
def addFinish (buf : List VmArea) (start stop i : ℕ) (overlapStart overlapEnd : Option ℕ) :
    List VmArea :=
  match overlapStart with
  | none => buf.take i ++ ⟨start, stop, new⟩ :: buf.drop i
  | some s =>
    let e := overlapEnd.getD buf.length
    match buf[s]?, buf[e - 1]? with
    | some first, some last =>
      buf.take s ++
        ⟨if start < first.start then start else first.start,
          if last.stop < stop then stop else last.stop, first.flags⟩ :: buf.drop e
    | _, _ => buf

variable {never new} in
theorem lt_stop_of_touches {start stop : ℕ} {a : VmArea} (h : touches never new start stop a)
    (hne : new ≠ (dropped new a).flags) : start < a.stop ∧ a.start < stop := by
  by_contra hover
  have hnew : new = a.flags := by grind [touches]
  refine hne ?_
  rw [dropped, ← hnew, dropFlags_self]

variable {never new} in
theorem le_stop_of_touches {start stop : ℕ} {a : VmArea} (h : touches never new start stop a) :
    start ≤ a.stop ∧ a.start ≤ stop := by
  grind [touches]

variable {never new} in
theorem not_overlaps_of_not_touches {start stop : ℕ} {a : VmArea}
    (h : ¬touches never new start stop a) : a.stop ≤ start ∨ stop ≤ a.start := by
  grind [touches]

variable {never new} in
theorem lt_of_touches_of_lt {start stop : ℕ} {a : VmArea} (h : touches never new start stop a)
    (hne : new ≠ (dropped new a).flags) (hlt : (dropped new a).stop < stop) :
    stop - (dropped new a).stop < stop - start := by
  have := (lt_stop_of_touches h hne).1
  have hstop : (dropped new a).stop = a.stop := rfl
  omega

/-- The scan of `add_vm_area` from index `i` on, and what follows it. -/
def addFrom (buf : List VmArea) (start stop i : ℕ) (overlapStart : Option ℕ) : List VmArea :=
  match _h : buf[i]? with
  | none => addFinish new buf start stop i overlapStart none
  | some a =>
    if _ht : touches never new start stop a then
      let overlapStart := overlapStart.getD i
      let a' := dropped new a
      let buf' := buf.set i a'
      if _hne : new ≠ a'.flags then
        if start < a'.start then
          -- the region ends before this area; its part behind the area is added on its own
          let buf'' := if a'.stop < stop then addFrom buf' a'.stop stop 0 none else buf'
          addFinish new buf'' start a'.start i
            (if overlapStart = i then none else some overlapStart) (some i)
        else if a'.stop < stop then addFrom buf' a'.stop stop (i + 1) none
        else addFrom buf' start stop (i + 1) (some overlapStart)
      else addFrom buf' start stop (i + 1) (some overlapStart)
    else if overlapStart.isSome then addFinish new buf start stop i overlapStart (some i)
    else if stop ≤ a.start then addFinish new buf start stop i none none
    else addFrom buf start stop (i + 1) none
termination_by (stop - start, buf.length - i)
decreasing_by
  -- the first two calls are for a smaller region, the others for fewer areas
  all_goals
    first
    | exact Prod.Lex.left _ _ (lt_of_touches_of_lt ‹_› ‹_› ‹_›)
    | exact Prod.Lex.right _ (by grind)

/-- Adds the region from `start` to `stop` with flags `new`. -/
def addVmArea (buf : List VmArea) (start stop : ℕ) : List VmArea :=
  addFrom never new buf start stop 0 none

variable {never new}

end Add

/-- The areas that `remove_vm_area` finds to overlap the range: the first, and the one after the
last unless the vector ends there. -/
def findOverlap (buf : List VmArea) (start stop i : ℕ) (overlapStart : Option ℕ) :
    Option ℕ × Option ℕ :=
  match _h : buf[i]? with
  | none => (overlapStart, none)
  | some a =>
    if start < a.stop ∧ a.start < stop then
      findOverlap buf start stop (i + 1) (some (overlapStart.getD i))
    else if overlapStart.isSome then (overlapStart, some i)
    else if stop ≤ a.start then (none, none)
    else findOverlap buf start stop (i + 1) none
termination_by buf.length - i
decreasing_by all_goals grind

/-- The flags of the part behind the range when an area is split. -/
def splitFlags (f : AreaFlags) : AreaFlags :=
  ⟨f.vm &&& ~~~vmAddToSharedData, f.frag &&& ~~~fragCoarseGrain⟩

/-- The first area keeps what is in front of the range. -/
def trimFirst (start s : ℕ) (buf : List VmArea) : List VmArea × ℕ :=
  match buf[s]? with
  | some first =>
    if first.start < start then (buf.set s { first with stop := start }, s + 1) else (buf, s)
  | none => (buf, s)

/-- The last area keeps what is behind the range. -/
def trimLast (stop e : ℕ) (buf : List VmArea) : List VmArea × ℕ :=
  match buf[e - 1]? with
  | some last =>
    if stop < last.stop then (buf.set (e - 1) { last with start := stop }, e - 1) else (buf, e)
  | none => (buf, e)

/-- The part behind a range that lies inside the one area it overlaps. -/
def splitOff (start stop s e : ℕ) (buf : List VmArea) : Option VmArea :=
  match buf[s]? with
  | some first =>
    if first.start < start ∧ s = e - 1 ∧ stop < first.stop
    then some { first with start := stop } else none
  | none => none

/-- Removes the range from `start` to `stop`, and tells whether it overlapped an area. -/
def removeVmArea (never : Bool) (buf : List VmArea) (start stop : ℕ) : List VmArea × Bool :=
  match findOverlap buf start stop 0 none with
  | (none, _) => (buf, false)
  | (some s, overlapEnd) =>
    let e := overlapEnd.getD buf.length
    let newArea := splitOff start stop s e buf
    let (buf, s) := trimFirst start s buf
    let (buf, e) := trimLast stop e buf
    let buf := if s < e then buf.take s ++ buf.drop e else buf
    match newArea with
    | none => (buf, true)
    | some a => (addVmArea never (splitFlags a.flags) buf a.start a.stop, true)

/-! ## The scan on lists -/

/-- The areas are not empty, in ascending order and pairwise disjoint. -/
structure Canonical (buf : List VmArea) : Prop where
  nonempty : ∀ a ∈ buf, a.start < a.stop
  sorted : buf.Pairwise fun a b ↦ a.stop ≤ b.start

section Add

variable (never : Bool) (new : AreaFlags)

/-- The area that takes the place of the collected ones and of the region. -/
def hull (collected : List VmArea) (start stop : ℕ) : VmArea :=
  match collected.head?, collected.getLast? with
  | some first, some last =>
    ⟨if start < first.start then start else first.start,
      if last.stop < stop then stop else last.stop, first.flags⟩
  | _, _ => ⟨start, stop, new⟩

/-- Replaces the collected areas by one that covers them and the region, or adds the region as an
area of its own if there are none. -/
def close (collected : List VmArea) (start stop : ℕ) (rest : List VmArea) : List VmArea :=
  hull new collected start stop :: rest

/-- The scan on the areas that were not looked at yet. -/
def scan (collected : List VmArea) (start stop : ℕ) : List VmArea → List VmArea
  | [] => close new collected start stop []
  | a :: rest =>
    if touches never new start stop a then
      let a' := dropped new a
      if new ≠ a'.flags then
        if start < a.start then
          close new collected start a.start
            (a' :: if a.stop < stop then scan [] a.stop stop rest else rest)
        else if a.stop < stop then collected ++ a' :: scan [] a.stop stop rest
        else scan (collected ++ [a']) start stop rest
      else scan (collected ++ [a']) start stop rest
    else if collected ≠ [] then close new collected start stop (a :: rest)
    else if stop ≤ a.start then close new [] start stop (a :: rest)
    else a :: scan [] start stop rest

/-- The value of `overlap_start` when the areas `collected` come after the areas `before`. -/
def overlapStart (before collected : List VmArea) : Option ℕ :=
  if collected = [] then none else some before.length

variable {never new}

theorem addFinish_eq_close (before collected rest : List VmArea) (start stop : ℕ)
    {overlapEnd : Option ℕ}
    (hend : collected ≠ [] → overlapEnd.getD (before ++ (collected ++ rest)).length =
      before.length + collected.length) :
    addFinish new (before ++ (collected ++ rest)) start stop (before.length + collected.length)
        (overlapStart before collected) overlapEnd =
      before ++ close new collected start stop rest := by
  by_cases hc : collected = []
  · subst hc
    simp [addFinish, overlapStart, close, hull]
  · have hpos : 0 < collected.length := List.length_pos_of_ne_nil hc
    have hfirst : (before ++ (collected ++ rest))[before.length]? = collected.head? := by
      rw [List.getElem?_append_right le_rfl, Nat.sub_self, List.getElem?_append_left hpos,
        List.head?_eq_getElem?]
    have hlast : (before ++ (collected ++ rest))[before.length + collected.length - 1]? =
        collected.getLast? := by
      rw [List.getElem?_append_right (by omega), List.getElem?_append_left (by omega),
        List.getLast?_eq_getElem?]
      congr 1
      omega
    have hdrop : (before ++ (collected ++ rest)).drop (before.length + collected.length) =
        rest := by
      rw [List.drop_append, List.drop_append]
      simp
    rw [overlapStart, if_neg hc, addFinish]
    rw [hend hc, hfirst, hlast, hdrop, List.take_left, close, hull]
    rw [List.head?_eq_some_head hc, List.getLast?_eq_some_getLast hc]

theorem Canonical.of_map {buf buf' : List VmArea} (h : Canonical buf)
    (hmap : buf'.map (fun a ↦ (a.start, a.stop)) = buf.map fun a ↦ (a.start, a.stop)) :
    Canonical buf' := by
  have hsorted := h.sorted
  constructor
  · intro a ha
    have hmem : (a.start, a.stop) ∈ buf.map fun a ↦ (a.start, a.stop) :=
      hmap ▸ List.mem_map_of_mem ha
    obtain ⟨b, hb, heq⟩ := List.mem_map.1 hmem
    rw [Prod.mk.injEq] at heq
    rw [← heq.1, ← heq.2]
    exact h.nonempty b hb
  · have hpairs : (buf.map fun a ↦ (a.start, a.stop)).Pairwise fun x y ↦ x.2 ≤ y.1 :=
      List.pairwise_map.2 h.sorted
    rw [← hmap] at hpairs
    exact List.pairwise_map.1 hpairs

/-- Areas that the region does not touch and that do not come after it are passed over. -/
theorem addFrom_skip {before : List VmArea} (rest : List VmArea) {start stop i : ℕ} (hi : i ≤ before.length)
    (hclear : ∀ a ∈ before, touches never new start stop a = false ∧ ¬stop ≤ a.start) :
    addFrom never new (before ++ rest) start stop i none =
      addFrom never new (before ++ rest) start stop before.length none := by
  induction hi using Nat.decreasingInduction with
  | self => rfl
  | of_succ i hlt ih =>
    obtain ⟨htouches, hstop⟩ := hclear before[i] (List.getElem_mem hlt)
    have hget : (before ++ rest)[i]? = some before[i] := by
      rw [List.getElem?_append_left hlt, List.getElem?_eq_getElem hlt]
    rw [addFrom]
    split
    · next h => simp [hget] at h
    · next a h =>
      rw [hget, Option.some_inj] at h
      subst h
      rw [dif_neg (by simp [htouches]), if_neg (by simp), if_neg hstop, ih]

/-- One round of the scan, at the area after those collected. -/
theorem addFrom_cons {before collected rest buf : List VmArea} {a : VmArea} {start stop i : ℕ}
    (hi : before.length + collected.length = i)
    (hbuf : before ++ (collected ++ dropped new a :: rest) = buf) :
    addFrom never new (before ++ (collected ++ a :: rest)) start stop i
        (overlapStart before collected) =
      if touches never new start stop a then
        if new ≠ (dropped new a).flags then
          if start < a.start then
            addFinish new (if a.stop < stop then addFrom never new buf a.stop stop 0 none else buf)
              start a.start i (overlapStart before collected) (some i)
          else if a.stop < stop then addFrom never new buf a.stop stop (i + 1) none
          else addFrom never new buf start stop (i + 1) (some before.length)
        else addFrom never new buf start stop (i + 1) (some before.length)
      else if collected ≠ [] then
        addFinish new (before ++ (collected ++ a :: rest)) start stop i
          (overlapStart before collected) (some i)
      else if stop ≤ a.start then
        addFinish new (before ++ (collected ++ a :: rest)) start stop i none none
      else addFrom never new (before ++ (collected ++ a :: rest)) start stop (i + 1) none := by
  have hget : (before ++ (collected ++ a :: rest))[i]? = some a := by
    rw [← List.append_assoc, ← hi, ← List.length_append, List.getElem?_append_right le_rfl]
    simp
  have hset : (before ++ (collected ++ a :: rest)).set i (dropped new a) = buf := by
    rw [← List.append_assoc, ← hi, ← List.length_append, List.set_append_right _ _ le_rfl, ← hbuf]
    simp
  have hstart : (overlapStart before collected).getD i = before.length := by
    rw [overlapStart]
    split_ifs with hnil
    · simp [← hi, hnil]
    · rfl
  have hcut : (if before.length = i then none else some before.length) =
      overlapStart before collected := by
    simp [overlapStart, ← hi]
  have hsome : (overlapStart before collected).isSome = true ↔ collected ≠ [] := by
    rw [overlapStart]
    split_ifs with hnil <;> simp [hnil]
  rw [addFrom]
  split
  · next hnone => simp [hget] at hnone
  · next b hb =>
    rw [hget, Option.some_inj] at hb
    subst hb
    dsimp only
    rw [hset, hstart, hcut]
    simp only [dite_eq_ite, hsome]
    rfl

/-- What is left of a region behind an area of another type does not touch that area or those
before it. -/
theorem Canonical.clear_behind {before collected rest : List VmArea} {a : VmArea} {stop : ℕ}
    (h : Canonical (before ++ (collected ++ a :: rest))) (hne : new ≠ a.flags)
    (hstop : a.stop < stop) :
    ∀ b ∈ before ++ (collected ++ [a]),
      touches never new a.stop stop b = false ∧ ¬stop ≤ b.start := by
  have ha : a.start < a.stop := h.nonempty a (by simp)
  intro b hb
  obtain rfl | hb : b = a ∨ b ∈ before ++ collected := by
    simpa [or_comm, or_assoc, or_left_comm] using hb
  · simp [touches, hne]
    omega
  · have hsorted := h.sorted
    rw [← List.append_assoc, List.pairwise_append] at hsorted
    have hba : b.stop ≤ a.start := hsorted.2.2 b hb a (by simp)
    have hb' : b.start < b.stop := h.nonempty b (by simp at hb ⊢; tauto)
    simp [touches]
    omega

/-- **The code computes the scan on lists.** -/
theorem addFrom_eq_scan (before collected rest : List VmArea) (start stop : ℕ)
    (h : Canonical (before ++ (collected ++ rest))) :
    addFrom never new (before ++ (collected ++ rest)) start stop
        (before.length + collected.length) (overlapStart before collected) =
      before ++ scan never new collected start stop rest := by
  induction rest generalizing before collected start with
  | nil =>
    rw [addFrom]
    split
    · rw [scan]
      apply addFinish_eq_close
      simp
    · next h => simp at h
  | cons a rest ih =>
    have hcanonical : Canonical (before ++ (collected ++ dropped new a :: rest)) :=
      h.of_map (by simp [dropped])
    have hcollect := ih before (collected ++ [dropped new a]) start (by simpa using hcanonical)
    have hbehind := ih (before ++ (collected ++ [dropped new a])) [] a.stop
      (by simpa using hcanonical)
    simp only [List.append_assoc, List.length_append, List.cons_append, List.nil_append,
      List.length_cons, List.length_nil, Nat.zero_add, Nat.add_zero, overlapStart, if_pos,
      List.append_eq_nil_iff, List.cons_ne_nil, and_false, if_false, ← Nat.add_assoc] at hcollect hbehind
    rw [addFrom_cons rfl rfl, scan]
    dsimp only
    split_ifs with htouches hne hlt hstop hstop hnil hstop
    · -- the recursive call passes over everything up to this area
      have hclear : ∀ b ∈ before ++ (collected ++ [dropped new a]),
          touches never new a.stop stop b = false ∧ ¬stop ≤ b.start :=
        hcanonical.clear_behind hne hstop
      have hnested := addFrom_skip rest (Nat.zero_le _) hclear
      simp only [List.append_assoc, List.cons_append, List.nil_append, List.length_append,
        List.length_cons, List.length_nil, Nat.zero_add, ← Nat.add_assoc] at hnested
      rw [hnested, hbehind]
      exact addFinish_eq_close _ _ _ _ _ (fun _ ↦ rfl)
    · exact addFinish_eq_close _ _ _ _ _ (fun _ ↦ rfl)
    · exact hbehind
    · exact hcollect
    · exact hcollect
    · exact addFinish_eq_close _ _ _ _ _ (fun _ ↦ rfl)
    · obtain rfl := not_not.1 hnil
      exact addFinish_eq_close before [] (a :: rest) start stop (fun hnil ↦ absurd rfl hnil)
    · obtain rfl := not_not.1 hnil
      have hpass := ih (before ++ [a]) [] start (by simpa using h)
      simpa [overlapStart] using hpass

theorem addVmArea_eq_scan {buf : List VmArea} (h : Canonical buf) (start stop : ℕ) :
    addVmArea never new buf start stop = scan never new [] start stop buf :=
  addFrom_eq_scan [] [] buf start stop h

end Add

/-! ## Coverage -/

/-- The address `x` lies in an area. -/
def Covers (buf : List VmArea) (x : ℕ) : Prop :=
  ∃ a ∈ buf, a.start ≤ x ∧ x < a.stop

@[simp] theorem covers_nil (x : ℕ) : ¬Covers [] x := by
  simp [Covers]

@[simp] theorem covers_cons (a : VmArea) (buf : List VmArea) (x : ℕ) :
    Covers (a :: buf) x ↔ (a.start ≤ x ∧ x < a.stop) ∨ Covers buf x := by
  simp [Covers]

@[simp] theorem covers_append (l r : List VmArea) (x : ℕ) :
    Covers (l ++ r) x ↔ Covers l x ∨ Covers r x := by
  simp [Covers, or_and_right, exists_or]

theorem canonical_cons {a : VmArea} {buf : List VmArea} :
    Canonical (a :: buf) ↔ a.start < a.stop ∧ (∀ b ∈ buf, a.stop ≤ b.start) ∧ Canonical buf := by
  refine ⟨fun h ↦ ?_, fun ⟨ha, hle, hnonempty, hsorted⟩ ↦ ⟨?_, ?_⟩⟩
  · have hsorted := List.pairwise_cons.1 h.sorted
    exact ⟨h.nonempty a List.mem_cons_self, hsorted.1,
      fun b hb ↦ h.nonempty b (List.mem_cons_of_mem _ hb), hsorted.2⟩
  · simpa using ⟨ha, hnonempty⟩
  · exact List.pairwise_cons.2 ⟨hle, hsorted⟩

theorem canonical_append {l r : List VmArea} :
    Canonical (l ++ r) ↔
      Canonical l ∧ Canonical r ∧ ∀ a ∈ l, ∀ b ∈ r, a.stop ≤ b.start := by
  refine ⟨fun h ↦ ?_, fun ⟨hl, hr, hle⟩ ↦ ⟨?_, ?_⟩⟩
  · obtain ⟨hl, hr, hle⟩ := List.pairwise_append.1 h.sorted
    exact ⟨⟨fun a ha ↦ h.nonempty a (List.mem_append_left _ ha), hl⟩,
      ⟨fun a ha ↦ h.nonempty a (List.mem_append_right _ ha), hr⟩, hle⟩
  · intro a ha
    exact (List.mem_append.1 ha).elim (hl.nonempty a) (hr.nonempty a)
  · exact List.pairwise_append.2 ⟨hl.sorted, hr.sorted, hle⟩

/-- A lower bound of the covered addresses is one of the starts. -/
theorem Canonical.le_start {buf : List VmArea} (h : Canonical buf) {lb : ℕ}
    (hlb : ∀ x, Covers buf x → lb ≤ x) : ∀ a ∈ buf, lb ≤ a.start :=
  fun a ha ↦ hlb a.start ⟨a, ha, le_rfl, h.nonempty a ha⟩

/-- Lists of areas on the two sides of an address can be put together. -/
theorem Canonical.append_of_covers {l r : List VmArea} (hl : Canonical l) (hr : Canonical r)
    (t : ℕ) (hlt : ∀ x, Covers l x → x < t) (hle : ∀ x, Covers r x → t ≤ x) :
    Canonical (l ++ r) := by
  refine canonical_append.2 ⟨hl, hr, fun a ha b hb ↦ ?_⟩
  have hlast : a.stop - 1 < t := by
    have := hl.nonempty a ha
    exact hlt _ ⟨a, ha, by omega, by omega⟩
  have := hr.le_start hle b hb
  omega

theorem Canonical.head_start_le {buf : List VmArea} (h : Canonical buf) (hne : buf ≠ []) :
    ∀ a ∈ buf, (buf.head hne).start ≤ a.start := by
  intro a ha
  rw [← List.cons_head_tail hne] at h ha
  obtain ⟨hlt, hle, -⟩ := canonical_cons.1 h
  rcases List.mem_cons.1 ha with rfl | ha
  · exact le_rfl
  · have := hle a ha
    omega

theorem Canonical.stop_le_getLast {buf : List VmArea} (h : Canonical buf) (hne : buf ≠ []) :
    ∀ a ∈ buf, a.stop ≤ (buf.getLast hne).stop := by
  intro a ha
  rw [← List.dropLast_append_getLast hne] at h ha
  obtain ⟨-, hlast, hle⟩ := canonical_append.1 h
  rcases List.mem_append.1 ha with ha | ha
  · have h₁ := hle a ha _ List.mem_cons_self
    have h₂ := hlast.nonempty _ List.mem_cons_self
    omega
  · rw [List.mem_singleton.1 ha]

theorem Covers.le {buf : List VmArea} {lb : ℕ} (h : ∀ a ∈ buf, lb ≤ a.start) {x : ℕ}
    (hx : Covers buf x) : lb ≤ x := by
  obtain ⟨a, ha, hax, -⟩ := hx
  exact (h a ha).trans hax

section Add

variable {never : Bool} {new : AreaFlags}

/-- The collected areas are met by the region, or adjacent to it. -/
def Met (collected : List VmArea) (start stop : ℕ) : Prop :=
  ∀ a ∈ collected, start ≤ a.stop ∧ a.start ≤ stop

/-- The area that replaces the collected ones covers them and the region, and nothing else. -/
theorem close_spec (new : AreaFlags) {collected rest : List VmArea} {start stop : ℕ} (hlt : start < stop)
    (h : Canonical (collected ++ rest)) (hmet : Met collected start stop)
    (hrest : ∀ a ∈ rest, stop ≤ a.start) :
    Canonical (close new collected start stop rest) ∧
      ∀ x, Covers (close new collected start stop rest) x ↔
        Covers (collected ++ rest) x ∨ (start ≤ x ∧ x < stop) := by
  obtain ⟨hc, hr, hle⟩ := canonical_append.1 h
  by_cases hnil : collected = []
  · subst hnil
    refine ⟨canonical_cons.2 ⟨hlt, hrest, hr⟩, fun x ↦ ?_⟩
    simp [close, hull, or_comm]
  · rw [close, hull, List.head?_eq_some_head hnil, List.getLast?_eq_some_getLast hnil]
    dsimp only
    set first := collected.head hnil
    set last := collected.getLast hnil
    have hfirst : first ∈ collected := List.head_mem hnil
    have hlast : last ∈ collected := List.getLast_mem hnil
    have hne := hc.nonempty first hfirst
    obtain ⟨hf, -⟩ := hmet first hfirst
    obtain ⟨-, hl⟩ := hmet last hlast
    have hmin : ∀ a ∈ collected, first.start ≤ a.start := hc.head_start_le hnil
    have hmax : ∀ a ∈ collected, a.stop ≤ last.stop := hc.stop_le_getLast hnil
    refine ⟨canonical_cons.2 ⟨?_, fun b hb ↦ ?_, hr⟩, fun x ↦ ?_⟩
    · have := hmax first hfirst
      dsimp only
      split_ifs <;> omega
    · have h₁ := hle last hlast b hb
      have h₂ := hrest b hb
      dsimp only
      split_ifs <;> omega
    · rw [covers_cons, covers_append, or_right_comm]
      refine or_congr_left ⟨fun hx ↦ ?_, ?_⟩
      · -- an address of the hull before the region is in the first area, one after it in the last
        by_cases hregion : start ≤ x ∧ x < stop
        · exact .inr hregion
        · by_cases hbefore : x < start
          · exact .inl ⟨first, hfirst, by grind, by omega⟩
          · exact .inl ⟨last, hlast, by omega, by grind⟩
      · rintro (⟨a, ha, hax, hxa⟩ | ⟨hsx, hxs⟩)
        · have h₁ := hmin a ha
          have h₂ := hmax a ha
          dsimp only
          split_ifs <;> omega
        · dsimp only
          split_ifs <;> omega

/-- The areas `buf'` are in order and cover those of `buf` and the addresses from `start` to
`stop`. -/
def Extends (buf buf' : List VmArea) (start stop : ℕ) : Prop :=
  Canonical buf' ∧ ∀ x, Covers buf' x ↔ Covers buf x ∨ (start ≤ x ∧ x < stop)

theorem Extends.congr {buf₁ buf₂ buf' : List VmArea} {start₁ stop₁ start₂ stop₂ : ℕ}
    (h : Extends buf₁ buf' start₁ stop₁)
    (hx : ∀ x, Covers buf₁ x ∨ (start₁ ≤ x ∧ x < stop₁) ↔
      Covers buf₂ x ∨ (start₂ ≤ x ∧ x < stop₂)) : Extends buf₂ buf' start₂ stop₂ :=
  ⟨h.1, fun x ↦ (h.2 x).trans (hx x)⟩

/-- Areas in front of the region stay as they are. -/
theorem Extends.append (front : List VmArea) {rest rest' : List VmArea} {start stop : ℕ}
    (hrest : Extends rest rest' start stop) (h : Canonical (front ++ rest))
    (hfront : ∀ a ∈ front, a.stop ≤ start) :
    Extends (front ++ rest) (front ++ rest') start stop := by
  obtain ⟨hf, -, hle⟩ := canonical_append.1 h
  refine ⟨canonical_append.2 ⟨hf, hrest.1, fun a ha ↦ hrest.1.le_start fun x hx ↦ ?_⟩,
    fun x ↦ ?_⟩
  · rcases (hrest.2 x).1 hx with hx | hx
    · exact hx.le (hle a ha)
    · exact (hfront a ha).trans hx.1
  · rw [covers_append, covers_append, hrest.2, or_assoc]

/-- The collected areas grow up to the start of what comes next. -/
theorem Extends.close (new : AreaFlags) {collected next next' : List VmArea} (start : ℕ)
    {stop : ℕ} {a : VmArea} (hnext : Extends next next' a.stop stop) (h : Canonical (collected ++ next))
    (hfrom : ∀ b ∈ next', a.start ≤ b.start) (hmet : Met collected start a.start)
    (hlt : start < a.start) (hle : ∀ b ∈ collected, b.stop ≤ a.start) :
    Canonical (VmArea.close new collected start a.start next') ∧
      ∀ x, Covers (VmArea.close new collected start a.start next') x ↔
        Covers (collected ++ next) x ∨ (start ≤ x ∧ x < a.start) ∨ (a.stop ≤ x ∧ x < stop) := by
  obtain ⟨hc, -, -⟩ := canonical_append.1 h
  have hcanonical : Canonical (collected ++ next') :=
    canonical_append.2 ⟨hc, hnext.1, fun b hb b' hb' ↦ (hle b hb).trans (hfrom b' hb')⟩
  have hclose := close_spec new hlt hcanonical hmet hfrom
  refine ⟨hclose.1, fun x ↦ ?_⟩
  rw [hclose.2, covers_append, hnext.2, covers_append]
  tauto

/-- **What the scan does to the areas**: they stay in order, and cover the region in addition. -/
theorem scan_extends (collected : List VmArea) {rest : List VmArea} {start stop : ℕ} (hlt : start < stop)
    (h : Canonical (collected ++ rest)) (hmet : Met collected start stop) :
    Extends (collected ++ rest) (scan never new collected start stop rest) start stop := by
  induction rest generalizing collected start with
  | nil =>
    rw [scan]
    exact close_spec new hlt h hmet (by simp)
  | cons a rest ih =>
    obtain ⟨hc, har, hle⟩ := canonical_append.1 h
    obtain ⟨ha, harest, hr⟩ := canonical_cons.1 har
    have hcanonical : Canonical (collected ++ dropped new a :: rest) := h.of_map (by simp [dropped])
    have hlea : ∀ b ∈ collected, b.stop ≤ a.start := fun b hb ↦ hle b hb a List.mem_cons_self
    have hcovers : ∀ x, Covers (collected ++ dropped new a :: rest) x ↔
        Covers (collected ++ a :: rest) x := by
      simp [dropped]
    -- the area joins those collected
    have hcollect (ht : touches never new start stop a = true) : Extends (collected ++ a :: rest)
        (scan never new (collected ++ [dropped new a]) start stop rest) start stop := by
      have hmet' : Met (collected ++ [dropped new a]) start stop := by
        intro b hb
        rcases List.mem_append.1 hb with hb | hb
        · exact hmet b hb
        · rw [List.mem_singleton.1 hb]
          exact (le_stop_of_touches ht : start ≤ a.stop ∧ a.start ≤ stop)
      have := ih _ hlt (by simpa using hcanonical) hmet'
      simpa only [Extends, List.append_assoc, List.cons_append, List.nil_append, hcovers]
        using this
    -- the rest of the region is added behind the area
    have hbehind (hstop : a.stop < stop) :
        Extends rest (scan never new [] a.stop stop rest) a.stop stop :=
      ih [] hstop hr (by simp [Met])
    -- the region is cut off in front of the area
    have hcut (hlt' : start < a.start) {next : List VmArea} {s : ℕ}
        (hnext : Extends rest next a.stop s) :
        Canonical (close new collected start a.start (dropped new a :: next)) ∧
          ∀ x, Covers (close new collected start a.start (dropped new a :: next)) x ↔
            Covers (collected ++ a :: rest) x ∨ (start ≤ x ∧ x < a.start) ∨
              (a.stop ≤ x ∧ x < s) := by
      have happend := hnext.append [dropped new a]
        (canonical_append.1 hcanonical).2.1 (by simp [dropped])
      have hclose := happend.close new start (a := a) hcanonical
        (happend.1.head_start_le (by simp)) (fun b hb ↦ ⟨(hmet b hb).1, ?_⟩) hlt' hlea
      · simpa only [List.cons_append, List.nil_append, hcovers] using hclose
      · have := hc.nonempty b hb
        have := hlea b hb
        omega
    rw [scan]
    dsimp only
    split_ifs with htouches hne hlt' hstop hstop hnil hstop
    · obtain ⟨hcan, hcov⟩ := hcut hlt' (hbehind hstop)
      refine ⟨hcan, fun x ↦ ?_⟩
      rw [hcov, covers_append, covers_cons]
      grind
    · obtain ⟨hcan, hcov⟩ := hcut (s := a.stop) hlt' ⟨hr, fun x ↦ (or_iff_left (by omega)).symm⟩
      have hover := lt_stop_of_touches htouches hne
      refine ⟨hcan, fun x ↦ ?_⟩
      rw [hcov, covers_append, covers_cons]
      grind
    · have hover := lt_stop_of_touches htouches hne
      have := (hbehind hstop).append (collected ++ [dropped new a])
        (by simpa using hcanonical) ?_
      · simp only [List.append_assoc, List.cons_append, List.nil_append] at this
        refine this.congr fun x ↦ ?_
        rw [hcovers, covers_append, covers_cons]
        grind
      · intro b hb
        rcases List.mem_append.1 hb with hb | hb
        · have := hlea b hb
          omega
        · rw [List.mem_singleton.1 hb]
          exact le_rfl
    · exact hcollect htouches
    · exact hcollect htouches
    · obtain ⟨b, hb⟩ := List.exists_mem_of_ne_nil _ hnil
      have hb' := hmet b hb
      have hba := hlea b hb
      have hover := not_overlaps_of_not_touches htouches
      refine close_spec new hlt h hmet (List.forall_mem_cons.2 ⟨by omega, fun c hc' ↦ ?_⟩)
      have := harest c hc'
      omega
    · obtain rfl := not_not.1 hnil
      refine close_spec new hlt h hmet (List.forall_mem_cons.2 ⟨hstop, fun c hc' ↦ ?_⟩)
      have := harest c hc'
      omega
    · obtain rfl := not_not.1 hnil
      have hover := not_overlaps_of_not_touches htouches
      have hrest := ih [] hlt hr (by simp [Met])
      exact hrest.append [a] har (by simp; omega)

/-- Adding a region keeps the areas in order and adds its addresses to the covered ones. -/
theorem addVmArea_extends (never : Bool) (new : AreaFlags) {buf : List VmArea} (h : Canonical buf) {start stop : ℕ}
    (hlt : start < stop) : Extends buf (addVmArea never new buf start stop) start stop := by
  rw [addVmArea_eq_scan h]
  exact scan_extends [] hlt h (by simp [Met])

end Add

/-! ## Removal -/

variable {start stop : ℕ}

/-- The scan of a removal splits the areas into those before the range, those it overlaps and those
behind it. -/
theorem exists_findOverlap (before met : List VmArea) {rest : List VmArea}
    (h : Canonical (before ++ (met ++ rest))) (hbefore : ∀ a ∈ before, a.stop ≤ start)
    (hmet : ∀ a ∈ met, start < a.stop ∧ a.start < stop) :
    ∃ before' met' rest' overlapEnd,
      before ++ (met ++ rest) = before' ++ (met' ++ rest') ∧
      (∀ a ∈ before', a.stop ≤ start) ∧ (∀ a ∈ met', start < a.stop ∧ a.start < stop) ∧
      (∀ a ∈ rest', stop ≤ a.start) ∧
      findOverlap (before ++ (met ++ rest)) start stop (before.length + met.length)
        (overlapStart before met) = (overlapStart before' met', overlapEnd) ∧
      (met' ≠ [] → overlapEnd.getD (before ++ (met ++ rest)).length =
        before'.length + met'.length) := by
  induction rest generalizing before met with
  | nil =>
    refine ⟨before, met, [], none, rfl, hbefore, hmet, by simp, ?_, by simp⟩
    rw [findOverlap]
    split
    · rfl
    · next h => simp at h
  | cons a rest ih =>
    obtain ⟨-, hmr, -⟩ := canonical_append.1 h
    obtain ⟨-, har, hma⟩ := canonical_append.1 hmr
    obtain ⟨ha, harest, -⟩ := canonical_cons.1 har
    have hget : (before ++ (met ++ a :: rest))[before.length + met.length]? = some a := by
      rw [← List.append_assoc, ← List.length_append, List.getElem?_append_right le_rfl]
      simp
    rw [findOverlap]
    split
    · next hnone => simp at hnone
    · next b hb =>
      rw [hget, Option.some_inj] at hb
      subst hb
      split_ifs with hover hsome hstop
      · -- one more area that the range overlaps
        have := ih before (met ++ [a]) (by simpa using h) hbefore (by
          intro b hb
          rcases List.mem_append.1 hb with hb | hb
          · exact hmet b hb
          · rwa [List.mem_singleton.1 hb])
        have hstart : (overlapStart before met).getD (before.length + met.length) =
            before.length := by
          rw [overlapStart]
          split_ifs with hnil
          · simp [hnil]
          · rfl
        rw [hstart]
        simpa [overlapStart, Nat.add_assoc] using this
      · -- the range ends before this area
        have hne : met ≠ [] := by
          rintro rfl
          simp [overlapStart] at hsome
        obtain ⟨b, hb⟩ := List.exists_mem_of_ne_nil _ hne
        have hb' := hmet b hb
        have hba := hma b hb a List.mem_cons_self
        refine ⟨before, met, a :: rest, _, rfl, hbefore, hmet, ?_, rfl, fun _ ↦ rfl⟩
        refine List.forall_mem_cons.2 ⟨by omega, fun c hc ↦ ?_⟩
        have := harest c hc
        omega
      · have hnil : met = [] := by
          by_contra hne
          simp [overlapStart, hne] at hsome
        subst hnil
        refine ⟨before, [], a :: rest, none, rfl, hbefore, hmet, ?_, rfl, by simp⟩
        refine List.forall_mem_cons.2 ⟨hstop, fun c hc ↦ ?_⟩
        have := harest c hc
        omega
      · have hnil : met = [] := by
          by_contra hne
          simp [overlapStart, hne] at hsome
        subst hnil
        have := ih (before ++ [a]) [] (by simpa using h) (by
          intro b hb
          rcases List.mem_append.1 hb with hb | hb
          · exact hbefore b hb
          · rw [List.mem_singleton.1 hb]
            omega) (by simp)
        simpa [overlapStart, Nat.add_assoc] using this

/-- What is left of an area in front of the range. -/
def frontPart (start : ℕ) (a : VmArea) : List VmArea :=
  if a.start < start then [{ a with stop := start }] else []

/-- What is left of an area behind the range. -/
def backPart (stop : ℕ) (a : VmArea) : List VmArea :=
  if stop < a.stop then [{ a with start := stop }] else []

theorem getElem?_length_append (l r : List VmArea) (a : VmArea) :
    (l ++ a :: r)[l.length]? = some a := by
  simp

theorem set_length_append (l r : List VmArea) (a b : VmArea) :
    (l ++ a :: r).set l.length b = l ++ b :: r := by
  simp

theorem trimFirst_eq (before tail : List VmArea) (first : VmArea) (start : ℕ) :
    trimFirst start before.length (before ++ first :: tail) =
      if first.start < start then (before ++ { first with stop := start } :: tail, before.length + 1)
      else (before ++ first :: tail, before.length) := by
  rw [trimFirst, getElem?_length_append]
  dsimp only
  rw [set_length_append]

theorem trimLast_eq (front rest : List VmArea) (last : VmArea) (stop : ℕ) :
    trimLast stop (front.length + 1) (front ++ last :: rest) =
      if stop < last.stop then (front ++ { last with start := stop } :: rest, front.length)
      else (front ++ last :: rest, front.length + 1) := by
  rw [trimLast, Nat.add_sub_cancel, getElem?_length_append]
  dsimp only
  rw [set_length_append]

theorem delete_eq (front mid rest : List VmArea) :
    (if front.length < front.length + mid.length then
      (front ++ (mid ++ rest)).take front.length ++
        (front ++ (mid ++ rest)).drop (front.length + mid.length)
      else front ++ (mid ++ rest)) = front ++ rest := by
  split_ifs with hlt
  · rw [List.take_left, ← List.append_assoc, ← List.length_append, List.drop_left]
  · rw [List.eq_nil_of_length_eq_zero (by omega : mid.length = 0), List.nil_append]

/-- A removal that overlaps one area. -/
theorem removeVmArea_single {never : Bool} {before rest : List VmArea} {a : VmArea}
    {overlapEnd : Option ℕ} (hle : start ≤ stop)
    (hfind : findOverlap (before ++ a :: rest) start stop 0 none =
      (some before.length, overlapEnd))
    (hend : overlapEnd.getD (before ++ a :: rest).length = before.length + 1) :
    removeVmArea never (before ++ a :: rest) start stop =
      if a.start < start ∧ stop < a.stop then
        (addVmArea never (splitFlags a.flags) (before ++ { a with stop := start } :: rest) stop
          a.stop, true)
      else (before ++ (frontPart start a ++ (backPart stop a ++ rest)), true) := by
  rw [removeVmArea, hfind]
  dsimp only
  rw [hend, trimFirst_eq, splitOff, getElem?_length_append]
  dsimp only
  rw [Nat.add_sub_cancel]
  by_cases hfirst : a.start < start
  · -- the area ends at `start` now, so that its end is not cut off again
    have htrim := trimLast_eq before rest { a with stop := start } stop
    rw [if_neg (show ¬stop < start by omega)] at htrim
    rw [if_pos hfirst]
    dsimp only
    rw [htrim]
    dsimp only
    rw [if_neg (lt_irrefl _), frontPart, if_pos hfirst, backPart]
    by_cases hstop : stop < a.stop
    · rw [if_pos ⟨hfirst, rfl, hstop⟩, if_pos ⟨hfirst, hstop⟩]
    · rw [if_neg (by tauto), if_neg (by tauto), if_neg hstop]
      rfl
  · rw [if_neg hfirst]
    dsimp only
    rw [trimLast_eq, if_neg (fun h : a.start < start ∧ _ ∧ stop < a.stop ↦ hfirst h.1),
      if_neg (fun h : a.start < start ∧ stop < a.stop ↦ hfirst h.1), frontPart, if_neg hfirst,
      backPart]
    by_cases hstop : stop < a.stop
    · rw [if_pos hstop, if_pos hstop]
      dsimp only
      rw [if_neg (lt_irrefl _)]
      rfl
    · rw [if_neg hstop, if_neg hstop]
      dsimp only
      have := delete_eq before [a] rest
      rw [List.length_singleton, List.singleton_append] at this
      rw [this]
      rfl

/-- A removal that overlaps two areas or more. -/
theorem removeVmArea_many {never : Bool} {before mid rest : List VmArea} {first last : VmArea}
    {overlapEnd : Option ℕ}
    (hfind : findOverlap (before ++ first :: (mid ++ last :: rest)) start stop 0 none =
      (some before.length, overlapEnd))
    (hend : overlapEnd.getD (before ++ first :: (mid ++ last :: rest)).length =
      before.length + mid.length + 2) :
    removeVmArea never (before ++ first :: (mid ++ last :: rest)) start stop =
      (before ++ (frontPart start first ++ (backPart stop last ++ rest)), true) := by
  rw [removeVmArea, hfind]
  dsimp only
  rw [hend, trimFirst_eq, splitOff, getElem?_length_append]
  dsimp only
  rw [if_neg (by omega)]
  -- `front` is what stays at the front, `gone` what is deleted except for the last area
  obtain ⟨front, gone, htrim, hfront, hlen⟩ : ∃ front gone : List VmArea,
      (if first.start < start then
        (before ++ { first with stop := start } :: (mid ++ last :: rest), before.length + 1)
      else (before ++ first :: (mid ++ last :: rest), before.length)) =
        (front ++ (gone ++ last :: rest), front.length) ∧
      before ++ frontPart start first = front ∧
      before.length + mid.length + 2 = (front ++ gone).length + 1 := by
    rw [frontPart]
    split_ifs with hfirst
    · exact ⟨_, mid, by simp, rfl, by simp; omega⟩
    · exact ⟨_, first :: mid, by simp, rfl, by simp; omega⟩
  rw [htrim, hlen]
  dsimp only
  rw [← List.append_assoc front, trimLast_eq, ← List.append_assoc before, hfront, backPart,
    List.append_assoc, List.length_append]
  by_cases hstop : stop < last.stop
  · rw [if_pos hstop, if_pos hstop]
    dsimp only
    rw [delete_eq]
    rfl
  · rw [if_neg hstop, if_neg hstop]
    dsimp only
    have := delete_eq front (gone ++ [last]) rest
    rw [List.length_append, List.length_singleton, ← Nat.add_assoc, List.append_assoc,
      List.singleton_append] at this
    rw [List.append_assoc, this]
    rfl

/-- The areas `buf'` are in order and cover those of `buf` without the addresses from `start` to
`stop`. -/
def Removes (buf buf' : List VmArea) (start stop : ℕ) : Prop :=
  Canonical buf' ∧ ∀ x, Covers buf' x ↔ Covers buf x ∧ ¬(start ≤ x ∧ x < stop)

@[simp] theorem covers_frontPart (start : ℕ) (a : VmArea) (x : ℕ) :
    Covers (frontPart start a) x ↔ a.start ≤ x ∧ x < start := by
  rw [frontPart]
  split_ifs with h
  · simp
  · simp
    omega

@[simp] theorem covers_backPart (stop : ℕ) (a : VmArea) (x : ℕ) :
    Covers (backPart stop a) x ↔ stop ≤ x ∧ x < a.stop := by
  rw [backPart]
  split_ifs with h
  · simp
  · simp
    omega

theorem canonical_frontPart (start : ℕ) (a : VmArea) : Canonical (frontPart start a) := by
  rw [frontPart]
  split_ifs with h
  · exact canonical_cons.2 ⟨h, by simp, by simp, by simp⟩
  · exact ⟨by simp, by simp⟩

theorem canonical_backPart (stop : ℕ) (a : VmArea) : Canonical (backPart stop a) := by
  rw [backPart]
  split_ifs with h
  · exact canonical_cons.2 ⟨h, by simp, by simp, by simp⟩
  · exact ⟨by simp, by simp⟩

/-- The parts of the first and the last area that a range overlaps, between the areas before and
behind it. -/
theorem removes_parts {before : List VmArea} (met : List VmArea) {rest : List VmArea}
    (hle : start ≤ stop)
    (h : Canonical (before ++ (met ++ rest))) (hbefore : ∀ a ∈ before, a.stop ≤ start)
    (hmet : ∀ a ∈ met, start < a.stop ∧ a.start < stop) (hrest : ∀ a ∈ rest, stop ≤ a.start)
    (hne : met ≠ []) :
    Removes (before ++ (met ++ rest))
      (before ++ (frontPart start (met.head hne) ++ (backPart stop (met.getLast hne) ++ rest)))
      start stop := by
  obtain ⟨hb, hmr, hbm⟩ := canonical_append.1 h
  obtain ⟨hm, hr, hmr'⟩ := canonical_append.1 hmr
  set first := met.head hne
  set last := met.getLast hne
  have hfirst : first ∈ met := List.head_mem hne
  have hlast : last ∈ met := List.getLast_mem hne
  have hmin : ∀ a ∈ met, first.start ≤ a.start := hm.head_start_le hne
  have hmax : ∀ a ∈ met, a.stop ≤ last.stop := hm.stop_le_getLast hne
  have hlt : ∀ x, Covers before x → x < first.start ∧ x < start := by
    rintro x ⟨a, ha, -, hx⟩
    have h₁ := hbm a ha first (by simp [hfirst])
    have h₂ := hbefore a ha
    omega
  have hge : ∀ x, Covers rest x → last.stop ≤ x ∧ stop ≤ x := by
    rintro x ⟨a, ha, hx, -⟩
    have h₁ := hmr' last hlast a ha
    have h₂ := hrest a ha
    omega
  obtain ⟨hf₁, hf₂⟩ := hmet first hfirst
  obtain ⟨hl₁, hl₂⟩ := hmet last hlast
  constructor
  · refine hb.append_of_covers ((canonical_frontPart _ _).append_of_covers
      ((canonical_backPart _ _).append_of_covers hr last.stop ?_ fun x hx ↦ (hge x hx).1)
      start ?_ ?_) (min first.start start) ?_ ?_
    · simp only [covers_backPart]
      omega
    · simp only [covers_frontPart]
      omega
    · simp only [covers_append, covers_backPart]
      rintro x (hx | hx)
      · omega
      · have := hge x hx
        omega
    · intro x hx
      have := hlt x hx
      omega
    · simp only [covers_append, covers_frontPart, covers_backPart]
      rintro x (hx | hx | hx)
      · omega
      · omega
      · have := hge x hx
        omega
  · intro x
    simp only [covers_append, covers_frontPart, covers_backPart]
    constructor
    · rintro (hx | hx | hx | hx)
      · have := hlt x hx
        exact ⟨.inl hx, by omega⟩
      · exact ⟨.inr (.inl ⟨first, hfirst, by omega, by omega⟩), by omega⟩
      · exact ⟨.inr (.inl ⟨last, hlast, by omega, by omega⟩), by omega⟩
      · have := hge x hx
        exact ⟨.inr (.inr hx), by omega⟩
    · rintro ⟨hx | ⟨a, ha, hax, hxa⟩ | hx, hout⟩
      · exact .inl hx
      · have h₁ := hmin a ha
        have h₂ := hmax a ha
        exact .inr (by omega)
      · exact .inr (.inr (.inr hx))

/-- The range meets an area. -/
def Meets (buf : List VmArea) (start stop : ℕ) : Prop :=
  ∃ a ∈ buf, start < a.stop ∧ a.start < stop

/-- A non-empty range meets an area exactly if it has a covered address. -/
theorem Canonical.meets_iff {buf : List VmArea} (h : Canonical buf)
    (hlt : start < stop) :
    Meets buf start stop ↔ ∃ x, Covers buf x ∧ start ≤ x ∧ x < stop := by
  constructor
  · rintro ⟨a, ha, hsa, has⟩
    have := h.nonempty a ha
    exact ⟨max start a.start, ⟨a, ha, by omega, by omega⟩, by omega, by omega⟩
  · rintro ⟨x, ⟨a, ha, hax, hxa⟩, hsx, hxs⟩
    exact ⟨a, ha, by omega, by omega⟩

/-- **What a removal does to the areas**: they stay in order and cover what is left, and the
result tells whether the range met one. -/
theorem removeVmArea_removes (never : Bool) {buf : List VmArea} (h : Canonical buf)
    (hle : start ≤ stop) :
    Removes buf (removeVmArea never buf start stop).1 start stop ∧
      ((removeVmArea never buf start stop).2 = true ↔ Meets buf start stop) := by
  obtain ⟨before, met, rest, overlapEnd, hbuf, hbefore, hmet, hrest, hfind, hend⟩ :=
    exists_findOverlap [] [] h (by simp) (by simp)
  simp only [List.nil_append] at hbuf
  subst hbuf
  replace hfind : findOverlap (before ++ (met ++ rest)) start stop 0 none =
    (overlapStart before met, overlapEnd) := hfind
  simp only [List.nil_append] at hend
  by_cases hne : met = []
  · subst hne
    have hnot : ∀ a ∈ before ++ ([] ++ rest), ¬(start < a.stop ∧ a.start < stop) := by
      intro a ha
      rcases List.mem_append.1 ha with ha | ha
      · have := hbefore a ha
        omega
      · have := hrest a ha
        omega
    rw [removeVmArea, hfind]
    refine ⟨⟨h, fun x ↦ ⟨fun hx ↦ ⟨hx, ?_⟩, And.left⟩⟩, ?_⟩
    · obtain ⟨a, ha, hax, hxa⟩ := hx
      have := hnot a ha
      omega
    · simpa [overlapStart, Meets] using hnot
  · have hparts := removes_parts met hle h hbefore hmet hrest hne
    have hmeets : Meets (before ++ (met ++ rest)) start stop := by
      obtain ⟨a, ha⟩ := List.exists_mem_of_ne_nil _ hne
      exact ⟨a, by simp [ha], hmet a ha⟩
    rw [overlapStart, if_neg hne] at hfind
    replace hend := hend hne
    obtain ⟨first, tail, rfl⟩ := List.exists_cons_of_ne_nil hne
    rcases List.eq_nil_or_concat tail with rfl | ⟨mid, last, rfl⟩
    · rw [List.singleton_append] at h hfind hend hparts hmeets ⊢
      rw [removeVmArea_single hle hfind hend]
      obtain ⟨hfirst, -⟩ := hmet first List.mem_cons_self
      split_ifs with hinside
      · -- the part behind the range is taken away as well, and added again
        obtain ⟨-, hfr, -⟩ := canonical_append.1 h
        obtain ⟨hne', hle', -⟩ := canonical_cons.1 hfr
        have hparts' := removes_parts [first] hfirst.le h hbefore
          (by simpa using ⟨hfirst, hne'⟩) hle' (by simp)
        simp only [List.head_cons, List.getLast_singleton, frontPart, hinside.1, if_true, backPart,
          lt_irrefl, if_false, List.singleton_append, List.nil_append] at hparts'
        have hadd := addVmArea_extends never (splitFlags first.flags) hparts'.1
          hinside.2
        refine ⟨⟨hadd.1, fun x ↦ ?_⟩, by simpa using hmeets⟩
        rw [hadd.2, hparts'.2]
        have hx : stop ≤ x ∧ x < first.stop → Covers (before ++ first :: rest) x := fun hx ↦
          ⟨first, by simp, by omega, by omega⟩
        grind
      · exact ⟨hparts, by simpa using hmeets⟩
    · simp only [List.concat_eq_append, List.cons_append, List.append_assoc, List.nil_append,
        List.length_cons, List.length_append, List.length_nil] at *
      rw [removeVmArea_many hfind (by simp; omega)]
      refine ⟨?_, by simpa using hmeets⟩
      simpa using hparts

/-! ## Whole runs -/

/-- A sequence of additions and removals on an empty vector. -/
inductive Run (never : Bool) : List VmArea → Prop
  | empty : Run never []
  | add {buf : List VmArea} (new : AreaFlags) {start stop : ℕ} (h : Run never buf)
      (hlt : start < stop) : Run never (addVmArea never new buf start stop)
  | remove {buf : List VmArea} {start stop : ℕ} (h : Run never buf) (hle : start ≤ stop) :
      Run never (removeVmArea never buf start stop).1

theorem Run.canonical {never : Bool} {buf : List VmArea} (h : Run never buf) : Canonical buf := by
  induction h with
  | empty => exact ⟨by simp, by simp⟩
  | add new _ hlt ih => exact (addVmArea_extends never new ih hlt).1
  | remove _ hle ih => exact (removeVmArea_removes never ih hle).1.1

/-- **Vectors of areas stay canonical and track coverage.**  After every sequence of additions and
removals the areas are not empty, sorted and disjoint; one more addition adds exactly its region to
the covered addresses, one more removal takes exactly its range away and tells whether it met an
area. -/
theorem Run.tracks_coverage {never : Bool} {buf : List VmArea} (h : Run never buf) :
    (∀ a ∈ buf, a.start < a.stop) ∧ buf.Pairwise (fun a b ↦ a.stop ≤ b.start) ∧
    (∀ new start stop, start < stop → ∀ x,
      Covers (addVmArea never new buf start stop) x ↔
        Covers buf x ∨ (start ≤ x ∧ x < stop)) ∧
    ∀ start stop, start ≤ stop →
      (∀ x, Covers (removeVmArea never buf start stop).1 x ↔
        Covers buf x ∧ ¬(start ≤ x ∧ x < stop)) ∧
      ((removeVmArea never buf start stop).2 = true ↔ Meets buf start stop) ∧
      (start < stop →
        (Meets buf start stop ↔ ∃ x, Covers buf x ∧ start ≤ x ∧ x < stop)) := by
  have hcanonical := h.canonical
  refine ⟨hcanonical.nonempty, hcanonical.sorted, fun new start stop hlt ↦ ?_,
    fun start stop hle ↦ ?_⟩
  · exact (addVmArea_extends never new hcanonical hlt).2
  · obtain ⟨hremoves, hmet⟩ := removeVmArea_removes never hcanonical hle
    exact ⟨hremoves.2, hmet, hcanonical.meets_iff⟩

/-- A removal from the middle of the only area leaves what is in front of it. -/
theorem covers_remove_middle :
    Covers (removeVmArea false (addVmArea false ⟨0, 0⟩ [] 0 30) 10 20).1 5 := by
  have hempty : Run false [] := Run.empty
  have hadd := hempty.tracks_coverage.2.2.1 ⟨0, 0⟩ 0 30 (by decide) 5
  have hrun : Run false (addVmArea false ⟨0, 0⟩ [] 0 30) := Run.empty.add _ (by decide)
  have hremove := (hrun.tracks_coverage.2.2.2 10 20 (by decide)).1 5
  exact hremove.2 ⟨hadd.2 (.inr (by decide)), by decide⟩

end VmArea

end DrAvx
