import DrAvx.Core.Hashtable
import DrAvx.Probing.Walk

/-!
# Removing a range of tags

`range_remove` scans the slots of a table from the last one down and removes, on its way, every
entry whose tag is in a range and that passes a filter.  A removal rearranges the table under the
scan.  As long as it does not cross the end of the array it moves entries down only, and no further
than the slot it empties, so that the scan looks at that slot again and misses nothing.  If it does
cross, the scan starts over.  Every removal makes the number of entries smaller, so the scan ends.

`groom_table` empties a table by removing a range that begins at 0 and ends at `UINT_MAX`.  The
bound is a `uint` while tags are pointer-sized, and it is exclusive: an entry whose tag is
`0xFFFFFFFF` or more stays.

## What is here

* `Removed`, what one call of `remove_helper` does, as a walk of `Probing.Walk`;
* `rangeRemove` and `rangeRemove_exact`;
* `groomTable` and `groomTable_empties_iff`.
-/

set_option autoImplicit false

namespace DrAvx

open Probing

namespace GenericTable

variable {β : Type}

/-! ## The code -/

section

variable (chars : BitVec 64 → List (BitVec 8))

/-- The loop of `range_remove`: `i` slots are left to look at, so the loop looks at slot `i - 1`.
The result has the entries in the order in which they are freed. -/
def rangeRemoveLoop (hit : GenericEntry β → Bool) (fuel : ℕ) :
    ℕ → GenericTable β → ℕ → Option (GenericTable β × List (GenericEntry β))
  | 0, _, _ => none
  | _ + 1, t, 0 => some (t, [])
  | rounds + 1, t, i + 1 =>
    match (t.table i).filter hit with
    | some e => do
      let r ← t.removeHelper chars fuel i
      -- after a chain was pulled across the wraparound, the scan starts over at the end
      let s ← rangeRemoveLoop hit fuel rounds r.1 (if r.2 then r.1.capacity - 1 else i + 1)
      some (s.1, e :: s.2)
    | none => rangeRemoveLoop hit fuel rounds t i

end

/-- The test of `range_remove`; there may be no filter. -/
def inRange (tagStart tagEnd : BitVec 64) (filter : Option (GenericEntry β → Bool))
    (e : GenericEntry β) : Bool :=
  tagStart ≤ e.key && e.key < tagEnd && filter.all fun f ↦ f e

/-- The table, the entries that were freed and the number that is returned, a `uint`.  Nothing is
removed from a table with the flag `HASHTABLE_READ_ONLY`, on which the code asserts that it is not
called. -/
def rangeRemove (chars : BitVec 64 → List (BitVec 8)) (t : GenericTable β) (readOnly : Bool)
    (fuel rounds : ℕ) (tagStart tagEnd : BitVec 64) (filter : Option (GenericEntry β → Bool)) :
    Option (GenericTable β × List (GenericEntry β) × ℕ) :=
  if readOnly then some (t, [], 0)
  else (rangeRemoveLoop chars (inRange tagStart tagEnd filter) fuel rounds t (t.capacity - 1)).map
    fun s ↦ (s.1, s.2, s.2.length % 2 ^ 32)

/-- `UINT_MAX`, as a `ptr_uint_t`. -/
def uintMax : BitVec 64 := 0xFFFFFFFF#64

def groomTable (chars : BitVec 64 → List (BitVec 8)) (t : GenericTable β) (readOnly : Bool)
    (fuel rounds : ℕ) : Option (GenericTable β) :=
  (t.rangeRemove chars readOnly fuel rounds 0#64 uintMax none).map Prod.fst

/-! ## One removal -/

variable {chars : BitVec 64 → List (BitVec 8)} {n : ℕ} {table : ℕ → Option (GenericEntry β)}
  {m : BitVec 64 → Option β} {t : GenericTable β}

/-- The loops of `remove_helper_open_address` are the walk, and they report whether it has crossed
the end of the array. -/
theorem closeHole_walk {home : GenericEntry β → ℕ} (hhome : ∀ e, home e < n)
    {T : ℕ → Option (GenericEntry β)} {i : ℕ} (hi : i < n) (hTi : T i ≠ none)
    (hfree : ∃ k < n, T k = none) {hole cur fuel : ℕ} {r : (ℕ → Option (GenericEntry β)) × Bool}
    (h : Walk n home T i table hole cur)
    (hr : closeHole n home fuel table hole cur (decide (hole < i)) = some r) :
    ∃ hole cur, Walk n home T i r.1 hole cur ∧ r.1 (Probing.next n cur) = none ∧
      r.2 = decide (hole < i) := by
  induction fuel generalizing table hole cur with
  | zero => exact absurd hr (by simp [closeHole])
  | succ fuel ih =>
    have hw := h.walked hi hTi hfree
    have hnext := next_lt hw.cur_lt
    rw [closeHole] at hr
    cases hslot : table (Probing.next n cur) with
    | none =>
      simp only [hslot, Option.some.injEq] at hr
      subst hr
      exact ⟨hole, cur, h, hslot, rfl⟩
    | some e =>
      simp only [hslot] at hr
      split_ifs at hr with horphan
      all_goals rw [orphaned_iff (hhome e) hw.hole_lt hnext] at horphan
      · rw [← Bool.decide_or, ← decide_eq_decide.2 (hw.next_lt_iff hi hfree)] at hr
        exact ih (h.move hslot horphan) hr
      · exact ih (h.skip hslot horphan) hr

/-- What a removal of the entry `e` from slot `i` does. -/
structure Removed (chars : BitVec 64 → List (BitVec 8)) (t : GenericTable β)
    (m : BitVec 64 → Option β) (i : ℕ) (e : GenericEntry β) (r : GenericTable β × Bool) :
    Prop where
  sound : Sound chars r.1 (Function.update m e.key none)
  shape : SameShape t r.1
  walk : ∃ hole cur, Walk (2 ^ t.hashBits) (fun a ↦ t.home chars a.key) t.table i r.1.table hole cur ∧
    r.1.table (Probing.next (2 ^ t.hashBits) cur) = none ∧ r.2 = decide (hole < i)

theorem Sound.removeHelper_removed (h : Sound chars t m) (hfree : size m < 2 ^ t.hashBits) {i : ℕ}
    {e : GenericEntry β} (hi : t.table i = some e) {fuel : ℕ} {total : Prop}
    (htotal : total → 2 ^ 31 ≤ fuel) :
    Returns (t.removeHelper chars fuel i) total (Removed chars t m i e) := by
  have hhelper : Returns (t.removeHelper chars fuel i) total _ :=
    h.removeHelper hi fun ht ↦ ⟨hfree, htotal ht⟩
  refine ⟨fun r hr ↦ ?_, hhelper.ends⟩
  obtain ⟨hsound, hshape⟩ := hhelper.post r hr
  refine ⟨hsound, hshape, ?_⟩
  obtain ⟨s, hs, rfl⟩ := Option.map_eq_some_iff.1 hr
  have hTi : t.table i ≠ none := by
    rw [hi]
    exact Option.some_ne_none e
  rw [removeHelperOpenAddress, ← decide_eq_false (lt_irrefl i)] at hs
  exact closeHole_walk (fun a ↦ h.home_lt a.key) (h.stores.bound i e hi) hTi
    (h.stores.size_lt_iff.1 hfree) Walk.start hs

/-! ## The scan -/

/-- The entries of a finite map that are not hit. -/
def keep (hit : GenericEntry β → Bool) (m : BitVec 64 → Option β) (key : BitVec 64) : Option β :=
  (m key).filter fun payload ↦ !hit ⟨key, payload⟩

/-- The scan has removed and freed the entries that are hit, each of them once. -/
structure Swept (chars : BitVec 64 → List (BitVec 8)) (hit : GenericEntry β → Bool)
    (t : GenericTable β) (m : BitVec 64 → Option β)
    (r : GenericTable β × List (GenericEntry β)) : Prop where
  sound : Sound chars r.1 (keep hit m)
  shape : SameShape t r.1
  nodup : r.2.Nodup
  mem_freed : ∀ e, e ∈ r.2 ↔ m e.key = some e.payload ∧ hit e = true
  count : r.1.entries + r.2.length = t.entries

variable {hit : GenericEntry β → Bool}

theorem keep_eq_some_iff {key : BitVec 64} {payload : β} :
    keep hit m key = some payload ↔ m key = some payload ∧ hit ⟨key, payload⟩ = false := by
  rw [keep, Option.filter_eq_some_iff, Bool.not_eq_true']

/-- Nothing is left to remove. -/
theorem Sound.swept (h : Sound chars t m) (hclean : ∀ x e, t.table x = some e → hit e = false) :
    Swept chars hit t m (t, []) where
  sound := by
    have hkeep : keep hit m = m := by
      funext key
      refine Option.ext fun payload ↦ ?_
      rw [keep_eq_some_iff, and_iff_left_iff_imp]
      intro hm
      obtain ⟨x, hx⟩ := (h.stores.mem_iff key payload).1 hm
      exact hclean x _ hx
    rwa [hkeep]
  shape := ⟨rfl, rfl, rfl⟩
  nodup := List.nodup_nil
  mem_freed e := by
    refine iff_of_false List.not_mem_nil ?_
    rintro ⟨hm, hhit⟩
    obtain ⟨x, hx⟩ := (h.stores.mem_iff _ _).1 hm
    rw [hclean x e hx] at hhit
    exact absurd hhit (by simp)
  count := rfl

/-- The rest of the scan, after an entry that is hit was removed. -/
theorem Removed.swept {i : ℕ} {e : GenericEntry β} {r : GenericTable β × Bool}
    {s : GenericTable β × List (GenericEntry β)} (h : Sound chars t m) (hi : t.table i = some e)
    (hhit : hit e = true) (hr : Removed chars t m i e r)
    (hs : Swept chars hit r.1 (Function.update m e.key none) s) :
    Swept chars hit t m (s.1, e :: s.2) where
  sound := by
    have hkeep : keep hit (Function.update m e.key none) = keep hit m := by
      funext key
      refine Option.ext fun payload ↦ ?_
      rw [keep_eq_some_iff, keep_eq_some_iff]
      by_cases hkey : key = e.key
      · subst hkey
        rw [Function.update_self, h.stores.mem hi, Option.some.injEq]
        refine iff_of_false (fun hf ↦ absurd hf.1 (by simp)) ?_
        rintro ⟨rfl, hmiss⟩
        rw [hhit] at hmiss
        exact absurd hmiss (by simp)
      · rw [Function.update_of_ne hkey]
    rw [← hkeep]
    exact hs.sound
  shape := ⟨hs.shape.hashFunc.trans hr.shape.hashFunc, hs.shape.hashBits.trans hr.shape.hashBits,
    hs.shape.loadFactorPercent.trans hr.shape.loadFactorPercent⟩
  nodup := by
    refine List.nodup_cons.2 ⟨fun hmem ↦ ?_, hs.nodup⟩
    have hm := ((hs.mem_freed e).1 hmem).1
    rw [Function.update_self] at hm
    exact absurd hm (by simp)
  mem_freed a := by
    rw [List.mem_cons, hs.mem_freed]
    by_cases hkey : a.key = e.key
    · rw [hkey, Function.update_self, h.stores.mem hi, Option.some.injEq]
      constructor
      · rintro (rfl | hf)
        · exact ⟨rfl, hhit⟩
        · exact absurd hf.1 (by simp)
      · rintro ⟨hpayload, -⟩
        obtain ⟨key, payload⟩ := a
        exact .inl (congrArg₂ GenericEntry.mk hkey hpayload.symm)
    · rw [Function.update_of_ne hkey, or_iff_right_iff_imp]
      rintro rfl
      exact absurd rfl hkey
  count := by
    have hm := size_remove (h.stores.mem hi)
    have hcount := hs.count
    rw [hr.sound.entries] at hcount
    rw [h.entries, ← hm, List.length_cons, ← hcount]
    rfl

/-- Slots that were scanned stay clean when the slot below them is emptied. -/
theorem Removed.clean {i : ℕ} {e : GenericEntry β} {r : GenericTable β × Bool}
    (h : Sound chars t m) (hfree : size m < 2 ^ t.hashBits) (hi : t.table i = some e)
    (hr : Removed chars t m i e r)
    (hclean : ∀ x a, i + 1 ≤ x → t.table x = some a → hit a = false) {x : ℕ} {a : GenericEntry β}
    (hx : (if r.2 then r.1.capacity - 1 else i + 1) ≤ x) (ha : r.1.table x = some a) :
    hit a = false := by
  obtain ⟨hole, cur, hwalk, -, hwrapped⟩ := hr.walk
  have hin := h.stores.bound i e hi
  have hw := hwalk.walked hin (by rw [hi]; exact Option.some_ne_none e)
    (h.stores.size_lt_iff.1 hfree)
  have hxn := hr.sound.stores.bound x a ha
  rw [hr.shape.hashBits] at hxn
  by_cases hcross : hole < i
  · rw [hwrapped, decide_eq_true hcross, if_pos rfl, capacity, hr.shape.hashBits] at hx
    omega
  · rw [hwrapped, decide_eq_false hcross, if_neg (by simp)] at hx
    obtain ⟨y, -, hy, hmoved⟩ := hw.source_of_le (by omega) (by omega) hxn ha
    exact hclean y a (by omega) hy

theorem rangeRemoveLoop_swept (h : Sound chars t m) (hfree : size m < 2 ^ t.hashBits)
    {fuel rounds i : ℕ} (hi : i ≤ 2 ^ t.hashBits)
    (hclean : ∀ x e, i ≤ x → t.table x = some e → hit e = false) {total : Prop}
    (htotal : total → 2 ^ 31 ≤ fuel ∧ size m * (2 ^ t.hashBits + 1) + i < rounds) :
    Returns (rangeRemoveLoop chars hit fuel rounds t i) total (Swept chars hit t m) := by
  induction rounds generalizing t m i with
  | zero =>
    exact ⟨fun r hr ↦ absurd hr (by simp [rangeRemoveLoop]), fun ht ↦
      absurd (htotal ht).2 (Nat.not_lt_zero _)⟩
  | succ rounds ih =>
    cases i with
    | zero => exact Returns.pure (h.swept fun x e ↦ hclean x e (Nat.zero_le x))
    | succ i =>
      rw [rangeRemoveLoop]
      cases hslot : (t.table i).filter hit with
      | none =>
        refine ih h hfree (by omega) (fun x e hx he ↦ ?_) fun ht ↦ ⟨(htotal ht).1, ?_⟩
        · rcases Nat.eq_or_lt_of_le hx with rfl | hlt
          · rw [Option.filter_eq_none_iff] at hslot
            exact Bool.eq_false_iff.2 (hslot e he)
          · exact hclean x e hlt he
        · have := (htotal ht).2
          omega
      | some e =>
        obtain ⟨he, hhit⟩ := Option.filter_eq_some_iff.1 hslot
        refine (h.removeHelper_removed hfree he fun ht ↦ (htotal ht).1).bind fun r hr ↦ ?_
        have hbits := hr.shape.hashBits
        have hsize := size_remove (h.stores.mem he)
        have hnext : (if r.2 then r.1.capacity - 1 else i + 1) ≤ 2 ^ t.hashBits := by
          rw [capacity, hbits]
          split_ifs <;> omega
        refine Returns.bind (ih hr.sound (by rw [hbits]; omega) (by rw [hbits]; exact hnext)
          (fun x a ↦ hr.clean h hfree he hclean) fun ht ↦ ⟨(htotal ht).1, ?_⟩)
          fun s hs ↦ Returns.pure (hr.swept h he hhit hs)
        -- one entry less makes up for a scan from the end
        have hround := (htotal ht).2
        rw [← hsize, Nat.add_mul] at hround
        rw [hbits]
        omega

/-- The scan, from the end, of a table with a free slot. -/
theorem Sound.rangeRemoveLoop (h : Sound chars t m) (hfree : size m < 2 ^ t.hashBits)
    (hit : GenericEntry β → Bool) {fuel rounds : ℕ} {total : Prop}
    (htotal : total → 2 ^ 31 ≤ fuel ∧ (size m + 1) * (2 ^ t.hashBits + 1) < rounds) :
    Returns (GenericTable.rangeRemoveLoop chars hit fuel rounds t (t.capacity - 1)) total
      (Swept chars hit t m) := by
  rw [capacity, Nat.add_sub_cancel]
  refine rangeRemoveLoop_swept h hfree le_rfl (fun x e hx he ↦ ?_) fun ht ↦ ⟨(htotal ht).1, ?_⟩
  · exact absurd (h.stores.bound x e he) (Nat.not_lt.2 hx)
  · have hround := (htotal ht).2
    rw [Nat.add_mul] at hround
    omega

/-- Removing a range is exact: it ends, it removes and frees the entries of the range that pass the
filter, each of them once, it returns their number, and what it leaves is the finite map without
them. -/
theorem rangeRemove_exact (h : Sound chars t m) (hfree : ∃ i < 2 ^ t.hashBits, t.table i = none)
    (tagStart tagEnd : BitVec 64) (filter : Option (GenericEntry β → Bool)) :
    ∃ fuel rounds t' freed,
      t.rangeRemove chars false fuel rounds tagStart tagEnd filter = some (t', freed, freed.length) ∧
      freed.Nodup ∧
      (∀ e, e ∈ freed ↔ m e.key = some e.payload ∧ inRange tagStart tagEnd filter e = true) ∧
      Refines chars t' (keep (inRange tagStart tagEnd filter) m) := by
  have hsize := h.stores.size_lt_iff.2 hfree
  have hloop : Returns (GenericTable.rangeRemoveLoop chars (inRange tagStart tagEnd filter) (2 ^ 31)
      ((size m + 1) * (2 ^ t.hashBits + 1) + 1) t (t.capacity - 1)) True _ :=
    h.rangeRemoveLoop hsize _ fun _ ↦ ⟨le_rfl, Nat.lt_succ_self _⟩
  obtain ⟨⟨t', freed⟩, hrun⟩ := hloop.ends trivial
  have hs := hloop.post _ hrun
  refine ⟨2 ^ 31, (size m + 1) * (2 ^ t.hashBits + 1) + 1, t', freed, ?_, hs.nodup, hs.mem_freed,
    hs.sound.refines ?_⟩
  · have hbound : freed.length < 2 ^ 32 := by
      have hcount := hs.count
      have hbits := h.size_bits_le
      rw [h.entries] at hcount
      simp only at hcount
      omega
    rw [rangeRemove, if_neg (by simp), hrun, Option.map_some, Nat.mod_eq_of_lt hbound]
  · rw [hs.shape.hashBits]
    refine lt_of_le_of_lt (size_mono fun key payload hk ↦ ?_) hsize
    exact (keep_eq_some_iff.1 hk).1

/-- A table of four slots with a cluster across the end: the entries 2 and 6 have their home in slot
2 and are in the slots 2 and 3, and the entry 3 is in slot 0. -/
def crossing : GenericTable Unit where
  hashFunc := .none
  hashBits := 2
  loadFactorPercent := 80
  entries := 3
  table := Function.update (Function.update (Function.update (fun _ ↦ none) 2 (some ⟨2#64, ()⟩))
    3 (some ⟨6#64, ()⟩)) 0 (some ⟨3#64, ()⟩)

/-- The keys of `crossing`. -/
def crossingKeys : BitVec 64 → Option Unit :=
  Function.update (Function.update (Function.update (fun _ ↦ none) 2#64 (some ())) 6#64 (some ()))
    3#64 (some ())

theorem sound_fourSlots :
    Sound (fun _ ↦ []) (⟨.none, 2, 80, 0, fun _ ↦ none⟩ : GenericTable Unit) fun _ ↦ none := by
  have hinit : init 2 80 .none = some (⟨.none, 2, 80, 0, fun _ ↦ none⟩ : GenericTable Unit) := rfl
  exact sound_init _ hinit

theorem sound_crossing : Sound (fun _ ↦ []) crossing crossingKeys := by
  have htwo := @Sound.insert _ _ _ ⟨2#64, ()⟩ 2 _ 1 sound_fourSlots rfl rfl
  have hsix := @Sound.insert _ _ _ ⟨6#64, ()⟩ 3 _ 2 htwo rfl rfl
  exact @Sound.insert _ _ _ ⟨3#64, ()⟩ 0 _ 2 hsix rfl rfl

/-- The removal of the entry 2 pulls the entry 6 into slot 2 and the entry 3 into slot 3. -/
theorem rangeRemove_exact_crossing :
    ∃ fuel rounds t' freed,
      crossing.rangeRemove (fun _ ↦ []) false fuel rounds 2#64 3#64 none =
        some (t', freed, freed.length) ∧
      freed.Nodup ∧
      (∀ e, e ∈ freed ↔ crossingKeys e.key = some e.payload ∧ inRange 2#64 3#64 none e = true) ∧
      Refines (fun _ ↦ []) t' (keep (inRange 2#64 3#64 none) crossingKeys) :=
  rangeRemove_exact sound_crossing ⟨1, by decide, rfl⟩ 2#64 3#64 none

/-! ## Grooming -/

/-- The finite map that is left by `groom_table`. -/
def groomed (readOnly : Bool) (m : BitVec 64 → Option β) : BitVec 64 → Option β :=
  if readOnly then m else keep (inRange 0#64 uintMax none) m

theorem groomed_eq_none_iff {readOnly : Bool} {key : BitVec 64} :
    groomed readOnly m key = none ↔ (m key ≠ none → readOnly = false ∧ key < uintMax) := by
  cases readOnly with
  | true => simp [groomed]
  | false =>
    rw [groomed, if_neg (by simp), keep, Option.filter_eq_none_iff]
    cases m key with
    | none => simp
    | some payload => simp [inRange]

theorem Sound.groomTable (h : Sound chars t m) (hfree : size m < 2 ^ t.hashBits) (readOnly : Bool)
    {fuel rounds : ℕ} {total : Prop}
    (htotal : total → 2 ^ 31 ≤ fuel ∧ (size m + 1) * (2 ^ t.hashBits + 1) < rounds) :
    Returns (t.groomTable chars readOnly fuel rounds) total fun t' ↦
      Sound chars t' (groomed readOnly m) := by
  rw [GenericTable.groomTable, rangeRemove]
  cases readOnly with
  | true => exact Returns.pure h
  | false =>
    rw [if_neg (by simp), Option.map_map]
    exact (h.rangeRemoveLoop hfree _ htotal).map fun s hs ↦ hs.sound

theorem Sound.empty_iff (h : Sound chars t m) :
    ((∀ i, t.table i = none) ∧ t.entries = 0) ↔ ∀ key, m key = none := by
  constructor
  · rintro ⟨hempty, -⟩ key
    refine Option.eq_none_iff_forall_ne_some.2 fun payload hm ↦ ?_
    obtain ⟨i, hi⟩ := (h.stores.mem_iff key payload).1 hm
    rw [hempty i] at hi
    exact absurd hi (by simp)
  · intro hnone
    refine ⟨fun i ↦ ?_, ?_⟩
    · cases hi : t.table i with
      | none => rfl
      | some e => exact absurd (h.stores.mem hi) (by simp [hnone])
    · rw [h.entries, size]
      simp [hnone]

/-- Grooming empties a table exactly if the table may be written and all its tags are below
`UINT_MAX`, or it has no entry. -/
theorem groomTable_empties_iff (h : Sound chars t m) (hfree : ∃ i < 2 ^ t.hashBits, t.table i = none)
    (readOnly : Bool) :
    (∃ fuel rounds t', t.groomTable chars readOnly fuel rounds = some t' ∧
      (∀ i, t'.table i = none) ∧ t'.entries = 0) ↔
    ∀ key, m key ≠ none → readOnly = false ∧ key < uintMax := by
  have hsize := h.stores.size_lt_iff.2 hfree
  have hgroom : ∀ {fuel rounds : ℕ} {t' : GenericTable β},
      t.groomTable chars readOnly fuel rounds = some t' →
      (((∀ i, t'.table i = none) ∧ t'.entries = 0) ↔
        ∀ key, m key ≠ none → readOnly = false ∧ key < uintMax) := by
    intro fuel rounds t' ht'
    rw [((h.groomTable hsize readOnly (fun hf : False ↦ hf.elim)).post t' ht').empty_iff]
    exact forall_congr' fun key ↦ groomed_eq_none_iff
  constructor
  · rintro ⟨fuel, rounds, t', ht', hempty⟩
    exact (hgroom ht').1 hempty
  · intro hsmall
    have hreturns : Returns (t.groomTable chars readOnly (2 ^ 31)
        ((size m + 1) * (2 ^ t.hashBits + 1) + 1)) True _ :=
      h.groomTable hsize readOnly fun _ ↦ ⟨le_rfl, Nat.lt_succ_self _⟩
    obtain ⟨t', ht'⟩ := hreturns.ends trivial
    exact ⟨_, _, t', ht', (hgroom ht').2 hsmall⟩

/-- The tag of a fragment in a mapped library. -/
def libraryTag : BitVec 64 := 0x7FFFF7DD1000#64

/-- A table whose only tag is the address of code in a mapped library is groomed in vain. -/
theorem not_groomTable_empties_library :
    ∃ t : GenericTable Unit, Sound (fun _ ↦ []) t
        (Function.update (fun _ ↦ none) libraryTag (some ())) ∧
      (∃ i < 2 ^ t.hashBits, t.table i = none) ∧
      ¬∃ fuel rounds t', t.groomTable (fun _ ↦ []) false fuel rounds = some t' ∧
        (∀ i, t'.table i = none) ∧ t'.entries = 0 := by
  have h := @Sound.insert _ _ _ ⟨libraryTag, ()⟩ 0 _ 1 sound_fourSlots rfl rfl
  refine ⟨_, h, ⟨1, by decide, rfl⟩, ?_⟩
  rintro ⟨fuel, rounds, t', ht', hnone⟩
  have hsize := h.stores.size_lt_iff.2 ⟨1, by decide, rfl⟩
  have hleft := (h.groomTable hsize false (fun hf : False ↦ hf.elim)).post t' ht'
  have hgone := groomed_eq_none_iff.1 (hleft.empty_iff.1 hnone libraryTag) (by decide)
  exact absurd hgone.2 (by decide)

/-- A cluster across the end of the array is groomed away. -/
theorem groomTable_empties_crossing :
    ∃ fuel rounds t', crossing.groomTable (fun _ ↦ []) false fuel rounds = some t' ∧
      (∀ i, t'.table i = none) ∧ t'.entries = 0 := by
  refine (groomTable_empties_iff sound_crossing ⟨1, by decide, rfl⟩ false).2 fun key hkey ↦ ?_
  refine ⟨rfl, ?_⟩
  by_contra hlarge
  refine hkey ?_
  have h2 : key ≠ 2#64 := by rintro rfl; exact hlarge (by decide)
  have h6 : key ≠ 6#64 := by rintro rfl; exact hlarge (by decide)
  have h3 : key ≠ 3#64 := by rintro rfl; exact hlarge (by decide)
  rw [crossingKeys, Function.update_of_ne h3, Function.update_of_ne h6, Function.update_of_ne h2]

end GenericTable

end DrAvx
