import Mathlib.Data.List.Nodup
import DrAvx.Rewrite.Spill

/-!
# The general purpose register finders as the code has them

`Rewrite.Spill` scans the pool for a register outside the whole list of registers to avoid.  The
code keeps the list as a mask and looks at its first `MAX_SPILL_AVOIDS` arguments only, and the
finder for one register hands a buffer on through a second variadic call: from five registers on it
announces six arguments and passes five, so the sixth that is read is whatever stands there.

## What is here

* `findAvailableSpillGprs` and `findOneAvailableSpillGpr`, with the value `stray` of an argument that
  was not passed.
* `available_iff`: the mask answers as the list does.
* `findAvailableSpillGprs_eq`: the registers found are the first ones of the pool outside the
  arguments looked at.
* `Spared`: the condition under which the arguments that are not looked at do no harm.
-/

set_option autoImplicit false

namespace DrAvx

/-- The register numbers; `DR_REG_NULL` is zero. -/
def Gpr.regId : Gpr → ℕ
  | .rax => 1 | .rcx => 2 | .rdx => 3 | .rbx => 4 | .rsp => 5 | .rbp => 6 | .rsi => 7 | .rdi => 8
  | .r8 => 9 | .r9 => 10 | .r10 => 11 | .r11 => 12 | .r12 => 13 | .r13 => 14 | .r14 => 15 | .r15 => 16

/-- `GPR_SPILL_SLOTS`. -/
def gprSpillSlots : List ℕ := gprSpillPool.map Gpr.regId

/-- `MAX_SPILL_AVOIDS`. -/
def maxSpillAvoids : ℕ := 6

def regToBit (reg : ℕ) : Option ℕ := if 1 ≤ reg ∧ reg ≤ 16 then some (reg - 1) else none

def addAvoid (mask : BitVec 64) (reg : ℕ) : BitVec 64 :=
  if reg = 0 then mask else
    match regToBit reg with
    | some bit => mask ||| 1#64 <<< bit
    | none => mask

def avoidMask (avoids : List ℕ) : BitVec 64 := avoids.foldl addAvoid 0#64

def available (mask : BitVec 64) (candidate : ℕ) : Bool :=
  match regToBit candidate with
  | some bit => mask &&& 1#64 <<< bit = 0#64
  | none => false

/-- The main selection loop. -/
def selectGprs (mask : BitVec 64) : List ℕ → ℕ → List ℕ
  | [], _ => []
  | _, 0 => []
  | r :: rest, left + 1 =>
    if available mask r then r :: selectGprs mask rest left else selectGprs mask rest (left + 1)

section Model

variable {P : Type}

/-- `out_ptrs`: up to three pointers are taken as they come, of more only those that are not
`NULL`. -/
def collectOutPtrs (needed : ℕ) (ptrs : List (Option P)) : List (Option P) :=
  if needed ≤ 3 then ptrs else ptrs.filter Option.isSome

/-- The stores through the first `out_ptr_count` pointers; `none` for one through `NULL`. -/
def assignGprs (needed : ℕ) (ptrs : List (Option P)) (regs : List ℕ) : Option (List (P × ℕ)) :=
  (((collectOutPtrs needed ptrs).take (ptrs.countP Option.isSome)).zip regs).mapM fun x ↦
    x.1.map fun p ↦ (p, x.2)

/-- `find_available_spill_gprs_avoiding_outptrs`: the number returned, and the stores.  The caller
announces `numAvoids` registers and passes `args`.  A negative `needed` counts as zero. -/
def findAvailableSpillGprs (needed numAvoids : ℕ) (ptrs : List (Option P)) (args : List ℕ)
    (stray : ℕ) : Option (ℕ × List (P × ℕ)) :=
  if needed = 0 ∨ 14 < needed then some (0, []) else
    let mask := avoidMask ((List.range (min numAvoids maxSpillAvoids)).map fun i ↦ args.getD i stray)
    if mask = 0#64 then (assignGprs needed ptrs (gprSpillSlots.take needed)).map fun s ↦ (needed, s)
    else
      let selected := selectGprs mask gprSpillSlots needed
      (assignGprs needed ptrs selected).map fun s ↦ (selected.length, s)

end Model

/-- `avoid_buffer`. -/
def avoidBuffer (avoids : List ℕ) : List ℕ := (avoids.filter (· ≠ 0)).take maxSpillAvoids

/-- `find_one_available_spill_gpr_avoiding_variadic`. -/
def findOneAvailableSpillGpr (avoids : List ℕ) (stray : ℕ) : ℕ :=
  let buffer := avoidBuffer avoids
  let found :=
    if buffer.length ≤ 4 then
      findAvailableSpillGprs 1 buffer.length [some ()] buffer stray
    else findAvailableSpillGprs 1 maxSpillAvoids [some ()] (buffer.take 5) stray
  match found with
  | some (1, [(_, r)]) => r
  | _ => 0

/-! ## The mask -/

theorem regToBit_of_mem {r : ℕ} (h : r ∈ gprSpillSlots) : regToBit r = some (r - 1) ∧ r - 1 < 16 := by
  revert r
  decide

theorem getLsbD_addAvoid (mask : BitVec 64) (reg : ℕ) {bit : ℕ} (hbit : bit < 16) :
    (addAvoid mask reg).getLsbD bit = (mask.getLsbD bit || decide (reg = bit + 1)) := by
  rw [addAvoid, regToBit]
  split_ifs with hnull hrange
  · simp [hnull]
  · have hiff : reg = bit + 1 ↔ bit = reg - 1 := by omega
    simp only [BitVec.getLsbD_or, BitVec.getLsbD_shiftLeft, BitVec.getLsbD_one, hiff]
    by_cases h : bit = reg - 1
    · subst h
      simp [show reg - 1 < 64 by omega]
    · have hout : bit < reg - 1 ∨ ¬bit - (reg - 1) = 0 := by omega
      rcases hout with hlt | hne
      · simp [h, hlt]
      · simp [h, hne]
  · have hne : reg ≠ bit + 1 := by omega
    simp [hne]

theorem getLsbD_foldl_addAvoid (avoids : List ℕ) (mask : BitVec 64) {bit : ℕ} (hbit : bit < 16) :
    (avoids.foldl addAvoid mask).getLsbD bit = (mask.getLsbD bit || decide (bit + 1 ∈ avoids)) := by
  induction avoids generalizing mask with
  | nil => simp
  | cons reg avoids ih =>
    rw [List.foldl_cons, ih, getLsbD_addAvoid mask reg hbit, Bool.or_assoc]
    simp [eq_comm]

/-- A register of the pool is available when it is not among the arguments looked at. -/
theorem available_iff {avoids : List ℕ} {r : ℕ} (hr : r ∈ gprSpillSlots) :
    available (avoidMask avoids) r = true ↔ r ∉ avoids := by
  obtain ⟨hbit, hlt⟩ := regToBit_of_mem hr
  have hpos : r - 1 + 1 = r := by
    rw [regToBit] at hbit
    split_ifs at hbit with h
    omega
  have hget : (avoidMask avoids).getLsbD (r - 1) = decide (r ∈ avoids) := by
    rw [avoidMask, getLsbD_foldl_addAvoid avoids 0#64 hlt, hpos, BitVec.getLsbD_zero, Bool.false_or]
  have hmask : avoidMask avoids &&& 1#64 <<< (r - 1) =
      if (avoidMask avoids).getLsbD (r - 1) then BitVec.twoPow 64 (r - 1) else 0#64 :=
    BitVec.and_twoPow (avoidMask avoids) (r - 1)
  have hne : BitVec.twoPow 64 (r - 1) ≠ 0#64 := by
    intro h
    have := congrArg (fun x ↦ x.getLsbD (r - 1)) h
    simp [show r - 1 < 64 by omega] at this
  rw [available, hbit]
  change decide (avoidMask avoids &&& 1#64 <<< (r - 1) = 0#64) = true ↔ _
  rw [decide_eq_true_iff, hmask, hget]
  by_cases h : r ∈ avoids
  · simp [h, hne]
  · simp [h]

/-! ## The scan -/

/-- An element is among the first `n` that satisfy `p` when fewer than `n` before it do. -/
theorem mem_take_filter_iff {α : Type} {p : α → Bool} {l : List α} {n : ℕ} {a : α} :
    a ∈ (l.filter p).take n ↔
      ∃ pre post, l = pre ++ a :: post ∧ p a = true ∧ (pre.filter p).length < n := by
  constructor
  · intro h
    obtain ⟨front, back, hsplit⟩ := List.append_of_mem h
    have hfilter : l.filter p = front ++ a :: (back ++ (l.filter p).drop n) := by
      conv_lhs => rw [← List.take_append_drop n (l.filter p), hsplit]
      simp
    obtain ⟨pre, rest, rfl, hpre, hrest⟩ := List.filter_eq_append_iff.1 hfilter
    obtain ⟨skip, post, rfl, hskip, ha, -⟩ := List.filter_eq_cons_iff.1 hrest
    have hlen : front.length < n := by
      have := congrArg List.length hsplit
      simp only [List.length_take, List.length_append, List.length_cons] at this
      omega
    refine ⟨pre ++ skip, post, by simp, ha, ?_⟩
    rw [List.filter_append, hpre, List.filter_eq_nil_iff.2 hskip, List.append_nil]
    exact hlen
  · rintro ⟨pre, post, rfl, ha, hlt⟩
    obtain ⟨k, rfl⟩ := Nat.exists_eq_add_of_lt hlt
    rw [List.filter_append, List.filter_cons_of_pos ha, List.take_append]
    simp [show (pre.filter p).length + k + 1 - (pre.filter p).length = k + 1 by omega]

/-- The registers of the pool outside `looked`, in the order of the scan. -/
def freeGprs (looked : List ℕ) : List ℕ := gprSpillSlots.filter fun r ↦ r ∉ looked

theorem selectGprs_eq {looked l : List ℕ} (hl : ∀ r ∈ l, r ∈ gprSpillSlots) (n : ℕ) :
    selectGprs (avoidMask looked) l n = (l.filter fun r ↦ r ∉ looked).take n := by
  induction l generalizing n with
  | nil => simp [selectGprs]
  | cons r rest ih =>
    have hrest : ∀ r' ∈ rest, r' ∈ gprSpillSlots := fun r' h ↦ hl r' (List.mem_cons_of_mem r h)
    have hr : available (avoidMask looked) r = true ↔ r ∉ looked :=
      available_iff (hl r List.mem_cons_self)
    cases n with
    | zero => simp [selectGprs]
    | succ n =>
      rw [selectGprs]
      by_cases h : r ∈ looked
      · rw [if_neg (by rw [hr]; exact not_not.2 h), ih hrest, List.filter_cons_of_neg (by simpa using h)]
      · rw [if_pos (hr.2 h), ih hrest, List.filter_cons_of_pos (by simpa using h), List.take_succ_cons]

theorem nodup_freeGprs (looked : List ℕ) : (freeGprs looked).Nodup :=
  List.Nodup.filter _ (by decide)

theorem mem_freeGprs {looked : List ℕ} {r : ℕ} :
    r ∈ freeGprs looked ↔ r ∈ gprSpillSlots ∧ r ∉ looked := by
  simp [freeGprs]

/-- With a pointer for every register found, the stores are those of the registers in their
order. -/
theorem assignGprs_eq {P : Type} {ps : List P} {regs : List ℕ} :
    assignGprs ps.length (ps.map some) regs = some (ps.zip regs) := by
  have hcollect : collectOutPtrs ps.length (ps.map some) = ps.map some := by
    rw [collectOutPtrs]
    split_ifs with h
    · rfl
    · simp [List.filter_eq_self]
  have hcount : (ps.map some).countP Option.isSome = ps.length := by
    simp [List.countP_eq_length.2]
  rw [assignGprs, hcollect, hcount, List.take_of_length_le (by simp)]
  clear hcollect hcount
  induction ps generalizing regs with
  | nil => simp
  | cons p ps ih =>
    cases regs with
    | nil => simp
    | cons r regs => simp [ih]

/-! ## The finder for several registers -/

/-- The arguments looked at. -/
def lookedAt (numAvoids : ℕ) (args : List ℕ) (stray : ℕ) : List ℕ :=
  (List.range (min numAvoids maxSpillAvoids)).map fun i ↦ args.getD i stray

theorem lookedAt_self (avoids : List ℕ) (stray : ℕ) :
    lookedAt avoids.length avoids stray = avoids.take maxSpillAvoids := by
  refine List.ext_getElem (by simp [lookedAt, Nat.min_comm]) fun i h _ ↦ ?_
  have hi : i < avoids.length := by
    simp only [lookedAt, List.length_map, List.length_range] at h
    omega
  simp [lookedAt, hi]

/-- No register of the pool is marked in an empty mask, so that the fast path is the loop. -/
theorem freeGprs_of_mask {looked : List ℕ} (h : avoidMask looked = 0#64) :
    freeGprs looked = gprSpillSlots := by
  refine List.filter_eq_self.2 fun r hr ↦ ?_
  have hfree : available (avoidMask looked) r = true := by
    rw [available, (regToBit_of_mem hr).1, h]
    simp
  simpa using (available_iff hr).1 hfree

theorem findAvailableSpillGprs_eq {P : Type} {ps : List P} (hpos : 0 < ps.length)
    (hle : ps.length ≤ 14) (numAvoids : ℕ) (args : List ℕ) (stray : ℕ) :
    findAvailableSpillGprs ps.length numAvoids (ps.map some) args stray =
      some (((freeGprs (lookedAt numAvoids args stray)).take ps.length).length,
        ps.zip ((freeGprs (lookedAt numAvoids args stray)).take ps.length)) := by
  rw [findAvailableSpillGprs, if_neg (by omega)]
  change (if avoidMask (lookedAt numAvoids args stray) = 0#64 then _ else _) = _
  split_ifs with hmask
  · have hslots : gprSpillSlots.length = 14 := by decide
    rw [assignGprs_eq, freeGprs_of_mask hmask, List.length_take, hslots, Nat.min_eq_left hle]
    rfl
  · have hselect : selectGprs (avoidMask (lookedAt numAvoids args stray)) gprSpillSlots ps.length =
        (freeGprs (lookedAt numAvoids args stray)).take ps.length :=
      selectGprs_eq (fun _ h ↦ h) ps.length
    rw [← hselect]
    change Option.map _ (assignGprs _ _ (selectGprs (avoidMask (lookedAt numAvoids args stray))
      gprSpillSlots ps.length)) = _
    rw [assignGprs_eq]
    rfl

/-- No register to avoid that is not looked at is among the first `needed` registers of the pool
outside those that are. -/
def Spared (looked avoids : List ℕ) (needed : ℕ) : Prop :=
  ∀ pre r post, gprSpillSlots = pre ++ r :: post → r ∈ avoids → r ∉ looked →
    needed ≤ (pre.filter fun r ↦ r ∉ looked).length

theorem spared_iff {looked avoids : List ℕ} {needed : ℕ} :
    Spared looked avoids needed ↔ ∀ r ∈ (freeGprs looked).take needed, r ∉ avoids := by
  simp only [freeGprs, mem_take_filter_iff, decide_eq_true_eq]
  constructor
  · rintro h r ⟨pre, post, hsplit, hlooked, hlt⟩ hr
    exact absurd hlt (Nat.not_lt.2 (h pre r post hsplit hr hlooked))
  · intro h pre r post hsplit hr hlooked
    by_contra hlt
    exact h r ⟨pre, post, hsplit, hlooked, Nat.lt_of_not_le hlt⟩ hr

/-- What the finder for several registers is for: as many registers as there are, up to the number
needed, all different, from the pool and outside `avoids`. -/
def SelectsGprs {P : Type} (ps : List P) (avoids : List ℕ) (result : Option (ℕ × List (P × ℕ))) :
    Prop :=
  ∃ regs, result = some (regs.length, ps.zip regs) ∧
    regs.length = min ps.length (freeGprs avoids).length ∧ regs.Nodup ∧
    ∀ r ∈ regs, r ∈ gprSpillSlots ∧ r ∉ avoids

theorem selectsGprs_iff {P : Type} {ps : List P} {avoids looked : List ℕ}
    (hlooked : ∀ r ∈ looked, r ∈ avoids) :
    SelectsGprs ps avoids (some (((freeGprs looked).take ps.length).length,
      ps.zip ((freeGprs looked).take ps.length))) ↔ Spared looked avoids ps.length := by
  rw [spared_iff]
  set found := (freeGprs looked).take ps.length with hfound
  have hshort : found.length ≤ ps.length := by
    rw [hfound, List.length_take]
    omega
  constructor
  · rintro ⟨regs, heq, -, -, hregs⟩
    obtain ⟨hlen, hzip⟩ := Prod.mk.inj (Option.some.inj heq)
    -- the stores determine the registers
    have hsame : found = regs := by
      have := congrArg (List.map Prod.snd) hzip
      rwa [List.map_snd_zip hshort, List.map_snd_zip (hlen ▸ hshort)] at this
    exact fun r hr ↦ (hregs r (hsame ▸ hr)).2
  · intro h
    have hmem : ∀ r ∈ found, r ∈ gprSpillSlots ∧ r ∉ avoids := fun r hr ↦
      ⟨(mem_freeGprs.1 (List.mem_of_mem_take hr)).1, h r hr⟩
    have hnodup : found.Nodup := (nodup_freeGprs looked).sublist (List.take_sublist _ _)
    refine ⟨found, rfl, Nat.le_antisymm (Nat.le_min.2 ⟨hshort, ?_⟩) ?_, hnodup, hmem⟩
    · exact (List.subperm_of_subset hnodup fun r hr ↦ mem_freeGprs.2 (hmem r hr)).length_le
    · -- what is free outside `avoids` is free outside `looked`
      have hsub : (freeGprs avoids).length ≤ (freeGprs looked).length :=
        (List.subperm_of_subset (nodup_freeGprs avoids) fun r hr ↦ by
          obtain ⟨hslot, hnot⟩ := mem_freeGprs.1 hr
          exact mem_freeGprs.2 ⟨hslot, fun hl ↦ hnot (hlooked r hl)⟩).length_le
      rw [hfound, List.length_take]
      omega

/-! ## The finder for one register -/

/-- The registers that the finder for one register looks at in the end. -/
def passedOn (avoids : List ℕ) (stray : ℕ) : List ℕ :=
  if (avoidBuffer avoids).length ≤ 4 then avoidBuffer avoids
  else (avoidBuffer avoids).take 5 ++ [stray]

theorem length_passedOn_le (avoids : List ℕ) (stray : ℕ) : (passedOn avoids stray).length ≤ 6 := by
  rw [passedOn]
  split_ifs with h
  · omega
  · rw [List.length_append, List.length_take, List.length_singleton]
    omega

theorem lookedAt_take_five {buffer : List ℕ} (h : 5 ≤ buffer.length) (stray : ℕ) :
    lookedAt maxSpillAvoids (buffer.take 5) stray = buffer.take 5 ++ [stray] := by
  obtain ⟨a, b, c, d, e, rest, rfl⟩ : ∃ a b c d e rest, buffer = a :: b :: c :: d :: e :: rest := by
    match buffer, h with
    | a :: b :: c :: d :: e :: rest, _ => exact ⟨a, b, c, d, e, rest, rfl⟩
  rfl

/-- A register of the pool is left over by any six. -/
theorem freeGprs_ne_nil {looked : List ℕ} (h : looked.length ≤ 6) : freeGprs looked ≠ [] := by
  intro hnil
  have hall : gprSpillSlots ⊆ looked := fun r hr ↦ by
    by_contra hnot
    simpa [hnil] using mem_freeGprs.2 ⟨hr, hnot⟩
  have hlen : gprSpillSlots.length = 14 := by decide
  have := (List.subperm_of_subset (by decide) hall).length_le
  omega

theorem findOneAvailableSpillGpr_spec (avoids : List ℕ) (stray : ℕ) :
    (freeGprs (passedOn avoids stray)).take 1 = [findOneAvailableSpillGpr avoids stray] := by
  obtain ⟨r, rest, hfree⟩ := List.exists_cons_of_ne_nil
    (freeGprs_ne_nil (length_passedOn_le avoids stray))
  have hone (numAvoids : ℕ) (args : List ℕ) :
      findAvailableSpillGprs 1 numAvoids [some ()] args stray =
        some (((freeGprs (lookedAt numAvoids args stray)).take 1).length,
          [()].zip ((freeGprs (lookedAt numAvoids args stray)).take 1)) :=
    findAvailableSpillGprs_eq (by decide : 0 < [()].length) (by decide) numAvoids args stray
  have hfound : (if (avoidBuffer avoids).length ≤ 4 then
        findAvailableSpillGprs 1 (avoidBuffer avoids).length [some ()] (avoidBuffer avoids) stray
      else findAvailableSpillGprs 1 maxSpillAvoids [some ()] ((avoidBuffer avoids).take 5) stray) =
      some (1, [((), r)]) := by
    rw [passedOn] at hfree
    split_ifs with h
    · rw [if_pos h] at hfree
      have hlooked : lookedAt (avoidBuffer avoids).length (avoidBuffer avoids) stray =
          avoidBuffer avoids := by
        rw [lookedAt_self, List.take_of_length_le (by rw [maxSpillAvoids]; omega)]
      simpa [hlooked, hfree] using hone (avoidBuffer avoids).length (avoidBuffer avoids)
    · rw [if_neg h] at hfree
      simpa [lookedAt_take_five (by omega : 5 ≤ (avoidBuffer avoids).length), hfree] using
        hone maxSpillAvoids ((avoidBuffer avoids).take 5)
  rw [findOneAvailableSpillGpr, hfree]
  simp only [hfound, List.take_succ_cons, List.take_zero]

/-- On up to four registers to avoid, the finder for one register is the scan of the pool for a
register outside the whole list. -/
theorem findOneAvailableSpillGpr_of_length_le {avoids : List Gpr} (h : avoids.length ≤ 4)
    (stray : ℕ) : (findAvailableSpillGpr avoids).map Gpr.regId =
      some (findOneAvailableSpillGpr (avoids.map Gpr.regId) stray) := by
  have hinj : Function.Injective Gpr.regId := fun a b ↦ by cases a <;> cases b <;> simp [Gpr.regId]
  have hnull : (avoids.map Gpr.regId).filter (· ≠ 0) = avoids.map Gpr.regId :=
    List.filter_eq_self.2 fun r hr ↦ by
      obtain ⟨g, -, rfl⟩ := List.mem_map.1 hr
      cases g <;> simp [Gpr.regId]
  have hpassed : passedOn (avoids.map Gpr.regId) stray = avoids.map Gpr.regId := by
    have hbuffer : avoidBuffer (avoids.map Gpr.regId) = avoids.map Gpr.regId := by
      rw [avoidBuffer, hnull, List.take_of_length_le (by simp [maxSpillAvoids]; omega)]
    rw [passedOn, hbuffer, if_pos (by simpa using h)]
  have hfree : freeGprs (avoids.map Gpr.regId) =
      (gprSpillPool.filter fun r ↦ !avoids.contains r).map Gpr.regId := by
    rw [freeGprs, gprSpillSlots, List.filter_map]
    congr 1
    refine List.filter_congr fun r _ ↦ ?_
    have hmem : r.regId ∈ avoids.map Gpr.regId ↔ r ∈ avoids := List.mem_map_of_injective hinj
    rw [Function.comp_apply, List.contains_eq_mem, ← decide_not]
    exact decide_eq_decide.2 (not_congr hmem)
  have hspec := findOneAvailableSpillGpr_spec (avoids.map Gpr.regId) stray
  rw [hpassed, hfree, ← List.map_take] at hspec
  rw [findAvailableSpillGpr, ← List.head?_filter]
  cases hl : gprSpillPool.filter fun r ↦ !avoids.contains r with
  | nil =>
    rw [hl] at hspec
    exact absurd hspec (by simp)
  | cons r rest =>
    rw [hl] at hspec
    simpa using hspec

theorem findOneAvailableSpillGpr_rax :
    (findAvailableSpillGpr [.rax]).map Gpr.regId =
      some (findOneAvailableSpillGpr ([.rax].map Gpr.regId) 0) :=
  findOneAvailableSpillGpr_of_length_le (by decide) 0

/-! ## When the finders keep their promise -/

/-- The finder for several registers and the finder for one keep their promise exactly when the
registers they do not look at are out of the reach of the scan. -/
theorem spillGprs_iff {P : Type} {ps : List P} (hpos : 0 < ps.length) (hle : ps.length ≤ 14)
    (avoids : List ℕ) (stray : ℕ) :
    (SelectsGprs ps avoids
        (findAvailableSpillGprs ps.length avoids.length (ps.map some) avoids stray) ↔
      Spared (avoids.take maxSpillAvoids) avoids ps.length) ∧
    (((∃ r ∈ gprSpillSlots, r ∉ avoids) → findOneAvailableSpillGpr avoids stray ∈ gprSpillSlots ∧
        findOneAvailableSpillGpr avoids stray ∉ avoids) ↔
      ((∃ r ∈ gprSpillSlots, r ∉ avoids) → Spared (passedOn avoids stray) avoids 1)) := by
  constructor
  · rw [findAvailableSpillGprs_eq hpos hle, lookedAt_self]
    exact selectsGprs_iff fun r hr ↦ List.mem_of_mem_take hr
  · have hspec := findOneAvailableSpillGpr_spec avoids stray
    have hslot : findOneAvailableSpillGpr avoids stray ∈ gprSpillSlots :=
      (mem_freeGprs.1 (List.mem_of_mem_take (hspec ▸ List.mem_singleton_self _))).1
    rw [spared_iff, hspec]
    simp [hslot]

/-- One register to avoid, and one needed. -/
theorem spillGprs_iff_one :
    (SelectsGprs [()] [1] (findAvailableSpillGprs 1 1 [some ()] [1] 0) ↔ Spared [1] [1] 1) ∧
    (((∃ r ∈ gprSpillSlots, r ∉ [1]) → findOneAvailableSpillGpr [1] 0 ∈ gprSpillSlots ∧
        findOneAvailableSpillGpr [1] 0 ∉ [1]) ↔
      ((∃ r ∈ gprSpillSlots, r ∉ [1]) → Spared (passedOn [1] 0) [1] 1)) :=
  spillGprs_iff (by decide : 0 < [()].length) (by decide) [1] 0

/-- The seventh register to avoid is handed out by the one finder, and the sixth by the other. -/
theorem spillGprs_handsOut_avoided :
    findAvailableSpillGprs 1 7 [some ()] [1, 2, 3, 4, 7, 8, 9] 0 = some (1, [((), 9)]) ∧
      findOneAvailableSpillGpr [1, 2, 3, 4, 7, 8] 0 = 8 := by
  decide

end DrAvx
