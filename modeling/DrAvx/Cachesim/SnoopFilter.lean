import Mathlib.Data.List.AList
import Mathlib.Data.List.FinRange

/-!
# The snoop filter

The filter of a coherent hierarchy of caches knows for each line which of the snooped caches may
hold it, the *sharers*, and whether one of them has written to it.  It is told of misses and writes
(`snoop`) and of evictions (`snoopEviction`).  A write takes the line away from the other sharers,
and a written line that another cache asks for, or that is evicted, is written back.

The counts of writes and writebacks are kept apart from the table.  What holds them together is the
number of dirty entries: each of them stands for a write that has not been written back
(`Accounted`).

## What is here

* `snoop`, `snoopEviction`, and the conditions they assert;
* `numDirty_setEntry`: what a write to the table does to the number of dirty entries;
* `Accounted.step`, `accounted_of_evictsSharers`: one call, and a whole sequence.
-/

set_option autoImplicit false

namespace DrAvx.Cachesim

variable {n : ℕ}

/-! ## The code -/

/-- `coherence_table_entry_t`.  The vector of sharers has an entry for each snooped cache. -/
structure CoherenceEntry (n : ℕ) where
  sharers : Fin n → Bool
  dirty : Bool

/-- An entry that has just been made: nobody shares the line. -/
def CoherenceEntry.new : CoherenceEntry n := ⟨fun _ ↦ false, false⟩

def CoherenceEntry.numSharers (e : CoherenceEntry n) : ℕ := (List.finRange n).countP e.sharers

/-- `snoop_filter_t`, with the numbers of the lines as tags. -/
structure SnoopFilter (n : ℕ) where
  coherenceTable : AList fun _ : ℕ ↦ CoherenceEntry n
  numWrites : ℕ
  numWritebacks : ℕ
  numInvalidates : ℕ

namespace SnoopFilter

/-- `init`. -/
def init : SnoopFilter n := ⟨∅, 0, 0, 0⟩

/-- The entry of a line, which is made when it is first asked for. -/
def entry (f : SnoopFilter n) (tag : ℕ) : CoherenceEntry n :=
  (f.coherenceTable.lookup tag).getD .new

def setEntry (f : SnoopFilter n) (tag : ℕ) (e : CoherenceEntry n) : SnoopFilter n :=
  { f with coherenceTable := f.coherenceTable.insert tag e }

/-- The snooped caches that a call makes invalidate the line. -/
def invalidated (f : SnoopFilter n) (tag : ℕ) (id : Fin n) (isWrite : Bool) : List (Fin n) :=
  if isWrite ∧ 0 < (f.entry tag).numSharers then
    (List.finRange n).filter fun i ↦ (f.entry tag).sharers i && id ≠ i
  else []

/-- The call causes a writeback. -/
def writeback (f : SnoopFilter n) (tag : ℕ) (id : Fin n) : Bool :=
  !(f.entry tag).sharers id && (f.entry tag).dirty

/-- The entry `snoop` leaves. -/
def snoopEntry (f : SnoopFilter n) (tag : ℕ) (id : Fin n) (isWrite : Bool) : CoherenceEntry n where
  dirty := isWrite || (f.entry tag).dirty && !f.writeback tag id
  sharers i := decide (i = id) || (f.entry tag).sharers i && i ∉ f.invalidated tag id isWrite

/-- `snoop`, up to the calls to the caches in `invalidated`. -/
def snoop (f : SnoopFilter n) (tag : ℕ) (id : Fin n) (isWrite : Bool) : SnoopFilter n :=
  { f.setEntry tag (f.snoopEntry tag id isWrite) with
    numWritebacks := f.numWritebacks + (f.writeback tag id).toNat
    numWrites := f.numWrites + isWrite.toNat
    numInvalidates := f.numInvalidates + (f.invalidated tag id isWrite).length }

/-- `snoop_eviction`. -/
def snoopEviction (f : SnoopFilter n) (tag : ℕ) (id : Fin n) : SnoopFilter n :=
  let e := f.entry tag
  { f.setEntry tag
      { dirty := false
        sharers := fun i ↦ decide (i ≠ id) && e.sharers i } with
    numWritebacks := f.numWritebacks + e.dirty.toNat }

end SnoopFilter

/-- A call to the filter. -/
inductive SnoopCall (n : ℕ)
  | snoop (tag : ℕ) (id : Fin n) (isWrite : Bool)
  | snoopEviction (tag : ℕ) (id : Fin n)

namespace SnoopFilter

/-- What the call asserts: a dirty line has a single sharer, an evicted line is held. -/
def asserts (f : SnoopFilter n) : SnoopCall n → Bool
  | .snoop tag _ _ => !(f.entry tag).dirty || (f.entry tag).numSharers == 1
  | .snoopEviction tag id => (f.entry tag).sharers id

/-- A call; a failed assertion ends the run. -/
def call (f : SnoopFilter n) (c : SnoopCall n) : Option (SnoopFilter n) :=
  if f.asserts c then
    match c with
    | .snoop tag id isWrite => some (f.snoop tag id isWrite)
    | .snoopEviction tag id => some (f.snoopEviction tag id)
  else none

def run (f : SnoopFilter n) (calls : List (SnoopCall n)) : Option (SnoopFilter n) :=
  calls.foldlM call f

/-- Each eviction is of a current sharer. -/
def EvictsSharers : SnoopFilter n → List (SnoopCall n) → Prop
  | _, [] => True
  | f, c :: calls =>
    (∀ tag id, c = .snoopEviction tag id → (f.entry tag).sharers id = true) ∧
      ∀ f', f.call c = some f' → EvictsSharers f' calls

/-! ## The table -/

/-- The number of dirty entries. -/
def numDirty (f : SnoopFilter n) : ℕ := f.coherenceTable.entries.countP fun e ↦ e.2.dirty

variable {f : SnoopFilter n} {tag tag' : ℕ} {e : CoherenceEntry n}

@[simp] theorem entry_init : (init : SnoopFilter n).entry tag = .new := rfl

@[simp] theorem entry_setEntry_self : (f.setEntry tag e).entry tag = e := by
  rw [entry, setEntry, AList.lookup_insert]
  rfl

theorem entry_setEntry_of_ne (h : tag' ≠ tag) : (f.setEntry tag e).entry tag' = f.entry tag' := by
  rw [entry, setEntry, AList.lookup_insert_ne h, entry]

/-- Writing an entry takes the old one out of the count and puts the new one in. -/
theorem numDirty_setEntry :
    (f.setEntry tag e).numDirty + (f.entry tag).dirty.toNat = f.numDirty + e.dirty.toNat := by
  have hcons : (f.setEntry tag e).numDirty =
      (f.coherenceTable.entries.kerase tag).countP (fun e ↦ e.2.dirty) + e.dirty.toNat := by
    rw [numDirty, setEntry, AList.entries_insert, List.countP_cons]
    cases e.dirty <;> rfl
  have hold : f.numDirty =
      (f.coherenceTable.entries.kerase tag).countP (fun e ↦ e.2.dirty) +
        (f.entry tag).dirty.toNat := by
    rw [numDirty, entry, AList.lookup]
    by_cases hmem : tag ∈ f.coherenceTable.entries.keys
    · obtain ⟨b, l₁, l₂, -, hl, herase⟩ := List.exists_of_kerase hmem
      have hlookup : f.coherenceTable.entries.dlookup tag = some b :=
        (List.mem_dlookup_iff f.coherenceTable.nodupKeys).2 (by rw [hl]; simp)
      rw [hlookup, herase, hl, List.countP_append, List.countP_append, List.countP_cons,
        Option.getD_some]
      have hb : (if b.dirty = true then 1 else 0) = b.dirty.toNat := by cases b.dirty <;> rfl
      rw [hb]
      omega
    · rw [List.kerase_of_notMem_keys hmem, List.dlookup_eq_none.2 hmem]
      rfl
  omega

/-! ## The account -/

/-- A dirty line has one sharer, and is a write that has not been written back. -/
structure Accounted (f : SnoopFilter n) : Prop where
  alone : ∀ tag, (f.entry tag).dirty = true → (f.entry tag).numSharers = 1
  balance : f.numWritebacks + f.numDirty ≤ f.numWrites

theorem accounted_init : Accounted (init : SnoopFilter n) :=
  ⟨fun _ h ↦ by simp [CoherenceEntry.new] at h, Nat.le_refl 0⟩

theorem numSharers_eq_one {id : Fin n} (h : ∀ i, e.sharers i = decide (i = id)) :
    e.numSharers = 1 := by
  have hcount : e.numSharers = (List.finRange n).count id := by
    rw [CoherenceEntry.numSharers, List.count]
    refine List.countP_congr fun i _ ↦ ?_
    rw [h i, decide_eq_true_eq, beq_iff_eq]
  rw [hcount, List.count_eq_one_of_mem (List.nodup_finRange n) (List.mem_finRange id)]

/-- A write leaves the writer as the only sharer. -/
theorem sharers_snoopEntry_write (f : SnoopFilter n) (tag : ℕ) (id i : Fin n) :
    (f.snoopEntry tag id true).sharers i = decide (i = id) := by
  rw [snoopEntry]
  by_cases hi : i = id
  · simp [hi]
  · cases hs : (f.entry tag).sharers i with
    | false => simp [hi, hs]
    | true =>
      have hpos : 0 < (f.entry tag).numSharers :=
        List.countP_pos_iff.2 ⟨i, List.mem_finRange i, hs⟩
      have hmem : i ∈ f.invalidated tag id true := by
        rw [invalidated, if_pos ⟨rfl, hpos⟩, List.mem_filter]
        exact ⟨List.mem_finRange i, by simpa [hs] using Ne.symm hi⟩
      simp [hi, hmem]

/-- Nobody loses a line because another cache reads it. -/
theorem sharers_snoopEntry_read (f : SnoopFilter n) (tag : ℕ) (id i : Fin n) :
    (f.snoopEntry tag id false).sharers i = (decide (i = id) || (f.entry tag).sharers i) := by
  simp [snoopEntry, invalidated]

/-- A line is dirty after a write, and after a read by the cache that wrote to it. -/
theorem dirty_snoopEntry (f : SnoopFilter n) (tag : ℕ) (id : Fin n) (isWrite : Bool) :
    (f.snoopEntry tag id isWrite).dirty =
      (isWrite || (f.entry tag).dirty && (f.entry tag).sharers id) := by
  rw [snoopEntry, writeback]
  cases (f.entry tag).dirty <;> cases (f.entry tag).sharers id <;> rfl

theorem numSharers_snoopEntry (h : Accounted f) {id : Fin n} {isWrite : Bool}
    (hd : (f.snoopEntry tag id isWrite).dirty = true) :
    (f.snoopEntry tag id isWrite).numSharers = 1 := by
  cases isWrite with
  | true => exact numSharers_eq_one (sharers_snoopEntry_write f tag id)
  | false =>
    rw [dirty_snoopEntry, Bool.false_or, Bool.and_eq_true] at hd
    -- the reader already was the only sharer
    have hsame : (f.snoopEntry tag id false).sharers = (f.entry tag).sharers := by
      funext i
      rw [sharers_snoopEntry_read]
      by_cases hi : i = id
      · simp [hi, hd.2]
      · simp [hi]
    rw [CoherenceEntry.numSharers, hsame]
    exact h.alone tag hd.1

theorem Accounted.snoop (h : Accounted f) (tag : ℕ) (id : Fin n) (isWrite : Bool) :
    Accounted (f.snoop tag id isWrite) := by
  constructor
  · intro tag' hd
    by_cases htag : tag' = tag
    · subst htag
      have hentry : (f.snoop tag' id isWrite).entry tag' = f.snoopEntry tag' id isWrite :=
        entry_setEntry_self
      rw [hentry] at hd ⊢
      exact numSharers_snoopEntry h hd
    · have hsame : (f.snoop tag id isWrite).entry tag' = f.entry tag' := entry_setEntry_of_ne htag
      rw [hsame] at hd ⊢
      exact h.alone tag' hd
  · have hcount : (f.snoop tag id isWrite).numDirty + (f.entry tag).dirty.toNat =
        f.numDirty + (f.snoopEntry tag id isWrite).dirty.toNat := numDirty_setEntry
    have hbalance := h.balance
    show f.numWritebacks + (f.writeback tag id).toNat + (f.snoop tag id isWrite).numDirty ≤
      f.numWrites + isWrite.toNat
    rw [dirty_snoopEntry] at hcount
    rw [writeback]
    cases isWrite <;> cases hd : (f.entry tag).dirty <;> cases hs : (f.entry tag).sharers id
    all_goals
      simp only [hd, hs, Bool.toNat_true, Bool.toNat_false, Bool.not_true, Bool.not_false,
        Bool.and_true, Bool.and_false, Bool.true_or, Bool.false_or] at hcount ⊢
      omega

theorem Accounted.snoopEviction (h : Accounted f) (tag : ℕ) (id : Fin n) :
    Accounted (f.snoopEviction tag id) := by
  constructor
  · intro tag' hd
    by_cases htag : tag' = tag
    · subst htag
      have hentry : (f.snoopEviction tag' id).entry tag' = _ := entry_setEntry_self
      rw [hentry] at hd
      cases hd
    · have hsame : (f.snoopEviction tag id).entry tag' = f.entry tag' := entry_setEntry_of_ne htag
      rw [hsame] at hd ⊢
      exact h.alone tag' hd
  · have hcount : (f.snoopEviction tag id).numDirty + (f.entry tag).dirty.toNat = f.numDirty + 0 :=
      numDirty_setEntry
    have hbalance := h.balance
    show f.numWritebacks + (f.entry tag).dirty.toNat + (f.snoopEviction tag id).numDirty ≤
      f.numWrites
    omega

/-- What a call asserts holds, and the account stays right. -/
theorem Accounted.step (h : Accounted f) {c : SnoopCall n}
    (hc : ∀ tag id, c = .snoopEviction tag id → (f.entry tag).sharers id = true) :
    ∃ f', f.call c = some f' ∧ Accounted f' := by
  cases c with
  | snoop tag id isWrite =>
    refine ⟨f.snoop tag id isWrite, if_pos ?_, h.snoop tag id isWrite⟩
    cases hd : (f.entry tag).dirty with
    | false => simp [asserts, hd]
    | true => simp [asserts, h.alone tag hd]
  | snoopEviction tag id =>
    exact ⟨f.snoopEviction tag id, if_pos (hc tag id rfl), h.snoopEviction tag id⟩

theorem Accounted.run {calls : List (SnoopCall n)} (h : Accounted f)
    (hcalls : EvictsSharers f calls) : ∃ f', f.run calls = some f' ∧ Accounted f' := by
  induction calls generalizing f with
  | nil => exact ⟨f, rfl, h⟩
  | cons c calls ih =>
    obtain ⟨f₁, hcall, h₁⟩ := h.step hcalls.1
    obtain ⟨f', hrun, h'⟩ := ih h₁ (hcalls.2 f₁ hcall)
    refine ⟨f', ?_, h'⟩
    rw [SnoopFilter.run, List.foldlM_cons, hcall]
    exact hrun

theorem EvictsSharers.of_append {pre rest : List (SnoopCall n)}
    (h : EvictsSharers f (pre ++ rest)) : EvictsSharers f pre := by
  induction pre generalizing f with
  | nil => trivial
  | cons c pre ih => exact ⟨h.1, fun f' hf' ↦ ih (h.2 f' hf')⟩

/-- However many caches are snooped and whatever they do, as long as a cache only reports evictions
of lines it shares no assertion fails, a dirty line has one sharer at all times, and the writebacks
and the dirty lines are no more than the writes. -/
theorem accounted_of_evictsSharers {calls : List (SnoopCall n)}
    (hcalls : EvictsSharers (init : SnoopFilter n) calls) (pre : List (SnoopCall n))
    (hpre : pre <+: calls) :
    ∃ f, (init : SnoopFilter n).run pre = some f ∧
      (∀ tag, (f.entry tag).dirty = true → (f.entry tag).numSharers = 1) ∧
      f.numWritebacks + f.numDirty ≤ f.numWrites := by
  obtain ⟨rest, rfl⟩ := hpre
  obtain ⟨f, hrun, h⟩ := accounted_init.run hcalls.of_append
  exact ⟨f, hrun, h.alone, h.balance⟩

/-- The first of two caches writes a line, the second one reads it and evicts it. -/
theorem accounted_write_read_evict :
    ∃ f, (init : SnoopFilter 2).run [.snoop 7 0 true, .snoop 7 1 false, .snoopEviction 7 1] =
        some f ∧
      (∀ tag, (f.entry tag).dirty = true → (f.entry tag).numSharers = 1) ∧
      f.numWritebacks + f.numDirty ≤ f.numWrites := by
  have hcalls : EvictsSharers (init : SnoopFilter 2)
      [.snoop 7 0 true, .snoop 7 1 false, .snoopEviction 7 1] := by
    refine ⟨nofun, fun f₁ h₁ ↦ ⟨nofun, fun f₂ h₂ ↦ ⟨?_, fun f₃ _ ↦ trivial⟩⟩⟩
    rintro tag id ⟨⟩
    cases h₁
    cases h₂
    decide
  exact accounted_of_evictsSharers hcalls _ (List.prefix_refl _)

end SnoopFilter

end DrAvx.Cachesim
