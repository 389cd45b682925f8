import DrAvx.Outcome.Basic
import DrAvx.Probing.Basic
import Mathlib.Data.Set.Card
import Mathlib.Tactic.IntervalCases

/-!
# The generic hashtable of the core

`hashtablex.h` is a template for open-addressing tables with linear probing; `hashtable.c`
instantiates it with entries that pair a pointer-sized key with a payload.  A table is resized when
an addition takes its number of entries beyond `resize_threshold`, and all its entries are then
added anew to the larger table.  A removal closes the gap it leaves by Algorithm R.

The sizes are `uint`s, and two expressions reach the end of that range.  `1U << hash_bits` is
defined for fewer than 32 bits only, and the product of the capacity and the load factor in percent
wraps around from about 26 bits on, which makes the threshold of a large table too small.  The loop
that looks for a large enough table then goes past sizes that would do and may run into the
undefined shift.  `Fits` says when it does not, and `refines_iff` shows that the table is a finite
map, through any sequence of operations, exactly then.

`HASHTABLE_READ_ONLY` tables, to which nothing can be added, are not modelled; generic tables have
no invalid entries, no bound on their size (`max_capacity_bits` is 0 and `hash_bits` is not) and no
grooming, so that the branches for these fall away.
-/

set_option autoImplicit false

namespace DrAvx

open Probing

/-! ## Hash functions -/

/-- `hash_function_t`. -/
inductive HashFunction
  | none
  | multiplyPhi
  | lowerBswap
  | bswapXor
  | swap12To15
  | swap12To15AndNone
  | shiftXor
  | string
  | stringNocase
  deriving DecidableEq, Repr

/-- `HASH_PHI` of a 64-bit build. -/
def hashPhi : BitVec 64 := 11400714819323198485#64

/-- `HASH_MASK`, defined for `bits` from 1 to 64. -/
def hashMask (bits : ℕ) : BitVec 64 := BitVec.allOnes 64 >>> (64 - bits)

def tolower (c : BitVec 8) : BitVec 8 :=
  if 65 ≤ c.toNat ∧ c.toNat ≤ 90 then c + 32#8 else c

/-- The hash of a string: characters, as signed values, are shifted to one of four places and
combined. -/
def hashString (nocase : Bool) (bits : ℕ) (s : List (BitVec 8)) : BitVec 64 :=
  let maxShift := (bits + 7) / 8 * 8
  s.zipIdx.foldl (fun hash ci ↦
    let c := if nocase then tolower ci.1 else ci.1
    let shift := ci.2 % 4 * 8
    hash ^^^ (c.signExtend 32 <<< min shift maxShift).signExtend 64) 0#64

/-- The exchange of the bits 12 to 15 with the bits 0 to 3. -/
def swapNibbles (val : BitVec 64) : BitVec 64 :=
  (val &&& 0xFFFF0FF0#64) ||| (val &&& 0x0000F000#64) >>> 12 ||| (val &&& 0x0000000F#64) <<< 12

section

-- `chars` gives the characters, up to the terminating zero, of the string a pointer points to
variable (chars : BitVec 64 → List (BitVec 8))

def hashValue (val : BitVec 64) (func : HashFunction) (mask : BitVec 64) (bits : ℕ) : BitVec 64 :=
  match func with
  | .none => val
  | .multiplyPhi => (val * hashPhi) >>> (64 - bits)
  | .lowerBswap =>
    (val &&& 0xFFFF0000#64) ||| (val &&& 0x000000FF#64) <<< 8 ||| (val &&& 0x0000FF00#64) >>> 8
  | .bswapXor =>
    val ^^^ ((val &&& 0x000000FF#64) <<< 24 ||| (val &&& 0x0000FF00#64) <<< 8 |||
      (val &&& 0x00FF0000#64) >>> 8 ||| (val &&& 0xFF000000#64) >>> 24)
  | .swap12To15 => swapNibbles val
  | .swap12To15AndNone => if mask ≤ 0xFFF#64 then val else swapNibbles val
  | .shiftXor => val ^^^ val >>> 12 ^^^ val <<< 12
  | .string => hashString false bits (chars val)
  | .stringNocase => hashString true bits (chars val)

/-- `HASH_FUNC` for a table of `2 ^ bits` slots: the index at which the search for `tag` begins. -/
def hashIndex (func : HashFunction) (bits : ℕ) (tag : BitVec 64) : ℕ :=
  (hashValue chars tag func (hashMask bits) bits &&& hashMask bits).toNat % 2 ^ 32

end

/-! ## Tables -/

structure GenericEntry (β : Type) where
  key : BitVec 64
  payload : β

/-- `generic_table_t`.  The capacity, the mask and the threshold are set together with `hash_bits`
and are functions of it and the load factor. -/
structure GenericTable (β : Type) where
  hashFunc : HashFunction
  hashBits : ℕ
  loadFactorPercent : ℕ
  entries : ℕ
  /-- The slots below `2 ^ hashBits`; a missing entry is `NULL`.  The sentinel in the slot after
  them is not a real entry and no index computed here reaches it. -/
  table : ℕ → Option (GenericEntry β)

/-- `HASHTABLE_SIZE`, the shift `1U << num_bits`. -/
def hashtableSize (numBits : ℕ) : Option ℕ :=
  if numBits < 32 then some (2 ^ numBits) else none

/-- The threshold of a table of `size` slots and a sentinel, in the arithmetic of `uint`. -/
def thresholdOfSize (loadFactorPercent size : ℕ) : ℕ :=
  (size + 1) * loadFactorPercent % 2 ^ 32 / 100

namespace GenericTable

variable {β : Type}

/-- `init_internal`, undefined where one of its shifts is. -/
def init (bits loadFactorPercent : ℕ) (func : HashFunction) : Option (GenericTable β) :=
  if 0 < bits then
    (hashtableSize bits).map fun _ ↦ ⟨func, bits, loadFactorPercent, 0, fun _ ↦ none⟩
  else none

def capacity (t : GenericTable β) : ℕ := 2 ^ t.hashBits + 1

def resizeThreshold (t : GenericTable β) : ℕ :=
  thresholdOfSize t.loadFactorPercent (2 ^ t.hashBits)

/-- The loop of `check_size` that doubles the size until the threshold is large enough. -/
def growBits (loadFactorPercent entries bits : ℕ) : Option ℕ :=
  if 32 ≤ bits then none
  else if thresholdOfSize loadFactorPercent (2 ^ bits) < entries then
    growBits loadFactorPercent entries (bits + 1)
  else some bits
termination_by 32 - bits

/-- The loop of `check_size` that adds the entry of an old slot, if there is one, to the new
table. -/
def rehash (add : GenericTable β → GenericEntry β → Option (GenericTable β))
    (old : ℕ → Option (GenericEntry β)) (slots : List ℕ) (new : GenericTable β) :
    Option (GenericTable β) :=
  slots.foldlM (fun new i ↦ match old i with
    | none => some new
    | some e => add new e) new

/-- `check_size`, and whether the table kept its size.  `add` is the recursive call by which the
entries of the old table come into the new one. -/
def checkSize (add : GenericTable β → GenericEntry β → Option (GenericTable β))
    (t : GenericTable β) (addNow addLater : ℕ) : Option (GenericTable β × Bool) :=
  let entries := t.entries + (addNow + addLater)
  if t.resizeThreshold < entries then do
    let bits ← growBits t.loadFactorPercent entries t.hashBits
    let fresh ← init bits t.loadFactorPercent t.hashFunc
    let new ← rehash add t.table (List.range t.capacity) fresh
    some ({ new with entries := new.entries + addNow }, false)
  else some ({ t with entries := t.entries + addNow }, true)

variable (chars : BitVec 64 → List (BitVec 8))

/-- The index at which the search for `tag` begins. -/
def home (t : GenericTable β) (tag : BitVec 64) : ℕ :=
  hashIndex chars t.hashFunc t.hashBits tag

/-- The loop common to `lookup`, `add` and `lookup_for_removal`: from the hash index of `tag` on, to
the first slot that is empty or a hit.  `HASH_INDEX_WRAPAROUND` is the remainder by `2 ^ hashBits`.
A search that does not end within `fuel` rounds gives `none`. -/
def search (t : GenericTable β) (hit : GenericEntry β → Bool) (fuel : ℕ) (tag : BitVec 64) :
    Option ℕ :=
  probe (2 ^ t.hashBits) t.table hit fuel (t.home chars tag)

def lookup (t : GenericTable β) (fuel : ℕ) (tag : BitVec 64) : Option (Option (GenericEntry β)) :=
  (t.search chars (fun e ↦ e.key == tag) fuel tag).map t.table

/-- The table after an addition, and whether it was resized. -/
def add : ℕ → GenericTable β → GenericEntry β → Option (GenericTable β × Bool)
  | 0, _, _ => none
  | fuel + 1, t, e => do
    let (t, kept) ← checkSize (fun t e ↦ (add fuel t e).map Prod.fst) t 1 0
    let hindex ← t.search chars (fun _ ↦ false) fuel e.key
    some ({ t with table := Function.update t.table hindex (some e) }, !kept)

/-- The slot of an entry that is in the table. -/
def lookupForRemoval (t : GenericTable β) (fuel : ℕ) (fr : GenericEntry β) : Option (Option ℕ) :=
  (t.search chars (fun e ↦ fr.key == e.key) fuel fr.key).map fun hindex ↦
    (t.table hindex).map fun _ ↦ hindex

/-- The test whether an entry at `hindex` would be lost if `hole` is left empty. -/
def orphaned (preferred hole hindex : ℕ) : Bool :=
  (preferred ≤ hole && hole < hindex) || (hindex < preferred && preferred ≤ hole) ||
    (hole < hindex && hindex < preferred)

/-- The two loops of `remove_helper_open_address`, after `hole` has been set to empty: the inner
loop walks on to the next orphan; the outer loop moves it into the hole and sets its slot, the next
hole, to empty.  The result tells whether an entry was moved from the start of the table to its
end. -/
def closeHole (n : ℕ) (preferred : GenericEntry β → ℕ) :
    ℕ → (ℕ → Option (GenericEntry β)) → ℕ → ℕ → Bool → Option ((ℕ → Option (GenericEntry β)) × Bool)
  | 0, _, _, _, _ => none
  | fuel + 1, table, hole, hindex, wrapped =>
    let hindex := Probing.next n hindex
    match table hindex with
    | none => some (table, wrapped)
    | some e =>
      if orphaned (preferred e) hole hindex then
        closeHole n preferred fuel (Function.update (Function.update table hole (some e)) hindex none)
          hindex hindex (wrapped || hindex < hole)
      else closeHole n preferred fuel table hole hindex wrapped

def removeHelperOpenAddress (t : GenericTable β) (fuel hindex : ℕ) :
    Option ((ℕ → Option (GenericEntry β)) × Bool) :=
  closeHole (2 ^ t.hashBits) (fun e ↦ t.home chars e.key) fuel
    (Function.update t.table hindex none) hindex hindex false

/-- The table without the entry at `hindex`, and whether the removal wrapped around. -/
def removeHelper (t : GenericTable β) (fuel hindex : ℕ) : Option (GenericTable β × Bool) :=
  (t.removeHelperOpenAddress chars fuel hindex).map fun r ↦
    ({ t with table := r.1, entries := t.entries - 1 }, r.2)

def remove (t : GenericTable β) (fuel : ℕ) (fr : GenericEntry β) :
    Option (GenericTable β × Bool) := do
  match ← t.lookupForRemoval chars fuel fr with
  | some hindex =>
    let r ← t.removeHelper chars fuel hindex
    some (r.1, true)
  | none => some (t, false)

/-! ## The interface -/

def genericHashLookup (t : GenericTable β) (fuel : ℕ) (key : BitVec 64) : Option (Option β) :=
  (t.lookup chars fuel key).map fun e ↦ e.map GenericEntry.payload

def genericHashAdd (t : GenericTable β) (fuel : ℕ) (key : BitVec 64) (payload : β) :
    Option (GenericTable β) :=
  (add chars fuel t ⟨key, payload⟩).map Prod.fst

/-- The table after a removal, and whether the key was there. -/
def genericHashRemove (t : GenericTable β) (fuel : ℕ) (key : BitVec 64) :
    Option (GenericTable β × Bool) := do
  match ← t.lookup chars fuel key with
  | some e => t.remove chars fuel e
  | none => some (t, false)

/-- A call of the interface. -/
inductive Op (β : Type)
  | add (key : BitVec 64) (payload : β)
  | remove (key : BitVec 64)
  | lookup (key : BitVec 64)

/-- The table after a call that returns. -/
def step (fuel : ℕ) (t : GenericTable β) : Op β → Option (GenericTable β)
  | .add key payload => t.genericHashAdd chars fuel key payload
  | .remove key => (t.genericHashRemove chars fuel key).map Prod.fst
  | .lookup key => (t.genericHashLookup chars fuel key).map fun _ ↦ t

/-- The table after a sequence of calls all of which return. -/
def exec (fuel : ℕ) (t : GenericTable β) (ops : List (Op β)) : Option (GenericTable β) :=
  ops.foldlM (step chars fuel) t

/-! ## What the table is for -/

/-- A finite map after a call. -/
def applyOp (m : BitVec 64 → Option β) : Op β → BitVec 64 → Option β
  | .add key payload => Function.update m key (some payload)
  | .remove key => Function.update m key none
  | .lookup _ => m

/-- The finite map that a sequence of calls on an empty table stands for. -/
def contents (ops : List (Op β)) : BitVec 64 → Option β :=
  ops.foldl applyOp fun _ ↦ none

/-- The number of keys of a finite map. -/
noncomputable def size (m : BitVec 64 → Option β) : ℕ :=
  {key | m key ≠ none}.ncard

/-- No call adds a key that is present. -/
def AddsAbsent (ops : List (Op β)) : Prop :=
  ∀ pre key payload, pre ++ [.add key payload] <+: ops → contents pre key = none

/-- The table is the finite map `m`: every lookup returns, with the payload of the key, `entries` is
the number of keys, and the slots from the hash index of an entry up to its own are taken. -/
structure Refines (t : GenericTable β) (m : BitVec 64 → Option β) : Prop where
  lookup : ∀ key, ∃ fuel, t.genericHashLookup chars fuel key = some (m key)
  entries : t.entries = size m
  unbroken : Unbroken (2 ^ t.hashBits) (fun e ↦ t.home chars e.key) t.table

/-- The number of bits is the smallest from `bits` on whose threshold admits `n` entries, and there
is a free slot then. -/
def Fits (loadFactorPercent bits n : ℕ) : Prop :=
  ∃ b, bits ≤ b ∧ b < 32 ∧ n ≤ thresholdOfSize loadFactorPercent (2 ^ b) ∧ n < 2 ^ b ∧
    ∀ b', bits ≤ b' → b' < b → thresholdOfSize loadFactorPercent (2 ^ b') < n

/-! ## Slots and keys -/

/-- The slots hold the entries of the finite map `m`, each of them once. -/
structure Stores (n : ℕ) (table : ℕ → Option (GenericEntry β)) (m : BitVec 64 → Option β) :
    Prop where
  bound : ∀ i e, table i = some e → i < n
  unique : ∀ i j e e', table i = some e → table j = some e' → e.key = e'.key → i = j
  mem_iff : ∀ key payload, m key = some payload ↔ ∃ i, table i = some ⟨key, payload⟩

variable {chars} {n : ℕ} {table : ℕ → Option (GenericEntry β)} {m : BitVec 64 → Option β}

theorem stores_empty : Stores n (fun _ ↦ none) (fun _ ↦ none : BitVec 64 → Option β) :=
  ⟨by simp, by simp, by simp⟩

variable {e : GenericEntry β}

variable {i : ℕ}

theorem Stores.mem (h : Stores n table m) (he : table i = some e) :
    m e.key = some e.payload :=
  (h.mem_iff e.key e.payload).2 ⟨i, he⟩

variable {key : BitVec 64}

theorem Stores.key_ne (h : Stores n table m)
    (hkey : m key = none) (he : table i = some e) : e.key ≠ key := by
  rintro rfl
  rw [h.mem he] at hkey
  exact absurd hkey (by simp)

theorem Stores.insert (h : Stores n table m) (hi : i < n) (hfree : table i = none)
    (hkey : m e.key = none) :
    Stores n (Function.update table i (some e)) (Function.update m e.key (some e.payload)) where
  bound j a ha := by
    by_cases hji : j = i
    · exact hji ▸ hi
    · rw [Function.update_of_ne hji] at ha
      exact h.bound j a ha
  unique j k a b ha hb hab := by
    by_cases hji : j = i
    · by_cases hki : k = i
      · rw [hji, hki]
      · subst hji
        rw [Function.update_self, Option.some.injEq] at ha
        rw [Function.update_of_ne hki] at hb
        exact absurd (ha ▸ hab.symm) (h.key_ne hkey hb)
    · rw [Function.update_of_ne hji] at ha
      by_cases hki : k = i
      · subst hki
        rw [Function.update_self, Option.some.injEq] at hb
        exact absurd (hb ▸ hab) (h.key_ne hkey ha)
      · rw [Function.update_of_ne hki] at hb
        exact h.unique j k a b ha hb hab
  mem_iff key payload := by
    constructor
    · intro hm
      by_cases hk : key = e.key
      · subst hk
        rw [Function.update_self, Option.some.injEq] at hm
        subst hm
        exact ⟨i, Function.update_self ..⟩
      · rw [Function.update_of_ne hk] at hm
        obtain ⟨j, hj⟩ := (h.mem_iff key payload).1 hm
        have hji : j ≠ i := by
          rintro rfl
          rw [hfree] at hj
          exact absurd hj (by simp)
        exact ⟨j, by rw [Function.update_of_ne hji, hj]⟩
    · rintro ⟨j, hj⟩
      by_cases hji : j = i
      · subst hji
        rw [Function.update_self, Option.some.injEq] at hj
        subst hj
        exact Function.update_self ..
      · rw [Function.update_of_ne hji] at hj
        rw [Function.update_of_ne (h.key_ne hkey hj)]
        exact h.mem hj

theorem Stores.erase (h : Stores n table m) (he : table i = some e) :
    Stores n (Function.update table i none) (Function.update m e.key none) where
  bound j a ha := by
    have hji : j ≠ i := by
      rintro rfl
      simp at ha
    rw [Function.update_of_ne hji] at ha
    exact h.bound j a ha
  unique j k a b ha hb hab := by
    have hji : j ≠ i := by
      rintro rfl
      simp at ha
    have hki : k ≠ i := by
      rintro rfl
      simp at hb
    rw [Function.update_of_ne hji] at ha
    rw [Function.update_of_ne hki] at hb
    exact h.unique j k a b ha hb hab
  mem_iff key payload := by
    constructor
    · intro hm
      have hk : key ≠ e.key := by
        rintro rfl
        simp at hm
      rw [Function.update_of_ne hk] at hm
      obtain ⟨j, hj⟩ := (h.mem_iff key payload).1 hm
      have hji : j ≠ i := by
        rintro rfl
        rw [he, Option.some.injEq] at hj
        exact hk (hj ▸ rfl)
      exact ⟨j, by rw [Function.update_of_ne hji, hj]⟩
    · rintro ⟨j, hj⟩
      have hji : j ≠ i := by
        rintro rfl
        simp at hj
      rw [Function.update_of_ne hji] at hj
      have hk : key ≠ e.key := fun hk ↦ hji (h.unique j i _ e hj he hk)
      rw [Function.update_of_ne hk]
      exact h.mem hj

/-- Moving an entry is taking it out and putting it in again. -/
theorem Stores.move (h : Stores n table m) {i j : ℕ} (hi : i < n) (hfree : table i = none)
    (he : table j = some e) :
    Stores n (Function.update (Function.update table i (some e)) j none) m := by
  have hij : i ≠ j := by
    rintro rfl
    rw [hfree] at he
    exact absurd he (by simp)
  have hmoved := (h.erase he).insert hi (by rw [Function.update_of_ne hij, hfree])
    (e := e) (Function.update_self ..)
  rw [Function.update_comm hij.symm] at hmoved
  rwa [Function.update_idem, ← h.mem he, Function.update_eq_self] at hmoved

/-- There are as many keys as slots that are taken. -/
theorem Stores.size_eq (h : Stores n table m) : size m = (taken n table).card := by
  let keyAt : ℕ → BitVec 64 := fun i ↦ (table i).elim 0 GenericEntry.key
  have hkeyAt : ∀ i e, table i = some e → keyAt i = e.key := fun i e he ↦ by
    simp only [keyAt, he, Option.elim_some]
  have himage : {key | m key ≠ none} = keyAt '' (taken n table : Finset ℕ) := by
    ext key
    constructor
    · intro hkey
      obtain ⟨payload, hm⟩ := Option.ne_none_iff_exists'.1 hkey
      obtain ⟨i, hi⟩ := (h.mem_iff key payload).1 hm
      refine ⟨i, mem_taken.2 ⟨h.bound i _ hi, ?_⟩, hkeyAt i _ hi⟩
      rw [hi, Option.isSome_some]
    · rintro ⟨i, hi, rfl⟩
      obtain ⟨e, he⟩ := Option.isSome_iff_exists.1 (mem_taken.1 hi).2
      rw [hkeyAt i e he]
      have hm := h.mem he
      show m e.key ≠ none
      rw [hm]
      exact Option.some_ne_none _
  have hinj : Set.InjOn keyAt (taken n table : Finset ℕ) := by
    intro i hi j hj hij
    obtain ⟨a, ha⟩ := Option.isSome_iff_exists.1 (mem_taken.1 hi).2
    obtain ⟨b, hb⟩ := Option.isSome_iff_exists.1 (mem_taken.1 hj).2
    rw [hkeyAt i a ha, hkeyAt j b hb] at hij
    exact h.unique i j a b ha hb hij
  rw [size, himage, hinj.ncard_image, Set.ncard_coe_finset]

theorem Stores.size_le (h : Stores n table m) : size m ≤ n :=
  h.size_eq ▸ card_taken_le

theorem Stores.size_lt_iff (h : Stores n table m) : size m < n ↔ ∃ i < n, table i = none :=
  h.size_eq ▸ card_taken_lt_iff

instance : Finite (BitVec 64) :=
  Finite.of_injective BitVec.toFin fun _ _ h ↦ BitVec.eq_of_toFin_eq h

theorem size_add (hkey : m key = none) (payload : β) :
    size (Function.update m key (some payload)) = size m + 1 := by
  have hset : {k | Function.update m key (some payload) k ≠ none} =
      insert key {k | m k ≠ none} := by
    ext k
    rw [Set.mem_insert_iff]
    by_cases hk : k = key
    · simp [hk]
    · simp [hk]
  have hnot : key ∉ {k | m k ≠ none} := fun h ↦ h hkey
  rw [size, hset, Set.ncard_insert_of_notMem hnot (Set.toFinite _), size]

theorem size_remove {payload : β} (hkey : m key = some payload) :
    size (Function.update m key none) + 1 = size m := by
  have hback : Function.update (Function.update m key none) key (some payload) = m := by
    rw [Function.update_idem, ← hkey, Function.update_eq_self]
  rw [← size_add (Function.update_self ..) payload, hback]

theorem size_mono {m' : BitVec 64 → Option β}
    (h : ∀ key payload, m' key = some payload → m key = some payload) : size m' ≤ size m := by
  refine Set.ncard_le_ncard (fun key hkey ↦ ?_) (Set.toFinite _)
  obtain ⟨payload, hm⟩ := Option.ne_none_iff_exists'.1 hkey
  show m key ≠ none
  rw [h key payload hm]
  exact Option.some_ne_none _

theorem size_erase_le (key : BitVec 64) : size (Function.update m key none) ≤ size m := by
  refine size_mono fun k payload hk ↦ ?_
  by_cases hkey : k = key
  · simp [hkey] at hk
  · rwa [Function.update_of_ne hkey] at hk

theorem exists_absent (h : size m < 2 ^ 64) : ∃ key, m key = none := by
  by_contra hall
  push Not at hall
  have huniv : {key | m key ≠ none} = Set.univ := Set.eq_univ_of_forall hall
  have hcard : Nat.card (BitVec 64) = 2 ^ 64 := by
    rw [Nat.card_congr ⟨BitVec.toFin, BitVec.ofFin, fun _ ↦ rfl, fun _ ↦ rfl⟩, Nat.card_fin]
  rw [size, huniv, Set.ncard_univ, hcard] at h
  exact lt_irrefl _ h

/-! ## Indices and sizes -/

theorem hashIndex_lt (func : HashFunction) {bits : ℕ} (hb : bits ≤ 64) (tag : BitVec 64) :
    hashIndex chars func bits tag < 2 ^ bits := by
  have hmask : (hashMask bits).toNat < 2 ^ bits := by
    rw [hashMask, BitVec.toNat_ushiftRight, BitVec.toNat_allOnes, Nat.shiftRight_eq_div_pow]
    refine Nat.div_lt_of_lt_mul ?_
    rw [← Nat.pow_add, Nat.sub_add_cancel hb]
    omega
  rw [hashIndex, BitVec.toNat_and]
  exact (Nat.mod_le _ _).trans_lt (Nat.and_le_right.trans_lt hmask)

/-- The number of bits is the smallest from `bits` on whose threshold admits `n` entries. -/
structure Level (loadFactorPercent bits n b : ℕ) : Prop where
  le : bits ≤ b
  lt : b < 32
  admits : n ≤ thresholdOfSize loadFactorPercent (2 ^ b)
  least : ∀ b', bits ≤ b' → b' < b → thresholdOfSize loadFactorPercent (2 ^ b') < n

variable {L bits p : ℕ}

theorem fits_iff : Fits L bits n ↔ ∃ b, Level L bits n b ∧ n < 2 ^ b := by
  constructor
  · rintro ⟨b, hle, hlt, hadmits, hfree, hleast⟩
    exact ⟨b, ⟨hle, hlt, hadmits, hleast⟩, hfree⟩
  · rintro ⟨b, h, hfree⟩
    exact ⟨b, h.le, h.lt, h.admits, hfree, h.least⟩

variable {b b' : ℕ}

theorem Level.le_of_admits (h : Level L bits n b) (hle : bits ≤ b')
    (hadmits : n ≤ thresholdOfSize L (2 ^ b')) : b ≤ b' := by
  by_contra hlt
  exact absurd hadmits (Nat.not_le.2 (h.least b' hle (Nat.lt_of_not_le hlt)))

theorem Level.unique (h : Level L bits n b) (h' : Level L bits n b') : b = b' :=
  le_antisymm (h.le_of_admits h'.le h'.admits) (h'.le_of_admits h.le h.admits)

/-- A larger number of entries is looked for from the present level on. -/
theorem Level.trans (h : Level L bits p b) (hpn : p ≤ n) (h' : Level L b n b') :
    Level L bits n b' where
  le := h.le.trans h'.le
  lt := h'.lt
  admits := h'.admits
  least k hk hkb := by
    rcases Nat.lt_or_ge k b with hlt | hge
    · exact (h.least k hk hlt).trans_le hpn
    · exact h'.least k hge hkb

theorem Level.restart (h : Level L bits p b) (hpn : p ≤ n) (h' : Level L bits n b') :
    Level L b n b' where
  le := by
    by_contra hlt
    have := h.least b' h'.le (Nat.lt_of_not_le hlt)
    exact absurd h'.admits (by omega)
  lt := h'.lt
  admits := h'.admits
  least k hk hkb := h'.least k (h.le.trans hk) hkb

theorem Level.raise {b : ℕ} (h : Level L bits p b) (hn : n ≤ thresholdOfSize L (2 ^ b)) :
    Level L bits (max p n) b where
  le := h.le
  lt := h.lt
  admits := max_le h.admits hn
  least k hk hkb := (h.least k hk hkb).trans_le (le_max_left p n)

theorem growBits_eq_some_iff {b : ℕ} : growBits L n bits = some b ↔ Level L bits n b := by
  induction hk : 32 - bits generalizing bits with
  | zero =>
    rw [growBits, if_pos (by omega)]
    refine ⟨fun h ↦ absurd h (by simp), fun h ↦ ?_⟩
    have := h.le
    have := h.lt
    omega
  | succ k ih =>
    rw [growBits, if_neg (by omega)]
    split_ifs with hsmall
    · rw [ih (by omega)]
      constructor
      · intro h
        refine ⟨by have := h.le; omega, h.lt, h.admits, fun b' hle hlt ↦ ?_⟩
        rcases Nat.eq_or_lt_of_le hle with rfl | hlt'
        · exact hsmall
        · exact h.least b' hlt' hlt
      · intro h
        refine ⟨?_, h.lt, h.admits, fun b' hle hlt ↦ h.least b' (by omega) hlt⟩
        rcases Nat.eq_or_lt_of_le h.le with rfl | hlt
        · exact absurd h.admits (by omega)
        · exact hlt
    · rw [Option.some.injEq]
      constructor
      · rintro rfl
        exact ⟨le_rfl, by omega, by omega, fun b' hle hlt ↦ absurd hle (by omega)⟩
      · intro h
        exact le_antisymm h.le (h.le_of_admits le_rfl (by omega))

/-! ## One table -/

/-- The table holds the finite map `m`, and every entry can be reached from its hash index. -/
structure Sound (chars : BitVec 64 → List (BitVec 8)) (t : GenericTable β)
    (m : BitVec 64 → Option β) : Prop where
  bits_lt : t.hashBits < 32
  stores : Stores (2 ^ t.hashBits) t.table m
  unbroken : Unbroken (2 ^ t.hashBits) (fun e ↦ t.home chars e.key) t.table
  entries : t.entries = size m

variable {t : GenericTable β}

theorem Sound.home_lt (h : Sound chars t m) (tag : BitVec 64) :
    t.home chars tag < 2 ^ t.hashBits :=
  hashIndex_lt t.hashFunc (by have := h.bits_lt; omega) tag

theorem Sound.size_bits_le (h : Sound chars t m) : 2 ^ t.hashBits ≤ 2 ^ 31 :=
  Nat.pow_le_pow_right (by omega) (by have := h.bits_lt; omega)

variable {fuel : ℕ}

variable {total : Prop}

/-- A search returns when there is a free slot. -/
theorem Sound.search (h : Sound chars t m) (hit : GenericEntry β → Bool)
    (tag : BitVec 64) (htotal : total → size m < 2 ^ t.hashBits ∧ 2 ^ 31 ≤ fuel) :
    Returns (t.search chars hit fuel tag) total fun i ↦
      i < 2 ^ t.hashBits ∧ ¬Passes t.table hit i ∧
      ∀ j < 2 ^ t.hashBits, dist (2 ^ t.hashBits) (t.home chars tag) j <
        dist (2 ^ t.hashBits) (t.home chars tag) i → Passes t.table hit j where
  post i hi := probe_sound (h.home_lt tag) hi
  ends ht := by
    obtain ⟨hfree, hfuel⟩ := htotal ht
    obtain ⟨k, hk, hnone⟩ := h.stores.size_lt_iff.1 hfree
    have hstop : ¬Passes t.table hit k := by
      rintro ⟨a, ha, -⟩
      rw [hnone] at ha
      exact absurd ha (by simp)
    have hd := dist_lt (h.home_lt tag) hk
    have hsize := h.size_bits_le
    exact exists_probe (h.home_lt tag) hk hstop (by omega)

/-- A search for a key stops at its entry, or at a free slot if there is none. -/
theorem Sound.search_key (h : Sound chars t m) {hit : GenericEntry β → Bool}
    (hhit : ∀ e, hit e = true ↔ e.key = key)
    (htotal : total → size m < 2 ^ t.hashBits ∧ 2 ^ 31 ≤ fuel) :
    Returns (t.search chars hit fuel key) total fun i ↦
      (∃ e, t.table i = some e ∧ e.key = key) ∨ (t.table i = none ∧ m key = none) where
  post i hi := by
    cases hm : m key with
    | none =>
      cases hslot : t.table i with
      | none => exact .inr ⟨rfl, rfl⟩
      | some e =>
        obtain ⟨-, hstop, -⟩ := (h.search hit key htotal).post i hi
        have hmiss : hit e = false := by
          rw [Bool.eq_false_iff, Ne, hhit]
          exact h.stores.key_ne hm hslot
        exact absurd ⟨e, hslot, hmiss⟩ hstop
    | some payload =>
      obtain ⟨j, hj⟩ := (h.stores.mem_iff key payload).1 hm
      obtain ⟨e, he, hkey⟩ := h.unbroken.probe_hit (h.stores.bound j _ hj) hj (h.home_lt key)
        ((hhit _).2 rfl) hi
      exact .inl ⟨e, he, (hhit e).1 hkey⟩
  ends := (h.search hit key htotal).ends

theorem Sound.lookup (h : Sound chars t m) (key : BitVec 64)
    (htotal : total → size m < 2 ^ t.hashBits ∧ 2 ^ 31 ≤ fuel) :
    Returns (t.lookup chars fuel key) total fun r ↦
      r.map GenericEntry.payload = m key ∧ ∀ e, r = some e → e.key = key := by
  refine (h.search_key (fun e ↦ beq_iff_eq) htotal).map ?_
  rintro i (⟨e, he, rfl⟩ | ⟨hnone, hm⟩)
  · rw [he, h.stores.mem he]
    exact ⟨rfl, fun e' he' ↦ by rw [Option.some.inj he']⟩
  · rw [hnone, hm]
    exact ⟨rfl, fun e he ↦ absurd he (by simp)⟩

/-- Every lookup returns, and then the table is the finite map, if there is a free slot. -/
theorem Sound.refines (h : Sound chars t m) (hfree : size m < 2 ^ t.hashBits) :
    Refines chars t m where
  lookup key := by
    have hlookup : Returns (t.genericHashLookup chars (2 ^ 31) key) True fun r ↦ r = m key :=
      (h.lookup key fun _ ↦ ⟨hfree, le_rfl⟩).map fun _ hr ↦ hr.1
    obtain ⟨r, hr⟩ := hlookup.ends trivial
    exact ⟨2 ^ 31, hlookup.post r hr ▸ hr⟩
  entries := h.entries
  unbroken := h.unbroken

/-- A table all whose lookups return has a free slot. -/
theorem Sound.size_lt_of_refines (h : Sound chars t m) (hrefines : Refines chars t m) :
    size m < 2 ^ t.hashBits := by
  have hsize : size m < 2 ^ 64 := by
    have := h.stores.size_le
    have := h.size_bits_le
    omega
  obtain ⟨key, hkey⟩ := exists_absent hsize
  obtain ⟨fuel, hlookup⟩ := hrefines.lookup key
  rw [genericHashLookup, GenericTable.lookup, Option.map_map, Option.map_eq_some_iff] at hlookup
  obtain ⟨i, hi, hslot⟩ := hlookup
  have hbound := (h.search _ key (fun hf : False ↦ hf.elim)).post i hi
  rw [hkey] at hslot
  exact h.stores.size_lt_iff.2 ⟨i, hbound.1, Option.map_eq_none_iff.1 hslot⟩

/-! ## Additions -/

theorem Sound.insert (h : Sound chars t m) (hkey : m e.key = none)
    (hi : t.search chars (fun _ ↦ false) fuel e.key = some i) :
    Sound chars { t with entries := t.entries + 1, table := Function.update t.table i (some e) }
      (Function.update m e.key (some e.payload)) := by
  obtain ⟨hin, hstop, hpass⟩ :=
    (h.search _ e.key (fun hf : False ↦ hf.elim)).post i hi
  have hfree : t.table i = none := by
    cases hslot : t.table i with
    | none => rfl
    | some a => exact absurd ⟨a, hslot, rfl⟩ hstop
  refine ⟨h.bits_lt, h.stores.insert hin hfree hkey, h.unbroken.insert ?_, ?_⟩
  · intro j hj hlt
    obtain ⟨a, ha, -⟩ := hpass j hj hlt
    exact Option.ne_none_iff_exists'.2 ⟨a, ha⟩
  · rw [size_add hkey, ← h.entries]

/-- The tables differ in their entries only. -/
structure SameShape (t t' : GenericTable β) : Prop where
  hashFunc : t'.hashFunc = t.hashFunc
  hashBits : t'.hashBits = t.hashBits
  loadFactorPercent : t'.loadFactorPercent = t.loadFactorPercent

theorem SameShape.resizeThreshold {t' : GenericTable β} (h : SameShape t t') :
    t'.resizeThreshold = t.resizeThreshold := by
  rw [GenericTable.resizeThreshold, h.hashBits, h.loadFactorPercent, GenericTable.resizeThreshold]

/-- The end of an addition, once there is room. -/
theorem Sound.place (h : Sound chars t m) (hkey : m e.key = none)
    (resized : Bool)
    (htotal : total → size m < 2 ^ t.hashBits ∧ 2 ^ 31 ≤ fuel) :
    Returns ((t.search chars (fun _ ↦ false) fuel e.key).map fun i ↦
      ({ t with entries := t.entries + 1, table := Function.update t.table i (some e) }, resized))
      total fun r ↦
      Sound chars r.1 (Function.update m e.key (some e.payload)) ∧ SameShape t r.1 := by
  refine ⟨fun r hr ↦ ?_, fun ht ↦ ?_⟩
  · obtain ⟨i, hi, rfl⟩ := Option.map_eq_some_iff.1 hr
    exact ⟨h.insert hkey hi, rfl, rfl, rfl⟩
  · obtain ⟨i, hi⟩ := (h.search (fun _ ↦ false) e.key htotal).ends ht
    exact ⟨_, Option.map_eq_some_iff.2 ⟨i, hi, rfl⟩⟩

/-- An addition that leaves the size as it is. -/
theorem add_of_room (h : t.entries + 1 ≤ t.resizeThreshold) :
    add chars (fuel + 1) t e = (t.search chars (fun _ ↦ false) fuel e.key).map fun i ↦
      ({ t with entries := t.entries + 1, table := Function.update t.table i (some e) }, false) := by
  have hkept : ¬t.resizeThreshold < t.entries + (1 + 0) := by omega
  rw [add, checkSize, if_neg hkept, Option.map_eq_bind]
  rfl

/-- An addition that leaves the size of the table as it is. -/
theorem Sound.add_of_le (h : Sound chars t m) (hkey : m e.key = none)
    (hroom : size m + 1 ≤ t.resizeThreshold)
    (htotal : total → size m < 2 ^ t.hashBits ∧ 2 ^ 31 < fuel) :
    Returns (add chars fuel t e) total fun r ↦
      Sound chars r.1 (Function.update m e.key (some e.payload)) ∧ SameShape t r.1 := by
  cases fuel with
  | zero => exact ⟨fun _ hr ↦ absurd hr (by simp [add]), fun ht ↦ absurd (htotal ht).2 (by omega)⟩
  | succ fuel =>
    rw [add_of_room (by rw [h.entries]; exact hroom)]
    exact h.place hkey false fun ht ↦ ⟨(htotal ht).1, Nat.le_of_lt_succ (htotal ht).2⟩

/-- Midway through a rehash: the new table holds the entries of `m` but for those in the old slots
still to come. -/
structure Rehashed (chars : BitVec 64 → List (BitVec 8)) (new : GenericTable β)
    (old : ℕ → Option (GenericEntry β)) (m : BitVec 64 → Option β) (slots : List ℕ)
    (t : GenericTable β) (m' : BitVec 64 → Option β) : Prop where
  shape : SameShape new t
  sound : Sound chars t m'
  split : ∀ key payload, m key = some payload ↔
    m' key = some payload ∨ ∃ i ∈ slots, old i = some ⟨key, payload⟩
  absent : ∀ i ∈ slots, ∀ e, old i = some e → m' e.key = none
  nodup : slots.Nodup

section Rehash

variable {new : GenericTable β} {old : ℕ → Option (GenericEntry β)} {slots : List ℕ}
  {m' : BitVec 64 → Option β} {i : ℕ}

theorem Rehashed.skip (h : Rehashed chars new old m (i :: slots) t m') (hi : old i = none) :
    Rehashed chars new old m slots t m' where
  shape := h.shape
  sound := h.sound
  split key payload := by
    rw [h.split]
    simp [hi]
  absent j hj := h.absent j (List.mem_cons_of_mem i hj)
  nodup := (List.nodup_cons.1 h.nodup).2

theorem Rehashed.add {n' : ℕ} (h : Rehashed chars new old m (i :: slots) t m')
    (hold : Stores n' old m) {e : GenericEntry β} (hi : old i = some e) {t' : GenericTable β}
    (hsound : Sound chars t' (Function.update m' e.key (some e.payload)))
    (hshape : SameShape t t') :
    Rehashed chars new old m slots t' (Function.update m' e.key (some e.payload)) where
  shape := ⟨hshape.hashFunc.trans h.shape.hashFunc, hshape.hashBits.trans h.shape.hashBits,
    hshape.loadFactorPercent.trans h.shape.loadFactorPercent⟩
  sound := hsound
  split key payload := by
    have habsent := h.absent i List.mem_cons_self e hi
    rw [h.split, List.exists_mem_cons_iff]
    by_cases hk : key = e.key
    · subst hk
      rw [Function.update_self, habsent, hi, Option.some.injEq, Option.some.injEq]
      constructor
      · rintro (hnone | heq | hlater)
        · exact absurd hnone (by simp)
        · exact .inl (by rw [heq])
        · exact .inr hlater
      · rintro (rfl | hlater)
        · exact .inr (.inl rfl)
        · exact .inr (.inr hlater)
    · rw [Function.update_of_ne hk, hi, Option.some.injEq]
      have hne : e ≠ ⟨key, payload⟩ := by
        rintro rfl
        exact hk rfl
      simp only [hne, false_or]
  absent j hj a ha := by
    have hji : j ≠ i := by
      rintro rfl
      exact (List.nodup_cons.1 h.nodup).1 hj
    have hk : a.key ≠ e.key := fun hk ↦ hji (hold.unique j i a e ha hi hk)
    rw [Function.update_of_ne hk]
    exact h.absent j (List.mem_cons_of_mem i hj) a ha
  nodup := (List.nodup_cons.1 h.nodup).2

/-- A rehash takes all entries to the new table. -/
theorem rehash_sound {n' fuel : ℕ} (hold : Stores n' old m) (hnew : Sound chars new fun _ ↦ none)
    (hroom : size m ≤ new.resizeThreshold) {total : Prop}
    (htotal : total → size m < 2 ^ new.hashBits ∧ 2 ^ 31 < fuel) :
    Returns (rehash (fun t e ↦ (GenericTable.add chars fuel t e).map Prod.fst) old
      (List.range (n' + 1)) new) total fun r ↦ Sound chars r m ∧ SameShape new r := by
  refine Returns.mono (Returns.foldlM
    (fun slots t ↦ ∃ m', Rehashed chars new old m slots t m') _ new ?_ ?_) id ?_
  · rintro i slots t ⟨m', h⟩
    cases hi : old i with
    | none => exact Returns.pure ⟨m', h.skip hi⟩
    | some e =>
      have hkey := h.absent i List.mem_cons_self e hi
      -- the entries moved so far and this one are entries of the old table
      have hsize : size m' + 1 ≤ size m := by
        rw [← size_add hkey e.payload]
        refine size_mono fun key payload hm ↦ (h.split key payload).2 ?_
        by_cases hk : key = e.key
        · subst hk
          rw [Function.update_self, Option.some.injEq] at hm
          subst hm
          exact .inr ⟨i, List.mem_cons_self, hi⟩
        · rw [Function.update_of_ne hk] at hm
          exact .inl hm
      refine (h.sound.add_of_le hkey ?_ fun ht ↦ ?_).map fun r hr ↦ ⟨_, h.add hold hi hr.1 hr.2⟩
      · rw [h.shape.resizeThreshold]
        omega
      · rw [h.shape.hashBits]
        exact ⟨by have := (htotal ht).1; omega, (htotal ht).2⟩
  · refine ⟨_, ⟨rfl, rfl, rfl⟩, hnew, fun key payload ↦ ?_, by simp, List.nodup_range⟩
    rw [hold.mem_iff]
    constructor
    · rintro ⟨i, hi⟩
      have := hold.bound i _ hi
      exact .inr ⟨i, List.mem_range.2 (by omega), hi⟩
    · rintro (hnone | ⟨i, -, hi⟩)
      · exact absurd hnone (by simp)
      · exact ⟨i, hi⟩
  · rintro r ⟨m', h⟩
    have hm : m' = m := by
      funext key
      have hsplit := fun payload ↦ h.split key payload
      simp only [List.not_mem_nil, false_and, exists_false, or_false] at hsplit
      exact Option.ext fun payload ↦ (hsplit payload).symm
    exact ⟨hm ▸ h.sound, h.shape⟩

end Rehash

theorem init_eq_some_iff {func : HashFunction} : init bits L func = some t ↔
    0 < bits ∧ bits < 32 ∧ t = ⟨func, bits, L, 0, fun _ ↦ none⟩ := by
  rw [init, hashtableSize]
  split_ifs <;> simp_all [eq_comm]

theorem sound_init (chars : BitVec 64 → List (BitVec 8)) {func : HashFunction} (h : init bits L func = some t) :
    Sound chars t fun _ ↦ none := by
  obtain ⟨-, hlt, rfl⟩ := init_eq_some_iff.1 h
  refine ⟨hlt, stores_empty, fun _ _ _ ha ↦ absurd ha (by simp), ?_⟩
  simp [size]

/-- An addition that resizes the table. -/
theorem add_of_lt (h : t.resizeThreshold < t.entries + 1) :
    GenericTable.add chars (fuel + 1) t e =
      growBits t.loadFactorPercent (t.entries + 1) t.hashBits >>= fun b ↦
      init b t.loadFactorPercent t.hashFunc >>= fun fresh ↦
      rehash (fun t e ↦ (GenericTable.add chars fuel t e).map Prod.fst) t.table
        (List.range (2 ^ t.hashBits + 1)) fresh >>= fun new ↦
      (new.search chars (fun _ ↦ false) fuel e.key).map fun i ↦
        ({ new with entries := new.entries + 1, table := Function.update new.table i (some e) },
          true) := by
  rw [GenericTable.add, checkSize, if_pos h]
  simp only [Option.bind_eq_bind, Option.bind_assoc, Option.bind_some, Option.map_eq_bind]
  rfl

/-- An addition, with or without a resize. -/
theorem Sound.add (h : Sound chars t m) (hkey : m e.key = none)
    (hbits : 0 < t.hashBits) (hlevel : Level t.loadFactorPercent bits p t.hashBits)
    (hp : size m ≤ p)
    (htotal : total → Fits t.loadFactorPercent bits p ∧
      Fits t.loadFactorPercent bits (size m + 1) ∧ 2 ^ 31 + 1 < fuel) :
    Returns (GenericTable.add chars fuel t e) total fun r ↦
      Sound chars r.1 (Function.update m e.key (some e.payload)) ∧
      Level t.loadFactorPercent bits (max p (size m + 1)) r.1.hashBits ∧
      r.1.loadFactorPercent = t.loadFactorPercent ∧ 0 < r.1.hashBits := by
  have hfree : total → size m < 2 ^ t.hashBits := fun ht ↦ by
    obtain ⟨b, hb, hlt⟩ := fits_iff.1 (htotal ht).1
    rw [hlevel.unique hb]
    omega
  rcases Nat.lt_or_ge t.resizeThreshold (size m + 1) with hgrow | hroom
  · cases fuel with
    | zero =>
      exact ⟨fun _ hr ↦ absurd hr (by simp [GenericTable.add]),
        fun ht ↦ absurd (htotal ht).2.2 (by omega)⟩
    | succ fuel =>
      have hpn : p ≤ size m + 1 := hlevel.admits.trans hgrow.le
      have hmax : max p (size m + 1) = size m + 1 := max_eq_right hpn
      rw [add_of_lt (by rw [h.entries]; exact hgrow), h.entries, hmax]
      refine Returns.bind (P := fun b ↦ Level t.loadFactorPercent t.hashBits (size m + 1) b) ?_
        fun b hb ↦ ?_
      · refine ⟨fun b hb ↦ growBits_eq_some_iff.1 hb, fun ht ↦ ?_⟩
        obtain ⟨b, hb, -⟩ := fits_iff.1 (htotal ht).2.1
        exact ⟨b, growBits_eq_some_iff.2 (hlevel.restart hpn hb)⟩
      · have hbits' : 0 < b := hbits.trans_le hb.le
        obtain ⟨fresh, hinit⟩ : ∃ fresh : GenericTable β,
            init b t.loadFactorPercent t.hashFunc = some fresh :=
          ⟨_, init_eq_some_iff.2 ⟨hbits', hb.lt, rfl⟩⟩
        obtain ⟨-, -, hfresh⟩ := init_eq_some_iff.1 hinit
        have hlevel' := hlevel.trans hpn hb
        have htotal' : total → size m < 2 ^ b ∧ 2 ^ 31 < fuel := fun ht ↦ by
          obtain ⟨b', hb', hlt⟩ := fits_iff.1 (htotal ht).2.1
          rw [hlevel'.unique hb']
          have := (htotal ht).2.2
          omega
        have hroom : size m ≤ fresh.resizeThreshold := by
          rw [hfresh]
          exact (Nat.le_succ _).trans hb.admits
        rw [hinit, Option.bind_eq_bind, Option.bind_some]
        refine Returns.bind (rehash_sound h.stores (sound_init chars hinit) hroom ?_)
          fun new hnew ↦ (hnew.1.place hkey true ?_).mono id ?_
        · rw [hfresh]
          exact htotal'
        · rw [hnew.2.hashBits, hfresh]
          exact fun ht ↦ ⟨(htotal' ht).1, (htotal' ht).2.le⟩
        · rintro r ⟨hsound, hshape⟩
          rw [hshape.hashBits, hshape.loadFactorPercent, hnew.2.hashBits,
            hnew.2.loadFactorPercent, hfresh]
          exact ⟨hsound, hlevel', rfl, hbits'⟩
  · refine (h.add_of_le hkey hroom fun ht ↦ ⟨hfree ht, ?_⟩).mono id ?_
    · have := (htotal ht).2.2
      omega
    · rintro r ⟨hsound, hshape⟩
      rw [hshape.hashBits]
      exact ⟨hsound, hlevel.raise hroom, hshape.loadFactorPercent, hbits⟩

/-! ## Removals -/

/-- The three-way comparison asks whether the hole lies on the way from the preferred slot of an
entry to the slot it is in. -/
theorem orphaned_iff {preferred hole hindex : ℕ} (hp : preferred < n) (hh : hole < n)
    (hi : hindex < n) :
    orphaned preferred hole hindex = true ↔ dist n preferred hole < dist n preferred hindex := by
  simp only [orphaned, Bool.or_eq_true, Bool.and_eq_true, decide_eq_true_eq]
  rw [Probing.dist, Probing.dist]
  split_ifs <;> omega

/-- Walking on from a hole to the next free slot closes the gap. -/
theorem closeHole_sound {preferred : GenericEntry β → ℕ} (hpreferred : ∀ e, preferred e < n)
    {hole cur fuel : ℕ} {wrapped : Bool} (hgap : Gap n preferred table hole cur)
    (hstores : Stores n table m) (hh : hole < n) (hc : cur < n)
    (htotal : total → ∃ k < n, table k = none ∧ k ≠ hole ∧ k ≠ cur ∧ dist n cur k ≤ fuel) :
    Returns (closeHole n preferred fuel table hole cur wrapped) total fun r ↦
      Stores n r.1 m ∧ Unbroken n preferred r.1 := by
  induction fuel generalizing table hole cur wrapped with
  | zero =>
    refine ⟨fun r hr ↦ absurd hr (by simp [closeHole]), fun ht ↦ ?_⟩
    obtain ⟨k, hk, -, -, hkc, hfuel⟩ := htotal ht
    exact absurd (dist_eq_zero hc (Nat.le_zero.1 hfuel)) hkc.symm
  | succ fuel ih =>
    have hnext := next_lt hc
    rw [closeHole]
    cases hslot : table (Probing.next n cur) with
    | none => exact Returns.pure ⟨hstores, hgap.close hpreferred hh hc hslot⟩
    | some e =>
      have hne : Probing.next n cur ≠ hole := by
        intro heq
        rw [heq, hgap.free] at hslot
        exact absurd hslot (by simp)
      -- a free slot ahead of the walk is still ahead after the step
      have hahead : total → ∃ k < n, table k = none ∧ k ≠ hole ∧ k ≠ Probing.next n cur ∧
          dist n (Probing.next n cur) k ≤ fuel := fun ht ↦ by
        obtain ⟨k, hk, hnone, hkh, hkc, hfuel⟩ := htotal ht
        rw [dist_next hc hk hkc.symm] at hfuel
        refine ⟨k, hk, hnone, hkh, ?_, by omega⟩
        rintro rfl
        rw [hnone] at hslot
        exact absurd hslot (by simp)
      show Returns (if orphaned (preferred e) hole (Probing.next n cur) = true then _ else _) _ _
      split_ifs with horphan
      all_goals rw [orphaned_iff (hpreferred e) hh hnext] at horphan
      · refine ih (hgap.move hh hnext hslot horphan) (hstores.move hh hgap.free hslot) hnext hnext
          fun ht ↦ ?_
        obtain ⟨k, hk, hnone, hkh, hkc, hfuel⟩ := hahead ht
        refine ⟨k, hk, ?_, hkc, hkc, hfuel⟩
        rw [Function.update_of_ne hkc, Function.update_of_ne hkh, hnone]
      · exact ih (hgap.skip hh hc hne hslot horphan) hstores hh hnext hahead

theorem Sound.removeHelper (h : Sound chars t m)
    (hi : t.table i = some e)
    (htotal : total → size m < 2 ^ t.hashBits ∧ 2 ^ 31 ≤ fuel) :
    Returns (t.removeHelper chars fuel i) total fun r ↦
      Sound chars r.1 (Function.update m e.key none) ∧ SameShape t r.1 := by
  have hin := h.stores.bound i e hi
  have hclose : Returns (t.removeHelperOpenAddress chars fuel i) total fun r ↦
      Stores (2 ^ t.hashBits) r.1 (Function.update m e.key none) ∧
      Unbroken (2 ^ t.hashBits) (fun e ↦ t.home chars e.key) r.1 := by
    refine closeHole_sound (fun a ↦ h.home_lt a.key) (h.unbroken.gap hin) (h.stores.erase hi) hin
      hin fun ht ↦ ?_
    obtain ⟨hfree, hfuel⟩ := htotal ht
    obtain ⟨k, hk, hnone⟩ := h.stores.size_lt_iff.1 hfree
    have hki : k ≠ i := by
      rintro rfl
      rw [hnone] at hi
      exact absurd hi (by simp)
    have hd := dist_lt hin hk
    have hsize := h.size_bits_le
    exact ⟨k, hk, by rw [Function.update_of_ne hki, hnone], hki, hki, by omega⟩
  refine hclose.map fun r hr ↦ ⟨⟨h.bits_lt, hr.1, hr.2, ?_⟩, rfl, rfl, rfl⟩
  show t.entries - 1 = _
  rw [h.entries, ← size_remove (h.stores.mem hi), Nat.add_sub_cancel]

theorem Sound.remove (h : Sound chars t m) (he : m e.key ≠ none)
    (htotal : total → size m < 2 ^ t.hashBits ∧ 2 ^ 31 ≤ fuel) :
    Returns (t.remove chars fuel e) total fun r ↦
      Sound chars r.1 (Function.update m e.key none) ∧ SameShape t r.1 ∧ r.2 = true := by
  have hsearch : Returns (t.lookupForRemoval chars fuel e) total fun r ↦
      ∃ i a, r = some i ∧ t.table i = some a ∧ a.key = e.key := by
    refine (h.search_key (fun a ↦ beq_iff_eq.trans eq_comm) htotal).map ?_
    rintro i (⟨a, ha, hkey⟩ | ⟨-, hnone⟩)
    · exact ⟨i, a, by rw [ha, Option.map_some], ha, hkey⟩
    · exact absurd hnone he
  refine hsearch.bind ?_
  rintro _ ⟨i, a, rfl, ha, hkey⟩
  rw [← hkey]
  exact (h.removeHelper ha htotal).bind fun r hr ↦ Returns.pure ⟨hr.1, hr.2, rfl⟩

theorem Sound.genericHashRemove (h : Sound chars t m) (key : BitVec 64)
    (htotal : total → size m < 2 ^ t.hashBits ∧ 2 ^ 31 ≤ fuel) :
    Returns (t.genericHashRemove chars fuel key) total fun r ↦
      Sound chars r.1 (Function.update m key none) ∧ SameShape t r.1 ∧ r.2 = (m key).isSome := by
  refine (h.lookup key htotal).bind fun r hr ↦ ?_
  obtain ⟨hpayload, hkey⟩ := hr
  cases r with
  | none =>
    rw [Option.map_none] at hpayload
    have hsame : Function.update m key none = m := by
      rw [hpayload, Function.update_eq_self]
    refine Returns.pure ⟨hsame.symm ▸ h, ⟨rfl, rfl, rfl⟩, ?_⟩
    rw [← hpayload, Option.isSome_none]
  | some e =>
    have hek := hkey e rfl
    subst hek
    rw [Option.map_some] at hpayload
    have hne : m e.key ≠ none := hpayload ▸ Option.some_ne_none _
    rw [← hpayload, Option.isSome_some]
    exact h.remove hne htotal

/-! ## Sequences of calls -/

/-- After calls that have stored at most `p` keys at a time in a table that began with `bits` bits,
the table holds the finite map `m`. -/
structure Reached (chars : BitVec 64 → List (BitVec 8)) (L bits p : ℕ) (t : GenericTable β)
    (m : BitVec 64 → Option β) : Prop where
  sound : Sound chars t m
  loadFactorPercent : t.loadFactorPercent = L
  bits_pos : 0 < t.hashBits
  level : Level L bits p t.hashBits
  size_le : size m ≤ p

theorem Reached.free (h : Reached chars L bits p t m) (hfits : Fits L bits p) :
    size m < 2 ^ t.hashBits := by
  obtain ⟨b, hb, hlt⟩ := fits_iff.1 hfits
  rw [h.level.unique hb]
  exact h.size_le.trans_lt hlt

/-- The number of keys that a call leaves. -/
theorem size_applyOp_le (op : Op β) (hop : ∀ key payload, op = .add key payload → m key = none) :
    size (applyOp m op) ≤ size m + 1 := by
  cases op with
  | add key payload =>
    rw [applyOp, size_add (hop key payload rfl)]
  | remove key => exact (size_erase_le key).trans (Nat.le_succ _)
  | lookup _ => exact Nat.le_succ _

/-- A call that adds no key keeps the table below the most keys it has had. -/
theorem Reached.keep (h : Reached chars L bits p t m) {t' : GenericTable β}
    {m' : BitVec 64 → Option β} (hsound : Sound chars t' m') (hshape : SameShape t t')
    (hle : size m' ≤ size m) : Reached chars L bits (max p (size m')) t' m' := by
  rw [max_eq_left (hle.trans h.size_le)]
  refine ⟨hsound, hshape.loadFactorPercent.trans h.loadFactorPercent, ?_, ?_, hle.trans h.size_le⟩
  · rw [hshape.hashBits]
    exact h.bits_pos
  · rw [hshape.hashBits]
    exact h.level

theorem Reached.step (h : Reached chars L bits p t m) (op : Op β)
    (hop : ∀ key payload, op = .add key payload → m key = none)
    (htotal : total → Fits L bits p ∧ Fits L bits (size (applyOp m op)) ∧ 2 ^ 31 + 1 < fuel) :
    Returns (step chars fuel t op) total fun t' ↦
      Reached chars L bits (max p (size (applyOp m op))) t' (applyOp m op) := by
  have hfree : total → size m < 2 ^ t.hashBits ∧ 2 ^ 31 ≤ fuel := fun ht ↦
    ⟨h.free (htotal ht).1, by have := (htotal ht).2.2; omega⟩
  cases op with
  | add key payload =>
    have hkey := hop key payload rfl
    obtain ⟨hsound, rfl, hbits, hlevel, hle⟩ := h
    simp only [applyOp, size_add hkey] at htotal ⊢
    refine (hsound.add hkey hbits hlevel hle htotal).map fun r hr ↦ ?_
    obtain ⟨hr, hlevel', hload, hbits'⟩ := hr
    refine ⟨hr, hload, hbits', hlevel', ?_⟩
    rw [size_add hkey]
    exact le_max_right _ _
  | remove key =>
    exact (h.sound.genericHashRemove key hfree).map
      fun r hr ↦ h.keep hr.1 hr.2.1 (size_erase_le key)
  | lookup key =>
    have hkept : Reached chars L bits (max p (size m)) t m :=
      h.keep h.sound ⟨rfl, rfl, rfl⟩ le_rfl
    rw [GenericTable.step, genericHashLookup, Option.map_map]
    exact (h.sound.lookup key hfree).map fun _ _ ↦ hkept

section Run

variable {func : HashFunction} {t₀ : GenericTable β} {ops pre : List (Op β)} {op : Op β}

theorem reached_init (chars : BitVec 64 → List (BitVec 8)) (h : init bits L func = some t₀) :
    Reached chars L bits 0 t₀ (contents []) := by
  have hsound := sound_init chars h
  obtain ⟨hpos, hlt, rfl⟩ := init_eq_some_iff.1 h
  refine ⟨hsound, rfl, hpos, ⟨le_rfl, hlt, Nat.zero_le _, fun b hle hb ↦ ?_⟩, ?_⟩
  · exact absurd hle (Nat.not_le.2 hb)
  · exact hsound.entries.ge

theorem contents_append : contents (pre ++ [op]) = applyOp (contents pre) op := by
  rw [contents, List.foldl_append, List.foldl_cons, List.foldl_nil, contents]

theorem exec_append {fuel : ℕ} {t : GenericTable β} :
    exec chars fuel t (pre ++ [op]) = exec chars fuel t pre >>= fun t' ↦ step chars fuel t' op := by
  simp only [exec, List.foldlM_append, List.foldlM_cons, List.foldlM_nil]
  refine bind_congr fun t' ↦ ?_
  exact bind_pure _

theorem AddsAbsent.last (hops : AddsAbsent ops) (hpre : pre ++ [op] <+: ops) (key : BitVec 64)
    (payload : β) (hop : op = .add key payload) : contents pre key = none :=
  hops pre key payload (hop ▸ hpre)

theorem AddsAbsent.size_le (hops : AddsAbsent ops) (hpre : pre <+: ops) :
    size (contents pre) ≤ pre.length := by
  induction pre using List.reverseRecOn with
  | nil => simp [size, contents]
  | append_singleton pre op ih =>
    have hlast := size_applyOp_le op (hops.last hpre)
    have hprev := ih ((List.prefix_append pre [op]).trans hpre)
    rw [contents_append, List.length_append, List.length_singleton]
    omega

/-- The run as a whole: the table reached has had the most keys after some of the calls. -/
theorem exec_reached (chars : BitVec 64 → List (BitVec 8)) (h : init bits L func = some t₀)
    (hops : AddsAbsent ops) (hpre : pre <+: ops) (fuel : ℕ) :
    Returns (exec chars fuel t₀ pre)
      (2 ^ 31 + 1 < fuel ∧ ∀ pre', pre' <+: ops → Fits L bits (size (contents pre'))) fun t ↦
      ∃ peak, peak <+: ops ∧ Reached chars L bits (size (contents peak)) t (contents pre) := by
  induction pre using List.reverseRecOn with
  | nil =>
    refine Returns.pure ⟨[], List.nil_prefix, ?_⟩
    have hinit := reached_init chars h
    rwa [Nat.le_zero.1 hinit.size_le]
  | append_singleton pre op ih =>
    rw [exec_append]
    refine (ih ((List.prefix_append pre [op]).trans hpre)).bind ?_
    rintro t ⟨peak, hpeak, hreached⟩
    refine (hreached.step op (hops.last hpre) fun ht ↦ ⟨ht.2 peak hpeak, ?_, ht.1⟩).mono id ?_
    · rw [← contents_append]
      exact ht.2 _ hpre
    · intro t' ht'
      rw [← contents_append] at ht'
      rcases le_total (size (contents peak)) (size (contents (pre ++ [op]))) with hle | hle
      · rw [max_eq_right hle] at ht'
        exact ⟨pre ++ [op], hpre, ht'⟩
      · rw [max_eq_left hle] at ht'
        exact ⟨peak, hpeak, ht'⟩

/-- Where every stretch of the run leaves a table that is the finite map, every number of keys up to
the most there have been fits. -/
theorem fits_of_refines (h : init bits L func = some t₀) (hops : AddsAbsent ops)
    (hrefines : ∀ pre, pre <+: ops → ∃ fuel t, exec chars fuel t₀ pre = some t ∧
      Refines chars t (contents pre)) (hpre : pre <+: ops) {fuel : ℕ} {t : GenericTable β}
    (ht : exec chars fuel t₀ pre = some t) :
    ∃ p, Reached chars L bits p t (contents pre) ∧ ∀ n ≤ p, Fits L bits n := by
  induction pre using List.reverseRecOn generalizing fuel t with
  | nil =>
    have hinit := reached_init chars h
    obtain rfl : t₀ = t := Option.some.inj ht
    refine ⟨0, hinit, fun n hn ↦ fits_iff.2 ⟨t₀.hashBits, ?_, ?_⟩⟩
    · rw [Nat.le_zero.1 hn]
      exact hinit.level
    · rw [Nat.le_zero.1 hn]
      exact Nat.two_pow_pos _
  | append_singleton pre op ih =>
    have hpre' := (List.prefix_append pre [op]).trans hpre
    have hstep : ∀ {fuel : ℕ} {t : GenericTable β}, exec chars fuel t₀ (pre ++ [op]) = some t →
        ∃ p, Reached chars L bits (max p (size (contents (pre ++ [op])))) t
          (contents (pre ++ [op])) ∧ size (contents (pre ++ [op])) ≤ p + 1 ∧
          ∀ n ≤ p, Fits L bits n := by
      intro fuel t ht
      rw [exec_append] at ht
      obtain ⟨t', ht', hlast⟩ := Option.bind_eq_some_iff.1 ht
      obtain ⟨p, hp, hfits⟩ := ih hpre' ht'
      have hsize := size_applyOp_le op (hops.last hpre)
      have := hp.size_le
      rw [contents_append]
      exact ⟨p, (hp.step op (hops.last hpre) fun hf : False ↦ hf.elim).post t hlast, by omega,
        hfits⟩
    -- the size after the last call fits: it has fitted before, or a lookup finds a free slot
    have hlast : Fits L bits (size (contents (pre ++ [op]))) := by
      obtain ⟨fuel', t', ht', href⟩ := hrefines _ hpre
      obtain ⟨p, hp, -, hfits⟩ := hstep ht'
      rcases le_or_gt (size (contents (pre ++ [op]))) p with hle | hlt
      · exact hfits _ hle
      · rw [max_eq_right hlt.le] at hp
        exact fits_iff.2 ⟨_, hp.level, hp.sound.size_lt_of_refines href⟩
    obtain ⟨p, hp, hsize, hfits⟩ := hstep ht
    refine ⟨_, hp, fun n hn ↦ ?_⟩
    rcases le_or_gt n p with hle | hlt
    · exact hfits n hle
    · have hn' : n = size (contents (pre ++ [op])) := by omega
      exact hn' ▸ hlast

end Run

/-- Through a sequence of calls on an empty table, the table is the finite map the calls stand for,
exactly as long as the growth of the table finds a size for the number of keys. -/
theorem refines_iff (chars : BitVec 64 → List (BitVec 8)) {bits L : ℕ} {func : HashFunction}
    {t₀ : GenericTable β} (h : init bits L func = some t₀) {ops : List (Op β)}
    (hops : AddsAbsent ops) :
    (∀ pre, pre <+: ops → ∃ fuel t, exec chars fuel t₀ pre = some t ∧
      Refines chars t (contents pre)) ↔
    ∀ pre, pre <+: ops → Fits L bits (size (contents pre)) := by
  constructor
  · intro hrefines pre hpre
    obtain ⟨fuel, t, ht, -⟩ := hrefines pre hpre
    obtain ⟨p, hp, hfits⟩ := fits_of_refines h hops hrefines hpre ht
    exact hfits _ hp.size_le
  · intro hfits pre hpre
    have hrun := exec_reached chars h hops hpre (2 ^ 31 + 2)
    obtain ⟨t, ht⟩ := hrun.ends ⟨by omega, hfits⟩
    obtain ⟨peak, hpeak, hreached⟩ := hrun.post t ht
    exact ⟨_, t, ht, hreached.sound.refines (hreached.free (hfits peak hpeak))⟩

/-- A table of 26 bits and a load factor of 64 percent: its threshold is 0, and so are the
thresholds of all larger tables. -/
theorem not_refines_load_64 :
    ∃ t₀ : GenericTable Unit, init 26 64 .multiplyPhi = some t₀ ∧
      t₀.resizeThreshold < 2 ^ t₀.hashBits ∧ AddsAbsent [Op.add 1#64 ()] ∧
      ∀ fuel, exec (fun _ ↦ []) fuel t₀ [Op.add 1#64 ()] = none := by
  refine ⟨⟨.multiplyPhi, 26, 64, 0, fun _ ↦ none⟩, rfl, by decide +kernel, ?_, fun fuel ↦ ?_⟩
  · intro pre key payload hpre
    cases pre with
    | nil => rfl
    | cons op pre => simp at hpre
  · have hgrow : growBits 64 1 26 = none := by
      refine Option.eq_none_iff_forall_ne_some.2 fun b hb ↦ ?_
      obtain ⟨hle, hlt, hadmits, -⟩ := growBits_eq_some_iff.1 hb
      revert hadmits
      interval_cases b <;> decide +kernel
    cases fuel with
    | zero => rfl
    | succ fuel =>
      rw [exec, List.foldlM_cons, GenericTable.step, genericHashAdd, add_of_lt (by decide +kernel),
        hgrow]
      rfl

/-- Two keys with the same hash index in a table that is resized, and then one of them. -/
theorem refines_two_keys :
    ∃ t₀ : GenericTable ℕ, init 1 50 .none = some t₀ ∧
      ∀ pre, pre <+: [Op.add 0#64 7, Op.add 4#64 8, Op.remove 0#64] →
        ∃ fuel t, exec (fun _ ↦ []) fuel t₀ pre = some t ∧ Refines (fun _ ↦ []) t (contents pre) := by
  have hops : AddsAbsent [Op.add 0#64 7, Op.add 4#64 8, Op.remove 0#64] := by
    intro pre key payload hpre
    rcases pre with _ | ⟨a, _ | ⟨b, _ | ⟨c, pre⟩⟩⟩
    · rfl
    · simp only [List.cons_append, List.nil_append, List.cons_prefix_cons] at hpre
      obtain ⟨rfl, hadd, -⟩ := hpre
      obtain ⟨rfl, rfl⟩ := Op.add.inj hadd
      decide
    · simp at hpre
    · simp at hpre
  have hfits : ∀ n ≤ 3, Fits 50 1 n := by
    have hthreshold : thresholdOfSize 50 (2 ^ 1) = 1 ∧ thresholdOfSize 50 (2 ^ 2) = 2 ∧
        thresholdOfSize 50 (2 ^ 3) = 4 := by decide
    obtain ⟨h1, h2, h3⟩ := hthreshold
    intro n hn
    rcases Nat.lt_or_ge n 2 with hlt | hge
    · exact ⟨1, by omega, by omega, by omega, by omega, fun b hle hb ↦ by omega⟩
    rcases Nat.lt_or_ge n 3 with hlt | hge
    · refine ⟨2, by omega, by omega, by omega, by omega, fun b hle hb ↦ ?_⟩
      obtain rfl : b = 1 := by omega
      omega
    · refine ⟨3, by omega, by omega, by omega, by omega, fun b hle hb ↦ ?_⟩
      obtain rfl | rfl : b = 1 ∨ b = 2 := by omega
      · omega
      · omega
  have hinit : init 1 50 .none = some (⟨.none, 1, 50, 0, fun _ ↦ none⟩ : GenericTable ℕ) := rfl
  refine ⟨_, hinit, (refines_iff (fun _ ↦ []) hinit hops).2 fun pre hpre ↦ hfits _ ?_⟩
  exact (hops.size_le hpre).trans hpre.length_le

end GenericTable

end DrAvx
