import Mathlib.Data.Nat.Size
import Mathlib.Tactic.Ring
import DrAvx.Core.Hashtable

/-!
# Sizing a table for the entries to come

A caller that knows how many entries it will add asks `hashtable_bits_given_entries` for the number
of bits.  The function divides by the load factor, rounding down, and takes the bit length of the
quotient; the table then computes its threshold from the capacity, rounding down once more.

## What is here

* `hashtableNumBits`, the loop that counts bits, is `Nat.size`.
* `lt_thresholdOfSize`: the two roundings do not cost an entry, and the product in the threshold
  does not wrap around.
* `Sound.addAll`: as long as there is room below the threshold, the additions of a list of distinct
  keys all return, and none of them resizes the table.
-/

set_option autoImplicit false

namespace DrAvx

/-- The loop of `hashtable_num_bits`. -/
def numBitsFrom (sz bits : ℕ) : ℕ :=
  if 0 < sz then numBitsFrom (sz >>> 1) (bits + 1) else bits
termination_by sz
decreasing_by rw [Nat.shiftRight_one]; omega

def hashtableNumBits (size : ℕ) : ℕ := numBitsFrom size 0

def hashtableBitsGivenEntries (entries load : ℕ) : ℕ :=
  hashtableNumBits ((entries + 1) * 100 % 2 ^ 32 / load)

/-! ## The number of bits -/

theorem numBitsFrom_eq (sz bits : ℕ) : numBitsFrom sz bits = Nat.size sz + bits := by
  induction sz using Nat.strong_induction_on generalizing bits with
  | _ sz ih =>
    rw [numBitsFrom]
    rcases Nat.eq_zero_or_pos sz with rfl | hpos
    · simp
    · have hhalf : Nat.size sz = Nat.size (sz >>> 1) + 1 := by
        rw [Nat.shiftRight_one, ← Nat.div2_val]
        conv_lhs => rw [← Nat.bit_bodd_div2 sz]
        exact Nat.size_bit (by rw [Nat.bit_bodd_div2]; omega)
      rw [if_pos hpos, ih _ (by rw [Nat.shiftRight_one]; omega), hhalf]
      omega

theorem hashtableNumBits_eq_size (size : ℕ) : hashtableNumBits size = Nat.size size :=
  numBitsFrom_eq size 0

/-- The quotient has as many bits as the power of two just above it. -/
theorem exists_bits {entries load : ℕ} (hload : 1 ≤ load) (hle : load ≤ 100)
    (hsmall : (entries + 1) * 100 < 2 ^ 31) :
    ∃ k, hashtableBitsGivenEntries entries load = k + 1 ∧ k < 31 ∧
      2 ^ k * load ≤ (entries + 1) * 100 ∧ (entries + 1) * 100 < 2 ^ (k + 1) * load := by
  rw [hashtableBitsGivenEntries, hashtableNumBits_eq_size, Nat.mod_eq_of_lt (by omega)]
  set q := (entries + 1) * 100 / load with hq
  have hpos : 0 < q := Nat.div_pos (by omega) hload
  obtain ⟨k, hk⟩ : ∃ k, Nat.size q = k + 1 :=
    Nat.exists_eq_succ_of_ne_zero (Nat.size_pos.2 hpos).ne'
  have hlow : 2 ^ k ≤ q := Nat.lt_size.1 (by omega)
  have hhigh : q < 2 ^ (k + 1) := hk ▸ Nat.lt_size_self q
  have hqN : q ≤ (entries + 1) * 100 := Nat.div_le_self _ _
  refine ⟨k, hk, ?_, ?_, ?_⟩
  · exact (Nat.pow_lt_pow_iff_right (by omega : 1 < 2)).1 (by omega)
  · exact (Nat.mul_le_mul_right load hlow).trans (Nat.div_mul_le_self _ _)
  · exact (Nat.div_lt_iff_lt_mul hload).1 hhigh

/-- The product in the threshold stays below `2 ^ 32`.  The bound on the quotient alone leaves room
for a few values above; they are no multiples of so large a power of two. -/
theorem mul_load_lt {k load N : ℕ} (hle : load ≤ 100) (hN : N * 100 < 2 ^ 31)
    (h : 2 ^ k * load ≤ N * 100) : (2 ^ (k + 1) + 1) * load < 2 ^ 32 := by
  have hexpand : (2 ^ (k + 1) + 1) * load = 2 * (2 ^ k * load) + load := by ring
  rw [hexpand]
  rcases Nat.lt_or_ge k 24 with hk | hk
  · have hpow : 2 ^ k ≤ 2 ^ 23 := Nat.pow_le_pow_right (by omega) (by omega)
    have := Nat.mul_le_mul hpow hle
    omega
  · obtain ⟨c, rfl⟩ := Nat.exists_eq_add_of_le hk
    have hmultiple : 2 ^ (24 + c) * load = 2 ^ 24 * (2 ^ c * load) := by ring
    omega

theorem lt_thresholdOfSize {entries load : ℕ} (hload : 1 ≤ load) (hle : load ≤ 100)
    (hsmall : (entries + 1) * 100 < 2 ^ 31) :
    entries + 1 ≤ thresholdOfSize load (2 ^ hashtableBitsGivenEntries entries load) := by
  obtain ⟨k, hk, -, hlow, hhigh⟩ := exists_bits hload hle hsmall
  rw [thresholdOfSize, hk, Nat.mod_eq_of_lt (mul_load_lt hle hsmall hlow),
    Nat.le_div_iff_mul_le (by omega), Nat.add_mul (2 ^ (k + 1))]
  omega

namespace GenericTable

variable {β : Type} (chars : BitVec 64 → List (BitVec 8))

/-- The table after the additions of a list of entries all of which return, and for each of them
whether it resized the table. -/
def addAll (fuel : ℕ) : GenericTable β → List (GenericEntry β) → Option (GenericTable β × List Bool)
  | t, [] => some (t, [])
  | t, e :: es => do
    let (t, resized) ← add chars fuel t e
    let (t, flags) ← addAll fuel t es
    some (t, resized :: flags)

variable {chars} {t : GenericTable β} {m : BitVec 64 → Option β}

/-- A table with room does not report a resize. -/
theorem not_resized_of_room {e : GenericEntry β} {fuel : ℕ} {r : GenericTable β × Bool}
    (hroom : t.entries + 1 ≤ t.resizeThreshold) (h : add chars fuel t e = some r) : r.2 = false := by
  cases fuel with
  | zero => simp [add] at h
  | succ fuel =>
    rw [add_of_room hroom] at h
    obtain ⟨i, -, rfl⟩ := Option.map_eq_some_iff.1 h
    rfl

/-- The induction is on the list; the room and the free slots left shrink with it. -/
theorem Sound.addAll (h : Sound chars t m) {es : List (GenericEntry β)} {fuel : ℕ}
    (hfuel : 2 ^ 31 < fuel) (hnew : ∀ e ∈ es, m e.key = none)
    (hdistinct : (es.map GenericEntry.key).Nodup)
    (hroom : t.entries + es.length ≤ t.resizeThreshold)
    (hfree : t.entries + es.length < 2 ^ t.hashBits) :
    ∃ t', GenericTable.addAll chars fuel t es = some (t', List.replicate es.length false) ∧
      SameShape t t' := by
  induction es generalizing t m with
  | nil => exact ⟨t, rfl, rfl, rfl, rfl⟩
  | cons e es ih =>
    simp only [List.length_cons] at hroom hfree
    have hentries := h.entries
    have hadd : Returns (GenericTable.add chars fuel t e) True fun r ↦
        Sound chars r.1 (Function.update m e.key (some e.payload)) ∧ SameShape t r.1 :=
      h.add_of_le (hnew e (by simp)) (by omega) fun _ ↦ ⟨by omega, hfuel⟩
    obtain ⟨⟨t₁, resized⟩, ht₁⟩ := hadd.ends trivial
    obtain ⟨hsound, hshape⟩ : Sound chars t₁ _ ∧ SameShape t t₁ := hadd.post _ ht₁
    obtain rfl : resized = false := not_resized_of_room (by omega) ht₁
    have hcount : t₁.entries = t.entries + 1 := by
      rw [hsound.entries, hentries, size_add (hnew e (by simp))]
    -- the keys still to come differ from the one just added
    rw [List.map_cons, List.nodup_cons] at hdistinct
    have hlater : ∀ e' ∈ es, Function.update m e.key (some e.payload) e'.key = none := by
      intro e' he'
      have hne : e'.key ≠ e.key := fun heq ↦
        hdistinct.1 (heq ▸ List.mem_map_of_mem he')
      rw [Function.update_of_ne hne]
      exact hnew e' (List.mem_cons_of_mem e he')
    obtain ⟨t', ht', hshape'⟩ := ih hsound hlater hdistinct.2
      (by rw [hshape.resizeThreshold]; omega) (by rw [hshape.hashBits]; omega)
    refine ⟨t', ?_, hshape'.hashFunc.trans hshape.hashFunc, hshape'.hashBits.trans hshape.hashBits,
      hshape'.loadFactorPercent.trans hshape.loadFactorPercent⟩
    rw [GenericTable.addAll, ht₁]
    simp only [Option.bind_eq_bind, Option.bind_some, ht', List.length_cons, List.replicate_succ]

/-- A table of the size that `hashtable_bits_given_entries` names has a threshold above `entries`,
and the additions of `entries` distinct keys leave its size as it is. -/
theorem addAll_of_bitsGivenEntries (chars : BitVec 64 → List (BitVec 8)) (func : HashFunction)
    {entries load : ℕ} (hload : 1 ≤ load) (hle : load ≤ 100)
    (hsmall : (entries + 1) * 100 < 2 ^ 31) :
    ∃ t : GenericTable β, init (hashtableBitsGivenEntries entries load) load func = some t ∧
      entries + 1 ≤ t.resizeThreshold ∧
      ∀ es : List (GenericEntry β), es.length = entries → (es.map GenericEntry.key).Nodup →
        ∀ fuel, 2 ^ 31 < fuel → ∃ t', addAll chars fuel t es =
          some (t', List.replicate entries false) ∧ t'.hashBits = t.hashBits := by
  obtain ⟨k, hk, hlt, -, hhigh⟩ := exists_bits hload hle hsmall
  have hroom := lt_thresholdOfSize hload hle hsmall
  -- a load of at most a hundred percent leaves a free slot
  have hslots : entries < 2 ^ hashtableBitsGivenEntries entries load := by
    rw [hk]
    have := Nat.mul_le_mul_left (2 ^ (k + 1)) hle
    omega
  have hinit : init (hashtableBitsGivenEntries entries load) load func =
      some (⟨func, _, load, 0, fun _ ↦ none⟩ : GenericTable β) :=
    init_eq_some_iff.2 ⟨by omega, by omega, rfl⟩
  refine ⟨_, hinit, hroom, fun es hlen hdistinct fuel hfuel ↦ ?_⟩
  obtain ⟨t', ht', hshape⟩ := (sound_init chars hinit).addAll hfuel (fun _ _ ↦ rfl) hdistinct
    (by simp only [Nat.zero_add, hlen]; exact Nat.le_of_succ_le hroom)
    (by simpa only [Nat.zero_add, hlen] using hslots)
  exact ⟨t', hlen ▸ ht', hshape.hashBits⟩

/-- Three entries at a load of eighty percent. -/
theorem addAll_of_bitsGivenEntries_three :
    ∃ t : GenericTable Unit, init (hashtableBitsGivenEntries 3 80) 80 .none = some t ∧
      3 + 1 ≤ t.resizeThreshold ∧
      ∀ es : List (GenericEntry Unit), es.length = 3 → (es.map GenericEntry.key).Nodup →
        ∀ fuel, 2 ^ 31 < fuel → ∃ t', addAll (fun _ ↦ []) fuel t es =
          some (t', List.replicate 3 false) ∧ t'.hashBits = t.hashBits :=
  addAll_of_bitsGivenEntries (fun _ ↦ []) .none (by decide) (by decide) (by decide)

end GenericTable

end DrAvx
