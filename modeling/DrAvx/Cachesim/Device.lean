import Mathlib.Data.List.Nodup
import Mathlib.Data.Nat.Bitwise

/-!
# One cache of the simulator

A cache has `blocksPerWay` sets of `associativity` blocks.  A block holds the tag of a line, or none
(`TAG_INVALID`, which no address has), and a counter for the replacement policy.  Besides, there may
be a table from tags to blocks, and the place of the line accessed last is remembered.

A block is given by its set and its way here, where the source has the index `set * associativity +
way`.  The tags and the counters of the blocks are two functions, so that what changes one of them
leaves the other.  Assertions of the source have no effect.

## What is here

* `Geometry`, `Config`: what `init` accepts, and the settings of a cache;
* the code: `find`, `accessUpdate`, `replaceWhichWay`, `invalidateBlock`, `updateTag`;
* `Device.Wf`: a line is in one block of its set, where the table and the search find it.
-/

set_option autoImplicit false

namespace DrAvx.Cachesim

/-! ## Settings -/

/-- The numbers `caching_device_t::init` accepts. -/
structure Geometry where
  associativity : ℕ
  blocksPerWay : ℕ
  blockSizeBits : ℕ
  associativity_pos : 0 < associativity
  exists_blocksPerWay : ∃ k, blocksPerWay = 2 ^ k
  two_le_blockSizeBits : 2 ≤ blockSizeBits
  blockSizeBits_lt : blockSizeBits < 31
  numBlocks_lt : associativity * blocksPerWay < 2 ^ 31

/-- `IS_POWER_OF_2`. -/
def isPowerOf2 (x : ℕ) : Bool := decide (x ≠ 0) && decide (x &&& (x - 1) = 0)

/-- `compute_log2`; `none` is `-1`. -/
def computeLog2 (value : ℕ) : Option ℕ := (List.range 31).find? fun i ↦ value == 1 <<< i

/-- The checks of `caching_device_t::init` on the numbers it is given. -/
def initAccepts (associativity blockSize numBlocks : ℤ) : Bool :=
  if associativity < 1 ∨ numBlocks < 1 then false
  else if isPowerOf2 blockSize.toNat = false ∨ blockSize < 4 then false
  else
    let blocksPerWay := numBlocks.toNat / associativity.toNat
    if blocksPerWay * associativity.toNat ≠ numBlocks.toNat then false
    else if computeLog2 blockSize.toNat = none ∨ isPowerOf2 blocksPerWay = false then false
    else true

theorem isPowerOf2_iff {x : ℕ} : isPowerOf2 x = true ↔ ∃ k, x = 2 ^ k := by
  rw [isPowerOf2, Bool.and_eq_true, decide_eq_true_iff, decide_eq_true_iff]
  constructor
  · rintro ⟨h₀, h⟩
    exact (Nat.and_sub_one_eq_zero_iff_isPowerOfTwo h₀).1 h
  · rintro ⟨k, rfl⟩
    have h₀ : 2 ^ k ≠ 0 := Nat.pos_iff_ne_zero.1 (Nat.two_pow_pos k)
    exact ⟨h₀, (Nat.and_sub_one_eq_zero_iff_isPowerOfTwo h₀).2 ⟨k, rfl⟩⟩

theorem computeLog2_isSome_iff {value : ℕ} :
    computeLog2 value ≠ none ↔ ∃ k < 31, value = 2 ^ k := by
  rw [computeLog2, Ne, List.find?_eq_none]
  push Not
  refine exists_congr fun k ↦ ?_
  rw [List.mem_range, beq_iff_eq, Nat.one_shiftLeft]

/-- The geometries are what `init` accepts. -/
theorem initAccepts_iff {associativity blockSize numBlocks : ℤ} :
    initAccepts associativity blockSize numBlocks = true ∧ numBlocks < 2 ^ 31 ↔ ∃ g : Geometry,
      (g.associativity : ℤ) = associativity ∧ (2 ^ g.blockSizeBits : ℕ) = blockSize ∧
      (g.associativity * g.blocksPerWay : ℕ) = numBlocks := by
  rw [initAccepts]
  constructor
  · rintro ⟨h, hblocks⟩
    dsimp only at h
    split_ifs at h with h₁ h₂ h₃ h₄
    rw [not_or] at h₁ h₂ h₄
    obtain ⟨k, hk, hvalue⟩ := computeLog2_isSome_iff.1 h₄.1
    have hpow := isPowerOf2_iff.1 (by simpa using h₄.2)
    have hmul : associativity.toNat * (numBlocks.toNat / associativity.toNat) = numBlocks.toNat := by
      rw [Nat.mul_comm]
      exact not_not.1 h₃
    refine ⟨⟨associativity.toNat, numBlocks.toNat / associativity.toNat, k, by omega, hpow, ?_, hk,
      by omega⟩, by dsimp only; omega, by dsimp only; omega, by dsimp only; omega⟩
    by_contra hlt
    obtain rfl | rfl : k = 0 ∨ k = 1 := by omega
    all_goals omega
  · rintro ⟨g, rfl, rfl, rfl⟩
    refine ⟨?_, by exact_mod_cast g.numBlocks_lt⟩
    have hassoc := g.associativity_pos
    have hsets : 0 < g.blocksPerWay := by
      obtain ⟨k, hk⟩ := g.exists_blocksPerWay
      rw [hk]
      exact Nat.two_pow_pos k
    have hblocks := Nat.mul_pos hassoc hsets
    have hfour : 2 ^ 2 ≤ 2 ^ g.blockSizeBits :=
      Nat.pow_le_pow_right (by decide) g.two_le_blockSizeBits
    have hdiv : g.associativity * g.blocksPerWay / g.associativity = g.blocksPerWay :=
      Nat.mul_div_cancel_left _ hassoc
    have hlog := computeLog2_isSome_iff.2 ⟨g.blockSizeBits, g.blockSizeBits_lt, rfl⟩
    have hpow₁ := isPowerOf2_iff.2 ⟨g.blockSizeBits, rfl⟩
    have hpow₂ := isPowerOf2_iff.2 g.exists_blocksPerWay
    have hblocks' : ((g.associativity * g.blocksPerWay : ℕ) : ℤ) ≥ 1 := by exact_mod_cast hblocks
    have hfour' : ((2 ^ g.blockSizeBits : ℕ) : ℤ) ≥ 4 := by exact_mod_cast hfour
    rw [Int.toNat_natCast, Int.toNat_natCast, Int.toNat_natCast,
      if_neg (by rw [not_or]; constructor <;> omega),
      if_neg (by rw [not_or, hpow₁]; exact ⟨by simp, Int.not_lt.2 hfour'⟩)]
    dsimp only
    rw [hdiv, if_neg (not_not.2 (Nat.mul_comm _ _)), if_neg (by simp [hlog, hpow₂])]

inductive Policy
  | lru
  | fifo
  | lfu
  deriving DecidableEq, Repr

/-- `cache_inclusion_policy_t`. -/
inductive InclusionPolicy
  | nonIncNonExc
  | inclusive
  | exclusive
  deriving DecidableEq, Repr

/-- A next-line prefetcher, with the block size it is created with. -/
structure Prefetcher where
  blockSize : ℕ
  blockSize_pos : 0 < blockSize
  blockSize_lt : blockSize < 2 ^ 31

/-- The settings of a cache. -/
structure Config extends Geometry where
  policy : Policy
  inclusionPolicy : InclusionPolicy
  coherentCache : Bool
  prefetcher : Option Prefetcher
  useTag2blockTable : Bool

namespace Config

variable (g : Config)

def isInclusive : Bool := g.inclusionPolicy == .inclusive

def isExclusive : Bool := g.inclusionPolicy == .exclusive

def computeTag (addr : ℕ) : ℕ := addr >>> g.blockSizeBits

/-- `compute_block_idx`, without the factor `associativity_`. -/
def computeSet (tag : ℕ) : ℕ := tag &&& (g.blocksPerWay - 1)

theorem not_isInclusive {g : Config} (h : g.isExclusive = true) : ¬g.isInclusive = true := by
  rw [isExclusive, beq_iff_eq] at h
  rw [isInclusive, h]
  decide

end Config

/-! ## The state of a cache -/

/-- `caching_device_t`; `none` stands for `TAG_INVALID`. -/
structure Device where
  tag : ℕ → ℕ → Option ℕ
  counter : ℕ → ℕ → ℕ
  tag2block : ℕ → Option (ℕ × ℕ)
  loadedBlocks : ℤ
  lastTag : Option ℕ
  lastWay : ℕ
  lastSet : ℕ

/-- A field of one block is changed. -/
def setAt {α : Type} (f : ℕ → ℕ → α) (set way : ℕ) (v : α) : ℕ → ℕ → α :=
  fun s w ↦ if s = set ∧ w = way then v else f s w

@[simp]
theorem setAt_self {α : Type} (f : ℕ → ℕ → α) (set way : ℕ) (v : α) :
    setAt f set way v set way = v :=
  if_pos ⟨rfl, rfl⟩

theorem setAt_of_ne {α : Type} (f : ℕ → ℕ → α) {set way s w : ℕ} (v : α)
    (h : ¬(s = set ∧ w = way)) : setAt f set way v s w = f s w :=
  if_neg h

namespace Device

variable (g : Config)

/-- The counters after `init`. -/
def initCounter : Policy → ℕ → ℕ
  | .lru, way => way
  | .fifo, way => if way = 0 then 1 else 0
  | .lfu, _ => 0

def init : Device where
  tag _ _ := none
  counter _ way := initCounter g.policy way
  tag2block _ := none
  loadedBlocks := 0
  lastTag := none
  lastWay := 0
  lastSet := 0

/-- The search for a line in its set. -/
def findInSet (d : Device) (tag : ℕ) : Option (ℕ × ℕ) :=
  ((List.range g.associativity).find? fun way ↦ d.tag (g.computeSet tag) way == some tag).map
    fun way ↦ (g.computeSet tag, way)

/-- `find_caching_device_block`. -/
def find (d : Device) (tag : ℕ) : Option (ℕ × ℕ) :=
  if g.useTag2blockTable then d.tag2block tag else d.findInSet g tag

/-- `access_update`. -/
def accessUpdate (set way : ℕ) (d : Device) : Device :=
  match g.policy with
  | .lru =>
    let cnt := d.counter set way
    if cnt = 0 then d
    else { d with
      counter := fun s i ↦
        if s ≠ set ∨ g.associativity ≤ i then d.counter s i
        else if i = way then 0
        else if d.counter s i ≤ cnt then d.counter s i + 1
        else d.counter s i }
  | .fifo => d
  | .lfu => { d with counter := setAt d.counter set way (d.counter set way + 1) }

/-- The loop of `cache_lru_t::get_next_way_to_replace` over the ways that are left. -/
def lruWay (d : Device) (set : ℕ) : List ℕ → ℕ → ℕ → ℕ
  | [], _, maxWay => maxWay
  | way :: ways, maxCounter, maxWay =>
    if d.tag set way = none then way
    else if maxCounter < d.counter set way then lruWay d set ways (d.counter set way) way
    else lruWay d set ways maxCounter maxWay

/-- The loop of `caching_device_t::get_next_way_to_replace`. -/
def lfuWay (d : Device) (set : ℕ) : List ℕ → ℕ → ℕ → ℕ
  | [], _, minWay => minWay
  | way :: ways, minCounter, minWay =>
    if d.tag set way = none then way
    else if way = 0 ∨ d.counter set way < minCounter then lfuWay d set ways (d.counter set way) way
    else lfuWay d set ways minCounter minWay

/-- `get_next_way_to_replace`. -/
def getNextWayToReplace (d : Device) (set : ℕ) : ℕ :=
  match g.policy with
  | .lru => lruWay d set (List.range g.associativity) 0 0
  | .fifo => ((List.range g.associativity).find? fun i ↦ d.counter set i == 1).getD 0
  | .lfu => lfuWay d set (List.range g.associativity) 0 0

/-- What `replace_which_way` does besides returning the way. -/
def markReplaced (set way : ℕ) (d : Device) : Device :=
  match g.policy with
  | .lru => d
  | .fifo =>
    { d with
      counter := setAt (setAt d.counter set way 0) set ((way + 1) &&& (g.associativity - 1)) 1 }
  | .lfu => { d with counter := setAt d.counter set way 0 }

/-- `invalidate_caching_device_block`. -/
def invalidateBlock (set way : ℕ) (d : Device) : Device :=
  { d with
    tag := setAt d.tag set way none
    tag2block :=
      if g.useTag2blockTable then fun t ↦ if d.tag set way = some t then none else d.tag2block t
      else d.tag2block }

/-- `update_tag`. -/
def updateTag (set way newTag : ℕ) (d : Device) : Device :=
  { d with
    tag := setAt d.tag set way (some newTag)
    tag2block :=
      if g.useTag2blockTable then
        fun t ↦ if t = newTag then some (set, way)
          else if d.tag set way = some t then none else d.tag2block t
      else d.tag2block }

/-- What `invalidate` does with the block in which it has found the line. -/
def drop (tag set way : ℕ) (d : Device) : Device :=
  { invalidateBlock g set way d with
    loadedBlocks := d.loadedBlocks - 1
    lastTag := if d.lastTag = some tag then none else d.lastTag }

/-- There is no invalid way in the set. -/
def full (d : Device) (set : ℕ) : Bool :=
  (List.range g.associativity).all fun way ↦ (d.tag set way).isSome

end Device

/-! ## The contents of a cache -/

/-- A line is in one block, in its set, and the table is right. -/
structure Device.Wf (g : Config) (d : Device) : Prop where
  set_eq : ∀ {s w t}, d.tag s w = some t → s = g.computeSet t
  way_lt : ∀ {s w t}, d.tag s w = some t → w < g.associativity
  unique : ∀ {s w w' t}, d.tag s w = some t → d.tag s w' = some t → w = w'
  table : g.useTag2blockTable = true → ∀ {t s w}, d.tag2block t = some (s, w) ↔ d.tag s w = some t

namespace Device

variable {g : Config} {d : Device} {set way tag s w t : ℕ}

theorem find_of_table (hg : g.useTag2blockTable = true) : d.find g tag = d.tag2block tag :=
  if_pos hg

theorem find_of_not_table (hg : g.useTag2blockTable = false) : d.find g tag = d.findInSet g tag :=
  if_neg (by simp [hg])

theorem findInSet_eq_some (h : d.findInSet g tag = some (s, w)) :
    s = g.computeSet tag ∧ w < g.associativity ∧ d.tag s w = some tag := by
  rw [findInSet, Option.map_eq_some_iff] at h
  obtain ⟨way, hfind, heq⟩ := h
  obtain ⟨rfl, rfl⟩ := Prod.mk.inj heq
  have hmem := List.mem_range.1 (List.mem_of_find?_eq_some hfind)
  have htag := List.find?_some hfind
  rw [beq_iff_eq] at htag
  exact ⟨rfl, hmem, htag⟩

theorem findInSet_eq_none_iff : d.findInSet g tag = none ↔
    ∀ way < g.associativity, d.tag (g.computeSet tag) way ≠ some tag := by
  rw [findInSet, Option.map_eq_none_iff, List.find?_eq_none]
  simp only [List.mem_range, beq_iff_eq, Ne]

theorem Wf.eq_of_tag (h : d.Wf g) {s' w' : ℕ} (h₁ : d.tag s w = some t)
    (h₂ : d.tag s' w' = some t) : s' = s ∧ w' = w := by
  obtain rfl := (h.set_eq h₂).trans (h.set_eq h₁).symm
  exact ⟨rfl, h.unique h₂ h₁⟩

theorem Wf.findInSet_eq_some_iff (h : d.Wf g) :
    d.findInSet g tag = some (s, w) ↔ d.tag s w = some tag := by
  refine ⟨fun hfind ↦ (findInSet_eq_some hfind).2.2, fun htag ↦ ?_⟩
  cases hfind : d.findInSet g tag with
  | none =>
    have hno := findInSet_eq_none_iff.1 hfind w (h.way_lt htag)
    rw [← h.set_eq htag] at hno
    exact absurd htag hno
  | some r =>
    obtain ⟨s', w'⟩ := r
    obtain ⟨rfl, rfl⟩ := h.eq_of_tag htag (findInSet_eq_some hfind).2.2
    rfl

/-- A line is found where it is, through the table as well as by the search. -/
theorem Wf.find_eq_some_iff (h : d.Wf g) : d.find g tag = some (s, w) ↔ d.tag s w = some tag := by
  rw [find]
  split_ifs with htable
  · exact h.table htable
  · exact h.findInSet_eq_some_iff

theorem Wf.find_eq_findInSet (h : d.Wf g) (tag : ℕ) : d.find g tag = d.findInSet g tag := by
  refine Option.ext fun r ↦ ?_
  obtain ⟨s, w⟩ := r
  rw [h.find_eq_some_iff, h.findInSet_eq_some_iff]

theorem Wf.find_eq_none_iff (h : d.Wf g) : d.find g tag = none ↔ ∀ s w, d.tag s w ≠ some tag := by
  rw [Option.eq_none_iff_forall_ne_some]
  constructor
  · intro hno s w htag
    exact hno (s, w) (h.find_eq_some_iff.2 htag)
  · rintro hno ⟨s, w⟩ hfind
    exact hno s w (h.find_eq_some_iff.1 hfind)

theorem wf_init (g : Config) : (init g).Wf g where
  set_eq h := absurd h (by simp [init])
  way_lt h := absurd h (by simp [init])
  unique h := absurd h (by simp [init])
  table _ := by simp [init]

/-- The contents are those of the tags and the table. -/
theorem Wf.congr {d' : Device} (h : d.Wf g) (htag : d'.tag = d.tag)
    (htable : d'.tag2block = d.tag2block) : d'.Wf g := by
  refine ⟨?_, ?_, ?_, ?_⟩
  · rw [htag]
    exact h.set_eq
  · rw [htag]
    exact h.way_lt
  · rw [htag]
    exact h.unique
  · rw [htag, htable]
    exact h.table

/-- A line is somewhere after the invalidation of a block exactly if it was in another one. -/
theorem tag_invalidateBlock_iff : (invalidateBlock g set way d).tag s w = some t ↔
    ¬(s = set ∧ w = way) ∧ d.tag s w = some t := by
  show setAt d.tag set way none s w = some t ↔ _
  by_cases h : s = set ∧ w = way
  · rw [h.1, h.2, setAt_self]
    simp
  · rw [setAt_of_ne _ _ h]
    exact (and_iff_right h).symm

theorem tag_drop_iff {set way : ℕ} : (drop g tag set way d).tag s w = some t ↔
    ¬(s = set ∧ w = way) ∧ d.tag s w = some t := by
  rw [← tag_invalidateBlock_iff (g := g)]
  rfl

theorem tag_updateTag_iff : (updateTag g set way tag d).tag s w = some t ↔
    (s = set ∧ w = way ∧ t = tag) ∨ (¬(s = set ∧ w = way) ∧ d.tag s w = some t) := by
  show setAt d.tag set way (some tag) s w = some t ↔ _
  by_cases h : s = set ∧ w = way
  · rw [h.1, h.2, setAt_self, Option.some_inj]
    simp [eq_comm]
  · rw [setAt_of_ne _ _ h]
    simp only [h, not_false_eq_true, true_and, ← and_assoc, false_and, false_or]

theorem Wf.invalidateBlock (h : d.Wf g) (set way : ℕ) : (d.invalidateBlock g set way).Wf g where
  set_eq htag := h.set_eq (tag_invalidateBlock_iff.1 htag).2
  way_lt htag := h.way_lt (tag_invalidateBlock_iff.1 htag).2
  unique h₁ h₂ := h.unique (tag_invalidateBlock_iff.1 h₁).2 (tag_invalidateBlock_iff.1 h₂).2
  table htable := by
    intro t s w
    rw [tag_invalidateBlock_iff, Device.invalidateBlock]
    simp only [htable, if_true]
    split_ifs with ht
    · refine ⟨fun hno ↦ absurd hno (by simp), fun ⟨hne, htag⟩ ↦ absurd (h.eq_of_tag ht htag) hne⟩
    · rw [h.table htable]
      refine ⟨fun htag ↦ ⟨?_, htag⟩, And.right⟩
      rintro ⟨rfl, rfl⟩
      exact ht htag

theorem Wf.updateTag (h : d.Wf g) (hfresh : d.find g tag = none) (hset : set = g.computeSet tag)
    (hway : way < g.associativity) : (d.updateTag g set way tag).Wf g := by
  have hno := h.find_eq_none_iff.1 hfresh
  refine ⟨fun htag ↦ ?_, fun htag ↦ ?_, fun h₁ h₂ ↦ ?_, fun htable {t s w} ↦ ?_⟩
  · rcases tag_updateTag_iff.1 htag with ⟨rfl, -, rfl⟩ | ⟨-, htag⟩
    · exact hset
    · exact h.set_eq htag
  · rcases tag_updateTag_iff.1 htag with ⟨-, rfl, -⟩ | ⟨-, htag⟩
    · exact hway
    · exact h.way_lt htag
  · rcases tag_updateTag_iff.1 h₁ with ⟨-, rfl, rfl⟩ | ⟨-, h₁'⟩
    · rcases tag_updateTag_iff.1 h₂ with ⟨-, rfl, -⟩ | ⟨-, h₂'⟩
      · rfl
      · exact absurd h₂' (hno _ _)
    · rcases tag_updateTag_iff.1 h₂ with ⟨-, -, rfl⟩ | ⟨-, h₂'⟩
      · exact absurd h₁' (hno _ _)
      · exact h.unique h₁' h₂'
  · rw [tag_updateTag_iff, Device.updateTag]
    simp only [htable, if_true]
    split_ifs with ht hold
    · subst ht
      constructor
      · intro heq
        obtain ⟨rfl, rfl⟩ := Prod.mk.inj (Option.some.inj heq)
        exact .inl ⟨rfl, rfl, rfl⟩
      · rintro (⟨rfl, rfl, -⟩ | ⟨-, htag⟩)
        · rfl
        · exact absurd htag (hno s w)
    · constructor
      · intro heq
        exact absurd heq (by simp)
      · rintro (⟨-, -, rfl⟩ | ⟨hne, htag⟩)
        · exact absurd rfl ht
        · exact absurd (h.eq_of_tag hold htag) hne
    · rw [h.table htable]
      constructor
      · intro htag
        refine .inr ⟨?_, htag⟩
        rintro ⟨rfl, rfl⟩
        exact hold htag
      · rintro (⟨-, -, rfl⟩ | ⟨-, htag⟩)
        · exact absurd rfl ht
        · exact htag

/-! ## What leaves the contents -/

/-- `access_update` changes counters only. -/
theorem accessUpdate_eq (set way : ℕ) : accessUpdate g set way d =
    { d with counter := (accessUpdate g set way d).counter } := by
  rw [accessUpdate]
  split
  · dsimp only
    split_ifs <;> rfl
  · rfl
  · rfl

/-- `replace_which_way` changes counters only. -/
theorem markReplaced_eq (set way : ℕ) : markReplaced g set way d =
    { d with counter := (markReplaced g set way d).counter } := by
  rw [markReplaced]
  split <;> rfl

/-! ## The way to replace -/

theorem lruWay_lt {ways : List ℕ} {maxCounter maxWay : ℕ} (hways : ∀ x ∈ ways, x < g.associativity)
    (hmax : maxWay < g.associativity) : lruWay d set ways maxCounter maxWay < g.associativity := by
  induction ways generalizing maxCounter maxWay with
  | nil => exact hmax
  | cons x ways ih =>
    have hx := hways x List.mem_cons_self
    have hrest := fun y hy ↦ hways y (List.mem_cons_of_mem x hy)
    rw [lruWay]
    split_ifs
    · exact hx
    · exact ih hrest hx
    · exact ih hrest hmax

theorem lfuWay_lt {ways : List ℕ} {minCounter minWay : ℕ} (hways : ∀ x ∈ ways, x < g.associativity)
    (hmin : minWay < g.associativity) : lfuWay d set ways minCounter minWay < g.associativity := by
  induction ways generalizing minCounter minWay with
  | nil => exact hmin
  | cons x ways ih =>
    have hx := hways x List.mem_cons_self
    have hrest := fun y hy ↦ hways y (List.mem_cons_of_mem x hy)
    rw [lfuWay]
    split_ifs
    · exact hx
    · exact ih hrest hx
    · exact ih hrest hmin

theorem getNextWayToReplace_lt (g : Config) (d : Device) (set : ℕ) :
    d.getNextWayToReplace g set < g.associativity := by
  have hrange : ∀ x ∈ List.range g.associativity, x < g.associativity :=
    fun x hx ↦ List.mem_range.1 hx
  rw [getNextWayToReplace]
  split
  · exact lruWay_lt hrange g.associativity_pos
  · cases hfind : (List.range g.associativity).find? fun i ↦ d.counter set i == 1 with
    | none => exact g.associativity_pos
    | some i => exact hrange i (List.mem_of_find?_eq_some hfind)
  · exact lfuWay_lt hrange g.associativity_pos

end Device

end DrAvx.Cachesim
