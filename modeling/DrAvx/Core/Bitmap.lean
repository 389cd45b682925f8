import Mathlib.Algebra.Group.Nat.Defs
import Mathlib.Data.Nat.Find
import Mathlib.Data.Set.Insert
import Mathlib.Tactic.Set

/-!
# The block bitmap of the virtual memory manager

`vmm_heap_reserve_blocks` takes its blocks from a bitmap in which a set bit is a free block.  The
search for a run of free blocks finds the first free block of all, then measures the hole that
starts there, then moves on to the next free block, and so forth.  Only the move is bounded by the
size of the bitmap: the first hole is measured without a bound, bit by bit, and may be found to be
large enough thanks to the memory after the bitmap.

The bitmap is modelled as the words of the memory from its start on, so that what lies after it is
a part of the state.  `Overruns` is the situation in which the first hole is found beyond the end,
and `Run.allocates_iff` shows that an allocation does what it should exactly outside it.
-/

set_option autoImplicit false

namespace DrAvx

/-- The memory from the first word of a bitmap on. -/
abbrev Bitmap := ℕ → BitVec 32

/-- `BITMAP_NOT_FOUND`, the `uint` of value `-1`. -/
def bitmapNotFound : ℕ := 2 ^ 32 - 1

/-- `BITMAP_MASK`. -/
def bitmapMask (i : ℕ) : BitVec 32 := 1#32 <<< (i % 32)

def bitmapTest (b : Bitmap) (i : ℕ) : Bool :=
  b (i / 32) &&& bitmapMask i != 0

def bitmapSet (b : Bitmap) (i : ℕ) : Bitmap :=
  Function.update b (i / 32) (b (i / 32) ||| bitmapMask i)

def bitmapClear (b : Bitmap) (i : ℕ) : Bitmap :=
  Function.update b (i / 32) (b (i / 32) &&& ~~~bitmapMask i)

/-- One of the five steps of `bitmap_find_first_set_bit`: where the low `k` bits are clear, they
are shifted out and counted. -/
def findFirstSetBitStep (k : ℕ) (s : BitVec 32 × ℕ) : BitVec 32 × ℕ :=
  if s.1 &&& BitVec.ofNat 32 (2 ^ k - 1) = 0 then (s.1 >>> k, s.2 + k) else s

/-- The position of the first set bit of a word that is not zero. -/
def bitmapFindFirstSetBit (x : BitVec 32) : ℕ :=
  (findFirstSetBitStep 1 <| findFirstSetBitStep 2 <| findFirstSetBitStep 4 <|
    findFirstSetBitStep 8 <| findFirstSetBitStep 16 (x, 0)).2

/-- The loop of `bitmap_find_set_block`: the first word from `i` on that is not zero, or
`lastIndex`. -/
def findSetWord (b : Bitmap) (lastIndex i : ℕ) : ℕ :=
  if b i = 0 ∧ i < lastIndex then findSetWord b lastIndex (i + 1) else i
termination_by lastIndex - i

def bitmapFindSetBlock (b : Bitmap) (bitmapSize : ℕ) : ℕ :=
  let lastIndex := bitmapSize / 32
  let i := findSetWord b lastIndex 0
  if i = lastIndex then bitmapNotFound else i * 32 + bitmapFindFirstSetBit (b i)

/-- The inner loop of the search: how many bits from `first` on are set, `holeSize` of them being
known, up to `requested`. -/
def measureHole (b : Bitmap) (first requested holeSize : ℕ) : ℕ :=
  if holeSize < requested ∧ bitmapTest b ((first + holeSize) % 2 ^ 32) = true then
    measureHole b first requested (holeSize + 1)
  else holeSize
termination_by requested - holeSize

/-- The first set bit from `first` on, or `lastBit`. -/
def skipUsed (b : Bitmap) (lastBit first : ℕ) : ℕ :=
  if first < lastBit ∧ bitmapTest b first = false then skipUsed b lastBit (first + 1) else first
termination_by lastBit - first

/-- The outer loop of `bitmap_find_set_block_sequence`, for at most `fuel` rounds. -/
def findSequenceLoop (b : Bitmap) (requested lastBit : ℕ) : ℕ → ℕ → Option ℕ
  | 0, _ => none
  | fuel + 1, first =>
    let holeSize := measureHole b first requested 1
    if holeSize = requested then some first
    else
      let first := skipUsed b lastBit ((first + (holeSize + 1)) % 2 ^ 32)
      if first < lastBit then findSequenceLoop b requested lastBit fuel first
      else some bitmapNotFound

/-- `none` stands for a search that does not come to an end. -/
def bitmapFindSetBlockSequence (b : Bitmap) (bitmapSize requested : ℕ) : Option ℕ :=
  let lastBit := bitmapSize - requested + 1
  let first := bitmapFindSetBlock b bitmapSize
  if first = bitmapNotFound then some bitmapNotFound
  else findSequenceLoop b requested lastBit (bitmapSize + 1) first

/-- Applies `f` at `n` successive positions from `i` on. -/
def forBlocks (f : Bitmap → ℕ → Bitmap) : ℕ → Bitmap → ℕ → Bitmap
  | 0, b, _ => b
  | n + 1, b, i => forBlocks f n (f b i) ((i + 1) % 2 ^ 32)

/-- The number of rounds of a loop `do … while (--n)` on a `uint`. -/
def doWhileRounds (n : ℕ) : ℕ := if n = 0 then 2 ^ 32 else n

/-- The search of an allocation that does not ask for a start block. -/
def findBlocks (b : Bitmap) (bitmapSize requestBlocks : ℕ) : Option ℕ :=
  if requestBlocks = 1 then some (bitmapFindSetBlock b bitmapSize)
  else bitmapFindSetBlockSequence b bitmapSize requestBlocks

/-- The block found, or `bitmapNotFound`, and the bitmap after the call. -/
def bitmapAllocateBlocks (b : Bitmap) (bitmapSize requestBlocks startBlock : ℕ) :
    Option (ℕ × Bitmap) :=
  let found : Option ℕ :=
    if startBlock ≠ 2 ^ 32 - 1 then
      if bitmapSize < (startBlock + requestBlocks) % 2 ^ 32 then some bitmapNotFound
      else if measureHole b startBlock requestBlocks 0 = requestBlocks then some startBlock
      else some bitmapNotFound
    else findBlocks b bitmapSize requestBlocks
  found.map fun res ↦
    if res = bitmapNotFound then (bitmapNotFound, b)
    else (res, forBlocks bitmapClear (doWhileRounds requestBlocks) b res)

def bitmapFreeBlocks (b : Bitmap) (firstBlock numFree : ℕ) : Bitmap :=
  forBlocks bitmapSet (doWhileRounds numFree) b firstBlock

/-! ## Single bits -/

theorem bitmapTest_eq (b : Bitmap) (i : ℕ) :
    bitmapTest b i = (b (i / 32)).getLsbD (i % 32) := by
  have hi : i % 32 < 32 := Nat.mod_lt _ (by omega)
  rw [bitmapTest, bitmapMask, ← BitVec.twoPow_eq, BitVec.and_twoPow]
  cases h : (b (i / 32)).getLsbD (i % 32) with
  | false => simp
  | true =>
    have hne : BitVec.twoPow 32 (i % 32) ≠ 0#32 := by
      intro h0
      have := congrArg (·.getLsbD (i % 32)) h0
      simp [hi] at this
    simpa using hne

theorem getLsbD_bitmapMask (i k : ℕ) :
    (bitmapMask i).getLsbD k = decide (i % 32 = k) := by
  have hi : i % 32 < 32 := Nat.mod_lt _ (by omega)
  rw [bitmapMask, ← BitVec.twoPow_eq, BitVec.getLsbD_twoPow, decide_eq_true hi, Bool.true_and]

theorem bitmapTest_set (b : Bitmap) (j i : ℕ) :
    bitmapTest (bitmapSet b j) i = (bitmapTest b i || decide (i = j)) := by
  have hi : i % 32 < 32 := Nat.mod_lt _ (by omega)
  rw [bitmapTest_eq, bitmapTest_eq, bitmapSet]
  by_cases hword : i / 32 = j / 32
  · rw [hword, Function.update_self, BitVec.getLsbD_or, getLsbD_bitmapMask]
    congr 2
    exact propext ⟨by omega, by rintro rfl; rfl⟩
  · have hij : i ≠ j := fun h ↦ hword (by rw [h])
    simp [Function.update_of_ne hword, hij]

theorem bitmapTest_clear (b : Bitmap) (j i : ℕ) :
    bitmapTest (bitmapClear b j) i = (bitmapTest b i && !decide (i = j)) := by
  have hi : i % 32 < 32 := Nat.mod_lt _ (by omega)
  rw [bitmapTest_eq, bitmapTest_eq, bitmapClear]
  by_cases hword : i / 32 = j / 32
  · rw [hword, Function.update_self, BitVec.getLsbD_and, BitVec.getLsbD_not,
      getLsbD_bitmapMask, decide_eq_true hi, Bool.true_and]
    congr 3
    exact propext ⟨by omega, by rintro rfl; rfl⟩
  · have hij : i ≠ j := fun h ↦ hword (by rw [h])
    simp [Function.update_of_ne hword, hij]

variable {b : Bitmap}

/-- A loop over `n` blocks acts on the blocks from `i` on, as long as the counter does not wrap. -/
theorem bitmapTest_forBlocks {f : Bitmap → ℕ → Bitmap} (op : Bool → Bool → Bool)
    (hf : ∀ b j i, bitmapTest (f b j) i = op (bitmapTest b i) (decide (i = j)))
    (hop : ∀ x y z, op (op x y) z = op x (y || z)) (hid : ∀ x, op x false = x)
    {n : ℕ} {first : ℕ} (hn : first + n ≤ 2 ^ 32) (i : ℕ) :
    bitmapTest (forBlocks f n b first) i =
      op (bitmapTest b i) (decide (first ≤ i ∧ i < first + n)) := by
  induction n generalizing b first with
  | zero =>
    rw [forBlocks, decide_eq_false (by omega), hid]
  | succ n ih =>
    -- the counter may wrap in the last round, and is not used any more then
    have hwrap : n = 0 ∨ (first + 1) % 2 ^ 32 = first + 1 := by omega
    rw [forBlocks, ih (by omega), hf, hop, ← Bool.decide_or]
    congr 2
    exact propext (by omega)

/-! ## The first free block -/

/-- The lowest set bit of `x` is at `p`. -/
def Lowest (x : BitVec 32) (p : ℕ) : Prop :=
  x.getLsbD p = true ∧ ∀ j < p, x.getLsbD j = false

theorem exists_lowest {x : BitVec 32} (hx : x ≠ 0) : ∃ p < 32, Lowest x p := by
  have hex : ∃ p, x.getLsbD p = true := by
    by_contra hn
    refine hx (BitVec.eq_of_getLsbD_eq fun i _ ↦ ?_)
    simpa using not_exists.1 hn i
  refine ⟨Nat.find hex, ?_, Nat.find_spec hex, fun j hj ↦ ?_⟩
  · exact BitVec.lt_of_getLsbD (Nat.find_spec hex)
  · exact Bool.eq_false_iff.2 (Nat.find_min hex hj)

/-- A step halves the range the lowest bit is known to be in, and counts what it shifts out. -/
theorem Lowest.step {k p : ℕ} {s : BitVec 32 × ℕ} (h : Lowest s.1 p) (hp : p < 2 * k) :
    ∃ p' < k, Lowest (findFirstSetBitStep k s).1 p' ∧
      (findFirstSetBitStep k s).2 + p' = s.2 + p := by
  have hmask : ∀ i < 32, (BitVec.ofNat 32 (2 ^ k - 1)).getLsbD i = decide (i < k) := by
    intro i hi
    rw [BitVec.getLsbD_ofNat, Nat.testBit_two_pow_sub_one]
    simp [hi]
  have hp32 : p < 32 := BitVec.lt_of_getLsbD h.1
  rw [findFirstSetBitStep]
  by_cases hpk : p < k
  · rw [if_neg]
    · exact ⟨p, hpk, h, rfl⟩
    · intro h0
      have := congrArg (·.getLsbD p) h0
      simp [hmask p hp32, h.1, hpk] at this
  · rw [if_pos]
    · refine ⟨p - k, by omega, ⟨?_, fun j hj ↦ ?_⟩, by dsimp only; omega⟩
      · rw [BitVec.getLsbD_ushiftRight, Nat.add_sub_cancel' (by omega)]
        exact h.1
      · rw [BitVec.getLsbD_ushiftRight]
        exact h.2 _ (by omega)
    · refine BitVec.eq_of_getLsbD_eq fun i hi ↦ ?_
      rw [BitVec.getLsbD_and, hmask i hi]
      by_cases hik : i < k
      · simp [h.2 i (by omega)]
      · simp [hik]

theorem lowest_bitmapFindFirstSetBit {x : BitVec 32} (hx : x ≠ 0) :
    bitmapFindFirstSetBit x < 32 ∧ Lowest x (bitmapFindFirstSetBit x) := by
  obtain ⟨p, hp, h⟩ := exists_lowest hx
  obtain ⟨p₁, hp₁, h₁, e₁⟩ := Lowest.step (k := 16) (s := (x, 0)) h hp
  obtain ⟨p₂, hp₂, h₂, e₂⟩ := h₁.step (k := 8) hp₁
  obtain ⟨p₃, hp₃, h₃, e₃⟩ := h₂.step (k := 4) hp₂
  obtain ⟨p₄, hp₄, h₄, e₄⟩ := h₃.step (k := 2) hp₃
  obtain ⟨p₅, hp₅, -, e₅⟩ := h₄.step (k := 1) hp₄
  have hres : bitmapFindFirstSetBit x = p := by
    rw [bitmapFindFirstSetBit]
    simp only at e₁
    omega
  rw [hres]
  exact ⟨hp, h⟩

theorem findSetWord_spec (b : Bitmap) {lastIndex i : ℕ} (hi : i ≤ lastIndex) :
    (∀ j, i ≤ j → j < findSetWord b lastIndex i → b j = 0) ∧
      findSetWord b lastIndex i ≤ lastIndex ∧
      (findSetWord b lastIndex i < lastIndex → b (findSetWord b lastIndex i) ≠ 0) := by
  fun_induction findSetWord b lastIndex i with
  | case1 i hcond ih =>
    obtain ⟨hzero, hle, hne⟩ := ih hcond.2
    refine ⟨fun j hij hj ↦ ?_, hle, hne⟩
    rcases Nat.eq_or_lt_of_le hij with rfl | hlt
    · exact hcond.1
    · exact hzero j hlt hj
  | case2 i hcond => exact ⟨by omega, hi, fun hlt h0 ↦ hcond ⟨h0, hlt⟩⟩

/-- No block below `f` is free. -/
def NoneBelow (b : Bitmap) (f : ℕ) : Prop :=
  ∀ j < f, bitmapTest b j = false

/-- The search for one block finds the first free one. -/
theorem bitmapFindSetBlock_spec (b : Bitmap) {size : ℕ} (hsize : 32 ∣ size)
    (hlt : size < 2 ^ 32) :
    (bitmapFindSetBlock b size = bitmapNotFound ∧ NoneBelow b size) ∨
      (bitmapFindSetBlock b size < size ∧ bitmapTest b (bitmapFindSetBlock b size) = true ∧
        NoneBelow b (bitmapFindSetBlock b size)) := by
  obtain ⟨w, rfl⟩ := hsize
  obtain ⟨hzero, hle, hne⟩ := findSetWord_spec b (Nat.zero_le (32 * w / 32))
  rw [bitmapFindSetBlock]
  set i := findSetWord b (32 * w / 32) 0
  by_cases hi : i = 32 * w / 32
  · refine .inl ⟨if_pos hi, fun j hj ↦ ?_⟩
    rw [bitmapTest_eq, hzero _ (Nat.zero_le _) (by omega)]
    exact BitVec.getLsbD_zero
  · obtain ⟨hp, hlow⟩ := lowest_bitmapFindFirstSetBit (hne (by omega))
    rw [if_neg hi]
    set p := bitmapFindFirstSetBit (b i)
    have hdiv : (i * 32 + p) / 32 = i := by omega
    refine .inr ⟨by omega, ?_, fun j hj ↦ ?_⟩
    · rw [bitmapTest_eq, hdiv, show (i * 32 + p) % 32 = p by omega]
      exact hlow.1
    · rw [bitmapTest_eq]
      by_cases hji : j / 32 = i
      · rw [hji]
        exact hlow.2 _ (by omega)
      · rw [hzero _ (Nat.zero_le _) (by omega)]
        exact BitVec.getLsbD_zero

/-! ## The search for a run -/

/-- The `n` blocks from `s` on are free. -/
def FreeRun (b : Bitmap) (s n : ℕ) : Prop :=
  ∀ k < n, bitmapTest b (s + k) = true

theorem NoneBelow.not_freeRun {f s n : ℕ} (h : NoneBelow b f) (hs : s < f)
    (hn : 0 < n) : ¬FreeRun b s n := by
  intro hrun
  have := hrun 0 hn
  rw [Nat.add_zero, h s hs] at this
  exact Bool.false_ne_true this

theorem measureHole_spec (b : Bitmap) (first : ℕ) {requested hole : ℕ} (hle : hole ≤ requested) :
    hole ≤ measureHole b first requested hole ∧
      measureHole b first requested hole ≤ requested ∧
      (∀ k, hole ≤ k → k < measureHole b first requested hole →
        bitmapTest b ((first + k) % 2 ^ 32) = true) ∧
      (measureHole b first requested hole < requested →
        bitmapTest b ((first + measureHole b first requested hole) % 2 ^ 32) = false) := by
  fun_induction measureHole b first requested hole with
  | case1 hole hcond ih =>
    obtain ⟨hlow, hhigh, hset, hclear⟩ := ih (by omega)
    refine ⟨by omega, hhigh, fun k hk hlt ↦ ?_, hclear⟩
    rcases Nat.eq_or_lt_of_le hk with rfl | hk
    · exact hcond.2
    · exact hset k hk hlt
  | case2 hole hcond =>
    refine ⟨le_rfl, hle, by omega, fun hlt ↦ ?_⟩
    exact Bool.eq_false_iff.2 fun h ↦ hcond ⟨hlt, h⟩

theorem skipUsed_spec (b : Bitmap) (lastBit first : ℕ) :
    first ≤ skipUsed b lastBit first ∧
      (∀ j, first ≤ j → j < skipUsed b lastBit first → bitmapTest b j = false) ∧
      (skipUsed b lastBit first < lastBit →
        bitmapTest b (skipUsed b lastBit first) = true) := by
  fun_induction skipUsed b lastBit first with
  | case1 first hcond ih =>
    obtain ⟨hlow, hused, hfree⟩ := ih
    refine ⟨by omega, fun j hj hlt ↦ ?_, hfree⟩
    rcases Nat.eq_or_lt_of_le hj with rfl | hj
    · exact hcond.2
    · exact hused j hj hlt
  | case2 first hcond =>
    refine ⟨le_rfl, by omega, fun hlt ↦ ?_⟩
    exact Bool.eq_true_of_not_eq_false fun h ↦ hcond ⟨hlt, h⟩

/-- The block `res` is the answer to a search for `n` blocks: the start of the first run of that
many free blocks below `size`, or `bitmapNotFound` if there is none. -/
def Answers (b : Bitmap) (size n res : ℕ) : Prop :=
  (res + n ≤ size ∧ FreeRun b res n ∧ ∀ s < res, ¬FreeRun b s n) ∨
    (res = bitmapNotFound ∧ ∀ s, s + n ≤ size → ¬FreeRun b s n)

variable {size n : ℕ}

/-- From a free block that starts no later than a run can, the search gives the right answer: every
round moves to a later free block, and no run starts in between. -/
theorem findSequenceLoop_spec (hn : 0 < n) (hle : n ≤ size)
    (hsize : size < 2 ^ 32) {fuel first : ℕ} (hfuel : size < first + fuel)
    (hfirst : first < size - n + 1) (hfree : bitmapTest b first = true)
    (hbefore : ∀ s < first, ¬FreeRun b s n) :
    ∃ res, findSequenceLoop b n (size - n + 1) fuel first = some res ∧ Answers b size n res := by
  induction fuel generalizing first with
  | zero => omega
  | succ fuel ih =>
    obtain ⟨hlow, hhigh, hset, hclear⟩ := measureHole_spec b first (show 1 ≤ n by omega)
    rw [findSequenceLoop]
    set hole := measureHole b first n 1
    by_cases heq : hole = n
    · rw [if_pos heq]
      refine ⟨first, rfl, .inl ⟨by omega, fun k hk ↦ ?_, hbefore⟩⟩
      rcases Nat.eq_zero_or_pos k with rfl | hpos
      · exact hfree
      · have := hset k hpos (by omega)
        rwa [Nat.mod_eq_of_lt (by omega)] at this
    · rw [if_neg heq, Nat.mod_eq_of_lt (by omega)]
      have hend : bitmapTest b (first + hole) = false := by
        have := hclear (by omega)
        rwa [Nat.mod_eq_of_lt (by omega)] at this
      obtain ⟨hnext, hused, hfree'⟩ := skipUsed_spec b (size - n + 1) (first + (hole + 1))
      set next := skipUsed b (size - n + 1) (first + (hole + 1))
      have hbefore' : ∀ s < next, ¬FreeRun b s n := by
        intro s hs hrun
        rcases Nat.lt_or_ge s first with hlt | hge
        · exact hbefore s hlt hrun
        rcases Nat.lt_or_ge (first + hole) s with hlt | hge'
        · have := hrun 0 hn
          rw [Nat.add_zero, hused s (by omega) hs] at this
          exact Bool.false_ne_true this
        · -- the run would go over the end of the hole
          have := hrun (first + hole - s) (by omega)
          rw [Nat.add_sub_cancel' hge', hend] at this
          exact Bool.false_ne_true this
      dsimp only
      by_cases hlast : next < size - n + 1
      · rw [if_pos hlast]
        exact ih (by omega) hlast (hfree' hlast) hbefore'
      · rw [if_neg hlast]
        exact ⟨_, rfl, .inr ⟨rfl, fun s hs ↦ hbefore' s (by omega)⟩⟩

/-- The first free block is too close to the end for a run of `n` blocks, but the memory after the
bitmap makes up for what is missing. -/
def Overruns (b : Bitmap) (size n : ℕ) : Prop :=
  ∃ f < size, size < f + n ∧ NoneBelow b f ∧ ∀ k < n, bitmapTest b ((f + k) % 2 ^ 32) = true

/-- Only the first candidate can be too close to the end, and it is below every block that is not
free, so that its run does not wrap. -/
theorem Overruns.le {size n f : ℕ} (hle : n ≤ size) (hsize : size < 2 ^ 32)
    (hf : f < size) (hend : size < f + n) (hnone : NoneBelow b f)
    (hset : ∀ k < n, bitmapTest b ((f + k) % 2 ^ 32) = true) :
    f + n ≤ 2 ^ 32 ∧ FreeRun b f n := by
  have hwrap : f + n ≤ 2 ^ 32 := by
    by_contra hlt
    have := hset (2 ^ 32 - f) (by omega)
    rw [show (f + (2 ^ 32 - f)) % 2 ^ 32 = 0 by omega, hnone 0 (by omega)] at this
    exact Bool.false_ne_true this
  refine ⟨hwrap, fun k hk ↦ ?_⟩
  have := hset k hk
  rwa [Nat.mod_eq_of_lt (by omega)] at this

/-- What a search for `n` blocks finds. -/
theorem findBlocks_spec (b : Bitmap) (hsize : 32 ∣ size) (hlt : size < 2 ^ 32)
    (hn : 0 < n) (hle : n ≤ size) :
    ∃ res, findBlocks b size n = some res ∧
      (¬Overruns b size n ∧ Answers b size n res ∨
        Overruns b size n ∧ res < size ∧ size < res + n ∧ res + n ≤ 2 ^ 32 ∧
          FreeRun b res n) := by
  have hmax : ∀ f < size, f ≠ bitmapNotFound := by rw [bitmapNotFound]; omega
  obtain ⟨heq, hnone⟩ | ⟨hf, hfree, hnone⟩ := bitmapFindSetBlock_spec b hsize hlt
  · -- no free block at all
    refine ⟨bitmapNotFound, ?_, .inl ⟨?_, .inr ⟨rfl, fun s hs ↦ ?_⟩⟩⟩
    · rw [findBlocks, bitmapFindSetBlockSequence, heq, if_pos rfl, ite_self]
    · rintro ⟨f, hf, -, -, hset⟩
      have := hset 0 hn
      rw [Nat.mod_eq_of_lt (by omega), Nat.add_zero, hnone f hf] at this
      exact Bool.false_ne_true this
    · exact hnone.not_freeRun (by omega) hn
  set first := bitmapFindSetBlock b size
  have hunique : ∀ f < size, NoneBelow b f → bitmapTest b (f % 2 ^ 32) = true → f = first := by
    intro f hf' hnone' hset
    rw [Nat.mod_eq_of_lt (by omega)] at hset
    rcases Nat.lt_trichotomy f first with hlt' | heq | hgt
    · rw [hnone f hlt'] at hset
      exact absurd hset Bool.false_ne_true
    · exact heq
    · rw [hnone' first hgt] at hfree
      exact absurd hfree Bool.false_ne_true
  by_cases hlast : first < size - n + 1
  · -- a run can start at the first free block, and all the bits looked at are in the bitmap
    have hover : ¬Overruns b size n := by
      rintro ⟨f, hf', hend, hnone', hset⟩
      have := hunique f hf' hnone' (hset 0 hn)
      omega
    have hbefore : ∀ s < first, ¬FreeRun b s n := fun s hs ↦ hnone.not_freeRun hs hn
    by_cases hone : n = 1
    · subst hone
      refine ⟨first, by rw [findBlocks, if_pos rfl], .inl ⟨hover, .inl ⟨hf, ?_, hbefore⟩⟩⟩
      intro k hk
      rwa [Nat.lt_one_iff.1 hk]
    · obtain ⟨res, hres, hans⟩ := findSequenceLoop_spec hn hle hlt
        (show size < first + (size + 1) by omega) hlast hfree hbefore
      refine ⟨res, ?_, .inl ⟨hover, hans⟩⟩
      rw [findBlocks, if_neg hone, bitmapFindSetBlockSequence, if_neg (hmax _ hf)]
      exact hres
  · -- it cannot, and the first round decides
    rw [findBlocks, if_neg (by omega), bitmapFindSetBlockSequence, if_neg (hmax _ hf),
      findSequenceLoop]
    obtain ⟨hlow, hhigh, hset, hclear⟩ := measureHole_spec b first (show 1 ≤ n by omega)
    set hole := measureHole b first n 1
    by_cases heq : hole = n
    · rw [if_pos heq]
      have hset' : ∀ k < n, bitmapTest b ((first + k) % 2 ^ 32) = true := by
        intro k hk
        rcases Nat.eq_zero_or_pos k with rfl | hpos
        · rwa [Nat.add_zero, Nat.mod_eq_of_lt (by omega)]
        · exact hset k hpos (by omega)
      have hend : size < first + n := by omega
      exact ⟨first, rfl, .inr ⟨⟨first, hf, hend, hnone, hset'⟩, hf, hend,
        Overruns.le hle hlt hf hend hnone hset'⟩⟩
    · rw [if_neg heq]
      obtain ⟨-, -, hfree'⟩ := skipUsed_spec b (size - n + 1) ((first + (hole + 1)) % 2 ^ 32)
      set next := skipUsed b (size - n + 1) ((first + (hole + 1)) % 2 ^ 32)
      have hnext : ¬next < size - n + 1 := by
        intro hlt'
        have := hfree' hlt'
        rw [hnone next (by omega)] at this
        exact Bool.false_ne_true this
      dsimp only
      rw [if_neg hnext]
      refine ⟨_, rfl, .inl ⟨?_, .inr ⟨rfl, fun s hs ↦ hnone.not_freeRun (by omega) hn⟩⟩⟩
      rintro ⟨f, hf', -, hnone', hset'⟩
      obtain rfl := hunique f hf' hnone' (hset' 0 hn)
      have := hset' hole (by omega)
      rw [hclear (by omega)] at this
      exact Bool.false_ne_true this

/-! ## Allocations and their release -/

theorem bitmapTest_forBlocks_clear {n first : ℕ} (b : Bitmap) (hn : first + n ≤ 2 ^ 32) (i : ℕ) :
    bitmapTest (forBlocks bitmapClear n b first) i =
      (bitmapTest b i && !decide (first ≤ i ∧ i < first + n)) :=
  bitmapTest_forBlocks (fun x y ↦ x && !y) bitmapTest_clear (by decide) (by decide) hn i

theorem bitmapTest_forBlocks_set {n first : ℕ} (b : Bitmap) (hn : first + n ≤ 2 ^ 32) (i : ℕ) :
    bitmapTest (forBlocks bitmapSet n b first) i =
      (bitmapTest b i || decide (first ≤ i ∧ i < first + n)) :=
  bitmapTest_forBlocks (fun x y ↦ x || y) bitmapTest_set (by decide) (by decide) hn i

/-- The blocks of two allocations are different. -/
def Apart (r r' : ℕ × ℕ) : Prop :=
  r.1 + r.2 ≤ r'.1 ∨ r'.1 + r'.2 ≤ r.1

/-- A sequence of allocations and releases on a bitmap, with the allocations `(first, count)` that
are not released yet. -/
inductive BitmapRun (size : ℕ) : Bitmap → Set (ℕ × ℕ) → Prop
  | start (b : Bitmap) : BitmapRun size b ∅
  | notFound {b b' : Bitmap} {live : Set (ℕ × ℕ)} {n : ℕ} (h : BitmapRun size b live) (hn : 0 < n)
      (hle : n ≤ size)
      (hres : bitmapAllocateBlocks b size n (2 ^ 32 - 1) = some (bitmapNotFound, b')) :
      BitmapRun size b' live
  | allocate {b b' : Bitmap} {live : Set (ℕ × ℕ)} {n res : ℕ} (h : BitmapRun size b live)
      (hn : 0 < n) (hle : n ≤ size)
      (hres : bitmapAllocateBlocks b size n (2 ^ 32 - 1) = some (res, b'))
      (hfound : res ≠ bitmapNotFound) : BitmapRun size b' (insert (res, n) live)
  | free {b : Bitmap} {live : Set (ℕ × ℕ)} {r : ℕ × ℕ} (h : BitmapRun size b live)
      (hr : r ∈ live) : BitmapRun size (bitmapFreeBlocks b r.1 r.2) (live \ {r})

/-- An allocation of `n` blocks does what it should: it ends, and either returns the first run of
`n` free blocks inside the bitmap, which no allocation that is still live has a block of, and marks
exactly its blocks as used, or there is none and it returns `bitmapNotFound`. -/
def Allocates (b : Bitmap) (live : Set (ℕ × ℕ)) (size n : ℕ) : Prop :=
  ∃ res b', bitmapAllocateBlocks b size n (2 ^ 32 - 1) = some (res, b') ∧
    ((res ≠ bitmapNotFound ∧ res + n ≤ size ∧ FreeRun b res n ∧ (∀ s < res, ¬FreeRun b s n) ∧
        (∀ i, bitmapTest b' i = (bitmapTest b i && !decide (res ≤ i ∧ i < res + n))) ∧
        ∀ r ∈ live, Apart (res, n) r) ∨
      (res = bitmapNotFound ∧ b' = b ∧ ∀ s, s + n ≤ size → ¬FreeRun b s n))

/-- What an allocation does, whether it overruns the bitmap or not. -/
theorem bitmapAllocateBlocks_spec (b : Bitmap) (hsize : 32 ∣ size)
    (hlt : size < 2 ^ 32) (hn : 0 < n) (hle : n ≤ size) :
    ∃ res b', bitmapAllocateBlocks b size n (2 ^ 32 - 1) = some (res, b') ∧
      ((res = bitmapNotFound ∧ b' = b ∧ ¬Overruns b size n ∧
          ∀ s, s + n ≤ size → ¬FreeRun b s n) ∨
        (res ≠ bitmapNotFound ∧ res + n ≤ 2 ^ 32 ∧ FreeRun b res n ∧
          (∀ i, bitmapTest b' i = (bitmapTest b i && !decide (res ≤ i ∧ i < res + n))) ∧
          (¬Overruns b size n ∧ res + n ≤ size ∧ (∀ s < res, ¬FreeRun b s n) ∨
            Overruns b size n ∧ size < res + n))) := by
  obtain ⟨res, hres, hcases⟩ := findBlocks_spec b hsize hlt hn hle
  have hmax : ∀ f < size, f ≠ bitmapNotFound := by rw [bitmapNotFound]; omega
  have hrounds : doWhileRounds n = n := if_neg (by omega)
  rw [bitmapAllocateBlocks, if_neg (by simp), hres, Option.map_some]
  have hfound : (res = bitmapNotFound ∧ ¬Overruns b size n ∧
        ∀ s, s + n ≤ size → ¬FreeRun b s n) ∨
      (res < size ∧ res + n ≤ 2 ^ 32 ∧ FreeRun b res n ∧
        (¬Overruns b size n ∧ res + n ≤ size ∧ (∀ s < res, ¬FreeRun b s n) ∨
          Overruns b size n ∧ size < res + n)) := by
    obtain ⟨hover, ⟨hend, hfree, hfirst⟩ | ⟨heq, hnone⟩⟩ | ⟨hover, hltres, hend, hwrap, hfree⟩ :=
      hcases
    · exact .inr ⟨by omega, by omega, hfree, .inl ⟨hover, hend, hfirst⟩⟩
    · exact .inl ⟨heq, hover, hnone⟩
    · exact .inr ⟨hltres, hwrap, hfree, .inr ⟨hover, hend⟩⟩
  obtain ⟨rfl, hover, hnone⟩ | ⟨hltres, hwrap, hfree, hwhere⟩ := hfound
  · exact ⟨bitmapNotFound, b, by rw [if_pos rfl], .inl ⟨rfl, rfl, hover, hnone⟩⟩
  · refine ⟨res, forBlocks bitmapClear n b res, ?_, .inr ⟨hmax _ hltres, hwrap, hfree, ?_, hwhere⟩⟩
    · rw [if_neg (hmax _ hltres), hrounds]
    · exact bitmapTest_forBlocks_clear b hwrap

/-- The live allocations are those of different blocks, all of them marked as used. -/
structure Accounted (b : Bitmap) (live : Set (ℕ × ℕ)) : Prop where
  pos : ∀ r ∈ live, 0 < r.2
  le : ∀ r ∈ live, r.1 + r.2 ≤ 2 ^ 32
  used : ∀ r ∈ live, ∀ i, r.1 ≤ i → i < r.1 + r.2 → bitmapTest b i = false
  apart : ∀ r ∈ live, ∀ r' ∈ live, r ≠ r' → Apart r r'

/-- A free run has no block in common with a live allocation. -/
theorem Accounted.apart_of_freeRun {live : Set (ℕ × ℕ)} (h : Accounted b live)
    {s n : ℕ} (hn : 0 < n) (hrun : FreeRun b s n) {r : ℕ × ℕ} (hr : r ∈ live) :
    Apart (s, n) r := by
  by_contra hover
  have hpos := h.pos r hr
  simp only [Apart, not_or, not_le] at hover
  -- the larger of the two starts is a block of both
  have hfree := hrun (max s r.1 - s) (by omega)
  rw [h.used r hr _ (by omega) (by omega)] at hfree
  exact Bool.false_ne_true hfree

theorem Accounted.insert {b b' : Bitmap} {live : Set (ℕ × ℕ)} (h : Accounted b live) {s n : ℕ}
    (hn : 0 < n) (hle : s + n ≤ 2 ^ 32) (hrun : FreeRun b s n)
    (hb' : ∀ i, bitmapTest b' i = (bitmapTest b i && !decide (s ≤ i ∧ i < s + n))) :
    Accounted b' (insert (s, n) live) where
  pos := by
    rintro r (rfl | hr)
    exacts [hn, h.pos r hr]
  le := by
    rintro r (rfl | hr)
    exacts [hle, h.le r hr]
  used := by
    rintro r (rfl | hr) i hlow hhigh
    · simp only at hlow hhigh
      simp [hb', hlow, hhigh]
    · rw [hb', h.used r hr i hlow hhigh, Bool.false_and]
  apart := by
    rintro r (rfl | hr) r' (rfl | hr') hne
    · exact absurd rfl hne
    · exact h.apart_of_freeRun hn hrun hr'
    · exact (h.apart_of_freeRun hn hrun hr).symm
    · exact h.apart r hr r' hr' hne

theorem Accounted.free {live : Set (ℕ × ℕ)} (h : Accounted b live) {r : ℕ × ℕ}
    (hr : r ∈ live) : Accounted (bitmapFreeBlocks b r.1 r.2) (live \ {r}) where
  pos r' hr' := h.pos r' hr'.1
  le r' hr' := h.le r' hr'.1
  used := by
    intro r' hr' i hlow hhigh
    have hrounds : doWhileRounds r.2 = r.2 := if_neg (h.pos r hr).ne'
    have hapart := h.apart r hr r' hr'.1 (Ne.symm hr'.2)
    rw [bitmapFreeBlocks, hrounds, bitmapTest_forBlocks_set b (h.le r hr),
      h.used r' hr'.1 i hlow hhigh, Bool.false_or, decide_eq_false]
    rw [Apart] at hapart
    omega
  apart r' hr' r'' hr'' := h.apart r' hr'.1 r'' hr''.1

theorem BitmapRun.accounted {size : ℕ} (hsize : 32 ∣ size) (hlt : size < 2 ^ 32)
    {live : Set (ℕ × ℕ)} (h : BitmapRun size b live) : Accounted b live := by
  induction h with
  | start b => exact ⟨by simp, by simp, by simp, by simp⟩
  | @notFound b b' live n _ hn hle hres ih =>
    obtain ⟨res, b'', hres', ⟨-, rfl, -⟩ | ⟨hne, -⟩⟩ :=
      bitmapAllocateBlocks_spec b hsize hlt hn hle
    · rw [hres, Option.some_inj, Prod.mk.injEq] at hres'
      rwa [hres'.2]
    · rw [hres, Option.some_inj, Prod.mk.injEq] at hres'
      exact absurd hres'.1.symm hne
  | @allocate b b' live n res _ hn hle hres hfound ih =>
    obtain ⟨res', b'', hres', ⟨rfl, -⟩ | ⟨-, hwrap, hfree, hb', -⟩⟩ :=
      bitmapAllocateBlocks_spec b hsize hlt hn hle
    · rw [hres, Option.some_inj, Prod.mk.injEq] at hres'
      exact absurd hres'.1 hfound
    · rw [hres, Option.some_inj, Prod.mk.injEq] at hres'
      obtain ⟨rfl, rfl⟩ := hres'
      exact ih.insert hn hwrap hfree hb'
  | free _ hr ih => exact ih.free hr

theorem Accounted.allocates_iff_not_overruns {live : Set (ℕ × ℕ)}
    (h : Accounted b live) (hsize : 32 ∣ size) (hlt : size < 2 ^ 32) (hn : 0 < n)
    (hle : n ≤ size) : Allocates b live size n ↔ ¬Overruns b size n := by
  obtain ⟨res, b', hres, hcases⟩ := bitmapAllocateBlocks_spec b hsize hlt hn hle
  constructor
  · rintro ⟨res', b'', hres', hspec⟩ hover
    rw [hres, Option.some_inj, Prod.mk.injEq] at hres'
    obtain ⟨rfl, rfl⟩ := hres'
    obtain ⟨-, -, hnot, -⟩ | ⟨hne, -, -, -, ⟨hnot, -⟩ | ⟨-, hend⟩⟩ := hcases
    · exact hnot hover
    · exact hnot hover
    · obtain ⟨-, hend', -⟩ | ⟨heq, -⟩ := hspec
      · omega
      · exact hne heq
  · intro hover
    obtain ⟨heq, hb', -, hnone⟩ | ⟨hne, -, hfree, hb', ⟨-, hend, hfirst⟩ | ⟨hover', -⟩⟩ := hcases
    · exact ⟨res, b', hres, .inr ⟨heq, hb', hnone⟩⟩
    · exact ⟨res, b', hres, .inl ⟨hne, hend, hfree, hfirst, hb',
        fun r hr ↦ h.apart_of_freeRun hn hfree hr⟩⟩
    · exact absurd hover' hover

/-- **When an allocation is sound and complete.**  After any sequence of allocations and releases
on any bitmap, an allocation does what it should exactly if the first free block leaves room for
the request, or the memory after the bitmap does not happen to complete its run. -/
theorem BitmapRun.allocates_iff {size : ℕ} (hsize : 32 ∣ size) (hlt : size < 2 ^ 32) {b : Bitmap}
    {live : Set (ℕ × ℕ)} (h : BitmapRun size b live) {n : ℕ} (hn : 0 < n) (hle : n ≤ size) :
    Allocates b live size n ↔ ¬Overruns b size n :=
  (h.accounted hsize hlt).allocates_iff_not_overruns hsize hlt hn hle

/-- With the last of 32 blocks free and the word after the bitmap not zero, a request for two
blocks is given block `31`, the second of which is not in the bitmap. -/
theorem not_allocates_lastBlock :
    ¬Allocates (fun i ↦ if i = 0 then 0x80000000#32 else 1#32) ∅ 32 2 := by
  have haccounted : Accounted (fun i ↦ if i = 0 then 0x80000000#32 else 1#32) ∅ :=
    ⟨by simp, by simp, by simp, by simp⟩
  rw [haccounted.allocates_iff_not_overruns (by decide) (by decide) (by decide) (by decide),
    not_not]
  exact ⟨31, by decide, by decide, by unfold NoneBelow; decide, by decide⟩

/-- A request for two blocks of an empty bitmap is served. -/
theorem allocates_allFree : Allocates (fun _ ↦ 0xffffffff#32) ∅ 32 2 := by
  rw [BitmapRun.allocates_iff (by decide) (by decide) (.start _) (by decide) (by decide)]
  rintro ⟨f, hf, hend, hnone, -⟩
  exact absurd (hnone 0 (by omega)) (by decide)

end DrAvx
