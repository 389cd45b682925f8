import Mathlib.Algebra.GroupWithZero.Nat
import Mathlib.Algebra.BigOperators.Group.List.Basic
import Mathlib.Data.List.Nodup
import Mathlib.Data.List.Pairwise

/-!
# A table that grows by chunks

`drtable` is an array that never moves: when there is no room left, another chunk of memory is added,
as large as all the chunks before it.  The entries of a chunk follow one another, and so do the
indices of the chunks: a chunk begins at the index at which the capacity of the earlier ones ends.
An allocation takes consecutive entries from one chunk, with the compact policy from any chunk that
has room.

Memory comes from an allocator that never hands out the same bytes twice (`Allocator`).  A failed
assertion ends the program, so the functions return `none` there.

## What is here

* the code: `chunkCreate`, `create`, `alloc`, `getEntry`, `getIndex`, `iterate`;
* `Wf`: what holds of the chunks together, kept by `create` and `alloc`;
* `Tracked`: the entries of the chunks are the entries that were allocated;
* `tracked_of_run`: whole sequences of allocations;
* `inverse_iff`: where index and address are inverse to each other.
-/

set_option autoImplicit false

namespace DrAvx.Drtable

/-! ## The code -/

/-- Where memory comes from.  The regions handed out before are given by their bases and sizes. -/
structure Allocator where
  alloc : List (ℕ × ℕ) → ℕ → Option ℕ
  fits : ∀ {used size base}, alloc used size = some base →
    base + size < 2 ^ 64 ∧ (used.map Prod.snd).sum + size < 2 ^ 64
  apart : ∀ {used size base}, alloc used size = some base →
    ∀ r ∈ used, base + size ≤ r.1 ∨ r.1 + r.2 ≤ base

/-- `drtable_chunk_t`. -/
structure Chunk where
  index : ℕ
  entries : ℕ
  capacity : ℕ
  size : ℕ
  base : ℕ
  curPtr : ℕ
  deriving DecidableEq

/-- `drtable_t`.  The last chunk is given by its place in the vector. -/
structure Table where
  pageSize : ℕ
  entrySize : ℕ
  compact : Bool
  entries : ℕ
  capacity : ℕ
  size : ℕ
  lastChunk : ℕ
  vec : List Chunk
  deriving DecidableEq

/-- `ALIGN_FORWARD`, for a power of two. -/
def alignForward (x alignment : ℕ) : ℕ := (x + (alignment - 1)) % 2 ^ 64 / alignment * alignment

/-- The number of entries that are not allocated. -/
def Chunk.room (c : Chunk) : ℕ := (c.capacity + 2 ^ 64 - c.entries) % 2 ^ 64

namespace Table

/-- `drtable_chunk_create`; the new chunk becomes the last one. -/
def chunkCreate (A : Allocator) (t : Table) (numEntries : ℕ) : Option Table := do
  let size := alignForward (max t.size (t.entrySize * numEntries % 2 ^ 64)) t.pageSize
  let base ← A.alloc (t.vec.map fun c ↦ (c.base, c.size)) size
  let capacity := size / t.entrySize % 2 ^ 32
  some { t with
    size := (t.size + size) % 2 ^ 64
    capacity := (t.capacity + capacity) % 2 ^ 64
    lastChunk := t.vec.length
    vec := t.vec ++ [⟨t.capacity, 0, capacity, size, base, base⟩] }

/-- `drtable_create`. -/
def create (A : Allocator) (pageSize capacity entrySize : ℕ) (compact : Bool) : Option Table :=
  if 0 < entrySize ∧ entrySize < pageSize then
    let size := alignForward ((if 0 < capacity then capacity else 1) * entrySize % 2 ^ 64) pageSize
    chunkCreate A ⟨pageSize, entrySize, compact, 0, 0, 0, 0, []⟩ (size / entrySize)
  else none

/-- The place of a chunk with room: the last chunk, or with the compact policy the latest one. -/
def findRoom (t : Table) (numEntries : ℕ) : Option ℕ :=
  if ∃ c ∈ t.vec[t.lastChunk]?, numEntries ≤ c.room then some t.lastChunk
  else if t.compact then
    (List.range t.vec.length).reverse.find? fun i ↦ ∃ c ∈ t.vec[i]?, numEntries ≤ c.room
  else none

/-- What an allocation returns: the address and the index of its first entry. -/
structure Allocation where
  entry : ℕ
  idx : ℕ
  numEntries : ℕ
  deriving DecidableEq

/-- The end of `drtable_alloc`: the entries are taken from a chunk. -/
def takeFrom (t : Table) (place numEntries : ℕ) : Option (Table × Allocation) := do
  let c ← t.vec[place]?
  let curPtr := (c.curPtr + numEntries * t.entrySize % 2 ^ 64) % 2 ^ 64
  let entries := (c.entries + numEntries) % 2 ^ 64
  let total := (t.entries + numEntries) % 2 ^ 64
  if curPtr ≤ (c.base + c.size) % 2 ^ 64 ∧ entries ≤ c.capacity ∧ total ≤ t.capacity then
    some ({ t with
      vec := t.vec.set place { c with curPtr := curPtr, entries := entries }
      entries := total }, ⟨c.curPtr, (c.index + c.entries) % 2 ^ 64, numEntries⟩)
  else none

/-- `drtable_alloc`. -/
def alloc (A : Allocator) (t : Table) (numEntries : ℕ) : Option (Table × Allocation) :=
  match t.findRoom numEntries with
  | some place => t.takeFrom place numEntries
  | none => do
    let t ← t.chunkCreate A numEntries
    t.takeFrom t.lastChunk numEntries

/-- `drtable_chunk_lookup_index`. -/
def chunkLookupIndex (t : Table) (index : ℕ) : Option Chunk :=
  if t.capacity < index then none
  else if ∃ c ∈ t.vec[t.lastChunk]?, c.index ≤ index ∧ index < c.index + c.entries then
    t.vec[t.lastChunk]?
  else t.vec.reverse.find? fun c ↦ c.index ≤ index ∧ index < c.index + c.capacity

/-- `drtable_chunk_lookup_entry`. -/
def chunkLookupEntry (t : Table) (entry : ℕ) : Option Chunk :=
  if ∃ c ∈ t.vec[t.lastChunk]?, c.base ≤ entry ∧ entry < c.curPtr then t.vec[t.lastChunk]?
  else t.vec.reverse.find? fun c ↦ c.base ≤ entry ∧ entry < c.curPtr

/-- `drtable_get_entry`. -/
def getEntry (t : Table) (index : ℕ) : Option ℕ :=
  (t.chunkLookupIndex index).map fun c ↦ (c.base + index * t.entrySize) % 2 ^ 64

/-- `drtable_get_index`; the invalid index is `none`. -/
def getIndex (t : Table) (entry : ℕ) : Option ℕ :=
  (t.chunkLookupEntry entry).map fun c ↦ c.index + (entry - c.base) / t.entrySize

end Table

/-- The loop of `drtable_chunk_iterate`: the calls that are made, and whether the last one asked to
stop. -/
def chunkLoop (iterFunc : ℕ → ℕ → Bool) (entrySize index : ℕ) :
    ℕ → ℕ → ℕ → List (ℕ × ℕ) × Bool
  | 0, _, _ => ([], false)
  | left + 1, i, entry =>
    if iterFunc (i + index) entry then
      let (calls, stop) := chunkLoop iterFunc entrySize index left (i + 1) (entry + entrySize)
      ((i + index, entry) :: calls, stop)
    else ([(i + index, entry)], true)

/-- `drtable_iterate` over the chunks of the vector. -/
def iterateChunks (iterFunc : ℕ → ℕ → Bool) (entrySize : ℕ) : List Chunk → List (ℕ × ℕ)
  | [] => []
  | c :: vec =>
    let (calls, stop) := chunkLoop iterFunc entrySize c.index c.entries 0 c.base
    if stop then calls else calls ++ iterateChunks iterFunc entrySize vec

/-- `drtable_iterate`: the calls of the callback, each with an index and an address. -/
def Table.iterate (t : Table) (iterFunc : ℕ → ℕ → Bool) : List (ℕ × ℕ) :=
  iterateChunks iterFunc t.entrySize t.vec

/-- A sequence of allocations. -/
def Table.allocs (A : Allocator) : Table → List ℕ → Option (Table × List Table.Allocation)
  | t, [] => some (t, [])
  | t, n :: ns => do
    let (t, a) ← t.alloc A n
    let (t, as) ← Table.allocs A t ns
    some (t, a :: as)

/-! ## The chunks together -/

/-- The memory of one chunk. -/
structure Chunk.Wf (entrySize : ℕ) (c : Chunk) : Prop where
  entries_le : c.entries ≤ c.capacity
  capacity_lt : c.capacity < 2 ^ 32
  bytes_le : c.capacity * entrySize ≤ c.size
  curPtr_eq : c.curPtr = c.base + c.entries * entrySize
  bound : c.base + c.size < 2 ^ 64

/-- The first chunk begins at the index `k`, and each one where the one before it ends. -/
def Indexed : ℕ → List Chunk → Prop
  | _, [] => True
  | k, c :: vec => c.index = k ∧ Indexed (k + c.capacity) vec

def totalCapacity (vec : List Chunk) : ℕ := (vec.map Chunk.capacity).sum

def totalSize (vec : List Chunk) : ℕ := (vec.map Chunk.size).sum

def totalEntries (vec : List Chunk) : ℕ := (vec.map Chunk.entries).sum

/-- No byte belongs to both chunks. -/
def Apart (c d : Chunk) : Prop := c.base + c.size ≤ d.base ∨ d.base + d.size ≤ c.base

instance : Std.Symm Apart := ⟨fun _ _ ↦ Or.symm⟩

/-- What holds of a table at any time. -/
structure Table.Wf (t : Table) : Prop where
  entrySize_pos : 0 < t.entrySize
  last : t.lastChunk + 1 = t.vec.length
  entries_eq : t.entries = totalEntries t.vec
  capacity_eq : t.capacity = totalCapacity t.vec
  size_eq : t.size = totalSize t.vec
  size_lt : t.size < 2 ^ 64
  chunk : ∀ c ∈ t.vec, c.Wf t.entrySize
  indexed : Indexed 0 t.vec
  apart : t.vec.Pairwise Apart

section Chunks

variable {entrySize k i addr : ℕ} {c d : Chunk} {vec vec' : List Chunk}

theorem indexed_append : Indexed k (vec ++ vec') ↔
    Indexed k vec ∧ Indexed (k + totalCapacity vec) vec' := by
  induction vec generalizing k with
  | nil => simp [Indexed, totalCapacity]
  | cons c vec ih =>
    rw [List.cons_append, Indexed, Indexed, ih, totalCapacity, totalCapacity, List.map_cons,
      List.sum_cons, Nat.add_assoc, and_assoc]

theorem totalCapacity_append :
    totalCapacity (vec ++ vec') = totalCapacity vec + totalCapacity vec' := by
  rw [totalCapacity, List.map_append, List.sum_append, totalCapacity, totalCapacity]

theorem totalSize_append : totalSize (vec ++ vec') = totalSize vec + totalSize vec' := by
  rw [totalSize, List.map_append, List.sum_append, totalSize, totalSize]

theorem totalEntries_append :
    totalEntries (vec ++ vec') = totalEntries vec + totalEntries vec' := by
  rw [totalEntries, List.map_append, List.sum_append, totalEntries, totalEntries]

theorem totalEntries_cons : totalEntries (c :: vec) = c.entries + totalEntries vec := List.sum_cons

theorem totalCapacity_cons : totalCapacity (c :: vec) = c.capacity + totalCapacity vec :=
  List.sum_cons

theorem totalSize_cons : totalSize (c :: vec) = c.size + totalSize vec := List.sum_cons

/-- The range of a chunk is after those of the chunks before it, and within the total. -/
theorem Indexed.le_index (h : Indexed k vec) (hc : c ∈ vec) :
    k ≤ c.index ∧ c.index + c.capacity ≤ k + totalCapacity vec := by
  induction vec generalizing k with
  | nil => exact absurd hc List.not_mem_nil
  | cons d vec ih =>
    rw [totalCapacity_cons]
    rcases List.mem_cons.1 hc with rfl | hc
    · have := h.1
      omega
    · have := ih h.2 hc
      omega

theorem Indexed.pairwise (h : Indexed k vec) :
    vec.Pairwise fun c d ↦ c.index + c.capacity ≤ d.index := by
  induction vec generalizing k with
  | nil => exact List.Pairwise.nil
  | cons c vec ih =>
    refine List.pairwise_cons.2 ⟨fun d hd ↦ ?_, ih h.2⟩
    have := (h.2.le_index hd).1
    have := h.1
    omega

theorem totalCapacity_mul_le (h : ∀ c ∈ vec, c.Wf entrySize) :
    totalCapacity vec * entrySize ≤ totalSize vec := by
  induction vec with
  | nil => exact Nat.le_of_eq (Nat.zero_mul _)
  | cons c vec ih =>
    rw [totalCapacity_cons, totalSize_cons, Nat.add_mul]
    exact Nat.add_le_add (h c List.mem_cons_self).bytes_le
      (ih fun d hd ↦ h d (List.mem_cons_of_mem c hd))

theorem totalEntries_le (h : ∀ c ∈ vec, c.Wf entrySize) : totalEntries vec ≤ totalCapacity vec := by
  induction vec with
  | nil => exact Nat.le_refl 0
  | cons c vec ih =>
    rw [totalEntries_cons, totalCapacity_cons]
    exact Nat.add_le_add (h c List.mem_cons_self).entries_le
      (ih fun d hd ↦ h d (List.mem_cons_of_mem c hd))

/-- The entry with index `i` is at the address `addr` of the chunk. -/
def Chunk.Holds (entrySize : ℕ) (c : Chunk) (i addr : ℕ) : Prop :=
  ∃ j < c.entries, i = c.index + j ∧ addr = c.base + j * entrySize

theorem Chunk.Holds.index (h : c.Holds entrySize i addr) (hc : c.Wf entrySize) :
    c.index ≤ i ∧ i < c.index + c.entries ∧ i < c.index + c.capacity := by
  obtain ⟨j, hj, rfl, -⟩ := h
  have := hc.entries_le
  omega

/-- An entry is in the allocated part of its chunk. -/
theorem Chunk.Holds.bytes (h : c.Holds entrySize i addr) (hc : c.Wf entrySize) :
    c.base ≤ addr ∧ addr + entrySize ≤ c.curPtr ∧ addr + entrySize ≤ c.base + c.size := by
  obtain ⟨j, hj, -, rfl⟩ := h
  have hj' : j * entrySize + entrySize ≤ c.entries * entrySize := by
    rw [← Nat.succ_mul]
    exact Nat.mul_le_mul_right _ hj
  have hle : c.entries * entrySize ≤ c.capacity * entrySize :=
    Nat.mul_le_mul_right _ hc.entries_le
  have := hc.bytes_le
  have := hc.curPtr_eq
  omega

end Chunks

/-- The entry with index `i` is at the address `addr`. -/
def Table.Holds (t : Table) (i addr : ℕ) : Prop := ∃ c ∈ t.vec, c.Holds t.entrySize i addr

/-- The allocation gave the entry with index `i` the address `addr`. -/
def Table.Allocation.Gave (entrySize : ℕ) (a : Table.Allocation) (i addr : ℕ) : Prop :=
  ∃ j < a.numEntries, i = a.idx + j ∧ addr = a.entry + j * entrySize

/-- More entries of a chunk. -/
theorem Chunk.holds_add_iff (entrySize n : ℕ) (c c' : Chunk) (hindex : c'.index = c.index)
    (hbase : c'.base = c.base) (hentries : c'.entries = c.entries + n) (i addr : ℕ) :
    c'.Holds entrySize i addr ↔ c.Holds entrySize i addr ∨
      (⟨c.base + c.entries * entrySize, c.index + c.entries, n⟩ : Table.Allocation).Gave
        entrySize i addr := by
  rw [Chunk.Holds, hindex, hbase, hentries]
  constructor
  · rintro ⟨j, hj, rfl, rfl⟩
    rcases Nat.lt_or_ge j c.entries with hlt | hge
    · exact .inl ⟨j, hlt, rfl, rfl⟩
    · obtain ⟨k, rfl⟩ := Nat.exists_eq_add_of_le hge
      refine .inr ⟨k, Nat.lt_of_add_lt_add_left hj, ?_, ?_⟩
      · exact (Nat.add_assoc _ _ _).symm
      · rw [Nat.add_mul, ← Nat.add_assoc]
  · rintro (⟨j, hj, rfl, rfl⟩ | ⟨k, hk, rfl, rfl⟩)
    · exact ⟨j, by omega, rfl, rfl⟩
    · refine ⟨c.entries + k, Nat.add_lt_add_left hk _, ?_, ?_⟩
      · exact Nat.add_assoc _ _ _
      · rw [Nat.add_mul, ← Nat.add_assoc]

/-! ## Making a chunk -/

section Steps

variable {A : Allocator} {t t' : Table} {a : Table.Allocation} {n : ℕ}

/-- What a new chunk changes. -/
structure Grown (t t' : Table) : Prop where
  wf : t'.Wf
  entrySize : t'.entrySize = t.entrySize
  vec : ∃ c : Chunk, c.entries = 0 ∧ t'.vec = t.vec ++ [c]

theorem Table.chunkCreate_grown (hpos : 0 < t.entrySize)
    (hentries : t.entries = totalEntries t.vec) (hcap : t.capacity = totalCapacity t.vec)
    (hsize : t.size = totalSize t.vec)
    (hchunk : ∀ c ∈ t.vec, c.Wf t.entrySize) (hindexed : Indexed 0 t.vec)
    (hapart : t.vec.Pairwise Apart) (h : t.chunkCreate A n = some t') : Grown t t' := by
  obtain ⟨base, hbase, h⟩ := Option.bind_eq_some_iff.1 h
  set size := alignForward (max t.size (t.entrySize * n % 2 ^ 64)) t.pageSize
  obtain ⟨hfits, htotal⟩ := A.fits hbase
  rw [List.map_map] at htotal
  have htotal' : t.size + size < 2 ^ 64 := by
    rw [hsize]
    exact htotal
  set capacity := size / t.entrySize % 2 ^ 32 with hcapacity
  have hbytes : capacity * t.entrySize ≤ size :=
    Nat.le_trans (Nat.mul_le_mul_right _ (Nat.mod_le _ _)) (Nat.div_mul_le_self _ _)
  have hnew : (⟨t.capacity, 0, capacity, size, base, base⟩ : Chunk).Wf t.entrySize :=
    ⟨Nat.zero_le _, Nat.mod_lt _ (by decide), hbytes, by simp, hfits⟩
  -- the indices of the chunks do not overflow, because their bytes do not
  have hcapacity_lt : t.capacity + capacity < 2 ^ 64 := by
    have hle := totalCapacity_mul_le hchunk
    rw [← hcap, ← hsize] at hle
    have h₁ := Nat.le_mul_of_pos_right t.capacity hpos
    have h₂ := Nat.le_mul_of_pos_right capacity hpos
    omega
  cases h
  refine ⟨⟨hpos, by simp, ?_, ?_, ?_, ?_, ?_, ?_, ?_⟩, rfl, _, rfl, rfl⟩
  · rw [totalEntries_append, ← hentries]
    rfl
  · rw [Nat.mod_eq_of_lt hcapacity_lt, totalCapacity_append, hcap]
    rfl
  · rw [Nat.mod_eq_of_lt htotal', totalSize_append, hsize]
    rfl
  · exact Nat.mod_lt _ (by decide)
  · intro c hc
    rcases List.mem_append.1 hc with hc | hc
    · exact hchunk c hc
    · rwa [List.mem_singleton.1 hc]
  · refine indexed_append.2 ⟨hindexed, ?_, trivial⟩
    rw [hcap, Nat.zero_add]
  · refine List.pairwise_append.2 ⟨hapart, List.pairwise_singleton _ _, fun c hc d hd ↦ ?_⟩
    rw [List.mem_singleton.1 hd]
    exact (A.apart hbase _ (List.mem_map_of_mem hc)).symm

theorem Table.Wf.chunkCreate (hwf : t.Wf) (h : t.chunkCreate A n = some t') : Grown t t' :=
  chunkCreate_grown hwf.entrySize_pos hwf.entries_eq hwf.capacity_eq hwf.size_eq hwf.chunk
    hwf.indexed hwf.apart h

theorem Table.wf_create {pageSize capacity entrySize : ℕ} {compact : Bool}
    (h : create A pageSize capacity entrySize compact = some t) :
    t.Wf ∧ t.entrySize = entrySize ∧ ∀ i addr, ¬t.Holds i addr := by
  rw [create] at h
  by_cases hsize : 0 < entrySize ∧ entrySize < pageSize
  swap
  · rw [if_neg hsize] at h
    cases h
  rw [if_pos hsize] at h
  have hgrown : Grown ⟨pageSize, entrySize, compact, 0, 0, 0, 0, []⟩ t := by
    refine chunkCreate_grown hsize.1 rfl rfl rfl ?_ ?_ ?_ h
    · exact fun c hc ↦ absurd hc List.not_mem_nil
    · trivial
    · exact List.Pairwise.nil
  refine ⟨hgrown.wf, hgrown.entrySize, ?_⟩
  rintro i addr ⟨c, hc, j, hj, -⟩
  obtain ⟨c₀, hentries, hvec⟩ := hgrown.vec
  rw [hvec, List.nil_append, List.mem_singleton] at hc
  rw [hc, hentries] at hj
  exact Nat.not_lt_zero j hj

/-! ## Taking entries -/

/-- The memory of a chunk. -/
def Chunk.extent (c : Chunk) : ℕ × ℕ := (c.base, c.size)

/-- What an allocation changes: entries that nobody had are added to one chunk. -/
structure Taken (t : Table) (n : ℕ) (t' : Table) (a : Table.Allocation) : Prop where
  wf : t'.Wf
  entrySize : t'.entrySize = t.entrySize
  numEntries : a.numEntries = n
  inside : ∃ c ∈ t'.vec, c.base ≤ a.entry ∧ a.entry + n * t.entrySize ≤ c.base + c.size
  holds : ∀ i addr, t'.Holds i addr ↔ t.Holds i addr ∨ a.Gave t.entrySize i addr
  indices : ∀ i addr, t.Holds i addr → i < a.idx ∨ a.idx + n ≤ i
  bytes : ∀ i addr, t.Holds i addr →
    addr + t.entrySize ≤ a.entry ∨ a.entry + n * t.entrySize ≤ addr
  extents : t.vec.map Chunk.extent <+: t'.vec.map Chunk.extent

/-- The entries are taken if the chunk has them: the other two assertions never fail. -/
theorem Table.takeFrom_eq {place : ℕ} {c : Chunk} (hwf : t.Wf) (hc : t.vec[place]? = some c)
    (hn : c.entries + n < 2 ^ 64) : t.takeFrom place n =
      if c.entries + n ≤ c.capacity then some ({ t with
        vec := t.vec.set place { c with curPtr := c.base + (c.entries + n) * t.entrySize,
                                        entries := c.entries + n }
        entries := t.entries + n }, ⟨c.curPtr, c.index + c.entries, n⟩)
      else none := by
  have hmem := List.mem_of_getElem? hc
  have hcwf := hwf.chunk c hmem
  rw [Table.takeFrom, hc, Option.bind_eq_bind, Option.bind_some]
  dsimp only
  rw [Nat.mod_eq_of_lt hn]
  by_cases hentries : c.entries + n ≤ c.capacity
  swap
  · rw [if_neg hentries, if_neg fun hassert ↦ hentries hassert.2.1]
  -- nothing overflows
  have hbytes : (c.entries + n) * t.entrySize ≤ c.size :=
    Nat.le_trans (Nat.mul_le_mul_right _ hentries) hcwf.bytes_le
  have hbound := hcwf.bound
  have hcapacity : totalCapacity t.vec < 2 ^ 64 := by
    have h₁ := totalCapacity_mul_le hwf.chunk
    have h₂ := Nat.le_mul_of_pos_right (totalCapacity t.vec) hwf.entrySize_pos
    have h₃ := hwf.size_eq
    have h₄ := hwf.size_lt
    omega
  have hidx := (hwf.indexed.le_index hmem).2
  have htotal : t.entries + n ≤ t.capacity := by
    obtain ⟨pre, post, hvec⟩ := List.append_of_mem hmem
    have hrest := hwf.chunk
    rw [hwf.entries_eq, hwf.capacity_eq]
    rw [hvec] at hrest ⊢
    have h₁ := totalEntries_le fun d hd ↦ hrest d (List.mem_append_left _ hd)
    have h₂ := totalEntries_le fun d hd ↦ hrest d (List.mem_append_right _ (List.mem_cons_of_mem c hd))
    rw [totalEntries_append, totalEntries_cons, totalCapacity_append, totalCapacity_cons]
    omega
  have hptr : c.curPtr + n * t.entrySize = c.base + (c.entries + n) * t.entrySize := by
    rw [hcwf.curPtr_eq, Nat.add_mul, Nat.add_assoc]
  have hlt : n * t.entrySize < 2 ^ 64 := by
    rw [Nat.add_mul] at hbytes
    omega
  have hcap := hwf.capacity_eq
  rw [Nat.mod_eq_of_lt hlt, hptr, Nat.mod_eq_of_lt (show c.base + (c.entries + n) * t.entrySize <
    2 ^ 64 by omega), Nat.mod_eq_of_lt hbound, Nat.mod_eq_of_lt (show t.entries + n < 2 ^ 64 by omega),
    Nat.mod_eq_of_lt (show c.index + c.entries < 2 ^ 64 by omega), if_pos hentries,
    if_pos ⟨Nat.add_le_add_left hbytes _, hentries, htotal⟩]

theorem Table.Wf.takeFrom {place : ℕ} {c : Chunk} (hwf : t.Wf) (hc : t.vec[place]? = some c)
    (hn : c.entries + n < 2 ^ 64) (h : t.takeFrom place n = some (t', a)) : Taken t n t' a := by
  rw [takeFrom_eq hwf hc hn] at h
  split_ifs at h with hentries
  cases h
  have hcwf := hwf.chunk c (List.mem_of_getElem? hc)
  obtain ⟨hplace, hget⟩ := List.getElem?_eq_some_iff.1 hc
  set es := t.entrySize
  set c' : Chunk := { c with curPtr := c.base + (c.entries + n) * es, entries := c.entries + n }
    with hc'
  -- the chunk, those before it and those after it
  obtain ⟨pre, post, hvec, hset⟩ : ∃ pre post, t.vec = pre ++ c :: post ∧
      t.vec.set place c' = pre ++ c' :: post := by
    refine ⟨t.vec.take place, t.vec.drop (place + 1), ?_, ?_⟩
    · rw [← hget, ← List.drop_eq_getElem_cons hplace, List.take_append_drop]
    · rw [List.set_eq_take_append_cons_drop, if_pos hplace]
  have hbytes : (c.entries + n) * es ≤ c.size :=
    Nat.le_trans (Nat.mul_le_mul_right _ hentries) hcwf.bytes_le
  have hcwf' : c'.Wf es := ⟨hentries, hcwf.capacity_lt, hcwf.bytes_le, rfl, hcwf.bound⟩
  have hindexed := hwf.indexed
  have hpairwise := hwf.indexed.pairwise
  have hapart := hwf.apart
  have hchunk := hwf.chunk
  rw [hvec] at hindexed hpairwise hapart hchunk
  have hmiddle : ∀ d, d ∈ pre ++ c :: post ↔ d ∈ pre ∨ d = c ∨ d ∈ post := fun d ↦ by
    rw [List.mem_append, List.mem_cons]
  have hentry : c.curPtr = c.base + c.entries * es := hcwf.curPtr_eq
  have hsum : (c.entries + n) * es = c.entries * es + n * es := Nat.add_mul _ _ _
  -- where an old entry is
  have hwhere : ∀ i addr, t.Holds i addr →
      (i < c.index + c.entries ∨ c.index + c.entries + n ≤ i) ∧
      (addr + es ≤ c.curPtr ∨ c.curPtr + n * es ≤ addr) := by
    rintro i addr ⟨d, hd, hholds⟩
    rw [hvec] at hd
    have hdwf := hchunk d hd
    obtain ⟨hi₁, hi₂, hi₃⟩ := hholds.index hdwf
    obtain ⟨hb₁, hb₂, hb₃⟩ := hholds.bytes hdwf
    rcases (hmiddle d).1 hd with hd | rfl | hd
    · have h₁ := (List.pairwise_append.1 hpairwise).2.2 d hd c List.mem_cons_self
      have h₂ := (List.pairwise_append.1 hapart).2.2 d hd c List.mem_cons_self
      rw [Apart] at h₂
      omega
    · omega
    · have h₁ := (List.pairwise_cons.1 (List.pairwise_append.1 hpairwise).2.1).1 d hd
      have h₂ := (List.pairwise_cons.1 (List.pairwise_append.1 hapart).2.1).1 d hd
      rw [Apart] at h₂
      omega
  have hlen : (t.vec.set place c').length = t.vec.length := List.length_set
  refine ⟨⟨hwf.entrySize_pos, hwf.last.trans hlen.symm, ?_, ?_, ?_, hwf.size_lt, ?_, ?_, ?_⟩, rfl,
    rfl, ⟨c', ?_, ?_, ?_⟩, fun i addr ↦ ?_, fun i addr hold ↦ (hwhere i addr hold).1,
    fun i addr hold ↦ (hwhere i addr hold).2, ?_⟩
  · show t.entries + n = totalEntries (t.vec.set place c')
    rw [hset, hwf.entries_eq, hvec, totalEntries_append, totalEntries_append, totalEntries_cons,
      totalEntries_cons]
    show _ = _ + (c.entries + n + _)
    omega
  · show t.capacity = totalCapacity (t.vec.set place c')
    rw [hset, hwf.capacity_eq, hvec, totalCapacity_append, totalCapacity_append, totalCapacity_cons,
      totalCapacity_cons]
  · show t.size = totalSize (t.vec.set place c')
    rw [hset, hwf.size_eq, hvec, totalSize_append, totalSize_append, totalSize_cons, totalSize_cons]
  · intro d hd
    rcases List.mem_or_eq_of_mem_set hd with hd | rfl
    · exact hwf.chunk d hd
    · exact hcwf'
  · show Indexed 0 (t.vec.set place c')
    rw [hset]
    obtain ⟨h₁, h₂, h₃⟩ := indexed_append.1 hindexed
    exact indexed_append.2 ⟨h₁, h₂, h₃⟩
  · show (t.vec.set place c').Pairwise Apart
    rw [hset]
    obtain ⟨h₁, h₂, h₃⟩ := List.pairwise_append.1 hapart
    obtain ⟨h₄, h₅⟩ := List.pairwise_cons.1 h₂
    refine List.pairwise_append.2 ⟨h₁, List.pairwise_cons.2 ⟨h₄, h₅⟩, fun d hd e he ↦ ?_⟩
    rcases List.mem_cons.1 he with rfl | he
    · exact h₃ d hd c List.mem_cons_self
    · exact h₃ d hd e (List.mem_cons_of_mem c he)
  · exact hset ▸ List.mem_append_right _ List.mem_cons_self
  · show c.base ≤ c.curPtr
    omega
  · show c.curPtr + n * es ≤ c.base + c.size
    omega
  · have hmem : ∀ d, d ∈ t.vec.set place c' ↔ d ∈ pre ∨ d = c' ∨ d ∈ post := fun d ↦ by
      rw [hset, List.mem_append, List.mem_cons]
    have hsplit := c.holds_add_iff es n c' rfl rfl rfl i addr
    rw [← hentry] at hsplit
    constructor
    · rintro ⟨d, hd, hholds⟩
      rcases (hmem d).1 hd with hd | rfl | hd
      · exact .inl ⟨d, hvec ▸ List.mem_append_left _ hd, hholds⟩
      · exact (hsplit.1 hholds).imp_left fun hold ↦ ⟨c, List.mem_of_getElem? hc, hold⟩
      · exact .inl ⟨d, hvec ▸ List.mem_append_right _ (List.mem_cons_of_mem c hd), hholds⟩
    · rintro (⟨d, hd, hholds⟩ | hgave)
      · rw [hvec] at hd
        rcases (hmiddle d).1 hd with hd | rfl | hd
        · exact ⟨d, (hmem d).2 (.inl hd), hholds⟩
        · exact ⟨c', (hmem c').2 (.inr (.inl rfl)), hsplit.2 (.inl hholds)⟩
        · exact ⟨d, (hmem d).2 (.inr (.inr hd)), hholds⟩
      · exact ⟨c', (hmem c').2 (.inr (.inl rfl)), hsplit.2 (.inr hgave)⟩
  · show t.vec.map _ <+: (t.vec.set place c').map _
    rw [hset, hvec, List.map_append, List.map_append, List.map_cons, List.map_cons]
    exact List.prefix_refl _

theorem Table.findRoom_eq_some (hwf : t.Wf) {place : ℕ} (h : t.findRoom n = some place) :
    ∃ c, t.vec[place]? = some c ∧ c.entries + n ≤ c.capacity := by
  have hroom : ∀ c ∈ t.vec[place]?, n ≤ c.room → ∃ c, t.vec[place]? = some c ∧
      c.entries + n ≤ c.capacity := by
    intro c hc hn
    have hcwf := hwf.chunk c (List.mem_of_getElem? hc)
    refine ⟨c, hc, ?_⟩
    have := hcwf.entries_le
    have := hcwf.capacity_lt
    rw [Chunk.room] at hn
    omega
  rw [Table.findRoom] at h
  split_ifs at h with hlast hcompact
  · cases h
    obtain ⟨c, hc, hn⟩ := hlast
    exact hroom c hc hn
  · obtain ⟨c, hc, hn⟩ : ∃ c ∈ t.vec[place]?, n ≤ c.room := by
      simpa using List.find?_some h
    exact hroom c hc hn

theorem Table.Wf.alloc (hwf : t.Wf) (hn : n < 2 ^ 64) (h : t.alloc A n = some (t', a)) :
    Taken t n t' a := by
  rw [Table.alloc] at h
  cases hroom : t.findRoom n with
  | some place =>
    rw [hroom] at h
    obtain ⟨c, hc, hle⟩ := findRoom_eq_some hwf hroom
    have := (hwf.chunk c (List.mem_of_getElem? hc)).capacity_lt
    exact hwf.takeFrom hc (by omega) h
  | none =>
    rw [hroom] at h
    obtain ⟨t₁, hcreate, h⟩ := Option.bind_eq_some_iff.1 h
    have hgrown := hwf.chunkCreate hcreate
    obtain ⟨c, hentries, hvec⟩ := hgrown.vec
    have hlast : t₁.vec[t₁.lastChunk]? = some c := by
      have hlen := hgrown.wf.last
      rw [hvec, List.length_append, List.length_singleton, Nat.add_right_cancel_iff] at hlen
      rw [hvec, hlen, List.getElem?_concat_length]
    have htaken := hgrown.wf.takeFrom hlast (by omega) h
    have hsize := hgrown.entrySize
    -- the new chunk has no entries of its own
    have hholds : ∀ i addr, t₁.Holds i addr ↔ t.Holds i addr := by
      intro i addr
      rw [Table.Holds, Table.Holds, hvec, hsize]
      constructor
      · rintro ⟨d, hd, hold⟩
        rcases List.mem_append.1 hd with hd | hd
        · exact ⟨d, hd, hold⟩
        · obtain ⟨j, hj, -⟩ := hold
          rw [List.mem_singleton.1 hd, hentries] at hj
          exact absurd hj (Nat.not_lt_zero j)
      · rintro ⟨d, hd, hold⟩
        exact ⟨d, List.mem_append_left _ hd, hold⟩
    refine ⟨htaken.wf, htaken.entrySize.trans hsize, htaken.numEntries, ?_, fun i addr ↦ ?_,
      fun i addr hold ↦ htaken.indices i addr ((hholds i addr).2 hold), fun i addr hold ↦ ?_, ?_⟩
    · rw [← hsize]
      exact htaken.inside
    · rw [← hholds, ← hsize]
      exact htaken.holds i addr
    · rw [← hsize]
      exact htaken.bytes i addr ((hholds i addr).2 hold)
    · refine List.IsPrefix.trans ?_ htaken.extents
      rw [hvec, List.map_append]
      exact List.prefix_append _ _

/-! ## Sequences of allocations -/

/-- No index belongs to both allocations. -/
def Table.Allocation.DisjointIndices (a b : Table.Allocation) : Prop :=
  ∀ i, a.idx ≤ i → i < a.idx + a.numEntries → b.idx ≤ i → ¬i < b.idx + b.numEntries

/-- No byte belongs to both allocations. -/
def Table.Allocation.DisjointBytes (entrySize : ℕ) (a b : Table.Allocation) : Prop :=
  ∀ x, a.entry ≤ x → x < a.entry + a.numEntries * entrySize → b.entry ≤ x →
    ¬x < b.entry + b.numEntries * entrySize

/-- The allocation is in the memory of one of the chunks. -/
def Table.Inside (t : Table) (a : Table.Allocation) : Prop :=
  ∃ c ∈ t.vec, c.base ≤ a.entry ∧ a.entry + a.numEntries * t.entrySize ≤ c.base + c.size

/-- The table after the allocations `as`. -/
structure Tracked (t : Table) (as : List Table.Allocation) : Prop where
  wf : t.Wf
  holds : ∀ i addr, t.Holds i addr ↔ ∃ a ∈ as, a.Gave t.entrySize i addr
  indices : as.Pairwise Table.Allocation.DisjointIndices
  bytes : as.Pairwise (Table.Allocation.DisjointBytes t.entrySize)
  inside : ∀ a ∈ as, t.Inside a

/-- A byte of an allocation is in one of its entries. -/
theorem Table.Allocation.exists_gave {entrySize x : ℕ} (hpos : 0 < entrySize) (hle : a.entry ≤ x)
    (hlt : x < a.entry + a.numEntries * entrySize) :
    ∃ i addr, a.Gave entrySize i addr ∧ addr ≤ x ∧ x < addr + entrySize := by
  obtain ⟨y, rfl⟩ := Nat.exists_eq_add_of_le hle
  have hy : y < a.numEntries * entrySize := Nat.lt_of_add_lt_add_left hlt
  refine ⟨_, _, ⟨y / entrySize, (Nat.div_lt_iff_lt_mul hpos).2 hy, rfl, rfl⟩, ?_, ?_⟩
  · have := Nat.div_mul_le_self y entrySize
    omega
  · have h₁ := Nat.div_add_mod y entrySize
    have h₂ := Nat.mod_lt y hpos
    rw [Nat.mul_comm] at h₁
    omega

theorem Table.Inside.mono (h : t.Inside a) (hsize : t'.entrySize = t.entrySize)
    (hextents : t.vec.map Chunk.extent <+: t'.vec.map Chunk.extent) : t'.Inside a := by
  obtain ⟨c, hc, h₁, h₂⟩ := h
  obtain ⟨c', hc', heq⟩ := List.mem_map.1 (hextents.subset (List.mem_map_of_mem hc))
  obtain ⟨hbase, hsize'⟩ := Prod.mk.inj heq
  refine ⟨c', hc', ?_, ?_⟩
  · rwa [hbase]
  · rwa [hbase, hsize', hsize]

variable {as : List Table.Allocation}

theorem Tracked.alloc (h : Tracked t as) (hn : n < 2 ^ 64) (halloc : t.alloc A n = some (t', a)) :
    Tracked t' (as ++ [a]) ∧ t'.entrySize = t.entrySize ∧ a.numEntries = n := by
  have htaken := h.wf.alloc hn halloc
  have hsize := htaken.entrySize
  have hpos := h.wf.entrySize_pos
  refine ⟨⟨htaken.wf, fun i addr ↦ ?_, ?_, ?_, ?_⟩, hsize, htaken.numEntries⟩
  · rw [htaken.holds, h.holds, hsize]
    simp only [List.mem_append, List.mem_singleton, or_and_right, exists_or, exists_eq_left]
  · refine List.pairwise_append.2 ⟨h.indices, List.pairwise_singleton _ _, fun b hb a' ha' ↦ ?_⟩
    rw [List.mem_singleton.1 ha', Table.Allocation.DisjointIndices, htaken.numEntries]
    intro i hi₁ hi₂
    have hheld : t.Holds i (b.entry + (i - b.idx) * t.entrySize) :=
      (h.holds _ _).2 ⟨b, hb, i - b.idx, by omega, by omega, rfl⟩
    have := htaken.indices _ _ hheld
    omega
  · rw [hsize]
    refine List.pairwise_append.2 ⟨h.bytes, List.pairwise_singleton _ _, fun b hb a' ha' ↦ ?_⟩
    rw [List.mem_singleton.1 ha', Table.Allocation.DisjointBytes, htaken.numEntries]
    intro x hx₁ hx₂
    obtain ⟨i, addr, hgave, h₁, h₂⟩ := Table.Allocation.exists_gave hpos hx₁ hx₂
    have := htaken.bytes i addr ((h.holds i addr).2 ⟨b, hb, hgave⟩)
    omega
  · intro b hb
    rcases List.mem_append.1 hb with hb | hb
    · exact (h.inside b hb).mono hsize htaken.extents
    · rw [List.mem_singleton.1 hb, Table.Inside, htaken.numEntries, hsize]
      exact htaken.inside

theorem Tracked.allocs {ns : List ℕ} (h : Tracked t as) (hns : ∀ n ∈ ns, n < 2 ^ 64)
    {bs : List Table.Allocation} (hrun : t.allocs A ns = some (t', bs)) :
    Tracked t' (as ++ bs) ∧ t'.entrySize = t.entrySize ∧
      bs.map Table.Allocation.numEntries = ns := by
  induction ns generalizing t as bs with
  | nil =>
    cases hrun
    rw [List.append_nil]
    exact ⟨h, rfl, rfl⟩
  | cons n ns ih =>
    obtain ⟨⟨t₁, a⟩, halloc, hrun⟩ := Option.bind_eq_some_iff.1 hrun
    obtain ⟨⟨t₂, bs'⟩, hrest, hrun⟩ := Option.bind_eq_some_iff.1 hrun
    cases hrun
    obtain ⟨h₁, hsize₁, hn⟩ := h.alloc (hns n List.mem_cons_self) halloc
    obtain ⟨h₂, hsize₂, hns'⟩ := ih h₁ (fun m hm ↦ hns m (List.mem_cons_of_mem n hm)) hrest
    rw [List.append_assoc] at h₂
    exact ⟨h₂, hsize₂.trans hsize₁, by rw [List.map_cons, hn, hns']⟩

/-- A whole run, from the creation of the table. -/
theorem tracked_of_run {pageSize capacity entrySize : ℕ} {compact : Bool} {ns : List ℕ}
    (hcreate : Table.create A pageSize capacity entrySize compact = some t)
    (hns : ∀ n ∈ ns, n < 2 ^ 64) (hrun : t.allocs A ns = some (t', as)) :
    Tracked t' as ∧ t'.entrySize = entrySize ∧ as.map Table.Allocation.numEntries = ns := by
  obtain ⟨hwf, hsize, hnone⟩ := Table.wf_create hcreate
  have hstart : Tracked t [] := by
    refine ⟨hwf, fun i addr ↦ ?_, List.Pairwise.nil, List.Pairwise.nil, ?_⟩
    · exact iff_of_false (hnone i addr) (by simp)
    · exact fun a ha ↦ absurd ha List.not_mem_nil
  obtain ⟨h, hsize', hns'⟩ := hstart.allocs hns hrun
  exact ⟨h, hsize'.trans hsize, hns'⟩

/-! ## Iteration -/

/-- The calls for a chunk, if none of them stops. -/
def chunkCalls (entrySize : ℕ) (c : Chunk) : List (ℕ × ℕ) :=
  (List.range c.entries).map fun j ↦ (j + c.index, c.base + j * entrySize)

theorem chunkLoop_true (entrySize index : ℕ) (left i entry : ℕ) :
    chunkLoop (fun _ _ ↦ true) entrySize index left i entry =
      ((List.range left).map fun j ↦ (i + j + index, entry + j * entrySize), false) := by
  induction left generalizing i entry with
  | zero => rfl
  | succ left ih =>
    rw [chunkLoop, if_pos rfl, ih, List.range_succ_eq_map, List.map_cons, List.map_map]
    refine Prod.ext (congrArg₂ List.cons ?_ (List.map_congr_left fun j _ ↦ ?_)) rfl
    · rw [Nat.add_zero, Nat.zero_mul, Nat.add_zero]
    · refine Prod.ext ?_ ?_
      · show i + 1 + j + index = i + (j + 1) + index
        omega
      · show entry + entrySize + j * entrySize = entry + (j + 1) * entrySize
        rw [Nat.succ_mul]
        omega

theorem iterateChunks_true (entrySize : ℕ) (vec : List Chunk) :
    iterateChunks (fun _ _ ↦ true) entrySize vec = vec.flatMap (chunkCalls entrySize) := by
  induction vec with
  | nil => rfl
  | cons c vec ih =>
    have hcalls : (chunkLoop (fun _ _ ↦ true) entrySize c.index c.entries 0 c.base) =
        (chunkCalls entrySize c, false) := by
      rw [chunkLoop_true]
      simp [chunkCalls]
    rw [iterateChunks, hcalls, List.flatMap_cons, ih]
    rfl

theorem Table.mem_iterate_iff (t : Table) (i addr : ℕ) :
    (i, addr) ∈ t.iterate (fun _ _ ↦ true) ↔ t.Holds i addr := by
  rw [Table.iterate, iterateChunks_true, List.mem_flatMap]
  refine exists_congr fun c ↦ and_congr_right fun _ ↦ ?_
  rw [chunkCalls, List.mem_map]
  constructor
  · rintro ⟨j, hj, heq⟩
    obtain ⟨rfl, rfl⟩ := Prod.mk.inj heq
    exact ⟨j, List.mem_range.1 hj, Nat.add_comm _ _, rfl⟩
  · rintro ⟨j, hj, rfl, rfl⟩
    exact ⟨j, List.mem_range.2 hj, Prod.ext (Nat.add_comm _ _) rfl⟩

theorem Indexed.pairwise_calls {entrySize k : ℕ} {vec : List Chunk} (h : Indexed k vec)
    (hwf : ∀ c ∈ vec, c.Wf entrySize) :
    ((vec.flatMap (chunkCalls entrySize)).map Prod.fst).Pairwise (· < ·) := by
  induction vec generalizing k with
  | nil => exact List.Pairwise.nil
  | cons c vec ih =>
    rw [List.flatMap_cons, List.map_append]
    refine List.pairwise_append.2 ⟨?_, ih h.2 fun d hd ↦ hwf d (List.mem_cons_of_mem c hd), ?_⟩
    · rw [chunkCalls, List.map_map, List.pairwise_map]
      exact List.pairwise_lt_range.imp fun hij ↦ Nat.add_lt_add_right hij _
    · intro i hi i' hi'
      obtain ⟨⟨_, addr⟩, hcall, rfl⟩ := List.mem_map.1 hi
      obtain ⟨⟨_, addr'⟩, hcall', rfl⟩ := List.mem_map.1 hi'
      obtain ⟨d, hd, hcall'⟩ := List.mem_flatMap.1 hcall'
      obtain ⟨j, hj, heq⟩ := List.mem_map.1 hcall
      obtain ⟨j', -, heq'⟩ := List.mem_map.1 hcall'
      have h₁ := (Prod.mk.inj heq).1
      have h₂ := (Prod.mk.inj heq').1
      have h₃ := List.mem_range.1 hj
      have h₄ := (hwf c List.mem_cons_self).entries_le
      have h₅ := (List.pairwise_cons.1 h.pairwise).1 d hd
      show _ < _
      dsimp only
      omega

/-- The allocations do not share indices or bytes and are in the memory of the chunks, and a callback
that always continues is called once for each index that was allocated, in increasing order and with
the address that was given to it. -/
theorem iterate_follows_allocs {pageSize capacity entrySize : ℕ} {compact : Bool} {ns : List ℕ}
    (hcreate : Table.create A pageSize capacity entrySize compact = some t)
    (hns : ∀ n ∈ ns, n < 2 ^ 64) (hrun : t.allocs A ns = some (t', as)) :
    as.map Table.Allocation.numEntries = ns ∧
    as.Pairwise Table.Allocation.DisjointIndices ∧
    as.Pairwise (Table.Allocation.DisjointBytes entrySize) ∧ (∀ a ∈ as, t'.Inside a) ∧
    ((t'.iterate fun _ _ ↦ true).map Prod.fst).Pairwise (· < ·) ∧
    ∀ i addr, (i, addr) ∈ t'.iterate (fun _ _ ↦ true) ↔ ∃ a ∈ as, a.Gave entrySize i addr := by
  obtain ⟨h, rfl, hns'⟩ := tracked_of_run hcreate hns hrun
  refine ⟨hns', h.indices, h.bytes, h.inside, ?_, fun i addr ↦ ?_⟩
  · rw [Table.iterate, iterateChunks_true]
    exact h.wf.indexed.pairwise_calls h.wf.chunk
  · rw [Table.mem_iterate_iff, h.holds]

/-! ## From an index to an entry and back -/

theorem find?_eq_some_of_unique {α : Type} {p : α → Bool} {l : List α} {x : α} (hx : x ∈ l)
    (hp : p x = true) (huniq : ∀ y ∈ l, p y = true → y = x) : l.find? p = some x := by
  cases hfind : l.find? p with
  | none => exact absurd hp (by simpa using List.find?_eq_none.1 hfind x hx)
  | some y => rw [huniq y (List.mem_of_find?_eq_some hfind) (List.find?_some hfind)]

variable {c d : Chunk} {i addr : ℕ}

/-- An index belongs to one chunk. -/
theorem Table.Wf.eq_of_index (hwf : t.Wf) (hc : c ∈ t.vec) (hd : d ∈ t.vec)
    (hic : c.index ≤ i ∧ i < c.index + c.capacity) (hid : d.index ≤ i ∧ i < d.index + d.capacity) :
    d = c := by
  by_contra hne
  have hdisjoint : t.vec.Pairwise fun c d ↦
      c.index + c.capacity ≤ d.index ∨ d.index + d.capacity ≤ c.index :=
    hwf.indexed.pairwise.imp .inl
  have : Std.Symm fun c d : Chunk ↦
      c.index + c.capacity ≤ d.index ∨ d.index + d.capacity ≤ c.index := ⟨fun _ _ ↦ Or.symm⟩
  have := hdisjoint.forall hd hc hne
  omega

/-- An address belongs to one chunk. -/
theorem Table.Wf.eq_of_entry (hwf : t.Wf) (hc : c ∈ t.vec) (hd : d ∈ t.vec)
    (hac : c.base ≤ addr ∧ addr < c.curPtr) (had : d.base ≤ addr ∧ addr < d.curPtr) : d = c := by
  by_contra hne
  have hapart := hwf.apart.forall hd hc hne
  rw [Apart] at hapart
  have hend : ∀ e ∈ t.vec, e.curPtr ≤ e.base + e.size := fun e he ↦ by
    have hewf := hwf.chunk e he
    rw [hewf.curPtr_eq]
    have := Nat.le_trans (Nat.mul_le_mul_right t.entrySize hewf.entries_le) hewf.bytes_le
    omega
  have := hend c hc
  have := hend d hd
  omega

theorem Table.Wf.chunkLookupIndex_eq (hwf : t.Wf) (hc : c ∈ t.vec)
    (hi : c.index ≤ i ∧ i < c.index + c.capacity) : t.chunkLookupIndex i = some c := by
  have hle := (hwf.indexed.le_index hc).2
  rw [Nat.zero_add, ← hwf.capacity_eq] at hle
  rw [Table.chunkLookupIndex, if_neg (by omega)]
  split_ifs with hlast
  · obtain ⟨d, hd, hid⟩ := hlast
    have hdmem := List.mem_of_getElem? hd
    have := (hwf.chunk d hdmem).entries_le
    rw [hd, hwf.eq_of_index hc hdmem hi (by omega)]
  · refine find?_eq_some_of_unique (List.mem_reverse.2 hc) (by simpa using hi) fun d hd hid ↦ ?_
    exact hwf.eq_of_index hc (List.mem_reverse.1 hd) hi (by simpa using hid)

theorem Table.Wf.chunkLookupEntry_eq (hwf : t.Wf) (hc : c ∈ t.vec)
    (haddr : c.base ≤ addr ∧ addr < c.curPtr) : t.chunkLookupEntry addr = some c := by
  rw [Table.chunkLookupEntry]
  split_ifs with hlast
  · obtain ⟨d, hd, had⟩ := hlast
    rw [hd, hwf.eq_of_entry hc (List.mem_of_getElem? hd) haddr had]
  · refine find?_eq_some_of_unique (List.mem_reverse.2 hc) (by simpa using haddr) fun d hd had ↦ ?_
    exact hwf.eq_of_entry hc (List.mem_reverse.1 hd) haddr (by simpa using had)

/-- The address of an entry leads back to its index. -/
theorem Table.Wf.getIndex_eq (hwf : t.Wf) (h : t.Holds i addr) : t.getIndex addr = some i := by
  obtain ⟨c, hc, hholds⟩ := h
  have hpos := hwf.entrySize_pos
  obtain ⟨hb₁, hb₂, -⟩ := hholds.bytes (hwf.chunk c hc)
  obtain ⟨j, -, rfl, rfl⟩ := hholds
  rw [Table.getIndex, hwf.chunkLookupEntry_eq hc (by omega), Option.map_some, Nat.add_sub_cancel_left,
    Nat.mul_div_cancel j hpos]

/-- The capacity of the first chunk that has any. -/
def Table.frontCapacity (t : Table) : ℕ :=
  ((t.vec.find? fun c ↦ 0 < c.capacity).map Chunk.capacity).getD 0

/-- The chunk that begins at index 0 is the first one with any capacity. -/
theorem Indexed.index_eq_zero_iff {vec : List Chunk} (h : Indexed 0 vec) (hc : c ∈ vec)
    (hi : c.index ≤ i ∧ i < c.index + c.capacity) :
    c.index = 0 ↔ i < ((vec.find? fun c ↦ 0 < c.capacity).map Chunk.capacity).getD 0 := by
  induction vec with
  | nil => exact absurd hc List.not_mem_nil
  | cons d vec ih =>
    rcases Nat.eq_zero_or_pos d.capacity with hzero | hpos
    · have hrest := h.2
      rw [hzero] at hrest
      rw [List.find?_cons_of_neg (by simp [hzero])]
      rcases List.mem_cons.1 hc with rfl | hc
      · omega
      · exact ih hrest hc
    · rw [List.find?_cons_of_pos (by simpa using hpos), Option.map_some, Option.getD_some]
      rcases List.mem_cons.1 hc with rfl | hc
      · have := h.1
        omega
      · have := (List.pairwise_cons.1 h.pairwise).1 c hc
        omega

/-- The index leads to the address of its entry exactly if no earlier chunk has entries: the whole
index, and not its distance from the start of the chunk, is added to the base of the chunk. -/
theorem Table.Wf.getEntry_eq_iff (hwf : t.Wf) (h : t.Holds i addr) :
    t.getEntry i = some addr ↔ i < t.frontCapacity := by
  obtain ⟨c, hc, hholds⟩ := h
  have hpos := hwf.entrySize_pos
  have hcwf := hwf.chunk c hc
  have hi := hholds.index hcwf
  have hrange : c.index ≤ i ∧ i < c.index + c.capacity := ⟨hi.1, hi.2.2⟩
  obtain ⟨-, -, hb⟩ := hholds.bytes hcwf
  rw [Table.frontCapacity, ← hwf.indexed.index_eq_zero_iff hc hrange, Table.getEntry,
    hwf.chunkLookupIndex_eq hc hrange, Option.map_some, Option.some_inj]
  obtain ⟨j, -, rfl, rfl⟩ := hholds
  have hbound := hcwf.bound
  have hindex : c.index * t.entrySize < 2 ^ 64 := by
    have h₁ := Nat.mul_le_mul_right t.entrySize (Nat.le_trans (Nat.le_add_right _ c.capacity)
      (hwf.indexed.le_index hc).2)
    have h₂ := totalCapacity_mul_le hwf.chunk
    have h₃ := hwf.size_lt
    rw [Nat.zero_add] at h₁
    rw [hwf.size_eq] at h₃
    omega
  rw [Nat.add_mul]
  constructor
  · intro heq
    have : c.index * t.entrySize = 0 := by omega
    rcases Nat.mul_eq_zero.1 this with h₀ | h₀
    · exact h₀
    · omega
  · intro h₀
    rw [h₀, Nat.zero_mul, Nat.zero_add, Nat.mod_eq_of_lt (by omega)]

/-- For an index that was allocated, index and address are inverse to each other exactly if the index
is in the first chunk. -/
theorem inverse_iff {pageSize capacity entrySize : ℕ} {compact : Bool} {ns : List ℕ}
    (hcreate : Table.create A pageSize capacity entrySize compact = some t)
    (hns : ∀ n ∈ ns, n < 2 ^ 64) (hrun : t.allocs A ns = some (t', as)) (ha : a ∈ as)
    (hgave : a.Gave entrySize i addr) :
    t'.getEntry i = some addr ∧ t'.getIndex addr = some i ↔ i < t'.frontCapacity := by
  obtain ⟨h, rfl, -⟩ := tracked_of_run hcreate hns hrun
  have hholds := (h.holds i addr).2 ⟨a, ha, hgave⟩
  rw [h.wf.getEntry_eq_iff hholds, and_iff_left (h.wf.getIndex_eq hholds)]

end Steps

/-! ## A table with two chunks -/

/-- Memory is handed out in increasing order. -/
def bump : Allocator where
  alloc used size :=
    let base := (used.map fun r ↦ r.1 + r.2).foldr max 4096
    if base + size < 2 ^ 64 ∧ (used.map Prod.snd).sum + size < 2 ^ 64 then some base else none
  fits := by
    intro used size base h
    dsimp only at h
    split_ifs at h with hfits
    cases h
    exact hfits
  apart := by
    intro used size base h r hr
    dsimp only at h
    split_ifs at h with hfits
    cases h
    refine .inr ?_
    clear hfits
    induction used with
    | nil => exact absurd hr List.not_mem_nil
    | cons r' used ih =>
      rw [List.map_cons, List.foldr_cons]
      rcases List.mem_cons.1 hr with rfl | hr
      · exact Nat.le_max_left _ _
      · exact Nat.le_trans (ih hr) (Nat.le_max_right _ _)

/-- Entries of 8 bytes in pages of 4096: the first chunk has room for 512 of them, and the entry
allocated after them opens another chunk. -/
def TwoChunks (t t' : Table) : Prop :=
  Table.create bump 4096 1 8 false = some t ∧
    t.allocs bump [512, 1] = some (t', [⟨4096, 0, 512⟩, ⟨8192, 512, 1⟩])

theorem exists_twoChunks : ∃ t t', TwoChunks t t' := ⟨_, _, rfl, rfl⟩

theorem twoChunks_lt : ∀ n ∈ [512, 1], n < 2 ^ 64 := by decide

/-- The one entry of the second chunk is at its base, but the address returned for its index is 512
entries further. -/
theorem getEntry_twoChunks : ∃ t t', TwoChunks t t' ∧ t'.getIndex 8192 = some 512 ∧
    t'.getEntry 512 = some 12288 := by
  refine ⟨_, _, ⟨rfl, rfl⟩, ?_⟩
  decide

theorem inverse_firstChunk : ∃ t t', TwoChunks t t' ∧
    (t'.getEntry 511 = some 8184 ∧ t'.getIndex 8184 = some 511 ↔ 511 < t'.frontCapacity) := by
  obtain ⟨t, t', hcreate, hrun⟩ := exists_twoChunks
  have hgave : (⟨4096, 0, 512⟩ : Table.Allocation).Gave 8 511 8184 := ⟨511, by decide, rfl, rfl⟩
  exact ⟨t, t', ⟨hcreate, hrun⟩,
    inverse_iff hcreate twoChunks_lt hrun List.mem_cons_self hgave⟩

theorem iterate_twoChunks : ∃ t t', TwoChunks t t' ∧ (512, 8192) ∈ t'.iterate fun _ _ ↦ true := by
  obtain ⟨t, t', hcreate, hrun⟩ := exists_twoChunks
  have hgave : (⟨8192, 512, 1⟩ : Table.Allocation).Gave 8 512 8192 := ⟨0, by decide, rfl, rfl⟩
  obtain ⟨-, -, -, -, -, hiff⟩ := iterate_follows_allocs hcreate twoChunks_lt hrun
  exact ⟨t, t', ⟨hcreate, hrun⟩,
    (hiff 512 8192).2 ⟨_, List.mem_cons_of_mem _ List.mem_cons_self, hgave⟩⟩

end DrAvx.Drtable
