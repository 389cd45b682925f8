import DrAvx.Bits.Lanes
import DrAvx.Containers.Hashtable

/-!
# Persisting a hashtable of `drcontainers`

`hashtable_persist_size` announces the size of the file, `hashtable_persist` writes it and
`hashtable_resurrect` adds what is in a mapped file to a table.  The file is a count, the start
address of the persisted range if keys are to be rebased, and for each entry its key and its
payload: the payload itself, or the memory it points to.  The three loops agree on which entries are
selected and on the layout, and a shift of all keys keeps them apart, so that no addition fails.

What ends the round trip are sizes.  The count is a `uint` and the announced size a `size_t`; and
the table that is filled may be doubled beyond 31 bits, as any table may be.  `roundTrips_iff` says
that there is nothing else.

## What is here

* the code: `persistSize`, `persist` and `resurrect`;
* what it is for: `Restores` for a payload, `Restored` for a table and `RoundTrips`;
* words and bytes: `word_leBytes`;
* `resurrectLoop_eq`: reading what was written adds the entries one by one;
* `Stored.add_new` and `Stored.addEach`: when that succeeds, and what is in the table then;
* `Stored.restored` and `roundTrips_iff`.
-/

set_option autoImplicit false

namespace DrAvx

open Bits

/-- `hasthable_persist_flags_t`. -/
structure PersistFlags where
  payloadIsPointer : Bool
  clonePayload : Bool
  rebaseKey : Bool
  onlyInRange : Bool
  onlyPersisted : Bool

/-- What `dr_persist_start` and `dr_persist_size` return for a persistence context. -/
structure PersistContext where
  start : BitVec 64
  size : BitVec 64

/-- The payload of an entry that was read: a word, the memory at an offset of the mapped file, or a
copy of it on the heap. -/
inductive Loaded
  | inlined (payload : BitVec 64)
  | mapped (offset : ℕ)
  | cloned (bytes : List (BitVec 8))

namespace Hashtable

/-! ## The code -/

/-- The first `n` bytes of a word in memory. -/
def leBytes {w : ℕ} (n : ℕ) (x : BitVec w) : List (BitVec 8) :=
  (List.range n).map fun j ↦ lane 8 j x

/-- The word whose first bytes are `bytes`. -/
def word (w : ℕ) (bytes : List (BitVec 8)) : BitVec w :=
  ofLanes w (fun j ↦ bytes.getD j 0) bytes.length

/-- The `n` bytes of memory from `p` on. -/
def bytesAt (mem : BitVec 64 → BitVec 8) (p : BitVec 64) (n : ℕ) : List (BitVec 8) :=
  (List.range n).map fun j ↦ mem (p + BitVec.ofNat 64 j)

def keyInRange (hashtype : HashType) (key start size : BitVec 64) : Bool :=
  if hashtype ≠ .intptr ∨ size = 0 then true
  else start ≤ key && key ≤ start + (size - 1)

section Persist

-- `persistable` is `dr_fragment_persistable`, `mem` the memory that payloads point to
variable (flags : PersistFlags) (entrySize : ℕ) (perscxt : Option PersistContext)
  (persistable : BitVec 64 → Bool) (mem : BitVec 64 → BitVec 8)

/-- The start of the persisted range; 0 without a context. -/
def persistStart : BitVec 64 := perscxt.elim 0 PersistContext.start

/-- Is the entry written? -/
def selects (hashtype : HashType) (e : HashEntry (BitVec 64)) : Bool :=
  (!flags.onlyInRange ||
    keyInRange hashtype e.key (persistStart perscxt) (perscxt.elim 0 PersistContext.size)) &&
  (!flags.onlyPersisted || persistable e.key)

/-- The entries that are written, in their order. -/
def selected (t : Hashtable (BitVec 64)) : List (HashEntry (BitVec 64)) :=
  (allEntries t.tableBits t.table).filter (selects flags perscxt persistable t.kind.hashtype)

def headerSize : ℕ := 4 + if flags.rebaseKey then 8 else 0

/-- The size that `hashtable_persist_size` returns, and the value of `persist_count`. -/
def persistSize (t : Hashtable (BitVec 64)) : ℕ × ℕ :=
  let count :=
    if t.kind.hashtype = .intptr ∧ (flags.onlyInRange || flags.onlyPersisted) then
      (selected flags perscxt persistable t).length % 2 ^ 32
    else t.entries
  ((headerSize flags + count * (entrySize + 8)) % 2 ^ 64, count)

/-- What is written for a payload. -/
def writePayload (payload : BitVec 64) : List (BitVec 8) :=
  if flags.payloadIsPointer then bytesAt mem payload entrySize else leBytes entrySize payload

/-- What is written for an entry. -/
def writeEntry (e : HashEntry (BitVec 64)) : List (BitVec 8) :=
  leBytes 8 e.key ++ writePayload flags entrySize mem e.payload

/-- The bytes that `hashtable_persist` writes, if it does not return false. -/
def persist (t : Hashtable (BitVec 64)) (persistCount : ℕ) : Option (List (BitVec 8)) :=
  if flags.rebaseKey && perscxt.isNone then none
  else some (leBytes 4 (BitVec.ofNat 32 persistCount) ++
    ((if flags.rebaseKey then leBytes 8 (persistStart perscxt) else []) ++
    (selected flags perscxt persistable t).flatMap (writeEntry flags entrySize mem)))

end Persist

/-- The `n` bytes of the map from `pos` on; nothing is known of what lies behind it. -/
def readAt (map : List (BitVec 8)) (pos n : ℕ) : Option (List (BitVec 8)) :=
  if pos + n ≤ map.length then some ((map.drop pos).take n) else none

section Resurrect

variable (chars : BitVec 64 → List (BitVec 8)) (flags : PersistFlags) (entrySize : ℕ)

/-- The payload that is added for the bytes at `pos`. -/
def loadPayload (pos : ℕ) (bytes : List (BitVec 8)) : Loaded :=
  if flags.payloadIsPointer then
    if flags.clonePayload then .cloned bytes else .mapped pos
  else .inlined (word 64 bytes)

/-- The key that is added for a key that was read. -/
def loadKey (shift key : BitVec 64) : BitVec 64 :=
  if flags.rebaseKey then key + shift else key

/-- The loop of `hashtable_resurrect`, without a `process_payload`: whether all of the remaining
entries were added, the table and the end of what was read. -/
def resurrectLoop (map : List (BitVec 8)) (shift : BitVec 64) :
    ℕ → ℕ → Hashtable Loaded → Option (Bool × Hashtable Loaded × ℕ)
  | 0, pos, t => some (true, t, pos)
  | count + 1, pos, t => do
    let key ← readAt map pos 8
    let inmap ← readAt map (pos + 8) entrySize
    let r ← t.add chars (loadKey flags shift (word 64 key)) (loadPayload flags (pos + 8) inmap)
    if r.2 then resurrectLoop map shift count (pos + 8 + entrySize) r.1
    else some (false, r.1, pos + 8 + entrySize)

/-- `hashtable_resurrect` of a file that is mapped at offset 0. -/
def resurrect (perscxt : Option PersistContext) (map : List (BitVec 8)) (t : Hashtable Loaded) :
    Option (Bool × Hashtable Loaded × ℕ) := do
  let count ← readAt map 0 4
  if flags.rebaseKey then
    match perscxt with
    | none => some (false, t, 4)
    | some context =>
      let storedStart ← readAt map 4 8
      resurrectLoop chars flags entrySize map (context.start - word 64 storedStart)
        (word 32 count).toNat 12 t
  else resurrectLoop chars flags entrySize map 0 (word 32 count).toNat 4 t

end Resurrect

/-! ## What persisting is for -/

/-- The payload that was read is the one that was written. -/
def Restores (flags : PersistFlags) (entrySize : ℕ) (mem : BitVec 64 → BitVec 8)
    (map : List (BitVec 8)) (payload : BitVec 64) : Loaded → Prop
  | .inlined word => flags.payloadIsPointer = false ∧ word = payload
  | .mapped offset => flags.payloadIsPointer = true ∧ flags.clonePayload = false ∧
    (map.drop offset).take entrySize = bytesAt mem payload entrySize
  | .cloned bytes => flags.payloadIsPointer = true ∧ flags.clonePayload = true ∧
    bytes = bytesAt mem payload entrySize

/-- The difference of the start addresses, if keys are rebased. -/
def keyShift (flags : PersistFlags) (before after : Option PersistContext) : BitVec 64 :=
  if flags.rebaseKey then persistStart after - persistStart before else 0

section Spec

variable (chars : BitVec 64 → List (BitVec 8)) (flags : PersistFlags) (entrySize : ℕ)
  (before after : Option PersistContext) (persistable : BitVec 64 → Bool)
  (mem : BitVec 64 → BitVec 8)

/-- The table is the finite map of the selected entries of `m`, with their keys shifted. -/
def Restored (hashtype : HashType) (m : BitVec 64 → Option (BitVec 64)) (map : List (BitVec 8))
    (t : Hashtable Loaded) : Prop :=
  ∃ m', Refines chars t m' ∧ ∀ key,
    match (m key).filter fun p ↦ selects flags before persistable hashtype ⟨key, p⟩ with
    | some p => ∃ l, m' (key + keyShift flags before after) = some l ∧
      Restores flags entrySize mem map p l
    | none => m' (key + keyShift flags before after) = none

/-- The table `t` is persisted, in the announced size, and read back into `target`, all of it. -/
def RoundTrips (t : Hashtable (BitVec 64)) (m : BitVec 64 → Option (BitVec 64))
    (target : Hashtable Loaded) : Prop :=
  let announced := persistSize flags entrySize before persistable t
  ∃ bytes t', persist flags entrySize before persistable mem t announced.2 = some bytes ∧
    bytes.length = announced.1 ∧
    resurrect chars flags entrySize after bytes target = some (true, t', bytes.length) ∧
    Restored chars flags entrySize before after persistable mem t.kind.hashtype m bytes t'

end Spec

/-! ## Words and bytes -/

@[simp] theorem length_leBytes {w : ℕ} (n : ℕ) (x : BitVec w) : (leBytes n x).length = n := by
  simp [leBytes]

@[simp] theorem length_bytesAt (mem : BitVec 64 → BitVec 8) (p : BitVec 64) (n : ℕ) :
    (bytesAt mem p n).length = n := by
  simp [bytesAt]

/-- A word is what its first bytes say if its other bits are zero. -/
theorem word_leBytes {w n : ℕ} {x : BitVec w} (hx : x.toNat < 2 ^ (8 * n)) :
    word w (leBytes n x) = x := by
  refine BitVec.eq_of_getLsbD_eq fun i hi ↦ ?_
  rw [word, getLsbD_ofLanes (by decide) _ hi, length_leBytes]
  by_cases hin : i < 8 * n
  · have hdiv : i / 8 < n := by omega
    have hget : (leBytes n x).getD (i / 8) 0 = lane 8 (i / 8) x := by
      rw [leBytes, List.getD_eq_getElem?_getD, List.getElem?_map, List.getElem?_range hdiv]
      rfl
    rw [hget, getLsbD_lane, Nat.div_add_mod, decide_eq_true hin,
      decide_eq_true (Nat.mod_lt i (by decide)), Bool.true_and, Bool.true_and]
  · rw [decide_eq_false hin, Bool.false_and]
    symm
    refine Nat.testBit_lt_two_pow (hx.trans_le (Nat.pow_le_pow_right (by decide) ?_))
    omega

theorem word_leBytes_full {w n : ℕ} (h : w = 8 * n) (x : BitVec w) : word w (leBytes n x) = x :=
  word_leBytes (h ▸ x.isLt)

/-- Reading a part of a map. -/
theorem readAt_append {pre bytes post : List (BitVec 8)} {pos n : ℕ} (hpos : pos = pre.length)
    (hn : n = bytes.length) : readAt (pre ++ (bytes ++ post)) pos n = some bytes := by
  subst hpos hn
  rw [readAt, if_pos (by simp), List.drop_left, List.take_left]

/-! ## The entries of a file -/

section Layout

variable {flags : PersistFlags} {entrySize : ℕ} {mem : BitVec 64 → BitVec 8} {shift : BitVec 64}

@[simp] theorem length_writePayload (payload : BitVec 64) :
    (writePayload flags entrySize mem payload).length = entrySize := by
  rw [writePayload]
  split_ifs <;> simp

@[simp] theorem length_writeEntry (e : HashEntry (BitVec 64)) :
    (writeEntry flags entrySize mem e).length = 8 + entrySize := by
  simp [writeEntry]

theorem length_flatMap_writeEntry (l : List (HashEntry (BitVec 64))) :
    (l.flatMap (writeEntry flags entrySize mem)).length = l.length * (entrySize + 8) := by
  induction l with
  | nil => simp
  | cons e l ih =>
    rw [List.flatMap_cons, List.length_append, length_writeEntry, ih, List.length_cons, Nat.add_mul,
      Nat.one_mul]
    omega

variable (flags entrySize mem shift) in
/-- The entries that are added when the entries `l` are read from offset `pos` on. -/
def loadedFrom : ℕ → List (HashEntry (BitVec 64)) → List (HashEntry Loaded)
  | _, [] => []
  | pos, e :: l =>
    ⟨loadKey flags shift e.key,
      loadPayload flags (pos + 8) (writePayload flags entrySize mem e.payload)⟩ ::
      loadedFrom (pos + 8 + entrySize) l

theorem map_key_loadedFrom (pos : ℕ) (l : List (HashEntry (BitVec 64))) :
    (loadedFrom flags entrySize mem shift pos l).map HashEntry.key =
      l.map fun e ↦ loadKey flags shift e.key := by
  induction l generalizing pos with
  | nil => rfl
  | cons e l ih => rw [loadedFrom, List.map_cons, List.map_cons, ih]

theorem length_loadedFrom (pos : ℕ) (l : List (HashEntry (BitVec 64))) :
    (loadedFrom flags entrySize mem shift pos l).length = l.length := by
  rw [← List.length_map HashEntry.key, map_key_loadedFrom, List.length_map]

/-- The payload at its place in the file is read as it was written. -/
theorem restores_loadPayload {pre post : List (BitVec 8)} {pos : ℕ} (hpos : pos = pre.length)
    {payload : BitVec 64}
    (hfits : flags.payloadIsPointer = false → payload.toNat < 2 ^ (8 * entrySize)) :
    Restores flags entrySize mem (pre ++ (writePayload flags entrySize mem payload ++ post)) payload
      (loadPayload flags pos (writePayload flags entrySize mem payload)) := by
  subst hpos
  rw [loadPayload]
  cases hpointer : flags.payloadIsPointer with
  | false =>
    rw [if_neg (by simp)]
    refine ⟨hpointer, ?_⟩
    rw [writePayload, hpointer, if_neg (by simp), word_leBytes (hfits hpointer)]
  | true =>
    have hbytes : writePayload flags entrySize mem payload = bytesAt mem payload entrySize := by
      rw [writePayload, hpointer, if_pos rfl]
    rw [if_pos rfl]
    cases hclone : flags.clonePayload with
    | false =>
      rw [if_neg (by simp)]
      refine ⟨hpointer, hclone, ?_⟩
      rw [List.drop_left, hbytes]
      exact List.take_left' (length_bytesAt ..)
    | true => exact ⟨hpointer, hclone, hbytes⟩

theorem restores_of_mem_loadedFrom (pre : List (BitVec 8)) {pos : ℕ} (hpos : pos = pre.length)
    {l : List (HashEntry (BitVec 64))}
    (hfits : flags.payloadIsPointer = false → ∀ e ∈ l, e.payload.toNat < 2 ^ (8 * entrySize)) :
    ∀ a ∈ loadedFrom flags entrySize mem shift pos l, ∃ e ∈ l, a.key = loadKey flags shift e.key ∧
      Restores flags entrySize mem (pre ++ l.flatMap (writeEntry flags entrySize mem)) e.payload
        a.payload := by
  induction l generalizing pre pos with
  | nil => exact fun a ha ↦ absurd ha List.not_mem_nil
  | cons e l ih =>
    intro a ha
    rcases List.mem_cons.1 ha with rfl | ha
    · refine ⟨e, List.mem_cons_self, rfl, ?_⟩
      rw [List.flatMap_cons, writeEntry, List.append_assoc, ← List.append_assoc pre]
      exact restores_loadPayload (by simp [hpos]) fun hp ↦ hfits hp e List.mem_cons_self
    · obtain ⟨e', he', hkey, hrestores⟩ := ih (pre ++ writeEntry flags entrySize mem e)
        (by simp [hpos]; omega) (fun hp a ha ↦ hfits hp a (List.mem_cons_of_mem _ ha)) a ha
      refine ⟨e', List.mem_cons_of_mem _ he', hkey, ?_⟩
      rw [List.flatMap_cons]
      rwa [List.append_assoc] at hrestores

variable (chars : BitVec 64 → List (BitVec 8))

/-- Adds entries until one fails. -/
def addEach {β : Type} : List (HashEntry β) → Hashtable β → Option (Bool × Hashtable β)
  | [], t => some (true, t)
  | e :: l, t => do
    let r ← t.add chars e.key e.payload
    if r.2 then addEach l r.1 else some (false, r.1)

/-- Reading entries that were written adds them, one after the other. -/
theorem resurrectLoop_eq (pre : List (BitVec 8)) {pos : ℕ} (hpos : pos = pre.length)
    (l : List (HashEntry (BitVec 64))) (t t' : Hashtable Loaded) (stop : ℕ) :
    resurrectLoop chars flags entrySize (pre ++ l.flatMap (writeEntry flags entrySize mem)) shift
        l.length pos t = some (true, t', stop) ↔
      addEach chars (loadedFrom flags entrySize mem shift pos l) t = some (true, t') ∧
        stop = pos + l.length * (entrySize + 8) := by
  induction l generalizing pre pos t with
  | nil =>
    rw [List.length_nil, resurrectLoop, loadedFrom, addEach]
    simp only [Option.some.injEq, Prod.mk.injEq, true_and, Nat.zero_mul, Nat.add_zero]
    exact and_congr_right fun _ ↦ eq_comm
  | cons e l ih =>
    have hkey : readAt (pre ++ (e :: l).flatMap (writeEntry flags entrySize mem)) pos 8 =
        some (leBytes 8 e.key) := by
      rw [List.flatMap_cons, writeEntry, List.append_assoc]
      exact readAt_append hpos (length_leBytes 8 e.key).symm
    have hinmap : readAt (pre ++ (e :: l).flatMap (writeEntry flags entrySize mem)) (pos + 8)
        entrySize = some (writePayload flags entrySize mem e.payload) := by
      rw [List.flatMap_cons, writeEntry, List.append_assoc, ← List.append_assoc pre]
      exact readAt_append (by simp [hpos]) (length_writePayload e.payload).symm
    rw [List.length_cons, resurrectLoop, hkey, loadedFrom, addEach, Option.bind_eq_bind,
      Option.bind_some, hinmap, Option.bind_eq_bind, Option.bind_some,
      word_leBytes_full (show 64 = 8 * 8 from rfl)]
    cases hadd : t.add chars (loadKey flags shift e.key)
        (loadPayload flags (pos + 8) (writePayload flags entrySize mem e.payload)) with
    | none => simp
    | some r =>
      rw [Option.bind_eq_bind, Option.bind_some, Option.bind_some]
      cases hr : r.2 with
      | false => simp
      | true =>
        have hpos' : pos + 8 + entrySize = (pre ++ writeEntry flags entrySize mem e).length := by
          simp [hpos]
          omega
        have hnext := ih (pre ++ writeEntry flags entrySize mem e) hpos' r.1
        rw [List.append_assoc] at hnext
        rw [if_pos rfl, if_pos rfl, List.flatMap_cons, hnext]
        refine and_congr_right fun _ ↦ ?_
        rw [Nat.add_mul, Nat.one_mul]
        omega

end Layout

/-! ## Adding entries one by one -/

section Add

variable {β : Type} {chars : BitVec 64 → List (BitVec 8)} {t : Hashtable β}
  {m : BitVec 64 → Option β} {key : BitVec 64}

/-- Reaching the numbers of keys does not take the table to 32 bits. -/
def Roomy (t : Hashtable β) (counts : List ℕ) : Prop :=
  t.config.resizable = true → ¬Outgrows t.config.resizeThreshold t.tableBits counts

/-- A new key is added unless the table is doubled to 32 bits for it. -/
theorem Stored.add_new (h : Stored chars t m) (hkey : m key = none) (payload : β)
    (counts : List ℕ) :
    Returns (t.add chars key payload) (Roomy t ((size chars t.kind m + 1) :: counts)) fun r ↦
      r.2 = true ∧ Stored chars r.1 (put chars t.kind m key (some payload)) ∧
      r.1.kind = t.kind ∧ (Roomy r.1 counts ↔ Roomy t ((size chars t.kind m + 1) :: counts)) := by
  have hsize := size_put_some h.lawful h.respects hkey payload
  rw [h.add_of_none hkey]
  by_cases hd : Doubles t (size chars t.kind (put chars t.kind m key (some payload)))
  · have hgrow := hd.2
    rw [hsize] at hgrow
    by_cases hbits : t.tableBits + 1 < 32
    · obtain ⟨t', ht', hstored, hkind, hconfig, htableBits⟩ := h.insert_of_doubles hkey hd hbits
      rw [ht']
      refine Returns.pure ⟨rfl, hstored, hkind, ?_⟩
      rw [Roomy, Roomy, outgrows_cons_of_lt h.bits_lt hgrow, hconfig, htableBits]
    · rw [h.insert_eq_none hkey hd hbits]
      refine ⟨fun r hr ↦ absurd hr (by simp), fun hroomy ↦ ?_⟩
      refine absurd ((outgrows_cons_of_lt h.bits_lt hgrow).2 ?_) (hroomy hd.1)
      exact outgrows_of_ge (Nat.le_of_not_lt hbits)
  · obtain ⟨t', ht', hstored, hshape⟩ := h.insert_of_not_doubles hkey hd
    rw [ht']
    refine Returns.pure ⟨rfl, hstored, hshape.kind, ?_⟩
    rw [Roomy, Roomy, hshape.config, hshape.tableBits]
    refine imp_congr_right fun hres ↦ not_congr (outgrows_cons_of_not_lt fun hlt ↦ ?_).symm
    exact hd ⟨hres, by rwa [hsize]⟩

/-- Integer keys are equal only to themselves. -/
def ByValue (chars : BitVec 64 → List (BitVec 8)) (kind : KeyKind) : Prop :=
  ∀ a b, keysEqual chars kind a b = (a == b)

theorem put_eq_some_iff {kind : KeyKind} (hvalue : ByValue chars kind) {e : HashEntry β}
    (hkey : m e.key = none) {payload : β} :
    put chars kind m e.key (some e.payload) key = some payload ↔
      m key = some payload ∨ ⟨key, payload⟩ = e := by
  rw [put, hvalue]
  by_cases hek : e.key = key
  · subst hek
    rw [if_pos (beq_self_eq_true _), hkey, Option.some.injEq]
    constructor
    · rintro rfl
      exact .inr rfl
    · rintro (hnone | he)
      · exact absurd hnone (by simp)
      · rw [← he]
  · rw [if_neg (by simpa using hek)]
    refine ⟨.inl, fun h ↦ h.elim id fun he ↦ absurd ?_ hek⟩
    rw [← he]

/-- New keys are added one after the other, unless the table is doubled to 32 bits. -/
theorem Stored.addEach (h : Stored chars t m) (hvalue : ByValue chars t.kind)
    {l : List (HashEntry β)} (hkeys : (l.map HashEntry.key).Nodup)
    (habsent : ∀ e ∈ l, m e.key = none) :
    Returns (Hashtable.addEach chars l t)
      (Roomy t (List.range' (size chars t.kind m + 1) l.length)) fun r ↦
      r.1 = true ∧ Roomy t (List.range' (size chars t.kind m + 1) l.length) ∧
      ∃ m', Stored chars r.2 m' ∧ size chars r.2.kind m' = size chars t.kind m + l.length ∧
        ∀ key payload, m' key = some payload ↔ m key = some payload ∨ ⟨key, payload⟩ ∈ l := by
  induction l generalizing t m with
  | nil => exact Returns.pure ⟨rfl, fun _ ↦ not_outgrows_nil h.bits_lt, m, h, rfl, by simp⟩
  | cons e l ih =>
    rw [List.map_cons, List.nodup_cons] at hkeys
    have hkey := habsent e List.mem_cons_self
    have hsize := size_put_some h.lawful h.respects hkey e.payload
    rw [Hashtable.addEach, List.length_cons, List.range'_succ]
    refine (h.add_new hkey e.payload _).bind ?_
    rintro ⟨t', _⟩ ⟨rfl, hstored, hkind, hroomy⟩
    have habsent' : ∀ a ∈ l, put chars t.kind m e.key (some e.payload) a.key = none := by
      intro a ha
      rw [put, hvalue, if_neg]
      · exact habsent a (List.mem_cons_of_mem _ ha)
      · intro heq
        exact hkeys.1 (List.mem_map.2 ⟨a, ha, (beq_iff_eq.1 heq).symm⟩)
    have hnext := ih hstored (by rwa [hkind]) hkeys.2 habsent'
    rw [hkind, hsize] at hnext
    rw [if_pos rfl]
    refine hnext.mono hroomy.2 ?_
    rintro r ⟨htrue, hr, m', hm', hsize', hmem⟩
    refine ⟨htrue, hroomy.1 hr, m', hm', by omega, fun key payload ↦ ?_⟩
    rw [hmem, put_eq_some_iff hvalue hkey, List.mem_cons, or_assoc]

theorem Stored.addEach_of_empty (h : Stored chars t fun _ ↦ none) (hvalue : ByValue chars t.kind)
    {l : List (HashEntry β)} {n : ℕ} (hn : l.length = n) (hkeys : (l.map HashEntry.key).Nodup) :
    Returns (Hashtable.addEach chars l t) (Roomy t (List.range' 1 n)) fun r ↦
      r.1 = true ∧ Roomy t (List.range' 1 n) ∧
      ∃ m', Stored chars r.2 m' ∧ size chars r.2.kind m' = n ∧
        ∀ key payload, m' key = some payload ↔ ⟨key, payload⟩ ∈ l := by
  have hadd := h.addEach hvalue hkeys fun _ _ ↦ rfl
  rw [size_empty, Nat.zero_add, hn] at hadd
  simpa using hadd

theorem Stored.mem_allEntries_iff (h : Stored chars t m) (hvalue : ByValue chars t.kind)
    {e : HashEntry β} : e ∈ allEntries t.tableBits t.table ↔ m e.key = some e.payload := by
  rw [h.mem_allEntries, h.holds e.key e.payload]
  constructor
  · exact fun he ↦ ⟨e, he, h.lawful.refl _, rfl⟩
  · rintro ⟨a, ha, hkey, hpayload⟩
    rw [hvalue, beq_iff_eq] at hkey
    have hae : a = e := by
      cases a
      cases e
      congr
    rwa [hae] at ha

theorem Stored.length_allEntries (h : Stored chars t m) (hvalue : ByValue chars t.kind) :
    (allEntries t.tableBits t.table).length = size chars t.kind m := by
  have hmem : ∀ e ∈ allEntries t.tableBits t.table, m e.key ≠ none := by
    intro e he
    rw [(h.mem_allEntries_iff hvalue).1 he]
    exact Option.some_ne_none _
  have hnone : (fun k ↦ if (allEntries t.tableBits t.table).any fun e ↦ e.key == k then none
      else m k) = fun _ ↦ none := by
    funext k
    cases hk : m k with
    | none => exact ite_self none
    | some p =>
      refine if_pos (List.any_eq_true.2 ⟨⟨k, p⟩, ?_, beq_self_eq_true k⟩)
      exact (h.mem_allEntries_iff hvalue).2 hk
  rw [← size_drop h.lawful hvalue _ hmem h.nodup, hnone, size_empty, Nat.zero_add]

end Add

/-! ## The round trip -/

section RoundTrip

variable {chars : BitVec 64 → List (BitVec 8)} {flags : PersistFlags} {entrySize : ℕ}
  {before after : Option PersistContext} {persistable : BitVec 64 → Bool}
  {mem : BitVec 64 → BitVec 8} {t : Hashtable (BitVec 64)} {m : BitVec 64 → Option (BitVec 64)}

/-- The counting loop counts the entries that are written. -/
theorem Stored.persistSize_snd (h : Stored chars t m) (hvalue : ByValue chars t.kind)
    (hint : t.kind.hashtype = .intptr) :
    (persistSize flags entrySize before persistable t).2 =
      (selected flags before persistable t).length % 2 ^ 32 := by
  rw [persistSize]
  split_ifs with hfilter
  · rfl
  · -- without a filter every entry is written
    have hnot : ¬(flags.onlyInRange || flags.onlyPersisted) = true := fun hf ↦ hfilter ⟨hint, hf⟩
    rw [Bool.or_eq_true, not_or, Bool.not_eq_true, Bool.not_eq_true] at hnot
    have hall : selected flags before persistable t = allEntries t.tableBits t.table := by
      refine List.filter_eq_self.2 fun e _ ↦ ?_
      rw [selects, hnot.1, hnot.2]
      rfl
    rw [hall, h.length_allEntries hvalue, h.entries]

theorem persistSize_fst (t : Hashtable (BitVec 64)) :
    (persistSize flags entrySize before persistable t).1 =
      (headerSize flags + (persistSize flags entrySize before persistable t).2 * (entrySize + 8)) %
        2 ^ 64 :=
  rfl

variable (flags before) in
/-- What is written before the entries. -/
def header (count : ℕ) : List (BitVec 8) :=
  leBytes 4 (BitVec.ofNat 32 count) ++
    if flags.rebaseKey then leBytes 8 (persistStart before) else []

@[simp] theorem length_header (count : ℕ) :
    (header flags before count).length = headerSize flags := by
  rw [header, headerSize, List.length_append, length_leBytes]
  split_ifs <;> simp

/-- Persisting fails only if keys are to be rebased and there is no context. -/
theorem persist_eq_some_iff {count : ℕ} {bytes : List (BitVec 8)} :
    persist flags entrySize before persistable mem t count = some bytes ↔
      (flags.rebaseKey = true → before.isSome = true) ∧
      bytes = header flags before count ++
        (selected flags before persistable t).flatMap (writeEntry flags entrySize mem) := by
  rw [persist, header, List.append_assoc]
  cases hrebase : flags.rebaseKey <;> cases before <;> simp [eq_comm]

/-- Reading a file with `n` entries. -/
theorem resurrect_eq_some_iff {l : List (HashEntry (BitVec 64))} (hcount : l.length < 2 ^ 32)
    {target t' : Hashtable Loaded} {stop : ℕ} :
    resurrect chars flags entrySize after (header flags before l.length ++
        l.flatMap (writeEntry flags entrySize mem)) target = some (true, t', stop) ↔
      (flags.rebaseKey = true → after.isSome = true) ∧
      addEach chars (loadedFrom flags entrySize mem (keyShift flags before after)
        (headerSize flags) l) target = some (true, t') ∧
      stop = headerSize flags + l.length * (entrySize + 8) := by
  have hfirst : readAt (header flags before l.length ++ l.flatMap (writeEntry flags entrySize mem))
      0 4 = some (leBytes 4 (BitVec.ofNat 32 l.length)) := by
    rw [header, List.append_assoc]
    exact @readAt_append [] _ _ 0 4 rfl (length_leBytes 4 _).symm
  have hword : (word 32 (leBytes 4 (BitVec.ofNat 32 l.length))).toNat = l.length := by
    rw [word_leBytes_full (show 32 = 8 * 4 from rfl), BitVec.toNat_ofNat, Nat.mod_eq_of_lt hcount]
  have hheader : headerSize flags = (header flags before l.length).length :=
    (length_header l.length).symm
  rw [resurrect, hfirst, Option.bind_eq_bind, Option.bind_some, hword]
  cases hrebase : flags.rebaseKey with
  | false =>
    have hsize : headerSize flags = 4 := by rw [headerSize, hrebase]; rfl
    rw [hsize] at hheader ⊢
    rw [if_neg (by simp), resurrectLoop_eq chars _ hheader, keyShift, hrebase, if_neg (by simp)]
    simp
  | true =>
    have hsize : headerSize flags = 12 := by rw [headerSize, hrebase]; rfl
    have hstart : readAt (header flags before l.length ++
        l.flatMap (writeEntry flags entrySize mem)) 4 8 =
          some (leBytes 8 (persistStart before)) := by
      rw [header, hrebase, if_pos rfl, List.append_assoc]
      exact readAt_append (by simp) (length_leBytes 8 _).symm
    rw [hsize] at hheader ⊢
    rw [if_pos rfl]
    cases after with
    | none => simp
    | some context =>
      simp only [hstart, Option.bind_some]
      rw [resurrectLoop_eq chars _ hheader, keyShift, hrebase, if_pos rfl,
        word_leBytes_full (show 64 = 8 * 8 from rfl)]
      simp [persistStart]

/-- The keys that are added are the keys that were written, shifted. -/
theorem loadKey_keyShift (key : BitVec 64) :
    loadKey flags (keyShift flags before after) key = key + keyShift flags before after := by
  rw [loadKey, keyShift]
  split_ifs with hrebase
  · rfl
  · exact (BitVec.add_zero key).symm

theorem nodup_map_key_loadedFrom {l : List (HashEntry (BitVec 64))}
    (hl : (l.map HashEntry.key).Nodup) (pos : ℕ) :
    ((loadedFrom flags entrySize mem (keyShift flags before after) pos l).map
      HashEntry.key).Nodup := by
  rw [map_key_loadedFrom]
  have hmap : (l.map fun e ↦ loadKey flags (keyShift flags before after) e.key) =
      (l.map HashEntry.key).map fun key ↦ key + keyShift flags before after := by
    rw [List.map_map]
    exact List.map_congr_left fun e _ ↦ loadKey_keyShift e.key
  rw [hmap]
  exact hl.map fun _ _ hab ↦ BitVec.add_left_inj _ |>.1 hab

theorem Stored.mem_selected_iff (h : Stored chars t m) (hvalue : ByValue chars t.kind)
    {e : HashEntry (BitVec 64)} : e ∈ selected flags before persistable t ↔
      m e.key = some e.payload ∧ selects flags before persistable t.kind.hashtype e = true := by
  rw [selected, List.mem_filter, h.mem_allEntries_iff hvalue]

theorem Stored.nodup_selected (h : Stored chars t m) (hvalue : ByValue chars t.kind) :
    ((selected flags before persistable t).map HashEntry.key).Nodup := by
  refine List.pairwise_map.2 ((h.nodup.sublist List.filter_sublist).imp fun {a b} hab ↦ ?_)
  rw [hvalue] at hab
  exact beq_eq_false_iff_ne.1 hab

/-- The entries that are added restore the entries that were written. -/
theorem Stored.restored (h : Stored chars t m) (hvalue : ByValue chars t.kind)
    (hfits : flags.payloadIsPointer = false →
      ∀ key p, m key = some p → p.toNat < 2 ^ (8 * entrySize)) (count : ℕ)
    {m' : BitVec 64 → Option Loaded}
    (hm' : ∀ key p, m' key = some p ↔ ⟨key, p⟩ ∈ loadedFrom flags entrySize mem
      (keyShift flags before after) (headerSize flags) (selected flags before persistable t))
    (key : BitVec 64) :
    match (m key).filter fun p ↦ selects flags before persistable t.kind.hashtype ⟨key, p⟩ with
    | some p => ∃ l, m' (key + keyShift flags before after) = some l ∧
      Restores flags entrySize mem (header flags before count ++
        (selected flags before persistable t).flatMap (writeEntry flags entrySize mem)) p l
    | none => m' (key + keyShift flags before after) = none := by
  -- an entry that is added under the shifted key was written under the key
  have hwritten : ∀ l, m' (key + keyShift flags before after) = some l →
      ∃ p, m key = some p ∧ selects flags before persistable t.kind.hashtype ⟨key, p⟩ = true ∧
        Restores flags entrySize mem (header flags before count ++
          (selected flags before persistable t).flatMap (writeEntry flags entrySize mem)) p l := by
    intro l hl
    obtain ⟨e, he, hkey, hrestores⟩ := restores_of_mem_loadedFrom (header flags before count)
      (length_header count).symm (fun hp e he ↦ hfits hp e.key e.payload
        ((h.mem_selected_iff hvalue).1 he).1) _ ((hm' _ l).1 hl)
    obtain ⟨hm, hselects⟩ := (h.mem_selected_iff hvalue).1 he
    rw [loadKey_keyShift, BitVec.add_left_inj] at hkey
    subst hkey
    exact ⟨e.payload, hm, hselects, hrestores⟩
  cases hfilter : (m key).filter fun p ↦
      selects flags before persistable t.kind.hashtype ⟨key, p⟩ with
  | some p =>
    obtain ⟨hp, hselects⟩ := Option.filter_eq_some_iff.1 hfilter
    have hmem : (⟨key, p⟩ : HashEntry (BitVec 64)) ∈ selected flags before persistable t :=
      (h.mem_selected_iff hvalue).2 ⟨hp, hselects⟩
    -- its key is among the keys that are added
    have hkey : key + keyShift flags before after ∈ (loadedFrom flags entrySize mem
        (keyShift flags before after) (headerSize flags)
        (selected flags before persistable t)).map HashEntry.key := by
      rw [map_key_loadedFrom, List.mem_map]
      exact ⟨_, hmem, loadKey_keyShift key⟩
    obtain ⟨⟨_, l⟩, ha, rfl⟩ := List.mem_map.1 hkey
    have hl := (hm' _ l).2 ha
    obtain ⟨p', hp', -, hrestores⟩ := hwritten l hl
    obtain rfl : p = p' := Option.some.inj (hp.symm.trans hp')
    exact ⟨l, hl, hrestores⟩
  | none =>
    refine Option.eq_none_iff_forall_ne_some.2 fun l hl ↦ ?_
    obtain ⟨p, hp, hselects, -⟩ := hwritten l hl
    have := Option.filter_eq_none_iff.1 hfilter p hp
    exact this hselects

/-- The size that is announced is the size of the file unless one of the counters wraps around. -/
theorem announced_eq_iff {header count : ℕ} :
    header + count * (entrySize + 8) = (header + count % 2 ^ 32 * (entrySize + 8)) % 2 ^ 64 ↔
      count < 2 ^ 32 ∧ header + count * (entrySize + 8) < 2 ^ 64 := by
  constructor
  · intro h
    have hlt := Nat.mod_lt (header + count % 2 ^ 32 * (entrySize + 8)) (Nat.two_pow_pos 64)
    have hle := Nat.mod_le (header + count % 2 ^ 32 * (entrySize + 8)) (2 ^ 64)
    rw [← h] at hlt hle
    have hcount : count ≤ count % 2 ^ 32 :=
      Nat.le_of_mul_le_mul_right (Nat.le_of_add_le_add_left hle) (Nat.succ_pos _)
    exact ⟨hcount.trans_lt (Nat.mod_lt _ (Nat.two_pow_pos 32)), hlt⟩
  · rintro ⟨hcount, hsize⟩
    rw [Nat.mod_eq_of_lt hcount, Nat.mod_eq_of_lt hsize]

/-- A table with integer keys is persisted, in the announced size, and read back into an empty one
exactly if there is a context to rebase with, the number of selected entries is a `uint`, the size
of the file is a `size_t`, and the empty table is not doubled to 32 bits. -/
theorem roundTrips_iff (h : Stored chars t m) (hk : Supported t.kind)
    (hint : t.kind.hashtype = .intptr)
    (hfits : flags.payloadIsPointer = false → entrySize ≤ 8 ∧
      ∀ key p, m key = some p → p.toNat < 2 ^ (8 * entrySize))
    {target : Hashtable Loaded} (htarget : Stored chars target fun _ ↦ none)
    (hk' : Supported target.kind) (hint' : target.kind.hashtype = .intptr) :
    RoundTrips chars flags entrySize before after persistable mem t m target ↔
      (flags.rebaseKey = true → before.isSome = true ∧ after.isSome = true) ∧
      (selected flags before persistable t).length < 2 ^ 32 ∧
      headerSize flags + (selected flags before persistable t).length * (entrySize + 8) < 2 ^ 64 ∧
      Roomy target (List.range' 1 (selected flags before persistable t).length) := by
  have hvalue : ByValue chars t.kind := hk.keysEqual_intptr hint
  have hkeys : ((loadedFrom flags entrySize mem (keyShift flags before after) (headerSize flags)
      (selected flags before persistable t)).map HashEntry.key).Nodup :=
    nodup_map_key_loadedFrom (h.nodup_selected hvalue) _
  have hadd := htarget.addEach_of_empty (hk'.keysEqual_intptr hint') (length_loadedFrom ..) hkeys
  constructor
  · rintro ⟨bytes, t', hpersist, hlength, hresurrect, -⟩
    obtain ⟨hbefore, rfl⟩ := persist_eq_some_iff.1 hpersist
    rw [persistSize_fst, h.persistSize_snd hvalue hint, List.length_append, length_header,
      length_flatMap_writeEntry, announced_eq_iff] at hlength
    rw [h.persistSize_snd hvalue hint, Nat.mod_eq_of_lt hlength.1,
      resurrect_eq_some_iff hlength.1] at hresurrect
    obtain ⟨hafter, hloaded, -⟩ := hresurrect
    exact ⟨fun hr ↦ ⟨hbefore hr, hafter hr⟩, hlength.1, hlength.2, (hadd.post _ hloaded).2.1⟩
  · rintro ⟨hcontext, hcount, hsize, hroomy⟩
    obtain ⟨⟨_, t'⟩, hloaded⟩ := hadd.ends hroomy
    obtain ⟨rfl, -, m', hm', hsize', hmem⟩ := hadd.post _ hloaded
    refine ⟨_, t', persist_eq_some_iff.2 ⟨fun hr ↦ (hcontext hr).1, rfl⟩, ?_, ?_, m', ?_, ?_⟩
    · rw [persistSize_fst, h.persistSize_snd hvalue hint, List.length_append, length_header,
        length_flatMap_writeEntry, announced_eq_iff]
      exact ⟨hcount, hsize⟩
    · rw [h.persistSize_snd hvalue hint, Nat.mod_eq_of_lt hcount, resurrect_eq_some_iff hcount,
        List.length_append, length_header, length_flatMap_writeEntry]
      exact ⟨fun hr ↦ (hcontext hr).2, hloaded, rfl⟩
    · rw [hm'.refines_iff_size_lt, hsize']
      exact hcount
    · exact h.restored hvalue (fun hp ↦ (hfits hp).2) _ hmem

/-- The kind of a table with integer keys. -/
abbrev intptrKind : KeyKind := ⟨.intptr, none, none⟩

theorem supported_intptrKind : Supported intptrKind := .inl ⟨rfl, rfl, .inl rfl⟩

/-- A table of 2 buckets with the payload 7 under one key. -/
def oneKey (key : BitVec 64) : Hashtable (BitVec 64) where
  kind := intptrKind
  config := ⟨true, 75⟩
  tableBits := 1
  entries := 1
  table := link (fun _ ↦ []) (hashKey (fun _ ↦ []) intptrKind 1 key) ⟨key, 7⟩

theorem stored_oneKey (key : BitVec 64) :
    Stored (fun _ ↦ []) (oneKey key) (put (fun _ ↦ []) intptrKind (fun _ ↦ none) key (some 7)) :=
  (supported_intptrKind.stored_empty ⟨true, 75⟩ (by decide)).link rfl 7

/-- One entry is read into a table of 31 bits that is resized as soon as there is anything in it. -/
theorem not_roundTrips_threshold_zero :
    Stored (fun _ ↦ []) (oneKey 1) (put (fun _ ↦ []) intptrKind (fun _ ↦ none) 1 (some 7)) ∧
    Stored (fun _ ↦ []) (⟨intptrKind, ⟨true, 0⟩, 31, 0, fun _ ↦ []⟩ : Hashtable Loaded)
      (fun _ ↦ none) ∧
    ¬RoundTrips (fun _ ↦ []) ⟨false, false, false, false, false⟩ 8 none none (fun _ ↦ true)
      (fun _ ↦ 0) (oneKey 1) (put (fun _ ↦ []) intptrKind (fun _ ↦ none) 1 (some 7))
      ⟨intptrKind, ⟨true, 0⟩, 31, 0, fun _ ↦ []⟩ := by
  have hempty : Stored (fun _ ↦ []) (⟨intptrKind, ⟨true, 0⟩, 31, 0, fun _ ↦ []⟩ :
      Hashtable Loaded) fun _ ↦ none := supported_intptrKind.stored_empty ⟨true, 0⟩ (by decide)
  refine ⟨stored_oneKey 1, hempty, ?_⟩
  rintro ⟨bytes, t', hpersist, -, hresurrect, -⟩
  obtain ⟨-, rfl⟩ := persist_eq_some_iff.1 hpersist
  have hselected : selected ⟨false, false, false, false, false⟩ none (fun _ ↦ true) (oneKey 1) =
      [⟨1, 7⟩] := rfl
  have hcount : (persistSize ⟨false, false, false, false, false⟩ 8 none (fun _ ↦ true)
      (oneKey 1)).2 = [(⟨1, 7⟩ : HashEntry (BitVec 64))].length := rfl
  rw [hselected, hcount, resurrect_eq_some_iff (by decide)] at hresurrect
  -- the entry is linked, and then there is no table of 32 bits to move to
  have hadd : ∀ payload, add (fun _ ↦ []) (⟨intptrKind, ⟨true, 0⟩, 31, 0, fun _ ↦ []⟩ :
      Hashtable Loaded) 1 payload = none := by
    intro payload
    rw [hempty.add_of_none rfl,
      hempty.insert_eq_none rfl ((hempty.doubles_iff rfl).2 ⟨rfl, by decide⟩) (by decide),
      Option.map_none]
  have hkey : ∀ shift, loadKey ⟨false, false, false, false, false⟩ shift 1 = 1 := fun _ ↦ rfl
  obtain ⟨-, hloaded, -⟩ := hresurrect
  rw [loadedFrom, addEach, hkey, hadd] at hloaded
  exact absurd hloaded (by simp)

/-- An entry of a persisted range is read back, at another address, into a table with the default
configuration. -/
theorem roundTrips_rebased :
    RoundTrips (fun _ ↦ []) ⟨false, false, true, true, false⟩ 1 (some ⟨0x1000, 0x100⟩)
      (some ⟨0x2000, 0x100⟩) (fun _ ↦ true) (fun _ ↦ 0) (oneKey 0x1010)
      (put (fun _ ↦ []) intptrKind (fun _ ↦ none) 0x1010 (some 7))
      ⟨intptrKind, ⟨true, 75⟩, 1, 0, fun _ ↦ []⟩ := by
  have hfits : ∀ key p, put (fun _ ↦ []) intptrKind (fun _ ↦ none) 0x1010#64 (some 7#64) key =
      some p → p.toNat < 2 ^ (8 * 1) := by
    intro key p hp
    rw [put] at hp
    split_ifs at hp
    rw [← Option.some.inj hp]
    decide
  refine (roundTrips_iff (stored_oneKey 0x1010) supported_intptrKind rfl
    (fun _ ↦ ⟨by decide, hfits⟩) (supported_intptrKind.stored_empty ⟨true, 75⟩ (by decide))
    supported_intptrKind rfl).2 ⟨fun _ ↦ ⟨rfl, rfl⟩, by decide, by decide, ?_⟩
  rintro - ⟨cs, hsub, hlen, -⟩
  have hle : cs.length ≤ 1 := hsub.length_le
  simp at hlen
  omega

end RoundTrip

end Hashtable

end DrAvx
