import DrAvx.Core.Hashtable

/-!
# The hashtable of `drcontainers`

A table of chains.  The bucket of a key depends on `table_bits`, and for strings in more than the
mask: the characters are shifted to places that are clamped by the number of bits.  Where an
addition makes the table too full, `hashtable_check_for_resize` doubles it and relinks all entries
by their new buckets.

A key is a pointer; what two keys being equal means is up to the type of the table, so the table
stands for a finite map on classes of keys.  `Stored` ties the chains to such a map and every
operation is shown to keep it (`Stored.add` and so on).

Two `uint`s end the correspondence.  `entries` wraps around at `2 ^ 32`; and `1U << table_bits` is
undefined from 32 bits on, which the doubling can reach because nothing bounds it and
`resize_threshold` may be as low as one pleases.  `Outgrows` says when that happens, in terms of the
numbers of keys the calls bring about, and `follows_iff` that there is no other failure.
-/

set_option autoImplicit false

namespace DrAvx

/-- `hash_type_t`. -/
inductive HashType
  | intptr
  | string
  | stringNocase
  | custom
  deriving DecidableEq, Repr

/-- How a table treats its keys. -/
structure KeyKind where
  hashtype : HashType
  hashKeyFunc : Option (BitVec 64 → BitVec 32)
  cmpKeyFunc : Option (BitVec 64 → BitVec 64 → Bool)

/-- The part of `hashtable_config_t` that matters for the contents. -/
structure HashtableConfig where
  resizable : Bool
  resizeThreshold : ℕ

structure HashEntry (β : Type) where
  key : BitVec 64
  payload : β

/-- `hashtable_t`; a chain is the list of its entries. -/
structure Hashtable (β : Type) where
  kind : KeyKind
  config : HashtableConfig
  tableBits : ℕ
  entries : ℕ
  table : ℕ → List (HashEntry β)

namespace Hashtable

variable {β : Type}

/-! ## Keys -/

-- `chars` gives the characters, up to the terminating zero, of the string a pointer points to
variable (chars : BitVec 64 → List (BitVec 8))

/-- The loop of `hash_key` over the characters of a string. -/
def hashChars (nocase : Bool) (tableBits : ℕ) (s : List (BitVec 8)) : BitVec 32 :=
  let maxShift := (tableBits + 7) / 8 * 8
  s.zipIdx.foldl (fun hash ci ↦
    let c := if nocase then tolower ci.1 else ci.1
    hash ^^^ c.signExtend 32 <<< min (ci.2 % 4 * 8) maxShift) 0#32

/-- `hash_key`, for a number of bits from 1 to 32. -/
def hashKey (kind : KeyKind) (tableBits : ℕ) (key : BitVec 64) : ℕ :=
  let hash : BitVec 32 :=
    match kind.hashKeyFunc, kind.hashtype with
    | some f, _ => f key
    | none, .string => hashChars false tableBits (chars key)
    | none, .stringNocase => hashChars true tableBits (chars key)
    | none, _ => key.setWidth 32
  (hash &&& BitVec.allOnes 32 >>> (32 - tableBits)).toNat

def striEq (s1 s2 : BitVec 64) : Bool :=
  s1 != 0 && s2 != 0 && (chars s1).map tolower == (chars s2).map tolower

def keysEqual (kind : KeyKind) (key1 key2 : BitVec 64) : Bool :=
  match kind.cmpKeyFunc, kind.hashtype with
  | some cmp, _ => cmp key1 key2
  | none, .string => chars key1 == chars key2
  | none, .stringNocase => striEq chars key1 key2
  | none, _ => key1 == key2

/-! ## Operations -/

/-- `hashtable_init_ex` and `hashtable_configure`; `1U << num_bits` is defined for fewer than 32
bits, and the mask of `hash_key`, a shift by `32 - num_bits`, for at least one. -/
def init (kind : KeyKind) (config : HashtableConfig) (numBits : ℕ) : Option (Hashtable β) :=
  if 0 < numBits ∧ numBits < 32 then some ⟨kind, config, numBits, 0, fun _ ↦ []⟩ else none

/-- `hashtable_lookup`; a missing payload is `NULL`. -/
def lookup (t : Hashtable β) (key : BitVec 64) : Option β :=
  ((t.table (hashKey chars t.kind t.tableBits key)).find?
    fun e ↦ keysEqual chars t.kind e.key key).map HashEntry.payload

/-- Puts an entry at the head of a chain. -/
def link (table : ℕ → List (HashEntry β)) (hindex : ℕ) (e : HashEntry β) : ℕ → List (HashEntry β) :=
  Function.update table hindex (e :: table hindex)

/-- The entries of the buckets of a table, in the order in which loops over it meet them. -/
def allEntries (tableBits : ℕ) (table : ℕ → List (HashEntry β)) : List (HashEntry β) :=
  (List.range (2 ^ tableBits)).flatMap table

/-- The loop that relinks all entries by their buckets among `2 ^ tableBits`. -/
def rehash (kind : KeyKind) (tableBits : ℕ) (es : List (HashEntry β)) : ℕ → List (HashEntry β) :=
  es.foldl (fun table e ↦ link table (hashKey chars kind tableBits e.key) e) fun _ ↦ []

/-- `hashtable_check_for_resize`.  The product on the left is one of `uint`s, the one on the right
of `size_t`s. -/
def checkForResize (t : Hashtable β) : Option (Hashtable β) :=
  if t.config.resizable = true ∧
      t.config.resizeThreshold * 2 ^ t.tableBits < t.entries * 100 % 2 ^ 32 then
    if t.tableBits + 1 < 32 then
      some { t with
        tableBits := t.tableBits + 1
        table := rehash chars t.kind (t.tableBits + 1) (allEntries t.tableBits t.table) }
    else none
  else some t

/-- The end of an addition: the entry is linked in, counted, and the table resized if need be. -/
def insert (t : Hashtable β) (e : HashEntry β) : Option (Hashtable β) :=
  checkForResize chars { t with
    table := link t.table (hashKey chars t.kind t.tableBits e.key) e
    entries := (t.entries + 1) % 2 ^ 32 }

/-- `hashtable_add`, and whether the key was added. -/
def add (t : Hashtable β) (key : BitVec 64) (payload : β) : Option (Hashtable β × Bool) :=
  if (t.table (hashKey chars t.kind t.tableBits key)).any fun e ↦ keysEqual chars t.kind e.key key
  then some (t, false)
  else (t.insert chars ⟨key, payload⟩).map fun t ↦ (t, true)

/-- The loop of `hashtable_add_replace`: the chain with the entry of the key replaced, and the old
payload. -/
def replaceEntry (equal : BitVec 64 → Bool) (new : HashEntry β) :
    List (HashEntry β) → Option (List (HashEntry β) × β)
  | [] => none
  | e :: es =>
    if equal e.key then some (new :: es, e.payload)
    else (replaceEntry equal new es).map fun r ↦ (e :: r.1, r.2)

/-- `hashtable_add_replace`, and the old payload. -/
def addReplace (t : Hashtable β) (key : BitVec 64) (payload : β) :
    Option (Hashtable β × Option β) :=
  let hindex := hashKey chars t.kind t.tableBits key
  match replaceEntry (fun k ↦ keysEqual chars t.kind k key) ⟨key, payload⟩ (t.table hindex) with
  | some (chain, old) =>
    some ({ t with table := Function.update t.table hindex chain }, some old)
  | none => (t.insert chars ⟨key, payload⟩).map fun t ↦ (t, none)

/-- The loop of `hashtable_remove`: the chain without the entry of the key. -/
def unlinkEntry (equal : BitVec 64 → Bool) : List (HashEntry β) → Option (List (HashEntry β))
  | [] => none
  | e :: es => if equal e.key then some es else (unlinkEntry equal es).map (e :: ·)

/-- `entries--` on a `uint`. -/
def decrement (entries : ℕ) : ℕ := (entries + (2 ^ 32 - 1)) % 2 ^ 32

/-- `hashtable_remove`, and whether the key was there. -/
def remove (t : Hashtable β) (key : BitVec 64) : Hashtable β × Bool :=
  let hindex := hashKey chars t.kind t.tableBits key
  match unlinkEntry (fun k ↦ keysEqual chars t.kind k key) (t.table hindex) with
  | some chain =>
    ({ t with table := Function.update t.table hindex chain, entries := decrement t.entries }, true)
  | none => (t, false)

/-- Is the key, compared as a pointer, in the range? -/
def inRange (first last key : BitVec 64) : Bool := first ≤ key && key < last

/-- The inner loop of `hashtable_remove_range`: what is left of a chain, the number of entries, and
whether anything was removed. -/
def sweepChain (first last : BitVec 64) : List (HashEntry β) → ℕ → Bool → List (HashEntry β) × ℕ × Bool
  | [], entries, res => ([], entries, res)
  | e :: es, entries, res =>
    if inRange first last e.key then sweepChain first last es (decrement entries) true
    else
      let r := sweepChain first last es entries res
      (e :: r.1, r.2)

/-- One round of the outer loop of `hashtable_remove_range`. -/
def sweepBucket (first last : BitVec 64) (s : Hashtable β × Bool) (i : ℕ) : Hashtable β × Bool :=
  let r := sweepChain first last (s.1.table i) s.1.entries s.2
  ({ s.1 with table := Function.update s.1.table i r.1, entries := r.2.1 }, r.2.2)

/-- `hashtable_remove_range`, and whether anything was removed. -/
def removeRange (t : Hashtable β) (first last : BitVec 64) : Hashtable β × Bool :=
  (List.range (2 ^ t.tableBits)).foldl (sweepBucket first last) (t, false)

/-- `hashtable_clear`. -/
def clear (t : Hashtable β) : Hashtable β :=
  { t with
    table := (List.range (2 ^ t.tableBits)).foldl (fun table i ↦ Function.update table i []) t.table
    entries := 0 }

/-- A call that may change the table. -/
inductive Op (β : Type)
  | add (key : BitVec 64) (payload : β)
  | addReplace (key : BitVec 64) (payload : β)
  | remove (key : BitVec 64)
  | removeRange (first last : BitVec 64)
  | clear

/-- What a call returns. -/
inductive Result (β : Type)
  | flag (res : Bool)
  | payload (old : Option β)
  | nothing

def step (t : Hashtable β) : Op β → Option (Hashtable β × Result β)
  | .add key payload => (t.add chars key payload).map fun r ↦ (r.1, .flag r.2)
  | .addReplace key payload => (t.addReplace chars key payload).map fun r ↦ (r.1, .payload r.2)
  | .remove key => let r := t.remove chars key; some (r.1, .flag r.2)
  | .removeRange first last => let r := t.removeRange first last; some (r.1, .flag r.2)
  | .clear => some (t.clear, .nothing)

/-! ## What the table is for -/

section Spec

variable (kind : KeyKind)

/-- The finite map `m` with the payload of the keys equal to `key` set. -/
def put (m : BitVec 64 → Option β) (key : BitVec 64) (payload : Option β) : BitVec 64 → Option β :=
  fun k ↦ if keysEqual chars kind key k then payload else m k

/-- The number of keys of a finite map, equal keys being one. -/
noncomputable def size (m : BitVec 64 → Option β) : ℕ :=
  ((fun k ↦ keysEqual chars kind k) '' {k | m k ≠ none}).ncard

/-- The finite map after a call. -/
def applyOp (m : BitVec 64 → Option β) : Op β → BitVec 64 → Option β
  | .add key payload => if (m key).isSome then m else put chars kind m key (some payload)
  | .addReplace key payload => put chars kind m key (some payload)
  | .remove key => put chars kind m key none
  | .removeRange first last => fun k ↦ if inRange first last k then none else m k
  | .clear => fun _ ↦ none

open Classical in
/-- What a call on the finite map returns: an addition fails on the keys present, a replacement
returns the old payload, a removal reports whether there was anything to remove. -/
noncomputable def result (m : BitVec 64 → Option β) : Op β → Result β
  | .add key _ => .flag (m key).isNone
  | .addReplace key _ => .payload (m key)
  | .remove key => .flag (m key).isSome
  | .removeRange first last => .flag (decide (∃ k, inRange first last k = true ∧ m k ≠ none))
  | .clear => .nothing

/-- Does a call bring a new key? -/
def inserts (m : BitVec 64 → Option β) : Op β → Bool
  | .add key _ | .addReplace key _ => (m key).isNone
  | _ => false

/-- The numbers of keys right after those of the calls that bring a new one. -/
noncomputable def insertions : (BitVec 64 → Option β) → List (Op β) → List ℕ
  | _, [] => []
  | m, op :: ops =>
    let m' := applyOp chars kind m op
    if inserts m op then size chars kind m' :: insertions m' ops else insertions m' ops

end Spec

/-- The table is the finite map `m`: its lookups return the payloads, `entries` is the number of
keys, and no key is in the table twice. -/
structure Refines (t : Hashtable β) (m : BitVec 64 → Option β) : Prop where
  lookup : ∀ key, t.lookup chars key = m key
  entries : t.entries = size chars t.kind m
  nodup : (allEntries t.tableBits t.table).Pairwise
    fun a b ↦ keysEqual chars t.kind a.key b.key = false

/-- All along a sequence of calls the table is the finite map, and the calls return what they
should. -/
def Follows : Hashtable β → (BitVec 64 → Option β) → List (Op β) → Prop
  | t, m, [] => Refines chars t m
  | t, m, op :: ops => Refines chars t m ∧ ∃ t', step chars t op = some (t', result m op) ∧
    Follows t' (applyOp chars t.kind m op) ops

/-- The keys are pointers or strings, or are hashed and compared by functions that go together. -/
def Supported (kind : KeyKind) : Prop :=
  (kind.hashKeyFunc = none ∧ kind.cmpKeyFunc = none ∧
    (kind.hashtype = .intptr ∨ kind.hashtype = .string)) ∨
  ∃ hash cmp, kind.hashtype = .custom ∧ kind.hashKeyFunc = some hash ∧ kind.cmpKeyFunc = some cmp ∧
    Equivalence (fun a b ↦ cmp a b = true) ∧ ∀ a b, cmp a b = true → hash a = hash b

/-- Ranges are removed from tables with integer keys only. -/
def Allowed (kind : KeyKind) : Op β → Prop
  | .removeRange _ _ => kind.hashtype = .intptr
  | _ => True

/-- Among the numbers of keys there are, one after the other, ones that double a table of
`tableBits` bits each time, up to 32 bits. -/
def Outgrows (resizeThreshold tableBits : ℕ) (counts : List ℕ) : Prop :=
  ∃ cs : List ℕ, cs.Sublist counts ∧ cs.length = 32 - tableBits ∧
    ∀ j (hj : j < cs.length), resizeThreshold * 2 ^ (tableBits + j) < cs[j] * 100 % 2 ^ 32

/-! ## Keys that are hashed as they are compared -/

/-- Equality of keys is an equivalence, and equal keys have the same bucket. -/
structure Lawful (kind : KeyKind) : Prop where
  equiv : Equivalence fun a b ↦ keysEqual chars kind a b = true
  hash_eq : ∀ tableBits a b, keysEqual chars kind a b = true →
    hashKey chars kind tableBits a = hashKey chars kind tableBits b

variable {chars} {kind : KeyKind} {m : BitVec 64 → Option β} {t : Hashtable β} {key : BitVec 64}

theorem Supported.lawful (h : Supported kind) : Lawful chars kind := by
  rcases h with ⟨hhash, hcmp, hint | hstr⟩ | ⟨hash, cmp, -, hhash, hcmp, hequiv, hrespects⟩
  · have heq : ∀ a b, keysEqual chars kind a b = true ↔ a = b := fun a b ↦ by
      simp only [keysEqual, hcmp, hint, beq_iff_eq]
    refine ⟨⟨fun a ↦ (heq a a).2 rfl, fun h ↦ ?_, fun h h' ↦ ?_⟩, fun tableBits a b h ↦ ?_⟩
    · exact (heq _ _).2 ((heq _ _).1 h).symm
    · exact (heq _ _).2 (((heq _ _).1 h).trans ((heq _ _).1 h'))
    · rw [(heq a b).1 h]
  · have heq : ∀ a b, keysEqual chars kind a b = true ↔ chars a = chars b := fun a b ↦ by
      simp only [keysEqual, hcmp, hstr, beq_iff_eq]
    refine ⟨⟨fun a ↦ (heq a a).2 rfl, fun h ↦ ?_, fun h h' ↦ ?_⟩, fun tableBits a b h ↦ ?_⟩
    · exact (heq _ _).2 ((heq _ _).1 h).symm
    · exact (heq _ _).2 (((heq _ _).1 h).trans ((heq _ _).1 h'))
    · simp only [hashKey, hhash, hstr, (heq a b).1 h]
  · have heq : ∀ a b, keysEqual chars kind a b = cmp a b := fun a b ↦ by
      simp only [keysEqual, hcmp]
    refine ⟨by simpa only [heq] using hequiv, fun tableBits a b h ↦ ?_⟩
    rw [heq] at h
    simp only [hashKey, hhash, hrespects a b h]

theorem hashKey_lt {tableBits : ℕ} (hb : tableBits ≤ 32) :
    hashKey chars kind tableBits key < 2 ^ tableBits := by
  have hmask : (BitVec.allOnes 32 >>> (32 - tableBits)).toNat < 2 ^ tableBits := by
    rw [BitVec.toNat_ushiftRight, BitVec.toNat_allOnes, Nat.shiftRight_eq_div_pow]
    refine Nat.div_lt_of_lt_mul ?_
    rw [← Nat.pow_add, Nat.sub_add_cancel hb]
    omega
  rw [hashKey, BitVec.toNat_and]
  exact Nat.and_le_right.trans_lt hmask

section Lawful

variable (hk : Lawful chars kind)
include hk

theorem Lawful.refl (a : BitVec 64) : keysEqual chars kind a a = true :=
  hk.equiv.refl a

theorem Lawful.symm {a b : BitVec 64} (h : keysEqual chars kind a b = true) :
    keysEqual chars kind b a = true :=
  hk.equiv.symm h

theorem Lawful.trans {a b c : BitVec 64} (h : keysEqual chars kind a b = true)
    (h' : keysEqual chars kind b c = true) : keysEqual chars kind a c = true :=
  hk.equiv.trans h h'

theorem Lawful.symm_false {a b : BitVec 64} (h : keysEqual chars kind a b = false) :
    keysEqual chars kind b a = false := by
  rw [Bool.eq_false_iff] at h ⊢
  exact fun h' ↦ h (hk.symm h')

end Lawful

/-! ## Finite maps on classes of keys -/

/-- Equal keys have the same payload. -/
def Respects (chars : BitVec 64 → List (BitVec 8)) (kind : KeyKind) (m : BitVec 64 → Option β) :
    Prop :=
  ∀ a b, keysEqual chars kind a b = true → m a = m b

@[simp] theorem size_empty : size chars kind (fun _ ↦ none : BitVec 64 → Option β) = 0 := by
  simp [size]

/-- A new key makes one more. -/
theorem size_put_some (hk : Lawful chars kind) (hm : Respects chars kind m) (hkey : m key = none)
    (payload : β) : size chars kind (put chars kind m key (some payload)) = size chars kind m + 1 := by
  have hset : (fun k ↦ keysEqual chars kind k) '' {k | put chars kind m key (some payload) k ≠ none} =
      Insert.insert (keysEqual chars kind key)
        ((fun k ↦ keysEqual chars kind k) '' {k | m k ≠ none}) := by
    ext c
    rw [Set.mem_insert_iff]
    constructor
    · rintro ⟨k, hne, rfl⟩
      cases hkk : keysEqual chars kind key k with
      | false =>
        rw [Set.mem_ofPred_eq, put, if_neg (by simp [hkk])] at hne
        exact .inr ⟨k, hne, rfl⟩
      | true =>
        refine .inl (funext fun a ↦ ?_)
        rw [Bool.eq_iff_iff]
        exact ⟨hk.trans hkk, hk.trans (hk.symm hkk)⟩
    · rintro (rfl | ⟨k, hne, rfl⟩)
      · refine ⟨key, ?_, rfl⟩
        rw [Set.mem_ofPred_eq, put, if_pos (hk.refl key)]
        exact Option.some_ne_none payload
      · refine ⟨k, ?_, rfl⟩
        rw [Set.mem_ofPred_eq, put]
        split_ifs
        · exact Option.some_ne_none payload
        · exact hne
  have hnot : keysEqual chars kind key ∉ (fun k ↦ keysEqual chars kind k) '' {k | m k ≠ none} := by
    rintro ⟨k, hne, hclass⟩
    have hkk : keysEqual chars kind k key = true := (congrFun hclass key).trans (hk.refl key)
    exact hne ((hm k key hkk).trans hkey)
  rw [size, hset, Set.ncard_insert_of_notMem hnot (Set.toFinite _), size]

theorem put_put (a b : Option β) :
    put chars kind (put chars kind m key a) key b = put chars kind m key b := by
  funext k
  rw [put, put, put]
  split_ifs <;> rfl

theorem put_self (hm : Respects chars kind m) : put chars kind m key (m key) = m := by
  funext k
  rw [put]
  split_ifs with h
  · exact hm key k h
  · rfl

theorem respects_put (hk : Lawful chars kind) (hm : Respects chars kind m) (payload : Option β) :
    Respects chars kind (put chars kind m key payload) := by
  intro a b hab
  have hiff : keysEqual chars kind key a = true ↔ keysEqual chars kind key b = true :=
    ⟨fun h ↦ hk.trans h hab, fun h ↦ hk.trans h (hk.symm hab)⟩
  rw [put, put]
  split_ifs with ha hb hb
  · rfl
  · exact absurd (hiff.1 ha) hb
  · exact absurd (hiff.2 hb) ha
  · exact hm a b hab

theorem put_key (hk : Lawful chars kind) (payload : Option β) :
    put chars kind m key payload key = payload := by
  rw [put, if_pos (hk.refl key)]

theorem size_le_of_keys {m' : BitVec 64 → Option β} (h : ∀ k, m' k ≠ none → m k ≠ none) :
    size chars kind m' ≤ size chars kind m :=
  Set.ncard_le_ncard (Set.image_mono h) (Set.toFinite _)

/-- A removed key makes one less. -/
theorem size_put_none (hk : Lawful chars kind) (hm : Respects chars kind m) (hkey : m key ≠ none) :
    size chars kind (put chars kind m key none) + 1 = size chars kind m := by
  obtain ⟨payload, hp⟩ := Option.ne_none_iff_exists'.1 hkey
  rw [← size_put_some hk (respects_put hk hm none) (put_key hk none) payload, put_put, ← hp,
    put_self hm]

theorem size_put_some_of_ne (hk : Lawful chars kind) (hm : Respects chars kind m)
    (hkey : m key ≠ none) (payload : β) :
    size chars kind (put chars kind m key (some payload)) = size chars kind m := by
  rw [← size_put_none hk hm hkey, ← put_put none (some payload),
    size_put_some hk (respects_put hk hm none) (put_key hk none)]

/-! ## Chains -/

/-- A chain with the entries of bucket `i`, no two of them with equal keys. -/
structure Chain (chars : BitVec 64 → List (BitVec 8)) (kind : KeyKind) (tableBits i : ℕ)
    (c : List (HashEntry β)) : Prop where
  placed : ∀ e ∈ c, hashKey chars kind tableBits e.key = i
  distinct : c.Pairwise fun a b ↦ keysEqual chars kind a.key b.key = false

/-- The chain `c` holds the payload of `key` in the finite map `m`. -/
def Holds (chars : BitVec 64 → List (BitVec 8)) (kind : KeyKind) (c : List (HashEntry β))
    (key : BitVec 64) (o : Option β) : Prop :=
  ∀ payload, o = some payload ↔
    ∃ e ∈ c, keysEqual chars kind e.key key = true ∧ e.payload = payload

theorem Holds.none_iff {c : List (HashEntry β)} {o : Option β} (h : Holds chars kind c key o) :
    o = none ↔ ∀ e ∈ c, keysEqual chars kind e.key key = false := by
  constructor
  · intro ho e he
    rw [Bool.eq_false_iff]
    intro heq
    have := (h e.payload).2 ⟨e, he, heq, rfl⟩
    rw [ho] at this
    exact absurd this (by simp)
  · intro hall
    refine Option.eq_none_iff_forall_ne_some.2 fun payload ho ↦ ?_
    obtain ⟨e, he, heq, -⟩ := (h payload).1 ho
    rw [hall e he] at heq
    exact absurd heq (by simp)

theorem Holds.find {c : List (HashEntry β)} {o : Option β} (h : Holds chars kind c key o) :
    (c.find? fun e ↦ keysEqual chars kind e.key key).map HashEntry.payload = o := by
  cases hfind : c.find? fun e ↦ keysEqual chars kind e.key key with
  | none =>
    refine (h.none_iff.2 fun e he ↦ ?_).symm
    exact Bool.eq_false_iff.2 (List.find?_eq_none.1 hfind e he)
  | some e =>
    have heq : keysEqual chars kind e.key key = true := by
      simpa using List.find?_some hfind
    exact ((h e.payload).2 ⟨e, List.mem_of_find?_eq_some hfind, heq, rfl⟩).symm

variable {equal : BitVec 64 → Bool}

/-- The entry that the loop of `hashtable_add_replace` replaces. -/
theorem replaceEntry_eq_some {new : HashEntry β}
    {c c' : List (HashEntry β)} {old : β} (h : replaceEntry equal new c = some (c', old)) :
    ∃ l e r, c = l ++ e :: r ∧ equal e.key = true ∧ c' = l ++ new :: r ∧ old = e.payload := by
  induction c generalizing c' with
  | nil => simp [replaceEntry] at h
  | cons e es ih =>
    rw [replaceEntry] at h
    split_ifs at h with heq
    · obtain ⟨rfl, rfl⟩ := Prod.mk.inj (Option.some.inj h)
      exact ⟨[], e, es, rfl, heq, rfl, rfl⟩
    · obtain ⟨r, hr, hr'⟩ := Option.map_eq_some_iff.1 h
      obtain ⟨rfl, rfl⟩ := Prod.mk.inj hr'
      obtain ⟨l, e', r', rfl, heq', hc', hold⟩ := ih hr
      exact ⟨e :: l, e', r', rfl, heq', by rw [hc', List.cons_append], hold⟩

theorem replaceEntry_eq_none {new : HashEntry β}
    {c : List (HashEntry β)} (h : replaceEntry equal new c = none) :
    ∀ e ∈ c, equal e.key = false := by
  induction c with
  | nil => simp
  | cons e es ih =>
    rw [replaceEntry] at h
    split_ifs at h with heq
    rw [List.forall_mem_cons]
    exact ⟨Bool.eq_false_iff.2 heq, ih (Option.map_eq_none_iff.1 h)⟩

/-- The entry that the loop of `hashtable_remove` unlinks. -/
theorem unlinkEntry_eq_some {c c' : List (HashEntry β)}
    (h : unlinkEntry equal c = some c') :
    ∃ l e r, c = l ++ e :: r ∧ equal e.key = true ∧ c' = l ++ r := by
  induction c generalizing c' with
  | nil => simp [unlinkEntry] at h
  | cons e es ih =>
    rw [unlinkEntry] at h
    split_ifs at h with heq
    · obtain rfl := Option.some.inj h
      exact ⟨[], e, es, rfl, heq, rfl⟩
    · obtain ⟨r, hr, rfl⟩ := Option.map_eq_some_iff.1 h
      obtain ⟨l, e', r', rfl, heq', hc'⟩ := ih hr
      exact ⟨e :: l, e', r', rfl, heq', by rw [hc', List.cons_append]⟩

theorem unlinkEntry_eq_none {c : List (HashEntry β)}
    (h : unlinkEntry equal c = none) : ∀ e ∈ c, equal e.key = false := by
  induction c with
  | nil => simp
  | cons e es ih =>
    rw [unlinkEntry] at h
    split_ifs at h with heq
    rw [List.forall_mem_cons]
    exact ⟨Bool.eq_false_iff.2 heq, ih (Option.map_eq_none_iff.1 h)⟩

section Splice

variable {tableBits i : ℕ} {l r : List (HashEntry β)} {e : HashEntry β} {o : Option β}

/-- In a chain the entry of a key is the only one. -/
theorem Chain.split (hk : Lawful chars kind) (h : Chain chars kind tableBits i (l ++ e :: r))
    {x : HashEntry β} (hx : x ∈ l ++ r) : keysEqual chars kind x.key e.key = false := by
  have hd := List.pairwise_append.1 h.distinct
  rcases List.mem_append.1 hx with hl | hr
  · exact hd.2.2 x hl e List.mem_cons_self
  · exact hk.symm_false ((List.pairwise_cons.1 hd.2.1).1 x hr)

theorem Chain.unlink (h : Chain chars kind tableBits i (l ++ e :: r)) :
    Chain chars kind tableBits i (l ++ r) where
  placed x hx := h.placed x (by
    rw [List.mem_append, List.mem_cons]
    exact (List.mem_append.1 hx).imp_right .inr)
  distinct := h.distinct.sublist (List.Sublist.append_left (List.sublist_cons_self e r) l)

theorem Chain.replace (hk : Lawful chars kind) (h : Chain chars kind tableBits i (l ++ e :: r))
    {new : HashEntry β} (hnew : keysEqual chars kind new.key e.key = true) :
    Chain chars kind tableBits i (l ++ new :: r) where
  placed x hx := by
    rcases List.mem_append.1 hx with hl | hr
    · exact h.placed x (List.mem_append_left _ hl)
    · rcases List.mem_cons.1 hr with rfl | hr
      · rw [hk.hash_eq tableBits _ _ hnew]
        exact h.placed e (by simp)
      · exact h.placed x (by simp [hr])
  distinct := by
    -- the new entry is unequal to the others because the old one is
    have hne : ∀ x ∈ l ++ r, keysEqual chars kind x.key new.key = false := fun x hx ↦ by
      rw [Bool.eq_false_iff]
      intro heq
      have := h.split hk hx
      rw [hk.trans heq hnew] at this
      exact absurd this (by simp)
    have hd := List.pairwise_append.1 h.distinct
    refine List.pairwise_append.2 ⟨hd.1, List.pairwise_cons.2 ⟨fun x hx ↦ ?_,
      (List.pairwise_cons.1 hd.2.1).2⟩, fun x hx y hy ↦ ?_⟩
    · exact hk.symm_false (hne x (List.mem_append_right l hx))
    · rcases List.mem_cons.1 hy with rfl | hy
      · exact hne x (List.mem_append_left r hx)
      · exact hd.2.2 x hx y (List.mem_cons_of_mem e hy)

theorem Chain.link {c : List (HashEntry β)} (h : Chain chars kind tableBits i c)
    (he : hashKey chars kind tableBits e.key = i)
    (hnew : ∀ x ∈ c, keysEqual chars kind e.key x.key = false) :
    Chain chars kind tableBits i (e :: c) where
  placed := List.forall_mem_cons.2 ⟨he, h.placed⟩
  distinct := List.pairwise_cons.2 ⟨hnew, h.distinct⟩

/-- A chain holds for other keys what it holds without an entry. -/
theorem holds_splice_iff (hne : keysEqual chars kind e.key key = false) :
    Holds chars kind (l ++ e :: r) key o ↔ Holds chars kind (l ++ r) key o := by
  refine forall_congr' fun payload ↦ iff_congr Iff.rfl ?_
  constructor
  · rintro ⟨x, hx, heq, hp⟩
    refine ⟨x, ?_, heq, hp⟩
    rcases List.mem_append.1 hx with hl | hr
    · exact List.mem_append_left r hl
    · rcases List.mem_cons.1 hr with rfl | hr
      · rw [hne] at heq
        exact absurd heq (by simp)
      · exact List.mem_append_right l hr
  · rintro ⟨x, hx, heq, hp⟩
    refine ⟨x, ?_, heq, hp⟩
    rw [List.mem_append, List.mem_cons]
    exact (List.mem_append.1 hx).imp_right .inr

/-- For its own key a chain holds the payload of an entry if the others are of other keys. -/
theorem holds_splice_self (heq : keysEqual chars kind e.key key = true)
    (hothers : ∀ x ∈ l ++ r, keysEqual chars kind x.key key = false) :
    Holds chars kind (l ++ e :: r) key (some e.payload) := by
  intro payload
  rw [Option.some.injEq]
  constructor
  · rintro rfl
    exact ⟨e, by simp, heq, rfl⟩
  · rintro ⟨x, hx, hxk, rfl⟩
    rcases List.mem_append.1 hx with hl | hr
    · rw [hothers x (List.mem_append_left r hl)] at hxk
      exact absurd hxk (by simp)
    · rcases List.mem_cons.1 hr with rfl | hr
      · rfl
      · rw [hothers x (List.mem_append_right l hr)] at hxk
        exact absurd hxk (by simp)

theorem holds_none {c : List (HashEntry β)}
    (h : ∀ x ∈ c, keysEqual chars kind x.key key = false) : Holds chars kind c key none := by
  intro payload
  refine ⟨fun hp ↦ absurd hp (by simp), ?_⟩
  rintro ⟨x, hx, heq, -⟩
  rw [h x hx] at heq
  exact absurd heq (by simp)

end Splice

/-! ## Tables -/

/-- The chains of the table hold the finite map `m`. -/
structure Stored (chars : BitVec 64 → List (BitVec 8)) (t : Hashtable β)
    (m : BitVec 64 → Option β) : Prop where
  lawful : Lawful chars t.kind
  bits_lt : t.tableBits < 32
  chain : ∀ i, Chain chars t.kind t.tableBits i (t.table i)
  holds : ∀ key, Holds chars t.kind (t.table (hashKey chars t.kind t.tableBits key)) key (m key)
  entries : t.entries = size chars t.kind m % 2 ^ 32

theorem Stored.respects (h : Stored chars t m) : Respects chars t.kind m := by
  intro a b hab
  refine Option.ext fun payload ↦ ?_
  rw [h.holds a payload, h.holds b payload, h.lawful.hash_eq t.tableBits a b hab]
  refine exists_congr fun e ↦ and_congr_right fun _ ↦ and_congr_left fun _ ↦ ?_
  exact ⟨fun he ↦ h.lawful.trans he hab, fun he ↦ h.lawful.trans he (h.lawful.symm hab)⟩

theorem Stored.lookup_eq (h : Stored chars t m) (key : BitVec 64) : t.lookup chars key = m key :=
  (h.holds key).find

theorem Stored.nodup (h : Stored chars t m) : (allEntries t.tableBits t.table).Pairwise
    fun a b ↦ keysEqual chars t.kind a.key b.key = false := by
  rw [allEntries, List.pairwise_flatMap]
  refine ⟨fun i _ ↦ (h.chain i).distinct, ?_⟩
  -- entries of different buckets are unequal because equal keys have the same bucket
  refine List.nodup_range.pairwise_of_forall_ne fun i _ j _ hij a ha b hb ↦ ?_
  rw [Bool.eq_false_iff]
  intro heq
  have hhash := h.lawful.hash_eq t.tableBits _ _ heq
  rw [(h.chain i).placed a ha, (h.chain j).placed b hb] at hhash
  exact hij hhash

/-- A table is the finite map it stores if there are fewer than `2 ^ 32` keys. -/
theorem Stored.refines_iff_size_lt (h : Stored chars t m) :
    Refines chars t m ↔ size chars t.kind m < 2 ^ 32 := by
  constructor
  · intro href
    rw [← href.entries, h.entries]
    exact Nat.mod_lt _ (by omega)
  · intro hlt
    exact ⟨h.lookup_eq, by rw [h.entries, Nat.mod_eq_of_lt hlt], h.nodup⟩

/-- Changing one chain, and the payloads of the keys of its bucket. -/
theorem Stored.updateChain (h : Stored chars t m) {i : ℕ} {c : List (HashEntry β)}
    {m' : BitVec 64 → Option β} {n : ℕ} (hc : Chain chars t.kind t.tableBits i c)
    (hin : ∀ k, hashKey chars t.kind t.tableBits k = i → Holds chars t.kind c k (m' k))
    (hout : ∀ k, hashKey chars t.kind t.tableBits k ≠ i → m' k = m k)
    (hn : n = size chars t.kind m' % 2 ^ 32) :
    Stored chars { t with table := Function.update t.table i c, entries := n } m' where
  lawful := h.lawful
  bits_lt := h.bits_lt
  chain j := by
    show Chain chars t.kind t.tableBits j (Function.update t.table i c j)
    by_cases hj : j = i
    · subst hj
      rw [Function.update_self]
      exact hc
    · rw [Function.update_of_ne hj]
      exact h.chain j
  holds key := by
    show Holds chars t.kind (Function.update t.table i c _) key _
    by_cases hj : hashKey chars t.kind t.tableBits key = i
    · rw [hj, Function.update_self]
      exact hin key hj
    · rw [Function.update_of_ne hj, hout key hj]
      exact h.holds key
  entries := hn

/-- A finite map changed at a key is the old one at keys of other buckets. -/
theorem put_of_hash_ne (hk : Lawful chars kind) {tableBits : ℕ} {payload : Option β} {k : BitVec 64}
    (hne : hashKey chars kind tableBits k ≠ hashKey chars kind tableBits key) :
    put chars kind m key payload k = m k := by
  rw [put, if_neg]
  exact fun heq ↦ hne (hk.hash_eq tableBits key k heq).symm

section OneChain

variable {l r : List (HashEntry β)} {n : ℕ} {payload : β}

theorem Lawful.others (hk : Lawful chars kind)
    (hothers : ∀ x ∈ l ++ r, keysEqual chars kind x.key key = false) {k : BitVec 64}
    (heq : keysEqual chars kind key k = true) :
    ∀ x ∈ l ++ r, keysEqual chars kind x.key k = false := by
  intro x hx
  rw [Bool.eq_false_iff]
  intro hxk
  have := hothers x hx
  rw [hk.trans hxk (hk.symm heq)] at this
  exact absurd this (by simp)

/-- The chain of a key becomes one that holds `v` for it and what it held for the other keys. -/
theorem Stored.putChain {c : List (HashEntry β)} {v : Option β} (h : Stored chars t m)
    (hc : Chain chars t.kind t.tableBits (hashKey chars t.kind t.tableBits key) c)
    (hself : ∀ k, keysEqual chars t.kind key k = true → Holds chars t.kind c k v)
    (hrest : ∀ k, keysEqual chars t.kind key k = false →
      hashKey chars t.kind t.tableBits k = hashKey chars t.kind t.tableBits key →
      Holds chars t.kind c k (m k))
    (hn : n = size chars t.kind (put chars t.kind m key v) % 2 ^ 32) :
    Stored chars { t with
      table := Function.update t.table (hashKey chars t.kind t.tableBits key) c
      entries := n } (put chars t.kind m key v) := by
  refine h.updateChain hc (fun k hk ↦ ?_) (fun k hk ↦ put_of_hash_ne h.lawful hk) hn
  cases heq : keysEqual chars t.kind key k with
  | true =>
    rw [put, if_pos heq]
    exact hself k heq
  | false =>
    rw [put, if_neg (by simp [heq])]
    exact hrest k heq hk

/-- The chain of a key gets an entry for it. -/
theorem Stored.setEntry (h : Stored chars t m)
    (hc : Chain chars t.kind t.tableBits (hashKey chars t.kind t.tableBits key)
      (l ++ ⟨key, payload⟩ :: r))
    (hothers : ∀ x ∈ l ++ r, keysEqual chars t.kind x.key key = false)
    (hrest : ∀ k, keysEqual chars t.kind key k = false →
      hashKey chars t.kind t.tableBits k = hashKey chars t.kind t.tableBits key →
      Holds chars t.kind (l ++ r) k (m k))
    (hn : n = size chars t.kind (put chars t.kind m key (some payload)) % 2 ^ 32) :
    Stored chars { t with
      table := Function.update t.table (hashKey chars t.kind t.tableBits key)
        (l ++ ⟨key, payload⟩ :: r)
      entries := n } (put chars t.kind m key (some payload)) :=
  h.putChain hc (fun _ heq ↦ holds_splice_self heq (h.lawful.others hothers heq))
    (fun k heq hk ↦ (holds_splice_iff heq).2 (hrest k heq hk)) hn

/-- The chain of a key loses the entry for it. -/
theorem Stored.dropEntry (h : Stored chars t m)
    (hc : Chain chars t.kind t.tableBits (hashKey chars t.kind t.tableBits key) (l ++ r))
    (hothers : ∀ x ∈ l ++ r, keysEqual chars t.kind x.key key = false)
    (hrest : ∀ k, keysEqual chars t.kind key k = false →
      hashKey chars t.kind t.tableBits k = hashKey chars t.kind t.tableBits key →
      Holds chars t.kind (l ++ r) k (m k))
    (hn : n = size chars t.kind (put chars t.kind m key none) % 2 ^ 32) :
    Stored chars { t with
      table := Function.update t.table (hashKey chars t.kind t.tableBits key) (l ++ r)
      entries := n } (put chars t.kind m key none) :=
  h.putChain hc (fun _ heq ↦ holds_none (h.lawful.others hothers heq)) hrest hn

/-- What a chain with an entry of the key is made of. -/
theorem Stored.splitChain (h : Stored chars t m) {e : HashEntry β}
    (hc : t.table (hashKey chars t.kind t.tableBits key) = l ++ e :: r)
    (heq : keysEqual chars t.kind e.key key = true) :
    m key = some e.payload ∧ (∀ x ∈ l ++ r, keysEqual chars t.kind x.key key = false) ∧
    ∀ k, keysEqual chars t.kind key k = false →
      hashKey chars t.kind t.tableBits k = hashKey chars t.kind t.tableBits key →
      Holds chars t.kind (l ++ r) k (m k) := by
  have hchain := h.chain (hashKey chars t.kind t.tableBits key)
  rw [hc] at hchain
  refine ⟨?_, fun x hx ↦ ?_, fun k hne hk ↦ ?_⟩
  · refine (h.holds key e.payload).2 ⟨e, ?_, heq, rfl⟩
    rw [hc]
    simp
  · rw [Bool.eq_false_iff]
    intro hxk
    have := hchain.split h.lawful hx
    rw [h.lawful.trans hxk (h.lawful.symm heq)] at this
    exact absurd this (by simp)
  · have hek : keysEqual chars t.kind e.key k = false := by
      rw [Bool.eq_false_iff] at hne ⊢
      exact fun hek ↦ hne (h.lawful.trans (h.lawful.symm heq) hek)
    have hold := h.holds k
    rw [hk, hc] at hold
    exact (holds_splice_iff hek).1 hold

theorem Stored.size_pos (h : Stored chars t m) (hkey : m key ≠ none) : 0 < size chars t.kind m := by
  rw [← size_put_none h.lawful h.respects hkey]
  exact Nat.succ_pos _

end OneChain

theorem decrement_mod {n : ℕ} (hn : 0 < n) : decrement (n % 2 ^ 32) = (n - 1) % 2 ^ 32 := by
  rw [decrement]
  omega

/-- The table before it is resized. -/
theorem Stored.link (h : Stored chars t m) (hkey : m key = none) (payload : β) :
    Stored chars { t with
      table := Hashtable.link t.table (hashKey chars t.kind t.tableBits key) ⟨key, payload⟩
      entries := (t.entries + 1) % 2 ^ 32 } (put chars t.kind m key (some payload)) := by
  have hothers := (h.holds key).none_iff.1 hkey
  refine h.setEntry (l := []) ?_ hothers (fun k _ hk ↦ ?_) ?_
  · exact (h.chain _).link rfl fun x hx ↦ h.lawful.symm_false (hothers x hx)
  · rw [List.nil_append, ← hk]
    exact h.holds k
  · rw [size_put_some h.lawful h.respects hkey, h.entries]
    omega

/-! ## Doubling -/

theorem foldl_link (tableBits : ℕ) (es : List (HashEntry β)) (table : ℕ → List (HashEntry β))
    (i : ℕ) :
    es.foldl (fun table e ↦ Hashtable.link table (hashKey chars kind tableBits e.key) e) table i =
      (es.filter fun e ↦ hashKey chars kind tableBits e.key = i).reverse ++ table i := by
  induction es generalizing table with
  | nil => rfl
  | cons e es ih =>
    rw [List.foldl_cons, ih, Hashtable.link]
    by_cases hi : hashKey chars kind tableBits e.key = i
    · subst hi
      rw [Function.update_self, List.filter_cons_of_pos (by simp), List.reverse_cons,
        List.append_assoc, List.singleton_append]
    · rw [Function.update_of_ne (Ne.symm hi), List.filter_cons_of_neg (by simpa using hi)]

/-- Relinking puts every entry into its new bucket. -/
theorem rehash_eq (tableBits : ℕ) (es : List (HashEntry β)) (i : ℕ) :
    rehash chars kind tableBits es i =
      (es.filter fun e ↦ hashKey chars kind tableBits e.key = i).reverse := by
  rw [rehash, foldl_link, List.append_nil]

theorem Stored.mem_allEntries (h : Stored chars t m) {e : HashEntry β} :
    e ∈ allEntries t.tableBits t.table ↔
      e ∈ t.table (hashKey chars t.kind t.tableBits e.key) := by
  rw [allEntries, List.mem_flatMap]
  constructor
  · rintro ⟨i, -, hi⟩
    rwa [(h.chain i).placed e hi]
  · intro he
    exact ⟨_, List.mem_range.2 (hashKey_lt h.bits_lt.le), he⟩

theorem Stored.double (h : Stored chars t m) (hbits : t.tableBits + 1 < 32) :
    Stored chars { t with
      tableBits := t.tableBits + 1
      table := rehash chars t.kind (t.tableBits + 1) (allEntries t.tableBits t.table) } m where
  lawful := h.lawful
  bits_lt := hbits
  chain i := by
    show Chain chars t.kind (t.tableBits + 1) i
      (rehash chars t.kind (t.tableBits + 1) (allEntries t.tableBits t.table) i)
    rw [rehash_eq]
    refine ⟨fun e he ↦ ?_, ?_⟩
    · rw [List.mem_reverse, List.mem_filter] at he
      exact of_decide_eq_true he.2
    · rw [List.pairwise_reverse]
      exact (h.nodup.sublist List.filter_sublist).imp fun hab ↦ h.lawful.symm_false hab
  holds key payload := by
    show m key = some payload ↔ ∃ e ∈ rehash chars t.kind (t.tableBits + 1) _ _, _
    rw [h.holds key payload, rehash_eq]
    refine exists_congr fun e ↦ ?_
    rw [List.mem_reverse, List.mem_filter, h.mem_allEntries, decide_eq_true_eq]
    constructor
    · rintro ⟨he, heq, hp⟩
      refine ⟨⟨?_, h.lawful.hash_eq _ _ _ heq⟩, heq, hp⟩
      rwa [h.lawful.hash_eq _ _ _ heq]
    · rintro ⟨⟨he, -⟩, heq, hp⟩
      rw [h.lawful.hash_eq _ _ _ heq] at he
      exact ⟨he, heq, hp⟩
  entries := h.entries

/-! ## Single calls -/

/-- The tables differ in their chains and the number of entries only. -/
structure SameShape (t t' : Hashtable β) : Prop where
  kind : t'.kind = t.kind
  config : t'.config = t.config
  tableBits : t'.tableBits = t.tableBits

theorem SameShape.rfl' : SameShape t t := ⟨rfl, rfl, rfl⟩

theorem SameShape.trans {t' t'' : Hashtable β} (h : SameShape t t') (h' : SameShape t' t'') :
    SameShape t t'' :=
  ⟨h'.kind.trans h.kind, h'.config.trans h.config, h'.tableBits.trans h.tableBits⟩

/-- With `n` keys the table is doubled. -/
def Doubles (t : Hashtable β) (n : ℕ) : Prop :=
  t.config.resizable = true ∧ t.config.resizeThreshold * 2 ^ t.tableBits < n * 100 % 2 ^ 32

section Insert

variable {payload : β}

theorem Stored.doubles_iff (h : Stored chars t m) (hkey : m key = none) :
    Doubles t (size chars t.kind (put chars t.kind m key (some payload))) ↔
      t.config.resizable = true ∧
        t.config.resizeThreshold * 2 ^ t.tableBits < (t.entries + 1) % 2 ^ 32 * 100 % 2 ^ 32 := by
  rw [Doubles, size_put_some h.lawful h.respects hkey, h.entries]
  refine and_congr_right fun _ ↦ ?_
  rw [show (size chars t.kind m + 1) * 100 % 2 ^ 32 =
    (size chars t.kind m % 2 ^ 32 + 1) % 2 ^ 32 * 100 % 2 ^ 32 by omega]

theorem Stored.insert_of_not_doubles (h : Stored chars t m) (hkey : m key = none)
    (hd : ¬Doubles t (size chars t.kind (put chars t.kind m key (some payload)))) :
    ∃ t', t.insert chars ⟨key, payload⟩ = some t' ∧
      Stored chars t' (put chars t.kind m key (some payload)) ∧ SameShape t t' := by
  rw [h.doubles_iff hkey] at hd
  refine ⟨_, ?_, h.link hkey payload, rfl, rfl, rfl⟩
  rw [Hashtable.insert, checkForResize, if_neg hd]

theorem Stored.insert_of_doubles (h : Stored chars t m) (hkey : m key = none)
    (hd : Doubles t (size chars t.kind (put chars t.kind m key (some payload))))
    (hbits : t.tableBits + 1 < 32) :
    ∃ t', t.insert chars ⟨key, payload⟩ = some t' ∧
      Stored chars t' (put chars t.kind m key (some payload)) ∧ t'.kind = t.kind ∧
      t'.config = t.config ∧ t'.tableBits = t.tableBits + 1 := by
  rw [h.doubles_iff hkey] at hd
  refine ⟨_, ?_, (h.link hkey payload).double hbits, rfl, rfl, rfl⟩
  rw [Hashtable.insert, checkForResize, if_pos hd, if_pos hbits]

theorem Stored.insert_eq_none (h : Stored chars t m) (hkey : m key = none)
    (hd : Doubles t (size chars t.kind (put chars t.kind m key (some payload))))
    (hbits : ¬t.tableBits + 1 < 32) : t.insert chars ⟨key, payload⟩ = none := by
  rw [h.doubles_iff hkey] at hd
  rw [Hashtable.insert, checkForResize, if_pos hd, if_neg hbits]

theorem Stored.add_of_none (h : Stored chars t m) (hkey : m key = none) :
    t.add chars key payload = (t.insert chars ⟨key, payload⟩).map fun t ↦ (t, true) := by
  have hany : ¬((t.table (hashKey chars t.kind t.tableBits key)).any
      fun e ↦ keysEqual chars t.kind e.key key) = true := by
    rw [List.any_eq_true]
    rintro ⟨e, he, heq⟩
    rw [(h.holds key).none_iff.1 hkey e he] at heq
    exact absurd heq (by simp)
  rw [add, if_neg hany]

theorem Stored.add_of_ne_none (h : Stored chars t m) (hkey : m key ≠ none) :
    t.add chars key payload = some (t, false) := by
  have hany : ((t.table (hashKey chars t.kind t.tableBits key)).any
      fun e ↦ keysEqual chars t.kind e.key key) = true := by
    obtain ⟨p, hp⟩ := Option.ne_none_iff_exists'.1 hkey
    obtain ⟨e, he, heq, -⟩ := (h.holds key p).1 hp
    exact List.any_eq_true.2 ⟨e, he, heq⟩
  rw [add, if_pos hany]

theorem Stored.addReplace_of_none (h : Stored chars t m) (hkey : m key = none) :
    t.addReplace chars key payload =
      (t.insert chars ⟨key, payload⟩).map fun t ↦ (t, none) := by
  rw [addReplace]
  cases hrep : replaceEntry (fun k ↦ keysEqual chars t.kind k key) ⟨key, payload⟩
      (t.table (hashKey chars t.kind t.tableBits key)) with
  | none => rfl
  | some r =>
    obtain ⟨c', old⟩ := r
    obtain ⟨l, e, r', hc, heq, -⟩ := replaceEntry_eq_some hrep
    have := (h.splitChain hc heq).1
    rw [hkey] at this
    exact absurd this (by simp)

theorem Stored.addReplace_of_ne_none (h : Stored chars t m) (hkey : m key ≠ none) :
    ∃ t', t.addReplace chars key payload = some (t', m key) ∧
      Stored chars t' (put chars t.kind m key (some payload)) ∧ SameShape t t' := by
  rw [addReplace]
  cases hrep : replaceEntry (fun k ↦ keysEqual chars t.kind k key) ⟨key, payload⟩
      (t.table (hashKey chars t.kind t.tableBits key)) with
  | none => exact absurd ((h.holds key).none_iff.2 (replaceEntry_eq_none hrep)) hkey
  | some r =>
    obtain ⟨c', old⟩ := r
    obtain ⟨l, e, r, hc, heq, rfl, rfl⟩ := replaceEntry_eq_some hrep
    obtain ⟨hm, hothers, hrest⟩ := h.splitChain hc heq
    have hchain := h.chain (hashKey chars t.kind t.tableBits key)
    rw [hc] at hchain
    refine ⟨_, by rw [hm], h.setEntry ?_ hothers hrest ?_, rfl, rfl, rfl⟩
    · exact hchain.replace h.lawful (h.lawful.symm heq)
    · rw [size_put_some_of_ne h.lawful h.respects hkey]
      exact h.entries

theorem Stored.remove (h : Stored chars t m) (key : BitVec 64) :
    ∃ t', t.remove chars key = (t', (m key).isSome) ∧
      Stored chars t' (put chars t.kind m key none) ∧ SameShape t t' := by
  rw [Hashtable.remove]
  cases hun : unlinkEntry (fun k ↦ keysEqual chars t.kind k key)
      (t.table (hashKey chars t.kind t.tableBits key)) with
  | none =>
    have hkey := (h.holds key).none_iff.2 (unlinkEntry_eq_none hun)
    refine ⟨t, by rw [hkey, Option.isSome_none], ?_, .rfl'⟩
    rw [← hkey, put_self h.respects]
    exact h
  | some c =>
    obtain ⟨l, e, r, hc, heq, rfl⟩ := unlinkEntry_eq_some hun
    obtain ⟨hm, hothers, hrest⟩ := h.splitChain hc heq
    have hkey : m key ≠ none := hm ▸ Option.some_ne_none _
    have hchain := h.chain (hashKey chars t.kind t.tableBits key)
    rw [hc] at hchain
    refine ⟨_, by rw [hm, Option.isSome_some], h.dropEntry hchain.unlink hothers hrest ?_,
      rfl, rfl, rfl⟩
    rw [h.entries, decrement_mod (h.size_pos hkey), ← size_put_none h.lawful h.respects hkey,
      Nat.add_sub_cancel]

end Insert

theorem foldl_update_nil (table : ℕ → List (HashEntry β)) (l : List ℕ) (i : ℕ) :
    l.foldl (fun table i ↦ Function.update table i []) table i =
      if i ∈ l then [] else table i := by
  induction l generalizing table with
  | nil => rfl
  | cons j l ih =>
    rw [List.foldl_cons, ih]
    by_cases hij : i = j
    · subst hij
      simp
    · simp [hij]

theorem Stored.clear (h : Stored chars t m) : Stored chars t.clear fun _ ↦ none := by
  have hempty : ∀ i, t.clear.table i = [] := by
    intro i
    show (List.range _).foldl (fun table i ↦ Function.update table i []) t.table i = []
    rw [foldl_update_nil]
    split_ifs with hi
    · rfl
    · refine List.eq_nil_iff_forall_not_mem.2 fun e he ↦ hi ?_
      rw [← (h.chain i).placed e he]
      exact List.mem_range.2 (hashKey_lt h.bits_lt.le)
  refine ⟨h.lawful, h.bits_lt, fun i ↦ ?_, fun key ↦ ?_, ?_⟩
  · rw [hempty]
    exact ⟨by simp, List.Pairwise.nil⟩
  · rw [hempty]
    exact holds_none (by simp)
  · rw [size_empty]
    rfl

/-! ## Ranges of integer keys -/

section Range

variable {first last : BitVec 64}

theorem sweepChain_eq (es : List (HashEntry β)) (n : ℕ) (res : Bool) :
    sweepChain first last es n res =
      (es.filter fun e ↦ !inRange first last e.key,
        decrement^[(es.filter fun e ↦ inRange first last e.key).length] n,
        res || es.any fun e ↦ inRange first last e.key) := by
  induction es generalizing n res with
  | nil => simp [sweepChain]
  | cons e es ih =>
    rw [sweepChain]
    split_ifs with hin
    · rw [ih, List.filter_cons_of_neg (by simp [hin]), List.filter_cons_of_pos (by simp [hin]),
        List.length_cons, Function.iterate_succ_apply, List.any_cons, hin]
      simp
    · rw [ih, List.filter_cons_of_pos (by simpa using hin),
        List.filter_cons_of_neg (by simpa using hin), List.any_cons]
      simp [hin]

theorem iterate_decrement {n : ℕ} (c : ℕ) (hc : c ≤ n) :
    decrement^[c] (n % 2 ^ 32) = (n - c) % 2 ^ 32 := by
  induction c generalizing n with
  | zero => rfl
  | succ c ih =>
    rw [Function.iterate_succ_apply, decrement_mod (by omega), ih (by omega), Nat.sub_sub,
      Nat.add_comm 1 c]

/-- Every entry of a list of distinct keys that are present counts once. -/
theorem size_drop (hk : Lawful chars kind) (heq : ∀ a b, keysEqual chars kind a b = (a == b))
    (es : List (HashEntry β)) (hmem : ∀ e ∈ es, m e.key ≠ none)
    (hdistinct : es.Pairwise fun a b ↦ keysEqual chars kind a.key b.key = false) :
    size chars kind (fun k ↦ if es.any fun e ↦ e.key == k then none else m k) + es.length =
      size chars kind m := by
  have hrespects : ∀ m : BitVec 64 → Option β, Respects chars kind m := fun m a b hab ↦ by
    rw [heq, beq_iff_eq] at hab
    rw [hab]
  induction es with
  | nil => simp
  | cons e es ih =>
    rw [List.forall_mem_cons] at hmem
    rw [List.pairwise_cons] at hdistinct
    have hput : (fun k ↦ if (e :: es).any fun e ↦ e.key == k then none else m k) =
        put chars kind (fun k ↦ if es.any fun e ↦ e.key == k then none else m k) e.key none := by
      funext k
      rw [put, heq, List.any_cons]
      by_cases hek : (e.key == k) = true
      · simp [hek]
      · simp [hek]
    have hkey : (if es.any fun x ↦ x.key == e.key then none else m e.key) ≠ none := by
      rw [if_neg]
      · exact hmem.1
      · rw [List.any_eq_true]
        rintro ⟨x, hx, hxe⟩
        have := hdistinct.1 x hx
        rw [heq, beq_eq_false_iff_ne] at this
        exact this (beq_iff_eq.1 hxe).symm
    have hstep := size_put_none (m := fun k ↦ if es.any fun e ↦ e.key == k then none else m k) hk
      (hrespects _) hkey
    rw [hput, List.length_cons, ← ih hmem.2 hdistinct.2, ← hstep]
    omega

/-- The finite map without the keys of a range in certain buckets. -/
def without (chars : BitVec 64 → List (BitVec 8)) (t : Hashtable β) (first last : BitVec 64)
    (m : BitVec 64 → Option β) (buckets : List ℕ) : BitVec 64 → Option β :=
  fun k ↦ if inRange first last k = true ∧ hashKey chars t.kind t.tableBits k ∈ buckets then none
    else m k

theorem Stored.sweepBucket (h : Stored chars t m)
    (heq : ∀ a b, keysEqual chars t.kind a b = (a == b)) (first last : BitVec 64) (res : Bool)
    (i : ℕ) :
    Stored chars (Hashtable.sweepBucket first last (t, res) i).1 (without chars t first last m [i]) ∧
      SameShape t (Hashtable.sweepBucket first last (t, res) i).1 ∧
      ((Hashtable.sweepBucket first last (t, res) i).2 = true ↔ res = true ∨
        ∃ k, inRange first last k = true ∧ hashKey chars t.kind t.tableBits k = i ∧ m k ≠ none) := by
  have hmem : ∀ e ∈ t.table i, m e.key ≠ none := by
    intro e he
    have hhash := (h.chain i).placed e he
    have := (h.holds e.key e.payload).2 ⟨e, hhash ▸ he, h.lawful.refl _, rfl⟩
    rw [this]
    exact Option.some_ne_none _
  have hkeys : ∀ k, hashKey chars t.kind t.tableBits k = i → m k ≠ none →
      ∃ e ∈ t.table i, e.key = k := by
    intro k hk hne
    obtain ⟨p, hp⟩ := Option.ne_none_iff_exists'.1 hne
    obtain ⟨e, he, hek, -⟩ := (h.holds k p).1 hp
    rw [heq, beq_iff_eq] at hek
    exact ⟨e, hk ▸ he, hek⟩
  have hdrop : without chars t first last m [i] = fun k ↦
      if ((t.table i).filter fun e ↦ inRange first last e.key).any fun e ↦ e.key == k then none
      else m k := by
    funext k
    rw [without]
    split_ifs with hin hany hany
    · rfl
    · -- a key of the bucket that is not there has no payload to lose
      by_contra hne
      obtain ⟨e, he, rfl⟩ := hkeys k (List.mem_singleton.1 hin.2) (Ne.symm hne)
      exact hany (List.any_eq_true.2 ⟨e, List.mem_filter.2 ⟨he, hin.1⟩, beq_self_eq_true _⟩)
    · obtain ⟨e, he, hek⟩ := List.any_eq_true.1 hany
      obtain rfl := beq_iff_eq.1 hek
      obtain ⟨he, hrange⟩ := List.mem_filter.1 he
      exact absurd ⟨hrange, List.mem_singleton.2 ((h.chain i).placed e he)⟩ hin
    · rfl
  have hsize := size_drop h.lawful heq ((t.table i).filter fun e ↦ inRange first last e.key)
    (fun e he ↦ hmem e (List.mem_filter.1 he).1)
    ((h.chain i).distinct.sublist List.filter_sublist)
  rw [← hdrop] at hsize
  rw [Hashtable.sweepBucket, sweepChain_eq]
  refine ⟨h.updateChain ⟨fun e he ↦ ?_, ?_⟩ (fun k hk payload ↦ ?_) (fun k hk ↦ ?_) ?_,
    ⟨rfl, rfl, rfl⟩, ?_⟩
  · exact (h.chain i).placed e (List.mem_filter.1 he).1
  · exact (h.chain i).distinct.sublist List.filter_sublist
  · rw [without]
    split_ifs with hin
    · refine ⟨fun hf ↦ absurd hf (by simp), ?_⟩
      rintro ⟨e, he, hek, -⟩
      rw [heq, beq_iff_eq] at hek
      have := (List.mem_filter.1 he).2
      rw [hek, hin.1] at this
      exact absurd this (by simp)
    · rw [h.holds k payload, hk]
      refine exists_congr fun e ↦ ?_
      rw [List.mem_filter]
      constructor
      · rintro ⟨he, hek, hp⟩
        refine ⟨⟨he, ?_⟩, hek, hp⟩
        rw [heq, beq_iff_eq] at hek
        rw [hek, Bool.not_eq_true', Bool.eq_false_iff]
        exact fun hrange ↦ hin ⟨hrange, List.mem_singleton.2 hk⟩
      · rintro ⟨⟨he, -⟩, hek, hp⟩
        exact ⟨he, hek, hp⟩
  · rw [without, if_neg]
    rintro ⟨-, hmem⟩
    exact hk (List.mem_singleton.1 hmem)
  · show decrement^[_] t.entries = _
    rw [h.entries, iterate_decrement _ (hsize ▸ Nat.le_add_left _ _), ← hsize, Nat.add_sub_cancel]
  · show (res || (t.table i).any _) = true ↔ _
    rw [Bool.or_eq_true, List.any_eq_true]
    refine or_congr_right ?_
    constructor
    · rintro ⟨e, he, hrange⟩
      exact ⟨e.key, hrange, (h.chain i).placed e he, hmem e he⟩
    · rintro ⟨k, hrange, hk, hne⟩
      obtain ⟨e, he, rfl⟩ := hkeys k hk hne
      exact ⟨e, he, hrange⟩

theorem Stored.foldl_sweepBucket (h : Stored chars t m)
    (heq : ∀ a b, keysEqual chars t.kind a b = (a == b)) (first last : BitVec 64) (res : Bool)
    (buckets : List ℕ) :
    Stored chars (buckets.foldl (Hashtable.sweepBucket first last) (t, res)).1
        (without chars t first last m buckets) ∧
      SameShape t (buckets.foldl (Hashtable.sweepBucket first last) (t, res)).1 ∧
      ((buckets.foldl (Hashtable.sweepBucket first last) (t, res)).2 = true ↔ res = true ∨
        ∃ k, inRange first last k = true ∧ hashKey chars t.kind t.tableBits k ∈ buckets ∧
          m k ≠ none) := by
  induction buckets generalizing t m res with
  | nil =>
    refine ⟨?_, .rfl', by simp⟩
    have hsame : without chars t first last m [] = m := by
      funext k
      rw [without, if_neg (by simp)]
    rw [hsame]
    exact h
  | cons i buckets ih =>
    obtain ⟨hstored, hshape, hres⟩ := h.sweepBucket heq first last res i
    rcases hst : Hashtable.sweepBucket first last (t, res) i with ⟨t', res'⟩
    rw [hst] at hstored hshape hres
    dsimp only at hstored hshape hres
    have heq' : ∀ a b, keysEqual chars t'.kind a b = (a == b) := by
      rw [hshape.kind]
      exact heq
    obtain ⟨hstored', hshape', hres'⟩ := ih hstored heq' res'
    rw [List.foldl_cons, hst]
    have hwithout : without chars t' first last (without chars t first last m [i]) buckets =
        without chars t first last m (i :: buckets) := by
      funext k
      simp only [without, hshape.kind, hshape.tableBits, List.mem_cons, List.not_mem_nil, or_false]
      by_cases hrange : inRange first last k = true
      · by_cases hin : hashKey chars t.kind t.tableBits k ∈ buckets
        · simp [hin, hrange]
        · simp [hin]
      · simp [hrange]
    rw [hwithout] at hstored'
    refine ⟨hstored', hshape.trans hshape', ?_⟩
    rw [hres', hres, or_assoc]
    refine or_congr_right ?_
    simp only [without, hshape.kind, hshape.tableBits, List.mem_cons, List.not_mem_nil, or_false]
    constructor
    · rintro (⟨k, hrange, hk, hne⟩ | ⟨k, hrange, hk, hne⟩)
      · exact ⟨k, hrange, .inl hk, hne⟩
      · refine ⟨k, hrange, .inr hk, fun hnone ↦ hne ?_⟩
        rw [hnone, ite_self]
    · rintro ⟨k, hrange, hk, hne⟩
      by_cases hki : hashKey chars t.kind t.tableBits k = i
      · exact .inl ⟨k, hrange, hki, hne⟩
      · refine .inr ⟨k, hrange, hk.resolve_left hki, ?_⟩
        rw [if_neg (fun hh ↦ hki hh.2)]
        exact hne

theorem Stored.removeRange (h : Stored chars t m)
    (heq : ∀ a b, keysEqual chars t.kind a b = (a == b)) (first last : BitVec 64) :
    Stored chars (t.removeRange first last).1 (fun k ↦ if inRange first last k then none else m k) ∧
      SameShape t (t.removeRange first last).1 ∧
      ((t.removeRange first last).2 = true ↔ ∃ k, inRange first last k = true ∧ m k ≠ none) := by
  have hall : ∀ k, hashKey chars t.kind t.tableBits k ∈ List.range (2 ^ t.tableBits) :=
    fun k ↦ List.mem_range.2 (hashKey_lt h.bits_lt.le)
  have hmap : without chars t first last m (List.range (2 ^ t.tableBits)) =
      fun k ↦ if inRange first last k then none else m k := by
    funext k
    simp only [without, hall, and_true]
  obtain ⟨hstored, hshape, hres⟩ := h.foldl_sweepBucket heq first last false
    (List.range (2 ^ t.tableBits))
  rw [hmap] at hstored
  simp only [hall, true_and, Bool.false_eq_true, false_or] at hres
  exact ⟨hstored, hshape, hres⟩

end Range

/-! ## Sequences of calls -/

theorem Supported.keysEqual_intptr (hk : Supported kind) (hint : kind.hashtype = .intptr)
    (a b : BitVec 64) : keysEqual chars kind a b = (a == b) := by
  rcases hk with ⟨-, hcmp, -⟩ | ⟨hash, cmp, hcustom, -⟩
  · simp only [keysEqual, hcmp, hint]
  · rw [hint] at hcustom
    exact absurd hcustom (by simp)

/-- A call that brings no new key. -/
theorem Stored.step (h : Stored chars t m) (hk : Supported t.kind) {op : Op β}
    (hop : Allowed t.kind op) (hno : inserts m op = false) :
    ∃ t', Hashtable.step chars t op = some (t', result m op) ∧
      Stored chars t' (applyOp chars t.kind m op) ∧ SameShape t t' := by
  cases op with
  | add key payload =>
    have hkey : m key ≠ none := by
      rw [← Option.isSome_iff_ne_none, ← Option.not_isNone, Bool.not_eq_true']
      exact hno
    refine ⟨t, ?_, ?_, .rfl'⟩
    · rw [Hashtable.step, h.add_of_ne_none hkey, result, show (m key).isNone = false from hno]
      rfl
    · rw [applyOp, if_pos (Option.isSome_iff_ne_none.2 hkey)]
      exact h
  | addReplace key payload =>
    have hkey : m key ≠ none := by
      rw [← Option.isSome_iff_ne_none, ← Option.not_isNone, Bool.not_eq_true']
      exact hno
    obtain ⟨t', ht', hstored, hshape⟩ := h.addReplace_of_ne_none hkey
    refine ⟨t', ?_, hstored, hshape⟩
    rw [Hashtable.step, ht', result]
    rfl
  | remove key =>
    obtain ⟨t', ht', hstored, hshape⟩ := h.remove key
    refine ⟨t', ?_, hstored, hshape⟩
    rw [Hashtable.step, ht', result]
  | removeRange first last =>
    obtain ⟨hstored, hshape, hres⟩ := h.removeRange (hk.keysEqual_intptr hop) first last
    have hflag : Result.flag (t.removeRange first last).2 = result m (.removeRange first last) := by
      rw [result]
      exact congrArg _ (Bool.eq_iff_iff.2 (hres.trans decide_eq_true_iff.symm))
    refine ⟨_, ?_, hstored, hshape⟩
    rw [← hflag]
    rfl
  | clear => exact ⟨_, rfl, h.clear, rfl, rfl, rfl⟩

/-- Without a new key there are not more keys. -/
theorem size_applyOp_le (hm : Respects chars kind m) {op : Op β} (hno : inserts m op = false) :
    size chars kind (applyOp chars kind m op) ≤ size chars kind m := by
  refine size_le_of_keys fun k hk ↦ ?_
  cases op with
  | add key payload =>
    have hkey : (m key).isSome = true := by
      rw [← Option.not_isNone, show (m key).isNone = false from hno]
      rfl
    rwa [applyOp, if_pos hkey] at hk
  | addReplace key payload =>
    rw [applyOp, put] at hk
    split_ifs at hk with heq
    · rw [← hm key k heq, ← Option.isSome_iff_ne_none, ← Option.not_isNone,
        show (m key).isNone = false from hno]
      rfl
    · exact hk
  | remove key =>
    rw [applyOp, put] at hk
    split_ifs at hk
    · exact absurd rfl hk
    · exact hk
  | removeRange first last =>
    simp only [applyOp] at hk
    split_ifs at hk
    · exact absurd rfl hk
    · exact hk
  | clear => exact absurd rfl hk

theorem size_applyOp_le_succ (hk : Lawful chars kind) (m : BitVec 64 → Option β) (op : Op β) :
    size chars kind (applyOp chars kind m op) ≤ size chars kind m + 1 := by
  have hput : ∀ key payload,
      size chars kind (put chars kind m key (some payload)) ≤ size chars kind m + 1 := by
    intro key payload
    rw [size, size]
    refine (Set.ncard_le_ncard ?_ (Set.toFinite _)).trans
      (Set.ncard_insert_le (keysEqual chars kind key) _)
    rintro _ ⟨k, hne, rfl⟩
    rw [Set.mem_ofPred_eq, put] at hne
    split_ifs at hne with heq
    · refine .inl (funext fun a ↦ Bool.eq_iff_iff.2 ?_)
      exact ⟨hk.trans heq, hk.trans (hk.symm heq)⟩
    · exact .inr ⟨k, hne, rfl⟩
  cases op with
  | add key payload =>
    rw [applyOp]
    split_ifs
    · exact Nat.le_succ _
    · exact hput key payload
  | addReplace key payload => exact hput key payload
  | remove key =>
    refine (size_le_of_keys fun k hne ↦ ?_).trans (Nat.le_succ _)
    rw [applyOp, put] at hne
    split_ifs at hne
    · exact absurd rfl hne
    · exact hne
  | removeRange first last =>
    refine (size_le_of_keys fun k hne ↦ ?_).trans (Nat.le_succ _)
    simp only [applyOp] at hne
    split_ifs at hne
    · exact absurd rfl hne
    · exact hne
  | clear =>
    rw [applyOp, size_empty]
    exact Nat.zero_le _

theorem insertions_le (hk : Lawful chars kind) (m : BitVec 64 → Option β) (ops : List (Op β)) :
    ∀ n ∈ insertions chars kind m ops, n ≤ size chars kind m + ops.length := by
  induction ops generalizing m with
  | nil => simp [insertions]
  | cons op ops ih =>
    have hsize := size_applyOp_le_succ hk m op
    have hrest : ∀ n ∈ insertions chars kind (applyOp chars kind m op) ops,
        n ≤ size chars kind m + (op :: ops).length := fun n hn ↦ by
      have := ih _ n hn
      rw [List.length_cons]
      omega
    rw [insertions]
    split_ifs
    · rw [List.forall_mem_cons, List.length_cons]
      exact ⟨by omega, hrest⟩
    · exact hrest

theorem length_insertions_le (m : BitVec 64 → Option β) (ops : List (Op β)) :
    (insertions chars kind m ops).length ≤ ops.length := by
  induction ops generalizing m with
  | nil => exact le_rfl
  | cons op ops ih =>
    rw [insertions, List.length_cons]
    split_ifs
    · exact Nat.succ_le_succ (ih _)
    · exact (ih _).trans (Nat.le_succ _)

/-- A call that brings a new key is an insertion. -/
theorem Stored.step_insert (h : Stored chars t m) {op : Op β} (hnew : inserts m op = true) :
    ∃ key payload, m key = none ∧ applyOp chars t.kind m op = put chars t.kind m key (some payload) ∧
      Hashtable.step chars t op =
        (t.insert chars ⟨key, payload⟩).map fun t' ↦ (t', result m op) := by
  cases op with
  | add key payload =>
    have hkey : m key = none := Option.isNone_iff_eq_none.1 hnew
    refine ⟨key, payload, hkey, ?_, ?_⟩
    · rw [applyOp, hkey]
      rfl
    · rw [Hashtable.step, h.add_of_none hkey, Option.map_map, result, hkey]
      rfl
  | addReplace key payload =>
    have hkey : m key = none := Option.isNone_iff_eq_none.1 hnew
    refine ⟨key, payload, hkey, rfl, ?_⟩
    rw [Hashtable.step, h.addReplace_of_none hkey, Option.map_map, result, hkey]
    rfl
  | remove key => exact absurd hnew (by simp [inserts])
  | removeRange first last => exact absurd hnew (by simp [inserts])
  | clear => exact absurd hnew (by simp [inserts])

theorem follows_head {ops : List (Op β)} (h : Follows chars t m ops) : Refines chars t m := by
  cases ops with
  | nil => exact h
  | cons op ops => exact h.1

section Outgrows

variable {thr b n : ℕ} {ns : List ℕ}

theorem outgrows_of_ge (hb : 32 ≤ b) : Outgrows thr b ns :=
  ⟨[], List.nil_sublist ns, by simp; omega, by simp⟩

theorem not_outgrows_nil (hb : b < 32) : ¬Outgrows thr b [] := by
  rintro ⟨cs, hsub, hlen, -⟩
  rw [List.sublist_nil.1 hsub, List.length_nil] at hlen
  omega

/-- A number of keys that doubles the table may as well be used for it. -/
theorem outgrows_cons_of_lt (hb : b < 32) (hn : thr * 2 ^ b < n * 100 % 2 ^ 32) :
    Outgrows thr b (n :: ns) ↔ Outgrows thr (b + 1) ns := by
  constructor
  · rintro ⟨cs, hsub, hlen, hall⟩
    cases cs with
    | nil => simp at hlen; omega
    | cons c cs =>
      refine ⟨cs, ?_, by simp at hlen; omega, fun j hj ↦ ?_⟩
      · cases hsub with
        | cons _ h => exact (List.sublist_cons_self c cs).trans h
        | cons_cons _ h => exact h
      · have := hall (j + 1) (Nat.succ_lt_succ hj)
        rw [List.getElem_cons_succ] at this
        rwa [Nat.add_right_comm, Nat.add_assoc]
  · rintro ⟨cs, hsub, hlen, hall⟩
    refine ⟨n :: cs, hsub.cons_cons n, by simp; omega, fun j hj ↦ ?_⟩
    cases j with
    | zero => exact hn
    | succ j =>
      have := hall j (Nat.lt_of_succ_lt_succ hj)
      rw [List.getElem_cons_succ]
      rwa [Nat.add_right_comm, Nat.add_assoc] at this

theorem outgrows_cons_of_not_lt (hn : ¬thr * 2 ^ b < n * 100 % 2 ^ 32) :
    Outgrows thr b (n :: ns) ↔ Outgrows thr b ns := by
  constructor
  · rintro ⟨cs, hsub, hlen, hall⟩
    cases hsub with
    | cons _ h => exact ⟨cs, h, hlen, hall⟩
    | cons_cons _ h =>
      have := hall 0 (Nat.succ_pos _)
      exact absurd this hn
  · rintro ⟨cs, hsub, hlen, hall⟩
    exact ⟨cs, hsub.cons n, hlen, hall⟩

end Outgrows

/-- What is known of the calls to come, used for a table after the first of them. -/
theorem Stored.follows_cons (h : Stored chars t m) (hk : Supported t.kind) {ops : List (Op β)}
    (hops : ∀ op ∈ ops, Allowed t.kind op)
    (ih : ∀ {m : BitVec 64 → Option β} {t : Hashtable β}, Stored chars t m → Supported t.kind →
      (∀ op ∈ ops, Allowed t.kind op) → size chars t.kind m < 2 ^ 32 →
      (Follows chars t m ops ↔ (∀ n ∈ insertions chars t.kind m ops, n < 2 ^ 32) ∧
        (t.config.resizable = true → ¬Outgrows t.config.resizeThreshold t.tableBits
          (insertions chars t.kind m ops)))) :
    Follows chars t m ops ↔ size chars t.kind m < 2 ^ 32 ∧
      (∀ n ∈ insertions chars t.kind m ops, n < 2 ^ 32) ∧
      (t.config.resizable = true → ¬Outgrows t.config.resizeThreshold t.tableBits
        (insertions chars t.kind m ops)) := by
  constructor
  · intro hf
    have hsize := h.refines_iff_size_lt.1 (follows_head hf)
    exact ⟨hsize, (ih h hk hops hsize).1 hf⟩
  · rintro ⟨hsize, hrest⟩
    exact (ih h hk hops hsize).2 hrest

/-- From a table that stores a finite map on. -/
theorem Stored.follows_iff (h : Stored chars t m) (hk : Supported t.kind) {ops : List (Op β)}
    (hops : ∀ op ∈ ops, Allowed t.kind op) (hsize : size chars t.kind m < 2 ^ 32) :
    Follows chars t m ops ↔ (∀ n ∈ insertions chars t.kind m ops, n < 2 ^ 32) ∧
      (t.config.resizable = true → ¬Outgrows t.config.resizeThreshold t.tableBits
        (insertions chars t.kind m ops)) := by
  induction ops generalizing t m with
  | nil =>
    rw [Follows, h.refines_iff_size_lt, insertions]
    exact ⟨fun _ ↦ ⟨by simp, fun _ ↦ not_outgrows_nil h.bits_lt⟩, fun _ ↦ hsize⟩
  | cons op ops ih =>
    rw [List.forall_mem_cons] at hops
    rw [Follows, and_iff_right (h.refines_iff_size_lt.2 hsize), insertions]
    cases hnew : inserts m op with
    | false =>
      obtain ⟨t', ht', hstored, hshape⟩ := h.step hk hops.1 hnew
      have hsize' : size chars t'.kind (applyOp chars t.kind m op) < 2 ^ 32 := by
        rw [hshape.kind]
        exact (size_applyOp_le h.respects hnew).trans_lt hsize
      have := ih hstored (hshape.kind ▸ hk) (hshape.kind ▸ hops.2) hsize'
      rw [hshape.kind, hshape.config, hshape.tableBits] at this
      simp only [Bool.false_eq_true, if_false]
      rw [← this]
      constructor
      · rintro ⟨t'', ht'', hfollows⟩
        rw [ht', Option.some.injEq, Prod.mk.injEq] at ht''
        exact ht''.1 ▸ hfollows
      · exact fun hfollows ↦ ⟨t', ht', hfollows⟩
    | true =>
      obtain ⟨key, payload, hkey, hm', hstep⟩ := h.step_insert hnew
      simp only [if_true, List.forall_mem_cons]
      rw [hstep, hm']
      -- a table that the insertion leads to is followed by the rest
      have hnext : ∀ t' : Hashtable β, t.insert chars ⟨key, payload⟩ = some t' →
          ((∃ t'', (t.insert chars ⟨key, payload⟩).map (fun t' ↦ (t', result m op)) =
              some (t'', result m op) ∧
            Follows chars t'' (put chars t.kind m key (some payload)) ops) ↔
          Follows chars t' (put chars t.kind m key (some payload)) ops) := by
        intro t' ht'
        rw [ht', Option.map_some]
        constructor
        · rintro ⟨t'', ht'', hfollows⟩
          obtain rfl := (Prod.mk.inj (Option.some.inj ht'')).1
          exact hfollows
        · exact fun hfollows ↦ ⟨t', rfl, hfollows⟩
      by_cases hd : Doubles t (size chars t.kind (put chars t.kind m key (some payload)))
      · by_cases hbits : t.tableBits + 1 < 32
        · obtain ⟨t', ht', hstored, hkind, hconfig, htableBits⟩ := h.insert_of_doubles hkey hd hbits
          rw [hnext t' ht', hstored.follows_cons (hkind ▸ hk) (hkind ▸ hops.2) ih, hkind, hconfig,
            htableBits, and_assoc, outgrows_cons_of_lt h.bits_lt hd.2]
        · rw [h.insert_eq_none hkey hd hbits]
          refine ⟨fun ⟨t', ht', _⟩ ↦ absurd ht' (by simp), fun hr ↦ absurd ?_ (hr.2 hd.1)⟩
          exact (outgrows_cons_of_lt h.bits_lt hd.2).2 (outgrows_of_ge (Nat.le_of_not_lt hbits))
      · obtain ⟨t', ht', hstored, hshape⟩ := h.insert_of_not_doubles hkey hd
        rw [hnext t' ht', hstored.follows_cons (hshape.kind ▸ hk) (hshape.kind ▸ hops.2) ih,
          hshape.kind, hshape.config, hshape.tableBits, and_assoc]
        refine and_congr_right fun _ ↦ and_congr_right fun _ ↦ imp_congr_right fun hres ↦ not_congr ?_
        exact (outgrows_cons_of_not_lt fun hlt ↦ hd ⟨hres, hlt⟩).symm

theorem Supported.stored_empty {kind : KeyKind} (hk : Supported kind) (config : HashtableConfig)
    {numBits : ℕ} (hlt : numBits < 32) :
    Stored chars (⟨kind, config, numBits, 0, fun _ ↦ []⟩ : Hashtable β) fun _ ↦ none := by
  refine ⟨hk.lawful, hlt, fun i ↦ ⟨by simp, List.Pairwise.nil⟩, fun key ↦ ?_, ?_⟩
  · exact holds_none (by simp)
  · rw [size_empty]
    rfl

/-- The table, started empty, is the finite map all along the calls exactly if there are always fewer
than `2 ^ 32` keys and the doublings do not take the table to 32 bits. -/
theorem init_follows_iff (chars : BitVec 64 → List (BitVec 8)) {kind : KeyKind} (hk : Supported kind)
    (config : HashtableConfig) {numBits : ℕ} (hbits : 1 ≤ numBits) {ops : List (Op β)}
    (hops : ∀ op ∈ ops, Allowed kind op) :
    (∃ t, init kind config numBits = some t ∧ Follows chars t (fun _ ↦ none) ops) ↔
      numBits < 32 ∧ (∀ n ∈ insertions chars kind (fun _ ↦ none) ops, n < 2 ^ 32) ∧
      (config.resizable = true → ¬Outgrows config.resizeThreshold numBits
        (insertions chars kind (fun _ ↦ none) ops)) := by
  rw [init]
  split_ifs with hrange
  · have hlt := hrange.2
    have hstored : Stored chars (⟨kind, config, numBits, 0, fun _ ↦ []⟩ : Hashtable β)
        fun _ ↦ none := hk.stored_empty config hlt
    have hfollows := hstored.follows_iff hk hops (by rw [size_empty]; exact Nat.two_pow_pos 32)
    rw [and_iff_right hlt, ← hfollows]
    constructor
    · rintro ⟨t, ht, hf⟩
      exact Option.some.inj ht ▸ hf
    · exact fun hf ↦ ⟨_, rfl, hf⟩
  · refine ⟨fun ⟨t, ht, _⟩ ↦ absurd ht (by simp), fun h ↦ absurd ⟨hbits, h.1⟩ hrange⟩

/-- A table of 31 bits that is to be resized as soon as there is anything in it: the first addition
takes it to 32 bits. -/
theorem not_follows_threshold_zero :
    ¬∃ t : Hashtable Unit, init ⟨.intptr, none, none⟩ ⟨true, 0⟩ 31 = some t ∧
      Follows (fun _ ↦ []) t (fun _ ↦ none) [.add 1#64 ()] := by
  rintro ⟨t, ht, hfollows⟩
  obtain rfl : _ = t := Option.some.inj ht
  obtain ⟨-, t', ht', -⟩ := hfollows
  have hnone : Hashtable.step (fun _ ↦ []) ⟨⟨.intptr, none, none⟩, ⟨true, 0⟩, 31, 0, fun _ ↦ []⟩
      (.add 1#64 ()) = none := rfl
  rw [hnone] at ht'
  exact absurd ht' (by simp)

/-- Two integer keys of the same bucket, one of which is removed, in a table with the default
configuration. -/
theorem follows_two_keys :
    ∃ t : Hashtable ℕ, init ⟨.intptr, none, none⟩ ⟨true, 75⟩ 1 = some t ∧
      Follows (fun _ ↦ []) t (fun _ ↦ none)
        [.add 1#64 7, .addReplace 3#64 8, .removeRange 0#64 2#64, .remove 3#64] := by
  have hk : Supported ⟨.intptr, none, none⟩ := .inl ⟨rfl, rfl, .inl rfl⟩
  refine (init_follows_iff (fun _ ↦ []) hk ⟨true, 75⟩ le_rfl ?_).2 ⟨by omega, fun n hn ↦ ?_, ?_⟩
  · simp [Allowed]
  · have := insertions_le hk.lawful _ _ n hn
    rw [size_empty] at this
    simp at this
    omega
  · rintro - ⟨cs, hsub, hlen, -⟩
    have := hsub.length_le.trans (length_insertions_le _ _)
    simp at this
    omega

end Hashtable

end DrAvx
