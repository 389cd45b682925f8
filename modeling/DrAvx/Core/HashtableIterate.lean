import DrAvx.Core.HashtableRange

/-!
# Removing entries while iterating

`generic_hash_iterate_next` returns the entries of a table slot by slot, and
`generic_hash_iterate_remove` removes the entry that was returned last and corrects the index of the
iteration: when the removal has not wrapped around, an entry from above may have come into the slot,
and the index steps back; when it has, the entry in the slot is taken to come from the start of the
table, and the index stays.

The flag says that some entry was moved across the end of the array, not that it came into this
slot.  A removal can do both, move an entry from above into the slot and an entry from the start to
the end, and then the iteration misses the former and returns the latter a second time.  Whether
some set of keys can be removed this way is a property of the table at the start, `Hazard` of
`Probing.Walk`: removals make no new hazards at the slots that are still to come.

The capacity is a `uint` that the iteration converts to an `int`, so the entries of a table of
`2 ^ 31` slots are never returned.
-/

set_option autoImplicit false

namespace DrAvx

open Probing

namespace GenericTable

variable {β : Type}

/-! ## The code -/

/-- The loop of `generic_hash_iterate_next` over the next `k` slots. -/
def scanFrom (table : ℕ → Option (GenericEntry β)) : ℕ → ℕ → Option (ℕ × GenericEntry β)
  | 0, _ => none
  | k + 1, i =>
    match table i with
    | some e => some (i + 1, e)
    | none => scanFrom table k (i + 1)

/-- `(int) htable->capacity`. -/
def capacityInt (t : GenericTable β) : ℤ :=
  (BitVec.ofNat 32 t.capacity).toInt

/-- The index to continue with and the entry; no entry is the index -1. -/
def genericHashIterateNext (t : GenericTable β) (iter : ℕ) : Option (ℕ × GenericEntry β) :=
  scanFrom t.table (t.capacityInt - iter).toNat iter

variable (chars : BitVec 64 → List (BitVec 8))

/-- The table without the entry of `key`, and the index to continue with.  The key of an entry that
was not found is read through a null pointer. -/
def genericHashIterateRemove (t : GenericTable β) (fuel iter : ℕ) (key : BitVec 64) :
    Option (GenericTable β × ℕ) := do
  let e ← (← t.lookup chars fuel key)
  match ← t.lookupForRemoval chars fuel e with
  | some hindex =>
    let r ← t.removeHelper chars fuel hindex
    some (r.1, if r.2 then iter else iter - 1)
  | none => some (t, iter)

/-- What the loop does with an entry it was given. -/
def visit (doomed : BitVec 64 → Bool) (fuel : ℕ) (t : GenericTable β) (iter : ℕ)
    (e : GenericEntry β) : Option (GenericTable β × ℕ) :=
  if doomed e.key then t.genericHashIterateRemove chars fuel iter e.key else some (t, iter)

/-- A loop over the table that removes the keys of `doomed`: the table it leaves and the keys it was
given, in their order. -/
def iterateRemoving (doomed : BitVec 64 → Bool) (fuel : ℕ) :
    ℕ → GenericTable β → ℕ → Option (GenericTable β × List (BitVec 64))
  | 0, _, _ => none
  | rounds + 1, t, iter =>
    match t.genericHashIterateNext iter with
    | none => some (t, [])
    | some (iter, e) => do
      let r ← visit chars doomed fuel t iter e
      let s ← iterateRemoving doomed fuel rounds r.1 r.2
      some (s.1, e.key :: s.2)

/-- The loop ends, it is given every key of the table once, and it leaves the keys outside the
set. -/
def VisitsOnce (t : GenericTable β) (m : BitVec 64 → Option β) (doomed : BitVec 64 → Bool) : Prop :=
  ∃ fuel rounds t' keys, iterateRemoving chars doomed fuel rounds t 0 = some (t', keys) ∧
    keys.Nodup ∧ (∀ key, key ∈ keys ↔ m key ≠ none) ∧
    Refines chars t' fun key ↦ if doomed key then none else m key

/-! ## The next entry -/

variable {chars} {m : BitVec 64 → Option β} {t : GenericTable β}

theorem scanFrom_eq_none {table : ℕ → Option (GenericEntry β)} {k i : ℕ}
    (h : scanFrom table k i = none) {x : ℕ} (hx : i ≤ x) (hxk : x < i + k) : table x = none := by
  induction k generalizing i with
  | zero => omega
  | succ k ih =>
    rw [scanFrom] at h
    cases hi : table i with
    | some e => simp [hi] at h
    | none =>
      rw [hi] at h
      rcases Nat.eq_or_lt_of_le hx with rfl | hlt
      · exact hi
      · exact ih h hlt (by omega)

theorem scanFrom_eq_some {table : ℕ → Option (GenericEntry β)} {k i : ℕ}
    {r : ℕ × GenericEntry β} (h : scanFrom table k i = some r) :
    ∃ j, r.1 = j + 1 ∧ i ≤ j ∧ j < i + k ∧ table j = some r.2 ∧
      ∀ x, i ≤ x → x < j → table x = none := by
  induction k generalizing i with
  | zero => simp [scanFrom] at h
  | succ k ih =>
    rw [scanFrom] at h
    cases hi : table i with
    | some e =>
      simp only [hi, Option.some.injEq] at h
      subst h
      exact ⟨i, rfl, le_rfl, by omega, hi, fun x hx hxi ↦ absurd hxi (by omega)⟩
    | none =>
      rw [hi] at h
      obtain ⟨j, hr, hij, hjk, hj, hbefore⟩ := ih h
      refine ⟨j, hr, by omega, by omega, hj, fun x hx hxj ↦ ?_⟩
      rcases Nat.eq_or_lt_of_le hx with rfl | hlt
      · exact hi
      · exact hbefore x hlt hxj

theorem capacityInt_of_lt (h : t.hashBits < 31) : t.capacityInt = 2 ^ t.hashBits + 1 := by
  have hpow : 2 ^ t.hashBits ≤ 2 ^ 30 := Nat.pow_le_pow_right (by omega) (by omega)
  have hsmall : 2 * (BitVec.ofNat 32 t.capacity).toNat < 2 ^ 32 := by
    rw [BitVec.toNat_ofNat, capacity, Nat.mod_eq_of_lt (by omega)]
    omega
  rw [capacityInt, BitVec.toInt_eq_toNat_of_lt hsmall, BitVec.toNat_ofNat, capacity,
    Nat.mod_eq_of_lt (by omega)]
  push_cast
  rfl

/-- In a table of `2 ^ 31` slots there is no next entry. -/
theorem iterateNext_of_eq (h : t.hashBits = 31) (iter : ℕ) :
    t.genericHashIterateNext iter = none := by
  have hneg : t.capacityInt < 0 := by
    rw [capacityInt, capacity, h]
    decide
  rw [genericHashIterateNext, Int.toNat_of_nonpos (by omega)]
  rfl

theorem iterateNext_eq_none (hbits : t.hashBits < 31) {iter : ℕ}
    (h : t.genericHashIterateNext iter = none) {x : ℕ} (hx : iter ≤ x) (hxn : x < 2 ^ t.hashBits) :
    t.table x = none := by
  refine scanFrom_eq_none h hx ?_
  have hcap := capacityInt_of_lt hbits
  have hcast : ((2 ^ t.hashBits : ℕ) : ℤ) = 2 ^ t.hashBits := by push_cast; rfl
  omega

theorem iterateNext_eq_some {iter : ℕ} {r : ℕ × GenericEntry β}
    (h : t.genericHashIterateNext iter = some r) :
    ∃ j, r.1 = j + 1 ∧ iter ≤ j ∧ t.table j = some r.2 ∧
      ∀ x, iter ≤ x → x < j → t.table x = none := by
  obtain ⟨j, hr, hle, -, hj, hbefore⟩ := scanFrom_eq_some h
  exact ⟨j, hr, hle, hj, hbefore⟩

/-! ## One removal -/

variable {e : GenericEntry β}

variable {j : ℕ}

theorem Sound.iterateRemove (h : Sound chars t m) (hfree : size m < 2 ^ t.hashBits)
    (hj : t.table j = some e) {fuel iter : ℕ} {total : Prop}
    (htotal : total → 2 ^ 31 ≤ fuel) :
    Returns (t.genericHashIterateRemove chars fuel iter e.key) total fun r ↦
      ∃ wrapped, Removed chars t m j e (r.1, wrapped) ∧ r.2 = if wrapped then iter else iter - 1 := by
  have hfuel : total → size m < 2 ^ t.hashBits ∧ 2 ^ 31 ≤ fuel := fun ht ↦ ⟨hfree, htotal ht⟩
  refine (h.lookup e.key hfuel).bind fun a ha ↦ ?_
  obtain ⟨hpayload, hkey⟩ := ha
  rw [h.stores.mem hj] at hpayload
  obtain ⟨a, rfl, -⟩ := Option.map_eq_some_iff.1 hpayload
  have hak := hkey a rfl
  have hsearch : Returns (t.lookupForRemoval chars fuel a) total fun r ↦ r = some j := by
    refine (h.search_key (fun b ↦ beq_iff_eq.trans eq_comm) hfuel).map ?_
    rintro i (⟨b, hb, hbk⟩ | ⟨-, hnone⟩)
    · rw [hb, Option.map_some, h.stores.unique i j b e hb hj (hbk.trans hak)]
    · rw [hak, h.stores.mem hj] at hnone
      exact absurd hnone (by simp)
  refine Returns.bind (P := fun b ↦ b = a) (Returns.pure rfl) ?_
  rintro _ rfl
  refine Returns.bind hsearch ?_
  rintro _ rfl
  exact (h.removeHelper_removed hfree hj htotal).bind fun r hr ↦ Returns.pure ⟨r.2, hr, rfl⟩

/-- The slots of an entry that a removal leaves. -/
theorem Removed.mem_iff {r : GenericTable β × Bool}
    (h : Sound chars t m) (hj : t.table j = some e) (hr : Removed chars t m j e r)
    (a : GenericEntry β) :
    (∃ x, r.1.table x = some a) ↔ ∃ y, y ≠ j ∧ t.table y = some a := by
  have hleft := hr.sound.stores.mem_iff a.key a.payload
  rw [← hleft]
  constructor
  · intro hm
    have hkey : a.key ≠ e.key := by
      intro hkey
      rw [hkey, Function.update_self] at hm
      exact absurd hm (by simp)
    rw [Function.update_of_ne hkey] at hm
    obtain ⟨y, hy⟩ := (h.stores.mem_iff _ _).1 hm
    refine ⟨y, ?_, hy⟩
    rintro rfl
    rw [hj, Option.some.injEq] at hy
    exact hkey (hy ▸ rfl)
  · rintro ⟨y, hyj, hy⟩
    have hkey : a.key ≠ e.key := fun hkey ↦ hyj (h.stores.unique y j a e hy hj hkey)
    rw [Function.update_of_ne hkey]
    exact h.stores.mem hy

/-- The entries from slot `i` on. -/
def From (t : GenericTable β) (i : ℕ) (a : GenericEntry β) : Prop :=
  ∃ x, i ≤ x ∧ t.table x = some a

/-- No removal from slot `i` on moves entries both into the slot and across the end. -/
def SafeFrom (chars : BitVec 64 → List (BitVec 8)) (t : GenericTable β) (i : ℕ) : Prop :=
  ∀ k, i ≤ k → ¬Hazard (2 ^ t.hashBits) (fun a ↦ t.home chars a.key) t.table k

/-- After a removal without hazard the iteration goes on where the entries above the slot are, and
there is no hazard from there on. -/
theorem Removed.safe {t' : GenericTable β} {wrapped : Bool}
    (h : Sound chars t m) (hfree : size m < 2 ^ t.hashBits) (hj : t.table j = some e)
    (hr : Removed chars t m j e (t', wrapped)) (hsafe : SafeFrom chars t j) :
    SafeFrom chars t' (if wrapped then j + 1 else j + 1 - 1) ∧
      ∀ a, From t' (if wrapped then j + 1 else j + 1 - 1) a ↔ From t (j + 1) a := by
  obtain ⟨hole, cur, hwalk, -, hwrapped⟩ := hr.walk
  have hin := h.stores.bound j e hj
  have hTj : t.table j ≠ none := by
    rw [hj]
    exact Option.some_ne_none e
  have hexists := h.stores.size_lt_iff.1 hfree
  have hhome : ∀ a : GenericEntry β, t.home chars a.key < 2 ^ t.hashBits := fun a ↦ h.home_lt a.key
  have hw := hwalk.walked hin hTj hexists
  have hsame : (fun a : GenericEntry β ↦ t'.home chars a.key) = fun a ↦ t.home chars a.key := by
    funext a
    rw [home, home, hr.shape.hashFunc, hr.shape.hashBits]
  rw [SafeFrom, hr.shape.hashBits, hsame]
  dsimp only at hwrapped hwalk hw
  by_cases hcross : hole < j
  · -- the entry in the slot is from the start of the table
    have heq : ∀ x, j < x → x < 2 ^ t.hashBits → t'.table x = t.table x := by
      obtain ⟨heq, -⟩ | ⟨hz, -⟩ := hwalk.crossed hin hTj hexists h.unbroken hhome hcross
      · exact heq
      · exact absurd hz (hsafe j le_rfl)
    rw [hwrapped, decide_eq_true hcross, if_pos rfl]
    refine ⟨fun k hk hz ↦ hsafe k (by omega) (hw.hazard_of_eq hhome heq hk hz), fun a ↦ ?_⟩
    constructor
    · rintro ⟨x, hx, ha⟩
      have hxn := hr.sound.stores.bound x a ha
      rw [hr.shape.hashBits] at hxn
      exact ⟨x, hx, (heq x hx hxn).symm.trans ha⟩
    · rintro ⟨x, hx, ha⟩
      exact ⟨x, hx, (heq x hx (h.stores.bound x a ha)).trans ha⟩
  · have hle := Nat.le_of_not_lt hcross
    rw [hwrapped, decide_eq_false hcross, if_neg (by simp), Nat.add_sub_cancel]
    refine ⟨fun k hk hz ↦ hsafe k hk (hw.hazard_of_le hhome hle hk hz), fun a ↦ ?_⟩
    constructor
    · rintro ⟨x, hx, ha⟩
      have hxn := hr.sound.stores.bound x a ha
      rw [hr.shape.hashBits] at hxn
      obtain ⟨y, -, hy, hmoved⟩ := hw.source_of_le hle hx hxn ha
      exact ⟨y, by omega, hy⟩
    · rintro ⟨y, hy, ha⟩
      obtain ⟨x, hx⟩ := (hr.mem_iff h hj a).2 ⟨y, by omega, ha⟩
      refine ⟨x, ?_, hx⟩
      by_contra hlt
      have hbelow := hw.eq_of_lt hin hle (Nat.lt_of_not_le hlt)
      have hxy := h.stores.unique x y a a (hbelow.symm.trans hx) ha rfl
      omega

/-! ## A loop without hazards -/

/-- What the loop does from index `iter` on. -/
structure Visited (chars : BitVec 64 → List (BitVec 8)) (doomed : BitVec 64 → Bool)
    (t : GenericTable β) (m : BitVec 64 → Option β) (iter : ℕ)
    (r : GenericTable β × List (BitVec 64)) : Prop where
  sound : Sound chars r.1 fun key ↦ if doomed key = true ∧ key ∈ r.2 then none else m key
  shape : SameShape t r.1
  nodup : r.2.Nodup
  mem_keys : ∀ key, key ∈ r.2 ↔ ∃ a, From t iter a ∧ a.key = key

variable {doomed : BitVec 64 → Bool}

theorem Sound.visited (h : Sound chars t m) {iter : ℕ} (hnone : ∀ a, ¬From t iter a) :
    Visited chars doomed t m iter (t, []) where
  sound := by simpa using h
  shape := ⟨rfl, rfl, rfl⟩
  nodup := List.nodup_nil
  mem_keys key := iff_of_false List.not_mem_nil fun ⟨a, ha, _⟩ ↦ hnone a ha

/-- The entries from `iter` on are the next one and those above it. -/
theorem from_iff {iter j : ℕ} (hle : iter ≤ j) (hj : t.table j = some e)
    (hbefore : ∀ x, iter ≤ x → x < j → t.table x = none) (a : GenericEntry β) :
    From t iter a ↔ a = e ∨ From t (j + 1) a := by
  constructor
  · rintro ⟨x, hx, ha⟩
    rcases Nat.lt_trichotomy x j with hlt | rfl | hgt
    · rw [hbefore x hx hlt] at ha
      exact absurd ha (by simp)
    · rw [hj, Option.some.injEq] at ha
      exact .inl ha.symm
    · exact .inr ⟨x, hgt, ha⟩
  · rintro (rfl | ⟨x, hx, ha⟩)
    · exact ⟨j, hle, hj⟩
    · exact ⟨x, by omega, ha⟩

/-- One entry was returned, and the loop went on with the entries above it. -/
theorem Visited.cons {iter iter' j : ℕ} {t' : GenericTable β}
    {m' : BitVec 64 → Option β} {s : GenericTable β × List (BitVec 64)} (h : Sound chars t m)
    (hle : iter ≤ j) (hj : t.table j = some e)
    (hbefore : ∀ x, iter ≤ x → x < j → t.table x = none)
    (hm : m' = if doomed e.key then Function.update m e.key none else m)
    (hshape : SameShape t t') (hfrom : ∀ a, From t' iter' a ↔ From t (j + 1) a)
    (hs : Visited chars doomed t' m' iter' s) :
    Visited chars doomed t m iter (s.1, e.key :: s.2) where
  sound := by
    have hmap : (fun key ↦ if doomed key = true ∧ key ∈ e.key :: s.2 then none else m key) =
        fun key ↦ if doomed key = true ∧ key ∈ s.2 then none else m' key := by
      funext key
      simp only [hm, List.mem_cons]
      by_cases hkey : key = e.key
      · subst hkey
        cases hd : doomed e.key <;> simp
      · simp only [hkey, false_or]
        cases hd : doomed e.key <;> simp [Function.update_of_ne hkey]
    rw [hmap]
    exact hs.sound
  shape := ⟨hs.shape.hashFunc.trans hshape.hashFunc, hs.shape.hashBits.trans hshape.hashBits,
    hs.shape.loadFactorPercent.trans hshape.loadFactorPercent⟩
  nodup := by
    refine List.nodup_cons.2 ⟨fun hmem ↦ ?_, hs.nodup⟩
    obtain ⟨a, ha, hkey⟩ := (hs.mem_keys e.key).1 hmem
    obtain ⟨x, hx, hxa⟩ := (hfrom a).1 ha
    have hxj := h.stores.unique x j a e hxa hj hkey
    omega
  mem_keys key := by
    rw [List.mem_cons, hs.mem_keys]
    constructor
    · rintro (rfl | ⟨a, ha, rfl⟩)
      · exact ⟨e, ⟨j, hle, hj⟩, rfl⟩
      · exact ⟨a, (from_iff hle hj hbefore a).2 (.inr ((hfrom a).1 ha)), rfl⟩
    · rintro ⟨a, ha, rfl⟩
      rcases (from_iff hle hj hbefore a).1 ha with rfl | habove
      · exact .inl rfl
      · exact .inr ⟨a, (hfrom a).2 habove, rfl⟩

/-- The state after one round, whether or not the entry was removed. -/
theorem Sound.visit (h : Sound chars t m) (hfree : size m < 2 ^ t.hashBits)
    (hj : t.table j = some e) (hsafe : SafeFrom chars t j) {fuel : ℕ}
    {total : Prop} (htotal : total → 2 ^ 31 ≤ fuel) :
    Returns (visit chars doomed fuel t (j + 1) e) total fun r ↦
      Sound chars r.1 (if doomed e.key then Function.update m e.key none else m) ∧
      SameShape t r.1 ∧ SafeFrom chars r.1 r.2 ∧ (∀ a, From r.1 r.2 a ↔ From t (j + 1) a) ∧
      (r.2 = j + 1 ∨ doomed e.key = true ∧ r.2 = j) := by
  rw [GenericTable.visit]
  cases doomed e.key with
  | true =>
    refine (h.iterateRemove hfree hj htotal).mono id ?_
    rintro ⟨t', iter'⟩ ⟨wrapped, hr, hiter⟩
    dsimp only at hr hiter
    obtain ⟨hsafe', hfrom⟩ := hr.safe h hfree hj hsafe
    rw [← hiter] at hsafe' hfrom
    refine ⟨hr.sound, hr.shape, hsafe', hfrom, ?_⟩
    cases wrapped with
    | true => exact .inl hiter
    | false => exact .inr ⟨rfl, hiter⟩
  | false =>
    exact Returns.pure ⟨h, ⟨rfl, rfl, rfl⟩, fun k hk ↦ hsafe k (by omega), fun a ↦ Iff.rfl,
      .inl rfl⟩

theorem iterateRemoving_visited (h : Sound chars t m) (hfree : size m < 2 ^ t.hashBits)
    (hbits : t.hashBits < 31) {fuel rounds iter : ℕ} (hsafe : SafeFrom chars t iter) {total : Prop}
    (htotal : total → 2 ^ 31 ≤ fuel ∧
      size m * (2 ^ t.hashBits + 2) + (2 ^ t.hashBits + 1 - iter) < rounds) :
    Returns (iterateRemoving chars doomed fuel rounds t iter) total
      (Visited chars doomed t m iter) := by
  induction rounds generalizing t m iter with
  | zero =>
    exact ⟨fun r hr ↦ absurd hr (by simp [iterateRemoving]), fun ht ↦
      absurd (htotal ht).2 (Nat.not_lt_zero _)⟩
  | succ rounds ih =>
    rw [iterateRemoving]
    cases hnext : t.genericHashIterateNext iter with
    | none =>
      refine Returns.pure (h.visited fun a ↦ ?_)
      rintro ⟨x, hx, ha⟩
      rw [iterateNext_eq_none hbits hnext hx (h.stores.bound x a ha)] at ha
      exact absurd ha (by simp)
    | some r =>
      obtain ⟨i, e⟩ := r
      obtain ⟨j, hi, hle, hj, hbefore⟩ := iterateNext_eq_some hnext
      dsimp only at hi hj
      subst hi
      have hin := h.stores.bound j e hj
      have habove : SafeFrom chars t j := fun k hk ↦ hsafe k (by omega)
      refine Returns.bind (h.visit hfree hj habove fun ht ↦ (htotal ht).1) fun r hr ↦ ?_
      obtain ⟨hsound, hshape, hsafe', hfrom, hiter⟩ := hr
      have hsize : size (if doomed e.key then Function.update m e.key none else m) +
          (if doomed e.key then 1 else 0) = size m := by
        cases doomed e.key with
        | true => exact size_remove (h.stores.mem hj)
        | false => rfl
      refine Returns.bind (ih hsound ?_ ?_ hsafe' fun ht ↦ ⟨(htotal ht).1, ?_⟩)
        fun s hs ↦ Returns.pure (hs.cons h hle hj hbefore rfl hshape hfrom)
      · rw [hshape.hashBits]
        omega
      · rwa [hshape.hashBits]
      · have hrounds := (htotal ht).2
        rw [hshape.hashBits]
        rcases hiter with heq | ⟨hd, heq⟩
        · have hmul := Nat.mul_le_mul_right (2 ^ t.hashBits + 2) (Nat.le.intro hsize)
          omega
        · rw [hd, if_pos rfl, if_pos rfl] at hsize
          rw [← hsize, Nat.add_mul] at hrounds
          rw [hd, if_pos rfl]
          omega

theorem Sound.visitsOnce (h : Sound chars t m) (hfree : size m < 2 ^ t.hashBits)
    (hbits : t.hashBits < 31) (hsafe : SafeFrom chars t 0) (doomed : BitVec 64 → Bool) :
    VisitsOnce chars t m doomed := by
  have hloop : Returns (iterateRemoving chars doomed (2 ^ 31)
      (size m * (2 ^ t.hashBits + 2) + (2 ^ t.hashBits + 1 - 0) + 1) t 0) True _ :=
    iterateRemoving_visited h hfree hbits hsafe fun _ ↦ ⟨le_rfl, Nat.lt_succ_self _⟩
  obtain ⟨⟨t', keys⟩, hrun⟩ := hloop.ends trivial
  obtain ⟨hsound, hshape, hnodup, hmem⟩ := hloop.post _ hrun
  dsimp only at hsound hshape hnodup hmem
  have hkeys : ∀ key, key ∈ keys ↔ m key ≠ none := by
    intro key
    rw [hmem, Option.ne_none_iff_exists']
    constructor
    · rintro ⟨a, ⟨x, -, ha⟩, rfl⟩
      exact ⟨a.payload, h.stores.mem ha⟩
    · rintro ⟨payload, hm⟩
      obtain ⟨x, hx⟩ := (h.stores.mem_iff key payload).1 hm
      exact ⟨_, ⟨x, Nat.zero_le x, hx⟩, rfl⟩
  have hmap : (fun key ↦ if doomed key = true ∧ key ∈ keys then none else m key) =
      fun key ↦ if doomed key then none else m key := by
    funext key
    cases hm : m key with
    | none => simp
    | some payload => simp [hkeys, hm]
  rw [hmap] at hsound
  refine ⟨_, _, t', keys, hrun, hnodup, hkeys, hsound.refines ?_⟩
  rw [hshape.hashBits]
  refine lt_of_le_of_lt (size_mono fun key payload hk ↦ ?_) hfree
  split_ifs at hk
  exact hk

/-! ## A loop that meets a hazard -/

/-- A loop that removes nothing is given keys of slots it has not passed only. -/
theorem iterateRemoving_keys {fuel rounds iter : ℕ} {r : GenericTable β × List (BitVec 64)}
    (hnone : ∀ x a, t.table x = some a → doomed a.key = false)
    (hr : iterateRemoving chars doomed fuel rounds t iter = some r) :
    ∀ key ∈ r.2, ∃ a, From t iter a ∧ a.key = key := by
  induction rounds generalizing iter r with
  | zero => exact absurd hr (by simp [iterateRemoving])
  | succ rounds ih =>
    rw [iterateRemoving] at hr
    cases hnext : t.genericHashIterateNext iter with
    | none =>
      simp only [hnext, Option.some.injEq] at hr
      subst hr
      exact fun key hkey ↦ absurd hkey List.not_mem_nil
    | some q =>
      obtain ⟨i, e⟩ := q
      obtain ⟨j, hi, hle, hj, -⟩ := iterateNext_eq_some hnext
      dsimp only at hi hj
      subst hi
      simp only [hnext, visit, hnone j e hj, Bool.false_eq_true, if_false, Option.bind_eq_bind,
        Option.bind_some, Option.bind_eq_some_iff, Option.some.injEq] at hr
      obtain ⟨s, hs, rfl⟩ := hr
      intro key hkey
      rcases List.mem_cons.1 hkey with rfl | hmem
      · exact ⟨e, ⟨j, hle, hj⟩, rfl⟩
      · obtain ⟨a, ⟨x, hx, ha⟩, hak⟩ := ih hs key hmem
        exact ⟨a, ⟨x, by omega, ha⟩, hak⟩

/-- Removing the entry of a slot with a hazard brings an entry from above into the slot, and the
iteration does not step back. -/
theorem Removed.pulled {t' : GenericTable β} {wrapped : Bool}
    (h : Sound chars t m) (hfree : size m < 2 ^ t.hashBits) (hj : t.table j = some e)
    (hr : Removed chars t m j e (t', wrapped))
    (hz : Hazard (2 ^ t.hashBits) (fun a ↦ t.home chars a.key) t.table j) :
    wrapped = true ∧ ∃ y b, j < y ∧ t.table y = some b ∧ t'.table j = some b := by
  obtain ⟨hole, cur, hwalk, hend, hwrapped⟩ := hr.walk
  have hin := h.stores.bound j e hj
  have hTj : t.table j ≠ none := by
    rw [hj]
    exact Option.some_ne_none e
  have hexists := h.stores.size_lt_iff.1 hfree
  have hhome : ∀ a : GenericEntry β, t.home chars a.key < 2 ^ t.hashBits := fun a ↦ h.home_lt a.key
  have hcross := hwalk.crosses hin hTj hexists h.unbroken hhome hend hz
  refine ⟨hwrapped.trans (decide_eq_true hcross), ?_⟩
  obtain ⟨-, hcut⟩ | ⟨-, y, b, hy, -, hyb, hjb⟩ :=
    hwalk.crossed hin hTj hexists h.unbroken hhome hcross
  · exact absurd hz.1 hcut
  · exact ⟨y, b, hy, hyb, hjb⟩

/-- A loop that removes the entry of a slot with a hazard misses an entry. -/
theorem iterateRemoving_misses (h : Sound chars t m) (hfree : size m < 2 ^ t.hashBits) {i : ℕ}
    (hi : t.table i = some e)
    (hz : Hazard (2 ^ t.hashBits) (fun a ↦ t.home chars a.key) t.table i) {fuel rounds iter : ℕ}
    (hle : iter ≤ i) {r : GenericTable β × List (BitVec 64)}
    (hr : iterateRemoving chars (fun key ↦ key == e.key) fuel rounds t iter = some r) :
    ∃ y b, i < y ∧ t.table y = some b ∧ b.key ∉ r.2 := by
  induction rounds generalizing iter r with
  | zero => exact absurd hr (by simp [iterateRemoving])
  | succ rounds ih =>
    rw [iterateRemoving] at hr
    cases hnext : t.genericHashIterateNext iter with
    | none =>
      -- the loop is over at once, and the entry that spans the slot is not returned either
      simp only [hnext, Option.some.injEq] at hr
      subst hr
      obtain ⟨⟨y, b, hy, -, hyb, -⟩, -⟩ := hz
      exact ⟨y, b, hy, hyb, List.not_mem_nil⟩
    | some q =>
      obtain ⟨i', a⟩ := q
      obtain ⟨j, hi', hlej, hj, hbefore⟩ := iterateNext_eq_some hnext
      dsimp only at hi' hj
      subst hi'
      have hji : j ≤ i := by
        by_contra hlt
        rw [hbefore i hle (Nat.lt_of_not_le hlt)] at hi
        exact absurd hi (by simp)
      simp only [hnext, Option.bind_eq_bind, Option.bind_eq_some_iff, Option.some.injEq] at hr
      obtain ⟨q, hq, s, hs, rfl⟩ := hr
      -- an entry above `i` is not the one this round was given
      have hkeys : ∀ y b, i < y → t.table y = some b → b.key ∉ s.2 → b.key ∉ a.key :: s.2 := by
        intro y b hy hyb hnot hmem
        rcases List.mem_cons.1 hmem with hkey | hmem
        · have := h.stores.unique y j b a hyb hj hkey
          omega
        · exact hnot hmem
      rcases Nat.eq_or_lt_of_le hji with rfl | hlt
      · obtain rfl : a = e := Option.some.inj (hj.symm.trans hi)
        rw [visit, if_pos (beq_self_eq_true _)] at hq
        obtain ⟨wrapped, hrem, hiter⟩ :=
          (h.iterateRemove hfree hi (fun hf : False ↦ hf.elim)).post q hq
        obtain ⟨rfl, y, b, hy, hyb, hjb⟩ := hrem.pulled h hfree hi hz
        refine ⟨y, b, hy, hyb, hkeys y b hy hyb fun hmem ↦ ?_⟩
        have hgone : ∀ x c, q.1.table x = some c → (c.key == a.key) = false := by
          intro x c hc
          obtain ⟨y, hyj, hyc⟩ := (hrem.mem_iff h hi c).1 ⟨x, hc⟩
          exact beq_false_of_ne fun hkey ↦ hyj (h.stores.unique y j c a hyc hi hkey)
        obtain ⟨c, ⟨x, hx, hxc⟩, hkey⟩ := iterateRemoving_keys hgone hs b.key hmem
        have hxj := hrem.sound.stores.unique x j c b hxc hjb hkey
        rw [hiter, if_pos rfl] at hx
        omega
      · have hne : (a.key == e.key) = false :=
          beq_false_of_ne fun hkey ↦ hlt.ne (h.stores.unique j i a e hj hi hkey)
        rw [visit, hne, if_neg (by simp), Option.some.injEq] at hq
        subst hq
        obtain ⟨y, b, hy, hyb, hnot⟩ := ih hlt hs
        exact ⟨y, b, hy, hyb, hkeys y b hy hyb hnot⟩

/-- A slot with a hazard is taken. -/
theorem Sound.taken_of_hazard (h : Sound chars t m) {i : ℕ}
    (hz : Hazard (2 ^ t.hashBits) (fun a ↦ t.home chars a.key) t.table i) :
    ∃ e, t.table i = some e := by
  obtain ⟨⟨y, b, hiy, hy, hyb, hb⟩, -⟩ := hz
  refine Option.ne_none_iff_exists'.1 (h.unbroken y hy b hyb i (hiy.trans hy) ?_)
  dsimp only at hb ⊢
  rw [Probing.dist, Probing.dist, if_pos hb, if_pos (by omega)]
  omega

/-- Any set of keys can be removed while iterating, with every key returned once, exactly if no
slot has a hazard and, unless the table is empty, its capacity is an `int`. -/
theorem visitsOnce_iff (h : Sound chars t m) (hfree : ∃ i < 2 ^ t.hashBits, t.table i = none) :
    (∀ doomed, VisitsOnce chars t m doomed) ↔
    (t.hashBits < 31 ∨ ∀ key, m key = none) ∧
      ∀ i, ¬Hazard (2 ^ t.hashBits) (fun a ↦ t.home chars a.key) t.table i := by
  have hsize := h.stores.size_lt_iff.2 hfree
  constructor
  · intro hall
    refine ⟨?_, fun i hz ↦ ?_⟩
    · refine or_iff_not_imp_left.2 fun hbits key ↦ ?_
      have hlast : t.hashBits = 31 := by
        have := h.bits_lt
        omega
      obtain ⟨fuel, rounds, t', keys, hrun, -, hkeys, -⟩ := hall fun _ ↦ false
      cases rounds with
      | zero => exact absurd hrun (by simp [iterateRemoving])
      | succ rounds =>
        rw [iterateRemoving, iterateNext_of_eq hlast] at hrun
        obtain ⟨-, rfl⟩ := Prod.mk.inj (Option.some.inj hrun)
        by_contra hm
        exact List.not_mem_nil ((hkeys key).2 hm)
    · obtain ⟨e, he⟩ := h.taken_of_hazard hz
      obtain ⟨fuel, rounds, t', keys, hrun, -, hkeys, -⟩ := hall fun key ↦ key == e.key
      obtain ⟨y, b, -, hyb, hnot⟩ := iterateRemoving_misses h hsize he hz (Nat.zero_le i) hrun
      refine hnot ((hkeys b.key).2 ?_)
      rw [h.stores.mem hyb]
      exact Option.some_ne_none _
  · rintro ⟨hbits | hempty, hsafe⟩ doomed
    · exact h.visitsOnce hsize hbits (fun k _ ↦ hsafe k) doomed
    · -- a loop over an empty table ends at once
      have hnone : ∀ iter, t.genericHashIterateNext iter = none := by
        intro iter
        cases hnext : t.genericHashIterateNext iter with
        | none => rfl
        | some r =>
          obtain ⟨j, -, -, hj, -⟩ := iterateNext_eq_some hnext
          exact absurd (h.stores.mem hj) (by simp [hempty])
      refine ⟨0, 1, t, [], ?_, List.nodup_nil, fun key ↦ by simp [hempty], ?_⟩
      · rw [iterateRemoving, hnone]
      · have hmap : (fun key ↦ if doomed key then none else m key) = m := by
          funext key
          rw [hempty, ite_self]
        rw [hmap]
        exact h.refines hsize

/-- In `crossing`, removing the key 2 while iterating misses the key 6. -/
theorem not_visitsOnce_crossing :
    Sound (fun _ ↦ []) crossing crossingKeys ∧
      (∃ i < 2 ^ crossing.hashBits, crossing.table i = none) ∧
      ¬VisitsOnce (fun _ ↦ []) crossing crossingKeys (fun key ↦ key == 2#64) := by
  refine ⟨sound_crossing, ⟨1, by decide, rfl⟩, ?_⟩
  rintro ⟨fuel, rounds, t', keys, hrun, -, hkeys, -⟩
  have hsize := sound_crossing.stores.size_lt_iff.2 ⟨1, by decide, rfl⟩
  have hspan : Spanned (2 ^ crossing.hashBits) (fun a ↦ crossing.home (fun _ ↦ []) a.key)
      crossing.table 2 := ⟨3, ⟨6#64, ()⟩, by decide, by decide, rfl, by decide⟩
  have hz : Hazard (2 ^ crossing.hashBits) (fun a ↦ crossing.home (fun _ ↦ []) a.key)
      crossing.table 2 := by
    refine ⟨hspan, 0, ⟨3#64, ()⟩, by decide, rfl, by decide, fun x hx hlt ↦ ?_⟩
    obtain rfl : x = 2 := by
      have hhome : crossing.home (fun _ ↦ []) 3#64 = 3 := by decide
      dsimp only at hlt
      omega
    exact hspan
  have htwo : crossing.table 2 = some ⟨2#64, ()⟩ := rfl
  obtain ⟨y, b, -, hyb, hnot⟩ :=
    iterateRemoving_misses sound_crossing hsize htwo hz (Nat.zero_le 2) hrun
  refine hnot ((hkeys b.key).2 ?_)
  rw [sound_crossing.stores.mem hyb]
  exact Option.some_ne_none _

/-- Two entries with their home in the last slot: the cluster crosses the end, but no entry spans a
slot. -/
theorem visitsOnce_two_keys :
    ∃ t : GenericTable Unit, t.table 0 = some ⟨7#64, ()⟩ ∧ t.table 3 = some ⟨3#64, ()⟩ ∧
      ∀ doomed, VisitsOnce (fun _ ↦ []) t
        (Function.update (Function.update (fun _ ↦ none) 3#64 (some ())) 7#64 (some ())) doomed := by
  have hthree := @Sound.insert _ _ _ ⟨3#64, ()⟩ 3 _ 1 sound_fourSlots rfl rfl
  have hseven := @Sound.insert _ _ _ ⟨7#64, ()⟩ 0 _ 2 hthree rfl rfl
  refine ⟨_, rfl, rfl, (visitsOnce_iff hseven ⟨1, by decide, rfl⟩).2 ⟨.inl (by decide), ?_⟩⟩
  rintro i ⟨⟨y, b, hiy, hy, hyb, hb⟩, -⟩
  dsimp only at hy hyb hb
  by_cases hy0 : y = 0
  · omega
  by_cases hy3 : y = 3
  · subst hy3
    rw [Function.update_of_ne hy0, Function.update_self, Option.some.injEq] at hyb
    subst hyb
    have hhome : hashIndex (fun _ ↦ []) .none 2 3#64 = 3 := by decide
    rw [home, hhome] at hb
    omega
  · rw [Function.update_of_ne hy0, Function.update_of_ne hy3] at hyb
    exact absurd hyb (by simp)

end GenericTable

end DrAvx
