import Mathlib.Data.List.Basic
import Mathlib.Data.Nat.Basic
import Mathlib.Order.Basic
import Mathlib.Data.Int.Order.Basic

/-!
# The callback lists of `drmgr`

The callbacks of an event are kept in an array, sorted by a numeric priority.  A new entry may name
another one it has to come before and one it has to come after.  A removed entry is only marked as
invalid, and its slot may be used again by an entry that belongs there; otherwise the entries behind
the new one are shifted, which is done by the copying if the array has to grow.

What is in the array beyond the entries in use, and what is in newly allocated memory, is arbitrary.
The order of the callbacks is that of the valid entries in the array (`validEntries`).  The spec of
the search for the place, `place_spec`, is about indices; what an insertion at an index does to the
list of valid entries is `validEntries_shift`.

The numbers of entries are natural numbers here.  An entry has more than 64 bytes, so that the
`int`s that count them do not overflow in an array that can be allocated.
-/

set_option autoImplicit false

namespace DrAvx

/-- `drmgr_priority_t`; a missing name is a null pointer. -/
structure DrmgrPriority where
  structSize : ℕ
  name : Option String
  before : Option String
  after : Option String
  priority : ℤ
  deriving DecidableEq, Repr

/-- `sizeof(drmgr_priority_t)`. -/
def sizeofPriority : ℕ := 40

/-- The name of all entries that are added without a priority. -/
def defaultName : String := "__DEFAULT__"

def defaultPriority : DrmgrPriority := ⟨sizeofPriority, some defaultName, none, none, 0⟩

/-- An entry of a callback list; `cb` is all of it that the order does not depend on. -/
structure PriorityEntry (α : Type) where
  valid : Bool
  inPriority : DrmgrPriority
  cb : α

/-- A slot taken by an entry with the given priority. -/
def PriorityEntry.take {α : Type} (e : PriorityEntry α) (new : DrmgrPriority) : PriorityEntry α :=
  ⟨true, new, e.cb⟩

/-- An entry marked as invalid. -/
def PriorityEntry.drop {α : Type} (e : PriorityEntry α) : PriorityEntry α :=
  ⟨false, e.inPriority, e.cb⟩

/-- `cb_list_t`. -/
structure CbList (α : Type) where
  cbs : ℕ → PriorityEntry α
  numDef : ℕ
  numValid : ℕ
  capacity : ℕ

namespace CbList

variable {α : Type}

/-- `cblist_init`, with the contents of the memory that is allocated. -/
def init (garbage : ℕ → PriorityEntry α) : CbList α := ⟨garbage, 0, 0, 10⟩

/-- `cblist_shift_and_resize`: the list with room for an entry, and the index of it. -/
def shiftAndResize (l : CbList α) (garbage : ℕ → PriorityEntry α) (insertAt : ℕ) :
    CbList α × Option ℕ :=
  if l.numDef < insertAt then (l, none)
  -- invalid slots that can be used as they are
  else if insertAt < l.numDef ∧ (l.cbs insertAt).valid = false then (l, some insertAt)
  else if 0 < insertAt ∧ (l.cbs (insertAt - 1)).valid = false then (l, some (insertAt - 1))
  else if l.capacity ≤ l.numDef + 1 then
    -- the shift is done while copying
    ({ l with
        numDef := l.numDef + 1
        capacity := l.capacity * 2
        cbs := fun j ↦
          if j < insertAt then l.cbs j
          else if insertAt + 1 ≤ j ∧ j < insertAt + 1 + (l.numDef - insertAt) then l.cbs (j - 1)
          else garbage j }, some insertAt)
  else if insertAt = l.numDef then ({ l with numDef := l.numDef + 1 }, some insertAt)
  else
    ({ l with
        numDef := l.numDef + 1
        cbs := fun j ↦
          if insertAt + 1 ≤ j ∧ j < insertAt + 1 + (l.numDef + 1 - insertAt) then l.cbs (j - 1)
          else l.cbs j }, some insertAt)

/-- The loop of `priority_event_add` that looks for the place of an entry, from index `i` on: the
index, and whether the `after` and the `before` entry have been met.  `none` is the `return -1` in
it. -/
def place (cbs : ℕ → PriorityEntry α) (numDef : ℕ) (new : DrmgrPriority) (i : ℕ)
    (pastAfter : Bool) : Option (ℕ × Bool × Bool) :=
  if i < numDef then
    if (cbs i).valid = false then place cbs numDef new (i + 1) pastAfter
    else if new.priority < (cbs i).inPriority.priority then
      some (i, pastAfter, new.before.isNone)
    else if new.before ≠ none ∧ new.before = (cbs i).inPriority.name then
      if (cbs i).inPriority.priority < new.priority then none else some (i, pastAfter, true)
    else if pastAfter = false ∧ new.after = (cbs i).inPriority.name then
      place cbs numDef new (i + 1) true
    else place cbs numDef new (i + 1) pastAfter
  else some (i, pastAfter, new.before.isNone)
termination_by numDef - i

/-- Is there a valid entry of the given name, from index `i` on? -/
def hasName (l : CbList α) (name : Option String) (i : ℕ) : Bool :=
  (List.range' i (l.numDef - i)).any fun j ↦
    (l.cbs j).valid && decide (name = (l.cbs j).inPriority.name)

/-- The end of `priority_event_add`: the entry is put in at index `i`. -/
def insertAt (l : CbList α) (garbage : ℕ → PriorityEntry α) (new : DrmgrPriority) (i : ℕ) :
    CbList α × ℤ :=
  match l.shiftAndResize garbage i with
  | (_, none) => (l, -1)
  | (l', some j) =>
    ({ l' with
        cbs := Function.update l'.cbs j ((l'.cbs j).take new)
        numValid := l'.numValid + 1 }, j)

/-- `priority_event_add`: the list and the index of the new entry, or `-1`. -/
def priorityEventAdd (l : CbList α) (garbage : ℕ → PriorityEntry α) (pri : Option DrmgrPriority) :
    CbList α × ℤ :=
  let new := pri.getD defaultPriority
  if new.name = none then (l, -1)
  else if new.structSize < sizeofPriority then (l, -1)
  else if pri.isSome = true ∧ l.hasName new.name 0 = true then (l, -1)
  else
    match place l.cbs l.numDef new 0 new.after.isNone with
    | none => (l, -1)
    | some (i, pastAfter, foundBefore) =>
      if pastAfter = false then (l, -1)
      else if foundBefore = false ∧ l.hasName new.before i = false then (l, -1)
      else l.insertAt garbage new i

/-- `drmgr_bb_cb_remove`: the first valid entry that matches is made invalid. -/
def bbCbRemove (l : CbList α) (matchesFunc : PriorityEntry α → Bool) : CbList α × Bool :=
  match (List.range l.numDef).find? fun i ↦ (l.cbs i).valid && matchesFunc (l.cbs i) with
  | none => (l, false)
  | some i =>
    ({ l with
        cbs := Function.update l.cbs i (l.cbs i).drop
        numValid := l.numValid - 1
        numDef := if i = l.numDef - 1 then l.numDef - 1 else l.numDef }, true)

/-- The valid entries with indices from `i` up to, but not including, `j`. -/
def validIn (cbs : ℕ → PriorityEntry α) (i j : ℕ) : List (PriorityEntry α) :=
  ((List.range' i (j - i)).map cbs).filter PriorityEntry.valid

/-- The callbacks in the order in which they are called. -/
def validEntries (l : CbList α) : List (PriorityEntry α) :=
  validIn l.cbs 0 l.numDef

/-- A list that some sequence of calls leads to.  Between the calls the fields of the entries that
have no part in the order are set. -/
inductive Run : CbList α → Prop
  | init (garbage : ℕ → PriorityEntry α) : Run (init garbage)
  | add {l : CbList α} (garbage : ℕ → PriorityEntry α) (pri : Option DrmgrPriority) :
      Run l → Run (l.priorityEventAdd garbage pri).1
  | setCb {l : CbList α} (i : ℕ) (cb : α) :
      Run l → Run { l with
        cbs := Function.update l.cbs i ⟨(l.cbs i).valid, (l.cbs i).inPriority, cb⟩ }
  | remove {l : CbList α} (matchesFunc : PriorityEntry α → Bool) :
      Run l → Run (l.bbCbRemove matchesFunc).1

/-! ## Valid entries -/

section Valid

variable {cbs cbs' : ℕ → PriorityEntry α} {i j k : ℕ}

theorem validIn_append (hij : i ≤ j) (hjk : j ≤ k) :
    validIn cbs i k = validIn cbs i j ++ validIn cbs j k := by
  rw [validIn, validIn, validIn, ← List.filter_append, ← List.map_append]
  congr 2
  rw [show k - i = (j - i) + (k - j) by omega, ← List.range'_append_1]
  congr 2
  omega

theorem validIn_congr (h : ∀ x, i ≤ x → x < j → cbs x = cbs' x) :
    validIn cbs i j = validIn cbs' i j := by
  rw [validIn, validIn]
  congr 1
  refine List.map_congr_left fun x hx ↦ ?_
  rw [List.mem_range'_1] at hx
  exact h x hx.1 (by omega)

theorem validIn_shift (h : ∀ x, i ≤ x → x < j → cbs' (x + 1) = cbs x) :
    validIn cbs' (i + 1) (j + 1) = validIn cbs i j := by
  rw [validIn, validIn, Nat.add_sub_add_right]
  congr 1
  rw [List.range'_eq_map_range, List.range'_eq_map_range, List.map_map, List.map_map]
  refine List.map_congr_left fun x hx ↦ ?_
  rw [List.mem_range] at hx
  show cbs' (i + 1 + x) = cbs (i + x)
  rw [Nat.add_right_comm]
  exact h (i + x) (by omega) (by omega)

theorem map_inPriority_validIn (i j : ℕ)
    (h : ∀ x, (cbs' x).valid = (cbs x).valid ∧ (cbs' x).inPriority = (cbs x).inPriority) :
    (validIn cbs' i j).map PriorityEntry.inPriority =
      (validIn cbs i j).map PriorityEntry.inPriority := by
  have hvalid : PriorityEntry.valid ∘ cbs' = PriorityEntry.valid ∘ cbs := funext fun x ↦ (h x).1
  rw [validIn, validIn, List.filter_map, List.filter_map, List.map_map, List.map_map, hvalid]
  exact List.map_congr_left fun x _ ↦ (h x).2

theorem validIn_succ_of_valid (h : (cbs i).valid = true) : validIn cbs i (i + 1) = [cbs i] := by
  simp [validIn, h]

theorem validIn_succ_of_invalid (h : (cbs i).valid = false) : validIn cbs i (i + 1) = [] := by
  simp [validIn, h]

theorem validIn_self : validIn cbs i i = [] := by
  simp [validIn]

theorem mem_validIn {e : PriorityEntry α} :
    e ∈ validIn cbs i j ↔ ∃ x, i ≤ x ∧ x < j ∧ (cbs x).valid = true ∧ cbs x = e := by
  rw [validIn, List.mem_filter, List.mem_map]
  constructor
  · rintro ⟨⟨x, hx, rfl⟩, hvalid⟩
    rw [List.mem_range'_1] at hx
    exact ⟨x, hx.1, by omega, hvalid, rfl⟩
  · rintro ⟨x, hix, hxj, hvalid, rfl⟩
    exact ⟨⟨x, List.mem_range'_1.2 ⟨hix, by omega⟩, rfl⟩, hvalid⟩

end Valid

variable {l : CbList α}

theorem hasName_iff {name : Option String} {i : ℕ} :
    l.hasName name i = true ↔ ∃ e ∈ validIn l.cbs i l.numDef, name = e.inPriority.name := by
  rw [hasName, List.any_eq_true]
  constructor
  · rintro ⟨j, hj, hname⟩
    rw [List.mem_range'_1] at hj
    rw [Bool.and_eq_true, decide_eq_true_iff] at hname
    exact ⟨l.cbs j, mem_validIn.2 ⟨j, hj.1, by omega, hname.1, rfl⟩, hname.2⟩
  · rintro ⟨e, he, hname⟩
    obtain ⟨j, hij, hj, hvalid, rfl⟩ := mem_validIn.1 he
    refine ⟨j, List.mem_range'_1.2 ⟨hij, by omega⟩, ?_⟩
    rw [hvalid, Bool.true_and, decide_eq_true_iff]
    exact hname

/-! ## The place of a new entry -/

/-- What the search for the place of an entry finds: all valid entries before index `k` have at most
the priority of the new one and are not the one it has to come before. -/
structure Placed (cbs : ℕ → PriorityEntry α) (numDef : ℕ) (new : DrmgrPriority) (i : ℕ)
    (pastAfter : Bool) (k : ℕ) (pastAfter' foundBefore : Bool) : Prop where
  ge : i ≤ k
  le : k ≤ numDef
  valid : k < numDef → (cbs k).valid = true
  earlier : ∀ e ∈ validIn cbs i k, e.inPriority.priority ≤ new.priority ∧
    (new.before ≠ none → new.before ≠ e.inPriority.name)
  after : pastAfter' = true → pastAfter = true ∨
    ∃ e ∈ validIn cbs i k, new.after = e.inPriority.name
  later : k < numDef → new.priority < (cbs k).inPriority.priority ∨
    (new.before ≠ none ∧ new.before = (cbs k).inPriority.name ∧
      (cbs k).inPriority.priority = new.priority)
  before : foundBefore = true → new.before = none ∨
    (k < numDef ∧ new.before = (cbs k).inPriority.name)

section Place

variable {cbs : ℕ → PriorityEntry α} {numDef : ℕ} {new : DrmgrPriority} {i k : ℕ}
  {pastAfter pastAfter' foundBefore : Bool}

theorem Placed.cons_invalid (hvalid : (cbs i).valid = false)
    (h : Placed cbs numDef new (i + 1) pastAfter k pastAfter' foundBefore) :
    Placed cbs numDef new i pastAfter k pastAfter' foundBefore := by
  have hsplit : validIn cbs i k = validIn cbs (i + 1) k := by
    rw [validIn_append (Nat.le_succ i) h.ge, validIn_succ_of_invalid hvalid, List.nil_append]
  refine ⟨Nat.le_of_succ_le h.ge, h.le, h.valid, ?_, ?_, h.later, h.before⟩
  · rw [hsplit]
    exact h.earlier
  · rw [hsplit]
    exact h.after

theorem Placed.cons_valid (hvalid : (cbs i).valid = true)
    (hpri : (cbs i).inPriority.priority ≤ new.priority)
    (hbefore : new.before ≠ none → new.before ≠ (cbs i).inPriority.name) {pastAfter₁ : Bool}
    (hafter : pastAfter₁ = true → pastAfter = true ∨ new.after = (cbs i).inPriority.name)
    (h : Placed cbs numDef new (i + 1) pastAfter₁ k pastAfter' foundBefore) :
    Placed cbs numDef new i pastAfter k pastAfter' foundBefore := by
  have hsplit : validIn cbs i k = cbs i :: validIn cbs (i + 1) k := by
    rw [validIn_append (Nat.le_succ i) h.ge, validIn_succ_of_valid hvalid, List.singleton_append]
  refine ⟨Nat.le_of_succ_le h.ge, h.le, h.valid, ?_, fun hp ↦ ?_, h.later, h.before⟩
  · rw [hsplit, List.forall_mem_cons]
    exact ⟨⟨hpri, hbefore⟩, h.earlier⟩
  · rw [hsplit]
    rcases h.after hp with hp₁ | ⟨e, he, hname⟩
    · rcases hafter hp₁ with hpast | hname
      · exact .inl hpast
      · exact .inr ⟨cbs i, List.mem_cons_self, hname⟩
    · exact .inr ⟨e, List.mem_cons_of_mem _ he, hname⟩

theorem place_spec (hi : i ≤ numDef)
    (h : place cbs numDef new i pastAfter = some (k, pastAfter', foundBefore)) :
    Placed cbs numDef new i pastAfter k pastAfter' foundBefore := by
  induction hn : numDef - i generalizing i pastAfter with
  | zero =>
    have hend : i = numDef := by omega
    rw [place, if_neg (by omega), Option.some.injEq, Prod.mk.injEq, Prod.mk.injEq] at h
    obtain ⟨rfl, rfl, rfl⟩ := h
    subst hend
    refine ⟨le_rfl, le_rfl, fun hlt ↦ absurd hlt (lt_irrefl i), ?_, .inl,
      fun hlt ↦ absurd hlt (lt_irrefl i), fun hb ↦ .inl (Option.isNone_iff_eq_none.1 hb)⟩
    rw [validIn_self]
    simp
  | succ n ih =>
    have hlt : i < numDef := by omega
    have hnext := fun pa ↦ @ih (i + 1) pa (by omega)
    rw [place, if_pos hlt] at h
    -- the loop ends at a valid entry, with no valid entry skipped
    have hstop : ∀ {pa fb : Bool}, (cbs i).valid = true →
        (new.priority < (cbs i).inPriority.priority ∨ (new.before ≠ none ∧
          new.before = (cbs i).inPriority.name ∧ (cbs i).inPriority.priority = new.priority)) →
        (fb = true → new.before = none ∨ new.before = (cbs i).inPriority.name) →
        (pa = true → pastAfter = true) →
        Placed cbs numDef new i pastAfter i pa fb := by
      intro pa fb hvalid hlater hbefore hafter
      refine ⟨le_rfl, hi, fun _ ↦ hvalid, ?_, fun hp ↦ .inl (hafter hp), fun _ ↦ hlater,
        fun hf ↦ (hbefore hf).imp id fun hname ↦ ⟨hlt, hname⟩⟩
      rw [validIn_self]
      simp
    split_ifs at h with hinvalid hpri hbefore hsmall hafter
    · exact (hnext pastAfter h (by omega)).cons_invalid hinvalid
    · obtain ⟨rfl, rfl, rfl⟩ := by
        simpa only [Option.some.injEq, Prod.mk.injEq] using h
      exact hstop (by simpa using hinvalid) (.inl hpri)
        (fun hb ↦ .inl (Option.isNone_iff_eq_none.1 hb)) id
    · obtain ⟨rfl, rfl, rfl⟩ := by
        simpa only [Option.some.injEq, Prod.mk.injEq] using h
      exact hstop (by simpa using hinvalid)
        (.inr ⟨hbefore.1, hbefore.2, le_antisymm (not_lt.1 hpri) (not_lt.1 hsmall)⟩)
        (fun _ ↦ .inr hbefore.2) id
    · refine (hnext true h (by omega)).cons_valid (by simpa using hinvalid) (not_lt.1 hpri)
        (fun hne heq ↦ hbefore ⟨hne, heq⟩) fun _ ↦ .inr hafter.2
    · refine (hnext pastAfter h (by omega)).cons_valid (by simpa using hinvalid) (not_lt.1 hpri)
        (fun hne heq ↦ hbefore ⟨hne, heq⟩) .inl

end Place

/-! ## Making room -/

/-- In `l'` there is a slot at index `j` between the valid entries of `l` with indices below `k` and
those from `k` on. -/
structure Opened (l : CbList α) (k : ℕ) (l' : CbList α) (j : ℕ) : Prop where
  lt : j < l'.numDef
  front : validIn l'.cbs 0 j = validIn l.cbs 0 k
  back : validIn l'.cbs (j + 1) l'.numDef = validIn l.cbs k l.numDef
  numValid : l'.numValid = l.numValid

/-- Entries moved up by one from index `k` on. -/
theorem opened_of_shifted {l l' : CbList α} {k : ℕ} (hk : k ≤ l.numDef)
    (hdef : l'.numDef = l.numDef + 1) (hvalid : l'.numValid = l.numValid)
    (hfront : ∀ x < k, l'.cbs x = l.cbs x)
    (hback : ∀ x, k ≤ x → x < l.numDef → l'.cbs (x + 1) = l.cbs x) : Opened l k l' k where
  lt := by omega
  front := validIn_congr fun x _ hx ↦ hfront x hx
  back := by
    rw [hdef]
    exact validIn_shift hback
  numValid := hvalid

theorem exists_opened (l : CbList α) (garbage : ℕ → PriorityEntry α) {k : ℕ} (hk : k ≤ l.numDef)
    (hvalid : k < l.numDef → (l.cbs k).valid = true) :
    ∃ l' j, l.shiftAndResize garbage k = (l', some j) ∧ Opened l k l' j := by
  rw [shiftAndResize, if_neg (by omega), if_neg fun h ↦ by simp [hvalid h.1] at h]
  split_ifs with hreuse hgrow hend
  · refine ⟨l, k - 1, rfl, by omega, ?_, ?_, rfl⟩
    · rw [validIn_append (Nat.zero_le (k - 1)) (Nat.sub_le k 1)]
      have hlast := validIn_succ_of_invalid hreuse.2
      rw [Nat.sub_add_cancel hreuse.1] at hlast
      rw [hlast, List.append_nil]
    · rw [Nat.sub_add_cancel hreuse.1]
  · refine ⟨_, k, rfl, opened_of_shifted hk rfl rfl (fun x hx ↦ ?_) fun x hkx hx ↦ ?_⟩
    · exact if_pos hx
    · show (if x + 1 < k then _ else if _ then l.cbs (x + 1 - 1) else _) = _
      rw [if_neg (by omega), if_pos (by omega), Nat.add_sub_cancel]
  · subst hend
    exact ⟨_, l.numDef, rfl, opened_of_shifted hk rfl rfl (fun x _ ↦ rfl) fun x hkx hx ↦ by omega⟩
  · refine ⟨_, k, rfl, opened_of_shifted hk rfl rfl (fun x hx ↦ ?_) fun x hkx hx ↦ ?_⟩
    · exact if_neg (by omega)
    · show (if _ then l.cbs (x + 1 - 1) else _) = _
      rw [if_pos (by omega), Nat.add_sub_cancel]

/-- What putting an entry in at an index does to the callbacks. -/
theorem exists_insertAt (l : CbList α) (garbage : ℕ → PriorityEntry α) (new : DrmgrPriority) {k : ℕ}
    (hk : k ≤ l.numDef) (hvalid : k < l.numDef → (l.cbs k).valid = true) :
    ∃ (e : PriorityEntry α) (j : ℕ), (l.insertAt garbage new k).2 = j ∧ e.inPriority = new ∧
      (l.insertAt garbage new k).1.cbs j = e ∧
      validEntries (l.insertAt garbage new k).1 =
        validIn l.cbs 0 k ++ e :: validIn l.cbs k l.numDef ∧
      (l.insertAt garbage new k).1.numValid = l.numValid + 1 := by
  obtain ⟨l', j, hshift, hopen⟩ := exists_opened l garbage hk hvalid
  have hne : ∀ x, x ≠ j → Function.update l'.cbs j ((l'.cbs j).take new) x = l'.cbs x :=
    fun x hx ↦ Function.update_of_ne hx ..
  rw [insertAt, hshift]
  refine ⟨(l'.cbs j).take new, j, rfl, rfl, Function.update_self .., ?_,
    congrArg (· + 1) hopen.numValid⟩
  show validIn (Function.update l'.cbs j _) 0 l'.numDef = _
  rw [validIn_append (Nat.zero_le j) (Nat.le_of_lt hopen.lt),
    validIn_append (Nat.le_succ j) (Nat.succ_le_of_lt hopen.lt),
    validIn_succ_of_valid (by rw [Function.update_self, PriorityEntry.take]), Function.update_self,
    List.singleton_append, ← hopen.front, ← hopen.back]
  congr 1
  · exact validIn_congr fun x _ hx ↦ hne x (by omega)
  · congr 1
    exact validIn_congr fun x hx _ ↦ hne x (by omega)

/-! ## Additions -/

/-- The entries other than those without a name of their own have different names. -/
def Named (es : List (PriorityEntry α)) : Prop :=
  es.Pairwise fun a b ↦ a.inPriority.name = b.inPriority.name → a.inPriority.name = some defaultName

/-- The entries are sorted by priority. -/
def Sorted (es : List (PriorityEntry α)) : Prop :=
  es.Pairwise fun a b ↦ a.inPriority.priority ≤ b.inPriority.priority

/-- The callbacks are sorted, their names are different and they are counted. -/
structure Ordered (l : CbList α) : Prop where
  sorted : Sorted (validEntries l)
  named : Named (validEntries l)
  counted : l.numValid = (validEntries l).length

/-- The entries named are not among those that have the default name. -/
def NamesOwn (pri : DrmgrPriority) : Prop :=
  pri.before ≠ some defaultName ∧ pri.after ≠ some defaultName

/-- A new entry `e` has come between the callbacks `front` and `back`, in accordance with the
entries it names. -/
structure Between (e : PriorityEntry α) (front back : List (PriorityEntry α)) : Prop where
  before : ∀ b, e.inPriority.before = some b →
    (∃ x ∈ back, x.inPriority.name = some b) ∧ ∀ x ∈ front, x.inPriority.name ≠ some b
  after : ∀ a, e.inPriority.after = some a →
    (∃ x ∈ front, x.inPriority.name = some a) ∧ ∀ x ∈ back, x.inPriority.name ≠ some a
  last : e.inPriority.before = none → ∀ x ∈ back, x.inPriority.priority ≠ e.inPriority.priority

/-- What an addition that succeeds finds. -/
theorem priorityEventAdd_cases (l : CbList α) (garbage : ℕ → PriorityEntry α)
    (pri : Option DrmgrPriority) :
    l.priorityEventAdd garbage pri = (l, -1) ∨
    ∃ k pastAfter foundBefore, l.priorityEventAdd garbage pri =
        l.insertAt garbage (pri.getD defaultPriority) k ∧
      (pri.getD defaultPriority).name ≠ none ∧
      (pri.isSome = true → l.hasName (pri.getD defaultPriority).name 0 = false) ∧
      Placed l.cbs l.numDef (pri.getD defaultPriority) 0 (pri.getD defaultPriority).after.isNone k
        pastAfter foundBefore ∧
      pastAfter = true ∧
      (foundBefore = false → l.hasName (pri.getD defaultPriority).before k = true) := by
  rw [priorityEventAdd]
  split_ifs with hname hsize hdup
  · exact .inl rfl
  · exact .inl rfl
  · exact .inl rfl
  · cases hplace : place l.cbs l.numDef (pri.getD defaultPriority) 0
      (pri.getD defaultPriority).after.isNone with
    | none => exact .inl rfl
    | some r =>
      obtain ⟨k, pastAfter, foundBefore⟩ := r
      dsimp only
      split_ifs with hafter hbefore
      · exact .inl rfl
      · exact .inl rfl
      · refine .inr ⟨k, pastAfter, foundBefore, rfl, hname, fun hp ↦ ?_,
          place_spec (Nat.zero_le _) hplace, by simpa using hafter, fun hf ↦ ?_⟩
        · simpa [hp] using hdup
        · simpa [hf] using hbefore

section Add

variable {l : CbList α} {new : DrmgrPriority} {k : ℕ} {pastAfter pastAfter' foundBefore : Bool}

/-- The callbacks behind the place found have at least the priority of the new one. -/
theorem Placed.le_back (h : Placed l.cbs l.numDef new 0 pastAfter k pastAfter' foundBefore)
    (hsorted : Sorted (validEntries l)) :
    ∀ x ∈ validIn l.cbs k l.numDef, new.priority ≤ x.inPriority.priority ∧
      (new.before = none → new.priority < x.inPriority.priority) := by
  rcases Nat.lt_or_ge k l.numDef with hlt | hge
  · have hback : validIn l.cbs k l.numDef = l.cbs k :: validIn l.cbs (k + 1) l.numDef := by
      rw [validIn_append (Nat.le_succ k) hlt, validIn_succ_of_valid (h.valid hlt),
        List.singleton_append]
    rw [validEntries, validIn_append (Nat.zero_le k) h.le, hback] at hsorted
    have hfirst := (List.pairwise_cons.1 (List.pairwise_append.1 hsorted).2.1).1
    rw [hback, List.forall_mem_cons]
    rcases h.later hlt with hless | ⟨hbefore, -, heq⟩
    · exact ⟨⟨hless.le, fun _ ↦ hless⟩, fun x hx ↦ ⟨hless.le.trans (hfirst x hx),
        fun _ ↦ hless.trans_le (hfirst x hx)⟩⟩
    · exact ⟨⟨heq.ge, fun hnone ↦ absurd hnone hbefore⟩, fun x hx ↦
        ⟨heq.ge.trans (hfirst x hx), fun hnone ↦ absurd hnone hbefore⟩⟩
  · rw [Nat.le_antisymm h.le hge, validIn_self]
    simp

theorem Placed.between (h : Placed l.cbs l.numDef new 0 new.after.isNone k pastAfter' foundBefore)
    (hordered : Ordered l) (hown : NamesOwn new) (hpast : pastAfter' = true)
    (hfound : foundBefore = false → l.hasName new.before k = true) {e : PriorityEntry α}
    (he : e.inPriority = new) :
    Between e (validIn l.cbs 0 k) (validIn l.cbs k l.numDef) where
  before b hb := by
    rw [he] at hb
    constructor
    · cases hfb : foundBefore with
      | false =>
        obtain ⟨x, hx, hname⟩ := hasName_iff.1 (hfound hfb)
        exact ⟨x, hx, by rw [← hname, hb]⟩
      | true =>
        rcases h.before hfb with hnone | ⟨hlt, hname⟩
        · rw [hb] at hnone
          exact absurd hnone (by simp)
        · exact ⟨l.cbs k, mem_validIn.2 ⟨k, le_rfl, hlt, h.valid hlt, rfl⟩, by rw [← hname, hb]⟩
    · intro x hx hname
      refine (h.earlier x hx).2 (by rw [hb]; simp) ?_
      rw [hb, hname]
  after a ha := by
    rw [he] at ha
    obtain ⟨y, hy, hyname⟩ : ∃ y ∈ validIn l.cbs 0 k, y.inPriority.name = some a := by
      rcases h.after hpast with hnone | ⟨y, hy, hname⟩
      · rw [ha] at hnone
        exact absurd hnone (by simp)
      · exact ⟨y, hy, by rw [← hname, ha]⟩
    refine ⟨⟨y, hy, hyname⟩, fun x hx hxname ↦ ?_⟩
    -- the name is the one of two entries
    have hnamed := hordered.named
    rw [validEntries, validIn_append (Nat.zero_le k) h.le] at hnamed
    have hdefault := (List.pairwise_append.1 hnamed).2.2 y hy x hx (hyname.trans hxname.symm)
    refine hown.2 ?_
    rw [ha, ← hyname, hdefault]
  last hb x hx := by
    rw [he] at hb ⊢
    exact ((h.le_back hordered.sorted x hx).2 hb).ne'

theorem Placed.sorted (h : Placed l.cbs l.numDef new 0 pastAfter k pastAfter' foundBefore)
    (hsorted : Sorted (validEntries l)) {e : PriorityEntry α} (he : e.inPriority = new) :
    Sorted (validIn l.cbs 0 k ++ e :: validIn l.cbs k l.numDef) := by
  have hback := h.le_back hsorted
  rw [validEntries, validIn_append (Nat.zero_le k) h.le] at hsorted
  obtain ⟨hfront, hrest, hcross⟩ := List.pairwise_append.1 hsorted
  refine List.pairwise_append.2 ⟨hfront, List.pairwise_cons.2 ⟨fun x hx ↦ ?_, hrest⟩,
    fun x hx y hy ↦ ?_⟩
  · rw [he]
    exact (hback x hx).1
  · rcases List.mem_cons.1 hy with rfl | hy
    · rw [he]
      exact (h.earlier x hx).1
    · exact hcross x hx y hy

/-- Names stay different if the new entry has the default name or one that is not in use. -/
theorem named_insert {front back : List (PriorityEntry α)} {e : PriorityEntry α}
    (hnamed : Named (front ++ back))
    (hnew : ∀ x ∈ front ++ back, e.inPriority.name = x.inPriority.name →
      e.inPriority.name = some defaultName) : Named (front ++ e :: back) := by
  obtain ⟨hfront, hback, hcross⟩ := List.pairwise_append.1 hnamed
  refine List.pairwise_append.2 ⟨hfront, List.pairwise_cons.2 ⟨fun x hx ↦ ?_, hback⟩,
    fun x hx y hy hxy ↦ ?_⟩
  · exact hnew x (List.mem_append_right front hx)
  · rcases List.mem_cons.1 hy with rfl | hy
    · rw [hxy]
      exact hnew x (List.mem_append_left back hx) hxy.symm
    · exact hcross x hx y hy hxy

/-- An addition fails and changes nothing, or puts the entry where it belongs. -/
theorem Ordered.priorityEventAdd (h : Ordered l) (garbage : ℕ → PriorityEntry α)
    (pri : Option DrmgrPriority) :
    l.priorityEventAdd garbage pri = (l, -1) ∨
    ∃ (e : PriorityEntry α) (j : ℕ) (front back : List (PriorityEntry α)),
      (l.priorityEventAdd garbage pri).2 = j ∧ (l.priorityEventAdd garbage pri).1.cbs j = e ∧
      e.inPriority = pri.getD defaultPriority ∧ validEntries l = front ++ back ∧
      validEntries (l.priorityEventAdd garbage pri).1 = front ++ e :: back ∧
      Ordered (l.priorityEventAdd garbage pri).1 ∧
      (NamesOwn (pri.getD defaultPriority) → Between e front back) := by
  rcases priorityEventAdd_cases l garbage pri with hfail |
    ⟨k, pastAfter, foundBefore, heq, hname, hdup, hplaced, hpast, hfound⟩
  · exact .inl hfail
  · obtain ⟨e, j, hj, he, hcbs, hvalid, hnum⟩ :=
      exists_insertAt l garbage (pri.getD defaultPriority) hplaced.le hplaced.valid
    have hsplit : validEntries l = validIn l.cbs 0 k ++ validIn l.cbs k l.numDef :=
      validIn_append (Nat.zero_le k) hplaced.le
    have hnew : ∀ x ∈ validIn l.cbs 0 k ++ validIn l.cbs k l.numDef,
        e.inPriority.name = x.inPriority.name → e.inPriority.name = some defaultName := by
      intro x hx hxname
      cases pri with
      | none => rw [he]; rfl
      | some pri =>
        have hno := hdup rfl
        rw [Bool.eq_false_iff] at hno
        refine absurd (hasName_iff.2 ⟨x, ?_, ?_⟩) hno
        · rw [← hsplit] at hx
          exact hx
        · rw [← he, hxname]
    rw [heq]
    refine .inr ⟨e, j, _, _, hj, hcbs, he, hsplit, hvalid, ⟨?_, ?_, ?_⟩,
      fun hown ↦ hplaced.between h hown hpast hfound he⟩
    · rw [hvalid]
      exact hplaced.sorted h.sorted he
    · rw [hvalid]
      refine named_insert ?_ hnew
      rw [← hsplit]
      exact h.named
    · rw [hvalid, hnum, h.counted, hsplit, List.length_append, List.length_append,
        List.length_cons, Nat.add_assoc]

end Add

/-! ## Removals -/

theorem Ordered.of_sublist {l l' : CbList α} (h : Ordered l)
    (hsub : (validEntries l').Sublist (validEntries l))
    (hnum : l'.numValid = (validEntries l').length) : Ordered l' :=
  ⟨h.sorted.sublist hsub, h.named.sublist hsub, hnum⟩

theorem Ordered.bbCbRemove (h : Ordered l) (matchesFunc : PriorityEntry α → Bool) :
    Ordered (l.bbCbRemove matchesFunc).1 := by
  rw [CbList.bbCbRemove]
  cases hfind : (List.range l.numDef).find?
      fun i ↦ (l.cbs i).valid && matchesFunc (l.cbs i) with
  | none => exact h
  | some i =>
    have hi : i < l.numDef := List.mem_range.1 (List.mem_of_find?_eq_some hfind)
    have hvalid : (l.cbs i).valid = true := by
      have := List.find?_some hfind
      rw [Bool.and_eq_true] at this
      exact this.1
    have hne : ∀ x, x ≠ i → Function.update l.cbs i (l.cbs i).drop x = l.cbs x :=
      fun x hx ↦ Function.update_of_ne hx ..
    have hold : validEntries l =
        validIn l.cbs 0 i ++ l.cbs i :: validIn l.cbs (i + 1) l.numDef := by
      rw [validEntries, validIn_append (Nat.zero_le i) (Nat.le_of_lt hi),
        validIn_append (Nat.le_succ i) hi, validIn_succ_of_valid hvalid, List.singleton_append]
    -- whether or not the array ends at the entry, the valid entries are those around it
    have hnew : validIn (Function.update l.cbs i (l.cbs i).drop) 0
        (if i = l.numDef - 1 then l.numDef - 1 else l.numDef) =
        validIn l.cbs 0 i ++ validIn l.cbs (i + 1) l.numDef := by
      have hfront : validIn (Function.update l.cbs i (l.cbs i).drop) 0 i = validIn l.cbs 0 i :=
        validIn_congr fun x _ hx ↦ hne x (by omega)
      split_ifs with hlast
      · rw [← hlast, hfront, show l.numDef = i + 1 by omega, validIn_self, List.append_nil]
      · rw [validIn_append (Nat.zero_le i) (Nat.le_of_lt hi), validIn_append (Nat.le_succ i) hi,
          validIn_succ_of_invalid (by rw [Function.update_self, PriorityEntry.drop]), hfront,
          List.nil_append]
        congr 1
        exact validIn_congr fun x hx _ ↦ hne x (by omega)
    refine h.of_sublist ?_ ?_
    · rw [hold]
      show (validIn _ 0 _).Sublist _
      rw [hnew]
      exact List.Sublist.append_left (List.sublist_cons_self _ _) _
    · show l.numValid - 1 = (validIn _ 0 _).length
      rw [hnew, h.counted, hold, List.length_append, List.length_append, List.length_cons]
      omega

/-! ## Sequences of calls -/

theorem pairwise_of_map_eq {es es' : List (PriorityEntry α)} {R : DrmgrPriority → DrmgrPriority → Prop}
    (h : es'.map PriorityEntry.inPriority = es.map PriorityEntry.inPriority)
    (hp : es.Pairwise fun a b ↦ R a.inPriority b.inPriority) :
    es'.Pairwise fun a b ↦ R a.inPriority b.inPriority := by
  rw [← List.pairwise_map (f := PriorityEntry.inPriority) (R := R)] at hp ⊢
  rwa [h]

theorem Ordered.setCb (h : Ordered l) (i : ℕ) (cb : α) : Ordered { l with
    cbs := Function.update l.cbs i ⟨(l.cbs i).valid, (l.cbs i).inPriority, cb⟩ } := by
  have hsame : ∀ x,
      (Function.update l.cbs i ⟨(l.cbs i).valid, (l.cbs i).inPriority, cb⟩ x).valid =
        (l.cbs x).valid ∧
      (Function.update l.cbs i ⟨(l.cbs i).valid, (l.cbs i).inPriority, cb⟩ x).inPriority =
        (l.cbs x).inPriority := by
    intro x
    by_cases hx : x = i
    · rw [hx, Function.update_self]
      exact ⟨rfl, rfl⟩
    · rw [Function.update_of_ne hx]
      exact ⟨rfl, rfl⟩
  have hmap := map_inPriority_validIn 0 l.numDef hsame
  obtain ⟨hsorted, hnamed, hcounted⟩ := h
  refine ⟨?_, ?_, ?_⟩
  · exact pairwise_of_map_eq (R := fun a b ↦ a.priority ≤ b.priority) hmap hsorted
  · exact pairwise_of_map_eq (R := fun a b ↦ a.name = b.name → a.name = some defaultName) hmap hnamed
  · have := congrArg List.length hmap
    rw [List.length_map, List.length_map] at this
    exact hcounted.trans this.symm

theorem Run.ordered (h : Run l) : Ordered l := by
  induction h with
  | init garbage => exact ⟨List.Pairwise.nil, List.Pairwise.nil, rfl⟩
  | add garbage pri _ ih =>
    rcases ih.priorityEventAdd garbage pri with hfail | ⟨e, j, front, back, -, -, -, -, -, hord, -⟩
    · rw [hfail]
      exact ih
    · exact hord
  | setCb i cb _ ih => exact ih.setCb i cb
  | remove matchesFunc _ ih => exact ih.bbCbRemove matchesFunc

end CbList

end DrAvx
