import DrAvx.InstrList.Basic
import DrAvx.Linked.Splice

/-!
# Cloning an instruction list

`instrlist_clone` copies a list together with the graph its instruction targets make: a source of a
copy points to the copy of what the original points to.  It goes over the list three times.  First
every instruction is copied, and the `note` field of the original, which the copy has by then,
becomes a pointer to the copy.  Then the targets of the copies are looked up in the notes.  Last the
notes are taken back from the copies.

That the targets and the notes come out right is one argument, because the notes are the map from
originals to copies in the second pass (`Copied`).  What is lost is not the graph but a part of the
operand: the new operand is made by `opnd_create_instr`, so a target that is used as an immediate of
four bytes, or shifted, becomes a pointer (`clonesGraph_iff`).

## What is here

* the code: `instrClone`, `instrlistAppend`, `instrlistClone`;
* `ClonesGraph`: what a clone is;
* `cloneLoop_copied`, `fixLoop_fixed`, `restoreLoop_restored`: the three passes;
* `clonesGraph_iff`: when the result is a clone.
-/

set_option autoImplicit false

namespace DrAvx

namespace Clone

open Linked

/-! ## Instructions and lists -/

/-- `OPSZ_4`, in the enumeration of operand sizes. -/
def opsz4 : BitVec 8 := 4

/-- `OPSZ_PTR`, which is `OPSZ_8`. -/
def opszPtr : BitVec 8 := 6

variable {α β : Type}

/-- An operand.  The first three kinds point to an instruction; the first two of them are
`opnd_is_instr`. -/
inductive Opnd (α : Type)
  | nearInstr (target : ℕ) (size : BitVec 8) (shift : BitVec 16)
  | farInstr (target : ℕ) (selector : BitVec 16)
  | memInstr (target : ℕ) (size : BitVec 8) (disp : BitVec 16)
  | other (value : α)

/-- `opnd_get_instr` where the operand is `opnd_is_instr`. -/
def Opnd.target : Opnd α → Option ℕ
  | nearInstr t _ _ => some t
  | farInstr t _ => some t
  | _ => none

/-- The operand without the target. -/
def Opnd.withoutTarget : Opnd α → Opnd α
  | nearInstr _ size shift => nearInstr 0 size shift
  | farInstr _ selector => farInstr 0 selector
  | op => op

/-- The fields of an `instr_t` that cloning reads or writes; `body` is all that is only copied: the
opcode, the destinations, the raw bytes and so on. -/
structure Instr (α β : Type) where
  prev : Option ℕ
  next : Option ℕ
  /-- A `void *` of the client. -/
  note : Option ℕ
  srcs : List (Opnd α)
  translation : Option ℕ
  ourMangling : Bool
  rawBitsValid : Bool
  ripRelValid : Bool
  operandsValid : Bool
  rawBitsAllocated : Bool
  isLabel : Bool
  labelCallback : Option ℕ
  body : β

/-- The instructions on the heap, and the next address that is handed out. -/
structure Heap (α β : Type) where
  instr : ℕ → Instr α β
  fresh : ℕ

/-- An `instrlist_t`. -/
structure Ilist where
  first : Option ℕ
  last : Option ℕ
  translationTarget : Option ℕ
  ourMangling : Bool
  fallThroughBb : Option ℕ

/-- `instrlist_init`. -/
def ilistInit : Ilist := ⟨none, none, none, false, none⟩

namespace Heap

/-- Writing some fields of the instruction at `p`. -/
def modify (h : Heap α β) (p : ℕ) (f : Instr α β → Instr α β) : Heap α β :=
  { h with instr := Function.update h.instr p (f (h.instr p)) }

def instrSetNext (h : Heap α β) (p : ℕ) (v : Option ℕ) : Heap α β :=
  h.modify p fun i ↦ { i with next := v }

def instrSetPrev (h : Heap α β) (p : ℕ) (v : Option ℕ) : Heap α β :=
  h.modify p fun i ↦ { i with prev := v }

def instrSetNote (h : Heap α β) (p : ℕ) (v : Option ℕ) : Heap α β :=
  h.modify p fun i ↦ { i with note := v }

end Heap

/-- `instr_set_src`: the raw bits do not stand for the instruction any more. -/
def Instr.setSrc (i : Instr α β) (pos : ℕ) (op : Opnd α) : Instr α β :=
  { i with
    srcs := i.srcs.set pos op
    rawBitsValid := false
    ripRelValid := false
    ourMangling := false
    operandsValid := true }

/-! ## The code -/

/-- What `instr_clone` makes of an instruction.  The callback of a label is not copied. -/
def Instr.clone (i : Instr α β) : Instr α β :=
  { i with
    next := none
    prev := none
    ourMangling := false
    labelCallback := if ¬i.rawBitsAllocated ∧ i.isLabel then none else i.labelCallback }

/-- `instr_clone`. -/
def instrClone (h : Heap α β) (orig : ℕ) : Heap α β × ℕ :=
  ({ instr := Function.update h.instr h.fresh (h.instr orig).clone, fresh := h.fresh + 1 }, h.fresh)

/-- `check_translation`. -/
def checkTranslation (l : Ilist) (i : Instr α β) : Instr α β :=
  let i := if i.translation.isNone then { i with translation := l.translationTarget } else i
  if l.ourMangling then { i with ourMangling := true } else i

/-- The loop of `instrlist_append`. -/
def toBottom (l : Ilist) : ℕ → Heap α β → ℕ → Except Fault (Heap α β × ℕ)
  | 0, _, _ => .error .outOfFuel
  | fuel + 1, h, inst =>
    match (h.instr inst).next with
    | none => .ok (h, inst)
    | some next => toBottom l fuel (h.modify next (checkTranslation l)) next

/-- `instrlist_append`. -/
def instrlistAppend (fuel : ℕ) (h : Heap α β) (l : Ilist) (inst : ℕ) :
    Except Fault (Heap α β × Ilist) := do
  if (h.instr inst).prev.isSome then throw .assertion
  let (h, bot) ← toBottom l fuel (h.modify inst (checkTranslation l)) inst
  match l.last with
  | some last =>
    return ((h.instrSetNext last (some inst)).instrSetPrev inst (some last),
      { l with last := some bot })
  | none => return (h, { l with first := some inst, last := some bot })

/-- The first loop of `instrlist_clone`. -/
def cloneLoop : ℕ → Heap α β → Ilist → Option ℕ → Except Fault (Heap α β × Ilist)
  | _, h, newlist, none => .ok (h, newlist)
  | 0, _, _, some _ => .error .outOfFuel
  | fuel + 1, h, newlist, some inst => do
    let (h, copy) := instrClone h inst
    let (h, newlist) ← instrlistAppend (fuel + 1) (h.instrSetNote inst (some copy)) newlist copy
    cloneLoop fuel h newlist (h.instr inst).next

/-- The body of the loop over the sources of an instruction. -/
def fixSrc (copy : ℕ) (h : Heap α β) (i : ℕ) : Except Fault (Heap α β) :=
  match (h.instr copy).srcs[i]? with
  | none => .error .assertion
  | some (.nearInstr t _ _) =>
    match (h.instr t).note with
    | none => .error .assertion
    | some tgt => .ok (h.modify copy fun c ↦ c.setSrc i (.nearInstr tgt opszPtr 0))
  | some (.farInstr t selector) =>
    match (h.instr t).note with
    | none => .error .assertion
    | some tgt => .ok (h.modify copy fun c ↦ c.setSrc i (.farInstr tgt selector))
  | some _ => .ok h

/-- The loops that go over the old and the new list side by side. -/
def sideBySide (body : Heap α β → ℕ → ℕ → Except Fault (Heap α β)) :
    ℕ → Heap α β → Option ℕ → Option ℕ → Except Fault (Heap α β)
  | 0, _, some _, some _ => .error .outOfFuel
  | fuel + 1, h, some inst, some copy => do
    let h ← body h inst copy
    sideBySide body fuel h (h.instr inst).next (h.instr copy).next
  | _, h, _, _ => .ok h

/-- The second loop of `instrlist_clone`. -/
def fixLoop : ℕ → Heap α β → Option ℕ → Option ℕ → Except Fault (Heap α β) :=
  sideBySide fun h inst copy ↦ (List.range (h.instr inst).srcs.length).foldlM (fixSrc copy) h

/-- The third loop of `instrlist_clone`. -/
def restoreLoop : ℕ → Heap α β → Option ℕ → Option ℕ → Except Fault (Heap α β) :=
  sideBySide fun h inst copy ↦ .ok (h.instrSetNote inst (h.instr copy).note)

def instrlistClone (fuel : ℕ) (h : Heap α β) (old : Ilist) :
    Except Fault (Heap α β × Ilist) := do
  let (h, newlist) ← cloneLoop fuel h ilistInit old.first
  let h ← fixLoop fuel h old.first newlist.first
  let h ← restoreLoop fuel h old.first newlist.first
  return (h, { newlist with fallThroughBb := old.fallThroughBb })

/-! ## What a clone is -/

/-- The links of a heap. -/
def Heap.links (h : Heap α β) : Links ℕ where
  next p := (h.instr p).next
  prev p := (h.instr p).prev

/-- The list object leads to exactly the instructions `l`. -/
def Heap.IsList (h : Heap α β) (ilist : Ilist) (l : List ℕ) : Prop :=
  Linked.IsList h.links ilist.first ilist.last l

/-- An instruction is a copy, apart from the links, from what its sources point to, and from the
flags that are meant to be reset: marks of mangling, the callback of a label, and the validity of
raw bits and operands. -/
structure Copies (orig copy : Instr α β) : Prop where
  note : copy.note = orig.note
  srcs : copy.srcs.map Opnd.withoutTarget = orig.srcs.map Opnd.withoutTarget
  translation : copy.translation = orig.translation
  rawBitsAllocated : copy.rawBitsAllocated = orig.rawBitsAllocated
  isLabel : copy.isLabel = orig.isLabel
  body : copy.body = orig.body

/-- The instruction the `k`th source points to. -/
def Instr.targetOf (i : Instr α β) (k : ℕ) : Option ℕ := i.srcs[k]?.bind Opnd.target

/-- In the heap `h'` the list `newlist` is a clone of the list `l` of the heap `h`. -/
structure ClonesGraph (h : Heap α β) (l : List ℕ) (h' : Heap α β) (newlist : Ilist)
    (copies : List ℕ) : Prop where
  isList : h'.IsList newlist copies
  length_eq : copies.length = l.length
  each : ∀ (i : ℕ) (p c : ℕ), l[i]? = some p → copies[i]? = some c →
    Copies (h.instr p) (h'.instr c)
  targets : ∀ (i j k : ℕ) (p c t u : ℕ), l[i]? = some p → copies[i]? = some c →
    l[j]? = some t → copies[j]? = some u →
    ((h'.instr c).targetOf k = some u ↔ (h.instr p).targetOf k = some t)
  apart : ∀ c ∈ copies, ∀ (k : ℕ) (t : ℕ), (h'.instr c).targetOf k = some t → t ∉ l
  unchanged : ∀ p < h.fresh, h'.instr p = h.instr p

/-- The targets of the sources are in the list. -/
def Closed (h : Heap α β) (l : List ℕ) : Prop :=
  ∀ p ∈ l, ∀ op ∈ (h.instr p).srcs, ∀ t, op.target = some t → t ∈ l

/-! ## Writes -/

section Writes

variable {h : Heap α β} {p q : ℕ} {f : Instr α β → Instr α β}

@[simp] theorem instr_modify_self : (h.modify p f).instr p = f (h.instr p) :=
  Function.update_self _ _ _

theorem instr_modify_of_ne (hq : q ≠ p) : (h.modify p f).instr q = h.instr q :=
  Function.update_of_ne hq _ _

theorem modify_congr {g : Instr α β → Instr α β} (hfg : f (h.instr p) = g (h.instr p)) :
    h.modify p f = h.modify p g := by
  rw [Heap.modify, hfg, Heap.modify]

theorem modify_modify {g : Instr α β → Instr α β} :
    (h.modify p f).modify p g = h.modify p fun i ↦ g (f i) := by
  rw [Heap.modify, instr_modify_self, Heap.modify, Heap.modify, Function.update_idem]

theorem modify_eq_self (hf : f (h.instr p) = h.instr p) : h.modify p f = h := by
  rw [Heap.modify, hf, Function.update_eq_self]

theorem links_instrSetNext (v : Option ℕ) :
    (h.instrSetNext p v).links = h.links.setNext p v := by
  ext q : 2
  · by_cases hq : q = p
    · subst hq
      simp [Heap.links, Heap.instrSetNext, Links.setNext]
    · simp [Heap.links, Heap.instrSetNext, Links.setNext, hq, instr_modify_of_ne hq]
  · by_cases hq : q = p
    · subst hq
      simp [Heap.links, Heap.instrSetNext, Links.setNext]
    · simp [Heap.links, Heap.instrSetNext, Links.setNext, instr_modify_of_ne hq]

theorem links_instrSetPrev (v : Option ℕ) :
    (h.instrSetPrev p v).links = h.links.setPrev p v := by
  ext q : 2
  · by_cases hq : q = p
    · subst hq
      simp [Heap.links, Heap.instrSetPrev, Links.setPrev]
    · simp [Heap.links, Heap.instrSetPrev, Links.setPrev, instr_modify_of_ne hq]
  · by_cases hq : q = p
    · subst hq
      simp [Heap.links, Heap.instrSetPrev, Links.setPrev]
    · simp [Heap.links, Heap.instrSetPrev, Links.setPrev, hq, instr_modify_of_ne hq]

/-- An instruction without its links. -/
def Instr.unlinked (i : Instr α β) : Instr α β := { i with prev := none, next := none }

theorem unlinked_instrSetNext (v : Option ℕ) :
    ((h.instrSetNext p v).instr q).unlinked = (h.instr q).unlinked := by
  by_cases hq : q = p
  · subst hq
    rw [Heap.instrSetNext, instr_modify_self]
    rfl
  · rw [Heap.instrSetNext, instr_modify_of_ne hq]

theorem unlinked_instrSetPrev (v : Option ℕ) :
    ((h.instrSetPrev p v).instr q).unlinked = (h.instr q).unlinked := by
  by_cases hq : q = p
  · subst hq
    rw [Heap.instrSetPrev, instr_modify_self]
    rfl
  · rw [Heap.instrSetPrev, instr_modify_of_ne hq]

end Writes

/-! ## The first pass -/

/-- Nothing is inherited from the list object. -/
def Ilist.Plain (l : Ilist) : Prop := l.translationTarget = none ∧ l.ourMangling = false

theorem checkTranslation_eq_self {l : Ilist} (hl : l.Plain) (i : Instr α β) :
    checkTranslation l i = i := by
  rw [checkTranslation, hl.1, hl.2]
  cases ht : i.translation with
  | none =>
    cases i
    simp_all
  | some t => simp

/-- What appending a single instruction does. -/
structure Appended (h : Heap α β) (l : Ilist) (nodes : List ℕ) (inst : ℕ) (h' : Heap α β)
    (l' : Ilist) : Prop where
  isList : h'.IsList l' (nodes ++ [inst])
  plain : l'.Plain
  fresh : h'.fresh = h.fresh
  unlinked : ∀ q, (h'.instr q).unlinked = (h.instr q).unlinked
  others : ∀ q, q ∉ nodes ++ [inst] → h'.instr q = h.instr q

theorem instrlistAppend_single {h : Heap α β} {l : Ilist} {nodes : List ℕ} {inst : ℕ}
    (hl : h.IsList l nodes) (hplain : l.Plain) (hinst : inst ∉ nodes)
    (hprev : (h.instr inst).prev = none) (hnext : (h.instr inst).next = none) (fuel : ℕ) :
    ∃ h' l', instrlistAppend (fuel + 1) h l inst = .ok (h', l') ∧
      Appended h l nodes inst h' l' := by
  have hcheck : h.modify inst (checkTranslation l) = h :=
    modify_eq_self (checkTranslation_eq_self hplain _)
  have hrun : instrlistAppend (fuel + 1) h l inst = match l.last with
      | some last => .ok ((h.instrSetNext last (some inst)).instrSetPrev inst (some last),
        { l with last := some inst })
      | none => .ok (h, { l with first := some inst, last := some inst }) := by
    rw [instrlistAppend, hprev, hcheck, toBottom, hnext]
    cases l.last <;> rfl
  have hseg := hl.seg.pushBack hl.nodup hinst hnext
  have hnodup : (nodes ++ [inst]).Nodup := by
    simpa using List.Nodup.concat hinst hl.nodup
  rw [hrun]
  cases hlast : l.last with
  | none =>
    have hnil : nodes = [] := by
      simpa [hlast] using hl.last_eq.symm
    subst hnil
    refine ⟨_, _, rfl, ⟨rfl, rfl, ?_, hnodup⟩, hplain, rfl, fun q ↦ rfl, fun q _ ↦ rfl⟩
    exact ⟨hprev, hnext, trivial⟩
  | some last =>
    have hgetLast : nodes.getLast? = some last := hl.last_eq.symm.trans hlast
    have hmem := List.mem_of_getLast? hgetLast
    refine ⟨_, _, rfl, ⟨?_, ?_, ?_, hnodup⟩, hplain, rfl, fun q ↦ ?_, fun q hq ↦ ?_⟩
    · rw [List.head?_append, hl.first_eq]
      cases nodes with
      | nil => exact absurd hmem List.not_mem_nil
      | cons a nodes => rfl
    · simp
    · rw [links_instrSetPrev, links_instrSetNext]
      rwa [hgetLast] at hseg
    · rw [unlinked_instrSetPrev, unlinked_instrSetNext]
    · rw [List.mem_append, List.mem_singleton, not_or] at hq
      rw [Heap.instrSetPrev, instr_modify_of_ne hq.2, Heap.instrSetNext,
        instr_modify_of_ne (ne_of_mem_of_not_mem hmem hq.1).symm]

/-- After the first pass over `done`: the notes lead to the copies, which are in the new list, and
nothing else is changed. -/
structure Copied (h₀ h : Heap α β) (newlist : Ilist) (done : List ℕ) : Prop where
  bound : ∀ p ∈ done, p < h₀.fresh
  fresh : h.fresh = h₀.fresh + done.length
  isList : h.IsList newlist (List.range' h₀.fresh done.length)
  plain : newlist.Plain
  orig : ∀ (i : ℕ) (p : ℕ), done[i]? = some p →
    h.instr p = { h₀.instr p with note := some (h₀.fresh + i) }
  copy : ∀ (i : ℕ) (p : ℕ), done[i]? = some p →
    (h.instr (h₀.fresh + i)).unlinked = (h₀.instr p).clone
  rest : ∀ p < h₀.fresh, p ∉ done → h.instr p = h₀.instr p

theorem copied_nil (h₀ : Heap α β) : Copied h₀ h₀ ilistInit [] where
  bound p hp := absurd hp List.not_mem_nil
  fresh := rfl
  isList := ⟨rfl, rfl, trivial, List.nodup_nil⟩
  plain := ⟨rfl, rfl⟩
  orig i p hi := absurd hi (by simp)
  copy i p hi := absurd hi (by simp)
  rest p _ _ := rfl

theorem getElem?_concat_eq_some {l : List ℕ} {a b i : ℕ} (h : (l ++ [a])[i]? = some b) :
    l[i]? = some b ∨ i = l.length ∧ b = a := by
  rw [List.getElem?_append] at h
  split_ifs at h with hlt
  · exact .inl h
  · obtain ⟨h0, rfl⟩ := List.getElem?_eq_some_iff.1 h
    rw [List.length_singleton] at h0
    exact .inr ⟨by omega, by simp⟩

/-- One round of the first pass. -/
theorem Copied.step {h₀ h : Heap α β} {newlist : Ilist} {done : List ℕ}
    (hcopied : Copied h₀ h newlist done) {p : ℕ} (hp : p < h₀.fresh) (hnew : p ∉ done)
    (fuel : ℕ) :
    ∃ h' newlist', instrlistAppend (fuel + 1)
        ((instrClone h p).1.instrSetNote p (some (instrClone h p).2)) newlist (instrClone h p).2 =
          .ok (h', newlist') ∧ Copied h₀ h' newlist' (done ++ [p]) := by
  have hfresh := hcopied.fresh
  set c := h.fresh with hc
  set h₁ := (instrClone h p).1.instrSetNote p (some c) with hh₁
  have hpc : p ≠ c := by omega
  -- what is at each address before the copy is appended
  have hself : h₁.instr p = { h₀.instr p with note := some c } := by
    rw [hh₁, Heap.instrSetNote, instr_modify_self, instrClone]
    dsimp only
    rw [Function.update_of_ne hpc, hcopied.rest p hp hnew]
  have hcopy : h₁.instr c = (h₀.instr p).clone := by
    rw [hh₁, Heap.instrSetNote, instr_modify_of_ne hpc.symm, instrClone]
    dsimp only
    rw [Function.update_self, hcopied.rest p hp hnew]
  have hothers : ∀ q, q ≠ p → q ≠ c → h₁.instr q = h.instr q := by
    intro q hqp hqc
    rw [hh₁, Heap.instrSetNote, instr_modify_of_ne hqp, instrClone]
    exact Function.update_of_ne hqc _ _
  have hrange : ∀ q ∈ List.range' h₀.fresh done.length, q ≠ p ∧ q ≠ c := by
    intro q hq
    rw [List.mem_range'_1] at hq
    omega
  have hlist : h₁.IsList newlist (List.range' h₀.fresh done.length) := by
    refine ⟨hcopied.isList.first_eq, hcopied.isList.last_eq, ?_, hcopied.isList.nodup⟩
    refine hcopied.isList.seg.congr fun q hq ↦ ?_
    have hq' := hothers q (hrange q hq).1 (hrange q hq).2
    exact ⟨congrArg Instr.next hq', congrArg Instr.prev hq'⟩
  obtain ⟨h', newlist', hrun, happ⟩ := instrlistAppend_single hlist hcopied.plain
    (fun hmem ↦ (hrange c hmem).2 rfl) (by rw [hcopy]; rfl) (by rw [hcopy]; rfl) fuel
  have hrange' : List.range' h₀.fresh done.length ++ [c] =
      List.range' h₀.fresh (done ++ [p]).length := by
    rw [List.length_append, List.length_singleton, List.range'_concat, hfresh, Nat.one_mul]
  have hkept : ∀ q < h₀.fresh, h'.instr q = h₁.instr q := by
    intro q hq
    refine happ.others q ?_
    rw [hrange', List.mem_range'_1]
    omega
  refine ⟨h', newlist', hrun, ?_, ?_, hrange' ▸ happ.isList, happ.plain, fun i q hi ↦ ?_,
    fun i q hi ↦ ?_, fun q hq hnot ↦ ?_⟩
  · intro q hq
    rcases List.mem_append.1 hq with hq | hq
    · exact hcopied.bound q hq
    · rwa [List.mem_singleton.1 hq]
  · rw [happ.fresh, List.length_append, List.length_singleton]
    show h.fresh + 1 = _
    omega
  · rcases getElem?_concat_eq_some hi with hi | ⟨rfl, rfl⟩
    · have hmem := List.mem_of_getElem? hi
      have hlt := hcopied.bound q hmem
      rw [hkept q hlt, hothers q (ne_of_mem_of_not_mem hmem hnew) (by omega), hcopied.orig i q hi]
    · rw [hkept q hp, hself, hfresh]
  · rw [happ.unlinked]
    rcases getElem?_concat_eq_some hi with hi | ⟨rfl, rfl⟩
    · obtain ⟨hlt, -⟩ := List.getElem?_eq_some_iff.1 hi
      rw [hothers _ (by omega) (by omega), hcopied.copy i q hi]
    · rw [← hfresh, hcopy]
      rfl
  · rw [List.mem_append, List.mem_singleton, not_or] at hnot
    rw [hkept q hq, hothers q hnot.2 (by omega), hcopied.rest q hq hnot.1]

theorem cloneLoop_copied {h₀ : Heap α β} {todo : List ℕ} :
    ∀ {h : Heap α β} {newlist : Ilist} {done : List ℕ} {before : Option ℕ} {fuel : ℕ},
      Copied h₀ h newlist done → Seg h₀.links before todo none → (done ++ todo).Nodup →
      (∀ p ∈ todo, p < h₀.fresh) → todo.length ≤ fuel →
      ∃ h' newlist', cloneLoop fuel h newlist todo.head? = .ok (h', newlist') ∧
        Copied h₀ h' newlist' (done ++ todo) := by
  induction todo with
  | nil =>
    intro h newlist done before fuel hcopied _ _ _ _
    refine ⟨h, newlist, by rw [List.head?_nil, cloneLoop], ?_⟩
    rwa [List.append_nil]
  | cons p todo ih =>
    intro h newlist done before fuel hcopied hseg hnodup hbound hfuel
    obtain ⟨fuel, rfl⟩ : ∃ n, fuel = n + 1 := ⟨fuel - 1, by simp at hfuel; omega⟩
    have hp := hbound p List.mem_cons_self
    have hnew : p ∉ done := by
      have := List.nodup_middle.1 hnodup
      exact fun hmem ↦ (List.nodup_cons.1 this).1 (List.mem_append_left _ hmem)
    obtain ⟨h₁, newlist₁, hrun, hcopied₁⟩ := hcopied.step hp hnew fuel
    have hnext : (h₁.instr p).next = todo.head? := by
      rw [hcopied₁.orig done.length p (by simp)]
      simpa [Heap.links] using hseg.2.1
    obtain ⟨h', newlist', hrest, hcopied'⟩ := ih hcopied₁ hseg.2.2 (by simpa using hnodup)
      (fun q hq ↦ hbound q (List.mem_cons_of_mem p hq)) (by simpa using hfuel)
    refine ⟨h', newlist', ?_, by simpa using hcopied'⟩
    rw [List.head?_cons, cloneLoop]
    dsimp only
    rw [hrun]
    show cloneLoop fuel h₁ newlist₁ (h₁.instr p).next = _
    rw [hnext, hrest]

/-! ## Two lists side by side -/

/-- What a loop over two lists of the same length does, by an invariant that counts the rounds. -/
theorem sideBySide_run {body : Heap α β → ℕ → ℕ → Except Fault (Heap α β)} {l copies : List ℕ}
    (hlen : copies.length = l.length) (I : ℕ → Heap α β → Prop)
    (hstep : ∀ k p c h, l[k]? = some p → copies[k]? = some c → I k h →
      ∃ h', body h p c = .ok h' ∧ (h'.instr p).next = l[k + 1]? ∧
        (h'.instr c).next = copies[k + 1]? ∧ I (k + 1) h') :
    ∀ {fuel k : ℕ} {h : Heap α β}, k ≤ l.length → l.length - k ≤ fuel → I k h →
      ∃ h', sideBySide body fuel h l[k]? copies[k]? = .ok h' ∧ I l.length h' := by
  intro fuel
  induction fuel with
  | zero =>
    intro k h hk hfuel hI
    obtain rfl : k = l.length := by omega
    rw [List.getElem?_eq_none (Nat.le_refl _), List.getElem?_eq_none (Nat.le_of_eq hlen)]
    exact ⟨h, rfl, hI⟩
  | succ fuel ih =>
    intro k h hk hfuel hI
    rcases Nat.eq_or_lt_of_le hk with rfl | hlt
    · rw [List.getElem?_eq_none (Nat.le_refl _), List.getElem?_eq_none (Nat.le_of_eq hlen)]
      exact ⟨h, rfl, hI⟩
    · have hp := List.getElem?_eq_getElem hlt
      have hc := List.getElem?_eq_getElem (hlen ▸ hlt)
      obtain ⟨h₁, hbody, hnext, hnext', hI₁⟩ := hstep k _ _ h hp hc hI
      obtain ⟨h', hrun, hI'⟩ := ih hlt (by omega) hI₁
      refine ⟨h', ?_, hI'⟩
      rw [hp, hc, sideBySide, hbody]
      show sideBySide body fuel h₁ _ _ = _
      rw [hnext, hnext', hrun]

/-! ## The second pass -/

/-- The operand that is put in the place of an operand, if the target `t` is moved to `ρ t`. -/
def Opnd.fixed (ρ : ℕ → ℕ) : Opnd α → Opnd α
  | nearInstr t _ _ => nearInstr (ρ t) opszPtr 0
  | farInstr t selector => farInstr (ρ t) selector
  | op => op

theorem Opnd.target_fixed (ρ : ℕ → ℕ) (op : Opnd α) : (op.fixed ρ).target = op.target.map ρ := by
  cases op <;> rfl

/-- One round of the loop over the sources, on the instruction. -/
def Instr.fixAt (ρ : ℕ → ℕ) (i : Instr α β) (k : ℕ) : Instr α β :=
  match i.srcs[k]? with
  | some op => if op.target.isSome then i.setSrc k (op.fixed ρ) else i
  | none => i

def Instr.retarget (ρ : ℕ → ℕ) (i : Instr α β) : Instr α β :=
  (List.range i.srcs.length).foldl (Instr.fixAt ρ) i

theorem Opnd.fixed_of_target_none {ρ : ℕ → ℕ} {op : Opnd α} (h : op.target = none) :
    op.fixed ρ = op := by
  cases op with
  | nearInstr t size shift => exact absurd h (by simp [Opnd.target])
  | farInstr t selector => exact absurd h (by simp [Opnd.target])
  | memInstr t size disp => rfl
  | other value => rfl

theorem getElem?_srcs_fixAt (ρ : ℕ → ℕ) (i : Instr α β) (k j : ℕ) :
    (i.fixAt ρ k).srcs[j]? = if j = k then i.srcs[j]?.map (Opnd.fixed ρ) else i.srcs[j]? := by
  rw [Instr.fixAt]
  cases hk : i.srcs[k]? with
  | none =>
    split_ifs with hj
    · rw [hj, hk, Option.map_none]
    · rfl
  | some op =>
    dsimp only
    cases ht : op.target with
    | none =>
      rw [Option.isSome_none, if_neg (by simp)]
      split_ifs with hj
      · rw [hj, hk, Option.map_some, Opnd.fixed_of_target_none ht]
      · rfl
    | some t =>
      rw [Option.isSome_some, if_pos rfl, Instr.setSrc]
      by_cases hj : j = k
      · obtain ⟨hlt, -⟩ := List.getElem?_eq_some_iff.1 hk
        rw [if_pos hj, hj, hk, List.getElem?_set_self hlt, Option.map_some]
      · rw [if_neg hj, List.getElem?_set_ne (Ne.symm hj)]

theorem srcs_retarget (ρ : ℕ → ℕ) (i : Instr α β) :
    (i.retarget ρ).srcs = i.srcs.map (Opnd.fixed ρ) := by
  have hfold : ∀ n j, ((List.range n).foldl (Instr.fixAt ρ) i).srcs[j]? =
      if j < n then i.srcs[j]?.map (Opnd.fixed ρ) else i.srcs[j]? := by
    intro n j
    induction n with
    | zero => rfl
    | succ n ih =>
      rw [List.range_succ, List.foldl_append, List.foldl_cons, List.foldl_nil, getElem?_srcs_fixAt,
        ih]
      rcases Nat.lt_trichotomy j n with hlt | heq | hgt
      · rw [if_neg (by omega), if_pos hlt, if_pos (by omega)]
      · rw [if_pos heq, if_neg (by omega), if_pos (by omega)]
      · rw [if_neg (by omega), if_neg (by omega), if_neg (by omega)]
  refine List.ext_getElem? fun j ↦ ?_
  rw [Instr.retarget, hfold, List.getElem?_map]
  split_ifs with hj
  · rfl
  · rw [List.getElem?_eq_none (by omega), Option.map_none]

/-- The fields that are neither sources nor flags of validity are the same. -/
structure SameFields (i i' : Instr α β) : Prop where
  prev : i'.prev = i.prev
  next : i'.next = i.next
  note : i'.note = i.note
  translation : i'.translation = i.translation
  rawBitsAllocated : i'.rawBitsAllocated = i.rawBitsAllocated
  isLabel : i'.isLabel = i.isLabel
  body : i'.body = i.body

theorem SameFields.trans {i i' i'' : Instr α β} (h : SameFields i i') (h' : SameFields i' i'') :
    SameFields i i'' :=
  ⟨h'.prev.trans h.prev, h'.next.trans h.next, h'.note.trans h.note,
    h'.translation.trans h.translation, h'.rawBitsAllocated.trans h.rawBitsAllocated,
    h'.isLabel.trans h.isLabel, h'.body.trans h.body⟩

theorem sameFields_fixAt (ρ : ℕ → ℕ) (i : Instr α β) (k : ℕ) : SameFields i (i.fixAt ρ k) := by
  rw [Instr.fixAt]
  cases i.srcs[k]? with
  | none => exact ⟨rfl, rfl, rfl, rfl, rfl, rfl, rfl⟩
  | some op =>
    dsimp only
    split_ifs <;> exact ⟨rfl, rfl, rfl, rfl, rfl, rfl, rfl⟩

theorem sameFields_retarget (ρ : ℕ → ℕ) (i : Instr α β) : SameFields i (i.retarget ρ) := by
  rw [Instr.retarget]
  generalize List.range i.srcs.length = ks
  induction ks generalizing i with
  | nil => exact ⟨rfl, rfl, rfl, rfl, rfl, rfl, rfl⟩
  | cons k ks ih =>
    rw [List.foldl_cons]
    exact (sameFields_fixAt ρ i k).trans (ih _)

/-- The target of a source is found in the note of the target. -/
theorem fixSrc_eq {ρ : ℕ → ℕ} {h : Heap α β} {c k : ℕ} (hk : k < (h.instr c).srcs.length)
    (hnote : ∀ t, (h.instr c).targetOf k = some t → (h.instr t).note = some (ρ t)) :
    fixSrc c h k = .ok (h.modify c fun i ↦ i.fixAt ρ k) := by
  obtain ⟨op, hop⟩ : ∃ op, (h.instr c).srcs[k]? = some op := ⟨_, List.getElem?_eq_getElem hk⟩
  rw [Instr.targetOf, hop, Option.bind_some] at hnote
  rw [fixSrc, hop]
  cases op with
  | nearInstr t size shift =>
    dsimp only
    rw [hnote t rfl]
    refine congrArg Except.ok (modify_congr ?_)
    rw [Instr.fixAt, hop]
    rfl
  | farInstr t selector =>
    dsimp only
    rw [hnote t rfl]
    refine congrArg Except.ok (modify_congr ?_)
    rw [Instr.fixAt, hop]
    rfl
  | memInstr t size disp =>
    refine congrArg Except.ok (modify_eq_self ?_).symm
    rw [Instr.fixAt, hop]
    rfl
  | other value =>
    refine congrArg Except.ok (modify_eq_self ?_).symm
    rw [Instr.fixAt, hop]
    rfl

theorem length_srcs_fixAt (ρ : ℕ → ℕ) (i : Instr α β) (k : ℕ) :
    (i.fixAt ρ k).srcs.length = i.srcs.length := by
  rw [Instr.fixAt]
  cases i.srcs[k]? with
  | none => rfl
  | some op =>
    dsimp only
    split_ifs
    · exact List.length_set
    · rfl

/-- The loop over the sources of an instruction that is not a target itself. -/
theorem foldlM_fixSrc {ρ : ℕ → ℕ} {c : ℕ} {ks : List ℕ} : ∀ {h : Heap α β}, ks.Nodup →
    (∀ k ∈ ks, k < (h.instr c).srcs.length) →
    (∀ k ∈ ks, ∀ t, (h.instr c).targetOf k = some t → t ≠ c ∧ (h.instr t).note = some (ρ t)) →
    ks.foldlM (fixSrc c) h = .ok (h.modify c fun i ↦ ks.foldl (Instr.fixAt ρ) i) := by
  induction ks with
  | nil =>
    intro h _ _ _
    exact congrArg Except.ok (modify_eq_self rfl).symm
  | cons k ks ih =>
    intro h hnodup hlt hnote
    obtain ⟨hnot, hnodup⟩ := List.nodup_cons.1 hnodup
    have hfix := fixSrc_eq (hlt k List.mem_cons_self)
      fun t ht ↦ (hnote k List.mem_cons_self t ht).2
    have hrest := @ih (h.modify c fun i ↦ i.fixAt ρ k) hnodup
      (fun j hj ↦ by
        rw [instr_modify_self, length_srcs_fixAt]
        exact hlt j (List.mem_cons_of_mem k hj))
      (fun j hj t ht ↦ by
        -- the sources to come are still those of the original
        have hjk : j ≠ k := ne_of_mem_of_not_mem hj hnot
        rw [instr_modify_self, Instr.targetOf, getElem?_srcs_fixAt, if_neg hjk] at ht
        obtain ⟨hne, hn⟩ := hnote j (List.mem_cons_of_mem k hj) t ht
        rw [instr_modify_of_ne hne]
        exact ⟨hne, hn⟩)
    rw [List.foldlM_cons, hfix]
    show List.foldlM (fixSrc c) _ ks = _
    rw [hrest, modify_modify]
    rfl

/-- Where the copy of an instruction of the list is. -/
def forward (h₀ : Heap α β) (l : List ℕ) (t : ℕ) : ℕ := h₀.fresh + l.idxOf t

section Passes

variable {h₀ h₁ h₂ : Heap α β} {newlist : Ilist} {l : List ℕ} {k p c t : ℕ}

theorem Copied.note_of_mem (hcopied : Copied h₀ h₁ newlist l) (ht : t ∈ l) :
    (h₁.instr t).note = some (forward h₀ l t) := by
  have hi : l[l.idxOf t]? = some t := by
    rw [List.getElem?_eq_getElem (List.idxOf_lt_length_iff.2 ht), List.getElem_idxOf]
  rw [hcopied.orig _ t hi]
  rfl

theorem Copied.next_orig (hcopied : Copied h₀ h₁ newlist l) (hseg : Seg h₀.links none l none)
    (hp : l[k]? = some p) : (h₁.instr p).next = l[k + 1]? := by
  rw [hcopied.orig k p hp]
  exact hseg.next_getElem? hp

theorem Copied.srcs_copy (hcopied : Copied h₀ h₁ newlist l) (hp : l[k]? = some p) :
    (h₁.instr (h₀.fresh + k)).srcs = (h₀.instr p).srcs := by
  have hsrcs := congrArg Instr.srcs (hcopied.copy k p hp)
  exact hsrcs

theorem Copied.note_copy (hcopied : Copied h₀ h₁ newlist l) (hp : l[k]? = some p) :
    (h₁.instr (h₀.fresh + k)).note = (h₀.instr p).note := by
  have hnote := congrArg Instr.note (hcopied.copy k p hp)
  exact hnote

theorem getElem?_copies (hc : (List.range' h₀.fresh l.length)[k]? = some c) :
    c = h₀.fresh + k := by
  obtain ⟨hlt, rfl⟩ := List.getElem?_eq_some_iff.1 hc
  rw [List.getElem_range', Nat.one_mul]

/-- After `k` rounds of the second pass the first `k` copies have their targets. -/
structure Fixed (h₀ h₁ : Heap α β) (l : List ℕ) (k : ℕ) (h : Heap α β) : Prop where
  old : ∀ q < h₀.fresh, h.instr q = h₁.instr q
  pending : ∀ i, k ≤ i → h.instr (h₀.fresh + i) = h₁.instr (h₀.fresh + i)
  done : ∀ i < k, h.instr (h₀.fresh + i) = (h₁.instr (h₀.fresh + i)).retarget (forward h₀ l)

theorem fixLoop_fixed (hcopied : Copied h₀ h₁ newlist l) (hseg : Seg h₀.links none l none)
    (hclosed : Closed h₀ l) {fuel : ℕ} (hfuel : l.length ≤ fuel) :
    ∃ h, fixLoop fuel h₁ l[0]? (List.range' h₀.fresh l.length)[0]? = .ok h ∧
      Fixed h₀ h₁ l l.length h := by
  refine sideBySide_run (by simp) (Fixed h₀ h₁ l) (fun k p c h hp hc hfixed ↦ ?_) (Nat.zero_le _)
    hfuel ⟨fun _ _ ↦ rfl, fun _ _ ↦ rfl, fun i hi ↦ absurd hi (Nat.not_lt_zero i)⟩
  have hnext := hcopied.isList.seg.next_getElem? hc
  obtain rfl := getElem?_copies hc
  have hmem := List.mem_of_getElem? hp
  have hold := hfixed.old p (hcopied.bound p hmem)
  have hcopy := hfixed.pending k (Nat.le_refl k)
  have hsrcs : (h.instr p).srcs.length = (h.instr (h₀.fresh + k)).srcs.length := by
    rw [hold, hcopied.orig k p hp, hcopy, hcopied.srcs_copy hp]
  have hrun : (List.range (h.instr p).srcs.length).foldlM (fixSrc (h₀.fresh + k)) h =
      .ok (h.modify (h₀.fresh + k) (Instr.retarget (forward h₀ l))) := by
    rw [hsrcs]
    refine foldlM_fixSrc List.nodup_range (fun j hj ↦ List.mem_range.1 hj) (fun j _ t ht ↦ ?_)
    -- a target is in the list, where the notes are still those of the first pass
    rw [hcopy, Instr.targetOf, hcopied.srcs_copy hp] at ht
    obtain ⟨op, hop, htarget⟩ := Option.bind_eq_some_iff.1 ht
    have htl := hclosed p hmem op (List.mem_of_getElem? hop) t htarget
    have htlt := hcopied.bound t htl
    rw [hfixed.old t htlt]
    exact ⟨by omega, hcopied.note_of_mem htl⟩
  have hlt := hcopied.bound p hmem
  refine ⟨_, hrun, ?_, ?_, fun q hq ↦ ?_, fun i hi ↦ ?_, fun i hi ↦ ?_⟩
  · rw [instr_modify_of_ne (by omega), hold]
    exact hcopied.next_orig hseg hp
  · rw [instr_modify_self, (sameFields_retarget _ _).next, hcopy]
    exact hnext
  · rw [instr_modify_of_ne (by omega), hfixed.old q hq]
  · rw [instr_modify_of_ne (by omega), hfixed.pending i (by omega)]
  · rcases Nat.eq_or_lt_of_le (Nat.le_of_lt_succ hi) with rfl | hlt
    · rw [instr_modify_self, hcopy]
    · rw [instr_modify_of_ne (by omega), hfixed.done i hlt]

/-! ## The third pass -/

/-- After `k` rounds of the third pass the first `k` originals are as they were. -/
structure Restored (h₀ h₂ : Heap α β) (l : List ℕ) (k : ℕ) (h : Heap α β) : Prop where
  others : ∀ q, q ∉ l → h.instr q = h₂.instr q
  pending : ∀ (i p : ℕ), k ≤ i → l[i]? = some p → h.instr p = h₂.instr p
  done : ∀ (i p : ℕ), i < k → l[i]? = some p → h.instr p = h₀.instr p

theorem restoreLoop_restored (hcopied : Copied h₀ h₁ newlist l) (hseg : Seg h₀.links none l none)
    (hnodup : l.Nodup) (hfixed : Fixed h₀ h₁ l l.length h₂) {fuel : ℕ} (hfuel : l.length ≤ fuel) :
    ∃ h, restoreLoop fuel h₂ l[0]? (List.range' h₀.fresh l.length)[0]? = .ok h ∧
      Restored h₀ h₂ l l.length h := by
  refine sideBySide_run (by simp) (Restored h₀ h₂ l) (fun k p c h hp hc hrest ↦ ?_) (Nat.zero_le _)
    hfuel ⟨fun _ _ ↦ rfl, fun _ _ _ _ ↦ rfl, fun i p hi ↦ absurd hi (Nat.not_lt_zero i)⟩
  have hnext := hcopied.isList.seg.next_getElem? hc
  obtain rfl := getElem?_copies hc
  have hmem := List.mem_of_getElem? hp
  have hlt := hcopied.bound p hmem
  have hk : k < l.length := (List.getElem?_eq_some_iff.1 hp).1
  have hcl : h₀.fresh + k ∉ l := fun hm ↦ by
    have := hcopied.bound _ hm
    omega
  -- what is at the original and at the copy
  have horig : h.instr p = { h₀.instr p with note := some (h₀.fresh + k) } := by
    rw [hrest.pending k p (Nat.le_refl k) hp, hfixed.old p hlt, hcopied.orig k p hp]
  have hcopy : h.instr (h₀.fresh + k) =
      (h₁.instr (h₀.fresh + k)).retarget (forward h₀ l) := by
    rw [hrest.others _ hcl, hfixed.done k hk]
  have hnote : (h.instr (h₀.fresh + k)).note = (h₀.instr p).note := by
    rw [hcopy, (sameFields_retarget _ _).note, hcopied.note_copy hp]
  have hself : (h.instrSetNote p (h.instr (h₀.fresh + k)).note).instr p = h₀.instr p := by
    rw [Heap.instrSetNote, instr_modify_self, hnote, horig]
  refine ⟨_, rfl, ?_, ?_, fun q hq ↦ ?_, fun i q hi hq ↦ ?_, fun i q hi hq ↦ ?_⟩
  · rw [hself]
    exact hseg.next_getElem? hp
  · rw [Heap.instrSetNote, instr_modify_of_ne (by omega), hcopy, (sameFields_retarget _ _).next]
    exact hnext
  · have hne := (ne_of_mem_of_not_mem hmem hq).symm
    rw [Heap.instrSetNote, instr_modify_of_ne hne, hrest.others q hq]
  · have hne : q ≠ p := by
      rintro rfl
      have := (List.getElem?_inj hk hnodup).1 (hp.trans hq.symm)
      omega
    rw [Heap.instrSetNote, instr_modify_of_ne hne, hrest.pending i q (by omega) hq]
  · by_cases hqp : q = p
    · subst hqp
      exact hself
    · have hik : i ≠ k := by
        rintro rfl
        exact hqp (Option.some.inj (hq.symm.trans hp))
      rw [Heap.instrSetNote, instr_modify_of_ne hqp, hrest.done i q (by omega) hq]

/-! ## The clone -/

/-- What is on the heap after all three passes. -/
structure Cloned (h₀ : Heap α β) (l : List ℕ) (h : Heap α β) (newlist : Ilist) : Prop where
  isList : h.IsList newlist (List.range' h₀.fresh l.length)
  old : ∀ q < h₀.fresh, h.instr q = h₀.instr q
  copy : ∀ (k p : ℕ), l[k]? = some p → ∃ i : Instr α β, i.unlinked = (h₀.instr p).clone ∧
    h.instr (h₀.fresh + k) = i.retarget (forward h₀ l)

theorem instrlistClone_cloned {old : Ilist} (hlist : h₀.IsList old l)
    (hbound : ∀ p ∈ l, p < h₀.fresh) (hclosed : Closed h₀ l) {fuel : ℕ}
    (hfuel : l.length ≤ fuel) :
    ∃ h newlist, instrlistClone fuel h₀ old = .ok (h, newlist) ∧ Cloned h₀ l h newlist := by
  obtain ⟨h₁, newlist, hrun₁, hcopied⟩ := cloneLoop_copied (copied_nil h₀) hlist.seg
    (by rw [List.nil_append]; exact hlist.nodup) hbound hfuel
  rw [List.nil_append] at hcopied
  obtain ⟨h₂, hrun₂, hfixed⟩ := fixLoop_fixed hcopied hlist.seg hclosed hfuel
  obtain ⟨h₃, hrun₃, hrest⟩ := restoreLoop_restored hcopied hlist.seg hlist.nodup hfixed hfuel
  have hfirst : old.first = l[0]? := by rw [hlist.first_eq, List.head?_eq_getElem?]
  have hfirst' : newlist.first = (List.range' h₀.fresh l.length)[0]? := by
    rw [hcopied.isList.first_eq, List.head?_eq_getElem?]
  rw [← hlist.first_eq] at hrun₁
  rw [← hfirst, ← hfirst'] at hrun₂ hrun₃
  have hcopy : ∀ k < l.length, h₃.instr (h₀.fresh + k) =
      (h₁.instr (h₀.fresh + k)).retarget (forward h₀ l) := by
    intro k hk
    rw [hrest.others _ fun hm ↦ by have := hcopied.bound _ hm; omega, hfixed.done k hk]
  refine ⟨h₃, { newlist with fallThroughBb := old.fallThroughBb }, ?_, ?_, fun q hq ↦ ?_,
    fun k p hp ↦ ?_⟩
  · rw [instrlistClone, hrun₁]
    show (do
      let h ← fixLoop fuel h₁ old.first newlist.first
      let h ← restoreLoop fuel h old.first newlist.first
      return (h, { newlist with fallThroughBb := old.fallThroughBb })) = _
    rw [hrun₂]
    show (do
      let h ← restoreLoop fuel h₂ old.first newlist.first
      return (h, { newlist with fallThroughBb := old.fallThroughBb })) = _
    rw [hrun₃]
    rfl
  · refine ⟨hcopied.isList.first_eq, hcopied.isList.last_eq, ?_, hcopied.isList.nodup⟩
    refine hcopied.isList.seg.congr fun c hc ↦ ?_
    rw [List.mem_range'_1] at hc
    obtain ⟨k, rfl⟩ : ∃ k, c = h₀.fresh + k := ⟨c - h₀.fresh, by omega⟩
    have hc' := hcopy k (by omega)
    have hsame := sameFields_retarget (forward h₀ l) (h₁.instr (h₀.fresh + k))
    exact ⟨(congrArg Instr.next hc').trans hsame.next, (congrArg Instr.prev hc').trans hsame.prev⟩
  · by_cases hq' : q ∈ l
    · obtain ⟨i, hi⟩ := List.mem_iff_getElem?.1 hq'
      exact hrest.done i q (List.getElem?_eq_some_iff.1 hi).1 hi
    · rw [hrest.others q hq', hfixed.old q hq, hcopied.rest q hq hq']
  · exact ⟨_, hcopied.copy k p hp, hcopy k (List.getElem?_eq_some_iff.1 hp).1⟩

section Cloned

variable {h : Heap α β}

theorem Cloned.srcs_eq (hcloned : Cloned h₀ l h newlist) (hp : l[k]? = some p) :
    (h.instr (h₀.fresh + k)).srcs = (h₀.instr p).srcs.map (Opnd.fixed (forward h₀ l)) := by
  obtain ⟨i, hi, hcopy⟩ := hcloned.copy k p hp
  have hsrcs : i.srcs = (h₀.instr p).srcs := (congrArg Instr.srcs hi :)
  rw [hcopy, srcs_retarget, hsrcs]

theorem Cloned.targetOf_eq (hcloned : Cloned h₀ l h newlist) (hp : l[k]? = some p) (n : ℕ) :
    (h.instr (h₀.fresh + k)).targetOf n = ((h₀.instr p).targetOf n).map (forward h₀ l) := by
  rw [Instr.targetOf, hcloned.srcs_eq hp, List.getElem?_map, Instr.targetOf]
  cases (h₀.instr p).srcs[n]? with
  | none => rfl
  | some op => exact op.target_fixed _

/-- The operand is a pointer to its target, if it has one. -/
def Opnd.IsPointer : Opnd α → Prop
  | nearInstr _ size shift => size = opszPtr ∧ shift = 0
  | _ => True

theorem Opnd.withoutTarget_fixed_iff (ρ : ℕ → ℕ) (op : Opnd α) :
    (op.fixed ρ).withoutTarget = op.withoutTarget ↔ op.IsPointer := by
  cases op with
  | nearInstr t size shift =>
    rw [Opnd.fixed, Opnd.withoutTarget, Opnd.withoutTarget, Opnd.nearInstr.injEq]
    exact ⟨fun h ↦ ⟨h.2.1.symm, h.2.2.symm⟩, fun h ↦ ⟨rfl, h.1.symm, h.2.symm⟩⟩
  | farInstr t selector => exact iff_of_true rfl trivial
  | memInstr t size disp => exact iff_of_true rfl trivial
  | other value => exact iff_of_true rfl trivial

theorem Cloned.copies_iff (hcloned : Cloned h₀ l h newlist) (hp : l[k]? = some p) :
    Copies (h₀.instr p) (h.instr (h₀.fresh + k)) ↔ ∀ op ∈ (h₀.instr p).srcs, op.IsPointer := by
  have hsrcs := hcloned.srcs_eq hp
  have hiff : (h.instr (h₀.fresh + k)).srcs.map Opnd.withoutTarget =
      (h₀.instr p).srcs.map Opnd.withoutTarget ↔ ∀ op ∈ (h₀.instr p).srcs, op.IsPointer := by
    rw [hsrcs, List.map_map, List.map_inj_left]
    exact forall₂_congr fun op _ ↦ op.withoutTarget_fixed_iff _
  refine ⟨fun hcopies ↦ hiff.1 hcopies.srcs, fun hall ↦ ?_⟩
  obtain ⟨i, hi, hcopy⟩ := hcloned.copy k p hp
  have hsame := sameFields_retarget (forward h₀ l) i
  rw [← hcopy] at hsame
  exact ⟨hsame.note.trans (congrArg Instr.note hi :), hiff.2 hall,
    hsame.translation.trans (congrArg Instr.translation hi :),
    hsame.rawBitsAllocated.trans (congrArg Instr.rawBitsAllocated hi :),
    hsame.isLabel.trans (congrArg Instr.isLabel hi :), hsame.body.trans (congrArg Instr.body hi :)⟩

theorem Closed.mem_of_targetOf (hclosed : Closed h₀ l) (hp : p ∈ l) {n : ℕ}
    (ht : (h₀.instr p).targetOf n = some t) : t ∈ l := by
  obtain ⟨op, hop, htarget⟩ := Option.bind_eq_some_iff.1 ht
  exact hclosed p hp op (List.mem_of_getElem? hop) t htarget

theorem forward_eq_iff (hnodup : l.Nodup) (hp : p ∈ l) (ht : l[k]? = some t) :
    forward h₀ l p = h₀.fresh + k ↔ p = t := by
  obtain ⟨hk, rfl⟩ := List.getElem?_eq_some_iff.1 ht
  rw [forward, Nat.add_left_cancel_iff]
  constructor
  · rintro rfl
    exact (List.getElem_idxOf hk).symm
  · rintro rfl
    exact hnodup.idxOf_getElem k hk

/-- The sources of the copies point to the copies. -/
theorem Cloned.targetOf_iff (hcloned : Cloned h₀ l h newlist) (hclosed : Closed h₀ l)
    (hnodup : l.Nodup) {j n : ℕ} (hp : l[k]? = some p) (ht : l[j]? = some t) :
    (h.instr (h₀.fresh + k)).targetOf n = some (h₀.fresh + j) ↔
      (h₀.instr p).targetOf n = some t := by
  rw [hcloned.targetOf_eq hp, Option.map_eq_some_iff]
  constructor
  · rintro ⟨t', ht', hforward⟩
    have hmem := hclosed.mem_of_targetOf (List.mem_of_getElem? hp) ht'
    rw [ht', (forward_eq_iff hnodup hmem ht).1 hforward]
  · intro htarget
    exact ⟨t, htarget, (forward_eq_iff hnodup (List.mem_of_getElem? ht) ht).2 rfl⟩

theorem Cloned.clonesGraph (hcloned : Cloned h₀ l h newlist) (hbound : ∀ p ∈ l, p < h₀.fresh)
    (hclosed : Closed h₀ l) (hnodup : l.Nodup)
    (hall : ∀ p ∈ l, ∀ op ∈ (h₀.instr p).srcs, op.IsPointer) :
    ClonesGraph h₀ l h newlist (List.range' h₀.fresh l.length) where
  isList := hcloned.isList
  length_eq := List.length_range'
  each i p c hp hc := by
    obtain rfl := getElem?_copies hc
    exact (hcloned.copies_iff hp).2 (hall p (List.mem_of_getElem? hp))
  targets i j n p c t u hp hc ht hu := by
    obtain rfl := getElem?_copies hc
    obtain rfl := getElem?_copies hu
    exact hcloned.targetOf_iff hclosed hnodup hp ht
  apart c hc n t ht hmem := by
    obtain ⟨i, hi⟩ := List.mem_iff_getElem?.1 hc
    have hlt : i < l.length := by
      simpa using (List.getElem?_eq_some_iff.1 hi).1
    obtain rfl := getElem?_copies hi
    rw [hcloned.targetOf_eq (List.getElem?_eq_getElem hlt), Option.map_eq_some_iff] at ht
    obtain ⟨t', -, rfl⟩ := ht
    have := hbound _ hmem
    rw [forward] at this
    omega
  unchanged := hcloned.old

theorem Cloned.isPointer (hcloned : Cloned h₀ l h newlist) {copies : List ℕ}
    (hclones : ClonesGraph h₀ l h newlist copies) :
    ∀ p ∈ l, ∀ op ∈ (h₀.instr p).srcs, op.IsPointer := by
  intro p hp
  -- the nodes of a list are found by following its pointers
  have hcopies : copies = List.range' h₀.fresh l.length :=
    hclones.isList.seg.unique hcloned.isList.seg
      (hclones.isList.first_eq.symm.trans hcloned.isList.first_eq)
  obtain ⟨k, hk⟩ := List.mem_iff_getElem?.1 hp
  have hlt := (List.getElem?_eq_some_iff.1 hk).1
  have hc : copies[k]? = some (h₀.fresh + k) := by
    rw [hcopies, List.getElem?_range' hlt, Nat.one_mul]
  exact (hcloned.copies_iff hk).1 (hclones.each k p _ hk hc)

end Cloned

/-- The list that is made is a clone exactly if every source that is an instruction is a pointer:
has the size of a pointer and is not shifted. -/
theorem clonesGraph_iff {old : Ilist} (hlist : h₀.IsList old l) (hbound : ∀ p ∈ l, p < h₀.fresh)
    (hclosed : Closed h₀ l) {fuel : ℕ} (hfuel : l.length ≤ fuel) :
    (∃ h newlist copies, instrlistClone fuel h₀ old = .ok (h, newlist) ∧
      ClonesGraph h₀ l h newlist copies) ↔
      ∀ p ∈ l, ∀ op ∈ (h₀.instr p).srcs, op.IsPointer := by
  obtain ⟨h, newlist, hrun, hcloned⟩ := instrlistClone_cloned hlist hbound hclosed hfuel
  constructor
  · rintro ⟨h', newlist', copies, hrun', hclones⟩ p hp
    cases hrun.symm.trans hrun'
    exact hcloned.isPointer hclones p hp
  · intro hall
    exact ⟨h, newlist, _, hrun, hcloned.clonesGraph hbound hclosed hlist.nodup hall⟩

end Passes

/-! ## Two lists -/

/-- An instruction with nothing but sources. -/
def plainInstr (prev next : Option ℕ) (srcs : List (Opnd Unit)) : Instr Unit Unit :=
  ⟨prev, next, none, srcs, none, false, false, false, true, false, false, none, ()⟩

/-- An instruction that takes the upper half of its own address as an immediate of four bytes, as
`insert_mov_immed_arch` does. -/
def upperHalf : Heap Unit Unit where
  instr _ := plainInstr none none [.nearInstr 1 opsz4 32]
  fresh := 2

def upperHalfList : Ilist := ⟨some 1, some 1, none, false, none⟩

/-- The immediate becomes a pointer. -/
theorem not_clonesGraph_upperHalf : upperHalf.IsList upperHalfList [1] ∧
    (∀ p ∈ [1], p < upperHalf.fresh) ∧ Closed upperHalf [1] ∧
    ¬∃ h newlist copies, instrlistClone 1 upperHalf upperHalfList = .ok (h, newlist) ∧
      ClonesGraph upperHalf [1] h newlist copies := by
  have hlist : upperHalf.IsList upperHalfList [1] :=
    ⟨rfl, rfl, ⟨rfl, rfl, trivial⟩, List.nodup_singleton 1⟩
  have hbound : ∀ p ∈ [1], p < upperHalf.fresh := by decide
  have hclosed : Closed upperHalf [1] := by
    intro p _ op hop t ht
    rw [List.mem_singleton.1 hop] at ht
    cases ht
    exact List.mem_singleton_self 1
  refine ⟨hlist, hbound, hclosed, ?_⟩
  rintro ⟨h, newlist, copies, hrun, hclones⟩
  obtain ⟨h', newlist', hrun', hcloned⟩ :=
    instrlistClone_cloned hlist hbound hclosed (Nat.le_refl 1)
  cases hrun'.symm.trans hrun
  have hptr := hcloned.isPointer hclones 1 (List.mem_singleton_self 1) _ List.mem_cons_self
  exact absurd hptr.1 (by decide)

/-- A jump forward to a second instruction, which jumps back to the first and to itself. -/
def backAndForth : Heap Unit Unit where
  instr p := if p = 1 then plainInstr none (some 2) [.nearInstr 2 opszPtr 0] else
    plainInstr (some 1) none [.nearInstr 1 opszPtr 0, .farInstr 2 0]
  fresh := 3

def backAndForthList : Ilist := ⟨some 1, some 2, none, false, none⟩

theorem clonesGraph_backAndForth : ∃ h newlist copies,
    instrlistClone 2 backAndForth backAndForthList = .ok (h, newlist) ∧
      ClonesGraph backAndForth [1, 2] h newlist copies := by
  have hclosed : Closed backAndForth [1, 2] := by
    intro p hp op hop t ht
    rcases List.mem_pair.1 hp with rfl | rfl
    · rw [List.mem_singleton.1 hop] at ht
      cases ht
      decide
    · rcases List.mem_pair.1 hop with rfl | rfl
      all_goals
        cases ht
        decide
  have hlist : backAndForth.IsList backAndForthList [1, 2] :=
    ⟨rfl, rfl, ⟨rfl, rfl, rfl, rfl, trivial⟩, by decide⟩
  refine (clonesGraph_iff hlist (by decide) hclosed (Nat.le_refl 2)).2 fun p hp op hop ↦ ?_
  rcases List.mem_pair.1 hp with rfl | rfl
  · rw [List.mem_singleton.1 hop]
    exact ⟨rfl, rfl⟩
  · rcases List.mem_pair.1 hop with rfl | rfl
    · exact ⟨rfl, rfl⟩
    · trivial

end Clone

end DrAvx
