import Mathlib.Data.Int.Notation
import Mathlib.Data.List.Nodup
import DrAvx.Linked.Segment

/-!
# The instruction list and its primitives

`instrlist_t` is an intrusive doubly linked list: the links are the `prev` and `next` fields of the
instructions themselves, and the list object only holds the two ends.  This file models the store
of instructions (`Mem`), the primitives of `instrlist.c` that the rewriter uses, and proves what
each of them does to a well-formed list: `instrlistRemove` takes one node out
(`isList_instrlistRemove`), `instrlistPostinsert` splices a whole chain in behind a given node, or in
front of the list when there is no such node (`instrlistPostinsert_spec`).

The primitives walk a chain of unknown length and dereference pointers that may be null, so they
run on fuel and return in `Except Fault`.  The specifications say that they succeed.
-/

set_option autoImplicit false

namespace DrAvx

open Linked

/-! ## The store -/

/-- The address of an `instr_t`. -/
abbrev Ptr := ℕ

/-- The fields of an `instr_t` that the list code and the rewriting driver read or write. -/
structure Node where
  /-- The previous instruction of the list. -/
  prev : Option Ptr
  /-- The next instruction of the list. -/
  next : Option Ptr
  /-- Set by the block builder on an instruction that must be rewritten. -/
  isAvx512Instr : Bool
  /-- The decoded opcode. -/
  opcode : ℤ
  /-- The application address the instruction stands for, if it has one. -/
  translation : Option ℕ
  /-- Set on instructions inserted while the runtime mangles a block. -/
  ourMangling : Bool

/-- An `instrlist_t`. -/
structure InstrList where
  /-- The first instruction. -/
  first : Option Ptr
  /-- The last instruction. -/
  last : Option Ptr
  /-- The translation given to inserted instructions that have none. -/
  translationTarget : Option ℕ
  /-- Whether inserted instructions are marked as mangling. -/
  ourMangling : Bool
  /-- Whether the driver saves the vector registers around the whole block. -/
  needSpillSimd : Bool

/-- The state the list code works on: the instructions, the list object, the first address that
has never been allocated, and whatever else the thread's context holds. -/
structure Mem (ω : Type) where
  /-- The instruction at each address. -/
  node : Ptr → Node
  /-- The list object. -/
  ilist : InstrList
  /-- The next address the allocator hands out. -/
  fresh : Ptr
  /-- The rest of the thread's context. -/
  dcontext : ω

/-- What can go wrong in list code. -/
inductive Fault
  | nullDeref
  | assertion
  | outOfFuel
  deriving DecidableEq, Repr

/-- `instrlist_init`. -/
def instrlistInit : InstrList :=
  { first := none, last := none, translationTarget := none, ourMangling := false,
    needSpillSimd := false }

variable {ω : Type}

namespace Mem

/-- The links of the store, as the segment library sees them. -/
def links (m : Mem ω) : Links Ptr where
  next p := (m.node p).next
  prev p := (m.node p).prev

/-- `instr_set_next`. -/
def instrSetNext (m : Mem ω) (p : Ptr) (v : Option Ptr) : Mem ω :=
  { m with node := Function.update m.node p { m.node p with next := v } }

/-- `instr_set_prev`. -/
def instrSetPrev (m : Mem ω) (p : Ptr) (v : Option Ptr) : Mem ω :=
  { m with node := Function.update m.node p { m.node p with prev := v } }

def setFirst (m : Mem ω) (v : Option Ptr) : Mem ω := { m with ilist.first := v }

def setLast (m : Mem ω) (v : Option Ptr) : Mem ω := { m with ilist.last := v }

@[simp] theorem links_instrSetNext (m : Mem ω) (p : Ptr) (v : Option Ptr) :
    (m.instrSetNext p v).links = m.links.setNext p v := by
  ext q : 2
  · by_cases h : q = p
    · subst h; simp [links, instrSetNext, Links.setNext]
    · simp [links, instrSetNext, Links.setNext, h]
  · by_cases h : q = p
    · subst h; simp [links, instrSetNext, Links.setNext]
    · simp [links, instrSetNext, Links.setNext, h]

@[simp] theorem links_instrSetPrev (m : Mem ω) (p : Ptr) (v : Option Ptr) :
    (m.instrSetPrev p v).links = m.links.setPrev p v := by
  ext q : 2
  · by_cases h : q = p
    · subst h; simp [links, instrSetPrev, Links.setPrev]
    · simp [links, instrSetPrev, Links.setPrev, h]
  · by_cases h : q = p
    · subst h; simp [links, instrSetPrev, Links.setPrev]
    · simp [links, instrSetPrev, Links.setPrev, h]

/-- The list object of the store leads to exactly the instructions `l`.  `needSpillSimd` is written
by `instrlist_init` alone, so every list the runtime builds has it cleared. -/
structure IsList (m : Mem ω) (l : List Ptr) : Prop where
  /-- The links and the two ends. -/
  linked : Linked.IsList m.links m.ilist.first m.ilist.last l
  /-- The coarse spill is off. -/
  needSpillSimd : m.ilist.needSpillSimd = false

/-- Two stores agree on what the driver reads of an instruction besides its links. -/
def SameInstr (m m' : Mem ω) (p : Ptr) : Prop :=
  (m'.node p).isAvx512Instr = (m.node p).isAvx512Instr ∧ (m'.node p).opcode = (m.node p).opcode

end Mem

open Mem

/-! ## Moving an end of a segment

Every primitive redirects links with one idiom: if there is a neighbour, write its field, and
otherwise write the end pointer of the list object. -/

/-- Make `v` the successor of `p`, or the first instruction when there is no `p`. -/
def Mem.linkNext (m : Mem ω) (p v : Option Ptr) : Mem ω :=
  match p with
  | some p => m.instrSetNext p v
  | none => m.setFirst v

/-- Make `v` the predecessor of `p`, or the last instruction when there is no `p`. -/
def Mem.linkPrev (m : Mem ω) (p v : Option Ptr) : Mem ω :=
  match p with
  | some p => m.instrSetPrev p v
  | none => m.setLast v

theorem node_instrSetNext_of_ne {m : Mem ω} {p q : Ptr} (h : q ≠ p) (v : Option Ptr) :
    (m.instrSetNext p v).node q = m.node q := Function.update_of_ne h _ _

theorem node_instrSetPrev_of_ne {m : Mem ω} {p q : Ptr} (h : q ≠ p) (v : Option Ptr) :
    (m.instrSetPrev p v).node q = m.node q := Function.update_of_ne h _ _

variable {l : List Ptr}

theorem node_linkNext_of_notMem {m : Mem ω} {q : Ptr} (h : q ∉ l)
    (v : Option Ptr) : (m.linkNext l.getLast? v).node q = m.node q := by
  cases hl : l.getLast? with
  | none => rfl
  | some a =>
    have ha : a ∈ l := List.mem_of_getLast? hl
    exact node_instrSetNext_of_ne (ne_of_mem_of_not_mem ha h).symm v

theorem Mem.linkNext_last (m : Mem ω) (p v : Option Ptr) :
    (m.linkNext p v).ilist.last = m.ilist.last := by cases p <;> rfl

theorem Mem.linkPrev_first (m : Mem ω) (p v : Option Ptr) :
    (m.linkPrev p v).ilist.first = m.ilist.first := by cases p <;> rfl

theorem Mem.linkNext_needSpillSimd (m : Mem ω) (p v : Option Ptr) :
    (m.linkNext p v).ilist.needSpillSimd = m.ilist.needSpillSimd := by cases p <;> rfl

theorem Mem.linkPrev_needSpillSimd (m : Mem ω) (p v : Option Ptr) :
    (m.linkPrev p v).ilist.needSpillSimd = m.ilist.needSpillSimd := by cases p <;> rfl

variable {b a : Option Ptr}

/-- Redirecting the right end of the front part of a list. -/
theorem seg_linkNext {m : Mem ω} (hl : l.Nodup)
    (h : Seg m.links b l a) (v : Option Ptr) : Seg (m.linkNext l.getLast? v).links b l v := by
  rcases List.eq_nil_or_concat' l with rfl | ⟨l, q, rfl⟩
  · trivial
  · have hq : q ∉ l := (List.nodup_concat l q).1 (by simpa using hl) |>.1
    simpa [linkNext] using h.setNext_last hq v

/-- Redirecting the left end of the back part of a list. -/
theorem seg_linkPrev {m : Mem ω} (hl : l.Nodup)
    (h : Seg m.links b l a) (v : Option Ptr) : Seg (m.linkPrev l.head? v).links v l a := by
  cases l with
  | nil => trivial
  | cons q l => simpa [linkPrev] using h.setPrev_head (List.nodup_cons.1 hl).1 v

/-- Redirecting an end of `l` does not touch the nodes of a disjoint segment. -/
theorem Seg.linkNext_of_disjoint {m : Mem ω} {l k : List Ptr}
    (h : Seg m.links b k a) (hd : l.Disjoint k) (v : Option Ptr) :
    Seg (m.linkNext l.getLast? v).links b k a := by
  cases hl : l.getLast? with
  | none => exact h
  | some q => simpa [linkNext] using h.setNext (hd (List.mem_of_getLast? hl)) v

theorem Seg.linkPrev_of_disjoint {m : Mem ω} {l k : List Ptr}
    (h : Seg m.links b k a) (hd : l.Disjoint k) (v : Option Ptr) :
    Seg (m.linkPrev l.head? v).links b k a := by
  cases hl : l.head? with
  | none => exact h
  | some q => simpa [linkPrev] using h.setPrev (hd (List.mem_of_head? hl)) v

theorem linkNext_first {m : Mem ω} {a : Option Ptr}
    (h : m.ilist.first = l.head?.or a) (v : Option Ptr) :
    (m.linkNext l.getLast? v).ilist.first = l.head?.or v := by
  cases l with
  | nil => rfl
  | cons q l =>
    obtain ⟨z, hz⟩ := Option.isSome_iff_exists.1 (by simp : (q :: l).getLast?.isSome)
    rw [hz]
    simpa [linkNext, instrSetNext] using h

theorem linkPrev_last {m : Mem ω} {b : Option Ptr}
    (h : m.ilist.last = l.getLast?.or b) (v : Option Ptr) :
    (m.linkPrev l.head? v).ilist.last = l.getLast?.or v := by
  cases l with
  | nil => rfl
  | cons q l =>
    obtain ⟨z, hz⟩ := Option.isSome_iff_exists.1 (by simp : (q :: l).getLast?.isSome)
    simpa [linkPrev, instrSetPrev, hz] using h

variable {p : Ptr}

/-- The links of a node in the middle of a list. -/
theorem Mem.IsList.node_links {m : Mem ω} {pre post : List Ptr}
    (h : m.IsList (pre ++ p :: post)) :
    (m.node p).prev = pre.getLast? ∧ (m.node p).next = post.head? := by
  obtain ⟨-, hp, hn, -⟩ := seg_append.1 h.linked.seg
  exact ⟨by simpa [links] using hp, by simpa [links] using hn⟩

/-! ## Removal -/

/-- `instrlist_remove`. -/
def instrlistRemove (m : Mem ω) (inst : Ptr) : Mem ω :=
  let m₁ := m.linkNext (m.node inst).prev (m.node inst).next
  let m₂ := m₁.linkPrev (m₁.node inst).next (m₁.node inst).prev
  (m₂.instrSetPrev inst none).instrSetNext inst none

/-- `instrlist_remove` takes the node out and leaves the rest of the list linked. -/
theorem isList_instrlistRemove {m : Mem ω} {pre post : List Ptr}
    (h : m.IsList (pre ++ p :: post)) : (instrlistRemove m p).IsList (pre ++ post) := by
  obtain ⟨hprev, hnext⟩ := h.node_links
  obtain ⟨⟨hfirst, hlast, hseg, hnd⟩, hspill⟩ := h
  obtain ⟨hpre, -, -, hpost⟩ := seg_append.1 hseg
  have hnd' : (pre ++ post).Nodup := hnd.sublist (by simp)
  obtain ⟨hndpre, hndpost, hdis⟩ := List.nodup_append'.1 hnd'
  have hp : p ∉ pre ++ post := (List.nodup_cons.1 (List.nodup_middle.1 hnd)).1
  rw [List.mem_append, not_or] at hp
  -- first the part in front of `p` is redirected, then the part behind it
  set m₁ := m.linkNext pre.getLast? post.head? with hm₁
  have hnode : m₁.node p = m.node p := node_linkNext_of_notMem hp.1 _
  have hrem : instrlistRemove m p =
      ((m₁.linkPrev post.head? pre.getLast?).instrSetPrev p none).instrSetNext p none := by
    simp only [instrlistRemove, hprev, hnext, ← hm₁, hnode]
  set m₂ := m₁.linkPrev post.head? pre.getLast? with hm₂
  have hseg₁ : Seg m₁.links none pre post.head? := seg_linkNext hndpre hpre _
  have hpost₁ : Seg m₁.links (some p) post none := Seg.linkNext_of_disjoint hpost hdis _
  have hseg₂ : Seg m₂.links none (pre ++ post) none := by
    refine seg_append.2 ⟨?_, ?_⟩
    · simpa using Seg.linkPrev_of_disjoint hseg₁ (List.disjoint_comm.1 hdis) pre.getLast?
    · simpa using seg_linkPrev hndpost hpost₁ pre.getLast?
  have hp' : p ∉ pre ++ post := by simp [hp]
  rw [hrem]
  refine ⟨⟨?_, ?_, ?_, hnd'⟩, ?_⟩
  · have h₁ : m₁.ilist.first = pre.head?.or post.head? :=
      linkNext_first (a := some p) (by simp [hfirst, List.head?_append]) _
    show m₂.ilist.first = _
    rw [hm₂, linkPrev_first, h₁, List.head?_append]
  · have h₂ : m₂.ilist.last = post.getLast?.or pre.getLast? := by
      refine linkPrev_last (b := some p) ?_ _
      rw [hm₁, linkNext_last, hlast, List.getLast?_append, List.getLast?_cons]
      cases post.getLast? <;> simp
    show m₂.ilist.last = _
    rw [h₂, List.getLast?_append]
  · simpa using (hseg₂.setPrev hp' none).setNext hp' none
  · show m₂.ilist.needSpillSimd = false
    rw [hm₂, linkPrev_needSpillSimd, hm₁, linkNext_needSpillSimd, hspill]

/-! ## Insertion of a chain -/

/-- `check_translation`. -/
def checkTranslation (m : Mem ω) (inst : Ptr) : Mem ω :=
  let n := m.node inst
  let n := if n.translation.isNone then { n with translation := m.ilist.translationTarget } else n
  let n := if m.ilist.ourMangling then { n with ourMangling := true } else n
  { m with node := Function.update m.node inst n }

/-- The loop of the insertion primitives: follow `next` to the bottom of a chain, giving every
instruction on the way its translation. -/
def toBottom : ℕ → Mem ω → Ptr → Except Fault (Mem ω × Ptr)
  | 0, _, _ => .error .outOfFuel
  | fuel + 1, m, inst =>
    match (m.node inst).next with
    | none => .ok (m, inst)
    | some next => toBottom fuel (checkTranslation m next) next

/-- `instrlist_prepend`. -/
def instrlistPrepend (fuel : ℕ) (m : Mem ω) (inst : Ptr) : Except Fault (Mem ω) := do
  if (m.node inst).prev.isSome then throw .assertion
  let (m, bot) ← toBottom fuel (checkTranslation m inst) inst
  match m.ilist.first with
  | some first =>
    return ((m.instrSetNext bot (some first)).instrSetPrev first (some bot)).setFirst (some inst)
  | none => return (m.setFirst (some inst)).setLast (some bot)

/-- `instrlist_append`. -/
def instrlistAppend (fuel : ℕ) (m : Mem ω) (inst : Ptr) : Except Fault (Mem ω) := do
  if (m.node inst).prev.isSome then throw .assertion
  let (m, bot) ← toBottom fuel (checkTranslation m inst) inst
  match m.ilist.last with
  | some last =>
    return ((m.instrSetNext last (some inst)).instrSetPrev inst (some last)).setLast (some bot)
  | none => return (m.setFirst (some inst)).setLast (some bot)

/-- `instrlist_preinsert`. -/
def instrlistPreinsert (fuel : ℕ) (m : Mem ω) (loc : Option Ptr) (inst : Ptr) :
    Except Fault (Mem ω) :=
  match loc with
  | none => instrlistAppend fuel m inst
  | some loc => do
    if (m.node inst).prev.isSome then throw .assertion
    let wherePrev := (m.node loc).prev
    let (m, bot) ← toBottom fuel (checkTranslation m inst) inst
    let m := match wherePrev with
      | some p => (m.instrSetNext p (some inst)).instrSetPrev inst (some p)
      | none => m.setFirst (some inst)
    return (m.instrSetNext bot (some loc)).instrSetPrev loc (some bot)

/-- `instrlist_postinsert`.  Both pointers may be null; a null chain is dereferenced. -/
def instrlistPostinsert (fuel : ℕ) (m : Mem ω) (loc inst : Option Ptr) : Except Fault (Mem ω) :=
  match inst, loc with
  | none, _ => .error .nullDeref
  | some inst, none => instrlistPrepend fuel m inst
  | some inst, some loc => do
    if (m.node inst).prev.isSome then throw .assertion
    let whereNext := (m.node loc).next
    let (m, bot) ← toBottom fuel (checkTranslation m inst) inst
    let m := (m.instrSetNext loc (some inst)).instrSetPrev inst (some loc)
    match whereNext with
    | some n => return (m.instrSetNext bot (some n)).instrSetPrev n (some bot)
    | none => return m.setLast (some bot)

/-- `m'` differs from `m` at most in the translations and mangling marks of instructions. -/
structure SameList (m m' : Mem ω) : Prop where
  links : m'.links = m.links
  ilist : m'.ilist = m.ilist
  instr : ∀ p, SameInstr m m' p

theorem SameList.trans {m₁ m₂ m₃ : Mem ω} (h : SameList m₁ m₂) (h' : SameList m₂ m₃) :
    SameList m₁ m₃ :=
  ⟨h'.links.trans h.links, h'.ilist.trans h.ilist,
    fun p ↦ ⟨(h'.instr p).1.trans (h.instr p).1, (h'.instr p).2.trans (h.instr p).2⟩⟩

theorem sameList_checkTranslation (m : Mem ω) (inst : Ptr) :
    SameList m (checkTranslation m inst) := by
  have hnode : ∀ p, ((checkTranslation m inst).node p).next = (m.node p).next ∧
      ((checkTranslation m inst).node p).prev = (m.node p).prev ∧
      SameInstr m (checkTranslation m inst) p := by
    intro p
    by_cases hp : p = inst
    · subst hp
      simp only [checkTranslation, SameInstr, Function.update_self]
      split_ifs <;> simp
    · simp [checkTranslation, SameInstr, hp]
  refine ⟨?_, rfl, fun p ↦ (hnode p).2.2⟩
  ext p : 2
  · exact (hnode p).1
  · exact (hnode p).2.1

/-- From the head of a chain, the loop reaches its last instruction. -/
theorem toBottom_spec {chain : List Ptr} : ∀ {m : Mem ω} {b : Option Ptr} {top : Ptr},
    Seg m.links b (top :: chain) none → ∃ m', SameList m m' ∧ ∀ fuel, chain.length < fuel →
      toBottom fuel m top = .ok (m', (top :: chain).getLast (by simp)) := by
  induction chain with
  | nil =>
    intro m b top h
    have hn : (m.node top).next = none := by simpa [Mem.links] using h.2.1
    refine ⟨m, ⟨rfl, rfl, fun _ ↦ ⟨rfl, rfl⟩⟩, fun fuel hfuel ↦ ?_⟩
    obtain ⟨fuel, rfl⟩ : ∃ n, fuel = n + 1 := ⟨fuel - 1, by simp at hfuel; omega⟩
    simp [toBottom, hn]
  | cons a chain ih =>
    intro m b top h
    have hn : (m.node top).next = some a := by simpa [Mem.links] using h.2.1
    have hsame := sameList_checkTranslation m a
    have hseg : Seg (checkTranslation m a).links (some top) (a :: chain) none := by
      rw [hsame.links]; exact h.2.2
    obtain ⟨m', hs, hm'⟩ := ih hseg
    refine ⟨m', hsame.trans hs, fun fuel hfuel ↦ ?_⟩
    obtain ⟨fuel, rfl⟩ : ∃ n, fuel = n + 1 := ⟨fuel - 1, by simp at hfuel; omega⟩
    rw [toBottom, hn]
    simpa using hm' fuel (by simpa using hfuel)

/-- A chain that can be spliced into the list `l`: linked, closed off at both ends, not empty, and
made of instructions that are not in `l`. -/
structure IsChain (m : Mem ω) (chain l : List Ptr) : Prop where
  ne_nil : chain ≠ []
  seg : Seg m.links none chain none
  nodup : chain.Nodup
  fresh : chain.Disjoint l

/-- `setNext` and `setPrev` leave what the driver reads of an instruction alone. -/
theorem sameInstr_linkNext (m : Mem ω) (q v : Option Ptr) (p : Ptr) :
    SameInstr m (m.linkNext q v) p := by
  cases q with
  | none => exact ⟨rfl, rfl⟩
  | some q =>
    by_cases h : p = q
    · subst h; simp [SameInstr, linkNext, instrSetNext]
    · simp [SameInstr, linkNext, instrSetNext, h]

theorem sameInstr_linkPrev (m : Mem ω) (q v : Option Ptr) (p : Ptr) :
    SameInstr m (m.linkPrev q v) p := by
  cases q with
  | none => exact ⟨rfl, rfl⟩
  | some q =>
    by_cases h : p = q
    · subst h; simp [SameInstr, linkPrev, instrSetPrev]
    · simp [SameInstr, linkPrev, instrSetPrev, h]

theorem Mem.SameInstr.trans {m₁ m₂ m₃ : Mem ω} (h : SameInstr m₁ m₂ p)
    (h' : SameInstr m₂ m₃ p) : SameInstr m₁ m₃ p := ⟨h'.1.trans h.1, h'.2.trans h.2⟩

/-- The four link writes of a splice between `pre` and `post`, in the order of
`instrlist_postinsert`. -/
theorem isList_splice {m : Mem ω} {pre chain post : List Ptr} (h : m.IsList (pre ++ post))
    (hc : IsChain m chain (pre ++ post)) :
    ((((m.linkNext pre.getLast? chain.head?).linkPrev chain.head? pre.getLast?).linkNext
      chain.getLast? post.head?).linkPrev post.head? chain.getLast?).IsList
        (pre ++ chain ++ post) := by
  obtain ⟨⟨hfirst, hlast, hseg, hnd⟩, hspill⟩ := h
  obtain ⟨hpre, hpost⟩ := seg_append.1 hseg
  obtain ⟨hndpre, hndpost, hdis⟩ := List.nodup_append'.1 hnd
  have hcp : chain.Disjoint pre := List.disjoint_of_disjoint_append_right_left hc.fresh
  have hcq : chain.Disjoint post := List.disjoint_of_disjoint_append_right_right hc.fresh
  have hpc := List.disjoint_comm.1 hcp
  have hqc := List.disjoint_comm.1 hcq
  have hqp := List.disjoint_comm.1 hdis
  set m₁ := m.linkNext pre.getLast? chain.head? with hm₁
  set m₂ := m₁.linkPrev chain.head? pre.getLast? with hm₂
  set m₃ := m₂.linkNext chain.getLast? post.head? with hm₃
  have s₁ : Seg m₁.links none pre chain.head? := seg_linkNext hndpre hpre _
  have c₁ : Seg m₁.links none chain none := Seg.linkNext_of_disjoint hc.seg hpc _
  have t₁ : Seg m₁.links (pre.getLast?.or none) post none := Seg.linkNext_of_disjoint hpost hdis _
  have s₂ : Seg m₂.links none pre chain.head? := Seg.linkPrev_of_disjoint s₁ hcp _
  have c₂ : Seg m₂.links pre.getLast? chain none := seg_linkPrev hc.nodup c₁ _
  have t₂ : Seg m₂.links (pre.getLast?.or none) post none := Seg.linkPrev_of_disjoint t₁ hcq _
  have s₃ : Seg m₃.links none pre chain.head? := Seg.linkNext_of_disjoint s₂ hcp _
  have c₃ : Seg m₃.links pre.getLast? chain post.head? := seg_linkNext hc.nodup c₂ _
  have t₃ : Seg m₃.links (pre.getLast?.or none) post none := Seg.linkNext_of_disjoint t₂ hcq _
  obtain ⟨top, htop⟩ : ∃ top, chain.head? = some top :=
    Option.isSome_iff_exists.1 (by simpa using hc.ne_nil)
  obtain ⟨bot, hbot⟩ : ∃ bot, chain.getLast? = some bot :=
    Option.isSome_iff_exists.1 (by simpa using hc.ne_nil)
  refine ⟨⟨?_, ?_, ?_, ?_⟩, ?_⟩
  · have h₁ : m₁.ilist.first = pre.head?.or chain.head? := linkNext_first
      (by rw [hfirst, List.head?_append]) _
    rw [linkPrev_first, hm₃, hbot, linkNext, instrSetNext]
    show m₂.ilist.first = _
    rw [hm₂, linkPrev_first, h₁]
    simp [List.head?_append, htop]
  · have h₃ : m₃.ilist.last = post.getLast?.or pre.getLast? := by
      rw [hm₃, linkNext_last, hm₂, htop]
      show m₁.ilist.last = _
      rw [hm₁, linkNext_last, hlast, List.getLast?_append]
    rw [linkPrev_last h₃]
    simp [List.getLast?_append, hbot]
  · refine seg_append.2 ⟨seg_append.2 ⟨?_, ?_⟩, ?_⟩
    · simpa [htop] using Seg.linkPrev_of_disjoint s₃ hqp chain.getLast?
    · simpa using Seg.linkPrev_of_disjoint c₃ hqc chain.getLast?
    · simpa [List.getLast?_append, hbot] using seg_linkPrev hndpost t₃ chain.getLast?
  · rw [List.append_assoc, List.nodup_append']
    refine ⟨hndpre, List.nodup_append'.2 ⟨hc.nodup, hndpost, hcq⟩, ?_⟩
    exact List.disjoint_append_right.2 ⟨hpc, hdis⟩
  · rw [linkPrev_needSpillSimd, linkNext_needSpillSimd, linkPrev_needSpillSimd,
      linkNext_needSpillSimd, hspill]

/-! The primitives do these four writes, less those that would write what is already there. -/

theorem instrSetPrev_eq_self {m : Mem ω} {v : Option Ptr} (h : (m.node p).prev = v) :
    m.instrSetPrev p v = m := by
  subst h
  simp only [instrSetPrev, Function.update_eq_self_iff.2]

theorem instrSetNext_eq_self {m : Mem ω} {v : Option Ptr} (h : (m.node p).next = v) :
    m.instrSetNext p v = m := by
  subst h
  simp only [instrSetNext, Function.update_eq_self_iff.2]

/-- A chain stays one when only translations change. -/
theorem IsChain.of_sameList {m m' : Mem ω} {chain l : List Ptr} (h : IsChain m chain l)
    (hs : SameList m m') : IsChain m' chain l :=
  ⟨h.ne_nil, hs.links ▸ h.seg, h.nodup, h.fresh⟩

theorem Mem.IsList.of_sameList {m m' : Mem ω} (h : m.IsList l)
    (hs : SameList m m') : m'.IsList l := by
  refine ⟨?_, by rw [hs.ilist]; exact h.needSpillSimd⟩
  rw [hs.links, hs.ilist]
  exact h.linked

/-- `instrlist_postinsert` behind the last instruction of `pre`, or in front of the list when `pre`
is empty, splices the whole chain in. -/
theorem instrlistPostinsert_spec {m : Mem ω} {pre chain post : List Ptr}
    (h : m.IsList (pre ++ post)) (hc : IsChain m chain (pre ++ post)) :
    ∃ m', (∀ fuel, chain.length ≤ fuel →
        instrlistPostinsert fuel m pre.getLast? chain.head? = .ok m') ∧
      m'.IsList (pre ++ chain ++ post) ∧ ∀ p, SameInstr m m' p := by
  obtain ⟨top, tail, rfl⟩ := List.exists_cons_of_ne_nil hc.ne_nil
  set bot := (top :: tail).getLast (by simp) with hbot
  have hbot? : (top :: tail).getLast? = some bot := List.getLast?_eq_getLast_of_ne_nil _
  have hprev : (m.node top).prev = none := hc.seg.1
  have hct := sameList_checkTranslation m top
  have hseg : Seg (checkTranslation m top).links none (top :: tail) none := by
    rw [hct.links]; exact hc.seg
  obtain ⟨m₀, hs₀, hm₀⟩ := toBottom_spec hseg
  have hs : SameList m m₀ := hct.trans hs₀
  have hc₀ := hc.of_sameList hs
  have hl₀ := h.of_sameList hs
  have hsplice := isList_splice hl₀ hc₀
  have hprev₀ : (m₀.node top).prev = none := hc₀.seg.1
  have hnext₀ : (m₀.node bot).next = none := by
    have := hc₀.seg
    rw [← List.dropLast_append_getLast hc.ne_nil] at this
    exact this.next_last
  refine ⟨_, fun fuel hfuel ↦ ?_, hsplice, fun p ↦ (hs.instr p).trans ?_⟩
  swap
  · exact ((sameInstr_linkNext _ _ _ p).trans (sameInstr_linkPrev _ _ _ p)).trans
      ((sameInstr_linkNext _ _ _ p).trans (sameInstr_linkPrev _ _ _ p))
  have hlen : tail.length < fuel := by
    rw [List.length_cons] at hfuel
    omega
  replace hm₀ := hm₀ fuel hlen
  rw [← hbot] at hm₀
  rcases List.eq_nil_or_concat' pre with rfl | ⟨pre, w, rfl⟩
  · -- there is no instruction in front: the chain becomes the head of the list
    have hfirst : m₀.ilist.first = post.head? := hl₀.linked.first_eq
    have hkeep : (m₀.setFirst (some top)).instrSetPrev top none = m₀.setFirst (some top) :=
      instrSetPrev_eq_self hprev₀
    simp only [List.getLast?_nil, List.head?_cons, hbot?, instrlistPostinsert, instrlistPrepend,
      hprev, hm₀, linkNext, linkPrev, hkeep, Option.isSome_none, bind, Except.bind, pure,
      Except.pure, Bool.false_eq_true, if_false, hfirst]
    cases post with
    | nil =>
      have hkeep' : (m₀.setFirst (some top)).instrSetNext bot none = m₀.setFirst (some top) :=
        instrSetNext_eq_self hnext₀
      simp only [List.head?_nil, hkeep']
    | cons n post => rfl
  · have hnext : (m.node w).next = post.head? := by
      have hw : m.IsList (pre ++ w :: post) := by simpa using h
      exact hw.node_links.2
    simp only [List.getLast?_concat, List.head?_cons, hbot?, instrlistPostinsert, hprev, hm₀,
      hnext, linkNext, linkPrev, Option.isSome_none, bind, Except.bind, pure, Except.pure,
      Bool.false_eq_true, if_false]
    cases post with
    | nil =>
      have hwb : bot ≠ w := by
        rintro rfl
        exact hc.fresh (List.mem_of_getLast? hbot?) (by simp)
      have hnext₂ : (((m₀.instrSetNext w (some top)).instrSetPrev top (some w)).node bot).next
          = none := by
        by_cases hbt : bot = top
        · rw [← hbt] at hprev₀ ⊢
          simp [instrSetPrev, node_instrSetNext_of_ne hwb, hnext₀]
        · rw [node_instrSetPrev_of_ne hbt, node_instrSetNext_of_ne hwb, hnext₀]
      simp only [List.head?_nil, instrSetNext_eq_self hnext₂]
    | cons n post => rfl

end DrAvx
