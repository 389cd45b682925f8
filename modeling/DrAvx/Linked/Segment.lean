import Mathlib.Data.List.Basic

/-!
# Doubly linked segments

A doubly linked list lives in a store that gives every node a `next` and a `prev` field.  What an
algorithm on such a list needs to know is never the whole store but a *segment* of it: that the
nodes `l`, in this order, are linked both ways, that the first of them points back to `before` and
the last of them forward to `after`.  `Seg` says this by recursion on `l`, so that it splits over
`++` (`seg_append`), and it only reads the fields of the nodes in `l`, so that a write to any other
node leaves it alone (`Seg.setNext`, `Seg.setPrev`).

The two writes that do matter are those at the ends of a segment: redirecting the `next` of its
last node or the `prev` of its first one changes `after` or `before` and nothing else
(`Seg.setNext_last`, `Seg.setPrev_head`).  Every splice of a linked list is a sequence of these.
-/

set_option autoImplicit false

namespace Linked

variable {ι : Type*}

/-- The link fields of every node of a store. -/
@[ext]
structure Links (ι : Type*) where
  /-- The successor field. -/
  next : ι → Option ι
  /-- The predecessor field. -/
  prev : ι → Option ι

/-- The nodes `l` are linked in this order, from `before` to `after`. -/
def Seg (L : Links ι) : Option ι → List ι → Option ι → Prop
  | _, [], _ => True
  | before, a :: l, after =>
    L.prev a = before ∧ L.next a = l.head?.or after ∧ Seg L (some a) l after

@[simp] theorem seg_nil (L : Links ι) (before after : Option ι) : Seg L before [] after := trivial

theorem seg_cons {L : Links ι} {before after : Option ι} {a : ι} {l : List ι} :
    Seg L before (a :: l) after ↔
      L.prev a = before ∧ L.next a = l.head?.or after ∧ Seg L (some a) l after := Iff.rfl

theorem seg_append {L : Links ι} {after : Option ι} {l m : List ι} : ∀ {before : Option ι},
    Seg L before (l ++ m) after ↔
      Seg L before l (m.head?.or after) ∧ Seg L (l.getLast?.or before) m after := by
  induction l with
  | nil => simp
  | cons a l ih =>
    intro before
    rw [List.cons_append, seg_cons, seg_cons, ih, List.head?_append, Option.or_assoc]
    have hlast : (a :: l).getLast?.or before = l.getLast?.or (some a) := by
      cases l <;> simp [List.getLast?_cons]
    rw [hlast]
    tauto

/-- A segment only reads the fields of its own nodes. -/
theorem Seg.congr {L L' : Links ι} {after : Option ι} {l : List ι} : ∀ {before : Option ι},
    Seg L before l after → (∀ a ∈ l, L'.next a = L.next a ∧ L'.prev a = L.prev a) →
      Seg L' before l after := by
  induction l with
  | nil => intros; trivial
  | cons a l ih =>
    rintro before ⟨hp, hn, hl⟩ h
    obtain ⟨hna, hpa⟩ := h a (by simp)
    exact ⟨hpa.trans hp, hna.trans hn, ih hl fun b hb ↦ h b (by simp [hb])⟩

/-- Where a segment ends, its last node points forward to `after`. -/
theorem Seg.next_last {L : Links ι} {before after : Option ι} {l : List ι} {a : ι}
    (h : Seg L before (l ++ [a]) after) : L.next a = after := by
  have h' := (seg_append.1 h).2
  simpa using h'.2.1

section Writes

variable [DecidableEq ι]

/-- Write the successor field of `a`. -/
def Links.setNext (L : Links ι) (a : ι) (v : Option ι) : Links ι :=
  { L with next := Function.update L.next a v }

/-- Write the predecessor field of `a`. -/
def Links.setPrev (L : Links ι) (a : ι) (v : Option ι) : Links ι :=
  { L with prev := Function.update L.prev a v }

variable {L : Links ι} {before after : Option ι} {l : List ι} {a : ι}

theorem Seg.setNext (h : Seg L before l after) (ha : a ∉ l) (v : Option ι) :
    Seg (L.setNext a v) before l after := by
  refine h.congr fun b hb ↦ ⟨?_, rfl⟩
  exact Function.update_of_ne (ne_of_mem_of_not_mem hb ha) _ _

theorem Seg.setPrev (h : Seg L before l after) (ha : a ∉ l) (v : Option ι) :
    Seg (L.setPrev a v) before l after := by
  refine h.congr fun b hb ↦ ⟨rfl, ?_⟩
  exact Function.update_of_ne (ne_of_mem_of_not_mem hb ha) _ _

/-- Redirecting the last node of a segment. -/
theorem Seg.setNext_last (h : Seg L before (l ++ [a]) after) (ha : a ∉ l) (v : Option ι) :
    Seg (L.setNext a v) before (l ++ [a]) v := by
  obtain ⟨hl, hpa, -, -⟩ := seg_append.1 h
  refine seg_append.2 ⟨?_, hpa, by simp [Links.setNext], trivial⟩
  simpa using hl.setNext ha v

/-- Redirecting the first node of a segment. -/
theorem Seg.setPrev_head (h : Seg L before (a :: l) after) (ha : a ∉ l) (v : Option ι) :
    Seg (L.setPrev a v) v (a :: l) after := by
  obtain ⟨-, hn, hl⟩ := h
  exact ⟨by simp [Links.setPrev], hn, hl.setPrev ha v⟩

end Writes

/-! ## Whole lists -/

/-- A well-formed doubly linked list: `first` and `last` are its ends, its nodes are linked both
ways and closed off by null links, and no node occurs twice. -/
structure IsList (L : Links ι) (first last : Option ι) (l : List ι) : Prop where
  /-- The head pointer. -/
  first_eq : first = l.head?
  /-- The tail pointer. -/
  last_eq : last = l.getLast?
  /-- The links of the nodes. -/
  seg : Seg L none l none
  /-- No node occurs twice. -/
  nodup : l.Nodup

/-- The list a head pointer leads to is determined by the links. -/
theorem Seg.unique {L : Links ι} {l : List ι} : ∀ {before before' : Option ι} {m : List ι},
    Seg L before l none → Seg L before' m none → l.head? = m.head? → l = m := by
  induction l with
  | nil => intro _ _ m _ _ h; cases m <;> simp_all
  | cons a l ih =>
    intro _ _ m hl hm h
    cases m with
    | nil => simp at h
    | cons b m =>
      obtain rfl : a = b := by simpa using h
      have hn : l.head? = m.head? := by
        have := hl.2.1.symm.trans hm.2.1
        simpa using this
      rw [ih hl.2.2 hm.2.2 hn]

end Linked
