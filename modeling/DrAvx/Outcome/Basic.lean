import Mathlib.Data.Option.Basic

/-!
# Outcomes of computations that may not return

A computation in `Option` stands for code that returns a value, or does not return, or runs into
something undefined.  `Returns x total P` says what is known of it: the value it returns has the
property `P`, and it does return where `total` holds.  Keeping the two together lets one pass over a
program show both, with the same intermediate facts.
-/

set_option autoImplicit false

/-- What `x` returns satisfies `P`, and `x` returns if `total` holds. -/
structure Returns {α : Type} (x : Option α) (total : Prop) (P : α → Prop) : Prop where
  post : ∀ a, x = some a → P a
  ends : total → ∃ a, x = some a

namespace Returns

variable {α β : Type} {total : Prop} {P : α → Prop} {Q : β → Prop}

theorem pure {a : α} (h : P a) : Returns (some a) total P :=
  ⟨fun b hb ↦ by rwa [← Option.some.inj hb], fun _ ↦ ⟨a, rfl⟩⟩

theorem bind {x : Option α} {f : α → Option β} (hx : Returns x total P)
    (hf : ∀ a, P a → Returns (f a) total Q) : Returns (x >>= f) total Q where
  post := by
    intro b hb
    obtain ⟨a, ha, hfa⟩ := Option.bind_eq_some_iff.1 hb
    exact (hf a (hx.post a ha)).post b hfa
  ends := by
    intro ht
    obtain ⟨a, ha⟩ := hx.ends ht
    obtain ⟨b, hb⟩ := (hf a (hx.post a ha)).ends ht
    exact ⟨b, Option.bind_eq_some_iff.2 ⟨a, ha, hb⟩⟩

theorem map {x : Option α} {f : α → β} (hx : Returns x total P) (hf : ∀ a, P a → Q (f a)) :
    Returns (x.map f) total Q := by
  rw [Option.map_eq_bind]
  exact hx.bind fun a ha ↦ Returns.pure (hf a ha)

/-- The end of a computation may be needed under a stronger condition only. -/
theorem mono {x : Option α} {total' : Prop} {P' : α → Prop} (hx : Returns x total P)
    (ht : total' → total) (hP : ∀ a, P a → P' a) : Returns x total' P' :=
  ⟨fun a ha ↦ hP a (hx.post a ha), fun h ↦ hx.ends (ht h)⟩

/-- The outcome of a loop, by an invariant of its rounds that knows the rounds still to come. -/
theorem foldlM {f : β → α → Option β} (I : List α → β → Prop) (l : List α) (b : β)
    (hstep : ∀ a l b, I (a :: l) b → Returns (f b a) total (I l)) (hb : I l b) :
    Returns (l.foldlM f b) total (I []) := by
  induction l generalizing b with
  | nil => exact Returns.pure hb
  | cons a l ih =>
    rw [List.foldlM_cons]
    exact (hstep a l b hb).bind fun b' hb' ↦ ih b' hb'

end Returns
