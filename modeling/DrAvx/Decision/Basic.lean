import Mathlib.Logic.Basic

/-!
# Decision trees

A decision tree asks yes-or-no questions about something and ends in a leaf.  Where it ends is
`Tree.eval`, given the answers.  `Tree.check` visits every leaf that can be reached and hands what
has been learnt on the way to a test on leaves; `Tree.exists_of_check` says that no run escapes the
visit.  What is learnt from an answer is a parameter, a `Learning`: an answer that contradicts what
is known need not be followed.

A condition is written as a list of cubes, a cube being a list of answers that have to hold
together.  A list of cubes is a decision tree, too (`cubesTree`), so that whether it holds can be
settled by the same visit: `settles` is the test that makes a list of cubes the exact condition for
something.

Questions, leaves and what they are about are arbitrary.
-/

set_option autoImplicit false

namespace Decision

variable {X Q A K : Type}

/-! ## Trees -/

/-- A decision tree with questions from `Q` and leaves from `A`. -/
inductive Tree (Q A : Type)
  | leaf (a : A)
  | ask (q : Q) (k : Bool → Tree Q A)

namespace Tree

/-- Where a tree ends, given the answers to its questions. -/
def eval (answer : Q → Bool) : Tree Q A → A
  | leaf a => a
  | ask q k => (k (answer q)).eval answer

/-- The tree only asks questions from the list. -/
def asksOnly [BEq Q] (qs : List Q) : Tree Q A → Bool
  | leaf _ => true
  | ask q k => qs.contains q && (k false).asksOnly qs && (k true).asksOnly qs

/-- The end of a tree depends on the answers to the questions it asks. -/
theorem eval_congr [BEq Q] [LawfulBEq Q] {f f' : Q → Bool} {qs : List Q}
    (h : ∀ q ∈ qs, f q = f' q) {t : Tree Q A} (ht : t.asksOnly qs = true) :
    t.eval f = t.eval f' := by
  induction t with
  | leaf a => rfl
  | ask q k ih =>
    simp only [asksOnly, Bool.and_eq_true, List.contains_iff_mem] at ht
    obtain ⟨⟨hq, hfalse⟩, htrue⟩ := ht
    rw [eval, eval, h q hq]
    cases f' q with
    | false => exact ih false hfalse
    | true => exact ih true htrue

/-- The tree only asks questions with a property. -/
def asks (p : Q → Bool) : Tree Q A → Bool
  | leaf _ => true
  | ask q k => p q && (k false).asks p && (k true).asks p

theorem eval_congr_of_asks {f f' : Q → Bool} {p : Q → Bool} (h : ∀ q, p q = true → f q = f' q)
    {t : Tree Q A} (ht : t.asks p = true) : t.eval f = t.eval f' := by
  induction t with
  | leaf a => rfl
  | ask q k ih =>
    rw [asks, Bool.and_eq_true, Bool.and_eq_true] at ht
    obtain ⟨⟨hq, hfalse⟩, htrue⟩ := ht
    rw [eval, eval, h q hq]
    cases f' q with
    | false => exact ih false hfalse
    | true => exact ih true htrue

end Tree

/-! ## Visiting the leaves -/

/-- Questions from `Q` about things in `X`, and what is learnt from their answers: `learn k q b` is
what is known after the answer `b` to `q`, and `none` if it is not to be had. -/
structure Learning (X Q K : Type) where
  answer : X → Q → Bool
  learn : K → Q → Bool → Option K
  /-- What is known is true of the thing. -/
  Sat : K → X → Prop
  exists_learn : ∀ {k : K} {x : X} (q : Q), Sat k x → ∃ k', learn k q (answer x q) = some k' ∧ Sat k' x

variable (L : Learning X Q K)

/-- Visits the leaves that can be reached with what is known. -/
def Tree.check (test : K → A → Bool) : K → Tree Q A → Bool
  | k, leaf a => test k a
  | k, ask q t =>
    (L.learn k q false).all (fun k' ↦ (t false).check test k') &&
      (L.learn k q true).all fun k' ↦ (t true).check test k'

variable {L}

/-- A run ends in a leaf that has been visited. -/
theorem Tree.exists_of_check {test : K → A → Bool} {t : Tree Q A} {k : K}
    (h : t.check L test k = true) {x : X} (hk : L.Sat k x) :
    ∃ k', L.Sat k' x ∧ test k' (t.eval (L.answer x)) = true := by
  induction t generalizing k with
  | leaf a => exact ⟨k, hk, h⟩
  | ask q t ih =>
    rw [check, Bool.and_eq_true] at h
    obtain ⟨k', hlearn, hk'⟩ := L.exists_learn q hk
    rw [eval]
    cases hq : L.answer x q with
    | false =>
      rw [hq] at hlearn
      rw [hlearn] at h
      exact ih false h.1 hk'
    | true =>
      rw [hq] at hlearn
      rw [hlearn] at h
      exact ih true h.2 hk'

/-! ## Cubes -/

/-- Answers that have to hold together. -/
abbrev Cube (Q : Type) := List (Q × Bool)

def Cube.holds (answer : Q → Bool) (cube : Cube Q) : Bool := cube.all fun a ↦ answer a.1 == a.2

/-- Asks the questions of a cube, and goes on with `no` as soon as an answer is another one. -/
def Cube.tree (no : Tree Q Bool) : Cube Q → Tree Q Bool
  | [] => .leaf true
  | (q, b) :: rest => .ask q fun b' ↦ if b' = b then tree no rest else no

/-- Does one of the cubes hold? -/
def cubesTree (cubes : List (Cube Q)) : Tree Q Bool :=
  cubes.foldr (fun cube no ↦ cube.tree no) (.leaf false)

theorem Cube.eval_tree (answer : Q → Bool) (no : Tree Q Bool) (cube : Cube Q) :
    (cube.tree no).eval answer = (cube.holds answer || no.eval answer) := by
  induction cube with
  | nil => rfl
  | cons a rest ih =>
    rw [tree, Tree.eval]
    by_cases h : answer a.1 = a.2
    · rw [if_pos h, ih]
      simp [holds, h]
    · rw [if_neg h]
      simp [holds, h]

theorem eval_cubesTree (answer : Q → Bool) (cubes : List (Cube Q)) :
    (cubesTree cubes).eval answer = cubes.any (Cube.holds answer) := by
  induction cubes with
  | nil => rfl
  | cons cube rest ih =>
    have hcons : cubesTree (cube :: rest) = cube.tree (cubesTree rest) := rfl
    rw [hcons, Cube.eval_tree, ih, List.any_cons]

variable (L)

/-- What is known decides whether one of the cubes holds, and `good` says that none does. -/
def settles (cubes : List (Cube Q)) (k : K) (good : Bool) : Bool :=
  (cubesTree cubes).check L (fun _ b ↦ b == !good) k

variable {L}

theorem iff_of_settles {cubes : List (Cube Q)} {k : K} {good : Bool}
    (h : settles L cubes k good = true) {x : X} (hk : L.Sat k x) :
    good = true ↔ ¬∃ cube ∈ cubes, cube.holds (L.answer x) = true := by
  obtain ⟨_, -, htest⟩ := Tree.exists_of_check h hk
  rw [eval_cubesTree, beq_iff_eq] at htest
  rw [← List.any_eq_true, htest]
  cases good <;> simp

end Decision
