import Mathlib.Data.List.Basic

/-!
# Assignments of terms

A program of assignments `l := t`, where `t` is a term over the locations of a store, over inputs
that no assignment changes, and over operators with one or two arguments.  Its effect is known from
one run on symbols: `symRun` keeps for every location the term that is there, and `exec_symRun` says
that the terms have the right values.

The run on symbols rebuilds every term with a `Builder`, which may simplify on the way as long as
values stay the same (`Builder.Sound`).  Without that a value that is saved and restored would not
be recognised again.

Locations, inputs, operators and values are arbitrary.
-/

set_option autoImplicit false

namespace Straight

open Function

variable {L K I O V : Type}

/-! ## Terms -/

/-- A value in terms of the values of locations and inputs. -/
inductive Term (L I O : Type)
  | var (l : L)
  | inp (i : I)
  | un (o : O) (t : Term L I O)
  | bin (o : O) (t u : Term L I O)
  deriving DecidableEq

/-- What inputs and operators mean. -/
structure Algebra (I O V : Type) where
  inp : I → V
  un : O → V → V
  bin : O → V → V → V

namespace Term

/-- The value of a term. -/
def eval (A : Algebra I O V) (σ : L → V) : Term L I O → V
  | var l => σ l
  | inp i => A.inp i
  | un o t => A.un o (t.eval A σ)
  | bin o t u => A.bin o (t.eval A σ) (u.eval A σ)

/-- The term with its locations renamed. -/
def map (f : L → K) : Term L I O → Term K I O
  | var l => var (f l)
  | inp i => inp i
  | un o t => un o (t.map f)
  | bin o t u => bin o (t.map f) (u.map f)

theorem eval_map (A : Algebra I O V) (σ : K → V) (f : L → K) (t : Term L I O) :
    (t.map f).eval A σ = t.eval A (σ ∘ f) := by
  induction t with
  | var l => rfl
  | inp i => rfl
  | un o t ih => rw [map, eval, eval, ih]
  | bin o t u iht ihu => rw [map, eval, eval, iht, ihu]

theorem map_map {M : Type} (f : L → K) (g : K → M) (t : Term L I O) :
    (t.map f).map g = t.map (g ∘ f) := by
  induction t with
  | var l => rfl
  | inp i => rfl
  | un o t ih => rw [map, map, map, ih]
  | bin o t u iht ihu => rw [map, map, map, iht, ihu]

/-- Every input of the term satisfies the predicate. -/
def inputs (p : I → Bool) : Term L I O → Bool
  | var _ => true
  | inp i => p i
  | un _ t => t.inputs p
  | bin _ t u => t.inputs p && u.inputs p

/-- The value of a term depends on its inputs. -/
theorem eval_congr {A A' : Algebra I O V} {p : I → Bool} (hinp : ∀ i, p i = true → A.inp i = A'.inp i)
    (hun : A.un = A'.un) (hbin : A.bin = A'.bin) (σ : L → V) {t : Term L I O}
    (ht : t.inputs p = true) : t.eval A σ = t.eval A' σ := by
  induction t with
  | var l => rfl
  | inp i => exact hinp i ht
  | un o t ih => rw [eval, eval, ih ht, hun]
  | bin o t u iht ihu =>
    rw [inputs, Bool.and_eq_true] at ht
    rw [eval, eval, iht ht.1, ihu ht.2, hbin]

/-- Every location in the term satisfies the predicate. -/
def all (p : L → Bool) : Term L I O → Bool
  | var l => p l
  | inp _ => true
  | un _ t => t.all p
  | bin _ t u => t.all p && u.all p

theorem map_congr {f g : L → K} {p : L → Bool} (hfg : ∀ l, p l = true → f l = g l)
    {t : Term L I O} (ht : t.all p = true) : t.map f = t.map g := by
  induction t with
  | var l => rw [map, map, hfg l ht]
  | inp i => rfl
  | un o t ih => rw [map, map, ih ht]
  | bin o t u iht ihu =>
    rw [all, Bool.and_eq_true] at ht
    rw [map, map, iht ht.1, ihu ht.2]

end Term

/-- How terms are put together. -/
structure Builder (L I O : Type) where
  un : O → Term L I O → Term L I O
  bin : O → Term L I O → Term L I O → Term L I O

/-- The builder keeps the values of terms. -/
structure Builder.Sound (B : Builder L I O) (A : Algebra I O V) : Prop where
  un : ∀ o t (σ : L → V), (B.un o t).eval A σ = A.un o (t.eval A σ)
  bin : ∀ o t u (σ : L → V), (B.bin o t u).eval A σ = A.bin o (t.eval A σ) (u.eval A σ)

namespace Term

/-- The term with terms put in for the locations. -/
def subst (B : Builder K I O) (τ : L → Term K I O) : Term L I O → Term K I O
  | var l => τ l
  | inp i => inp i
  | un o t => B.un o (t.subst B τ)
  | bin o t u => B.bin o (t.subst B τ) (u.subst B τ)

theorem eval_subst {B : Builder K I O} {A : Algebra I O V} (hB : B.Sound A) (τ : L → Term K I O)
    (σ : K → V) (t : Term L I O) :
    (t.subst B τ).eval A σ = t.eval A fun l ↦ (τ l).eval A σ := by
  induction t with
  | var l => rfl
  | inp i => rfl
  | un o t ih => rw [subst, hB.un, ih, eval]
  | bin o t u iht ihu => rw [subst, hB.bin, iht, ihu, eval]

end Term

/-! ## Programs -/

/-- Assignments, in the order in which they are made. -/
abbrev Prog (L I O : Type) := List (L × Term L I O)

def Prog.map (f : L → K) (prog : Prog L I O) : Prog K I O :=
  List.map (fun a ↦ (f a.1, a.2.map f)) prog

theorem Prog.map_map {M : Type} (f : L → K) (g : K → M) (prog : Prog L I O) :
    (prog.map f).map g = prog.map (g ∘ f) := by
  simp [Prog.map, Term.map_map]

/-- Every location in the program satisfies the predicate. -/
def Prog.all (p : L → Bool) (prog : Prog L I O) : Bool :=
  List.all prog fun a ↦ p a.1 && a.2.all p

theorem Prog.map_congr {f g : L → K} {p : L → Bool} (hfg : ∀ l, p l = true → f l = g l)
    {prog : Prog L I O} (hprog : prog.all p = true) : prog.map f = prog.map g := by
  refine List.map_congr_left fun a ha ↦ ?_
  have hall := List.all_eq_true.mp hprog a ha
  rw [Bool.and_eq_true] at hall
  rw [hfg a.1 hall.1, Term.map_congr hfg hall.2]

variable [DecidableEq L] [DecidableEq K]

/-- The store after a program. -/
def Prog.exec (A : Algebra I O V) : Prog L I O → (L → V) → (L → V)
  | [], σ => σ
  | (l, t) :: rest, σ => Prog.exec A rest (update σ l (t.eval A σ))

/-- Renaming the locations injectively renames the effect. -/
theorem Prog.exec_map (A : Algebra I O V) {f : L → K} (hf : Injective f) (prog : Prog L I O)
    (σ : K → V) (l : L) : (prog.map f).exec A σ (f l) = prog.exec A (σ ∘ f) l := by
  induction prog generalizing σ with
  | nil => rfl
  | cons a rest ih =>
    obtain ⟨d, t⟩ := a
    have hstore : update σ (f d) ((t.map f).eval A σ) ∘ f = update (σ ∘ f) d (t.eval A (σ ∘ f)) := by
      rw [update_comp_eq_of_injective σ hf, Term.eval_map]
    exact (ih _).trans (by rw [hstore]; rfl)

/-! ## The run on symbols -/

/-- The terms in the locations that have been assigned to, the last assignment first. -/
abbrev Store (L I O : Type) := List (L × Term L I O)

/-- The term in a location. -/
def Store.get (τ : Store L I O) (l : L) : Term L I O := (τ.lookup l).getD (.var l)

theorem Store.get_cons (τ : Store L I O) (d : L) (t : Term L I O) (l : L) :
    Store.get ((d, t) :: τ) l = update τ.get d t l := by
  rw [update_apply, Store.get, List.lookup_cons]
  by_cases h : l = d
  · rw [if_pos h, beq_iff_eq.mpr h]
    rfl
  · rw [if_neg h, beq_eq_false_iff_ne.mpr h]
    rfl

/-- The run of a program on symbols. -/
def symRun (B : Builder L I O) : Prog L I O → Store L I O → Store L I O
  | [], τ => τ
  | (l, t) :: rest, τ => symRun B rest ((l, t.subst B τ.get) :: τ)

/-- The run on symbols determines every other run. -/
theorem exec_symRun {B : Builder L I O} {A : Algebra I O V} (hB : B.Sound A) (σ : L → V)
    (prog : Prog L I O) (τ : Store L I O) (l : L) :
    prog.exec A (fun l ↦ (τ.get l).eval A σ) l = ((symRun B prog τ).get l).eval A σ := by
  induction prog generalizing τ with
  | nil => rfl
  | cons a rest ih =>
    obtain ⟨d, t⟩ := a
    rw [symRun, ← ih, Prog.exec]
    congr 1
    funext m
    rw [Store.get_cons, update_apply, update_apply]
    split
    · rw [Term.eval_subst hB]
    · rfl

end Straight
