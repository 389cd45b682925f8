import Mathlib.Data.Set.Function

/-!
# Straight-line assignments

A program of assignments `l := l'` and `l := f l₁ l₂` over a store of locations, and the three facts
that make it possible to know its effect by running it once on symbols:

* `exec_map`: a homomorphism of values commutes with execution, so the run on symbolic expressions
  determines every other run;
* `exec_rename`: renaming the locations injectively renames the effect;
* `exec_of_notMem`: a location that is never assigned keeps its value.

Locations, operators and values are arbitrary.
-/

set_option autoImplicit false

namespace Straight

open Function

variable {L K O V W : Type}

/-- An assignment to a location. -/
inductive Asg (L O : Type)
  | copy (dst src : L)
  | bin (dst : L) (op : O) (left right : L)

namespace Asg

def dst : Asg L O → L
  | copy d _ => d
  | bin d _ _ _ => d

/-- The locations an assignment mentions. -/
def locs : Asg L O → List L
  | copy d s => [d, s]
  | bin d _ l r => [d, l, r]

/-- The assignment with its locations renamed. -/
def map (f : L → K) : Asg L O → Asg K O
  | copy d s => copy (f d) (f s)
  | bin d op l r => bin (f d) op (f l) (f r)

theorem locs_map (f : L → K) (a : Asg L O) : (a.map f).locs = a.locs.map f := by
  cases a <;> rfl

/-- Renaming locations to others that are renamed alike makes no difference. -/
theorem map_map_of_rep {f : L → K} {rep : L → L} {a : Asg L O}
    (h : ∀ l ∈ a.locs, f (rep l) = f l) : (a.map rep).map f = a.map f := by
  cases a with
  | copy d s => simp [map, h d (by simp [locs]), h s (by simp [locs])]
  | bin d op l r => simp [map, h d (by simp [locs]), h l (by simp [locs]), h r (by simp [locs])]

/-- The value that is assigned. -/
def value (alu : O → V → V → V) (σ : L → V) : Asg L O → V
  | copy _ s => σ s
  | bin _ op l r => alu op (σ l) (σ r)

/-- The store after an assignment. -/
def exec [DecidableEq L] (alu : O → V → V → V) (a : Asg L O) (σ : L → V) : L → V :=
  update σ a.dst (a.value alu σ)

end Asg

variable [DecidableEq L] [DecidableEq K]

/-- The store after a program. -/
def exec (alu : O → V → V → V) : List (Asg L O) → (L → V) → (L → V)
  | [], σ => σ
  | a :: code, σ => exec alu code (a.exec alu σ)

theorem Asg.exec_map (h : V → W) {alu : O → V → V → V} {alu' : O → W → W → W}
    (hom : ∀ op x y, h (alu op x y) = alu' op (h x) (h y)) (a : Asg L O) (σ : L → V) :
    a.exec alu' (h ∘ σ) = h ∘ a.exec alu σ := by
  have hv : a.value alu' (h ∘ σ) = h (a.value alu σ) := by cases a <;> simp [value, hom]
  rw [Asg.exec, Asg.exec, hv, comp_update]

/-- A homomorphism of values commutes with execution. -/
theorem exec_map (h : V → W) {alu : O → V → V → V} {alu' : O → W → W → W}
    (hom : ∀ op x y, h (alu op x y) = alu' op (h x) (h y)) (code : List (Asg L O)) (σ : L → V) :
    exec alu' code (h ∘ σ) = h ∘ exec alu code σ := by
  induction code generalizing σ with
  | nil => rfl
  | cons a code ih => rw [exec, exec, Asg.exec_map h hom, ih]

/-- A location that no assignment has as its destination keeps its value. -/
theorem exec_of_notMem (alu : O → V → V → V) {code : List (Asg L O)} {l : L}
    (h : ∀ a ∈ code, a.dst ≠ l) (σ : L → V) : exec alu code σ l = σ l := by
  induction code generalizing σ with
  | nil => rfl
  | cons a code ih =>
    rw [exec, ih (fun b hb ↦ h b (List.mem_cons_of_mem a hb)), Asg.exec,
      update_of_ne (h a List.mem_cons_self).symm]

theorem Asg.exec_rename (alu : O → V → V → V) {f : L → K} {S : Set L} (hf : Set.InjOn f S)
    {a : Asg L O} (ha : ∀ l ∈ a.locs, l ∈ S) {σ : K → V} {τ : L → V}
    (hσ : ∀ l ∈ S, σ (f l) = τ l) : ∀ l ∈ S, (a.map f).exec alu σ (f l) = a.exec alu τ l := by
  intro l hl
  have hv : (a.map f).value alu σ = a.value alu τ := by
    cases a with
    | copy d s => exact hσ s (ha s (by simp [locs]))
    | bin d op x y =>
      simp only [map, value, hσ x (ha x (by simp [locs])), hσ y (ha y (by simp [locs]))]
  have hd : (a.map f).dst = f a.dst := by cases a <;> rfl
  have hdS : a.dst ∈ S := ha _ (by cases a <;> simp [locs, dst])
  rw [Asg.exec, Asg.exec, hv, hd]
  rcases eq_or_ne l a.dst with rfl | hne
  · simp
  · rw [update_of_ne hne, update_of_ne (fun h ↦ hne (hf hl hdS h)), hσ l hl]

/-- Renaming the locations injectively renames the effect. -/
theorem exec_rename (alu : O → V → V → V) {f : L → K} {S : Set L} (hf : Set.InjOn f S)
    {code : List (Asg L O)} (hcode : ∀ a ∈ code, ∀ l ∈ a.locs, l ∈ S) {σ : K → V} {τ : L → V}
    (hσ : ∀ l ∈ S, σ (f l) = τ l) :
    ∀ l ∈ S, exec alu (code.map (Asg.map f)) σ (f l) = exec alu code τ l := by
  induction code generalizing σ τ with
  | nil => exact hσ
  | cons a code ih =>
    exact ih (fun b hb ↦ hcode b (List.mem_cons_of_mem a hb))
      (Asg.exec_rename alu hf (hcode a List.mem_cons_self) hσ)

/-! ## Symbolic runs -/

/-- The value of a location in terms of the values before the program. -/
inductive Expr (L O : Type)
  | var (l : L)
  | bin (op : O) (left right : Expr L O)
  deriving DecidableEq

/-- The value of an expression. -/
def Expr.eval (alu : O → V → V → V) (σ : L → V) : Expr L O → V
  | var l => σ l
  | bin op l r => alu op (l.eval alu σ) (r.eval alu σ)

/-- The symbolic effect of a program. -/
def symExec (code : List (Asg L O)) : L → Expr L O := exec .bin code .var

/-- The run on symbols determines every other run. -/
theorem eval_symExec (alu : O → V → V → V) (code : List (Asg L O)) (σ : L → V) (l : L) :
    exec alu code σ l = (symExec code l).eval alu σ := by
  have h : exec alu code (Expr.eval alu σ ∘ .var) = Expr.eval alu σ ∘ exec .bin code .var :=
    exec_map (Expr.eval alu σ) (fun _ _ _ ↦ rfl) code .var
  exact congrFun h l

/-! ## Locations with several names

The names of a program may stand for the same location.  Then the program is first written with one
name for each location, `rep` of the names it had, and run on symbols in that form. -/

/-- The effect of a program whose names stand for locations by way of `f`, read off the symbolic run
of the program in which every location has one name. -/
theorem exec_of_rep (alu : O → V → V → V) {f : L → K} {rep : L → L} {S : Set L}
    (hrep : ∀ l ∈ S, f (rep l) = f l) (hf : Set.InjOn f (rep '' S)) {code : List (Asg L O)}
    (hcode : ∀ a ∈ code, ∀ l ∈ a.locs, l ∈ S) (σ : K → V) {l : L} (hl : l ∈ S) :
    exec alu (code.map (Asg.map f)) σ (f l) =
      (symExec (code.map (Asg.map rep)) (rep l)).eval alu (σ ∘ f) := by
  have hmap : code.map (Asg.map f) = (code.map (Asg.map rep)).map (Asg.map f) := by
    rw [List.map_map]
    exact List.map_congr_left fun a ha ↦
      (Asg.map_map_of_rep fun m hm ↦ hrep m (hcode a ha m hm)).symm
  have hlocs : ∀ a ∈ code.map (Asg.map rep), ∀ m ∈ a.locs, m ∈ rep '' S := by
    simp only [List.mem_map]
    rintro _ ⟨a, ha, rfl⟩ m hm
    rw [Asg.locs_map, List.mem_map] at hm
    obtain ⟨m', hm', rfl⟩ := hm
    exact ⟨m', hcode a ha m' hm', rfl⟩
  rw [← hrep l hl, hmap, exec_rename alu hf hlocs (fun _ _ ↦ rfl) _ ⟨l, hl, rfl⟩, eval_symExec]
  rfl

end Straight
