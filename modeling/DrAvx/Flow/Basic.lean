import Mathlib.Data.List.Basic
import Mathlib.Data.Option.Basic
import Mathlib.Logic.Function.Iterate

/-!
# Data flow through labels and jumps

Code is a list of instructions, some of which are labels or jump to labels.  An analysis of such code
goes through the list once.  It is given what is to hold at each label and keeps track of what holds
in between: a plain instruction transfers a fact, and wherever control goes to a label the present
fact has to imply the one at the label.  So a loop needs no iteration, only a guess of its invariant,
which `scan` then checks.  A branch may refine the fact by its outcome, and may turn out to go one
way only.

`needs_of_scan` and `exists_fact_of_scan` are the soundness of the scan, the latter for one edge of
the control flow.  What the facts mean, and how instructions act on states, is up to the user.
-/

set_option autoImplicit false

namespace Flow

variable {I A : Type}

/-- The part an instruction plays in the control flow. -/
inductive Ctl
  /-- goes on with the next instruction -/
  | plain
  | label (n : ℕ)
  /-- goes to a label -/
  | jump (n : ℕ)
  /-- goes to a label or on with the next instruction -/
  | branch (n : ℕ)
  deriving DecidableEq

/-- An analysis: what plain instructions need, what they do to a fact, and when a fact implies
another. -/
structure Analysis (I A : Type) where
  ctl : I → Ctl
  needs : I → A → Bool
  transfer : I → A → A
  /-- what is known after a branch that is taken, or is not; nothing if it cannot go that way -/
  atBranch : I → Bool → A → Option A := fun _ _ a ↦ some a
  le : A → A → Bool

namespace Analysis

variable (D : Analysis I A)

/-- Is the instruction the given label? -/
def isLabel (n : ℕ) (i : I) : Bool := D.ctl i == .label n

/-- Control can go from the instruction `i` at position `pc` to position `pc'`; of a branch `taken`
says whether it is taken. -/
def Edge (code : List I) (pc : ℕ) (i : I) (taken : Bool) (pc' : ℕ) : Prop :=
  match D.ctl i with
  | .plain | .label _ => pc' = pc + 1
  | .jump n => code.findIdx? (D.isLabel n) = some pc'
  | .branch n => if taken then code.findIdx? (D.isLabel n) = some pc' else pc' = pc + 1

/-- The fact that holds where an instruction is left. -/
def out (i : I) (taken : Bool) (a : A) : Option A :=
  match D.ctl i with
  | .plain => some (D.transfer i a)
  | .branch _ => D.atBranch i taken a
  | .label _ | .jump _ => some a

/-- The first fact, if control gets there at all, implies the second. -/
def covers (a b : Option A) : Bool := a.all fun a ↦ b.any (D.le a)

/-- The fact in front of the next instruction, given the one in front of an instruction.  There is
none where control does not get to. -/
def after (inv : ℕ → Option A) (i : I) (a : Option A) : Option A :=
  match D.ctl i with
  | .plain => a.map (D.transfer i)
  | .label n => inv n
  | .branch _ => a.bind (D.atBranch i false)
  | .jump _ => none

/-- The fact suffices for a plain instruction, or for what `inv` says about the label that control
goes to. -/
def admits (inv : ℕ → Option A) (i : I) (a : Option A) : Bool :=
  match D.ctl i with
  | .plain => a.all (D.needs i)
  | .branch n => D.covers (a.bind (D.atBranch i true)) (inv n)
  | .label n | .jump n => D.covers a (inv n)

/-- Goes through the code and returns the fact at its end, unless too little is known somewhere. -/
def scan (inv : ℕ → Option A) : Option A → List I → Option (Option A)
  | a, [] => some a
  | a, i :: rest => if D.admits inv i a then scan inv (D.after inv i a) rest else none

/-- The fact in front of a position.  In front of a label it is what `inv` says. -/
def factAt (inv : ℕ → Option A) : Option A → List I → ℕ → Option A
  | a, [], _ => a
  | a, i :: _, 0 => match D.ctl i with
    | .label n => inv n
    | _ => a
  | a, i :: rest, pc + 1 => factAt inv (D.after inv i a) rest pc

/-! ## Soundness -/

variable {D} {inv : ℕ → Option A} {a₀ fin : Option A} {code : List I} {pc pc' : ℕ} {i : I} {a b : A}

/-- The fact at the end. -/
theorem factAt_length (h : D.scan inv a₀ code = some fin) :
    D.factAt inv a₀ code code.length = fin := by
  induction code generalizing a₀ with
  | nil => exact Option.some.inj h
  | cons i rest ih =>
    rw [scan] at h
    split at h
    · exact ih h
    · cases h

/-- In front of a label the fact is what `inv` says. -/
theorem factAt_label {n : ℕ} (hi : code[pc]? = some i) (hn : D.ctl i = .label n) :
    D.factAt inv a₀ code pc = inv n := by
  induction code generalizing a₀ pc with
  | nil => cases hi
  | cons j rest ih =>
    cases pc with
    | zero =>
      obtain rfl : j = i := by simpa using hi
      simp [factAt, hn]
    | succ pc => exact ih (by simpa using hi)

/-- In front of the first instruction is the fact the scan starts from, or a weaker one. -/
theorem factAt_zero (h : D.scan inv (some a) code = some fin) :
    ∃ b, D.factAt inv (some a) code 0 = some b ∧ (a = b ∨ D.le a b = true) := by
  cases code with
  | nil => exact ⟨a, rfl, .inl rfl⟩
  | cons i rest =>
    rw [scan] at h
    cases hi : D.ctl i with
    | label n =>
      split at h
      case isFalse => cases h
      case isTrue hadmits =>
        simp only [admits, hi, covers, Option.all_some, Option.any_eq_true] at hadmits
        obtain ⟨b, hb, hle⟩ := hadmits
        exact ⟨b, by simpa [factAt, hi] using hb, .inr hle⟩
    | _ => exact ⟨a, by simp [factAt, hi], .inl rfl⟩

/-- Where control goes to a label, what comes out of the instruction implies what `inv` says about
the label. -/
theorem le_of_scan {n : ℕ} (h : D.scan inv a₀ code = some fin) (hi : code[pc]? = some i)
    (ha : D.factAt inv a₀ code pc = some a) (hn : D.ctl i = .jump n ∨ D.ctl i = .branch n)
    (hb : D.out i true a = some b) : ∃ b', inv n = some b' ∧ D.le b b' = true := by
  induction code generalizing a₀ pc with
  | nil => cases hi
  | cons j rest ih =>
    rw [scan] at h
    split at h
    case isFalse => cases h
    case isTrue hadmits =>
      cases pc with
      | zero =>
        obtain rfl : j = i := by simpa using hi
        rcases hn with hn | hn <;> simp [factAt, hn] at ha <;> simp [out, hn] at hb <;>
          simpa [admits, hn, ha, hb, covers, Option.any_eq_true] using hadmits
      | succ pc => exact ih h (by simpa using hi) ha

/-- A plain instruction has what it needs. -/
theorem needs_of_scan (h : D.scan inv a₀ code = some fin) (hi : code[pc]? = some i)
    (ha : D.factAt inv a₀ code pc = some a) (hn : D.ctl i = .plain) : D.needs i a = true := by
  induction code generalizing a₀ pc with
  | nil => cases hi
  | cons j rest ih =>
    rw [scan] at h
    split at h
    case isFalse => cases h
    case isTrue hadmits =>
      cases pc with
      | zero =>
        obtain rfl : j = i := by simpa using hi
        simp only [factAt, hn] at ha
        simpa [admits, hn, ha] using hadmits
      | succ pc => exact ih h (by simpa using hi) ha

/-- The fact in front of the next instruction. -/
theorem factAt_succ (h : D.scan inv a₀ code = some fin) (hi : code[pc]? = some i)
    (ha : D.factAt inv a₀ code pc = some a) (hjump : ∀ n, D.ctl i ≠ .jump n)
    (hb : D.out i false a = some b) :
    ∃ b', D.factAt inv a₀ code (pc + 1) = some b' ∧ (b = b' ∨ D.le b b' = true) := by
  induction code generalizing a₀ pc with
  | nil => cases hi
  | cons j rest ih =>
    rw [scan] at h
    split at h
    case isFalse => cases h
    case isTrue =>
      cases pc with
      | succ pc => exact ih h (by simpa using hi) ha
      | zero =>
        obtain rfl : j = i := by simpa using hi
        -- the fact after the instruction is the one from which the rest is scanned
        suffices hafter : D.after inv j a₀ = some b by
          rw [factAt, hafter]
          rw [hafter] at h
          exact factAt_zero h
        cases hj : D.ctl j with
        | jump n => exact absurd hj (hjump n)
        | _ => simp_all [factAt, after, out]

/-- Along every edge of the control flow, the fact in front of the target is what comes out of the
instruction, or a weaker one. -/
theorem exists_fact_of_scan {taken : Bool} (h : D.scan inv a₀ code = some fin)
    (hi : code[pc]? = some i) (ha : D.factAt inv a₀ code pc = some a)
    (hedge : D.Edge code pc i taken pc') (hb : D.out i taken a = some b) :
    ∃ b', D.factAt inv a₀ code pc' = some b' ∧ (b = b' ∨ D.le b b' = true) := by
  have hlabel (n : ℕ) (hn : D.ctl i = .jump n ∨ D.ctl i = .branch n)
      (hpc' : code.findIdx? (D.isLabel n) = some pc') (hb : D.out i true a = some b) :
      ∃ b', D.factAt inv a₀ code pc' = some b' ∧ (b = b' ∨ D.le b b' = true) := by
    obtain ⟨hlt, htarget, -⟩ := List.findIdx?_eq_some_iff_getElem.mp hpc'
    obtain ⟨b', hb', hle⟩ := le_of_scan h hi ha hn hb
    have hfact : D.factAt inv a₀ code pc' = inv n :=
      factAt_label (List.getElem?_eq_getElem hlt) (by simpa [isLabel] using htarget)
    exact ⟨b', hfact.trans hb', .inr hle⟩
  rw [Edge] at hedge
  cases hc : D.ctl i with
  | plain =>
    simp only [hc] at hedge
    exact hedge ▸ factAt_succ h hi ha (by simp [hc]) (by simpa [out, hc] using hb)
  | label n =>
    simp only [hc] at hedge
    exact hedge ▸ factAt_succ h hi ha (by simp [hc]) (by simpa [out, hc] using hb)
  | jump n =>
    simp only [hc] at hedge
    exact hlabel n (.inl hc) hedge (by simpa [out, hc] using hb)
  | branch n =>
    cases taken with
    | false =>
      simp only [hc, Bool.false_eq_true, if_false] at hedge
      exact hedge ▸ factAt_succ h hi ha (by simp [hc]) hb
    | true =>
      simp only [hc, if_true] at hedge
      exact hlabel n (.inr hc) hedge hb

/-! ## Two analyses at once -/

/-- Both analyses side by side.  A branch goes one way only if one of them says so. -/
def prod {B : Type} (D₁ : Analysis I A) (D₂ : Analysis I B) : Analysis I (A × B) where
  ctl := D₁.ctl
  needs i p := D₁.needs i p.1 && D₂.needs i p.2
  transfer i p := (D₁.transfer i p.1, D₂.transfer i p.2)
  atBranch i taken p :=
    (D₁.atBranch i taken p.1).bind fun a ↦ (D₂.atBranch i taken p.2).map fun b ↦ (a, b)
  le p q := D₁.le p.1 q.1 && D₂.le p.2 q.2

/-! ## Guessing invariants -/

variable (D) (join : A → A → A)

/-- Adds a fact to those that are passed to a label. -/
def pass (n : ℕ) (a : Option A) : List (ℕ × A) → List (ℕ × A)
  | [] => a.toList.map fun a ↦ (n, a)
  | (m, b) :: rest =>
    if m = n then (n, a.elim b (join · b)) :: rest else (m, b) :: pass n a rest

/-- Goes through the code once and collects what is passed to the labels. -/
def sweep : Option A → List I → List (ℕ × A) → List (ℕ × A)
  | _, [], known => known
  | a, i :: rest, known => match D.ctl i with
    | .plain => sweep (a.map (D.transfer i)) rest known
    | .label n => sweep ((pass join n a known).lookup n) rest (pass join n a known)
    | .branch n => sweep (a.bind (D.atBranch i false)) rest
      (pass join n (a.bind (D.atBranch i true)) known)
    | .jump n => sweep none rest (pass join n a known)

/-- The fact at the end of the code, with invariants for the labels that are found by going through
the code so many times. -/
def run (rounds : ℕ) (a : A) (code : List I) : Option A :=
  let known := (D.sweep join (some a) code)^[rounds] []
  (D.scan (fun n ↦ known.lookup n) (some a) code).join

variable {D join}

/-- A run of the analysis is a scan. -/
theorem exists_scan_of_run {rounds : ℕ} (h : D.run join rounds a code = some b) :
    ∃ inv, D.scan inv (some a) code = some (some b) :=
  ⟨_, Option.join_eq_some_iff.mp h⟩

/-- A run that ends with a fact that passes a test. -/
theorem exists_scan_of_any {rounds : ℕ} {test : A → Bool}
    (h : (D.run join rounds a code).any test = true) :
    ∃ b inv, D.scan inv (some a) code = some (some b) ∧ test b = true := by
  cases hrun : D.run join rounds a code with
  | none => rw [hrun] at h; cases h
  | some b =>
    rw [hrun, Option.any_some] at h
    obtain ⟨inv, hscan⟩ := exists_scan_of_run hrun
    exact ⟨b, inv, hscan, h⟩

end Analysis

end Flow
