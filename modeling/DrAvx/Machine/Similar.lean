import DrAvx.Machine.Frame

/-!
# States that differ in stale data

The lower half of the slot of a register that the host has is only a place to save the register in.
Between instructions it holds whatever was saved there last.  Two states that differ in nothing else
stand for the same state of the application.

An instruction that reads no such data acts on both states alike: `effect_withLo` says how a state
with other lower halves changes.
-/

set_option autoImplicit false

namespace DrAvx

open Function

/-! ## Values that agree in their low bytes -/

theorem getLsbD_low (n : ℕ) (v : Val) (j : ℕ) :
    (low n v).getLsbD j = (decide (j < 8 * n) && v.getLsbD j) := by
  by_cases hj : j < 256
  · simp [low, hj]
  · simp [low, BitVec.getLsbD_of_ge v j (by omega), hj]

theorem getLsbD_merge (n : ℕ) (old v : Val) (j : ℕ) :
    (merge n old v).getLsbD j = if j < 8 * n then v.getLsbD j else old.getLsbD j := by
  simp only [merge, BitVec.getLsbD_or, BitVec.getLsbD_shiftLeft, BitVec.getLsbD_ushiftRight,
    getLsbD_low]
  split
  · simp [*]
  · by_cases hj : j < 256
    · simp [*, Nat.add_sub_cancel' (Nat.le_of_not_lt ‹_›)]
    · simp [*, BitVec.getLsbD_of_ge old j (by omega)]

/-- Values agree in their low bytes bit by bit. -/
theorem low_eq_iff {n : ℕ} {v v' : Val} :
    low n v = low n v' ↔ ∀ j < 8 * n, v.getLsbD j = v'.getLsbD j := by
  constructor
  · intro h j hj
    simpa [getLsbD_low, hj] using congrArg (·.getLsbD j) h
  · intro h
    apply BitVec.eq_of_getLsbD_eq
    intro j hj
    rw [getLsbD_low, getLsbD_low]
    by_cases hn : j < 8 * n
    · rw [h j hn]
    · simp [hn]

theorem low_eq_of_le {m n : ℕ} {v v' : Val} (hmn : m ≤ n) (h : low n v = low n v') :
    low m v = low m v' :=
  low_eq_iff.mpr fun j hj ↦ low_eq_iff.mp h j (by omega)

theorem low_merge_eq {m n : ℕ} {old old' : Val} (v : Val) (h : low m old = low m old') :
    low m (merge n old v) = low m (merge n old' v) := by
  refine low_eq_iff.mpr fun j hj ↦ ?_
  rw [getLsbD_merge, getLsbD_merge, low_eq_iff.mp h j hj]

/-- Eight bytes are all there is of a general purpose register or an opmask. -/
theorem setWidth_merge_8 (old v : Val) : (merge 8 old v).setWidth 64 = v.setWidth 64 := by
  refine BitVec.eq_of_getLsbD_eq fun j hj ↦ ?_
  have hj' : j < 256 := by omega
  simp only [BitVec.getLsbD_setWidth, getLsbD_merge]
  simp [hj]

theorem low_merge_self (n : ℕ) (old v : Val) : low n (merge n old v) = low n v := by
  refine low_eq_iff.mpr fun j hj ↦ ?_
  rw [getLsbD_merge, if_pos hj]

/-! ## The same state with other slots -/

namespace State

/-- The state with other lower halves of the slots. -/
def withLo (s : State) (l : VReg → Val) : State := { s with lo := l }

/-- The states differ in the lower halves of the slots of the first sixteen registers at most. -/
structure Similar (s s' : State) : Prop where
  rest : s' = s.withLo s'.lo
  high : ∀ x : VReg, x.high = true → s'.lo x = s.lo x

end State

/-- The lower halves of the slots after a write to an operand. -/
def Opnd.writeLo (o : Opnd) (v : Val) (l : VReg → Val) : VReg → Val :=
  match o with
  | .zslot x false b => update l x (merge b (l x) v)
  | _ => l

/-- The operand is not the lower half of a slot. -/
def Opnd.isSlotLo : Opnd → Bool
  | .zslot _ false _ => true
  | _ => false

namespace State

variable (s : State) (l : VReg → Val)

theorem read_withLo {o : Opnd} (h : o.isSlotLo = false) (n : ℕ) :
    (s.withLo l).read n o = s.read n o := by
  cases o with
  | zslot x upper b =>
    cases upper with
    | false => cases h
    | true => rfl
  | mem o m b => rcases m with ⟨_, _, _ | _ | _, _, _⟩ | _ | _ <;> rfl
  | _ => rfl

theorem write_withLo (legacy : Bool) (p : State) (l' : VReg → Val) (o : Opnd) (v : Val) :
    (s.withLo l).write legacy (p.withLo l') o v =
      (s.write legacy p o v).withLo (o.writeLo v l) := by
  cases o with
  | zslot x upper b => cases upper <;> rfl
  | mem o m b => rcases m with ⟨_, _, _ | _ | _, _, _⟩ | _ | _ <;> rfl
  | _ => rfl

theorem lo_write (legacy : Bool) (p : State) (o : Opnd) (v : Val) :
    (s.write legacy p o v).lo = o.writeLo v s.lo := by
  cases o with
  | zslot x upper b => cases upper <;> rfl
  | _ => rfl

end State

namespace Insn

/-- The lower halves of the slots after a list of writes. -/
def writeAllLo : List (Opnd × Val) → (VReg → Val) → VReg → Val
  | [], l => l
  | (o, v) :: rest, l => o.writeLo v (writeAllLo rest l)

variable {E : Ext} {i : Insn} {s : State} {l : VReg → Val}

theorem writeAll_withLo (legacy : Bool) (p : State) (l' : VReg → Val) (ows : List (Opnd × Val)) :
    writeAll legacy (p.withLo l') ows (s.withLo l) =
      (writeAll legacy p ows s).withLo (writeAllLo ows l) := by
  induction ows with
  | nil => rfl
  | cons ov rest ih => rw [writeAll, ih, State.write_withLo]; rfl

theorem lo_writeAll (legacy : Bool) (p : State) (ows : List (Opnd × Val)) :
    (writeAll legacy p ows s).lo = writeAllLo ows s.lo := by
  induction ows with
  | nil => rfl
  | cons ov rest ih => rw [writeAll, State.lo_write, ih]; rfl

theorem lo_effect : (i.effect E s).lo = writeAllLo (i.dsts.zip (i.outputs E s)) s.lo := by
  simp only [effect]
  split <;> exact lo_writeAll _ _ _

/-- An instruction whose inputs have the same values acts alike. -/
theorem effect_withLo (h : i.inputVals (s.withLo l) = i.inputVals s) :
    i.effect E (s.withLo l) =
      (i.effect E s).withLo (writeAllLo (i.dsts.zip (i.outputs E s)) l) := by
  have houtputs : i.outputs E (s.withLo l) = i.outputs E s := by
    rw [outputs, outputs, h]
    rfl
  simp only [effect, houtputs, h, writeAll_withLo]
  split <;> rfl

/-- Slots that agree in their low bytes still do after the same writes. -/
theorem low_writeAllLo {l' : VReg → Val} {x : VReg} {n : ℕ} (ows : List (Opnd × Val))
    (h : low n (l x) = low n (l' x)) :
    low n (writeAllLo ows l x) = low n (writeAllLo ows l' x) := by
  induction ows with
  | nil => exact h
  | cons ov rest ih =>
    obtain ⟨o, v⟩ := ov
    simp only [writeAllLo, Opnd.writeLo]
    split
    next y b =>
      by_cases hy : x = y
      · subst hy
        simpa using low_merge_eq v ih
      · simpa [hy] using ih
    · exact ih

/-- A slot that is written agrees in the bytes that are written. -/
theorem low_writeAllLo_of_mem {l' : VReg → Val} {x : VReg} {b : ℕ} {v : Val}
    {ows : List (Opnd × Val)} (h : (.zslot x false b, v) ∈ ows) :
    low b (writeAllLo ows l x) = low b (writeAllLo ows l' x) := by
  induction ows with
  | nil => cases h
  | cons ov rest ih =>
    rcases List.mem_cons.mp h with rfl | h
    · simp [writeAllLo, Opnd.writeLo, low_merge_self]
    · exact low_writeAllLo [ov] (ih h)

end Insn

end DrAvx
