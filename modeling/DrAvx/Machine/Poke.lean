import DrAvx.Machine.Frame

/-!
# States that differ in a byte of memory

An instruction that reads no memory does the same in two states that differ in memory only.  If the
states differ in a single byte, and the instruction writes it, there is no difference left: what the
byte was before cannot be told from what comes after.
-/

set_option autoImplicit false

namespace DrAvx

open Function

/-- The operand is in memory. -/
def Opnd.isMem : Opnd → Bool
  | .mem _ _ _ => true
  | _ => false

/-- Memory after a write to an operand, with the addresses of the state `p`. -/
def Opnd.writeMem (p : State) (o : Opnd) (v : Val) (m : BitVec 64 → BitVec 8) :
    BitVec 64 → BitVec 8 :=
  match o with
  | .mem _ r b => store m (p.ea r) b v
  | _ => m

namespace State

/-- The state with other memory. -/
def withMem (s : State) (m : BitVec 64 → BitVec 8) : State := { s with mem := m }

/-- The states differ in the byte at the given address at most. -/
structure SameBut (x : BitVec 64) (s s' : State) : Prop where
  rest : s' = s.withMem s'.mem
  mem : ∀ a, a ≠ x → s'.mem a = s.mem a

/-- The state with another byte at an address. -/
def poke (s : State) (x : BitVec 64) (v : BitVec 8) : State := s.withMem (update s.mem x v)

theorem sameBut_poke (s : State) (x : BitVec 64) (v : BitVec 8) : s.SameBut x (s.poke x v) :=
  ⟨rfl, fun _ ha ↦ update_of_ne ha _ _⟩

theorem SameBut.refl (x : BitVec 64) (s : State) : s.SameBut x s := ⟨rfl, fun _ _ ↦ rfl⟩

variable (s : State) (m : BitVec 64 → BitVec 8)

theorem ea_withMem (r : MemRef) : (s.withMem m).ea r = s.ea r := by
  rcases r with ⟨_ | _, _ | _, _ | _ | _, _, _⟩ | ⟨_ | _, _⟩ | ⟨_ | _, _⟩ <;> rfl

theorem read_withMem {o : Opnd} (h : o.isMem = false) (n : ℕ) :
    (s.withMem m).read n o = s.read n o := by
  cases o with
  | mem o r b => cases h
  | _ => rfl

theorem write_withMem (legacy : Bool) (p : State) (m' : BitVec 64 → BitVec 8) (o : Opnd) (v : Val) :
    (s.withMem m).write legacy (p.withMem m') o v =
      (s.write legacy p o v).withMem (o.writeMem p v m) := by
  cases o with
  | zslot x upper b => cases upper <;> rfl
  | mem o r b => simp only [write, ea_withMem]; rfl
  | _ => rfl

theorem mem_write (legacy : Bool) (p : State) (o : Opnd) (v : Val) :
    (s.write legacy p o v).mem = o.writeMem p v s.mem := by
  cases o with
  | zslot x upper b => cases upper <;> rfl
  | _ => rfl

end State

namespace Insn

/-- Memory after a list of writes. -/
def writeAllMem (p : State) : List (Opnd × Val) → (BitVec 64 → BitVec 8) → BitVec 64 → BitVec 8
  | [], m => m
  | (o, v) :: rest, m => o.writeMem p v (writeAllMem p rest m)

variable {E : Ext} {i : Insn} {s s' : State} {m m' : BitVec 64 → BitVec 8}

theorem writeAll_withMem (legacy : Bool) (p : State) (ows : List (Opnd × Val)) :
    writeAll legacy (p.withMem m') ows (s.withMem m) =
      (writeAll legacy p ows s).withMem (writeAllMem p ows m) := by
  induction ows with
  | nil => rfl
  | cons ov rest ih =>
    rw [writeAll, ih, State.write_withMem]
    rfl

theorem mem_writeAll (legacy : Bool) (p : State) (ows : List (Opnd × Val)) :
    (writeAll legacy p ows s).mem = writeAllMem p ows s.mem := by
  induction ows with
  | nil => rfl
  | cons ov rest ih =>
    rw [writeAll, State.mem_write, ih]
    rfl

theorem mem_effect :
    (i.effect E s).mem = writeAllMem s (i.dsts.zip (i.outputs E s)) s.mem := by
  simp only [effect]
  split <;> exact mem_writeAll _ _ _

theorem inputVals_withMem (h : ∀ o ∈ i.inputs, o.isMem = false) :
    i.inputVals (s.withMem m) = i.inputVals s := by
  refine List.map_congr_left fun o ho ↦ ?_
  cases o with
  | mem o r b => cases h _ ho
  | _ => cases hop : i.op <;> simp only [operandVal, hop] <;> exact State.read_withMem _ _ rfl _

/-- An instruction that reads no memory does the same whatever is in it. -/
theorem effect_withMem (h : ∀ o ∈ i.inputs, o.isMem = false) :
    i.effect E (s.withMem m) =
      (i.effect E s).withMem (writeAllMem s (i.dsts.zip (i.outputs E s)) m) := by
  have houtputs : i.outputs E (s.withMem m) = i.outputs E s := by
    rw [outputs, outputs, inputVals_withMem h]
    rfl
  simp only [effect, houtputs, inputVals_withMem h, writeAll_withMem]
  split <;> rfl

/-- The same writes leave the same, where memory was the same. -/
theorem writeAllMem_congr {p : State} {a : BitVec 64} (ows : List (Opnd × Val)) (h : m' a = m a) :
    writeAllMem p ows m' a = writeAllMem p ows m a := by
  induction ows with
  | nil => exact h
  | cons ov rest ih =>
    obtain ⟨o, v⟩ := ov
    cases o with
    | mem o r b =>
      simp only [writeAllMem, Opnd.writeMem, store]
      split
      · rfl
      · exact ih
    | _ => exact ih

/-- A byte that is written is the same whatever it was. -/
theorem writeAllMem_of_mem {p : State} {a : BitVec 64} {ows : List (Opnd × Val)} {o : Origin}
    {r : MemRef} {b : ℕ} {v : Val} (hmem : (.mem o r b, v) ∈ ows) (ha : (a - p.ea r).toNat < b) :
    writeAllMem p ows m' a = writeAllMem p ows m a := by
  induction ows with
  | nil => cases hmem
  | cons ov rest ih =>
    rcases List.mem_cons.mp hmem with rfl | hmem
    · simp only [writeAllMem, Opnd.writeMem, store, if_pos ha]
    · exact writeAllMem_congr [ov] (ih hmem)

end Insn

namespace State

variable {E : Ext} {i : Insn} {s s' : State} {x : BitVec 64}

/-- The states differ in no other byte after an instruction that reads no memory. -/
theorem SameBut.effect (hs : s.SameBut x s') (h : ∀ o ∈ i.inputs, o.isMem = false) :
    (i.effect E s).SameBut x (i.effect E s') := by
  have heffect := Insn.effect_withMem (E := E) (s := s) (m := s'.mem) h
  rw [← hs.rest] at heffect
  refine ⟨by rw [heffect]; rfl, fun a ha ↦ ?_⟩
  rw [heffect, Insn.mem_effect]
  exact Insn.writeAllMem_congr _ (hs.mem a ha)

/-- They do not differ at all after one that writes the byte. -/
theorem SameBut.effect_eq (hs : s.SameBut x s') (h : ∀ o ∈ i.inputs, o.isMem = false) {o : Origin}
    {r : MemRef} {b : ℕ} {v : Val} (hmem : (.mem o r b, v) ∈ i.dsts.zip (i.outputs E s))
    (hx : (x - s.ea r).toNat < b) : i.effect E s' = i.effect E s := by
  have hsame := hs.effect (E := E) h
  have heffect := Insn.effect_withMem (E := E) (s := s) (m := s'.mem) h
  rw [← hs.rest] at heffect
  have hmems : (i.effect E s').mem = (i.effect E s).mem := by
    funext a
    by_cases ha : a = x
    · rw [heffect, Insn.mem_effect, ha]
      exact Insn.writeAllMem_of_mem hmem hx
    · exact hsame.mem a ha
  rw [hsame.rest, hmems]
  rfl

end State

end DrAvx
