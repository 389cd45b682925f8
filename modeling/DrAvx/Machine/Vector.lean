import DrAvx.Machine.Exec
import DrAvx.Straight.Basic

/-!
# Vector code

Most of what the rewriter emits moves whole 256-bit values between vector registers and the slots of
thread-local storage, and combines them lane by lane.  Such code is a straight-line program over
three kinds of locations, `Loc`: a physical register and the two halves of a slot.  `foldl_effect`
says that its execution is the execution of the assignments it stands for, and that nothing else in
the state changes.
-/

set_option autoImplicit false

namespace DrAvx

open Straight Function

variable {ρ ρ' : Type}

/-- A place that holds 256 bits of vector data. -/
inductive Loc (ρ : Type)
  | ymm (r : ρ)
  | lo (r : ρ)
  | hi (r : ρ)
  deriving DecidableEq

namespace Loc

def reg : Loc ρ → ρ
  | ymm r | lo r | hi r => r

def map (f : ρ → ρ') : Loc ρ → Loc ρ'
  | ymm r => ymm (f r)
  | lo r => lo (f r)
  | hi r => hi (f r)

/-- Renaming registers injectively renames locations injectively. -/
theorem injOn_map {f : ρ → ρ'} {S : Set ρ} (hf : Set.InjOn f S) :
    Set.InjOn (map f) {l | l.reg ∈ S} := by
  rintro (a | a | a) ha (b | b | b) hb h <;> simp only [map, reduceCtorEq] at h <;>
    simp only [Loc.ymm.injEq, Loc.lo.injEq, Loc.hi.injEq] at h ⊢ <;> exact hf ha hb h

end Loc

namespace State

/-- The vector data of a state. -/
def get (s : State) : Loc VReg → Val
  | .ymm r => s.ymm r
  | .lo r => s.lo r
  | .hi r => s.hi r

/-- The state with other vector data. -/
def put (s : State) (σ : Loc VReg → Val) : State :=
  { s with ymm := fun r ↦ σ (.ymm r), lo := fun r ↦ σ (.lo r), hi := fun r ↦ σ (.hi r) }

@[simp] theorem get_put (s : State) (σ : Loc VReg → Val) : (s.put σ).get = σ := by
  funext l
  cases l <;> rfl

@[simp] theorem put_put (s : State) (σ τ : Loc VReg → Val) : (s.put σ).put τ = s.put τ := rfl

end State

/-! ## Instructions as assignments -/

/-- The operand that names a location. -/
def Loc.opnd : Loc VReg → Opnd
  | ymm r => .vec .ymm r
  | lo r => .zslot r false 32
  | hi r => .zslot r true 32

/-- The location an operand names, if it is one of 256 bits. -/
def Opnd.loc? : Opnd → Option (Loc VReg)
  | .vec .ymm r => some (.ymm r)
  | .zslot r false 32 => some (.lo r)
  | .zslot r true 32 => some (.hi r)
  | _ => none

theorem Opnd.eq_opnd_of_loc? {o : Opnd} {l : Loc VReg} (h : o.loc? = some l) : o = l.opnd := by
  unfold loc? at h
  split at h <;> first | cases h; rfl | cases h

theorem Opnd.eq_map_opnd {os : List Opnd} {ls : List (Loc VReg)} (h : os.mapM loc? = some ls) :
    os = ls.map Loc.opnd := by
  induction os generalizing ls with
  | nil =>
    simp only [List.mapM_nil, Option.pure_def, Option.some.injEq] at h
    subst h
    rfl
  | cons o os ih =>
    simp only [List.mapM_cons, Option.bind_eq_bind, Option.bind_eq_some_iff, Option.pure_def,
      Option.some.injEq] at h
    obtain ⟨l, hl, ls, hls, rfl⟩ := h
    rw [List.map_cons, ← ih hls, eq_opnd_of_loc? hl]

/-- The operations on two vectors that are assignments. -/
def Op.vec3 : List Op :=
  [.vpaddw, .vpaddd, .vpaddq, .vpsubb, .vpsubw, .vpsubd, .vpsubq, .vpmulld, .vpand, .vpandn, .vpor,
    .vpxor]

/-- What such an operation computes. -/
def Op.alu (E : Ext) (op : Op) (a b : Val) : Val :=
  (op.values E 32 false [a, b] ⟨false, false, false, false, false, false⟩).headD 0

theorem Op.forall_mem_vec3 {P : Op → Prop} : (∀ op ∈ Op.vec3, P op) ↔
    P .vpaddw ∧ P .vpaddd ∧ P .vpaddq ∧ P .vpsubb ∧ P .vpsubw ∧ P .vpsubd ∧ P .vpsubq ∧
      P .vpmulld ∧ P .vpand ∧ P .vpandn ∧ P .vpor ∧ P .vpxor := by
  simp [Op.vec3]

theorem Op.values_of_mem_vec3 (E : Ext) (n : ℕ) (byImm : Bool) (a b : Val) (fl : Flags) :
    ∀ op ∈ Op.vec3, op.values E n byImm [a, b] fl = [op.alu E a b] :=
  Op.forall_mem_vec3.mpr ⟨rfl, rfl, rfl, rfl, rfl, rfl, rfl, rfl, rfl, rfl, rfl, rfl⟩

/-- The assignment an opcode stands for at these destinations and sources, if it is one. -/
def Op.asg? (op : Op) : List (Loc ρ) → List (Loc ρ) → Option (Asg (Loc ρ) Op)
  | [d], [a] => if op = .vmovdqu then some (.copy d a) else none
  | [d], [a, b] => if op ∈ Op.vec3 then some (.bin d op a b) else none
  | _, _ => none

theorem Op.asg?_map (f : Loc ρ → Loc ρ') (op : Op) (ds ss : List (Loc ρ)) :
    op.asg? (ds.map f) (ss.map f) = (op.asg? ds ss).map (Asg.map f) := by
  rcases ds with _ | ⟨d, _ | ⟨d', ds⟩⟩ <;> rcases ss with _ | ⟨a, _ | ⟨b, _ | ⟨c, ss⟩⟩⟩ <;> try rfl
  · simp only [List.map_cons, List.map_nil, asg?, apply_ite (Option.map (Asg.map f))]
    rfl
  · simp only [List.map_cons, List.map_nil, asg?, apply_ite (Option.map (Asg.map f))]
    rfl

/-- The assignment an instruction stands for, if it is one. -/
def Insn.asg? (i : Insn) : Option (Asg (Loc VReg) Op) :=
  (i.dsts.mapM Opnd.loc?).bind fun ds ↦ (i.srcs.mapM Opnd.loc?).bind fun ss ↦ i.op.asg? ds ss

namespace State

variable (s p : State) (l : Loc VReg)

theorem read_opnd (n : ℕ) : s.read n l.opnd = s.get l := by
  cases l <;> exact low_32 _

theorem write_opnd (v : Val) : s.write false p l.opnd v = s.put (update s.get l v) := by
  cases l <;> simp only [write, Loc.opnd, put, VecWidth.bytes, low_32, merge_32, Bool.false_eq_true,
    if_false] <;> congr 1 <;> funext r <;> simp [update_apply, get]

end State

namespace Insn

/-- The instructions that are assignments. -/
theorem asg?_cases {i : Insn} {a : Asg (Loc VReg) Op} (h : i.asg? = some a) :
    (∃ d x : Loc VReg, i = ⟨.vmovdqu, [d.opnd], [x.opnd]⟩ ∧ a = .copy d x) ∨
    (∃ (op : Op) (d x y : Loc VReg), op ∈ Op.vec3 ∧ i = ⟨op, [d.opnd], [x.opnd, y.opnd]⟩ ∧
      a = .bin d op x y) := by
  obtain ⟨op, dsts, srcs⟩ := i
  simp only [asg?, Option.bind_eq_some_iff] at h
  obtain ⟨ds, hds, ss, hss, h⟩ := h
  rw [Opnd.eq_map_opnd hds, Opnd.eq_map_opnd hss]
  unfold Op.asg? at h
  split at h
  next d x =>
    split at h
    next hop =>
      cases h
      exact .inl ⟨d, x, by rw [show op = .vmovdqu from hop]; rfl, rfl⟩
    · cases h
  next d x y =>
    split at h
    next hop =>
      cases h
      exact .inr ⟨op, d, x, y, hop, rfl, rfl⟩
    · cases h
  · cases h

/-- A VEX instruction that leaves the flags alone writes its one result. -/
theorem effect_vex {i : Insn} {d : Opnd} {v : Val} {E : Ext} {s : State} (hd : i.dsts = [d])
    (hv : i.outputs E s = [v]) (hlegacy : i.legacySse = false) (hflags : i.op.setsFlags = false) :
    i.effect E s = s.write false s d v := by
  simp [effect, hd, hv, hlegacy, hflags, writeAll]

/-- An instruction that is an assignment has the effect of the assignment. -/
theorem effect_of_asg? {i : Insn} {a : Asg (Loc VReg) Op} (h : i.asg? = some a) (E : Ext)
    (s : State) : i.effect E s = s.put (a.exec (fun op ↦ op.alu E) s.get) := by
  obtain ⟨d, x, rfl, rfl⟩ | ⟨op, d, x, y, hop, rfl, rfl⟩ := asg?_cases h
  · have hv : (⟨.vmovdqu, [d.opnd], [x.opnd]⟩ : Insn).outputs E s = [s.read 4 x.opnd] := rfl
    rw [effect_vex rfl hv rfl rfl, State.read_opnd, State.write_opnd]
    rfl
  · have hplain : ∀ op ∈ Op.vec3, (⟨op, [d.opnd], [x.opnd, y.opnd]⟩ : Insn).legacySse = false ∧
        op.setsFlags = false ∧
        (⟨op, [d.opnd], [x.opnd, y.opnd]⟩ : Insn).inputVals s = [s.read 4 x.opnd, s.read 4 y.opnd] :=
      Op.forall_mem_vec3.mpr (by repeat' constructor)
    obtain ⟨hlegacy, hflags, hin⟩ := hplain op hop
    have hv : (⟨op, [d.opnd], [x.opnd, y.opnd]⟩ : Insn).outputs E s =
        [op.alu E (s.get x) (s.get y)] := by
      rw [outputs, hin, State.read_opnd, State.read_opnd, Op.values_of_mem_vec3 _ _ _ _ _ _ op hop]
    rw [effect_vex rfl hv hlegacy hflags, State.write_opnd]
    rfl

end Insn

/-- Code made of assignments has the effect of the assignments, and no other. -/
theorem foldl_effect {code : List Insn} {asgs : List (Asg (Loc VReg) Op)}
    (h : code.mapM Insn.asg? = some asgs) (E : Ext) (s : State) :
    code.foldl (fun s i ↦ i.effect E s) s = s.put (exec (fun op ↦ op.alu E) asgs s.get) := by
  induction code generalizing s asgs with
  | nil =>
    simp only [List.mapM_nil, Option.pure_def, Option.some.injEq] at h
    subst h
    rfl
  | cons i code ih =>
    simp only [List.mapM_cons, Option.bind_eq_bind, Option.bind_eq_some_iff, Option.pure_def,
      Option.some.injEq] at h
    obtain ⟨a, ha, rest, hrest, rfl⟩ := h
    rw [List.foldl_cons, Insn.effect_of_asg? ha, ih hrest, State.get_put, State.put_put]
    rfl

/-! ## Execution -/

theorem Insn.jumpsTo_of_asg? {i : Insn} {a : Asg (Loc VReg) Op} (h : i.asg? = some a) (fl : Flags) :
    i.jumpsTo fl = none := by
  obtain ⟨d, x, rfl, rfl⟩ | ⟨op, d, x, y, hop, rfl, rfl⟩ := asg?_cases h
  · rfl
  · have hjump : ∀ op ∈ Op.vec3,
        (⟨op, [d.opnd], [x.opnd, y.opnd]⟩ : Insn).jumpsTo fl = none :=
      Op.forall_mem_vec3.mpr ⟨rfl, rfl, rfl, rfl, rfl, rfl, rfl, rfl, rfl, rfl, rfl, rfl⟩
    exact hjump op hop

theorem exists_asg?_of_mapM {code : List Insn} {asgs : List (Asg (Loc VReg) Op)}
    (h : code.mapM Insn.asg? = some asgs) {i : Insn} (hi : i ∈ code) : ∃ a, i.asg? = some a := by
  induction code generalizing asgs with
  | nil => cases hi
  | cons j code ih =>
    simp only [List.mapM_cons, Option.bind_eq_bind, Option.bind_eq_some_iff] at h
    obtain ⟨a, ha, rest, hrest, -⟩ := h
    rcases List.mem_cons.mp hi with rfl | hi
    · exact ⟨a, ha⟩
    · exact ih hrest hi

/-- Legal code made of assignments runs to its end, with the effect of the assignments and no
other. -/
theorem exec_of_asgs {code : List Insn} {asgs : List (Asg (Loc VReg) Op)}
    (h : code.mapM Insn.asg? = some asgs) (hlegal : ∀ i ∈ code, i.legal = true) (E : Ext)
    (s : State) : Exec E code s (s.put (exec (fun op ↦ op.alu E) asgs s.get)) := by
  rw [← foldl_effect h]
  refine exec_foldl hlegal (fun i hi fl ↦ ?_) s
  obtain ⟨a, ha⟩ := exists_asg?_of_mapM h hi
  exact Insn.jumpsTo_of_asg? ha fl

end DrAvx
