import DrAvx.Handlers.Table

/-!
# Visiting the handlers

A statement about all handlers and all instructions the decoder delivers to them is checked by
visiting, for every operand list of the decoder's tables, the leaves of the handler's decision tree.
On the way `Facts` are gathered: a test on a single operand narrows down the classes it may be of,
and the answers to other questions are kept.  `RwFunc.exists_facts` takes the visit back to
instructions: where the handler ends for an instruction is a leaf that was visited, with facts that
are true of the instruction.

A condition on instructions is a list of cubes over the questions of the handlers, and the usual
questions have short names for that purpose.
-/

set_option autoImplicit false

namespace DrAvx

open Decision

/-! ## What is learnt -/

/-- What is known about an instruction: the classes each operand may be of, and answers to questions
that are not about a single operand. -/
structure Facts where
  d0 : List OpndClass
  d1 : List OpndClass
  s0 : List OpndClass
  s1 : List OpndClass
  s2 : List OpndClass
  s3 : List OpndClass
  answers : List (Query × Bool)

namespace Facts

/-- The classes the operand at a position may be of. -/
def classes (F : Facts) : Pos → List OpndClass
  | .d0 => F.d0
  | .d1 => F.d1
  | .s0 => F.s0
  | .s1 => F.s1
  | .s2 => F.s2
  | .s3 => F.s3

/-- The classes at one position narrowed down. -/
def narrow (F : Facts) (cs : List OpndClass) : Pos → Facts
  | .d0 => { F with d0 := cs }
  | .d1 => { F with d1 := cs }
  | .s0 => { F with s0 := cs }
  | .s1 => { F with s1 := cs }
  | .s2 => { F with s2 := cs }
  | .s3 => { F with s3 := cs }

/-- What is known after an answer. -/
def learn (F : Facts) : Query → Bool → Option Facts
  | .test p t, b => match (F.classes p).filter fun c ↦ t.holds c == b with
    | [] => none
    | cs => some (F.narrow cs p)
  | q, b => match F.answers.lookup q with
    | some b' => if b' = b then some F else none
    | none => some { F with answers := (q, b) :: F.answers }

/-- What is known is true of the instruction. -/
structure Sat (F : Facts) (c : Context) (i : AppInstr) : Prop where
  mem_classes : ∀ p, i.cls p ∈ F.classes p
  answers : ∀ a ∈ F.answers, a.1.answer c i = a.2

variable {F : Facts} {c : Context} {i : AppInstr}

theorem classes_narrow (F : Facts) (cs : List OpndClass) (p q : Pos) :
    (F.narrow cs p).classes q = if q = p then cs else F.classes q := by
  cases p <;> cases q <;> rfl

theorem answers_narrow (F : Facts) (cs : List OpndClass) (p : Pos) :
    (F.narrow cs p).answers = F.answers := by
  cases p <;> rfl

/-- Narrowing to classes that include the operand's own. -/
theorem Sat.narrow (h : F.Sat c i) {cs : List OpndClass} {p : Pos} (hp : i.cls p ∈ cs) :
    (F.narrow cs p).Sat c i := by
  refine ⟨fun q ↦ ?_, by rw [answers_narrow]; exact h.answers⟩
  rw [classes_narrow]
  split
  next heq => exact heq ▸ hp
  · exact h.mem_classes q

/-- A true answer can be learnt. -/
theorem Sat.exists_learn (h : F.Sat c i) (q : Query) :
    ∃ F', F.learn q (q.answer c i) = some F' ∧ F'.Sat c i := by
  have hother (hq : F.learn q (q.answer c i) = match F.answers.lookup q with
      | some b' => if b' = q.answer c i then some F else none
      | none => some { F with answers := (q, q.answer c i) :: F.answers }) :
      ∃ F', F.learn q (q.answer c i) = some F' ∧ F'.Sat c i := by
    rw [hq]
    cases hlookup : F.answers.lookup q with
    | some b' =>
      obtain ⟨before, after, hlist, -⟩ := List.lookup_eq_some_iff.mp hlookup
      have hb' := h.answers (q, b') (hlist ▸ List.mem_append_cons_self)
      exact ⟨F, by simp [hb'], h⟩
    | none =>
      refine ⟨_, rfl, h.mem_classes, fun a ha ↦ ?_⟩
      rcases List.mem_cons.mp ha with rfl | ha
      · rfl
      · exact h.answers a ha
  cases q with
  | test p t =>
    have hmem : i.cls p ∈ (F.classes p).filter fun c ↦ t.holds c == t.holds (i.cls p) :=
      List.mem_filter.mpr ⟨h.mem_classes p, by simp⟩
    refine ⟨_, ?_, h.narrow hmem⟩
    simp only [learn, Query.answer]
    split
    next hnil => rw [hnil] at hmem; cases hmem
    · rfl
  | _ => exact hother rfl

/-- The facts with every operand's class settled. -/
def exact (F : Facts) : List Facts :=
  F.d0.flatMap fun d0 ↦ F.d1.flatMap fun d1 ↦ F.s0.flatMap fun s0 ↦ F.s1.flatMap fun s1 ↦
    F.s2.flatMap fun s2 ↦ F.s3.map fun s3 ↦ ⟨[d0], [d1], [s0], [s1], [s2], [s3], F.answers⟩

/-- The first of the profiles an instruction may have. -/
def profile (F : Facts) (p : Pos) : OpndClass := (F.classes p).headD .absent

theorem Sat.exists_exact (h : F.Sat c i) : ∃ F' ∈ F.exact, F'.Sat c i ∧ F'.profile = i.cls := by
  refine ⟨⟨[i.cls .d0], [i.cls .d1], [i.cls .s0], [i.cls .s1], [i.cls .s2], [i.cls .s3], F.answers⟩,
    ?_, ⟨fun p ↦ by cases p <;> exact List.mem_singleton_self _, h.answers⟩, ?_⟩
  · simp only [exact, List.mem_flatMap, List.mem_map]
    exact ⟨_, h.mem_classes .d0, _, h.mem_classes .d1, _, h.mem_classes .s0, _, h.mem_classes .s1,
      _, h.mem_classes .s2, _, h.mem_classes .s3, rfl⟩
  · funext p
    cases p <;> rfl

/-- The profiles an instruction may have. -/
def profiles (F : Facts) : List Profile :=
  F.d0.flatMap fun d0 ↦ F.d1.flatMap fun d1 ↦ F.s0.flatMap fun s0 ↦ F.s1.flatMap fun s1 ↦
    F.s2.flatMap fun s2 ↦ F.s3.map fun s3 ↦ Classes.profile ([d0, d1], [s0, s1, s2, s3])

theorem Sat.mem_profiles (h : F.Sat c i) : i.cls ∈ F.profiles := by
  simp only [profiles, List.mem_flatMap, List.mem_map]
  refine ⟨_, h.mem_classes .d0, _, h.mem_classes .d1, _, h.mem_classes .s0, _, h.mem_classes .s1,
    _, h.mem_classes .s2, _, h.mem_classes .s3, ?_⟩
  funext p
  cases p <;> rfl

/-- What is known about the operands an entry of the decoder's tables describes. -/
def of (L : VecWidth) (f : DecForm) : Facts where
  d0 := (f.dsts[0]?.map (OpType.classes L)).getD [.absent]
  d1 := (f.dsts[1]?.map (OpType.classes L)).getD [.absent]
  s0 := (f.srcs[0]?.map (OpType.classes L)).getD [.absent]
  s1 := (f.srcs[1]?.map (OpType.classes L)).getD [.absent]
  s2 := (f.srcs[2]?.map (OpType.classes L)).getD [.absent]
  s3 := (f.srcs[3]?.map (OpType.classes L)).getD [.absent]
  answers := []

end Facts

/-- The questions of the handlers, and what is learnt from their answers. -/
def surveying : Learning (Context × AppInstr) Query Facts where
  answer x := Query.answer x.1 x.2
  learn := Facts.learn
  Sat F x := F.Sat x.1 x.2
  exists_learn q h := h.exists_learn q

/-! ## The visit -/

/-- A choice from each of a list of lists has at every place an element of the list there. -/
theorem getD_mem_of_mem_sections {os : List Opnd} {L : VecWidth} {ts : List OpType}
    (h : os.map Opnd.cls ∈ (ts.map (OpType.classes L)).sections) (n : ℕ) :
    (os[n]?.map Opnd.cls).getD .absent ∈ (ts[n]?.map (OpType.classes L)).getD [.absent] := by
  rw [List.mem_sections] at h
  simp only [List.forall₂_map_left_iff, List.forall₂_map_right_iff] at h
  induction h generalizing n with
  | nil => simp
  | cons hmem _ ih =>
    cases n with
    | zero => simpa using hmem
    | succ n => simpa using ih n

theorem Facts.sat_of {i : AppInstr} {L : VecWidth} {f : DecForm} (c : Context)
    (h : i.classes ∈ (f.dsts.map (OpType.classes L)).sections ×ˢ
      (f.srcs.map (OpType.classes L)).sections) : (Facts.of L f).Sat c i := by
  obtain ⟨hdsts, hsrcs⟩ := List.pair_mem_product.mp h
  refine ⟨fun p ↦ ?_, List.forall_mem_nil _⟩
  cases p with
  | d0 => exact getD_mem_of_mem_sections hdsts 0
  | d1 => exact getD_mem_of_mem_sections hdsts 1
  | s0 => exact getD_mem_of_mem_sections hsrcs 0
  | s1 => exact getD_mem_of_mem_sections hsrcs 1
  | s2 => exact getD_mem_of_mem_sections hsrcs 2
  | s3 => exact getD_mem_of_mem_sections hsrcs 3

/-- The decoder delivers ordinary operands only. -/
theorem OpType.ordinary_of_mem {t : OpType} {L : VecWidth} {c : OpndClass} (h : c ∈ t.classes L) :
    c.ordinary = true := by
  have hall : ∀ c ∈ t.classes L, c.ordinary = true := by
    cases t <;> simp [classes, vecClasses, memClasses, OpndClass.ordinary]
  exact hall c h

namespace RwFunc

/-- The handlers, in the order of their opcodes. -/
def all : List RwFunc := (List.range 160).map ofNat

theorem mem_all (h : RwFunc) : h ∈ all := by
  have hlt : h.ctorIdx < 160 := by cases h <;> decide
  exact List.mem_map.mpr ⟨h.ctorIdx, List.mem_range.mpr hlt, ofNat_ctorIdx h⟩

/-- What holds of every handler may be shown for one part of the list after the other.  The parts are
about equally hard for the decisions that visit all leaves. -/
theorem forall_mem_all {P : RwFunc → Prop} (h₁ : ∀ h ∈ all.take 120, P h)
    (h₂ : ∀ h ∈ (all.drop 120).take 10, P h) (h₃ : ∀ h ∈ (all.drop 130).take 10, P h)
    (h₄ : ∀ h ∈ all.drop 140, P h) : ∀ h ∈ all, P h := by
  have split (n m : ℕ) : all.drop n = (all.drop n).take m ++ all.drop (n + m) := by
    rw [← List.drop_drop, List.take_append_drop]
  intro h hh
  rw [← List.drop_zero (l := all), split 0 120, split 120 10, split 130 10] at hh
  simp only [List.mem_append] at hh
  obtain hh | hh | hh | hh := hh
  · exact h₁ h hh
  · exact h₂ h hh
  · exact h₃ h hh
  · exact h₄ h hh

/-- Does the test hold at every leaf that an instruction may lead to? -/
def check (test : Facts → Leaf → Bool) (h : RwFunc) : Bool :=
  h.forms.all fun f ↦ f.lens.all fun L ↦ h.gen.check surveying test (.of L f)

variable {h : RwFunc} {i : AppInstr}

/-- The leaf an instruction leads to has been visited. -/
theorem exists_facts {test : Facts → Leaf → Bool} (hcheck : h.check test = true)
    (hi : h.Decodes i) (c : Context) :
    ∃ F : Facts, F.Sat c i ∧ test F (h.gen.eval (Query.answer c i)) = true := by
  obtain ⟨f, hf, hclasses⟩ := hi
  obtain ⟨L, hL, hmem⟩ := List.mem_flatMap.mp hclasses
  have hleaf := List.all_eq_true.mp (List.all_eq_true.mp hcheck f hf) L hL
  exact Tree.exists_of_check (x := (c, i)) hleaf (Facts.sat_of c hmem)

theorem Decodes.ordinary (hi : h.Decodes i) (p : Pos) : (i.cls p).ordinary = true := by
  obtain ⟨f, -, hclasses⟩ := hi
  obtain ⟨L, -, hmem⟩ := List.mem_flatMap.mp hclasses
  obtain ⟨hdsts, hsrcs⟩ := List.pair_mem_product.mp hmem
  have hany {os : List Opnd} {ts : List OpType}
      (h : os.map Opnd.cls ∈ (ts.map (OpType.classes L)).sections) (n : ℕ) :
      ((os[n]?.map Opnd.cls).getD .absent).ordinary = true := by
    have hn := getD_mem_of_mem_sections h n
    cases ht : ts[n]? with
    | none =>
      rw [ht, Option.map_none, Option.getD_none, List.mem_singleton] at hn
      rw [hn]
      rfl
    | some t =>
      rw [ht, Option.map_some, Option.getD_some] at hn
      exact OpType.ordinary_of_mem hn
  cases p with
  | d0 => exact hany hdsts 0
  | d1 => exact hany hdsts 1
  | s0 => exact hany hsrcs 0
  | s1 => exact hany hsrcs 1
  | s2 => exact hany hsrcs 2
  | s3 => exact hany hsrcs 3

end RwFunc

/-! ## Chains -/

/-- A chain comes from a template. -/
theorem Leaf.exists_template_of_run {l : Leaf} {i : AppInstr} {n : ℕ} {linked : Bool}
    {code : List Insn} (h : l.run i = .chain n linked code) :
    ∃ T e, l = .chain n linked T ∧ T.env? i = some e ∧ code = T.body.map (TInsn.inst e) := by
  cases l with
  | abort => cases h
  | null m => cases h
  | chain m linked' T =>
    rw [run, Template.emit] at h
    cases he : T.env? i with
    | none => rw [he] at h; cases h
    | some e =>
      rw [he] at h
      cases h
      exact ⟨T, e, rfl, he, rfl⟩

/-! ## Conditions -/

section Conditions

/-- The answer is yes. -/
def is (q : Query) : Query × Bool := (q, true)

/-- The answer is no. -/
def isnt (q : Query) : Query × Bool := (q, false)

/-- The operand is memory. -/
def mem (p : Pos) : Query := .test p .isMem

/-- The operand is memory with a base, an index and a displacement. -/
def based (p : Pos) : Query := .test p (.isKind .baseDisp)

/-- The operand is memory at an address relative to the instruction. -/
def relative (p : Pos) : Query := .test p (.isKind .relAddr)

/-- The operand is a vector register of the given width. -/
def vec (w : VecWidth) (p : Pos) : Query := .test p (.isVec w)

/-- The operand is one of the upper sixteen vector registers, of the given width. -/
def upper (w : VecWidth) (p : Pos) : Query := .test p (.needSpill w)

/-- The mask is `k0`, that is, the instruction is not masked. -/
def unmasked : Query := .isK .s0 0

/-- The instruction is of the kind described by one of the cubes. -/
def AppInstr.Matches (c : Context) (i : AppInstr) (cubes : List (Cube Query)) : Prop :=
  ∃ cube ∈ cubes, cube.holds (Query.answer c i) = true

instance (c : Context) (i : AppInstr) (cubes : List (Cube Query)) : Decidable (i.Matches c cubes) :=
  inferInstanceAs (Decidable (∃ cube ∈ cubes, _))

variable {cubes : List (Cube Query)} {F : Facts} {c : Context} {i : AppInstr}

/-- Where the facts decide about the cubes, they decide about the instruction. -/
theorem matches_iff_of_settles {b : Bool} (h : settles surveying cubes F b = true)
    (hF : F.Sat c i) : i.Matches c cubes ↔ b = false := by
  have hiff : b = true ↔ ¬i.Matches c cubes := iff_of_settles (x := (c, i)) h hF
  rw [← Bool.not_eq_true, hiff, not_not]

/-- An instruction of which the facts imply one of the cubes. -/
theorem matches_of_settles (h : settles surveying cubes F false = true) (hF : F.Sat c i) :
    i.Matches c cubes :=
  (matches_iff_of_settles h hF).mpr rfl

/-- An instruction of which the facts exclude all the cubes. -/
theorem not_matches_of_settles (h : settles surveying cubes F true = true) (hF : F.Sat c i) :
    ¬i.Matches c cubes :=
  fun hmatches ↦ Bool.false_ne_true ((matches_iff_of_settles h hF).mp hmatches).symm

end Conditions

end DrAvx
