import Mathlib.Order.Lattice
import DrAvx.InstrList.Basic

/-!
# The rewriting driver

`exec_rewrite_avx512_bb` walks the instruction list of a block and calls, on every instruction the
block builder has flagged, the handler its opcode selects.  The handler unlinks the instruction and
returns a chain of replacements, which the driver splices in where the instruction was.  The list is
mutated while it is walked: the successor of the current instruction is read *before* the handler
runs, and the predecessor too, since afterwards the instruction is gone.

`Conforming` is the contract the driver relies on.  `execRewriteAvx512Bb_spec` says that with
conforming handlers the driver terminates on every well-formed list, that the outcome is the
original sequence with every flagged instruction replaced in place, and that the handlers are called
on exactly the flagged instructions, in order.  The invariant of the walk is `rewriteLoop_spec`: the
list is always the part already rewritten followed by the untouched rest of the original.

A handler destroys the instruction it unlinks, and the allocator may hand the same address out again
for the replacement, so a chain only has to avoid the instructions that are still in the list.
-/

set_option autoImplicit false

namespace DrAvx

open Linked Mem

variable {ω : Type}

/-! ## Handlers -/

/-- An entry of `rewrite_funcs`: called with the list, an instruction of it and the translation of
that instruction, it returns the head of a chain, or null. -/
abbrev Handler (ω : Type) := Mem ω → Ptr → Option ℕ → Mem ω × Option Ptr

/-- `OP_vmovss`, the opcode of the first entry of `rewrite_funcs`. -/
def opVmovss : ℤ := 636

/-- `OP_vmovdqu`. -/
def opVmovdqu : ℤ := 792

/-- `TO_AVX512_RWFUNC_INDEX`. -/
def toAvx512RwfuncIndex (opcode : ℤ) : ℤ := opcode - opVmovss

/-- The handler turned `m` into `m'` by unlinking `p` from between `pre` and `post` and building
`chain`; it left the other instructions of the list where they were. -/
structure Unlinks (m m' : Mem ω) (pre post : List Ptr) (p : Ptr) (chain : List Ptr) : Prop where
  links : ∀ q ∈ pre ++ post, m'.links.next q = (instrlistRemove m p).links.next q ∧
    m'.links.prev q = (instrlistRemove m p).links.prev q
  first : m'.ilist.first = (instrlistRemove m p).ilist.first
  last : m'.ilist.last = (instrlistRemove m p).ilist.last
  needSpillSimd : m'.ilist.needSpillSimd = m.ilist.needSpillSimd
  instr : ∀ q ∈ pre ++ post, SameInstr m m' q
  chain : IsChain m' chain (pre ++ post)

/-- The contract between the driver and a handler. -/
def Conforming (h : Handler ω) : Prop :=
  ∀ (m : Mem ω) (pre post : List Ptr) (p : Ptr) (translation : Option ℕ),
    m.IsList (pre ++ p :: post) →
      ∃ chain, Unlinks m (h m p translation).1 pre post p chain ∧
        (h m p translation).2 = chain.head?

theorem Unlinks.isList {m m' : Mem ω} {pre post chain : List Ptr} {p : Ptr}
    (h : Unlinks m m' pre post p chain) (hl : m.IsList (pre ++ p :: post)) :
    m'.IsList (pre ++ post) := by
  have hrem := isList_instrlistRemove hl
  refine ⟨⟨?_, ?_, hrem.linked.seg.congr h.links, hrem.linked.nodup⟩, ?_⟩
  · rw [h.first, hrem.linked.first_eq]
  · rw [h.last, hrem.linked.last_eq]
  · rw [h.needSpillSimd, hl.needSpillSimd]

/-! ## The walk -/

/-- A call of a handler: the state it was called in and the instruction it was called on. -/
structure Call (ω : Type) where
  mem : Mem ω
  instr : Ptr

/-- The variables of the driver's loop, with the calls made so far. -/
structure Loop (ω : Type) where
  mem : Mem ω
  /-- `first_avx512_instr_prev`. -/
  firstPrev : Option Ptr
  /-- `last_avx512_instr_next`. -/
  lastNext : Option Ptr
  calls : List (Call ω)

/-- The loop over the instructions of the block. -/
def rewriteLoop (rewriteFuncs : ℤ → Handler ω) : ℕ → Option Ptr → Loop ω → Except Fault (Loop ω)
  | 0, _, _ => .error .outOfFuel
  | _ + 1, none, st => .ok st
  | fuel + 1, some instr, st =>
    let node := st.mem.node instr
    if node.isAvx512Instr then do
      let r := rewriteFuncs (toAvx512RwfuncIndex node.opcode) st.mem instr node.translation
      let mem ← instrlistPostinsert fuel r.1 node.prev r.2
      rewriteLoop rewriteFuncs fuel node.next
        { mem := mem, firstPrev := st.firstPrev.or node.prev, lastNext := node.next,
          calls := st.calls ++ [⟨st.mem, instr⟩] }
    else rewriteLoop rewriteFuncs fuel node.next st

/-- `save_simd_to_tls` and `restore_simd_from_tls` put one move for each of `ymm0` to `ymm15` in
front of `loc`. -/
def preinsertSimdMoves (fuel : ℕ) (m : Mem ω) (loc : Option Ptr) : Except Fault (Mem ω) :=
  (List.range 16).foldlM
    (fun m _ ↦
      let node : Node := { prev := none, next := none, isAvx512Instr := false,
                           opcode := opVmovdqu, translation := none, ourMangling := false }
      let m' := { m with node := Function.update m.node m.fresh node, fresh := m.fresh + 1 }
      instrlistPreinsert fuel m' loc m.fresh)
    m

/-- `exec_rewrite_avx512_bb`, with the calls it makes. -/
def execRewriteAvx512Bb (rewriteFuncs : ℤ → Handler ω) (fuel : ℕ) (m : Mem ω) :
    Except Fault (Mem ω × List (Call ω)) := do
  let st ← rewriteLoop rewriteFuncs fuel m.ilist.first
    { mem := m, firstPrev := none, lastNext := none, calls := [] }
  if st.mem.ilist.needSpillSimd then
    match st.firstPrev with
    | none => throw .nullDeref
    | some p =>
      let mem ← preinsertSimdMoves fuel st.mem (st.mem.node p).next
      let mem ← preinsertSimdMoves fuel mem st.lastNext
      return (mem, st.calls)
  else return (st.mem, st.calls)

/-! ## What the walk does -/

/-- The instructions that stand for `p` after the rewriting, if `chains` are the replacements. -/
def replacement (m : Mem ω) (chains : Ptr → List Ptr) (p : Ptr) : List Ptr :=
  if (m.node p).isAvx512Instr then chains p else [p]

/-- The handler of `p`, called in the state of the call, returned the head of `chain`. -/
def Call.Returned (rewriteFuncs : ℤ → Handler ω) (c : Call ω) (chain : List Ptr) : Prop :=
  let node := c.mem.node c.instr
  let r := rewriteFuncs (toAvx512RwfuncIndex node.opcode) c.mem c.instr node.translation
  r.2 = chain.head? ∧ chain ≠ [] ∧ Seg r.1.links none chain none

/-- The outcome of the walk over `rest`, when `done` is already behind it.  Every call was made on an
instruction of `rest`, at a moment when the list was the rewritten part followed by the original
rest. -/
structure Walked (rewriteFuncs : ℤ → Handler ω) (m m' : Mem ω) (done rest : List Ptr)
    (calls : List (Call ω)) (chains : Ptr → List Ptr) : Prop where
  isList : m'.IsList (done ++ rest.flatMap (replacement m chains))
  instrs : calls.map Call.instr = rest.filter fun p ↦ (m.node p).isAvx512Instr
  returned : ∀ c ∈ calls, c.Returned rewriteFuncs (chains c.instr)
  current : ∀ c ∈ calls, ∃ pre post, rest = pre ++ c.instr :: post ∧
    c.mem.IsList (done ++ pre.flatMap (replacement m chains) ++ c.instr :: post)

theorem replacement_congr {m m' : Mem ω} {chains chains' : Ptr → List Ptr} {l : List Ptr}
    (hm : ∀ p ∈ l, SameInstr m m' p) (hc : ∀ p ∈ l, chains' p = chains p) :
    l.flatMap (replacement m' chains') = l.flatMap (replacement m chains) := by
  refine List.flatMap_congr fun p hp ↦ ?_
  rw [replacement, replacement, (hm p hp).1, hc p hp]

section Walk

variable {rewriteFuncs : ℤ → Handler ω} {m m' : Mem ω} {done rest : List Ptr} {p : Ptr}
  {calls : List (Call ω)} {chains : Ptr → List Ptr}

theorem Walked.nil (h : m.IsList done) : Walked rewriteFuncs m m done [] [] chains :=
  ⟨by simpa using h, rfl, by simp, by simp⟩

/-- An instruction that is not flagged stays. -/
theorem Walked.skip (hp : (m.node p).isAvx512Instr = false)
    (h : Walked rewriteFuncs m m' (done ++ [p]) rest calls chains) :
    Walked rewriteFuncs m m' done (p :: rest) calls chains := by
  have hrep : ∀ l, (p :: l).flatMap (replacement m chains) =
      [p] ++ l.flatMap (replacement m chains) := by
    intro l
    rw [List.flatMap_cons, replacement, if_neg (by simp [hp])]
  refine ⟨?_, ?_, h.returned, fun c hc ↦ ?_⟩
  · rw [hrep, ← List.append_assoc]
    exact h.isList
  · rw [h.instrs, List.filter_cons_of_neg (by simp [hp])]
  · obtain ⟨pre, post, hrest, hlist⟩ := h.current c hc
    refine ⟨p :: pre, post, by simp [hrest], ?_⟩
    rw [hrep, ← List.append_assoc]
    exact hlist

/-- A flagged instruction is replaced by the chain of its call. -/
theorem Walked.call {m₁ : Mem ω} {chain : List Ptr} (hp : (m.node p).isAvx512Instr = true)
    (hl : m.IsList (done ++ p :: rest)) (hm : ∀ q ∈ rest, SameInstr m m₁ q)
    (hret : Call.Returned rewriteFuncs ⟨m, p⟩ chain)
    (h : Walked rewriteFuncs m₁ m' (done ++ chain) rest calls chains) :
    Walked rewriteFuncs m m' done (p :: rest) (⟨m, p⟩ :: calls)
      (Function.update chains p chain) := by
  have hprest : p ∉ rest := by
    have := (List.nodup_append'.1 hl.linked.nodup).2.1
    exact (List.nodup_cons.1 this).1
  have hupd : ∀ {q}, q ∈ rest → Function.update chains p chain q = chains q := fun hq ↦
    Function.update_of_ne (ne_of_mem_of_not_mem hq hprest) _ _
  -- on the rest of the list, nothing distinguishes the two memories or the two chain maps
  have hrep : ∀ l, (∀ q ∈ l, q ∈ rest) →
      (p :: l).flatMap (replacement m (Function.update chains p chain)) =
        chain ++ l.flatMap (replacement m₁ chains) := by
    intro l hsub
    rw [List.flatMap_cons, replacement, if_pos hp, Function.update_self]
    congr 1
    exact (replacement_congr (fun q hq ↦ hm q (hsub q hq)) fun q hq ↦ (hupd (hsub q hq)).symm).symm
  have hmem : ∀ {c}, c ∈ calls → c.instr ∈ rest := by
    intro c hc
    obtain ⟨pre, post, hrest, -⟩ := h.current c hc
    simp [hrest]
  refine ⟨?_, ?_, ?_, ?_⟩
  · rw [hrep rest fun _ hq ↦ hq, ← List.append_assoc]
    exact h.isList
  · rw [List.map_cons, h.instrs, List.filter_cons_of_pos (by simp [hp])]
    exact congrArg _ (List.filter_congr fun q hq ↦ by rw [(hm q hq).1])
  · intro c hc
    rcases List.mem_cons.1 hc with rfl | hc
    · simpa using hret
    · rw [hupd (hmem hc)]
      exact h.returned c hc
  · intro c hc
    rcases List.mem_cons.1 hc with rfl | hc
    · exact ⟨[], rest, rfl, by simpa using hl⟩
    · obtain ⟨pre, post, hrest, hlist⟩ := h.current c hc
      refine ⟨p :: pre, post, by simp [hrest], ?_⟩
      rw [hrep pre fun q hq ↦ by simp [hrest, hq], ← List.append_assoc]
      exact hlist

end Walk

/-- **The walk over the rest of a block.**  By induction on the part of the original list that is
still ahead. -/
theorem rewriteLoop_spec {rewriteFuncs : ℤ → Handler ω} : ∀ {rest done : List Ptr} {st : Loop ω},
    st.mem.IsList (done ++ rest) →
    (∀ p ∈ rest, (st.mem.node p).isAvx512Instr = true →
      Conforming (rewriteFuncs (toAvx512RwfuncIndex (st.mem.node p).opcode))) →
    ∃ st' calls chains, (∃ N, ∀ n, N ≤ n → rewriteLoop rewriteFuncs n rest.head? st = .ok st') ∧
      st'.calls = st.calls ++ calls ∧ Walked rewriteFuncs st.mem st'.mem done rest calls chains
  | [], done, st, hl, _ => by
    refine ⟨st, [], fun _ ↦ [], ⟨1, fun n hn ↦ ?_⟩, by simp, Walked.nil (by simpa using hl)⟩
    obtain ⟨n, rfl⟩ : ∃ k, n = k + 1 := ⟨n - 1, by omega⟩
    rfl
  | p :: rest, done, st, hl, hconf => by
    obtain ⟨hprev, hnext⟩ := hl.node_links
    cases hp : (st.mem.node p).isAvx512Instr with
    | false =>
      have hl' : st.mem.IsList ((done ++ [p]) ++ rest) := by simpa using hl
      obtain ⟨st', calls, chains, ⟨N, hN⟩, hcalls, hw⟩ :=
        rewriteLoop_spec hl' fun q hq ↦ hconf q (List.mem_cons_of_mem _ hq)
      refine ⟨st', calls, chains, ⟨N + 1, fun n hn ↦ ?_⟩, hcalls, hw.skip hp⟩
      obtain ⟨n, rfl⟩ : ∃ k, n = k + 1 := ⟨n - 1, by omega⟩
      rw [← hN n (by omega), List.head?_cons, rewriteLoop]
      simp [hp, hnext]
    | true =>
      obtain ⟨chain, hun, hret⟩ := hconf p (by simp) hp st.mem done rest p
        (st.mem.node p).translation hl
      set r := rewriteFuncs (toAvx512RwfuncIndex (st.mem.node p).opcode) st.mem p
        (st.mem.node p).translation with hr
      obtain ⟨m₁, hpost, hl₁, hsame⟩ := instrlistPostinsert_spec (hun.isList hl) hun.chain
      have hm : ∀ q ∈ rest, SameInstr st.mem m₁ q := fun q hq ↦
        (hun.instr q (by simp [hq])).trans (hsame q)
      -- the walk goes on from the successor that was read before the handler ran
      let st₁ : Loop ω := ⟨m₁, st.firstPrev.or done.getLast?, rest.head?,
        st.calls ++ [⟨st.mem, p⟩]⟩
      have hconf₁ : ∀ q ∈ rest, (st₁.mem.node q).isAvx512Instr = true →
          Conforming (rewriteFuncs (toAvx512RwfuncIndex (st₁.mem.node q).opcode)) := by
        intro q hq hflag
        have h := hconf q (List.mem_cons_of_mem _ hq)
        rw [← (hm q hq).1, ← (hm q hq).2] at h
        exact h hflag
      have hl₁' : st₁.mem.IsList ((done ++ chain) ++ rest) := hl₁
      obtain ⟨st', calls, chains, ⟨N, hN⟩, hcalls, hw⟩ := rewriteLoop_spec hl₁' hconf₁
      refine ⟨st', ⟨st.mem, p⟩ :: calls, Function.update chains p chain,
        ⟨max N chain.length + 1, fun n hn ↦ ?_⟩, by simp [hcalls, st₁], ?_⟩
      · obtain ⟨n, rfl⟩ : ∃ k, n = k + 1 := ⟨n - 1, by omega⟩
        rw [← hN n (by omega), List.head?_cons, rewriteLoop]
        simp only [hp, if_true, ← hr, hret, hprev, hnext, hpost n (by omega), bind, Except.bind, st₁]
      · exact Walked.call hp hl hm ⟨hret, hun.chain.ne_nil, hun.chain.seg⟩ hw

/-- **The driver rewrites a block.**  On every well-formed list whose flagged instructions have
conforming handlers, the driver terminates with a well-formed list: the original sequence, each
flagged instruction replaced in place by the chain its handler returned.  The handlers are called on
the originally flagged instructions, in order and once each, and each of them while it is still an
instruction of the original list, behind everything that has been spliced in. -/
theorem execRewriteAvx512Bb_spec {rewriteFuncs : ℤ → Handler ω} {m : Mem ω} {l : List Ptr}
    (hl : m.IsList l)
    (hconf : ∀ p ∈ l, (m.node p).isAvx512Instr = true →
      Conforming (rewriteFuncs (toAvx512RwfuncIndex (m.node p).opcode))) :
    ∃ m' calls chains,
      (∃ N, ∀ fuel, N ≤ fuel → execRewriteAvx512Bb rewriteFuncs fuel m = .ok (m', calls)) ∧
      m'.IsList (l.flatMap (replacement m chains)) ∧
      (calls.map Call.instr = l.filter fun p ↦ (m.node p).isAvx512Instr) ∧
      ∀ c ∈ calls, c.Returned rewriteFuncs (chains c.instr) ∧
        ∃ pre post, l = pre ++ c.instr :: post ∧
          c.mem.IsList (pre.flatMap (replacement m chains) ++ c.instr :: post) := by
  have hl₀ : (Loop.mk m none none []).mem.IsList ([] ++ l) := hl
  obtain ⟨st', calls, chains, ⟨N, hN⟩, hcalls, hw⟩ := rewriteLoop_spec hl₀ hconf
  refine ⟨st'.mem, calls, chains, ⟨N, fun fuel hfuel ↦ ?_⟩, by simpa using hw.isList, hw.instrs,
    fun c hc ↦ ⟨hw.returned c hc, by simpa using hw.current c hc⟩⟩
  have hfirst : m.ilist.first = l.head? := hl.linked.first_eq
  have hspill : st'.mem.ilist.needSpillSimd = false := hw.isList.needSpillSimd
  simp only [execRewriteAvx512Bb, hfirst, hN fuel hfuel, hspill, bind, Except.bind, pure,
    Except.pure, Bool.false_eq_true, if_false]
  simp [show st'.calls = calls by simpa using hcalls]

/-! A handler may hand back the very address it was called on, as the allocator does when it reuses a
destroyed instruction. -/

theorem instrlistRemove_needSpillSimd (m : Mem ω) (p : Ptr) :
    (instrlistRemove m p).ilist.needSpillSimd = m.ilist.needSpillSimd := by
  show ((m.linkNext _ _).linkPrev _ _).ilist.needSpillSimd = _
  rw [linkPrev_needSpillSimd, linkNext_needSpillSimd]

theorem sameInstr_instrlistRemove (m : Mem ω) (p q : Ptr) :
    SameInstr m (instrlistRemove m p) q :=
  (((sameInstr_linkNext _ _ _ q).trans (sameInstr_linkPrev _ _ _ q)).trans
    (sameInstr_linkPrev _ (some p) none q)).trans (sameInstr_linkNext _ (some p) none q)

theorem conforming_instrlistRemove :
    Conforming fun (m : Mem ω) p _ ↦ (instrlistRemove m p, some p) := by
  intro m pre post p _ hl
  have hp : p ∉ pre ++ post := (List.nodup_cons.1 (List.nodup_middle.1 hl.linked.nodup)).1
  refine ⟨[p], ⟨fun _ _ ↦ ⟨rfl, rfl⟩, rfl, rfl, instrlistRemove_needSpillSimd m p,
    fun q _ ↦ sameInstr_instrlistRemove m p q, ?_⟩, rfl⟩
  refine ⟨by simp, ⟨?_, ?_, trivial⟩, List.nodup_singleton p, by simpa using hp⟩
  · simp [instrlistRemove, Mem.links, instrSetNext, instrSetPrev]
  · simp [instrlistRemove, Mem.links, instrSetNext, instrSetPrev]

/-- A block of three instructions at the addresses 1, 2 and 3, the first two of them flagged. -/
def threeInstrs : Mem Unit where
  node p := { prev := if p = 1 then none else some (p - 1), next := if p = 3 then none else some (p + 1),
              isAvx512Instr := decide (p < 3), opcode := opVmovss, translation := none,
              ourMangling := false }
  ilist := { instrlistInit with first := some 1, last := some 3 }
  fresh := 4
  dcontext := ()

theorem threeInstrs_isList : threeInstrs.IsList [1, 2, 3] :=
  ⟨⟨rfl, rfl, by simp [Seg, threeInstrs, Mem.links], by decide⟩, rfl⟩

theorem execRewriteAvx512Bb_threeInstrs :
    ∃ m' calls chains,
      (∃ N, ∀ fuel, N ≤ fuel →
        execRewriteAvx512Bb (fun _ m p _ ↦ (instrlistRemove m p, some p)) fuel threeInstrs =
          .ok (m', calls)) ∧
      m'.IsList ([1, 2, 3].flatMap (replacement threeInstrs chains)) ∧
      (calls.map Call.instr = [1, 2, 3].filter fun p ↦ (threeInstrs.node p).isAvx512Instr) ∧
      ∀ c ∈ calls, c.Returned (fun _ m p _ ↦ (instrlistRemove m p, some p)) (chains c.instr) ∧
        ∃ pre post, [1, 2, 3] = pre ++ c.instr :: post ∧
          c.mem.IsList (pre.flatMap (replacement threeInstrs chains) ++ c.instr :: post) :=
  execRewriteAvx512Bb_spec threeInstrs_isList fun _ _ _ ↦ conforming_instrlistRemove

end DrAvx
