import DrAvx.Cachesim.Hierarchy

/-!
# The steps of a hierarchy

Whatever is done with a hierarchy is a sequence of small steps, each of which changes one cache, the
filter or the log (`Micro`).  The steps are indexed by the caches that may be accessed, the caches
that may lose lines and the caches that may be flushed: a request accesses the caches from the one it
is made at up to the root, and all other caches only lose lines.  This is what the caller of a
function knows about the cache it works on: `Steps.device_eq` and `Steps.drops`.

An invariant of a cache is kept by everything if it is kept by every small step.

## What is here

* the tree: `Hierarchy.path` and the lemmas about caches below two others;
* `Micro`, `Steps` and what they leave as it is;
* `steps_invalidate`, `steps_snoop`, `steps_propagateWrite`, `steps_propagateEviction`,
  `steps_requestFrom`, `steps_flushFrom`: what the functions do.
-/

set_option autoImplicit false

namespace DrAvx.Cachesim

variable {ι : Type} {n : ℕ}

/-! ## The trees -/

namespace Hierarchy

variable (H : Hierarchy ι n)

/-- The caches from `c` up to the root. -/
def path (c : ι) : List ι := c :: H.above c

variable {H} {c d e p k r : ι}

theorem above_suffix (h : d ∈ H.above c) : H.path d <:+ H.above c := by
  obtain ⟨up, hup⟩ : ∃ up, H.above c = up := ⟨_, rfl⟩
  induction up generalizing c with
  | nil =>
    rw [hup] at h
    exact absurd h List.not_mem_nil
  | cons p up ih =>
    have hp := H.above_parent hup
    have hpath : H.above c = H.path p := by rw [hup, path, hp]
    rw [hpath] at h ⊢
    rcases List.mem_cons.1 h with rfl | h
    · exact List.suffix_refl _
    · exact (ih h hp).trans (List.suffix_cons p _)

theorem path_suffix (h : d ∈ H.path c) : H.path d <:+ H.path c := by
  rcases List.mem_cons.1 h with rfl | h
  · exact List.suffix_refl _
  · exact (above_suffix h).trans (List.suffix_cons c _)

theorem mem_path_self (c : ι) : c ∈ H.path c := List.mem_cons_self

theorem not_mem_above_self (c : ι) : c ∉ H.above c := by
  intro h
  have := (above_suffix h).length_le
  rw [path, List.length_cons] at this
  omega

theorem ne_of_not_mem_path (h : c ∉ H.path d) : d ≠ c := fun heq ↦ h (heq ▸ mem_path_self d)

theorem ne_of_mem_above (h : c ∈ H.above d) : d ≠ c := by
  rintro rfl
  exact not_mem_above_self d h

/-- Two caches with as many caches above them are the same if some cache is below both. -/
theorem eq_of_mem_path (hk : k ∈ H.path c) (hr : r ∈ H.path c)
    (hlength : (H.above k).length = (H.above r).length) : k = r := by
  obtain ⟨pre, hpre⟩ := path_suffix hk
  obtain ⟨pre', hpre'⟩ := path_suffix hr
  have heq := List.append_inj_right' (hpre.trans hpre'.symm) (by
    rw [path, path, List.length_cons, List.length_cons, hlength])
  exact (List.cons.inj heq).1

theorem above_of_mem_children (h : k ∈ H.children p) : H.above k = p :: H.above p := by
  have hhead := H.mem_children.1 h
  cases hup : H.above k with
  | nil =>
    rw [hup] at hhead
    exact absurd hhead (by simp)
  | cons q up =>
    rw [hup, List.head?_cons, Option.some_inj] at hhead
    rw [← H.above_parent hup, hhead]

/-- A cache is below one child of another cache only. -/
theorem eq_of_mem_children (hk : k ∈ H.children p) (hr : r ∈ H.children p) (hck : k ∈ H.path c)
    (hcr : r ∈ H.path c) : k = r :=
  eq_of_mem_path hck hcr (by rw [above_of_mem_children hk, above_of_mem_children hr])

theorem mem_above_of_mem_children (hk : k ∈ H.children p) (hck : k ∈ H.path c) : p ∈ H.above c := by
  rcases List.mem_cons.1 hck with rfl | hck
  · rw [above_of_mem_children hk]
    exact List.mem_cons_self
  · refine (above_suffix hck).subset ?_
    rw [path, above_of_mem_children hk]
    exact List.mem_cons_of_mem k List.mem_cons_self

/-- A cache is below one snooped cache at most. -/
theorem eq_of_snooped {i j : Fin n} (hi : H.snooped i ∈ H.path c) (hj : H.snooped j ∈ H.path c) :
    i = j := by
  have hdone : ∀ i j : Fin n, H.path (H.snooped i) <:+ H.path (H.snooped j) → i = j := by
    intro i j hsuffix
    have hmem := hsuffix.subset (mem_path_self (H.snooped i))
    rcases List.mem_cons.1 hmem with heq | habove
    · have h₁ := H.snoopId_eq_some_iff.2 (Eq.refl (H.snooped i))
      rw [heq, H.snoopId_eq_some_iff.2 rfl] at h₁
      exact (Option.some.inj h₁).symm
    · exact absurd habove (H.snooped_apart i j)
  rcases List.suffix_or_suffix_of_suffix (path_suffix hi) (path_suffix hj) with h | h
  · exact hdone i j h
  · exact (hdone j i h).symm

theorem wayToReplace_lt (set : ℕ) (w : World ι n) :
    H.wayToReplace c set w < (H.config c).associativity :=
  Device.getNextWayToReplace_lt _ _ _

@[simp]
theorem device_recordAccessStats (m : Memref) (hit : Bool) (set way : ℕ) (w : World ι n) :
    (H.recordAccessStats c m hit set way w).device = w.device := by
  rw [recordAccessStats]
  generalize (if hit then H.above c else (H.above c).take 1) = ups
  suffices h : ∀ w : World ι n, (ups.foldl (fun w up ↦ w.emit (.childAccess up m hit)) w).device =
      w.device from h _
  intro w
  induction ups generalizing w with
  | nil => rfl
  | cons up ups ih => exact ih _

end Hierarchy

/-! ## Small steps -/

/-- The event is about an access to a cache in `A`, if it is about an access. -/
def Event.Within (A : ι → Prop) : Event ι → Prop
  | .access c .. | .forward c _ | .replace c .. | .fill c .. => A c
  | .childAccess .. | .invalidate .. | .flush .. => True

theorem Event.Within.mono {A A' : ι → Prop} {e : Event ι} (h : e.Within A)
    (hA : ∀ c, A c → A' c) : e.Within A' := by
  cases e with
  | access c m hit set way => exact hA c h
  | forward c m => exact hA c h
  | replace c set way full => exact hA c h
  | fill c set way tag full => exact hA c h
  | childAccess c m hit => exact trivial
  | invalidate c type => exact trivial
  | flush c m => exact trivial

/-- The event says nothing about the blocks of a cache. -/
def Event.Quiet : Event ι → Prop
  | .replace .. | .fill .. => False
  | _ => True

/-- A line is put into a block, and counted if the block was invalid. -/
def Device.load (g : Config) (set way tag : ℕ) (d : Device) : Device :=
  { updateTag g set way tag d with
    loadedBlocks := if d.tag set way = none then d.loadedBlocks + 1 else d.loadedBlocks }

section Steps

variable [DecidableEq ι]

/-- `update_tag` at the end of `insert_tag`, with the count. -/
def Hierarchy.load (H : Hierarchy ι n) (c : ι) (set way tag : ℕ) (w : World ι n) : World ι n :=
  (w.modify c (Device.load (H.config c) set way tag)).emit
    (.fill c set way tag ((w.device c).full (H.config c) set))

/-- The small steps: the caches in `A` are accessed, those in `D` lose lines and those in `F` are
flushed. -/
inductive Micro (H : Hierarchy ι n) (A D F : ι → Prop) : World ι n → World ι n → Prop
  | filter (w : World ι n) (f : SnoopFilter n) : Micro H A D F w { w with filter := f }
  | emit (w : World ι n) (e : Event ι) : e.Within A → e.Quiet → Micro H A D F w (w.emit e)
  | access (w : World ι n) (c : ι) (set way : ℕ) : A c →
      Micro H A D F w (H.accessUpdate c set way w)
  | replace (w : World ι n) (c : ι) (set : ℕ) : A c → Micro H A D F w (H.replaceWhichWay c set w)
  | load (w : World ι n) (c : ι) (set way tag : ℕ) : A c → H.find c tag w = none →
      set = (H.config c).computeSet tag → way < (H.config c).associativity →
      Micro H A D F w (H.load c set way tag w)
  | remember (w : World ι n) (c : ι) (tag way set : ℕ) : A c →
      Micro H A D F w (w.remember c tag way set)
  | drop (w : World ι n) (c : ι) (tag set way : ℕ) : D c → H.find c tag w = some (set, way) →
      Micro H A D F w (H.drop c tag set way w)
  | forget (w : World ι n) (c : ι) : F c →
      Micro H A D F w (w.modify c fun d ↦ { d with lastTag := none })
  | flushTag (w : World ι n) (c : ι) (tag : ℕ) : F c → Micro H A D F w (H.flushTag c w tag)

/-- Any number of small steps. -/
def Steps (H : Hierarchy ι n) (A D F : ι → Prop) : World ι n → World ι n → Prop :=
  Relation.ReflTransGen (Micro H A D F)

variable {H : Hierarchy ι n} {A A' D D' F F' : ι → Prop} {w w' w'' : World ι n} {c : ι}

theorem World.device_modify_self (w : World ι n) (c : ι) (f : Device → Device) :
    (w.modify c f).device c = f (w.device c) :=
  Function.update_self ..

theorem World.device_modify_of_ne (w : World ι n) {c d : ι} (f : Device → Device) (h : d ≠ c) :
    (w.modify c f).device d = w.device d :=
  Function.update_of_ne h ..

theorem World.modify_modify (w : World ι n) (c : ι) (f f' : Device → Device) :
    (w.modify c f).modify c f' = w.modify c (f' ∘ f) := by
  rw [modify, device_modify_self, modify, modify, Function.update_idem]
  rfl

theorem World.modify_congr (w : World ι n) {c : ι} {f f' : Device → Device}
    (h : f (w.device c) = f' (w.device c)) : w.modify c f = w.modify c f' := by
  rw [modify, modify, h]

theorem Steps.refl (w : World ι n) : Steps H A D F w w := Relation.ReflTransGen.refl

theorem Steps.trans (h : Steps H A D F w w') (h' : Steps H A D F w' w'') : Steps H A D F w w'' :=
  Relation.ReflTransGen.trans h h'

theorem Micro.steps (h : Micro H A D F w w') : Steps H A D F w w' := Relation.ReflTransGen.single h

theorem Micro.mono (h : Micro H A D F w w') (hA : ∀ c, A c → A' c) (hD : ∀ c, D c → D' c)
    (hF : ∀ c, F c → F' c) : Micro H A' D' F' w w' := by
  cases h with
  | filter f => exact .filter w f
  | emit e he hq => exact .emit w e (he.mono hA) hq
  | access c set way hc => exact .access w c set way (hA c hc)
  | replace c set hc => exact .replace w c set (hA c hc)
  | load c set way tag hc hfind hset hway => exact .load w c set way tag (hA c hc) hfind hset hway
  | remember c tag way set hc => exact .remember w c tag way set (hA c hc)
  | drop c tag set way hc hfind => exact .drop w c tag set way (hD c hc) hfind
  | forget c hc => exact .forget w c (hF c hc)
  | flushTag c tag hc => exact .flushTag w c tag (hF c hc)

theorem Steps.mono (h : Steps H A D F w w') (hA : ∀ c, A c → A' c) (hD : ∀ c, D c → D' c)
    (hF : ∀ c, F c → F' c) : Steps H A' D' F' w w' :=
  Relation.ReflTransGen.mono (fun _ _ (h : Micro H A D F _ _) ↦ h.mono hA hD hF) _ _ h

theorem steps_foldl {β : Type} {f : World ι n → β → World ι n} {l : List β}
    (h : ∀ x ∈ l, ∀ w, Steps H A D F w (f w x)) (w : World ι n) : Steps H A D F w (l.foldl f w) := by
  induction l generalizing w with
  | nil => exact .refl w
  | cons x l ih =>
    exact (h x List.mem_cons_self w).trans (ih (fun y hy ↦ h y (List.mem_cons_of_mem x hy)) _)

/-- A relation that has the small steps and is closed under composition. -/
structure Covers (H : Hierarchy ι n) (A D F : ι → Prop) (R : World ι n → World ι n → Prop) : Prop where
  refl : ∀ w, R w w
  trans : ∀ {w w' w''}, R w w' → R w' w'' → R w w''
  micro : ∀ {w w'}, Micro H A D F w w' → R w w'

variable {R : World ι n → World ι n → Prop}

theorem Covers.steps (hR : Covers H A D F R)
    (h : Steps H A D F w w') : R w w' := by
  induction h with
  | refl => exact hR.refl w
  | tail _ hstep ih => exact hR.trans ih (hR.micro hstep)

theorem Covers.mono (hR : Covers H A' D' F' R)
    (hA : ∀ c, A c → A' c) (hD : ∀ c, D c → D' c) (hF : ∀ c, F c → F' c) : Covers H A D F R where
  refl := hR.refl
  trans := hR.trans
  micro h := hR.micro (h.mono hA hD hF)

theorem covers_steps : Covers H A D F (Steps H A D F) where
  refl := .refl
  trans := .trans
  micro := Micro.steps

/-! ### Caches that are not accessed -/

/-- A cache loses a line. -/
inductive Device.Drops (g : Config) : Device → Device → Prop
  | mk (d : Device) (tag set way : ℕ) : d.find g tag = some (set, way) →
      Drops g d (d.drop g tag set way)

theorem Micro.drops (h : Micro H A D F w w') (hA : ¬A c) (hF : ¬F c) :
    w'.device c = w.device c ∨
      D c ∧ Device.Drops (H.config c) (w.device c) (w'.device c) := by
  have hne : ∀ d, A d → c ≠ d := fun d hd heq ↦ hA (heq ▸ hd)
  cases h with
  | filter f => exact .inl rfl
  | emit e he hq => exact .inl rfl
  | access d set way hd => exact .inl (World.device_modify_of_ne _ _ (hne d hd))
  | replace d set hd => exact .inl (World.device_modify_of_ne _ _ (hne d hd))
  | load d set way tag hd hfind hset hway =>
    exact .inl (World.device_modify_of_ne _ _ (hne d hd))
  | remember d tag way set hd => exact .inl (World.device_modify_of_ne _ _ (hne d hd))
  | drop d tag set way hd hfind =>
    by_cases hcd : c = d
    · subst hcd
      refine .inr ⟨hd, ?_⟩
      rw [Hierarchy.drop, World.device_modify_self]
      exact .mk _ tag set way hfind
    · exact .inl (World.device_modify_of_ne _ _ hcd)
  | forget d hd => exact .inl (World.device_modify_of_ne _ _ fun heq ↦ hF (heq ▸ hd))
  | flushTag d tag hd =>
    rw [Hierarchy.flushTag]
    split
    · exact .inl rfl
    · exact .inl (World.device_modify_of_ne _ _ fun heq ↦ hF (heq ▸ hd))

/-- A cache that is neither accessed nor flushed loses lines at most. -/
theorem Steps.drops (h : Steps H A D F w w') (hA : ¬A c) (hF : ¬F c) :
    Relation.ReflTransGen (Device.Drops (H.config c)) (w.device c) (w'.device c) := by
  induction h with
  | refl => exact .refl
  | tail _ hstep ih =>
    rcases hstep.drops hA hF with heq | ⟨-, hdrop⟩
    · rwa [heq]
    · exact ih.tail hdrop

theorem Steps.device_eq (h : Steps H A D F w w') (hA : ¬A c) (hD : ¬D c) (hF : ¬F c) :
    w'.device c = w.device c := by
  induction h with
  | refl => rfl
  | tail _ hstep ih =>
    rcases hstep.drops hA hF with heq | ⟨hdrop, -⟩
    · rw [heq, ih]
    · exact absurd hdrop hD

/-- A line that is not there is not there after others are lost. -/
theorem Device.Drops.find_eq_none {g : Config} {d d' : Device} {tag : ℕ} (h : Drops g d d')
    (hfind : d.find g tag = none) : d'.find g tag = none := by
  obtain ⟨tag', set, way, -⟩ := h
  cases hg : g.useTag2blockTable with
  | true =>
    rw [find_of_table hg] at hfind ⊢
    show (if g.useTag2blockTable = true then _ else d.tag2block) tag = none
    rw [if_pos hg]
    split_ifs
    · rfl
    · exact hfind
  | false =>
    rw [find_of_not_table hg, findInSet_eq_none_iff] at hfind ⊢
    intro way' hway' htag
    exact hfind way' hway' (tag_drop_iff.1 htag).2

theorem Steps.find_eq_none (h : Steps H A D F w w') (hA : ¬A c) (hF : ¬F c) {tag : ℕ}
    (hfind : H.find c tag w = none) : H.find c tag w' = none := by
  have hdrops := h.drops hA hF
  rw [Hierarchy.find] at hfind ⊢
  generalize w.device c = d at *
  generalize w'.device c = d' at *
  induction hdrops with
  | refl => exact hfind
  | tail _ hdrop ih => exact hdrop.find_eq_none ih

/-! ## What the functions do -/

theorem steps_emit {e : Event ι} (h : e.Within A) (hq : e.Quiet) (w : World ι n) :
    Steps H A D F w (w.emit e) :=
  (Micro.emit w e h hq).steps

theorem steps_ite {P : Prop} [Decidable P] (h : P → Steps H A D F w w') :
    Steps H A D F w (if P then w' else w) := by
  split_ifs with hP
  · exact h hP
  · exact .refl w

theorem Covers.ite (hR : Covers H A D F R) {P : Prop}
    [Decidable P] (h : P → R w w') : R w (if P then w' else w) := by
  split_ifs with hP
  · exact h hP
  · exact hR.refl w

theorem steps_recordAccessStats (hc : A c) (m : Memref) (hit : Bool) (set way : ℕ)
    (w : World ι n) : Steps H A D F w (H.recordAccessStats c m hit set way w) := by
  have haccess : (Event.access c m hit set way).Within A := hc
  refine (steps_emit haccess trivial w).trans (steps_foldl (fun up _ w ↦ ?_) _)
  have hchild : (Event.childAccess up m hit).Within A := trivial
  exact steps_emit hchild trivial w

theorem steps_invalidateWith {children : World ι n → World ι n} (hc : D c)
    (hchildren : ∀ w, Steps H A D F w (children w)) (tag : ℕ) (type : InvalidationType)
    (w : World ι n) : Steps H A D F w (H.invalidateWith children c tag type w) := by
  refine Steps.trans ?_ (steps_ite fun _ ↦ hchildren _)
  cases hfind : H.find c tag w with
  | none => exact .refl w
  | some r =>
    have hevent : (Event.invalidate c type).Within A := trivial
    exact ((Micro.drop w c tag r.1 r.2 hc hfind).steps.trans (steps_emit hevent trivial _)).trans
      (steps_ite fun _ ↦ hchildren _)

/-- An invalidation takes lines from the cache and those below it. -/
theorem steps_invalidateUpTo {height : ℕ} (hD : ∀ d, c ∈ H.path d → D d) (tag : ℕ)
    (type : InvalidationType) (w : World ι n) :
    Steps H A D F w (H.invalidateUpTo height c tag type w) := by
  induction height generalizing c w with
  | zero => exact steps_invalidateWith (hD c (H.mem_path_self c)) (fun w ↦ .refl w) tag type w
  | succ height ih =>
    refine steps_invalidateWith (hD c (H.mem_path_self c)) (fun w ↦ ?_) tag type w
    refine steps_foldl (fun child hchild w ↦ ih (fun d hd ↦ hD d ?_) w) w
    exact List.mem_cons_of_mem d (H.mem_above_of_mem_children hchild hd)

theorem steps_invalidate (hD : ∀ d, c ∈ H.path d → D d) (tag : ℕ) (type : InvalidationType)
    (w : World ι n) : Steps H A D F w (H.invalidate c tag type w) :=
  steps_invalidateUpTo hD tag type w

/-- A call to the filter by a snooped cache takes no lines from the caches below it. -/
theorem steps_snoop {id : Fin n} (hid : H.snoopId c = some id) (hD : ∀ d, c ∉ H.path d → D d)
    (tag : ℕ) (isWrite : Bool) (w : World ι n) : Steps H A D F w (H.snoop tag id isWrite w) := by
  have hc := H.snoopId_eq_some_iff.1 hid
  refine Steps.trans (steps_foldl (fun i hi w ↦ ?_) w) (Micro.filter _ _).steps
  refine steps_invalidate (fun d hd ↦ hD d fun hcd ↦ ?_) tag .coherence w
  have hne : id ≠ i := by
    rw [SnoopFilter.invalidated] at hi
    split_ifs at hi
    · rw [List.mem_filter, Bool.and_eq_true, decide_eq_true_iff] at hi
      exact hi.2.2
    · exact absurd hi List.not_mem_nil
  rw [← hc] at hcd
  exact hne (H.eq_of_snooped hcd hd)

/-- A call that is not a write takes no lines at all. -/
theorem steps_snoop_read (tag : ℕ) (id : Fin n) (w : World ι n) :
    Steps H A D F w (H.snoop tag id false w) := by
  rw [Hierarchy.snoop, SnoopFilter.invalidated, if_neg (by simp)]
  exact (Micro.filter w _).steps

/-- A write takes no lines from the cache it comes from and the caches below that. -/
theorem steps_propagateWrite {r : ι} {up : List ι} (hup : H.above r = up)
    (hD : ∀ d, r ∉ H.path d → D d) (tag : ℕ) (w : World ι n) :
    Steps H A D F w (H.propagateWrite tag r up w) := by
  induction up generalizing r w with
  | nil => exact .refl w
  | cons p up ih =>
    have hr : r ∈ H.children p := H.mem_children.2 (by rw [hup, List.head?_cons])
    have hp : ∀ d, p ∉ H.path d → D d := fun d hd ↦ hD d fun hrd ↦
      hd (List.mem_cons_of_mem d (H.mem_above_of_mem_children hr hrd))
    have hothers : Steps H A D F w (((H.children p).filter (· ≠ r)).foldl
        (fun w child ↦ H.invalidate child tag .coherence w) w) := by
      refine steps_foldl (fun k hk w ↦ steps_invalidate (fun d hd ↦ hD d fun hrd ↦ ?_) tag _ w) w
      rw [List.mem_filter, decide_eq_true_iff] at hk
      exact hk.2 (H.eq_of_mem_children hk.1 hr hd hrd)
    rw [Hierarchy.propagateWrite]
    refine hothers.trans ?_
    cases hid : H.snoopId p with
    | none => exact ih (H.above_parent hup) hp _
    | some id => exact steps_snoop hid hp tag true _

section Eviction

variable {R : World ι n → World ι n → Prop} {propagate : ℕ → World ι n → World ι n} {up : List ι}

/-- An eviction takes lines from the caches below an inclusive cache; what the parent does is
given. -/
theorem Covers.evict (hR : Covers H A D F R) (hpropagate : ∀ tag w, R w (propagate tag w))
    (hD : (H.config c).isInclusive = true → ∀ d, c ∈ H.above d → D d) (victim : ℕ) (w : World ι n) :
    R w (H.evict propagate c up victim w) := by
  have hchildren : Steps H A D F w (H.evictFromChildren c victim w) := by
    refine steps_ite fun hinc ↦ steps_foldl (fun k hk w ↦ ?_) w
    exact steps_invalidate (fun d hd ↦ hD hinc d (H.mem_above_of_mem_children hk hd)) victim _ w
  have hnotify : ∀ w, Steps H A D F w (H.notifyEviction c up victim w).2 := by
    intro w
    rw [Hierarchy.notifyEviction]
    split_ifs
    · split
      · exact (Micro.filter w _).steps
      · exact .refl w
    · exact .refl w
  refine hR.trans (hR.steps hchildren) (hR.ite fun _ ↦ ?_)
  split_ifs
  · exact hR.refl _
  · exact hR.trans (hR.steps (hnotify _)) (hR.ite fun _ ↦ hpropagate victim _)

theorem steps_snoopInsertion {isWrite : Bool} (hD : isWrite = true → ∀ d, c ∉ H.path d → D d)
    (tag : ℕ) (w : World ι n) : Steps H A D F w (H.snoopInsertion c tag isWrite w) := by
  rw [Hierarchy.snoopInsertion]
  cases hid : H.snoopId c with
  | none => exact .refl w
  | some id =>
    cases isWrite with
    | true => exact steps_snoop hid (hD rfl) tag true w
    | false => exact steps_snoop_read tag id w

/-- The victim of an insertion is evicted, if there is one. -/
def Hierarchy.evictVictim (H : Hierarchy ι n) (propagate : ℕ → World ι n → World ι n) (c : ι)
    (up : List ι) (way set : ℕ) (w : World ι n) : World ι n :=
  match (w.device c).tag set way with
  | none => w
  | some victim => H.evict propagate c up victim w

theorem Covers.evictVictim (hR : Covers H A D F R) (hpropagate : ∀ tag w, R w (propagate tag w))
    (hD : (H.config c).isInclusive = true → ∀ d, c ∈ H.above d → D d) (way set : ℕ)
    (w : World ι n) : R w (H.evictVictim propagate c up way set w) := by
  rw [Hierarchy.evictVictim]
  cases (w.device c).tag set way with
  | none => exact hR.refl w
  | some victim => exact hR.evict hpropagate hD victim w

/-- An insertion makes room and changes the block. -/
theorem insertTag_eq_load (hpropagate : ∀ tag w, Steps H A D F w (propagate tag w))
    (hD : (H.config c).isInclusive = true → ∀ d, c ∈ H.above d → D d) (hAc : ¬A c) (hDc : ¬D c)
    (hFc : ¬F c) (tag : ℕ) (isWrite : Bool) (way set : ℕ) (w : World ι n) :
    H.insertTag propagate c up tag isWrite way set w = H.load c set way tag
      (H.evictVictim propagate c up way set (H.snoopInsertion c tag isWrite w)) := by
  rw [Hierarchy.insertTag, Hierarchy.evictVictim]
  generalize H.snoopInsertion c tag isWrite w = w₁
  cases htag : (w₁.device c).tag set way with
  | none =>
    dsimp only
    rw [Hierarchy.fill, Hierarchy.load, World.device_modify_self, World.modify_modify]
    congr 1
    refine World.modify_congr w₁ ?_
    rw [Device.load, if_pos htag]
    rfl
  | some victim =>
    have hevict : Steps H A D F w₁ (H.evict propagate c up victim w₁) :=
      covers_steps.evict hpropagate hD victim w₁
    have hsame := hevict.device_eq hAc hDc hFc
    dsimp only
    rw [Hierarchy.fill, Hierarchy.load]
    congr 1
    refine World.modify_congr _ ?_
    rw [Device.load, hsame, if_neg (by rw [htag]; simp)]
    rfl

theorem Covers.insertTag {A₀ : ι → Prop} {tag way set : ℕ} {isWrite : Bool} (hR : Covers H A D F R)
    (hsteps : ∀ tag w, Steps H A₀ D F w (propagate tag w))
    (hpropagate : ∀ tag w, R w (propagate tag w))
    (hD₁ : isWrite = true → ∀ d, c ∉ H.path d → D d)
    (hD₂ : (H.config c).isInclusive = true → ∀ d, c ∈ H.above d → D d) (hAc : ¬A₀ c) (hDc : ¬D c)
    (hFc : ¬F c) (hc : A c) (hfind : H.find c tag w = none)
    (hset : set = (H.config c).computeSet tag) (hway : way < (H.config c).associativity) :
    R w (H.insertTag propagate c up tag isWrite way set w) := by
  have hroom : Steps H A₀ D F w
      (H.evictVictim propagate c up way set (H.snoopInsertion c tag isWrite w)) :=
    (steps_snoopInsertion hD₁ tag w).trans (covers_steps.evictVictim hsteps hD₂ way set _)
  have hmicro := Micro.load (D := D) (F := F) _ c set way tag hc (hroom.find_eq_none hAc hFc hfind)
    hset hway
  rw [insertTag_eq_load hsteps hD₂ hAc hDc hFc]
  exact hR.trans (hR.trans (hR.steps (steps_snoopInsertion hD₁ tag w))
    (hR.evictVictim hpropagate hD₂ way set _)) (hR.micro hmicro)

theorem device_replaceWhichWay (set : ℕ) (w : World ι n) :
    (H.replaceWhichWay c set w).device c =
      (w.device c).markReplaced (H.config c) set (H.wayToReplace c set w) :=
  World.device_modify_self ..

theorem find_replaceWhichWay (set tag : ℕ) (w : World ι n) :
    H.find c tag (H.replaceWhichWay c set w) = H.find c tag w := by
  rw [Hierarchy.find, device_replaceWhichWay, Device.markReplaced_eq]
  rfl

/-- A line that a child has evicted is put into an exclusive cache. -/
def Hierarchy.push (H : Hierarchy ι n) (c : ι) (tag : ℕ) (w : World ι n) : World ι n :=
  H.insertTag (H.propagateEviction c (H.above c)) c (H.above c) tag false
    (H.wayToReplace c ((H.config c).computeSet tag) w) ((H.config c).computeSet tag)
    (H.replaceWhichWay c ((H.config c).computeSet tag) w)

/-- What is pushed up the hierarchy is put into a cache above. -/
theorem Covers.propagateEviction (hR : Covers H (fun _ ↦ False) (fun _ ↦ False) (fun _ ↦ False) R)
    {r : ι} (hup : H.above r = up)
    (hpush : ∀ p ∈ up, (H.config p).isExclusive = true → H.children p ≠ [] →
      (∀ tag w, R w (H.propagateEviction p (H.above p) tag w)) →
      ∀ tag w, H.find p tag w = none → R w (H.push p tag w)) (tag : ℕ) (w : World ι n) :
    R w (H.propagateEviction r up tag w) := by
  induction up generalizing r tag w with
  | nil => exact hR.refl w
  | cons p up ih =>
    obtain rfl := H.above_parent hup
    have hr : r ∈ H.children p := H.mem_children.2 (by rw [hup, List.head?_cons])
    have hnext := ih rfl fun q hq ↦ hpush q (List.mem_cons_of_mem p hq)
    rw [Hierarchy.propagateEviction]
    split_ifs with hfind hothers hexclusive
    · exact hR.refl w
    · exact hR.refl w
    · exact hpush p List.mem_cons_self hexclusive (List.ne_nil_of_mem hr) hnext tag w
        (by simpa using hfind)
    · cases hid : H.snoopId p with
      | none => exact hnext tag w
      | some id => exact hR.micro (.filter w _)

/-- The insertion of what a child has evicted. -/
theorem Covers.push {A₀ : ι → Prop} (hR : Covers H A D (fun _ ↦ False) R) (hc : A c) (hA₀ : ¬A₀ c)
    (hexclusive : (H.config c).isExclusive = true)
    (hsteps : ∀ tag w, Steps H A₀ (fun _ ↦ False) (fun _ ↦ False) w
      (H.propagateEviction c (H.above c) tag w))
    (hpropagate : ∀ tag w, R w (H.propagateEviction c (H.above c) tag w)) {tag : ℕ}
    (hfind : H.find c tag w = none) : R w (H.push c tag w) := by
  -- an exclusive cache is not inclusive, and this is not a write
  have hinclusive : (H.config c).isInclusive = true → ∀ d, c ∈ H.above d → False :=
    fun hinc ↦ absurd hinc (Config.not_isInclusive hexclusive)
  have hreplace : H.find c tag (H.replaceWhichWay c ((H.config c).computeSet tag) w) = none := by
    rw [find_replaceWhichWay, hfind]
  have hR' := hR.mono (fun _ h ↦ h) (fun _ h ↦ False.elim h) fun _ h ↦ h
  exact hR.trans (hR.micro (.replace w c _ hc)) (hR'.insertTag hsteps hpropagate
    (fun h ↦ absurd h (by simp)) hinclusive hA₀ (fun h ↦ h) (fun h ↦ h) hc hreplace rfl
    (H.wayToReplace_lt _ w))

theorem steps_propagateEviction {r : ι} (hup : H.above r = up) (hA : ∀ d ∈ up, A d) (tag : ℕ)
    (w : World ι n) : Steps H A D F w (H.propagateEviction r up tag w) := by
  suffices h : ∀ tag w, Steps H (· ∈ up) (fun _ ↦ False) (fun _ ↦ False) w
      (H.propagateEviction r up tag w) from
    (h tag w).mono hA (fun d h ↦ h.elim) fun d h ↦ h.elim
  clear hA tag w
  -- the caches above one of `up` are fewer
  induction hlength : up.length using Nat.strong_induction_on generalizing r up with
  | _ k ih =>
    refine (covers_steps.mono (fun _ h ↦ h.elim) (fun _ h ↦ h) fun _ h ↦ h).propagateEviction hup
      fun p hp hexclusive _ hnext tag w hfind ↦ ?_
    have hfewer : (H.above p).length < k := by
      rw [← hup] at hp
      have := (H.above_suffix hp).length_le
      rwa [hup, hlength] at this
    exact covers_steps.push hp (H.not_mem_above_self p) hexclusive (ih _ hfewer rfl rfl) hnext hfind

end Eviction

/-! ### Requests -/

/-- What a request may do: the caches from the one it is made at up to the root are accessed, and any
cache may lose lines. -/
abbrev RequestSteps (H : Hierarchy ι n) (path : List ι) : World ι n → World ι n → Prop :=
  Steps H (· ∈ path) (fun _ ↦ True) (fun _ ↦ False)

theorem RequestSteps.cons {up : List ι} (h : RequestSteps H up w w') :
    RequestSteps H (c :: up) w w' :=
  h.mono (fun _ hd ↦ List.mem_cons_of_mem c hd) (fun _ h ↦ h) fun _ h ↦ h

section Request

variable {up : List ι} {parentRequest prefetch : Memref → World ι n → World ι n}
  {R : World ι n → World ι n → Prop}

theorem Covers.finish (hR : Covers H A D F R) (hc : A c) (hprefetch : ∀ m w, R w (prefetch m w))
    (tag set way : ℕ) (missed : Bool) (m : Memref) (w : World ι n) :
    R w (H.finish prefetch c tag set way missed m w) :=
  hR.trans (hR.trans (hR.micro (.access w c set way hc)) (hR.ite fun _ ↦ hprefetch m _))
    (hR.micro (.remember _ c tag way set hc))

/-- A write that hits takes no lines from the cache itself. -/
theorem steps_propagateHit (hup : H.above c = up) (tag : ℕ) (m : Memref) (w : World ι n) :
    Steps H A (· ≠ c) F w (H.propagateHit c up tag m w) := by
  have hD : ∀ d, c ∉ H.path d → d ≠ c := fun _ hd ↦ H.ne_of_not_mem_path hd
  refine steps_ite fun _ ↦ ?_
  cases hid : H.snoopId c with
  | none => exact steps_propagateWrite hup hD tag w
  | some id => exact steps_snoop hid hD tag true w

theorem Covers.hitBlock (hR : Covers H A (fun _ ↦ True) F R) (hup : H.above c = up) (hc : A c)
    (hprefetch : ∀ m w, R w (prefetch m w)) (tag set way : ℕ) (m : Memref) (w : World ι n) :
    R w (H.hitBlock prefetch c up tag set way m w).2 := by
  have hhit : R w (H.propagateHit c up tag m (H.recordAccessStats c m true set way w)) :=
    hR.trans (hR.steps (steps_recordAccessStats hc m true set way w))
      (hR.steps ((steps_propagateHit hup tag m _).mono (fun _ h ↦ h) (fun _ _ ↦ trivial)
        fun _ h ↦ h))
  rw [Hierarchy.hitBlock]
  split_ifs
  · exact hR.trans hhit (hR.steps (steps_invalidate (fun _ _ ↦ trivial) tag .exclusive _))
  · exact hR.trans hhit (hR.finish hc hprefetch ..)

/-- A miss up to the request to the parent. -/
def Hierarchy.startMiss (H : Hierarchy ι n) (c : ι) (up : List ι) (set : ℕ) (m : Memref)
    (w : World ι n) : World ι n :=
  let w := H.recordAccessStats c m false set (H.wayToReplace c set w) (H.replaceWhichWay c set w)
  if up.isEmpty then w else w.emit (.forward c m)

theorem askParent_eq (parentRequest : Memref → World ι n → World ι n) (c : ι) (up : List ι)
    (set : ℕ) (m : Memref) (w : World ι n) : H.askParent parentRequest c up set m w =
      if up.isEmpty then H.startMiss c up set m w
      else parentRequest m (H.startMiss c up set m w) := by
  rw [Hierarchy.askParent, Hierarchy.startMiss]
  split_ifs
  · rfl
  · rfl

theorem steps_startMiss (hc : A c) (up : List ι) (set : ℕ) (m : Memref) (w : World ι n) :
    Steps H A D F w (H.startMiss c up set m w) := by
  have hforward : (Event.forward c m).Within A := hc
  have hrecord : Steps H A D F w (H.recordAccessStats c m false set
      (H.wayToReplace c set w) (H.replaceWhichWay c set w)) :=
    (Micro.replace w c set hc).steps.trans (steps_recordAccessStats hc m false set _ _)
  rw [Hierarchy.startMiss]
  split_ifs
  · exact hrecord
  · exact hrecord.trans (steps_emit hforward trivial _)

/-- The parent does the rest. -/
theorem Covers.askParent (hR : Covers H A D F R) (hparent : ∀ m w, R w (parentRequest m w))
    (set : ℕ) (m : Memref) (w : World ι n) :
    R (H.startMiss c up set m w) (H.askParent parentRequest c up set m w) := by
  rw [askParent_eq]
  split_ifs
  · exact hR.refl _
  · exact hparent m _

theorem steps_askParent (hparent : ∀ m w, RequestSteps H up w (parentRequest m w)) (set : ℕ)
    (m : Memref) (w : World ι n) :
    RequestSteps H up (H.startMiss c up set m w) (H.askParent parentRequest c up set m w) :=
  covers_steps.askParent hparent set m w

theorem device_startMiss (up : List ι) (set : ℕ) (m : Memref) (w : World ι n) :
    (H.startMiss c up set m w).device c =
      Device.markReplaced (H.config c) set (H.wayToReplace c set w) (w.device c) := by
  rw [Hierarchy.startMiss]
  split_ifs
  · rw [Hierarchy.device_recordAccessStats]
    exact World.device_modify_self ..
  · show (H.recordAccessStats c m false set _ _).device c = _
    rw [Hierarchy.device_recordAccessStats]
    exact World.device_modify_self ..

theorem find_startMiss (up : List ι) (set tag : ℕ) (m : Memref) (w : World ι n) :
    H.find c tag (H.startMiss c up set m w) = H.find c tag w := by
  rw [Hierarchy.find, device_startMiss, Device.markReplaced_eq]
  rfl

theorem Covers.missBlock (hR : Covers H A (fun _ ↦ True) (fun _ ↦ False) R) (hup : H.above c = up)
    (hc : A c) (hsteps : ∀ m w, RequestSteps H up w (parentRequest m w))
    (hparent : ∀ m w, R w (parentRequest m w))
    (hpropagate : ∀ tag w, R w (H.propagateEviction c up tag w))
    (hprefetch : ∀ m w, R w (prefetch m w)) {tag : ℕ} (m : Memref)
    (hfind : H.find c tag w = none) :
    R w (H.missBlock parentRequest prefetch c up tag m w).2 := by
  have hcup : c ∉ up := by
    rw [← hup]
    exact H.not_mem_above_self c
  have hask := steps_askParent (c := c) hsteps ((H.config c).computeSet tag) m w
  have hnone : H.find c tag (H.askParent parentRequest c up _ m w) = none :=
    hask.find_eq_none hcup (fun h ↦ h) (by rw [find_startMiss, hfind])
  have hmiss := hR.trans (hR.steps (steps_startMiss hc up ((H.config c).computeSet tag) m w))
    (hR.askParent hparent _ m w)
  have hR' : Covers H A (· ≠ c) (fun _ ↦ False) R :=
    hR.mono (fun _ h ↦ h) (fun _ _ ↦ trivial) fun _ h ↦ h
  rw [Hierarchy.missBlock]
  split_ifs
  · exact hmiss
  · refine hR.trans (hR.trans hmiss ?_) (hR.finish hc hprefetch ..)
    exact hR'.insertTag (steps_propagateEviction hup fun d hd ↦ hd) hpropagate
      (fun _ _ hd ↦ H.ne_of_not_mem_path hd) (fun _ _ hd ↦ H.ne_of_mem_above hd) hcup
      (fun h ↦ h rfl) (fun h ↦ h) hc hnone rfl (H.wayToReplace_lt _ w)

theorem Covers.requestOn (hR : Covers H A (fun _ ↦ True) (fun _ ↦ False) R) (hup : H.above c = up)
    (hc : A c) (hsteps : ∀ m w, RequestSteps H up w (parentRequest m w))
    (hparent : ∀ m w, R w (parentRequest m w))
    (hpropagate : ∀ tag w, R w (H.propagateEviction c up tag w))
    (hprefetch : ∀ m w, R w (prefetch m w)) (m : Memref) (w : World ι n) :
    R w (H.requestOn parentRequest prefetch c up m w) := by
  have hloop : ∀ finalTag finalAddr left tag m w,
      R w (H.requestLoop parentRequest prefetch c up finalTag finalAddr left tag m w) := by
    intro finalTag finalAddr left
    induction left with
    | zero => exact fun _ _ w ↦ hR.refl w
    | succ left ih =>
      intro tag m w
      refine hR.trans ?_ (ih _ _ _)
      cases hfind : H.find c tag w with
      | none => exact hR.missBlock hup hc hsteps hparent hpropagate hprefetch _ hfind
      | some r => exact hR.hitBlock hup hc hprefetch ..
  rw [Hierarchy.requestOn]
  split_ifs
  · exact hR.trans (hR.steps (steps_recordAccessStats hc m true _ _ w)) (hR.micro (.access _ c _ _ hc))
  · exact hloop ..

end Request

theorem Covers.prefetch (hR : Covers H A D F R)
    {request : Memref → World ι n → World ι n} (hrequest : ∀ m w, R w (request m w)) (c : ι)
    (m : Memref) (w : World ι n) : R w (H.prefetch request c m w) := by
  rw [Hierarchy.prefetch]
  split
  · exact hR.refl w
  · exact hrequest _ w

/-- The path from a cache to the root. -/
def IsPath (H : Hierarchy ι n) (path : List ι) : Prop := ∀ c up, path = c :: up → H.above c = up

omit [DecidableEq ι] in
theorem IsPath.tail {path : List ι} (h : IsPath H (c :: path)) : IsPath H path := by
  intro p up heq
  have hup := h c path rfl
  rw [heq] at hup
  exact H.above_parent hup

omit [DecidableEq ι] in
theorem isPath_path (c : ι) : IsPath H (H.path c) := by
  intro d up heq
  obtain ⟨rfl, rfl⟩ := List.cons.inj heq
  rfl

theorem steps_requestFrom {path : List ι} (hpath : IsPath H path) (m : Memref) (w : World ι n) :
    RequestSteps H path w (H.requestFrom path m w) := by
  induction path generalizing m w with
  | nil => exact .refl w
  | cons c up ih =>
    have hup := hpath c up rfl
    have hparent := ih hpath.tail
    have hR : Covers H (· ∈ c :: up) (fun _ ↦ True) (fun _ ↦ False) (RequestSteps H (c :: up)) :=
      covers_steps
    have hpropagate : ∀ tag w, RequestSteps H (c :: up) w (H.propagateEviction c up tag w) :=
      steps_propagateEviction hup fun d hd ↦ List.mem_cons_of_mem c hd
    have hplain := hR.requestOn hup List.mem_cons_self hparent (fun m w ↦ (hparent m w).cons)
      hpropagate fun _ w ↦ Steps.refl w
    exact hR.requestOn hup List.mem_cons_self hparent (fun m w ↦ (hparent m w).cons) hpropagate
      (hR.prefetch hplain c) m w

theorem steps_request (c : ι) (m : Memref) (w : World ι n) :
    RequestSteps H (H.path c) w (H.request c m w) :=
  steps_requestFrom (isPath_path c) m w

/-! ### Flushes -/

theorem steps_flushFrom {path : List ι} (hF : ∀ c ∈ path, F c) (m : Memref) (w : World ι n) :
    Steps H A D F w (H.flushFrom path m w) := by
  induction path generalizing w with
  | nil => exact .refl w
  | cons c up ih =>
    have hc := hF c List.mem_cons_self
    have hevent : (Event.flush c m).Within A := trivial
    refine Steps.trans ?_ (steps_emit hevent trivial _)
    refine Steps.trans ?_ (ih (fun d hd ↦ hF d (List.mem_cons_of_mem c hd)) _)
    exact (Micro.forget w c hc).steps.trans
      (steps_foldl (fun tag _ w ↦ (Micro.flushTag w c tag hc).steps) _)

/-- An operation is a sequence of small steps. -/
theorem steps_step (w : World ι n) (op : Op ι) :
    Steps H (fun _ ↦ True) (fun _ ↦ True) (fun _ ↦ True) w (H.step w op) := by
  cases op with
  | request c m => exact (steps_request c m w).mono (fun _ _ ↦ trivial) (fun _ h ↦ h) fun _ _ ↦ trivial
  | invalidate c tag type => exact steps_invalidate (fun _ _ ↦ trivial) tag type w
  | flush c m => exact steps_flushFrom (fun _ _ ↦ trivial) m w

/-- What every small step keeps holds after every run. -/
theorem run_induction {P : World ι n → Prop} (hinit : P H.init)
    (hstep : ∀ w w', Micro H (fun _ ↦ True) (fun _ ↦ True) (fun _ ↦ True) w w' → P w → P w')
    (ops : List (Op ι)) : P (H.run ops) := by
  have hsteps : ∀ w w', Steps H (fun _ ↦ True) (fun _ ↦ True) (fun _ ↦ True) w w' → P w → P w' := by
    intro w w' h hw
    induction h with
    | refl => exact hw
    | tail _ hmicro ih => exact hstep _ _ hmicro ih
  rw [Hierarchy.run]
  generalize H.init = w at *
  induction ops generalizing w with
  | nil => exact hinit
  | cons op ops ih => exact ih _ (hsteps _ _ (steps_step w op) hinit)

end Steps

end DrAvx.Cachesim
