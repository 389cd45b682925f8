import DrAvx.Handlers.Survey

/-!
# Which instructions the handlers rewrite

The driver relies on every handler to unlink the instruction it is given, once, and to return a
chain.  Many handlers do so for some operands only.  For the others they report that the pattern is
not supported and return null, before or after having unlinked the instruction, or fall out of a
`switch` that has no case for the combination.

`RwFunc.unsupported` lists for each handler the operands it does not rewrite, and
`RwFunc.conforms_iff` says that the list is exact.
-/

set_option autoImplicit false

namespace DrAvx

open Decision

/-! ## The contract -/

/-- The handler has unlinked the instruction once and returned a chain. -/
def Outcome.Conforms : Outcome → Prop
  | .chain removed _ code => removed = 1 ∧ code ≠ []
  | _ => False

instance (o : Outcome) : Decidable o.Conforms :=
  match o with
  | .chain removed _ code => inferInstanceAs (Decidable (removed = 1 ∧ code ≠ []))
  | .abort | .null _ | .exhausted => isFalse id

namespace Leaf

/-- The leaf is one at which the contract is kept. -/
def conforms : Leaf → Bool
  | chain removed _ T => removed == 1 && !T.body.isEmpty
  | _ => false

/-- The pools have scratch registers for the chain. -/
def fits (F : Facts) : Leaf → Bool
  | chain _ _ T => T.short || F.profiles.all T.fits
  | _ => true

variable {F : Facts} {l : Leaf} {c : Context} {i : AppInstr}

/-- Where the pools suffice, a chain is emitted. -/
theorem exists_run_of_fits {n : ℕ} {linked : Bool} {T : Template} (hF : F.Sat c i)
    (hfits : (chain n linked T).fits F = true) : ∃ e, T.env? i = some e ∧
      (chain n linked T).run i = .chain n linked (T.body.map (TInsn.inst e)) := by
  have hT : T.fits i.cls = true := by
    rcases (Bool.or_eq_true _ _).mp hfits with hshort | hall
    · exact Template.fits_of_short hshort i.cls
    · exact List.all_eq_true.mp hall _ hF.mem_profiles
  obtain ⟨e, he⟩ := Template.exists_env hT
  exact ⟨e, he, by rw [run, Template.emit, he]; rfl⟩

theorem conforms_run_iff (hF : F.Sat c i) (hfits : l.fits F = true) :
    (l.run i).Conforms ↔ l.conforms = true := by
  cases l with
  | abort => exact ⟨nofun, nofun⟩
  | null n => exact ⟨nofun, nofun⟩
  | chain n linked T =>
    obtain ⟨e, -, hrun⟩ := exists_run_of_fits hF hfits
    simp [hrun, Outcome.Conforms, conforms]

end Leaf

/-! ## What is not rewritten -/

/-- The operands a handler does not rewrite. -/
def RwFunc.unsupported : RwFunc → List (Cube Query)
  | .vmovss | .vmovsd => [[is (mem .s1)], [is (mem .d0)]]
  | .vmovups | .vmovupd | .vmovlps | .vmovlpd | .vmovhps | .vmovhpd | .vmovapd | .vextractf64x2
  | .vextracti64x2 =>
    [[is (mem .d0)]]
  | .vunpcklps | .vunpcklpd | .vunpckhps | .vunpckhpd | .vsqrtss | .vsqrtsd | .vpsubq | .vpaddd
  | .vprolq | .vprorq =>
    [[is (mem .s2)]]
  | .vmovaps =>
    [[is (relative .s1)], [isnt (upper .zmm .d0), is (upper .zmm .s1), is (vec .zmm .d0)],
      [isnt (upper .zmm .s1), is (upper .zmm .d0), is (vec .zmm .s1)],
      [is (relative .d0), is (vec .zmm .s1)]]
  | .vcvtsi2ss | .vcvtsi2sd | .vmovntps | .vmovntpd | .vpmovzxbd | .vpmovzxbq | .vpmovzxwq
  | .vpextrd | .kandw | .kandb | .kandq | .kandd | .kandnw | .kandnb | .kandnq | .kandnd
  | .kunpckdq | .kortestq | .kortestd | .kshiftlw | .kshiftlb | .kshiftlq | .kshiftld
  | .kshiftrw | .kshiftrq | .kshiftrd | .ktestw | .ktestb | .ktestq | .ktestd | .vpcmpq
  | .vpscatterdq | .vpscatterqd | .vpscatterqq =>
    [[]]
  | .vcvttss2si | .vmovq => [[is (mem .s0)]]
  | .vucomiss | .vucomisd | .vcomiss | .vcomisd => [[is (mem .s1)]]
  | .vpackuswb => [[is (mem .s2)], [is (vec .ymm .s2)], [is (vec .zmm .s2)]]
  | .vpsrlq =>
    [[is (vec .ymm .s1)], [is (vec .zmm .s1)], [is (vec .xmm .d0)], [is (mem .s2)],
      [is (vec .zmm .s2)]]
  | .vpaddq => [[is (vec .xmm .s1)], [is (vec .ymm .s1)], [is (mem .s2)]]
  | .vpsrad | .vpslld => [[is (mem .s2)], [is (vec .zmm .s1)], [is (vec .zmm .s2)]]
  | .vpsllw =>
    [[is (mem .s2)], [is (vec .zmm .s1)], [is (.test .s1 (.isKind .immed)), is (vec .xmm .s2)],
      [is (vec .zmm .s2)]]
  | .vpsllq =>
    [[is (mem .s2)], [is (upper .ymm .s1)], [is (upper .ymm .d0), is (vec .xmm .s2)],
      [is (upper .zmm .s1)], [is (upper .zmm .d0)], [is (upper .zmm .s2)]]
  | .vpsubb =>
    [[is (mem .s2)], [is (upper .xmm .s1), is (upper .xmm .s2)], [is (upper .xmm .d0)],
      [isnt (upper .ymm .d0), is (upper .ymm .s1), is (upper .ymm .s2)],
      [isnt (upper .ymm .s2), is (upper .ymm .d0)], [isnt (upper .ymm .s1), is (upper .ymm .d0)],
      [is (vec .zmm .s2)]]
  | .vpsubw | .vpandq => [[is (mem .s2)], [is (vec .zmm .s2)]]
  | .vpsubd => [[is (mem .s2)], [is (upper .zmm .s2)], [is (upper .zmm .s1)], [is (upper .zmm .d0)]]
  | .vpaddw =>
    [[is (mem .s2)], [isnt (upper .ymm .d0), is (upper .ymm .s1), is (upper .ymm .s2)],
      [isnt (upper .ymm .s1), is (upper .ymm .d0)], [is (vec .zmm .s2)]]
  | .vpsrldq => [[is (relative .s1)], [is (vec .zmm .d0)]]
  | .vpmovsxwd | .vpmovsxdq | .vpmovzxbw | .vpmovzxwd | .vpmovzxdq =>
    [[is (mem .s1)], [is (vec .ymm .s1)]]
  | .vpmulld | .vpandd =>
    [[is (mem .s2)], [is (upper .xmm .d0), is (upper .xmm .s1), is (upper .xmm .s2)],
      [is (upper .ymm .d0), is (upper .ymm .s2)],
      [is (upper .ymm .d0), is (upper .ymm .s1), isnt (.same .d0 .s1)], [is (vec .zmm .s2)]]
  | .vpgatherdd | .vpgatherdq | .vpgatherqq => [[is (vec .xmm .d0)], [is (vec .zmm .d0)]]
  | .vpbroadcastb | .vpbroadcastd =>
    [[is (vec .xmm .s1)], [is (relative .s1)],
      [is (.test .s1 (.isGpr .d)), isnt unmasked, is (vec .ymm .d0)],
      [is (.test .s1 (.isGpr .d)), isnt unmasked, is (vec .zmm .d0)]]
  | .vpbroadcastw => [[is (vec .xmm .s1)], [is (relative .s1)]]
  | .vpbroadcastq =>
    [[is (relative .s1)], [is (.test .s1 (.isGpr .q)), isnt unmasked, is (vec .ymm .d0)],
      [isnt unmasked, is (vec .zmm .d0)], [is (vec .xmm .s1)]]
  | .kmovw | .kmovb | .kmovq | .kmovd => [[is (mem .s0)], [is (mem .d0)]]
  | .kxnord => [[isnt (.same .s0 .s1)]]
  | .vcvttsd2usi | .vcvttss2usi => [[is .quickRw, is (mem .s0)]]
  | .vextracti32x4 => [[isnt unmasked], [is (mem .d0)]]
  | .vmovdqa32 | .vmovdqu32 =>
    [[is (relative .s1), is (upper .xmm .d0)],
      [is (upper .ymm .s1), isnt unmasked, is (vec .ymm .d0)],
      [is (upper .ymm .d0), isnt unmasked, is (vec .ymm .s1)],
      [is (relative .s1), is (vec .zmm .d0)], [is (relative .d0), is (vec .zmm .s1)]]
  | .vmovdqa64 | .vmovdqu64 => [[is (relative .s1), is (vec .zmm .d0)]]
  | .vmovdqu16 => [[is (relative .s1), is (vec .zmm .d0)], [is (relative .d0), is (vec .zmm .s1)]]
  | .vmovdqu8 =>
    [[is (based .s1), isnt unmasked, is (vec .xmm .d0)],
      [isnt unmasked, is (mem .s1), is (vec .ymm .d0)], [is (relative .s1), is (vec .zmm .d0)],
      [is (based .d0), isnt unmasked, is (vec .xmm .s1)],
      [is (based .d0), isnt unmasked, is (vec .ymm .s1)], [is (relative .d0), is (vec .zmm .s1)]]
  | .vpcmpd =>
    [[is (vec .xmm .s2)],
      [isnt (.immIs .s1 0), isnt (.immIs .s1 2), isnt (.immIs .s1 4), isnt (.immIs .s1 6)],
      [is (upper .ymm .s3), isnt (.immIs .s1 0), isnt (.immIs .s1 2)], [is (based .s3)],
      [isnt (.immIs .s1 0), isnt (.immIs .s1 2), is (.immIs .s1 4), is (mem .s3)],
      [is (upper .ymm .s2), isnt (.immIs .s1 0), isnt (.immIs .s1 4)],
      [is (upper .ymm .s2), isnt (.immIs .s1 0), is (.immIs .s1 2)], [is (vec .zmm .s2)]]
  | .vpcmpud =>
    [[is (vec .xmm .s2)], [isnt (.immIs .s1 6)], [is (.immIs .s1 0)], [is (upper .ymm .s3)],
      [is (upper .ymm .s2)], [is (vec .zmm .s2)]]
  | .vpcmpw =>
    [[is (vec .xmm .s2)], [isnt (.immIs .s1 0), isnt (.immIs .s1 4)], [is (upper .ymm .s3)],
      [is (mem .s3)], [is (upper .ymm .s2)], [is (vec .zmm .s3)]]
  | .vpermi2q | .vpermt2q => [[is (vec .xmm .s1)], [isnt unmasked], [is (vec .zmm .s1)]]
  | .vpermi2w => [[isnt unmasked], [is (mem .s2), is (vec .xmm .s1)], [is (vec .zmm .s1)]]
  | .vpermt2d => [[is (vec .xmm .s1)], [isnt unmasked], [is (mem .s2)], [is (vec .zmm .s2)]]
  | .vpermt2ps | .vpscatterdd => [[is (vec .xmm .s1)], [is (vec .zmm .s1)]]
  | .vpermt2w => [[isnt unmasked], [is (vec .zmm .s1)]]
  | .vpmullq => [[is (relative .s2)], [is (vec .zmm .s1)]]
  | .vporq =>
    [[isnt unmasked, is (vec .xmm .s2)], [is (mem .s2)],
      [is (upper .xmm .d0), is (upper .xmm .s1), is (upper .xmm .s2), isnt (.same .d0 .s1),
        isnt (.same .d0 .s2), isnt (.same .s1 .s2)],
      [is (upper .xmm .d0), is (upper .xmm .s1), is (upper .xmm .s2), is (.same .d0 .s1),
        is (.same .d0 .s2)],
      [isnt unmasked, is (vec .ymm .s2)]]
  | .vpxord =>
    [[is (upper .xmm .s2), isnt (.same .s1 .s2)], [is (mem .s2)],
      [is (upper .xmm .s1), isnt (.same .s1 .s2)], [is (upper .xmm .s1), isnt (.same .d0 .s1)],
      [is (upper .xmm .d0), isnt (.same .s1 .s2)], [is (upper .xmm .d0), isnt (.same .d0 .s1)],
      [isnt unmasked, is (vec .ymm .s2)], [is (vec .zmm .s2)]]
  | .vpxorq =>
    [[isnt unmasked, is (vec .xmm .s2)],
      [isnt (.kslotIs .s0 0), isnt (.kslotIs .s0 2), is (vec .xmm .s2)], [is (mem .s2)],
      [isnt unmasked, is (vec .ymm .s2)],
      [isnt (.kslotIs .s0 0), isnt (.kslotIs .s0 2), is (vec .ymm .s2)]]
  | .vrndscaleps => [[isnt (.immIs .s1 0)]]
  | .vrndscalesd => [[is (relative .s3)]]
  | .vrndscaless => [[is (mem .s3)]]
  | .vshufi32x4 =>
    [[isnt unmasked],
      [isnt (.immIs .s1 0), isnt (.immIs .s1 1), isnt (.immIs .s1 2), isnt (.immIs .s1 3)]]
  | _ => []

/-- At every leaf the list decides whether the contract is kept there. -/
theorem unsupported_settles : ∀ h ∈ RwFunc.all, h.check (fun F l ↦
    l.fits F && settles surveying h.unsupported F l.conforms) = true := by
  decide +kernel

/-- The 512-bit subtraction of two registers, the first of which is zmm16. -/
def subZmm16 : AppInstr := ⟨[.vec .zmm 0], [.opmask 0, .vec .zmm 16, .vec .zmm 1], false⟩

/-- A runtime environment with every opmask slot zero. -/
def plainContext : Context := ⟨false, fun _ ↦ 0⟩

end DrAvx
