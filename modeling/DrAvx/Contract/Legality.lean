import DrAvx.Contract.Aliasing

/-!
# Which chains an AVX2 host can run

The chains are to run on a host without AVX-512, so none of their instructions may name a zmm or an
opmask register or one of the vector registers from 16 on, and each must have a VEX or legacy
encoding.  Many handlers pass an operand of the application on to the emitted instruction although
it may be one of the registers the host does not have, or memory of another size.

`RwFunc.residual` lists for each handler the operands for which something in its chain cannot be
encoded, and `RwFunc.legal_iff` says that the list is exact.
-/

set_option autoImplicit false

namespace DrAvx

open Decision

/-- Whether a chain can be encoded is decided by the classes of the operands. -/
theorem Emitted.all_legal {c : Context} {F : Facts} {T : Template} {e : Env}
    (h : Emitted c F T e) (hrated : T.rated F.profile = true) :
    (T.body.map (TInsn.inst e)).all Insn.legal = T.legal F.profile := by
  rw [h.profile] at hrated ⊢
  rw [Template.legal_eq, List.all_map, Bool.eq_iff_iff, List.all_eq_true, List.all_eq_true]
  refine forall₂_congr fun j hj ↦ ?_
  have hj := Template.rated_of_mem hrated hj
  rw [← Template.length_gprs h.env] at hj
  rw [Function.comp, TInsn.legal_inst h.vecs h.ordinary hj]

/-! ## What cannot be encoded -/

/-- The operands for which a handler emits an instruction that cannot be encoded. -/
def RwFunc.residual : RwFunc → List (Cube Query)
  | .vmovups | .vmovupd | .vmovlps | .vmovsldup | .vmovlpd | .vmovddup | .vmovhps | .vmovshdup
  | .vmovhpd | .vmovapd | .vsqrtps | .vsqrtpd | .ktestq =>
    [[]]
  | .vunpcklps | .vunpcklpd | .vunpckhps | .vunpckhpd =>
    [[is (upper .ymm .s2)], [is (upper .ymm .s1)], [is (upper .ymm .d0)], [is (vec .zmm .s2)]]
  | .vmovq =>
    [[is (upper .xmm .s0)], [is (upper .xmm .d0)], [is (.test .s0 (.isGpr .d))],
      [is (.test .d0 (.hasSize 4))]]
  | .vpaddq => [[is (.test .s2 (.hasSize 8))]]
  | .vpsrad =>
    [[is (upper .xmm .s1)], [is (upper .xmm .s2), is (vec .ymm .s1)], [is (upper .ymm .s1)]]
  | .vpsllw =>
    [[is (upper .xmm .s2)], [is (upper .xmm .s1)], [is (upper .xmm .d0)], [is (upper .ymm .s1)],
      [is (upper .ymm .d0), is (vec .xmm .s2)]]
  | .vpslld =>
    [[is (upper .xmm .s2), is (vec .xmm .s1)], [is (upper .xmm .s1)],
      [is (upper .xmm .d0), is (vec .xmm .s1)], [is (upper .xmm .s2), is (vec .ymm .s1)],
      [is (upper .ymm .s1)], [is (upper .ymm .d0), is (vec .xmm .s2)]]
  | .vpsllq =>
    [[is (upper .xmm .s2), is (vec .ymm .s1)], [is (vec .zmm .s1)], [is (upper .ymm .s2)],
      [is (upper .ymm .d0)], [is (vec .zmm .s2)]]
  | .vpsrldq => [[is (upper .ymm .s1)], [is (upper .ymm .d0)], [is (mem .s1), is (vec .ymm .d0)]]
  | .vpmovsxwd | .vpmovsxdq | .vpmovzxbw | .vpmovzxdq => [[is (upper .xmm .s1), is (vec .ymm .d0)]]
  | .vpmovzxwd => [[is (upper .xmm .s1), is (vec .ymm .d0)], [is (upper .ymm .d0)]]
  | .vpmulld | .vpandd => [[isnt (upper .xmm .d0), isnt (upper .xmm .s2), is (upper .xmm .s1)]]
  | .vpgatherdd | .vpgatherdq | .vpgatherqq =>
    [[is (.test .s1 .indexHigh)], [is (upper .ymm .d0)]]
  | .vpbroadcastb =>
    [[is (upper .xmm .d0)], [is (upper .ymm .d0), is (mem .s1)],
      [is (.test .s1 (.hasSize 4)), is (mem .s1)], [is (.test .s1 (.isGpr .d)), is (vec .zmm .d0)]]
  | .vpbroadcastw =>
    [[is (.test .s1 (.hasSize 4)), is (mem .s1)], [is (.test .s1 (.isGpr .d)), is (upper .ymm .d0)]]
  | .vpbroadcastd =>
    [[is (upper .xmm .d0)], [is (upper .ymm .d0), is (mem .s1)],
      [is (.test .s1 (.isGpr .d)), is (upper .zmm .d0)]]
  | .vpbroadcastq => [[is (mem .s1), is (vec .zmm .d0)]]
  | .kmovq => [[is (.test .s0 (.isGpr .d))], [is (.test .d0 (.isGpr .d))]]
  | .kmovd => [[is (.test .d0 .isMask), is (.test .s0 .isMask)], [is (.test .s0 (.isGpr .q))]]
  | .vcvttsd2usi => [[is (relative .s0)], [is (upper .xmm .s0), isnt .quickRw]]
  | .vcvttss2usi =>
    [[is (relative .s0)], [is (.baseIs .s0 .rsp), is (mem .s0)],
      [is (upper .xmm .s0), isnt .quickRw]]
  | .vcvtusi2sd => [[is (upper .xmm .s0), isnt .quickRw], [is (upper .xmm .d0)]]
  | .vcvtusi2ss => [[is (upper .xmm .d0)]]
  | .vextractf64x2 | .vextracti64x2 =>
    [[is (upper .ymm .s2), isnt (.sameIndex .d0 .s2)], [isnt (upper .ymm .s2), is (upper .xmm .d0)],
      [is (vec .zmm .s2)]]
  | .vextracti32x4 => [[is (vec .zmm .s2)]]
  | .vmovdqa32 | .vmovdqu32 =>
    [[is (upper .xmm .d0)], [is (relative .s1), is (upper .ymm .d0)],
      [is (relative .d0), is (upper .xmm .s1)]]
  | .vmovdqa64 | .vmovdqu64 =>
    [[is (relative .s1), is (upper .ymm .d0)], [is (relative .d0), is (upper .xmm .s1)],
      [is (relative .d0), is (upper .ymm .s1)]]
  | .vmovdqu16 =>
    [[is (upper .xmm .s1)], [is (upper .xmm .d0), is (vec .xmm .s1)],
      [is (relative .s1), is (upper .ymm .d0)], [is (upper .ymm .s1)],
      [is (upper .ymm .d0), is (vec .ymm .s1)]]
  | .vmovdqu8 =>
    [[isnt (upper .xmm .s1), is (upper .xmm .d0), isnt unmasked, is (vec .xmm .s1)],
      [isnt (upper .xmm .d0), is (upper .xmm .s1), isnt unmasked],
      [is (relative .s1), is (upper .ymm .d0)], [is (relative .d0), is (upper .xmm .s1)],
      [is (relative .d0), is (upper .ymm .s1)]]
  | .vpcmpd =>
    [[is (upper .ymm .s3), isnt (.immIs .s1 0)], [is (upper .ymm .s2), is (mem .s3)],
      [is (.test .s3 (.hasSize 4))]]
  | .vpcmpud => [[is (.test .s3 (.hasSize 4))]]
  | .vpermi2q | .vpermt2q =>
    [[is (upper .ymm .s1)], [is (upper .ymm .d0)], [is (upper .ymm .s2)],
      [is (.test .s2 (.hasSize 8))]]
  | .vpermi2w => [[is (upper .ymm .s1)], [is (upper .ymm .d0)], [is (upper .ymm .s2)]]
  | .vpermt2d => [[is (upper .ymm .s2)], [is (upper .ymm .s1)], [is (upper .ymm .d0)]]
  | .vpermt2ps =>
    [[is (upper .ymm .s1)], [is (upper .ymm .d0)], [is (upper .ymm .s2)],
      [is (.test .s2 (.hasSize 4))]]
  | .vpermt2w =>
    [[is (upper .xmm .s1), is (mem .s2)], [is (upper .xmm .d0), is (mem .s2)],
      [is (upper .ymm .s1)], [is (upper .ymm .d0)], [is (upper .ymm .s2)]]
  | .vpmullq =>
    [[is (upper .xmm .s1)], [is (upper .xmm .d0)], [is (upper .xmm .s2)],
      [is (upper .ymm .s1), is (mem .s2)], [is (upper .ymm .d0), is (mem .s2)]]
  | .vporq =>
    [[is (upper .xmm .d0), is (upper .xmm .s1), is (upper .xmm .s2), isnt (.same .d0 .s2),
        isnt (.same .d0 .s1)]]
  | .vprolq | .vprorq =>
    [[is (upper .xmm .s2)], [is (upper .xmm .d0)], [is (upper .ymm .s2)], [is (upper .ymm .d0)]]
  | .vpscatterdd =>
    [[isnt (.test .d0 .hasBase)], [is (upper .ymm .s1)], [is (.test .d0 .indexHigh)]]
  | .vpxord =>
    [[isnt (upper .xmm .s1), is (upper .xmm .s2)], [isnt (upper .xmm .s1), is (upper .xmm .d0)],
      [is (upper .ymm .s2)], [is (upper .ymm .s1)], [is (upper .ymm .d0)]]
  | .vpxorq =>
    [[is (upper .xmm .s2)], [is (upper .xmm .s1)], [is (upper .xmm .d0)], [is (upper .ymm .s2)],
      [is (upper .ymm .s1)], [is (upper .ymm .d0)]]
  | .vrndscaleps =>
    [[is (.test .s2 (.hasSize 4))], [is (upper .xmm .s2)], [is (upper .xmm .d0)],
      [is (upper .ymm .s2)], [is (upper .ymm .d0)], [is (vec .zmm .d0)]]
  | .vrndscalesd => [[is (upper .xmm .s2)], [is (upper .xmm .d0)], [is (upper .xmm .s3)]]
  | .vrndscaless => [[is (upper .xmm .s3)], [is (upper .xmm .s2)], [is (upper .xmm .d0)]]
  | .vshufi32x4 =>
    [[is (upper .ymm .s3)], [is (upper .ymm .s2)], [is (upper .ymm .d0)], [is (vec .zmm .s2)],
      [is (.test .s3 (.hasSize 4))]]
  | _ => []

/-- At every leaf with a chain the list decides whether the chain can be encoded. -/
theorem residual_settles : ∀ h ∈ RwFunc.all, h.check (Leaf.every fun F T ↦
    T.rated F.profile && settles surveying h.residual F (T.legal F.profile)) = true := by
  apply RwFunc.forall_mem_all <;> decide +kernel

section Legal

variable {h : RwFunc} {c : Context} {i : AppInstr} {n : ℕ} {linked : Bool} {code : List Insn}

theorem RwFunc.all_legal_iff (hi : h.Decodes i) (hrun : h.gen.run c i = .chain n linked code) :
    code.all Insn.legal = true ↔ ¬i.Matches c h.residual := by
  obtain ⟨F, T, e, hemitted, rfl, -, rfl, htest⟩ :=
    exists_emitted (residual_settles h h.mem_all) hi hrun
  rw [Bool.and_eq_true] at htest
  rw [hemitted.all_legal htest.1]
  exact iff_of_settles (x := (c, e.instr)) htest.2 hemitted.sat

/-- A straight chain that runs to its end has no residue of AVX-512. -/
theorem RwFunc.not_residual_of_exec (hi : h.Decodes i) (hrun : h.gen.run c i = .chain n linked code)
    (hstraight : code.all (·.ctl == .plain) = true) {E : Ext} {s t : State}
    (hexec : Exec E code s t) : ¬i.Matches c h.residual := by
  refine (all_legal_iff hi hrun).mp (List.all_eq_true.mpr (hexec.all_legal fun j hj ↦ ?_))
  exact j.jumpsTo_of_plain (by simpa using List.all_eq_true.mp hstraight j hj)

end Legal

/-- The shift of zmm1 into zmm0 by a count in xmm2. -/
def shiftZmm1 : AppInstr := ⟨[.vec .zmm 0], [.opmask 0, .vec .zmm 1, .vec .xmm 2], false⟩

end DrAvx
