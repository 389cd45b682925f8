import DrAvx.Decode.Operands
import DrAvx.Handlers.Arith
import DrAvx.Handlers.Compare
import DrAvx.Handlers.Convert
import DrAvx.Handlers.Gather
import DrAvx.Handlers.MoveInt
import DrAvx.Handlers.Opmask
import DrAvx.Handlers.Permute
import DrAvx.Handlers.Shuffle

/-!
# The table of handlers

`rewrite_funcs` has an entry for each of the 768 opcodes from `OP_vmovss` on.  Most of them are
`rw_func_empty`; the others are the handlers.  An entry selects a handler by position only, so the
order of the table has to follow the enumeration of the opcodes.

`rw_func_vpextr_` stands in three places of the table and looks at the opcode; it is listed as three
handlers here.
-/

set_option autoImplicit false

namespace DrAvx

/-! ## Handlers -/

/-- The handlers, by the opcode they are for. -/
inductive RwFunc
  | vmovss | vmovsd | vmovups | vmovupd | vmovlps | vmovsldup | vmovlpd | vmovddup | vunpcklps
  | vunpcklpd | vunpckhps | vunpckhpd | vmovhps | vmovshdup | vmovhpd | vmovaps | vmovapd
  | vcvtsi2ss | vcvtsi2sd | vmovntps | vmovntpd | vcvttss2si | vcvttsd2si | vcvtss2si
  | vcvtsd2si | vucomiss | vucomisd | vcomiss | vcomisd | vmovmskps | vmovmskpd | vsqrtps
  | vsqrtss | vsqrtpd | vsqrtsd | vpackuswb | vmovq | vpsrlq | vpaddq | vpsrad | vpsllw | vpslld
  | vpsllq | vpsubb | vpsubw | vpsubd | vpsubq | vpaddw | vpaddd | vpsrldq | vpmovsxwd
  | vpmovsxdq | vpmovzxbw | vpmovzxbd | vpmovzxbq | vpmovzxwd | vpmovzxwq | vpmovzxdq | vpmulld
  | vpextrb | vpextrd | vpgatherdd | vpgatherdq | vpgatherqq | vpbroadcastb | vpbroadcastw
  | vpbroadcastd | vpbroadcastq | kmovw | kmovb | kmovq | kmovd | kandw | kandb | kandq | kandd
  | kandnw | kandnb | kandnq | kandnd | kunpckbw | kunpckwd | kunpckdq | knotw | knotb | knotq
  | knotd | korw | korb | korq | kord | kxnorw | kxnorb | kxnorq | kxnord | kxorw | kxorb
  | kxorq | kxord | kaddw | kaddb | kaddq | kaddd | kortestw | kortestb | kortestq | kortestd
  | kshiftlw | kshiftlb | kshiftlq | kshiftld | kshiftrw | kshiftrb | kshiftrq | kshiftrd
  | ktestw | ktestb | ktestq | ktestd | vcvttsd2usi | vcvttss2usi | vcvtusi2sd | vcvtusi2ss
  | vextractf64x2 | vextracti32x4 | vextracti64x2 | vinserti64x4 | vmovdqa32 | vmovdqa64
  | vmovdqu16 | vmovdqu32 | vmovdqu64 | vmovdqu8 | vpandd | vpandq | vpcmpd | vpcmpq | vpcmpud
  | vpcmpw | vpermi2q | vpermi2w | vpermt2d | vpermt2ps | vpermt2q | vpermt2w | vpextrq
  | vpmullq | vporq | vprolq | vprorq | vpscatterdd | vpscatterdq | vpscatterqd | vpscatterqq
  | vpxord | vpxorq | vrndscaleps | vrndscalesd | vrndscaless | vshufi32x4
  deriving DecidableEq

namespace RwFunc

/-- The opcode in the decoder's enumeration. -/
def opcode : RwFunc → ℕ
  | vmovss => 636 | vmovsd => 637 | vmovups => 638 | vmovupd => 639 | vmovlps => 640
  | vmovsldup => 641 | vmovlpd => 642 | vmovddup => 643 | vunpcklps => 644 | vunpcklpd => 645
  | vunpckhps => 646 | vunpckhpd => 647 | vmovhps => 648 | vmovshdup => 649 | vmovhpd => 650
  | vmovaps => 651 | vmovapd => 652 | vcvtsi2ss => 653 | vcvtsi2sd => 654 | vmovntps => 655
  | vmovntpd => 656 | vcvttss2si => 657 | vcvttsd2si => 658 | vcvtss2si => 659 | vcvtsd2si => 660
  | vucomiss => 661 | vucomisd => 662 | vcomiss => 663 | vcomisd => 664 | vmovmskps => 665
  | vmovmskpd => 666 | vsqrtps => 667 | vsqrtss => 668 | vsqrtpd => 669 | vsqrtsd => 670
  | vpackuswb => 721 | vmovq => 735 | vpsrlq => 746 | vpaddq => 747 | vpsrad => 760 | vpsllw => 776
  | vpslld => 777 | vpsllq => 778 | vpsubb => 783 | vpsubw => 784 | vpsubd => 785 | vpsubq => 786
  | vpaddw => 788 | vpaddd => 789 | vpsrldq => 790 | vpmovsxwd => 824 | vpmovsxdq => 826
  | vpmovzxbw => 831 | vpmovzxbd => 832 | vpmovzxbq => 833 | vpmovzxwd => 834 | vpmovzxwq => 835
  | vpmovzxdq => 836 | vpmulld => 846 | vpextrb => 853 | vpextrd => 854 | vpgatherdd => 1075
  | vpgatherdq => 1076 | vpgatherqq => 1078 | vpbroadcastb => 1099 | vpbroadcastw => 1100
  | vpbroadcastd => 1101 | vpbroadcastq => 1102 | kmovw => 1107 | kmovb => 1108 | kmovq => 1109
  | kmovd => 1110 | kandw => 1111 | kandb => 1112 | kandq => 1113 | kandd => 1114 | kandnw => 1115
  | kandnb => 1116 | kandnq => 1117 | kandnd => 1118 | kunpckbw => 1119 | kunpckwd => 1120
  | kunpckdq => 1121 | knotw => 1122 | knotb => 1123 | knotq => 1124 | knotd => 1125 | korw => 1126
  | korb => 1127 | korq => 1128 | kord => 1129 | kxnorw => 1130 | kxnorb => 1131 | kxnorq => 1132
  | kxnord => 1133 | kxorw => 1134 | kxorb => 1135 | kxorq => 1136 | kxord => 1137 | kaddw => 1138
  | kaddb => 1139 | kaddq => 1140 | kaddd => 1141 | kortestw => 1142 | kortestb => 1143
  | kortestq => 1144 | kortestd => 1145 | kshiftlw => 1146 | kshiftlb => 1147 | kshiftlq => 1148
  | kshiftld => 1149 | kshiftrw => 1150 | kshiftrb => 1151 | kshiftrq => 1152 | kshiftrd => 1153
  | ktestw => 1154 | ktestb => 1155 | ktestq => 1156 | ktestd => 1157 | vcvttsd2usi => 1190
  | vcvttss2usi => 1191 | vcvtusi2sd => 1196 | vcvtusi2ss => 1197 | vextractf64x2 => 1205
  | vextracti32x4 => 1207 | vextracti64x2 => 1209 | vinserti64x4 => 1242 | vmovdqa32 => 1243
  | vmovdqa64 => 1244 | vmovdqu16 => 1245 | vmovdqu32 => 1246 | vmovdqu64 => 1247 | vmovdqu8 => 1248
  | vpandd => 1250 | vpandq => 1253 | vpcmpd => 1261 | vpcmpq => 1262 | vpcmpud => 1264
  | vpcmpw => 1267 | vpermi2q => 1277 | vpermi2w => 1278 | vpermt2d => 1280 | vpermt2ps => 1282
  | vpermt2q => 1283 | vpermt2w => 1284 | vpextrq => 1288 | vpmullq => 1324 | vporq => 1326
  | vprolq => 1328 | vprorq => 1332 | vpscatterdd => 1335 | vpscatterdq => 1336
  | vpscatterqd => 1337 | vpscatterqq => 1338 | vpxord => 1354 | vpxorq => 1355
  | vrndscaleps => 1373 | vrndscalesd => 1374 | vrndscaless => 1375 | vshufi32x4 => 1402

/-- What the handler does. -/
def gen : RwFunc → Gen
  | vmovss => rwFuncVmovss
  | vmovsd => rwFuncVmovsd
  | vmovups => rwFuncVmovups
  | vmovupd => rwFuncVmovupd
  | vmovlps => rwFuncVmovlps
  | vmovsldup => rwFuncVmovsldup
  | vmovlpd => rwFuncVmovlpd
  | vmovddup => rwFuncVmovddup
  | vunpcklps => rwFuncVunpcklps
  | vunpcklpd => rwFuncVunpcklpd
  | vunpckhps => rwFuncVunpckhps
  | vunpckhpd => rwFuncVunpckhpd
  | vmovhps => rwFuncVmovhps
  | vmovshdup => rwFuncVmovshdup
  | vmovhpd => rwFuncVmovhpd
  | vmovaps => rwFuncVmovaps
  | vmovapd => rwFuncVmovapd
  | vcvtsi2ss => rwFuncVcvtsi2ss
  | vcvtsi2sd => rwFuncVcvtsi2sd
  | vmovntps => rwFuncVmovntps
  | vmovntpd => rwFuncVmovntpd
  | vcvttss2si => rwFuncVcvttss2si
  | vcvttsd2si => rwFuncVcvttsd2si
  | vcvtss2si => rwFuncVcvtss2si
  | vcvtsd2si => rwFuncVcvtsd2si
  | vucomiss => rwFuncVucomiss
  | vucomisd => rwFuncVucomisd
  | vcomiss => rwFuncVcomiss
  | vcomisd => rwFuncVcomisd
  | vmovmskps => rwFuncVmovmskps
  | vmovmskpd => rwFuncVmovmskpd
  | vsqrtps => rwFuncVsqrtps
  | vsqrtss => rwFuncVsqrtss
  | vsqrtpd => rwFuncVsqrtpd
  | vsqrtsd => rwFuncVsqrtsd
  | vpackuswb => rwFuncVpackuswb
  | vmovq => rwFuncVmovq
  | vpsrlq => rwFuncVpsrlq
  | vpaddq => rwFuncVpaddq
  | vpsrad => rwFuncVpsrad
  | vpsllw => rwFuncVpsllw
  | vpslld => rwFuncVpslld
  | vpsllq => rwFuncVpsllq
  | vpsubb => rwFuncVpsubb
  | vpsubw => rwFuncVpsubw
  | vpsubd => rwFuncVpsubd
  | vpsubq => rwFuncVpsubq
  | vpaddw => rwFuncVpaddw
  | vpaddd => rwFuncVpaddd
  | vpsrldq => rwFuncVpsrldq
  | vpmovsxwd => rwFuncVpmovsxwd
  | vpmovsxdq => rwFuncVpmovsxdq
  | vpmovzxbw => rwFuncVpmovzxbw
  | vpmovzxwd => rwFuncVpmovzxwd
  | vpmovzxdq => rwFuncVpmovzxdq
  | vpmulld => rwFuncVpmulld
  | vpextrb => rwFuncVpextrb
  | vpextrd => rwFuncVpextrd
  | vpgatherdd => rwFuncVpgatherdd
  | vpgatherdq => rwFuncVpgatherdq
  | vpgatherqq => rwFuncVpgatherqq
  | vpbroadcastb => rwFuncVpbroadcastb
  | vpbroadcastw => rwFuncVpbroadcastw
  | vpbroadcastd => rwFuncVpbroadcastd
  | vpbroadcastq => rwFuncVpbroadcastq
  | kmovw => rwFuncKmovw
  | kmovb => rwFuncKmovb
  | kmovq => rwFuncKmovq
  | kmovd => rwFuncKmovd
  | kandw => rwFuncKandw
  | kandb => rwFuncKandb
  | kandq => rwFuncKandq
  | kandd => rwFuncKandd
  | kandnw => rwFuncKandnw
  | kandnb => rwFuncKandnb
  | kandnq => rwFuncKandnq
  | kandnd => rwFuncKandnd
  | kunpckbw => rwFuncKunpckbw
  | kunpckwd => rwFuncKunpckwd
  | knotw => rwFuncKnotw
  | knotb => rwFuncKnotb
  | knotq => rwFuncKnotq
  | knotd => rwFuncKnotd
  | korw => rwFuncKorw
  | korb => rwFuncKorb
  | korq => rwFuncKorq
  | kord => rwFuncKord
  | kxnorw => rwFuncKxnorw
  | kxnorb => rwFuncKxnorb
  | kxnorq => rwFuncKxnorq
  | kxnord => rwFuncKxnord
  | kxorw => rwFuncKxorw
  | kxorb => rwFuncKxorb
  | kxorq => rwFuncKxorq
  | kxord => rwFuncKxord
  | kaddw => rwFuncKaddw
  | kaddb => rwFuncKaddb
  | kaddq => rwFuncKaddq
  | kaddd => rwFuncKaddd
  | kortestw => rwFuncKortestw
  | kortestb => rwFuncKortestb
  | kortestq => rwFuncKortestq
  | kortestd => rwFuncKortestd
  | kshiftlw => rwFuncKshiftlw
  | kshiftlb => rwFuncKshiftlb
  | kshiftlq => rwFuncKshiftlq
  | kshiftld => rwFuncKshiftld
  | kshiftrw => rwFuncKshiftrw
  | kshiftrb => rwFuncKshiftrb
  | kshiftrq => rwFuncKshiftrq
  | kshiftrd => rwFuncKshiftrd
  | ktestw => rwFuncKtestw
  | ktestb => rwFuncKtestb
  | ktestq => rwFuncKtestq
  | ktestd => rwFuncKtestd
  | vcvttsd2usi => rwFuncVcvttsd2usi
  | vcvttss2usi => rwFuncVcvttss2usi
  | vcvtusi2sd => rwFuncVcvtusi2sd
  | vcvtusi2ss => rwFuncVcvtusi2ss
  | vextractf64x2 => rwFuncVextractf64x2
  | vextracti32x4 => rwFuncVextracti32x4
  | vextracti64x2 => rwFuncVextracti64x2
  | vinserti64x4 => rwFuncVinserti64x4
  | vmovdqa32 => rwFuncVmovdqa32
  | vmovdqa64 => rwFuncVmovdqa64
  | vmovdqu16 => rwFuncVmovdqu16
  | vmovdqu32 => rwFuncVmovdqu32
  | vmovdqu64 => rwFuncVmovdqu64
  | vmovdqu8 => rwFuncVmovdqu8
  | vpandd => rwFuncVpandd
  | vpandq => rwFuncVpandq
  | vpcmpd => rwFuncVpcmpd
  | vpcmpud => rwFuncVpcmpud
  | vpcmpw => rwFuncVpcmpw
  | vpermi2q => rwFuncVpermi2q
  | vpermi2w => rwFuncVpermi2w
  | vpermt2d => rwFuncVpermt2d
  | vpermt2ps => rwFuncVpermt2ps
  | vpermt2q => rwFuncVpermt2q
  | vpermt2w => rwFuncVpermt2w
  | vpextrq => rwFuncVpextrq
  | vpmullq => rwFuncVpmullq
  | vporq => rwFuncVporq
  | vprolq => rwFuncVprolq
  | vprorq => rwFuncVprorq
  | vpscatterdd => rwFuncVpscatterdd
  | vpxord => rwFuncVpxord
  | vpxorq => rwFuncVpxorq
  | vrndscaleps => rwFuncVrndscaleps
  | vrndscalesd => rwFuncVrndscalesd
  | vrndscaless => rwFuncVrndscaless
  | vshufi32x4 => rwFuncVshufi32x4
  -- handlers that only say that they are not implemented
  | vpmovzxbd | vpmovzxbq | vpmovzxwq | kunpckdq | vpcmpq | vpscatterdq | vpscatterqd | vpscatterqq => unsupported

end RwFunc

/-! ## Operands -/

namespace DecForm

/-- A move between registers or between a register and memory. -/
def moves : List DecForm := [evex [.ve] [.k, .we], evex [.we] [.k, .ve]]

/-- Two vector sources, the second of which may be memory or an element of so many bytes that is
broadcast. -/
def arith (bytes : ℕ) : List DecForm :=
  [evex [.ve] [.k, .ve, .we], evex [.ve] [.k, .ve, .m bytes]]

/-- The same without broadcasting. -/
def wordArith : List DecForm := [evex [.ve] [.k, .ve, .we]]

/-- A shift, by an xmm register or memory, or by an immediate. -/
def shifts (bytes : ℕ) : List DecForm :=
  [evex [.ve] [.k, .ve, .wdq 16], evex [.ve] [.k, .ib, .we], evex [.ve] [.k, .ib, .m bytes]]

/-- A conversion to an integer register. -/
def toInt (bytes : ℕ) : List DecForm :=
  [lig [.gd] [.wdq bytes], lig [.gy] [.wdq bytes]]

/-- A scalar operation with a second source of so many bytes. -/
def scalar (bytes : ℕ) : List DecForm := [lig [.vdq] [.k, .vdq, .wdq bytes]]

/-- A move to or from an opmask register. -/
def kmov (bytes : ℕ) (r : OpType) : List DecForm :=
  [lig [.k] [.kq bytes], lig [.kq bytes] [.k], lig [.k] [.gy], lig [r] [.k]]

end DecForm

open DecForm

/-- The operand lists the decoder's tables have for the opcode of a handler. -/
def RwFunc.forms : RwFunc → List DecForm
  | .vmovss => [lig [.vdq] [.k, .m 4], lig [.vdq] [.k, .vdq, .vdq], lig [.m 4] [.k, .vdq]]
  | .vmovsd => [lig [.vdq] [.k, .m 8], lig [.vdq] [.k, .vdq, .vdq], lig [.m 8] [.k, .vdq]]
  | .vmovups | .vmovupd | .vmovaps | .vmovapd | .vmovdqa32 | .vmovdqa64 | .vmovdqu16
  | .vmovdqu32 | .vmovdqu64 | .vmovdqu8 =>
    moves
  | .vmovlps | .vmovhps => [lig [.vdq] [.vdq, .wdq 8], lig [.m 8] [.vdq]]
  | .vmovsldup | .vmovddup | .vmovshdup => [evex [.ve] [.k, .we]]
  | .vmovlpd | .vmovhpd => [lig [.vdq] [.vdq, .m 8], lig [.m 8] [.vdq]]
  | .vunpcklps | .vunpckhps | .vpsubd | .vpaddd | .vpmulld | .vpandd | .vpermt2d | .vpermt2ps
  | .vpxord =>
    arith 4
  | .vunpcklpd | .vunpckhpd | .vpaddq | .vpsubq | .vpandq | .vpermi2q | .vpermt2q | .vpmullq
  | .vporq | .vpxorq =>
    arith 8
  | .vcvtsi2ss | .vcvtusi2ss | .vcvtsi2sd | .vcvtusi2sd => [lig [.vdq] [.vdq, .ey]]
  | .vmovntps | .vmovntpd => [evex [.me] [.ve]]
  | .vcvttss2si | .vcvtss2si | .vcvttss2usi => toInt 4
  | .vcvttsd2si | .vcvtsd2si | .vcvttsd2usi => toInt 8
  | .vucomiss | .vcomiss => [lig [] [.vdq, .wdq 4]]
  | .vucomisd | .vcomisd => [lig [] [.vdq, .wdq 8]]
  | .vmovmskps | .vmovmskpd => []
  | .vsqrtps => [evex [.ve] [.k, .m 4], lig [.voq] [.k, .voq], evex [.ve] [.k, .we]]
  | .vsqrtss => scalar 4
  | .vsqrtpd => [evex [.ve] [.k, .m 8], lig [.voq] [.k, .voq], evex [.ve] [.k, .we]]
  | .vsqrtsd => scalar 8
  | .vpackuswb | .vpsubb | .vpsubw | .vpaddw | .vpermi2w | .vpermt2w => wordArith
  | .vmovq => [lig [.vdq] [.wdq 8], lig [.wdq 8] [.vdq], lig [.vdq] [.ey], lig [.ey] [.vdq]]
  | .vpsrlq | .vpsllq => shifts 8
  | .vpsrad | .vpslld => shifts 4
  | .vpsllw => [evex [.ve] [.k, .ve, .wdq 16], evex [.ve] [.k, .ib, .we]]
  | .vpsrldq => [evex [.ve] [.ib, .we]]
  | .vpmovsxwd | .vpmovsxdq | .vpmovzxbw | .vpmovzxwd | .vpmovzxdq => [evex [.ve] [.k, .wPart 2]]
  | .vpmovzxbd | .vpmovzxwq => [evex [.ve] [.k, .wPart 4]]
  | .vpmovzxbq => [evex [.ve] [.k, .wPart 8]]
  | .vpextrb => [lig [.rdMb] [.vdq, .ib]]
  | .vpextrd | .vpextrq => [lig [.ey] [.vdq, .ib]]
  | .vpgatherdd => [evex [.ve, .k] [.k, .mv 4]]
  | .vpgatherdq | .vpgatherqq => [evex [.ve, .k] [.k, .mv 8]]
  | .vpbroadcastb => [evex [.ve] [.k, .wdq 1], evex [.ve] [.k, .ed]]
  | .vpbroadcastw => [evex [.ve] [.k, .wdq 2], evex [.ve] [.k, .ed]]
  | .vpbroadcastd => [evex [.ve] [.k, .wdq 4], evex [.ve] [.k, .ed]]
  | .vpbroadcastq => [evex [.ve] [.k, .eq], evex [.ve] [.k, .wdq 8]]
  | .kmovw => kmov 2 .gd
  | .kmovb => kmov 1 .gd
  | .kmovq => kmov 8 .gy
  | .kmovd => kmov 4 .gd
  | .kandw | .kandb | .kandq | .kandd | .kandnw | .kandnb | .kandnq | .kandnd | .kunpckbw
  | .kunpckwd | .kunpckdq | .korw | .korb | .korq | .kord | .kxnorw | .kxnorb | .kxnorq
  | .kxnord | .kxorw | .kxorb | .kxorq | .kxord | .kaddw | .kaddb | .kaddq | .kaddd =>
    [lig [.k] [.k, .k]]
  | .knotw | .knotb | .knotq | .knotd | .kortestw | .kortestb | .kortestq | .kortestd | .ktestw
  | .ktestb | .ktestq | .ktestd =>
    [lig [.k] [.k]]
  | .kshiftlw | .kshiftlb | .kshiftlq | .kshiftld | .kshiftrw | .kshiftrb | .kshiftrq
  | .kshiftrd =>
    [lig [.k] [.k, .ib]]
  | .vextractf64x2 | .vextracti32x4 | .vextracti64x2 => [evex256 [.wdq 16] [.k, .ib, .ve]]
  | .vinserti64x4 => [lig [.voq] [.k, .ib, .voq, .wdq 16]]
  | .vpcmpd | .vpcmpud => [evex [.k] [.k, .ib, .ve, .we], evex [.k] [.k, .ib, .ve, .m 4]]
  | .vpcmpq => [evex [.k] [.k, .ib, .ve, .we], evex [.k] [.k, .ib, .ve, .m 8]]
  | .vpcmpw => [evex [.k] [.k, .ib, .ve, .we]]
  | .vprolq | .vprorq => [evex [.ve] [.k, .ib, .we], evex [.ve] [.k, .ib, .m 8]]
  | .vpscatterdd | .vpscatterqd => [evex [.mv 4, .k] [.k, .ve]]
  | .vpscatterdq | .vpscatterqq => [evex [.mv 8, .k] [.k, .ve]]
  | .vrndscaleps =>
    [evex [.ve] [.k, .ib, .m 4], lig [.voq] [.k, .ib, .voq], evex [.ve] [.k, .ib, .we]]
  | .vrndscalesd => [lig [.vdq] [.k, .ib, .vdq, .wdq 8]]
  | .vrndscaless => [lig [.vdq] [.k, .ib, .vdq, .wdq 4]]
  | .vshufi32x4 => [evex256 [.ve] [.k, .ib, .ve, .we], evex256 [.ve] [.k, .ib, .ve, .m 4]]

/-- The operands are such as the decoder delivers to the handler. -/
def RwFunc.Decodes (h : RwFunc) (i : AppInstr) : Prop :=
  ∃ f ∈ h.forms, i.classes ∈ f.classes

instance (h : RwFunc) (i : AppInstr) : Decidable (h.Decodes i) :=
  inferInstanceAs (Decidable (∃ f ∈ h.forms, i.classes ∈ f.classes))

/-! ## The table -/

/-- So many entries `rw_func_empty`. -/
def rwFuncEmpty (n : ℕ) : List (Option RwFunc) := List.replicate n none

/-- So many handlers in a row. -/
def rwFuncs (hs : List RwFunc) : List (Option RwFunc) := hs.map some

/-- `rewrite_funcs`.  An entry `none` is `rw_func_empty`. -/
def rewriteFuncs : List (Option RwFunc) :=
  rwFuncs [.vmovss, .vmovsd, .vmovups, .vmovupd, .vmovlps, .vmovsldup, .vmovlpd, .vmovddup,
    .vunpcklps, .vunpcklpd, .vunpckhps, .vunpckhpd, .vmovhps, .vmovshdup, .vmovhpd, .vmovaps,
    .vmovapd, .vcvtsi2ss, .vcvtsi2sd, .vmovntps, .vmovntpd, .vcvttss2si, .vcvttsd2si, .vcvtss2si,
    .vcvtsd2si, .vucomiss, .vucomisd, .vcomiss, .vcomisd, .vmovmskps, .vmovmskpd, .vsqrtps,
    .vsqrtss, .vsqrtpd, .vsqrtsd] ++ rwFuncEmpty 50 ++ rwFuncs [.vpackuswb] ++ rwFuncEmpty 13 ++
  rwFuncs [.vmovq] ++ rwFuncEmpty 10 ++ rwFuncs [.vpsrlq, .vpaddq] ++ rwFuncEmpty 12 ++
  rwFuncs [.vpsrad] ++ rwFuncEmpty 15 ++ rwFuncs [.vpsllw, .vpslld, .vpsllq] ++ rwFuncEmpty 4 ++
  rwFuncs [.vpsubb, .vpsubw, .vpsubd, .vpsubq] ++ rwFuncEmpty 1 ++
  rwFuncs [.vpaddw, .vpaddd, .vpsrldq] ++ rwFuncEmpty 33 ++ rwFuncs [.vpmovsxwd] ++ rwFuncEmpty 1 ++
  rwFuncs [.vpmovsxdq] ++ rwFuncEmpty 4 ++
  rwFuncs [.vpmovzxbw, .vpmovzxbd, .vpmovzxbq, .vpmovzxwd, .vpmovzxwq, .vpmovzxdq] ++
  rwFuncEmpty 9 ++ rwFuncs [.vpmulld] ++ rwFuncEmpty 6 ++ rwFuncs [.vpextrb, .vpextrd] ++
  rwFuncEmpty 220 ++ rwFuncs [.vpgatherdd, .vpgatherdq] ++ rwFuncEmpty 1 ++ rwFuncs [.vpgatherqq] ++
  rwFuncEmpty 20 ++ rwFuncs [.vpbroadcastb, .vpbroadcastw, .vpbroadcastd, .vpbroadcastq] ++
  rwFuncEmpty 4 ++
  rwFuncs [.kmovw, .kmovb, .kmovq, .kmovd, .kandw, .kandb, .kandq, .kandd, .kandnw, .kandnb,
    .kandnq, .kandnd, .kunpckbw, .kunpckwd, .kunpckdq, .knotw, .knotb, .knotq, .knotd, .korw, .korb,
    .korq, .kord, .kxnorw, .kxnorb, .kxnorq, .kxnord, .kxorw, .kxorb, .kxorq, .kxord, .kaddw,
    .kaddb, .kaddq, .kaddd, .kortestw, .kortestb, .kortestq, .kortestd, .kshiftlw, .kshiftlb,
    .kshiftlq, .kshiftld, .kshiftrw, .kshiftrb, .kshiftrq, .kshiftrd, .ktestw, .ktestb, .ktestq,
    .ktestd] ++ rwFuncEmpty 32 ++ rwFuncs [.vcvttsd2usi, .vcvttss2usi] ++ rwFuncEmpty 4 ++
  rwFuncs [.vcvtusi2sd, .vcvtusi2ss] ++ rwFuncEmpty 7 ++ rwFuncs [.vextractf64x2] ++
  rwFuncEmpty 1 ++ rwFuncs [.vextracti32x4] ++ rwFuncEmpty 1 ++ rwFuncs [.vextracti64x2] ++
  rwFuncEmpty 32 ++
  rwFuncs [.vinserti64x4, .vmovdqa32, .vmovdqa64, .vmovdqu16, .vmovdqu32, .vmovdqu64, .vmovdqu8] ++
  rwFuncEmpty 1 ++ rwFuncs [.vpandd] ++ rwFuncEmpty 2 ++ rwFuncs [.vpandq] ++ rwFuncEmpty 7 ++
  rwFuncs [.vpcmpd, .vpcmpq] ++ rwFuncEmpty 1 ++ rwFuncs [.vpcmpud] ++ rwFuncEmpty 2 ++
  rwFuncs [.vpcmpw] ++ rwFuncEmpty 9 ++ rwFuncs [.vpermi2q, .vpermi2w] ++ rwFuncEmpty 1 ++
  rwFuncs [.vpermt2d] ++ rwFuncEmpty 1 ++ rwFuncs [.vpermt2ps, .vpermt2q, .vpermt2w] ++
  rwFuncEmpty 3 ++ rwFuncs [.vpextrq] ++ rwFuncEmpty 35 ++ rwFuncs [.vpmullq] ++ rwFuncEmpty 1 ++
  rwFuncs [.vporq] ++ rwFuncEmpty 1 ++ rwFuncs [.vprolq] ++ rwFuncEmpty 3 ++ rwFuncs [.vprorq] ++
  rwFuncEmpty 2 ++ rwFuncs [.vpscatterdd, .vpscatterdq, .vpscatterqd, .vpscatterqq] ++
  rwFuncEmpty 15 ++ rwFuncs [.vpxord, .vpxorq] ++ rwFuncEmpty 17 ++
  rwFuncs [.vrndscaleps, .vrndscalesd, .vrndscaless] ++ rwFuncEmpty 26 ++ rwFuncs [.vshufi32x4] ++
  rwFuncEmpty 1

end DrAvx
