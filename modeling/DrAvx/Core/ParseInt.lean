import Mathlib.Data.Nat.Digits.Lemmas
import Mathlib.Data.BitVec

/-!
# Parsing an integer

`d_r_parse_int` reads a sign, a prefix and digits, in this order.  A string is the list of its
characters before the terminating NUL, and a pointer into it is the rest of the list.

## What is here

* `parseInt` and `strtoul`, with what is stored and where the parse ends.
* `parseDigits_append`: the loop over the digits computes Horner's rule modulo `2 ^ 64` and stops at
  the first character that is no digit.
* `Literal`, the ways to write a number down, and `parsesBack_iff`: which of them are read back.
-/

set_option autoImplicit false

namespace DrAvx.Text

/-! ## The parser -/

/-- The value of a digit or letter. -/
def digitValue (c : Char) : Option ℕ :=
  if '0' ≤ c ∧ c ≤ '9' then some (c.toNat - '0'.toNat)
  else if 'a' ≤ c ∧ c ≤ 'z' then some (c.toNat - 'a'.toNat + 10)
  else if 'A' ≤ c ∧ c ≤ 'Z' then some (c.toNat - 'A'.toNat + 10)
  else none

/-- A digit of the base. -/
def digitOf (base : ℕ) (c : Char) : Option ℕ := (digitValue c).filter (· < base)

/-- The loop over the digits, after `i` of them: their number, their value and the rest. -/
def parseDigits (base width : ℕ) : ℕ → BitVec 64 → List Char → ℕ × BitVec 64 × List Char
  | i, res, [] => (i, res, [])
  | i, res, c :: sp =>
    if width = 0 ∨ i < width then
      match digitOf base c with
      | some d => parseDigits base width (i + 1) (res * BitVec.ofNat 64 base + BitVec.ofNat 64 d) sp
      | none => (i, res, c :: sp)
    else (i, res, c :: sp)

/-- The sign: whether it is a minus, and the rest. -/
def parseSign (isSigned : Bool) : List Char → Bool × List Char
  | '-' :: sp => if isSigned then (true, sp) else (false, '-' :: sp)
  | '+' :: sp => (false, sp)
  | sp => (false, sp)

/-- The prefix `0x`: the base after it, and the rest. -/
def parseHexPrefix (base : ℕ) : List Char → ℕ × List Char
  | '0' :: 'x' :: rest => if base = 0 ∨ base = 16 then (16, rest) else (base, '0' :: 'x' :: rest)
  | sp => (base, sp)

/-- The prefix `0`, or none, where the base is still open. -/
def parseOctalPrefix (base : ℕ) (sp : List Char) : ℕ × List Char :=
  if base = 0 then
    match sp with
    | '0' :: rest => (8, rest)
    | sp => (10, sp)
  else (base, sp)

def parsePrefix (base : ℕ) (sp : List Char) : ℕ × List Char :=
  let (base, sp) := parseHexPrefix base sp
  parseOctalPrefix base sp

/-- `d_r_parse_int`: what is stored in `res_out`, if anything, and the end of the parse. -/
def parseInt (sp : List Char) (base width : ℕ) (isSigned : Bool) :
    Option (BitVec 64) × Option (List Char) :=
  if 36 < base ∨ base = 1 then (some (-1), none) else
    let (negative, sp) := parseSign isSigned sp
    let (base, sp) := parsePrefix base sp
    let (i, res, sp) := parseDigits base width 0 0 sp
    if i = 0 then (none, none) else (some (if negative then -res else res), some sp)

/-- `d_r_strtoul`, with the value it stores in `end`. -/
def strtoul (str : List Char) (base : ℕ) : BitVec 64 × Option (List Char) :=
  match parseInt str base 0 true with
  | (some num, some parseEnd) => (num, some parseEnd)
  | _ => (BitVec.allOnes 64, none)

/-! ## Digits -/

theorem digitOf_eq_some {base d : ℕ} {c : Char} :
    digitOf base c = some d ↔ digitValue c = some d ∧ d < base := by
  simp [digitOf, Option.filter_eq_some_iff]

theorem digitOf_eq_none_mono {base base' : ℕ} {c : Char} (hle : base' ≤ base)
    (h : digitOf base c = none) : digitOf base' c = none := by
  rw [Option.eq_none_iff_forall_ne_some] at h ⊢
  intro d hd
  obtain ⟨hvalue, hlt⟩ := digitOf_eq_some.1 hd
  exact h d (digitOf_eq_some.2 ⟨hvalue, hlt.trans_le hle⟩)

/-- The loop stops at once where there is no digit. -/
theorem parseDigits_stop {base : ℕ} {rest : List Char}
    (hrest : ∀ c ∈ rest.head?, digitOf base c = none) (i : ℕ) (res : BitVec 64) :
    parseDigits base 0 i res rest = (i, res, rest) := by
  cases rest with
  | nil => rfl
  | cons c rest => simp [parseDigits, hrest c (by simp)]

/-- The induction is on the digits, with the number and the value so far general. -/
theorem parseDigits_append {base : ℕ} {ds : List Char} {vs : List ℕ} {rest : List Char}
    (hds : ds.map digitValue = vs.map some) (hvs : ∀ v ∈ vs, v < base)
    (hrest : ∀ c ∈ rest.head?, digitOf base c = none) (i : ℕ) (res : BitVec 64) :
    parseDigits base 0 i res (ds ++ rest) =
      (i + vs.length, vs.foldl (fun r v ↦ r * BitVec.ofNat 64 base + BitVec.ofNat 64 v) res, rest) := by
  induction ds generalizing vs i res with
  | nil =>
    obtain rfl : vs = [] := by simpa using hds.symm
    simpa using parseDigits_stop hrest i res
  | cons c ds ih =>
    cases vs with
    | nil => simp at hds
    | cons v vs =>
      simp only [List.map_cons, List.cons.injEq] at hds
      have hdigit : digitOf base c = some v := digitOf_eq_some.2 ⟨hds.1, hvs v (by simp)⟩
      rw [List.cons_append, parseDigits, if_pos (Or.inl rfl), hdigit]
      simp only [List.foldl_cons, List.length_cons]
      rw [ih hds.2 (fun v' h ↦ hvs v' (List.mem_cons_of_mem v h))]
      congr 1
      omega

/-- Horner's rule in 64-bit arithmetic. -/
theorem foldl_ofNat (base : ℕ) (vs : List ℕ) (acc : ℕ) :
    vs.foldl (fun r v ↦ r * BitVec.ofNat 64 base + BitVec.ofNat 64 v) (BitVec.ofNat 64 acc) =
      BitVec.ofNat 64 (vs.foldl (fun r v ↦ r * base + v) acc) := by
  induction vs generalizing acc with
  | nil => rfl
  | cons v vs ih => rw [List.foldl_cons, ← BitVec.ofNat_mul, ← BitVec.ofNat_add, ih, List.foldl_cons]

/-- The digits of a number, the highest first; zero has one digit. -/
def digitsOf (base n : ℕ) : List ℕ := if n = 0 then [0] else (Nat.digits base n).reverse

theorem foldl_digitsOf (base n : ℕ) : (digitsOf base n).foldl (fun r v ↦ r * base + v) 0 = n := by
  rw [digitsOf]
  split_ifs with h
  · simp [h]
  · rw [List.foldl_reverse]
    conv_rhs => rw [← Nat.ofDigits_digits base n, Nat.ofDigits_eq_foldr]
    congr 1
    funext v r
    rw [Nat.add_comm, Nat.mul_comm, Nat.cast_id]

theorem lt_of_mem_digitsOf {base n v : ℕ} (hbase : 2 ≤ base) (h : v ∈ digitsOf base n) : v < base := by
  rw [digitsOf] at h
  split_ifs at h with hn
  · obtain rfl : v = 0 := by simpa using h
    omega
  · exact Nat.digits_lt_base hbase (List.mem_reverse.1 h)

/-- Only zero is written with a leading zero. -/
theorem exists_digitsOf_eq_cons (base : ℕ) {n : ℕ} (hn : n ≠ 0) :
    ∃ v vs, digitsOf base n = v :: vs ∧ v ≠ 0 := by
  have hne : Nat.digits base n ≠ [] := Nat.digits_ne_nil_iff_ne_zero.2 hn
  refine ⟨(Nat.digits base n).getLast hne, (Nat.digits base n).dropLast.reverse, ?_,
    Nat.getLast_digit_ne_zero base hn⟩
  rw [digitsOf, if_neg hn]
  conv_lhs => rw [← List.dropLast_append_getLast hne]
  simp

theorem digitValue_eq_zero {c : Char} (h : digitValue c = some 0) : c = '0' := by
  rw [digitValue] at h
  split_ifs at h with hdigit
  · refine Char.ext (UInt32.toNat_inj.1 ?_)
    have hle : '0'.toNat ≤ c.toNat := hdigit.1
    have hsub : c.toNat - '0'.toNat = 0 := Option.some.inj h
    exact Nat.le_antisymm (Nat.sub_eq_zero_iff_le.1 hsub) hle
  all_goals simp at h

/-! ## Literals -/

/-- How a number is written: with the digits of a base that the caller names, or, where the caller
leaves the base open, as a C literal. -/
inductive Literal
  | digits (base : ℕ)
  | decimal
  | octal
  | hex
  deriving DecidableEq

namespace Literal

/-- The argument `base`. -/
def base : Literal → ℕ
  | digits base => base
  | _ => 0

def radix : Literal → ℕ
  | digits base => base
  | decimal => 10
  | octal => 8
  | hex => 16

def lead : Literal → List Char
  | octal => ['0']
  | hex => ['0', 'x']
  | _ => []

end Literal

inductive Sign
  | none
  | plus
  | minus
  deriving DecidableEq

namespace Sign

def text : Sign → List Char
  | none => []
  | plus => ['+']
  | minus => ['-']

def apply (n : ℕ) : Sign → BitVec 64
  | minus => -BitVec.ofNat 64 n
  | _ => BitVec.ofNat 64 n

end Sign

/-- `ds` are the digits of `n`, with letters of either case, and what follows does not go on with a
digit. -/
structure Written (lit : Literal) (n : ℕ) (sign : Sign) (isSigned : Bool) (ds rest : List Char) :
    Prop where
  base : 2 ≤ lit.radix ∧ lit.radix ≤ 36
  lt : n < 2 ^ 64
  digits : ds.map digitValue = (digitsOf lit.radix n).map some
  stop : ∀ c ∈ rest.head?, digitOf lit.radix c = none
  sign : sign ≠ .none → isSigned = true

/-- The number is stored and the parse ends after the last digit. -/
def ParsesBack (lit : Literal) (n : ℕ) (sign : Sign) (isSigned : Bool) (ds rest : List Char) : Prop :=
  parseInt (sign.text ++ (lit.lead ++ ds ++ rest)) lit.base 0 isSigned =
      (some (sign.apply n), some rest) ∧
    strtoul (sign.text ++ (lit.lead ++ ds ++ rest)) lit.base = (sign.apply n, some rest)

section Parse

variable {lit : Literal} {n : ℕ} {sign : Sign} {isSigned : Bool} {ds rest : List Char}

theorem Written.cons (h : Written lit n sign isSigned ds rest) :
    ∃ c ds' v, ds = c :: ds' ∧ digitValue c = some v ∧ (n ≠ 0 → v ≠ 0) := by
  have hdigits := h.digits
  by_cases hn : n = 0
  · rw [hn, digitsOf, if_pos rfl] at hdigits
    obtain ⟨c, rfl, hc⟩ := List.map_eq_singleton_iff.1 hdigits
    exact ⟨c, [], 0, rfl, hc, fun h ↦ absurd hn h⟩
  · obtain ⟨v, vs, hvs, hv⟩ := exists_digitsOf_eq_cons lit.radix hn
    rw [hvs, List.map_cons] at hdigits
    obtain ⟨c, ds', rfl, hc, -⟩ := List.map_eq_cons_iff.1 hdigits
    exact ⟨c, ds', v, rfl, hc, fun _ ↦ hv⟩

/-- Zero is written with the one character. -/
theorem Written.eq_zero (h : Written lit 0 sign isSigned ds rest) : ds = ['0'] := by
  have hdigits := h.digits
  rw [digitsOf, if_pos rfl] at hdigits
  obtain ⟨c, rfl, hc⟩ := List.map_eq_singleton_iff.1 hdigits
  rw [digitValue_eq_zero hc]

/-- A sign is read off what begins with a digit. -/
theorem parseSign_text {c : Char} {v : ℕ} (hc : digitValue c = some v) (sp : List Char)
    (hsign : sign ≠ .none → isSigned = true) :
    parseSign isSigned (sign.text ++ c :: sp) = (decide (sign = .minus), c :: sp) := by
  have hminus : c ≠ '-' := by
    rintro rfl
    exact absurd ((by decide : digitValue '-' = none).symm.trans hc) (by simp)
  have hplus : c ≠ '+' := by
    rintro rfl
    exact absurd ((by decide : digitValue '+' = none).symm.trans hc) (by simp)
  cases sign with
  | none => simp [Sign.text, parseSign, hminus, hplus]
  | plus => simp [Sign.text, parseSign]
  | minus => simp [Sign.text, parseSign, hsign (by decide)]

/-! ### The prefix -/

theorem parseHexPrefix_eq_self {b : ℕ} {sp : List Char}
    (hx : b = 0 ∨ b = 16 → ∀ rest, sp ≠ '0' :: 'x' :: rest) : parseHexPrefix b sp = (b, sp) := by
  unfold parseHexPrefix
  split
  next rest => exact if_neg fun hb ↦ hx hb rest rfl
  next => rfl

theorem parsePrefix_of_base {b : ℕ} (hb : 2 ≤ b) {sp : List Char}
    (hx : b = 16 → ∀ rest, sp ≠ '0' :: 'x' :: rest) : parsePrefix b sp = (b, sp) := by
  have hhex : parseHexPrefix b sp = (b, sp) :=
    parseHexPrefix_eq_self fun h ↦ hx (h.resolve_left (by omega))
  rw [parsePrefix, hhex]
  exact if_neg (by omega)

theorem parsePrefix_decimal {c : Char} (hc : c ≠ '0') (sp : List Char) :
    parsePrefix 0 (c :: sp) = (10, c :: sp) := by
  have hhex : parseHexPrefix 0 (c :: sp) = (0, c :: sp) :=
    parseHexPrefix_eq_self fun _ rest h ↦ hc (List.cons.inj h).1
  rw [parsePrefix, hhex]
  simp [parseOctalPrefix, hc]

theorem parsePrefix_octal {sp : List Char} (hx : sp.head? ≠ some 'x') :
    parsePrefix 0 ('0' :: sp) = (8, sp) := by
  have hhex : parseHexPrefix 0 ('0' :: sp) = (0, '0' :: sp) :=
    parseHexPrefix_eq_self fun _ rest h ↦ hx (by rw [(List.cons.inj h).2, List.head?_cons])
  rw [parsePrefix, hhex]
  rfl

/-- The inputs that are not read back: a lone zero where the base is open is taken for the prefix of
an octal number, and one in base sixteen before an `x` for part of the prefix `0x`. -/
def Eaten (lit : Literal) (n : ℕ) (rest : List Char) : Prop :=
  n = 0 ∧ (lit = .decimal ∨ lit = .digits 16 ∧ rest.head? = some 'x')

theorem Written.parsePrefix (h : Written lit n sign isSigned ds rest) (hgood : ¬Eaten lit n rest) :
    parsePrefix lit.base (lit.lead ++ ds ++ rest) = (lit.radix, ds ++ rest) := by
  obtain ⟨c, ds', v, hds, hc, hv⟩ := h.cons
  have hzero : n ≠ 0 → c ≠ '0' := by
    rintro hn rfl
    exact hv hn (Option.some.inj (hc.symm.trans (by decide)))
  cases lit with
  | digits b =>
    refine parsePrefix_of_base h.base.1 fun hb tail heq ↦ ?_
    by_cases hn : n = 0
    · subst hn hb
      rw [h.eq_zero] at heq
      have hrest : rest = 'x' :: tail := (List.cons.inj heq).2
      exact hgood ⟨rfl, Or.inr ⟨rfl, by rw [hrest, List.head?_cons]⟩⟩
    · rw [hds] at heq
      exact hzero hn (List.cons.inj heq).1
  | decimal =>
    have hn : n ≠ 0 := fun hn ↦ hgood ⟨hn, Or.inl rfl⟩
    rw [hds]
    exact parsePrefix_decimal (hzero hn) _
  | octal =>
    refine parsePrefix_octal ?_
    rw [hds]
    change some c ≠ some 'x'
    intro hx
    -- the value of the letter is no octal digit
    obtain rfl : c = 'x' := Option.some.inj hx
    have hmem : some v ∈ (digitsOf Literal.octal.radix n).map some := by
      rw [← h.digits, hds, List.map_cons, hc]
      exact List.mem_cons_self
    obtain ⟨w, hw, hwv⟩ := List.mem_map.1 hmem
    have hlt : w < 8 := lt_of_mem_digitsOf h.base.1 hw
    have hvalue : w = 33 := Option.some.inj (hwv.trans (hc.symm.trans (by decide)))
    omega
  | hex => rfl

/-! ### The whole parse -/

theorem length_parseDigits_le (base width i : ℕ) (res : BitVec 64) (sp : List Char) :
    (parseDigits base width i res sp).2.2.length ≤ sp.length := by
  induction sp generalizing i res with
  | nil => simp [parseDigits]
  | cons c sp ih =>
    rw [parseDigits]
    split_ifs
    · split
      next d _ => exact (ih _ _).trans (Nat.le_succ _)
      next => rfl
    · rfl

/-- What comes after the sign begins with a digit, so that the sign is read as it was written. -/
theorem Written.parseInt (h : Written lit n sign isSigned ds rest) {isSigned' : Bool}
    (hsign : sign ≠ .none → isSigned' = true) :
    parseInt (sign.text ++ (lit.lead ++ ds ++ rest)) lit.base 0 isSigned' =
      let p := Text.parsePrefix lit.base (lit.lead ++ ds ++ rest)
      let r := parseDigits p.1 0 0 0 p.2
      if r.1 = 0 then (none, none)
      else (some (if sign = .minus then -r.2.1 else r.2.1), some r.2.2) := by
  obtain ⟨c, ds', v, rfl, hc, -⟩ := h.cons
  have hbase : ¬(36 < lit.base ∨ lit.base = 1) := by
    have := h.base
    cases lit with
    | digits b => simp only [Literal.radix, Literal.base] at this ⊢; omega
    | decimal => decide
    | octal => decide
    | hex => decide
  obtain ⟨c', v', body, hbody, hc'⟩ : ∃ c' v' body,
      lit.lead ++ c :: ds' ++ rest = c' :: body ∧ digitValue c' = some v' := by
    cases lit with
    | digits b => exact ⟨c, v, ds' ++ rest, rfl, hc⟩
    | decimal => exact ⟨c, v, ds' ++ rest, rfl, hc⟩
    | octal => exact ⟨'0', 0, c :: ds' ++ rest, rfl, by decide⟩
    | hex => exact ⟨'0', 0, 'x' :: c :: ds' ++ rest, rfl, by decide⟩
  rw [Text.parseInt, if_neg hbase, hbody, parseSign_text hc' body hsign]
  simp

theorem Written.parsesBack (h : Written lit n sign isSigned ds rest) (hgood : ¬Eaten lit n rest) :
    ParsesBack lit n sign isSigned ds rest := by
  have hvalue : (digitsOf lit.radix n).foldl
      (fun r v ↦ r * BitVec.ofNat 64 lit.radix + BitVec.ofNat 64 v) 0 = BitVec.ofNat 64 n := by
    have := foldl_ofNat lit.radix (digitsOf lit.radix n) 0
    rwa [foldl_digitsOf] at this
  have hcount : 0 + (digitsOf lit.radix n).length ≠ 0 := by
    obtain ⟨c, ds', v, rfl, -, -⟩ := h.cons
    have := congrArg List.length h.digits
    simp only [List.length_map, List.length_cons] at this
    omega
  have hparse {isSigned' : Bool} (hsign : sign ≠ .none → isSigned' = true) :
      Text.parseInt (sign.text ++ (lit.lead ++ ds ++ rest)) lit.base 0 isSigned' =
        (some (sign.apply n), some rest) := by
    rw [h.parseInt hsign, h.parsePrefix hgood]
    simp only [parseDigits_append h.digits (fun v hv ↦ lt_of_mem_digitsOf h.base.1 hv) h.stop,
      hvalue, if_neg hcount]
    cases sign <;> rfl
  refine ⟨hparse h.sign, ?_⟩
  rw [strtoul, hparse fun _ ↦ rfl]

/-- Where the zero is eaten, the parse fails or ends further on. -/
theorem Written.not_parsesBack (h : Written lit n sign isSigned ds rest) (hbad : Eaten lit n rest) :
    ¬ParsesBack lit n sign isSigned ds rest := by
  rintro ⟨hparse, -⟩
  obtain ⟨rfl, hlit⟩ := hbad
  rw [h.parseInt h.sign, h.eq_zero] at hparse
  have hend {base : ℕ} {sp : List Char}
      (hlead : Text.parsePrefix lit.base (lit.lead ++ ['0'] ++ rest) = (base, sp)) :
      (parseDigits base 0 0 0 sp).1 ≠ 0 ∧ (parseDigits base 0 0 0 sp).2.2 = rest := by
    simp only [hlead] at hparse
    have h0 : (parseDigits base 0 0 0 sp).1 ≠ 0 := fun h0 ↦ by
      rw [if_pos h0] at hparse
      exact absurd (Prod.mk.inj hparse).1 (by simp)
    rw [if_neg h0] at hparse
    exact ⟨h0, Option.some.inj (Prod.mk.inj hparse).2⟩
  by_cases hx : rest.head? = some 'x'
  · obtain ⟨tail, rfl⟩ : ∃ tail, rest = 'x' :: tail := List.head?_eq_some_iff.1 hx
    have hlead : Text.parsePrefix lit.base (lit.lead ++ ['0'] ++ 'x' :: tail) = (16, tail) := by
      rcases hlit with rfl | ⟨rfl, -⟩ <;> rfl
    have hle := length_parseDigits_le 16 0 0 0 tail
    rw [(hend hlead).2, List.length_cons] at hle
    omega
  · obtain rfl : lit = .decimal := hlit.resolve_right fun hl ↦ hx hl.2
    have hstop : ∀ c ∈ rest.head?, digitOf 8 c = none := fun c hc ↦
      digitOf_eq_none_mono (by decide) (h.stop c hc)
    refine (hend (parsePrefix_octal hx)).1 ?_
    change (parseDigits 8 0 0 0 rest).1 = 0
    rw [parseDigits_stop hstop]

/-- Every literal is read back but for those whose zero is taken for a prefix. -/
theorem parsesBack_iff (h : Written lit n sign isSigned ds rest) :
    ParsesBack lit n sign isSigned ds rest ↔
      ¬(n = 0 ∧ (lit = .decimal ∨ lit = .digits 16 ∧ rest.head? = some 'x')) :=
  ⟨fun hback hbad ↦ h.not_parsesBack hbad hback, h.parsesBack⟩

/-- The number seven in binary, with a minus sign. -/
theorem parsesBack_iff_seven :
    ParsesBack (.digits 2) 7 .minus true ['1', '1', '1'] [] ↔
      ¬(7 = 0 ∧ (Literal.digits 2 = .decimal ∨ Literal.digits 2 = .digits 16 ∧
        ([] : List Char).head? = some 'x')) :=
  parsesBack_iff ⟨by decide, by decide, by decide, by simp, fun _ ↦ rfl⟩

/-- A lone zero with the base left open, and a zero before an `x` in base sixteen. -/
theorem parseInt_zero :
    parseInt ['0'] 0 0 true = (none, none) ∧ strtoul ['0'] 0 = (BitVec.allOnes 64, none) ∧
      parseInt ['0', 'x'] 16 0 true = (none, none) := by
  decide

end Parse

end DrAvx.Text
