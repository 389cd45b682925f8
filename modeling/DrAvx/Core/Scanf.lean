import Mathlib.Tactic.FinCases
import DrAvx.Core.ParseInt

/-!
# Scanning a string by a format

`d_r_vsscanf` walks a format and an input at the same time.  A round of its loop reads one item of
the format, matches it against the input and leaves two positions; the next round goes on from
both.

## What is here

* `round` and `vsscanf`, the scan as the code has it.
* `Item`, the documented items of a format with their text, what each of them matches, and
  `expected`, the number of conversions that a scan item by item matches.
* `Follows`: a round that starts at an item ends at the next one.  `composes_iff` names the items of
  which this is true: a set leaves the format at its closing bracket, which is then taken for a
  literal character; `%%` is refused; and a string that is not stored is matched without regard to
  its width.
-/

set_option autoImplicit false

namespace DrAvx.Text

/-! ## The scan -/

/-- `our_isspace`. -/
def isSpace (c : Char) : Bool :=
  c = ' ' || c = '\x0c' || c = '\n' || c = '\r' || c = '\t' || c = '\x0b'

/-- The value of a `char`, which is signed. -/
def charValue (c : Char) : ℤ := if c.toNat < 128 then c.toNat else c.toNat - 256

/-- `in_charset_helper`; `first` holds at the beginning of the set, where a bracket does not close
it.  Every turn of its loop takes a character. -/
def inCharsetHelper (c : Char) : ℕ → Bool → List Char → Bool
  | 0, _, _ => false
  | _, _, [] => false
  | fuel + 1, first, f :: fp =>
    if f = ']' ∧ first = false then false
    else if c = f then true
    else
      match fp with
      | '-' :: hi :: rest =>
        if hi = ']' then inCharsetHelper c fuel false fp
        else if charValue f ≤ charValue c ∧ charValue c ≤ charValue hi then true
        else inCharsetHelper c fuel false rest
      | _ => inCharsetHelper c fuel false fp

def inCharset (c : Char) : List Char → Bool
  | '^' :: fp => !inCharsetHelper c fp.length true fp
  | fp => inCharsetHelper c fp.length true fp

inductive IntSize
  | short
  | int
  | long
  | longlong

inductive Specifier
  | int (base : ℕ) (isSigned : Bool)
  | char
  | string
  | charset (set : List Char)

structure Conversion where
  spec : Specifier
  intSize : IntSize
  isIgnored : Bool
  width : ℕ

/-- The validation of a set: the format from the closing bracket on. -/
def closeSet (fp : List Char) : Option (List Char) :=
  let fp := match fp with
    | '^' :: fp => fp
    | fp => fp
  let fp := match fp with
    | ']' :: fp => fp
    | fp => fp
  match fp.dropWhile (· ≠ ']') with
  | [] => none
  | fp => some fp

/-- The loop over modifiers up to a specifier, on a 64-bit Linux build.  The assertions have no
effect. -/
def parseSpec (size : IntSize) (ignored : Bool) (width : ℕ) :
    List Char → Option (Conversion × List Char)
  | [] => none
  | 'l' :: fp =>
    match size with
    | .int => parseSpec .long ignored width fp
    | .long => parseSpec .longlong ignored width fp
    | _ => none
  | 'h' :: fp => parseSpec .short ignored width fp
  | 'z' :: fp => parseSpec .long ignored width fp
  | '*' :: fp => parseSpec size true width fp
  | 'I' :: fp =>
    if fp.take 2 = ['3', '2'] then parseSpec .int ignored width fp
    else if fp.take 2 = ['6', '4'] then parseSpec .longlong ignored width fp
    else none
  | 'u' :: fp => some (⟨.int 10 false, size, ignored, width⟩, fp)
  | 'd' :: fp => some (⟨.int 10 true, size, ignored, width⟩, fp)
  | 'x' :: fp => some (⟨.int 16 false, size, ignored, width⟩, fp)
  | 'p' :: fp => some (⟨.int 16 false, .long, ignored, width⟩, fp)
  | 'c' :: fp => some (⟨.char, size, ignored, width⟩, fp)
  | 's' :: fp => some (⟨.string, size, ignored, width⟩, fp)
  | '[' :: fp => (closeSet fp).map fun close ↦ (⟨.charset fp, size, ignored, width⟩, close)
  | c :: fp =>
    if '0' ≤ c ∧ c ≤ '9' then
      parseSpec size ignored ((width * 10 + (c.toNat - '0'.toNat)) % 2 ^ 32) fp
    else none

/-- What is stored through an output pointer. -/
inductive Stored
  | char (c : Char)
  | string (s : List Char)
  | int (size : IntSize) (res : Option (BitVec 64))

/-- Up to `limit` characters that satisfy `p`, and the rest. -/
def copyWhile (p : Char → Bool) : ℕ → List Char → List Char × List Char
  | 0, sp => ([], sp)
  | _, [] => ([], [])
  | limit + 1, c :: sp =>
    if p c then (c :: (copyWhile p limit sp).1, (copyWhile p limit sp).2) else ([], c :: sp)

/-- The loops of a stored string or set; a width of zero is none. -/
def matchRun (p : Char → Bool) (width : ℕ) (sp : List Char) : List Char × List Char :=
  if 0 < width then copyWhile p width sp else (sp.takeWhile p, sp.dropWhile p)

/-- The match of a conversion: the rest of the input, and what is stored unless it is ignored. -/
def convert (conv : Conversion) (sp : List Char) : Option (List Char × Option Stored) :=
  let run (p : Char → Bool) :=
    if conv.isIgnored then (sp.dropWhile p, none)
    else ((matchRun p conv.width sp).2, some (Stored.string (matchRun p conv.width sp).1))
  match conv.spec with
  | .char =>
    some (sp.tail, if conv.isIgnored then none else some (.char (sp.headD '\x00')))
  | .string => some (run fun c ↦ !isSpace c)
  | .int base isSigned =>
    match parseInt (sp.dropWhile isSpace) base conv.width isSigned with
    | (res, some sp) => some (sp, if conv.isIgnored then none else some (.int conv.intSize res))
    | (_, none) => none
  | .charset set => some (run fun c ↦ inCharset c set)

/-- The end of a round: a return, or the two positions and what was stored. -/
inductive Round
  | stop
  | next (fp sp : List Char) (out : Option Stored)

/-- A round of the loop; neither string is at its end. -/
def round : List Char → List Char → Round
  | [], _ => .stop
  | _, [] => .stop
  | c :: fp, s :: sp =>
    if isSpace c then .next fp ((s :: sp).dropWhile isSpace) none
    else if c ≠ '%' then (if c = s then .next fp sp none else .stop)
    else
      match parseSpec .int false 0 fp with
      | none => .stop
      | some (conv, fp) =>
        match convert conv (s :: sp) with
        | none => .stop
        | some (sp, out) => .next fp sp out

/-- What the loop stores, in this order.  Every round takes a character of the format, so that as
many rounds as it has are enough. -/
def scan : ℕ → List Char → List Char → List Stored
  | 0, _, _ => []
  | fuel + 1, fp, sp =>
    match round fp sp with
    | .stop => []
    | .next fp sp out => out.toList ++ scan fuel fp sp

/-- `d_r_vsscanf`: the number of conversions that were stored. -/
def vsscanf (str fmt : List Char) : ℕ := (scan fmt.length fmt str).length

/-! ## Items -/

/-- The decimal digits of a width that fits a `uint`; no digits stand for no width. -/
structure Width where
  digits : List (Fin 10)
  lt : digits.foldl (fun w d ↦ w * 10 + d.val) 0 < 2 ^ 32

def Width.value (w : Width) : ℕ := w.digits.foldl (fun w d ↦ w * 10 + d.val) 0

def digitChar (d : Fin 10) : Char := Char.ofNat ('0'.toNat + d.val)

/-- The text of a set between its brackets: after a caret or none, a first character, which may be a
bracket, and characters that are not. -/
structure SetText where
  text : List Char
  closed : ∃ first rest, ']' ∉ rest ∧ (text = '^' :: first :: rest ∨ text = first :: rest ∧ first ≠ '^')

inductive Kind
  | d
  | u
  | x
  | s
  | c
  | set (t : SetText)

/-- An item of a format. -/
inductive Item
  | space (c : { c : Char // isSpace c = true })
  | literal (c : { c : Char // isSpace c = false ∧ c ≠ '%' })
  | percent
  | conversion (ignored : Bool) (width : Width) (kind : Kind)

namespace Kind

def text : Kind → List Char
  | d => ['d']
  | u => ['u']
  | x => ['x']
  | s => ['s']
  | c => ['c']
  | set t => '[' :: t.text ++ [']']

/-- What a conversion matches, as documented: the rest of the input. -/
def matches? (width : ℕ) (sp : List Char) : Kind → Option (List Char)
  | d => (parseInt (sp.dropWhile isSpace) 10 width true).2
  | u => (parseInt (sp.dropWhile isSpace) 10 width false).2
  | x => (parseInt (sp.dropWhile isSpace) 16 width false).2
  | s => some (matchRun (fun c ↦ !isSpace c) width sp).2
  | c => some sp.tail
  | set t => some (matchRun (fun c ↦ inCharset c (t.text ++ [']'])) width sp).2

end Kind

namespace Item

def text : Item → List Char
  | space c => [c.val]
  | literal c => [c.val]
  | percent => ['%', '%']
  | conversion ignored width kind =>
    '%' :: ((if ignored then ['*'] else []) ++ (width.digits.map digitChar ++ kind.text))

/-- Whether a match adds to the result. -/
def counts : Item → Bool
  | conversion ignored _ _ => !ignored
  | _ => false

/-- The input after the item has matched. -/
def matches? (sp : List Char) : Item → Option (List Char)
  | space _ => some (sp.dropWhile isSpace)
  | literal c => if sp.head? = some c.val then some sp.tail else none
  | percent => if sp.head? = some '%' then some sp.tail else none
  | conversion _ width kind => kind.matches? width.value sp

/-- Not one of the items that the code handles in its own way. -/
def Plain : Item → Prop
  | percent => False
  | conversion _ _ (.set _) => False
  | conversion ignored width .s => ignored = false ∨ width.value = 0
  | _ => True

end Item

def formatText (items : List Item) : List Char := items.flatMap Item.text

/-- The number of conversions, but for ignored ones, that match before the first item that does not
or the end of the input. -/
def expected : List Item → List Char → ℕ
  | [], _ => 0
  | _, [] => 0
  | item :: items, s :: sp =>
    match item.matches? (s :: sp) with
    | none => 0
    | some rest => (if item.counts then 1 else 0) + expected items rest

/-- A round at the item, with `more` of the format after it, stops when the item does not match and
goes on with `more` and the rest of the input when it does. -/
def Follows (item : Item) (more sp : List Char) : Prop :=
  match item.matches? sp with
  | none => round (item.text ++ more) sp = .stop
  | some rest => ∃ out, round (item.text ++ more) sp = .next more rest out ∧ out.isSome = item.counts

/-- The scan goes from item to item, and its result is the number that this gives. -/
def Composes (items : List Item) : Prop :=
  (∀ pre item post, items = pre ++ item :: post → ∀ sp ≠ [], Follows item (formatText post) sp) ∧
    ∀ str, vsscanf str (formatText items) = expected items str

/-! ## The text of a conversion -/

theorem parseSpec_digit (size : IntSize) (ignored : Bool) (width : ℕ) (d : Fin 10) (fp : List Char) :
    parseSpec size ignored width (digitChar d :: fp) =
      parseSpec size ignored ((width * 10 + d.val) % 2 ^ 32) fp := by
  fin_cases d <;> rfl

theorem foldl_mod (ds : List (Fin 10)) (w : ℕ) :
    ds.foldl (fun w d ↦ (w * 10 + d.val) % 2 ^ 32) (w % 2 ^ 32) =
      ds.foldl (fun w d ↦ w * 10 + d.val) w % 2 ^ 32 := by
  induction ds generalizing w with
  | nil => rfl
  | cons d ds ih =>
    rw [List.foldl_cons, List.foldl_cons, ← ih]
    congr 1
    omega

theorem parseSpec_digits (size : IntSize) (ignored : Bool) (ds : List (Fin 10)) (width : ℕ)
    (fp : List Char) : parseSpec size ignored width (ds.map digitChar ++ fp) =
      parseSpec size ignored (ds.foldl (fun w d ↦ (w * 10 + d.val) % 2 ^ 32) width) fp := by
  induction ds generalizing width with
  | nil => rfl
  | cons d ds ih => rw [List.map_cons, List.cons_append, parseSpec_digit, ih, List.foldl_cons]

/-- The modifiers are read as they were written. -/
theorem parseSpec_modifiers (ignored : Bool) (width : Width) (fp : List Char) :
    parseSpec .int false 0
        ((if ignored then ['*'] else []) ++ (width.digits.map digitChar ++ fp)) =
      parseSpec .int ignored width.value fp := by
  have hwidth : width.digits.foldl (fun w d ↦ (w * 10 + d.val) % 2 ^ 32) 0 = width.value :=
    (foldl_mod width.digits 0).trans (Nat.mod_eq_of_lt width.lt)
  cases ignored with
  | false =>
    change parseSpec .int false 0 (width.digits.map digitChar ++ fp) = _
    rw [parseSpec_digits, hwidth]
  | true =>
    change parseSpec .int true 0 (width.digits.map digitChar ++ fp) = _
    rw [parseSpec_digits, hwidth]

/-- The format is left at the bracket that closes the set. -/
theorem closeSet_text (t : SetText) (more : List Char) :
    closeSet (t.text ++ ']' :: more) = some (']' :: more) := by
  obtain ⟨first, rest, hrest, htext⟩ := t.closed
  have hdrop : (rest ++ ']' :: more).dropWhile (fun c ↦ !decide (c = ']')) = ']' :: more := by
    rw [List.dropWhile_append_of_pos fun c hc ↦ by
      simpa using fun h : c = ']' ↦ hrest (h ▸ hc)]
    simp
  by_cases hfirst : first = ']'
  · subst hfirst
    rcases htext with htext | ⟨htext, -⟩ <;> simp [closeSet, htext, hdrop]
  · rcases htext with htext | ⟨htext, hcaret⟩
    · simp [closeSet, htext, hfirst, hdrop]
    · simp [closeSet, htext, hfirst, hcaret, hdrop]

/-! ## A round at an item -/

theorem round_conversion (ignored : Bool) (width : Width) (kind : Kind) (more : List Char) (s : Char)
    (sp : List Char) :
    round ((Item.conversion ignored width kind).text ++ more) (s :: sp) =
      match parseSpec .int ignored width.value (kind.text ++ more) with
      | none => .stop
      | some (conv, fp) =>
        match convert conv (s :: sp) with
        | none => .stop
        | some (sp, out) => .next fp sp out := by
  rw [← parseSpec_modifiers ignored width (kind.text ++ more), Item.text]
  simp only [List.cons_append, List.append_assoc]
  rfl

/-- A number that is matched is left at the same place whether it is stored or not. -/
theorem follows_int {ignored : Bool} {width : Width} {kind : Kind} {base : ℕ} {isSigned : Bool}
    (htext : ∀ more, parseSpec .int ignored width.value (kind.text ++ more) =
      some (⟨.int base isSigned, .int, ignored, width.value⟩, more))
    (hmatch : ∀ sp, kind.matches? width.value sp =
      (parseInt (sp.dropWhile isSpace) base width.value isSigned).2)
    (more : List Char) (s : Char) (sp : List Char) :
    Follows (.conversion ignored width kind) more (s :: sp) := by
  rw [Follows, Item.matches?, hmatch, round_conversion, htext]
  simp only [convert]
  rcases parseInt ((s :: sp).dropWhile isSpace) base width.value isSigned with ⟨res, _ | rest⟩
  · rfl
  · exact ⟨_, rfl, by cases ignored <;> rfl⟩

theorem Item.Plain.follows {item : Item} (h : item.Plain) (more : List Char) {sp : List Char}
    (hsp : sp ≠ []) : Follows item more sp := by
  obtain ⟨s, sp, rfl⟩ := List.exists_cons_of_ne_nil hsp
  cases item with
  | space c => exact ⟨none, by simp [Item.text, round, c.property], rfl⟩
  | literal c =>
    obtain ⟨c, hspace, hpercent⟩ := c
    by_cases hc : c = s
    · subst hc
      simp [Follows, Item.matches?, Item.text, round, hspace, hpercent, Item.counts]
    · simp [Follows, Item.matches?, Item.text, round, hspace, hpercent, hc, Ne.symm hc]
  | percent => exact h.elim
  | conversion ignored width kind =>
    cases kind with
    | d => exact follows_int (fun _ ↦ rfl) (fun _ ↦ rfl) more s sp
    | u => exact follows_int (fun _ ↦ rfl) (fun _ ↦ rfl) more s sp
    | x => exact follows_int (fun _ ↦ rfl) (fun _ ↦ rfl) more s sp
    | c => exact ⟨_, round_conversion ignored width .c more s sp, by cases ignored <;> rfl⟩
    | s =>
      cases ignored with
      | false => exact ⟨_, round_conversion false width .s more s sp, rfl⟩
      | true =>
        -- an ignored string has no width here, and the two loops are one
        have hzero : width.value = 0 := h.resolve_left (by simp)
        refine ⟨none, (round_conversion true width .s more s sp).trans ?_, rfl⟩
        simp [Kind.text, parseSpec, convert, hzero, matchRun]
    | set t => exact h.elim

theorem not_follows_percent (more : List Char) : ¬Follows .percent more ['%'] := by
  rintro ⟨out, hround, -⟩
  exact absurd hround (by simp [Item.text, round, isSpace, parseSpec])

/-- The format is not at the next item, which begins after the bracket. -/
theorem not_follows_set (ignored : Bool) (width : Width) (t : SetText) (more : List Char) :
    ¬Follows (.conversion ignored width (.set t)) more ['%'] := by
  rintro ⟨out, hround, -⟩
  have htext : (Kind.set t).text ++ more = '[' :: (t.text ++ ']' :: more) := by simp [Kind.text]
  have hspec : parseSpec .int ignored width.value ('[' :: (t.text ++ ']' :: more)) =
      some (⟨.charset (t.text ++ ']' :: more), .int, ignored, width.value⟩, ']' :: more) := by
    change (closeSet (t.text ++ ']' :: more)).map _ = _
    rw [closeSet_text]
    rfl
  rw [round_conversion, htext, hspec] at hround
  have hfp : ']' :: more = more := by
    simp only [convert] at hround
    exact (Round.next.inj hround).1
  exact absurd (congrArg List.length hfp) (by simp)

/-- One character more than the width is left over, but the loop takes it. -/
theorem not_follows_ignored {width : Width} (hwidth : width.value ≠ 0) (more : List Char) :
    ¬Follows (.conversion true width .s) more (List.replicate (width.value + 1) 'a') := by
  have hcopy (k : ℕ) : (copyWhile (fun c ↦ !isSpace c) k (List.replicate (k + 1) 'a')).2 = ['a'] := by
    induction k with
    | zero => rfl
    | succ k ih => simpa [List.replicate_succ, copyWhile, isSpace] using ih
  have hdrop (k : ℕ) : (List.replicate k 'a').dropWhile (fun c ↦ !isSpace c) = [] := by
    simp [isSpace]
  rintro ⟨out, hround, -⟩
  have hrest := hcopy width.value
  have hrun : (matchRun (fun c ↦ !isSpace c) width.value (List.replicate (width.value + 1) 'a')).2 =
      ['a'] := by
    rw [matchRun, if_pos (Nat.pos_of_ne_zero hwidth), hrest]
  rw [hrun, List.replicate_succ, round_conversion] at hround
  simp [Kind.text, parseSpec, convert, ← List.replicate_succ, hdrop] at hround

/-! ## The whole format -/

theorem Item.text_length_pos (item : Item) : 0 < item.text.length := by
  cases item <;> simp [Item.text]

theorem length_scan {items : List Item} (h : ∀ item ∈ items, item.Plain) {fuel : ℕ}
    (hfuel : (formatText items).length ≤ fuel) (str : List Char) :
    (scan fuel (formatText items) str).length = expected items str := by
  induction items generalizing fuel str with
  | nil => cases fuel <;> simp [scan, formatText, round, expected]
  | cons item items ih =>
    have hcons : formatText (item :: items) = item.text ++ formatText items := rfl
    have hpos := item.text_length_pos
    rw [hcons, List.length_append] at hfuel
    obtain ⟨fuel, rfl⟩ : ∃ k, fuel = k + 1 := ⟨fuel - 1, by omega⟩
    cases str with
    | nil =>
      obtain ⟨c, text, htext⟩ := List.exists_cons_of_ne_nil (List.length_pos_iff.1 hpos)
      simp [scan, hcons, htext, round, expected]
    | cons s sp =>
      have hfollows := (h item List.mem_cons_self).follows (formatText items) (List.cons_ne_nil s sp)
      rw [Follows] at hfollows
      rw [scan, hcons, expected]
      cases hmatch : item.matches? (s :: sp) with
      | none =>
        rw [hmatch] at hfollows
        rw [hfollows]
        rfl
      | some rest =>
        rw [hmatch] at hfollows
        obtain ⟨out, hround, hout⟩ := hfollows
        have hlater : (scan fuel (formatText items) rest).length = expected items rest :=
          ih (fun item' h' ↦ h item' (List.mem_cons_of_mem item h')) (by omega) rest
        rw [hround]
        simp only [List.length_append, hlater, ← hout]
        cases out <;> rfl

/-- The scan goes from item to item exactly for the formats whose items are plain. -/
theorem composes_iff (items : List Item) : Composes items ↔ ∀ item ∈ items, item.Plain := by
  constructor
  · rintro ⟨hfollows, -⟩ item hitem
    obtain ⟨pre, post, rfl⟩ := List.append_of_mem hitem
    have hat := hfollows pre item post rfl
    cases item with
    | space c => trivial
    | literal c => trivial
    | percent => exact absurd (hat _ (by simp)) (not_follows_percent _)
    | conversion ignored width kind =>
      cases kind with
      | set t => exact absurd (hat _ (by simp)) (not_follows_set ignored width t _)
      | s =>
        cases ignored with
        | false => exact Or.inl rfl
        | true =>
          refine Or.inr (by_contra fun hwidth ↦ ?_)
          exact not_follows_ignored hwidth _ (hat _ (by simp))
      | d => trivial
      | u => trivial
      | x => trivial
      | c => trivial
  · intro h
    refine ⟨fun pre item post heq sp hsp ↦ (h item (by simp [heq])).follows _ hsp, fun str ↦ ?_⟩
    exact length_scan h le_rfl str

/-- A set before a number, and a percent sign before one: the number is there and is not matched. -/
theorem vsscanf_short :
    vsscanf ['a', '5'] ['%', '[', 'a', ']', '%', 'd'] = 1 ∧
      vsscanf ['%', '5'] ['%', '%', '%', 'd'] = 0 ∧
      vsscanf ['a', 'b', 'c', 'd'] ['%', '*', '3', 's', '%', 's'] = 0 := by
  decide

/-! ## How much is stored -/

theorem closeSet_suffix {fp close : List Char} (h : closeSet fp = some close) : close <:+ fp := by
  simp only [closeSet] at h
  split at h
  · simp at h
  · obtain rfl := Option.some.inj h
    refine (List.dropWhile_suffix _).trans ?_
    split
    · next l hl =>
      split at hl <;> subst hl
      · exact (List.suffix_cons _ _).trans (List.suffix_cons _ _)
      · exact List.suffix_cons _ _
    · split
      · exact List.suffix_cons _ _
      · exact List.suffix_rfl

theorem parseSpec_suffix {size : IntSize} {ignored : Bool} {width : ℕ} {fp rest : List Char}
    {conv : Conversion} (h : parseSpec size ignored width fp = some (conv, rest)) :
    rest <:+ fp := by
  fun_induction parseSpec size ignored width fp with
  | case17 size ignored width fp =>
    obtain ⟨close, hclose, heq⟩ := Option.map_eq_some_iff.1 h
    obtain ⟨-, rfl⟩ := Prod.mk.inj heq
    exact (closeSet_suffix hclose).trans (List.suffix_cons _ _)
  | _ => grind [List.IsSuffix.trans, List.suffix_cons]

/-- A round that stores something has read a percent sign of the format. -/
theorem count_round {fp sp fp' sp' : List Char} {out : Option Stored}
    (h : round fp sp = .next fp' sp' out) : out.toList.length + fp'.count '%' ≤ fp.count '%' := by
  fun_cases round fp sp with
  | case8 c fp s sp hspace hpercent conv rest hspec =>
    obtain rfl := not_not.1 hpercent
    have hrest := (parseSpec_suffix hspec).sublist.count_le '%'
    have hone : out.toList.length ≤ 1 := by cases out <;> simp
    grind [round]
  | _ => grind [round]

/-- Whatever the format and the input are, the scan takes at most as many arguments as the format has
percent signs. -/
theorem length_scan_le_count (rounds : ℕ) (fp sp : List Char) :
    (scan rounds fp sp).length ≤ fp.count '%' := by
  induction rounds generalizing fp sp with
  | zero => exact Nat.zero_le _
  | succ rounds ih =>
    rw [scan]
    split
    · exact Nat.zero_le _
    · next fp' sp' out hround =>
      rw [List.length_append]
      exact (Nat.add_le_add_left (ih fp' sp') _).trans (count_round hround)

end DrAvx.Text
