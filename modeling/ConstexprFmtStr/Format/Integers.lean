import Mathlib.Tactic
import ConstexprFmtStr.Format.Emitted

/-!
The integer conversions against the C standard.

* `IntSpec`: a specifier with an integer terminal and without '#', as it is written: its flags,
  length modifier, width and precision. `IntSpec.Describes` ties it to a `SpecInfo`.
* `IntSpec.c99Field`: the field that C99 gives it for an argument.
* `converterSingle_c99Field`: what `converter_single` prints is that field exactly if the value
  is not zero or the precision is not an explicit zero.
-/

namespace ConstexprFmtStr

open Numeral Slice Word

/-! ### The rules of C99 -/

/-- A length modifier of an integer conversion. -/
inductive Length
  | none
  | hh
  | h
  | l
  | ll
  | j
  | t
  | z
  deriving DecidableEq

namespace Length

/-- The width of the types a length modifier names. -/
def bits : Length → ℕ
  | none => 32
  | hh => 8
  | h => 16
  | _ => 64

/-- The flag of a length modifier. -/
def flags : Length → Flags
  | none => {}
  | hh => { charint := true }
  | h => { shortint := true }
  | l => { longint := true }
  | ll => { llongint := true }
  | j => { intmaxt := true }
  | t => { ptrdifft := true }
  | z => { sizet := true }

end Length

/-- A width or a precision: left out, written in the format, or the value of an argument. -/
inductive Given
  | omitted
  | static (n : ℕ)
  | dynamic (v : ℤ)
  deriving DecidableEq

/-- A specifier with an integer terminal, without '#'. -/
structure IntSpec where
  minus : Bool := false
  plus : Bool := false
  space : Bool := false
  zero : Bool := false
  length : Length := .none
  width : Given := .omitted
  prec : Given := .omitted
  conv : Char
  isInt : isIntTerminal conv = true

namespace IntSpec

/-- Does the conversion read a signed argument? -/
def isSigned (d : IntSpec) : Bool := d.conv == 'd' || d.conv == 'i'

/-- The base of the digits. -/
def base (d : IntSpec) : ℕ :=
  if d.conv = 'o' then 8 else if d.conv = 'x' ∨ d.conv = 'X' then 16 else 10

/-- The argument reduced to the type that the length modifier names. -/
def reduced (d : IntSpec) (v : ℤ) : ℤ :=
  if d.isSigned then wrapS d.length.bits v else wrapU d.length.bits v

/-- The width, negative if an argument is. -/
def widthValue (d : IntSpec) : ℤ :=
  match d.width with
  | .omitted => 0
  | .static n => n
  | .dynamic v => v

/-- The precision, none for a negative argument. -/
def precValue (d : IntSpec) : Option ℕ :=
  match d.prec with
  | .omitted => none
  | .static n => some n
  | .dynamic v => if v < 0 then none else some v.toNat

/-- At least as many digits as the precision says, one if there is none: a zero value with an
explicit precision of zero has no digits. -/
def number (d : IntSpec) (v : ℤ) : List Char :=
  let digits := (numeral d.base (d.reduced v).natAbs).map (digitChar (d.conv == 'X'))
  List.replicate (d.precValue.getD 1 - digits.length) '0' ++ digits

/-- The sign. -/
def signText (d : IntSpec) (v : ℤ) : List Char :=
  if d.reduced v < 0 then ['-']
  else if d.isSigned ∧ d.plus then ['+']
  else if d.isSigned ∧ d.space then [' ']
  else []

/-- A sign and a number, padded to the width: to the right if '-' is given or the width is
negative, with zeros after the sign if '0' is and no precision, and else with blanks before. -/
def padded (d : IntSpec) (sign number : List Char) : List Char :=
  let pad := d.widthValue.natAbs - (sign.length + number.length)
  if d.minus ∨ d.widthValue < 0 then sign ++ number ++ List.replicate pad ' '
  else if d.zero ∧ d.precValue = none then sign ++ List.replicate pad '0' ++ number
  else List.replicate pad ' ' ++ sign ++ number

/-- The field of C99 for the argument `v`. -/
def c99Field (d : IntSpec) (v : ℤ) : List Char := d.padded (d.signText v) (d.number v)

/-! ### The specifier in the code -/

/-- `SI` is the specifier `d`. -/
structure Describes (d : IntSpec) (SI : SpecInfo) : Prop where
  flags_eq : SI.flags = Flags.or { ladjust := d.minus, zeropad := d.zero } d.length.flags
  sign_eq : SI.sign = if d.plus then '+' else if d.space then ' ' else nul
  width_eq : SI.width = match d.width with
    | .omitted => 0
    | .static n => n
    | .dynamic _ => dynamicWidth
  prec_eq : SI.prec = match d.prec with
    | .omitted => -1
    | .static n => n
    | .dynamic _ => dynamicPrecision
  terminal_eq : SI.terminal = d.conv

/-- What padding takes from a specifier. -/
structure Pads (d : IntSpec) (SI : SpecInfo) : Prop where
  zeropad_eq : SI.flags.zeropad = d.zero
  ladjust_eq : SI.flags.ladjust = d.minus
  sign_eq : SI.sign = if d.plus then '+' else if d.space then ' ' else nul
  width_eq : SI.width = match d.width with
    | .omitted => 0
    | .static n => n
    | .dynamic _ => dynamicWidth
  prec_eq : SI.prec = match d.prec with
    | .omitted => -1
    | .static n => n
    | .dynamic _ => dynamicPrecision
  terminal_eq : SI.terminal = d.conv

/-- The flags of the length modifiers. -/
def lengthFlags (f : Flags) : Flags :=
  { f with alt := false, zeropad := false, ladjust := false, longdbl := false }

/-- `SI` is the specifier `d`, with '#' or without, and perhaps with an 'L', which integers
ignore. -/
structure Matches (d : IntSpec) (alt : Bool) (SI : SpecInfo) : Prop extends d.Pads SI where
  alt_eq : SI.flags.alt = alt
  length_eq : lengthFlags SI.flags = d.length.flags

/-- The argument `W` of `converter_single`. -/
def argW (d : IntSpec) : ℤ :=
  match d.width with
  | .dynamic v => v
  | _ => 0

/-- The argument `P` of `converter_single`. -/
def argP (d : IntSpec) : ℤ :=
  match d.prec with
  | .dynamic v => v
  | _ => -1

/-- The width is above `INT_MIN`, and width and precision are below `INT_MAX`. -/
structure Bounded (d : IntSpec) : Prop where
  width_gt : -2 ^ 31 < d.widthValue
  width_lt : d.widthValue < intMax
  prec_lt : ∀ n, d.precValue = some n → (n : ℤ) < intMax

/-! ### What the code computes -/

variable {d : IntSpec} {SI : SpecInfo}

/-- `P` after it is resolved: `-1` for none. -/
def resolvedPrec (d : IntSpec) : ℤ :=
  match d.precValue with
  | some n => n
  | none => -1

lemma Describes.matches (h : d.Describes SI) : d.Matches false SI where
  zeropad_eq := by
    rw [h.flags_eq]
    cases d.length <;> simp [Flags.or, Length.flags]
  ladjust_eq := by
    rw [h.flags_eq]
    cases d.length <;> simp [Flags.or, Length.flags]
  sign_eq := h.sign_eq
  width_eq := h.width_eq
  prec_eq := h.prec_eq
  terminal_eq := h.terminal_eq
  alt_eq := by
    rw [h.flags_eq]
    cases d.length <;> rfl
  length_eq := by
    rw [h.flags_eq]
    cases d.length <;> simp [lengthFlags, Flags.or, Length.flags]

lemma resolve_eq (h : d.Pads SI) :
    resolve SI d.argW d.argP =
      (|d.widthValue|, d.resolvedPrec,
        if d.widthValue < 0 then { SI.flags with ladjust := true } else SI.flags) := by
  have hw := h.width_eq
  have hp := h.prec_eq
  have hstatic : ∀ n : ℕ, (n : ℤ) ≠ -2147483648 := by
    intro n
    omega
  have hgiven : givenWidth SI d.argW = d.widthValue := by
    rw [givenWidth, hw]
    rcases hwidth : d.width with _ | n | v <;>
      simp [argW, widthValue, dynamicWidth, hwidth, hstatic]
  have hwidth : SI.width = dynamicWidth ∨ 0 ≤ SI.width := by
    rw [hw]
    rcases d.width with _ | n | v <;> simp
  have hprec : (if SI.prec = dynamicPrecision then (if d.argP < 0 then -1 else d.argP)
      else SI.prec) = d.resolvedPrec := by
    rw [hp]
    rcases hprec : d.prec with _ | n | v
    · simp [resolvedPrec, precValue, dynamicPrecision, hprec]
    · simp [resolvedPrec, precValue, dynamicPrecision, hprec, hstatic]
    · simp only [argP, resolvedPrec, precValue, hprec, if_true]
      split_ifs with hv
      · rfl
      · exact (Int.toNat_of_nonneg (not_lt.mp hv)).symm
  obtain ⟨h1, h2⟩ := resolve_width hwidth d.argW d.argP
  rw [hgiven] at h1 h2
  exact Prod.ext h1 (Prod.ext ((resolve_prec SI d.argW d.argP).trans hprec) h2)

lemma Matches.SARG_eq {alt : Bool} (h : d.Matches alt SI) (v : ℤ) :
    SARG SI.flags v = wrapU 64 (wrapS d.length.bits v) := by
  rw [show SARG SI.flags v = SARG (lengthFlags SI.flags) v from rfl, h.length_eq]
  cases d.length <;> simp [SARG, Length.flags, Length.bits]

lemma Matches.UARG_eq {alt : Bool} (h : d.Matches alt SI) (v : ℤ) :
    UARG SI.flags v = wrapU d.length.bits v := by
  rw [show UARG SI.flags v = UARG (lengthFlags SI.flags) v from rfl, h.length_eq]
  cases d.length <;> simp [UARG, Length.flags, Length.bits]

lemma bits_cases (m : Length) : m.bits = 32 ∨ m.bits = 8 ∨ m.bits = 16 ∨ m.bits = 64 := by
  cases m <;> simp [Length.bits]

/-- A value of a signed type goes through `uintmax_t` unchanged. -/
lemma signed_range (m : Length) (v : ℤ) :
    -2 ^ 64 ≤ 2 * wrapS m.bits v ∧ 2 * wrapS m.bits v < 2 ^ 64 := by
  rcases bits_cases m with h | h | h | h
  all_goals
    rw [h]
    have hb := wrapS_bounds (w := m.bits) (by omega) v
    rw [h] at hb
    constructor <;> omega

/-- The absolute value, as the code computes it. -/
lemma natAbs_of_neg {x : ℤ} (hlo : -2 ^ 64 ≤ 2 * x) (hneg : x < 0) :
    u64Sub 0 (wrapU 64 x) = x.natAbs := by
  have hcast := natCast_wrapU 64 x
  have hx : x % 2 ^ 64 = x + 2 ^ 64 := by omega
  rw [u64Sub, hcast, hx]
  have hwrap : (((0 : ℕ) : ℤ) - (x + 2 ^ 64)) % 2 ^ 64 = -x := by omega
  rw [wrapU, hwrap]
  omega

/-- The digits the code prints for the argument `v`. -/
def digitsText (d : IntSpec) (v : ℤ) : List Char :=
  shown (digitChar (d.conv == 'X')) d.base (d.reduced v).natAbs

/-- The sign the code prints. -/
def signChar (d : IntSpec) (SI : SpecInfo) (v : ℤ) : Char :=
  if d.reduced v < 0 then '-' else SI.sign

lemma conv_cases (d : IntSpec) :
    d.conv = 'i' ∨ d.conv = 'd' ∨ d.conv = 'x' ∨ d.conv = 'X' ∨ d.conv = 'o' ∨ d.conv = 'u' := by
  have h := d.isInt
  simp only [isIntTerminal, Bool.or_eq_true, beq_iff_eq] at h
  tauto

lemma integerText_signed {alt : Bool} (h : d.Matches alt SI)
    (hsigned : d.conv = 'i' ∨ d.conv = 'd') (v : ℤ) :
    integerText SI v SI.sign = some (d.digitsText v, d.signChar SI v) := by
  obtain ⟨hlo, hhi⟩ := signed_range d.length v
  have hsigned' : d.isSigned = true := by rcases hsigned with hc | hc <;> simp [isSigned, hc]
  have hreduced : d.reduced v = wrapS d.length.bits v := by rw [reduced, hsigned', if_pos rfl]
  have hbase : d.base = 10 := by rcases hsigned with hc | hc <;> simp [base, hc]
  have hlower : (d.conv == 'X') = false := by rcases hsigned with hc | hc <;> simp [hc]
  have hback : wrapS 64 (wrapU 64 (wrapS d.length.bits v)) = wrapS d.length.bits v := by
    rw [wrapS_wrapU le_rfl, wrapS_of_bounds hlo hhi]
  simp only [integerText, h.terminal_eq, if_pos hsigned, h.SARG_eq, hback, digitsText, signChar,
    hreduced, hbase, hlower]
  by_cases hneg : wrapS d.length.bits v < 0
  · rw [if_pos hneg, if_pos hneg, natAbs_of_neg hlo hneg, formatDec_eq (by omega)]
  · rw [if_neg hneg, if_neg hneg, wrapU_of_lt (by omega) (by omega), formatDec_eq (by omega),
      show (wrapS d.length.bits v).toNat = (wrapS d.length.bits v).natAbs by omega]

lemma integerText_unsigned (h : d.Matches false SI) (hsigned : ¬(d.conv = 'i' ∨ d.conv = 'd'))
    (v : ℤ) : integerText SI v SI.sign = some (d.digitsText v, d.signChar SI v) := by
  have hsigned' : d.isSigned = false := by
    simp only [not_or] at hsigned
    simp [isSigned, hsigned]
  have hreduced : d.reduced v = wrapU d.length.bits v := by
    rw [reduced, hsigned', if_neg (by decide)]
  have hlt : wrapU d.length.bits v < 2 ^ 64 := by
    have hb := wrapU_lt d.length.bits v
    rcases bits_cases d.length with hm | hm | hm | hm <;> rw [hm] at hb ⊢ <;> omega
  have hneg : ¬ ((wrapU d.length.bits v : ℕ) : ℤ) < 0 := by omega
  simp only [integerText, h.terminal_eq, if_neg hsigned, h.UARG_eq, h.alt_eq, digitsText,
    signChar, hreduced, if_neg hneg, Int.natAbs_natCast, Bool.false_eq_true, false_and, if_false]
  rcases d.conv_cases with hc | hc | hc | hc | hc | hc
  · exact absurd (.inl hc) hsigned
  · exact absurd (.inr hc) hsigned
  · simp [hc, base, formatHex_eq hlt]
  · simp [hc, base, formatHex_eq hlt]
  · simp [hc, base, formatOct_eq hlt]
  · simp [hc, base, formatDec_eq hlt]

lemma integerText_eq (h : d.Matches false SI) (v : ℤ) :
    integerText SI v SI.sign = some (d.digitsText v, d.signChar SI v) := by
  by_cases hsigned : d.conv = 'i' ∨ d.conv = 'd'
  · exact integerText_signed h hsigned v
  · exact integerText_unsigned h hsigned v

/-! ### The field -/

/-- The characters `cp` with the zeros of the precision. -/
def precText (d : IntSpec) (cp : List Char) : List Char :=
  List.replicate (d.resolvedPrec - cp.length).toNat '0' ++ cp

/-- The digits with the zeros of the precision, as the code prints them. -/
def codeNumber (d : IntSpec) (v : ℤ) : List Char :=
  List.replicate (d.resolvedPrec - (d.digitsText v).length).toNat '0' ++ d.digitsText v

/-- The field of the code for the characters `cp`. -/
def textField (d : IntSpec) (SI : SpecInfo) (v : ℤ) (cp : List Char) : Field where
  src := .buf (charBytes cp)
  size := cp.length
  P := d.resolvedPrec
  flags := { SI.flags with
    zeropad := d.zero && d.precValue.isNone
    ladjust := d.minus || d.widthValue < 0 }
  sign := d.signChar SI v

lemma natAbs_reduced_lt (d : IntSpec) (v : ℤ) : (d.reduced v).natAbs < 2 ^ 64 := by
  rw [reduced]
  split_ifs
  · obtain ⟨hlo, hhi⟩ := signed_range d.length v
    omega
  · have hb := wrapU_lt d.length.bits v
    rcases bits_cases d.length with hm | hm | hm | hm <;> rw [hm] at hb ⊢ <;> omega

lemma two_le_base (d : IntSpec) : 2 ≤ d.base := by
  rw [base]
  split_ifs <;> omega

lemma length_digitsText_le (d : IntSpec) (v : ℤ) : (d.digitsText v).length ≤ 64 := by
  have hbase := d.two_le_base
  exact length_shown_le _ hbase (by norm_num)
    ((natAbs_reduced_lt d v).trans_le (Nat.pow_le_pow_left hbase 64))

lemma convert_eq (h : d.Pads SI) (lib : CLib) {arg : Arg} {t : IntType}
    (harg : arg.type = .int t) {cp : List Char}
    (hcp : integerText SI (Arg.intValue t arg.bytes) SI.sign =
      some (cp, d.signChar SI (Arg.intValue t arg.bytes))) (mem : Mem) :
    convert lib SI arg d.resolvedPrec
        (if d.widthValue < 0 then { SI.flags with ladjust := true } else SI.flags) mem =
      some (d.textField SI (Arg.intValue t arg.bytes) cp) := by
  have hne : ∀ c, isIntTerminal c = false → d.conv ≠ c := by
    rintro c hc rfl
    exact absurd d.isInt (by simp [hc])
  have hprec : 0 ≤ d.resolvedPrec ↔ d.precValue.isSome = true := by
    rw [resolvedPrec]
    cases d.precValue <;> simp
  have hz := h.zeropad_eq
  have hl := h.ladjust_eq
  simp only [convert, h.terminal_eq, hne 'c' (by decide), hne 's' (by decide), if_false, d.isInt,
    true_or, if_true, convertInteger, hne 'p' (by decide), false_and, harg, hcp]
  simp only [Option.bind_eq_bind, Option.bind_some, Option.pure_def, Option.some.injEq, textField,
    Field.mk.injEq, true_and, and_true, hprec]
  cases hp : d.precValue <;> by_cases hw : d.widthValue < 0 <;>
    simp [hw, hz.symm, hl.symm]

/-- What the code prints as a sign. -/
lemma signBytes (h : d.Pads SI) (v : ℤ) :
    (if isSignedTerminal SI.terminal ∧ d.signChar SI v ≠ nul then [(d.signChar SI v).toUInt8]
      else []) = charBytes (d.signText v) := by
  have hs := h.sign_eq
  rw [h.terminal_eq]
  by_cases hsigned : d.conv = 'i' ∨ d.conv = 'd'
  · have h1 : isSignedTerminal d.conv = true := by
      rcases hsigned with hc | hc <;> rw [hc] <;> decide
    have h2 : d.isSigned = true := by rcases hsigned with hc | hc <;> simp [isSigned, hc]
    by_cases hneg : d.reduced v < 0
    · simp [h1, signChar, signText, hneg, charBytes, nul]
    · cases hp : d.plus <;> cases hsp : d.space <;>
        simp [h1, h2, signChar, signText, hneg, hs, hp, hsp, charBytes, nul]
  · have h1 : isSignedTerminal d.conv = false := by
      rcases d.conv_cases with hc | hc | hc | hc | hc | hc
      · exact absurd (.inl hc) hsigned
      · exact absurd (.inr hc) hsigned
      all_goals rw [hc]; decide
    have h2 : d.isSigned = false := by
      simp only [not_or] at hsigned
      simp [isSigned, hsigned]
    have hneg : ¬ d.reduced v < 0 := by
      rw [reduced, h2, if_neg (by decide)]
      omega
    simp [h1, h2, signText, hneg, charBytes]

lemma length_precText (d : IntSpec) (cp : List Char) :
    ((d.precText cp).length : ℤ) = max d.resolvedPrec cp.length := by
  rw [precText, List.length_append, List.length_replicate]
  omega

lemma realsz_eq (h : d.Pads SI) (v : ℤ) {cp : List Char} (hcp : cp.length < 2 ^ 31) :
    (d.textField SI v cp).realsz SI = (d.signText v).length + (d.precText cp).length := by
  have hsize : wrapS 32 (cp.length : ℤ) = cp.length := wrapS_of_bounds (by omega) (by omega)
  have hsign := congrArg List.length (signBytes h v)
  rw [length_charBytes] at hsign
  rw [length_precText, ← hsign]
  simp only [Field.realsz, textField, h.terminal_eq, d.isInt, if_true, hsize]
  split_ifs with h1 h2 h2 <;> simp <;> omega

/-- The zeros of the precision, through the unsigned subtraction. -/
lemma precZeros_eq (hprec : ∀ n, d.precValue = some n → n < 2 ^ 31) {cp : List Char}
    (hcp : cp.length < 2 ^ 31) :
    wrapS 32 (u64Sub (wrapU 64 d.resolvedPrec) cp.length) = d.resolvedPrec - cp.length := by
  have hlt : -1 ≤ d.resolvedPrec ∧ d.resolvedPrec < 2 ^ 31 := by
    rw [resolvedPrec]
    cases hp : d.precValue with
    | none => simp
    | some n =>
        have := hprec n hp
        exact ⟨(by omega : (-1 : ℤ) ≤ n), (by omega : (n : ℤ) < 2 ^ 31)⟩
  rw [u64Sub, wrapS_wrapU (by decide), natCast_wrapU]
  calc wrapS 32 (d.resolvedPrec % 2 ^ 64 - cp.length)
      = wrapS 32 (d.resolvedPrec - cp.length) := wrapS_congr (by omega)
    _ = d.resolvedPrec - cp.length := wrapS_of_bounds (by omega) (by omega)

/-- The field of the code, as text. -/
lemma fieldBytes_eq (h : d.Pads SI) (hprec : ∀ n, d.precValue = some n → n < 2 ^ 31) (v : ℤ)
    {cp : List Char} (hcp : cp.length < 2 ^ 31) :
    fieldBytes SI |d.widthValue| (d.textField SI v cp) (charBytes cp, []) =
      charBytes (d.padded (d.signText v) (d.precText cp)) := by
  have hpad : (|d.widthValue| - (d.textField SI v cp).realsz SI).toNat =
      d.widthValue.natAbs - ((d.signText v).length + (d.precText cp).length) := by
    rw [realsz_eq h v hcp, ← Int.natCast_natAbs]
    omega
  have hsign : (if isSignedTerminal SI.terminal ∧ (d.textField SI v cp).sign ≠ nul then
      [(d.textField SI v cp).sign.toUInt8] else []) = charBytes (d.signText v) := signBytes h v
  have hzeros : wrapS 32 (u64Sub (wrapU 64 (d.textField SI v cp).P) (d.textField SI v cp).size) =
      d.resolvedPrec - cp.length := precZeros_eq hprec hcp
  have hreplicate : ∀ (n : ℕ) (c : Char),
      List.replicate n c.toUInt8 = charBytes (List.replicate n c) := fun n c =>
    List.map_replicate.symm
  have hnumber : List.replicate (d.resolvedPrec - cp.length).toNat '0'.toUInt8 ++
      charBytes cp = charBytes (d.precText cp) := by
    rw [precText, charBytes_append, hreplicate]
  have hfloat : ¬ isFloatTerminal SI.terminal = true := by
    rw [h.terminal_eq]
    rcases d.conv_cases with hc | hc | hc | hc | hc | hc <;> rw [hc] <;> decide
  have hint : isIntTerminal SI.terminal = true := by rw [h.terminal_eq, d.isInt]
  have hleft : (d.textField SI v cp).flags.ladjust = true ↔
      d.minus = true ∨ d.widthValue < 0 := by
    simp [textField]
  have hzero : (d.textField SI v cp).flags.zeropad = true ↔
      d.zero = true ∧ d.precValue = none := by
    simp [textField]
  simp only [fieldBytes, hpad, hsign, hzeros, if_neg hfloat, if_pos hint, padded, hleft, hzero]
  by_cases h1 : d.minus = true ∨ d.widthValue < 0
  · simp only [h1, not_true, and_false, if_false, if_true, List.nil_append, List.append_nil,
      ite_self, charBytes_append, ← hnumber, hreplicate, List.append_assoc]
  · by_cases h2 : d.zero = true ∧ d.precValue = none
    · simp only [h1, h2, not_true, not_false_iff, and_self, false_and, if_false, if_true,
        List.nil_append, List.append_nil, ite_self, charBytes_append, ← hnumber, hreplicate,
        List.append_assoc]
    · simp only [h1, h2, not_false_iff, and_self, false_and, if_false, if_true,
        List.append_nil, ite_self, charBytes_append, ← hnumber, hreplicate,
        List.append_assoc]

/-- The text of an integral argument whose characters are `cp`. -/
lemma emitted_text (h : d.Pads SI) (hprec : ∀ n, d.precValue = some n → n < 2 ^ 31)
    (lib : CLib) (fmt : List Char) {arg : Arg} {t : IntType} (harg : arg.type = .int t)
    {cp : List Char}
    (htext : integerText SI (Arg.intValue t arg.bytes) SI.sign =
      some (cp, d.signChar SI (Arg.intValue t arg.bytes)))
    (hcp : cp.length < 2 ^ 31) (mem : Mem) :
    emitted lib fmt SI arg d.argW d.argP mem = literalText fmt SI ++
      charBytes (d.padded (d.signText (Arg.intValue t arg.bytes)) (d.precText cp)) := by
  have htexts : (d.textField SI (Arg.intValue t arg.bytes) cp).texts SI mem =
      (charBytes cp, []) := by
    simp [Field.texts, Field.splitsExp, CharSrc.read, textField]
  simp only [emitted, resolve_eq h, convert_eq h lib harg htext]
  rw [htexts, fieldBytes_eq h hprec _ hcp]

/-- What the code prints for it. -/
lemma converterSingle_text (h : d.Pads SI) (hprec : ∀ n, d.precValue = some n → n < 2 ^ 31)
    (lib : CLib) (fmt : List Char) {arg : Arg} {t : IntType} (harg : arg.type = .int t)
    {cp : List Char}
    (htext : integerText SI (Arg.intValue t arg.bytes) SI.sign =
      some (cp, d.signChar SI (Arg.intValue t arg.bytes)))
    (hcp : cp.length < 2 ^ 31) (out : OutbufArg) :
    converterSingle lib fmt SI arg d.argW d.argP out =
      out.write (literalText fmt SI ++
        charBytes (d.padded (d.signText (Arg.intValue t arg.bytes)) (d.precText cp))) := by
  have hne : ∀ c, isIntTerminal c = false → SI.terminal ≠ c := by
    rintro c hc rfl
    rw [h.terminal_eq, d.isInt] at hc
    exact absurd hc (by decide)
  rw [← emitted_text h hprec lib fmt harg htext hcp out.mem]
  -- no string is read
  refine ConstexprFmtStr.converterSingle_eq lib fmt (hne 'n' (by decide)) arg _ _ fun i hi hi' => ?_
  rw [stringLength, if_pos (.inl (hne 's' (by decide)))] at hi'
  omega

lemma Bounded.prec_lt' (hb : d.Bounded) : ∀ n, d.precValue = some n → n < 2 ^ 31 := by
  intro n hn
  have hlt := hb.prec_lt n hn
  rw [intMax] at hlt
  omega

/-- The text of any integral argument. -/
lemma emitted_eq (h : d.Matches false SI) (hb : d.Bounded) (lib : CLib) (fmt : List Char)
    {arg : Arg} {t : IntType} (harg : arg.type = .int t) (mem : Mem) :
    emitted lib fmt SI arg d.argW d.argP mem = literalText fmt SI ++ charBytes (d.padded
      (d.signText (Arg.intValue t arg.bytes)) (d.codeNumber (Arg.intValue t arg.bytes))) :=
  emitted_text h.toPads hb.prec_lt' lib fmt harg (integerText_eq h _)
    (lt_of_le_of_lt (length_digitsText_le d _) (by norm_num)) mem

/-- What the code prints for any integral argument. -/
lemma converterSingle_eq (h : d.Matches false SI) (hb : d.Bounded) (lib : CLib) (fmt : List Char)
    {arg : Arg} {t : IntType} (harg : arg.type = .int t) (out : OutbufArg) :
    converterSingle lib fmt SI arg d.argW d.argP out =
      out.write (literalText fmt SI ++ charBytes (d.padded
        (d.signText (Arg.intValue t arg.bytes)) (d.codeNumber (Arg.intValue t arg.bytes)))) :=
  converterSingle_text h.toPads hb.prec_lt' lib fmt harg (integerText_eq h _)
    (lt_of_le_of_lt (length_digitsText_le d _) (by norm_num)) out

/-! ### The two numbers -/

/-- Off an explicit zero precision, the code prints the digits of C99. -/
lemma codeNumber_eq {v : ℤ} (hne : ¬(d.reduced v = 0 ∧ d.precValue = some 0)) :
    d.codeNumber v = d.number v := by
  by_cases hzero : d.reduced v = 0
  · have hdigits : d.digitsText v = ['0'] := by
      rw [digitsText, shown, hzero]
      rfl
    have hprec : d.precValue ≠ some 0 := fun hp => hne ⟨hzero, hp⟩
    simp only [codeNumber, hdigits, number, hzero, Int.natAbs_zero, numeral_zero, List.map_nil,
      List.length_nil, Nat.sub_zero, List.append_nil, List.length_singleton, resolvedPrec]
    cases hp : d.precValue with
    | none => rfl
    | some n =>
        obtain ⟨k, rfl⟩ : ∃ k, n = k + 1 := by
          refine ⟨n - 1, ?_⟩
          have : n ≠ 0 := fun h0 => hprec (by rw [hp, h0])
          omega
        simp [List.replicate_succ']
  · have hdigits : d.digitsText v =
        (numeral d.base (d.reduced v).natAbs).map (digitChar (d.conv == 'X')) := by
      rw [digitsText, shown, if_neg (by omega)]
    have hpos := length_shown_pos (digitChar (d.conv == 'X')) d.base (d.reduced v).natAbs
    rw [← digitsText, hdigits] at hpos
    rw [codeNumber, number, hdigits, resolvedPrec]
    congr 2
    cases d.precValue with
    | none => simp only [Option.getD_none]; omega
    | some n => simp only [Option.getD_some]; omega

lemma zero_mem_padded (sign number : List Char) (h : '0' ∈ number) :
    '0' ∈ d.padded sign number := by
  rw [padded]
  split_ifs <;> simp [h]

/-- Without digits, C99 prints blanks and perhaps a sign for an explicit zero precision. -/
lemma mem_c99Field_zero {v : ℤ} (hzero : d.reduced v = 0) (hprec : d.precValue = some 0) :
    ∀ c ∈ d.c99Field v, c = ' ' ∨ c = '+' := by
  have hnumber : d.number v = [] := by simp [number, hzero, hprec]
  have hsign : ∀ c ∈ d.signText v, c = ' ' ∨ c = '+' := by
    rw [signText, hzero, if_neg (lt_irrefl 0)]
    split_ifs <;> simp
  have hne : ¬ (d.zero = true ∧ d.precValue = none) := by simp [hprec]
  rw [c99Field, padded, hnumber, if_neg hne]
  intro c hc
  split_ifs at hc <;> simp only [List.append_nil, List.mem_append, List.mem_replicate] at hc
  · exact hc.elim (hsign c) fun hc => .inl hc.2
  · exact hc.elim (fun hc => .inl hc.2) (hsign c)

/-- **Integer conversions and C99.** The field printed is that of C99, whatever the buffer, if
and only if the reduced argument is not zero or the precision is not an explicit zero. -/
theorem converterSingle_c99Field (h : d.Describes SI) (hb : d.Bounded) (lib : CLib)
    (fmt : List Char) {arg : Arg} {t : IntType} (harg : arg.type = .int t) :
    (∀ out, converterSingle lib fmt SI arg d.argW d.argP out =
        out.write (literalText fmt SI ++
          charBytes (d.c99Field (Arg.intValue t arg.bytes)))) ↔
      ¬(d.reduced (Arg.intValue t arg.bytes) = 0 ∧ d.precValue = some 0) := by
  constructor
  · rintro hall ⟨hzero, hprec⟩
    have hcode : '0' ∈ d.codeNumber (Arg.intValue t arg.bytes) := by
      refine List.mem_append_right _ ?_
      rw [digitsText, shown, hzero]
      exact List.mem_singleton_self _
    have hmem := zero_mem_padded (d := d) (d.signText (Arg.intValue t arg.bytes)) _ hcode
    -- a buffer with room for both texts shows the difference
    obtain ⟨out, hroom⟩ : ∃ out : OutbufArg, out.room = _ :=
      OutbufArg.exists_room ((literalText fmt SI ++ charBytes (d.padded
        (d.signText (Arg.intValue t arg.bytes)) (d.codeNumber (Arg.intValue t arg.bytes)))).length +
        (literalText fmt SI ++ charBytes (d.c99Field (Arg.intValue t arg.bytes))).length)
    have heq := hall out
    rw [converterSingle_eq h.matches hb lib fmt harg] at heq
    have htext := OutbufArg.write_injective (by omega) (by omega) heq
    have hbytes := List.mem_map_of_mem (f := Char.toUInt8) hmem
    rw [← charBytes, List.append_cancel_left htext] at hbytes
    obtain ⟨c, hc, hc'⟩ := List.mem_map.mp hbytes
    rcases mem_c99Field_zero hzero hprec c hc with rfl | rfl
    · exact absurd hc' (by decide)
    · exact absurd hc' (by decide)
  · intro hne out
    rw [converterSingle_eq h.matches hb lib fmt harg, codeNumber_eq hne, c99Field]

/-- `%+5d`, as `getOneSpec` reads it. -/
def plusFive : IntSpec where
  plus := true
  width := .static 5
  conv := 'd'
  isInt := by decide

/-- `%.0d`. -/
def dotZero : IntSpec where
  prec := .static 0
  conv := 'd'
  isInt := by decide

/-- An `int` argument. -/
def intArg (n : ℕ) : Arg where
  type := .int ⟨4, true⟩
  bytes := leBytes 4 n
  length_bytes := length_leBytes 4 n

/-- The field of `%+5d` and 42. -/
theorem converterSingle_c99Field_plusFive :
    converterSingle CLib.ascii [] { width := 5, sign := '+', terminal := 'd' } (intArg 42) 0 (-1)
        (.new (fun _ => 0) 0 16) =
      (OutbufArg.new (fun _ => 0) 0 16).write
        (literalText [] { width := 5, sign := '+', terminal := 'd' } ++
          charBytes (plusFive.c99Field (Arg.intValue ⟨4, true⟩ (leBytes 4 42)))) :=
  (converterSingle_c99Field (d := plusFive)
    ⟨rfl, rfl, rfl, rfl, rfl⟩ ⟨by decide, by decide, nofun⟩
    CLib.ascii [] (show (intArg 42).type = .int ⟨4, true⟩ from rfl)).mpr (by decide) _

/-- `%.0d` prints a digit for 0. -/
theorem converterSingle_dotZero :
    (converterSingle CLib.ascii [] { prec := 0, terminal := 'd' } (intArg 0) 0 (-1)
        (.new (fun _ => 0) 0 16)) ≠
      (OutbufArg.new (fun _ => 0) 0 16).write
        (literalText [] { prec := 0, terminal := 'd' } ++
          charBytes (dotZero.c99Field (Arg.intValue ⟨4, true⟩ (leBytes 4 0)))) := by
  intro h
  exact absurd (congrArg OutbufArg.written h) (by decide)

end IntSpec

end ConstexprFmtStr
