import Mathlib.Data.List.DropRight
import Mathlib.Tactic
import ConstexprFmtStr.Format.Integers

/-!
The shape of an integer field, read from the outside.

* `digitValue`, `readInteger`: a sign and digits read back as a number.
* `IntParts`, `IntSpec.Shape`: a field cut into blanks, sign, zeros, digits and blanks.
  `converterSingle_shape`: every field without '#' has that shape and reads back.
* `IntSpec.PrefixInFront`: what '#' should do. `converterSingle_prefix`: exactly when it does.
-/

namespace ConstexprFmtStr

open Numeral Slice Word

/-! ### Reading integers -/

/-- The value of a decimal, octal or hexadecimal digit. -/
def digitValue (c : Char) : ℕ :=
  if c.toNat ≤ '9'.toNat then c.toNat - '0'.toNat
  else if c.toNat ≤ 'F'.toNat then c.toNat - 'A'.toNat + 10
  else c.toNat - 'a'.toNat + 10

/-- An integer in the base `r`: perhaps a sign, then digits. -/
def readInteger (r : ℕ) : List Char → ℤ
  | '-' :: cs => -valueOf digitValue r cs
  | '+' :: cs => valueOf digitValue r cs
  | ' ' :: cs => valueOf digitValue r cs
  | cs => valueOf digitValue r cs

lemma digitValue_digitChar (upper : Bool) {i : ℕ} (hi : i < 16) :
    digitValue (digitChar upper i) = i := by
  have hall : ∀ upper, ∀ i < 16, digitValue (digitChar upper i) = i := by decide
  exact hall upper i hi

/-- A digit is not a sign or a blank, and it is a zero only for the value zero. -/
lemma digitChar_ne (upper : Bool) {i : ℕ} (hi : i < 16) :
    digitChar upper i ≠ ' ' ∧ digitChar upper i ≠ '+' ∧ digitChar upper i ≠ '-' ∧
      (0 < i → digitChar upper i ≠ '0') := by
  have hall : ∀ upper, ∀ i < 16, digitChar upper i ≠ ' ' ∧ digitChar upper i ≠ '+' ∧
      digitChar upper i ≠ '-' ∧ (0 < i → digitChar upper i ≠ '0') := by decide
  exact hall upper i hi

lemma ascii_digitChar (upper : Bool) {i : ℕ} (hi : i < 16) :
    (digitChar upper i).toNat < 128 := by
  have hall : ∀ upper, ∀ i < 16, (digitChar upper i).toNat < 128 := by decide
  exact hall upper i hi

lemma readInteger_of_digit {c : Char} (h1 : c ≠ ' ') (h2 : c ≠ '+') (h3 : c ≠ '-') (r : ℕ)
    (cs : List Char) : readInteger r (c :: cs) = valueOf digitValue r (c :: cs) := by
  rw [readInteger.eq_def]
  split <;> simp_all

/-! ### The parts of a field -/

/-- A field, cut into its parts. -/
structure IntParts where
  lpad : List Char
  sign : List Char
  zeros : List Char
  digits : List Char
  rpad : List Char

/-- The field. -/
def IntParts.text (f : IntParts) : List Char :=
  f.lpad ++ f.sign ++ f.zeros ++ f.digits ++ f.rpad

namespace IntSpec

/-- Is the field adjusted to the left? -/
def isLeft (d : IntSpec) : Prop := d.minus = true ∨ d.widthValue < 0

instance (d : IntSpec) : Decidable d.isLeft := inferInstanceAs (Decidable (_ ∨ _))

/-- How many digits the reduced argument has. -/
def digitCount (d : IntSpec) (v : ℤ) : ℕ := max 1 (Nat.digits d.base (d.reduced v).natAbs).length

/-- The parts are those of a field for the argument `v`. -/
structure Shape (d : IntSpec) (v : ℤ) (f : IntParts) : Prop where
  lpad_blank : ∀ c ∈ f.lpad, c = ' '
  rpad_blank : ∀ c ∈ f.rpad, c = ' '
  lpad_nil : d.isLeft → f.lpad = []
  rpad_nil : ¬d.isLeft → f.rpad = []
  sign_eq : f.sign = if d.reduced v < 0 then ['-']
    else if d.isSigned ∧ d.plus then ['+'] else if d.isSigned ∧ d.space then [' '] else []
  sign_nil : ¬d.isSigned → f.sign = []
  zeros_eq : ∀ c ∈ f.zeros, c = '0'
  digits_digit : ∀ c ∈ f.digits, ∃ i < d.base, c = digitChar (d.conv == 'X') i
  length_digits : f.digits.length = d.digitCount v
  length_text : f.text.length =
    max d.widthValue.natAbs (f.sign.length + max (d.precValue.getD 0) (d.digitCount v))
  read_eq : readInteger d.base (f.sign ++ f.zeros ++ f.digits) = d.reduced v

variable {d : IntSpec} {SI : SpecInfo}

lemma base_le (d : IntSpec) : d.base ≤ 16 := by
  rw [base]
  split_ifs <;> omega

lemma length_digitsText (d : IntSpec) (v : ℤ) : (d.digitsText v).length = d.digitCount v :=
  length_shown _ _ _

lemma valueOf_digitsText (d : IntSpec) (v : ℤ) :
    valueOf digitValue d.base (d.digitsText v) = (d.reduced v).natAbs :=
  valueOf_shown d.two_le_base
    (fun _ hi => digitValue_digitChar _ (hi.trans_le d.base_le)) _

lemma mem_digitsText {v : ℤ} {c : Char} (hc : c ∈ d.digitsText v) :
    ∃ i < d.base, c = digitChar (d.conv == 'X') i :=
  mem_shown d.two_le_base hc

/-- Digits are not blanks or signs. -/
lemma ne_of_mem_digitsText {v : ℤ} {c : Char} (hc : c ∈ d.digitsText v) :
    c ≠ ' ' ∧ c ≠ '+' ∧ c ≠ '-' := by
  obtain ⟨i, hi, rfl⟩ := mem_digitsText hc
  obtain ⟨h1, h2, h3, -⟩ := digitChar_ne (d.conv == 'X') (hi.trans_le d.base_le)
  exact ⟨h1, h2, h3⟩

lemma reduced_nonneg (h : ¬d.isSigned = true) (v : ℤ) : 0 ≤ d.reduced v := by
  rw [reduced, if_neg h]
  exact Int.natCast_nonneg _

/-- Reading back what is printed, with any number of zeros. -/
lemma readInteger_code (d : IntSpec) (v : ℤ) (k : ℕ) :
    readInteger d.base (d.signText v ++ List.replicate k '0' ++ d.digitsText v) =
      d.reduced v := by
  have hvalue : valueOf digitValue d.base (List.replicate k '0' ++ d.digitsText v) =
      (d.reduced v).natAbs := by
    rw [valueOf_zeros (by decide), valueOf_digitsText]
  have hhead : ∃ c cs, List.replicate k '0' ++ d.digitsText v = c :: cs ∧
      c ≠ ' ' ∧ c ≠ '+' ∧ c ≠ '-' := by
    have hpos := length_shown_pos (digitChar (d.conv == 'X')) d.base (d.reduced v).natAbs
    obtain ⟨c, cs, hcs⟩ : ∃ c cs, List.replicate k '0' ++ d.digitsText v = c :: cs := by
      refine List.exists_cons_of_ne_nil fun hnil => ?_
      have hdigits : d.digitsText v = [] := (List.append_eq_nil_iff.mp hnil).2
      rw [← digitsText, hdigits] at hpos
      exact absurd hpos (by simp)
    have hmem : c ∈ List.replicate k '0' ++ d.digitsText v := by
      rw [hcs]
      exact List.mem_cons_self
    refine ⟨c, cs, hcs, ?_⟩
    rcases List.mem_append.mp hmem with hz | hd
    · rw [List.eq_of_mem_replicate hz]
      decide
    · exact ne_of_mem_digitsText hd
  rw [List.append_assoc, signText]
  split_ifs with hneg hplus hspace
  · rw [List.singleton_append, readInteger, hvalue]
    omega
  · rw [List.singleton_append, readInteger, hvalue]
    omega
  · rw [List.singleton_append, readInteger, hvalue]
    omega
  · obtain ⟨c, cs, hcs, h1, h2, h3⟩ := hhead
    rw [List.nil_append, hcs, readInteger_of_digit h1 h2 h3, ← hcs, hvalue]
    omega

/-- The parts of the field that the code prints. -/
def codeParts (d : IntSpec) (v : ℤ) : IntParts :=
  let pad := d.widthValue.natAbs - ((d.signText v).length + (d.codeNumber v).length)
  { lpad := if d.isLeft ∨ d.zero = true ∧ d.precValue = none then [] else List.replicate pad ' '
    sign := d.signText v
    zeros :=
      (if ¬d.isLeft ∧ d.zero = true ∧ d.precValue = none then List.replicate pad '0' else []) ++
        List.replicate (d.resolvedPrec - (d.digitsText v).length).toNat '0'
    digits := d.digitsText v
    rpad := if d.isLeft then List.replicate pad ' ' else [] }

lemma text_codeParts (d : IntSpec) (v : ℤ) :
    (d.codeParts v).text = d.padded (d.signText v) (d.codeNumber v) := by
  have hl : (d.minus = true ∨ d.widthValue < 0) = d.isLeft := rfl
  rw [padded]
  simp only [hl]
  by_cases hleft : d.isLeft
  · simp [codeParts, IntParts.text, hleft, codeNumber]
  · by_cases hzero : d.zero = true ∧ d.precValue = none
    · simp only [codeParts, IntParts.text, hleft, hzero, codeNumber, or_true, if_true, if_false,
        not_false_iff, and_self, List.nil_append, List.append_nil, List.append_assoc]
    · simp [codeParts, IntParts.text, hleft, hzero, codeNumber]

lemma length_padded (sign number : List Char) :
    (d.padded sign number).length = max d.widthValue.natAbs (sign.length + number.length) := by
  rw [padded]
  split_ifs <;> simp <;> omega

lemma forall_mem_ite {p : Prop} [Decidable p] {P : Char → Prop} {l l' : List Char}
    (hl : ∀ c ∈ l, P c) (hl' : ∀ c ∈ l', P c) : ∀ c ∈ if p then l else l', P c := by
  split_ifs
  · exact hl
  · exact hl'

/-- The parts have the shape. -/
lemma shape_codeParts (d : IntSpec) (v : ℤ) : d.Shape v (d.codeParts v) := by
  have hnumber : (d.codeNumber v).length = max (d.precValue.getD 0) (d.digitCount v) := by
    have hlen := length_precText d (d.digitsText v)
    rw [← length_digitsText]
    rw [show d.precText (d.digitsText v) = d.codeNumber v from rfl, resolvedPrec] at hlen
    cases hp : d.precValue with
    | none =>
        simp only [hp] at hlen
        simp only [Option.getD_none]
        omega
    | some n =>
        simp only [hp] at hlen
        simp only [Option.getD_some]
        omega
  have hreplicate : ∀ {a : Char} {n : ℕ}, ∀ c ∈ List.replicate n a, c = a :=
    fun _ => List.eq_of_mem_replicate
  constructor
  case lpad_blank => exact forall_mem_ite (List.forall_mem_nil _) hreplicate
  case rpad_blank => exact forall_mem_ite hreplicate (List.forall_mem_nil _)
  case lpad_nil =>
    intro hleft
    exact if_pos (.inl hleft)
  case rpad_nil =>
    intro hleft
    exact if_neg hleft
  case sign_eq => rfl
  case sign_nil =>
    intro hsigned
    have hnonneg := reduced_nonneg hsigned v
    simp [codeParts, signText, hsigned, not_lt.mpr hnonneg]
  case zeros_eq =>
    intro c hc
    rcases List.mem_append.mp hc with hc | hc
    · exact forall_mem_ite hreplicate (List.forall_mem_nil _) c hc
    · exact hreplicate c hc
  case digits_digit =>
    intro c hc
    exact mem_digitsText hc
  case length_digits => exact length_digitsText d v
  case length_text => rw [text_codeParts, length_padded, hnumber]; rfl
  case read_eq =>
    have hzeros : ∃ k, (d.codeParts v).zeros = List.replicate k '0' := by
      simp only [codeParts]
      split_ifs
      · exact ⟨_, List.replicate_append_replicate⟩
      · exact ⟨_, List.nil_append _⟩
    obtain ⟨k, hk⟩ := hzeros
    rw [hk]
    exact readInteger_code d v k

/-- **Integer fields** without '#' have the right shape and read back as the reduced argument. -/
theorem converterSingle_shape (h : d.Matches false SI) (hb : d.Bounded) (lib : CLib)
    (fmt : List Char) {arg : Arg} {t : IntType} (harg : arg.type = .int t) :
    ∃ f : IntParts, d.Shape (Arg.intValue t arg.bytes) f ∧
      ∀ out, converterSingle lib fmt SI arg d.argW d.argP out =
        out.write (literalText fmt SI ++ charBytes f.text) := by
  refine ⟨d.codeParts (Arg.intValue t arg.bytes), shape_codeParts d _, fun out => ?_⟩
  rw [converterSingle_eq h hb lib fmt harg, text_codeParts]

/-- `%+5d` and 42. -/
theorem converterSingle_shape_plusFive :
    ∃ f : IntParts, plusFive.Shape (Arg.intValue ⟨4, true⟩ (intArg 42).bytes) f ∧
      ∀ out, converterSingle CLib.ascii [] { width := 5, sign := '+', terminal := 'd' }
          (intArg 42) plusFive.argW plusFive.argP out =
        out.write (literalText [] { width := 5, sign := '+', terminal := 'd' } ++
          charBytes f.text) :=
  converterSingle_shape (d := plusFive) ⟨⟨rfl, rfl, rfl, rfl, rfl, rfl⟩, rfl, rfl⟩
    ⟨by decide, by decide, nofun⟩ CLib.ascii []
    (show (intArg 42).type = .int ⟨4, true⟩ from rfl)

/-! ### The prefix -/

/-- The width is an `int`, and so is the precision. -/
structure InRange (d : IntSpec) : Prop where
  width_ge : -2 ^ 31 ≤ d.widthValue
  width_lt : d.widthValue < 2 ^ 31
  prec_lt : ∀ n, d.precValue = some n → n < 2 ^ 31

/-- The prefix that '#' asks for. -/
def prefixText (d : IntSpec) (v : ℤ) : List Char :=
  if d.reduced v = 0 then [] else if d.conv = 'o' then ['0'] else ['0', d.conv]

/-- The field without the blanks at its ends. -/
def stripBlanks (cs : List Char) : List Char := (cs.dropWhile (· == ' ')).rdropWhile (· == ' ')

/-- Digits of the base that say the reduced argument. -/
structure ReadsBack (d : IntSpec) (v : ℤ) (ds : List Char) : Prop where
  digits_digit : ∀ c ∈ ds, ∃ i < d.base, c = digitChar (d.conv == 'X') i
  value_eq : (valueOf digitValue d.base ds : ℤ) = d.reduced v

/-- **What '#' should do** to the field of `v`. The negation of a negative width is an `int`.
The digits of a non-zero `x` or `X` stand behind "0x" or "0X", those of `o` start with '0';
there are as many as the precision says, and the zeros of '0' stand behind the prefix. -/
structure PrefixInFront (d : IntSpec) (v : ℤ) (field : List Char) : Prop where
  width_neg : -2 ^ 31 < d.widthValue
  hex : d.conv ≠ 'o' → d.reduced v ≠ 0 → ∃ ds, stripBlanks field = '0' :: d.conv :: ds ∧
    d.precValue.getD 0 ≤ ds.length ∧ d.ReadsBack v ds
  oct : d.conv = 'o' → ∃ ds, stripBlanks field = '0' :: ds ∧
    d.precValue.getD 0 ≤ ('0' :: ds).length ∧ d.ReadsBack v ('0' :: ds)
  zeros : d.zero = true → ¬d.isLeft → d.precValue = none → d.reduced v ≠ 0 →
    ∃ k, field = d.prefixText v ++ List.replicate k '0' ++ d.digitsText v

/-- The field that the code prints. -/
def altField (d : IntSpec) (v : ℤ) : List Char :=
  d.padded [] (d.precText (d.prefixText v ++ d.digitsText v))

lemma head?_digitsText (v : ℤ) : (d.digitsText v).head? = some '0' ↔ d.reduced v = 0 := by
  constructor
  · intro hhead
    by_contra hne
    have hnat : (d.reduced v).natAbs ≠ 0 := by omega
    obtain ⟨i, hpos, hi, hhead'⟩ :
        ∃ i, 0 < i ∧ i < d.base ∧ (d.digitsText v).head? = some (digitChar (d.conv == 'X') i) :=
      head?_shown _ d.two_le_base hnat
    rw [hhead, Option.some.injEq] at hhead'
    exact (digitChar_ne _ (hi.trans_le d.base_le)).2.2.2 hpos hhead'.symm
  · intro hzero
    rw [digitsText, hzero]
    rfl

lemma conv_of_unsigned (hconv : d.conv = 'o' ∨ d.conv = 'x' ∨ d.conv = 'X') :
    d.isSigned = false := by
  rcases hconv with hc | hc | hc <;> simp [isSigned, hc]

/-- The characters of the code, with the prefix. -/
lemma integerText_alt (h : d.Matches true SI) (hconv : d.conv = 'o' ∨ d.conv = 'x' ∨ d.conv = 'X')
    (v : ℤ) :
    integerText SI v SI.sign = some (d.prefixText v ++ d.digitsText v, d.signChar SI v) := by
  have hunsigned := conv_of_unsigned hconv
  have hreduced : d.reduced v = wrapU d.length.bits v := by
    rw [reduced, hunsigned, if_neg (by decide)]
  have hnat : (d.reduced v).natAbs = wrapU d.length.bits v := by rw [hreduced]; rfl
  have hlt : wrapU d.length.bits v < 2 ^ 64 := by
    rw [← hnat]
    exact natAbs_reduced_lt d v
  have hsign : d.signChar SI v = SI.sign := by
    have hnonneg := reduced_nonneg (d := d) (by simp [hunsigned]) v
    rw [signChar, if_neg (by omega)]
  have hhead := head?_digitsText (d := d) v
  rw [digitsText, hnat] at hhead
  rw [hsign, prefixText, digitsText, hnat]
  rcases hconv with hc | hc | hc
  · have hbase : d.base = 8 := by simp [base, hc]
    rw [hbase, show (d.conv == 'X') = false by rw [hc]; rfl] at hhead ⊢
    simp only [integerText, h.terminal_eq, hc, h.UARG_eq, formatOct_eq hlt, h.alt_eq]
    by_cases hzero : d.reduced v = 0
    · simp [hzero, hhead.mpr hzero]
    · simp [hzero, mt hhead.mp hzero]
  · have hbase : d.base = 16 := by simp [base, hc]
    rw [hbase, show (d.conv == 'X') = false by rw [hc]; rfl] at hhead ⊢
    simp only [integerText, h.terminal_eq, hc, h.UARG_eq, formatHex_eq hlt, h.alt_eq]
    by_cases hzero : d.reduced v = 0
    · simp [hzero, hhead.mpr hzero]
    · simp [hzero, mt hhead.mp hzero]
  · have hbase : d.base = 16 := by simp [base, hc]
    rw [hbase, show (d.conv == 'X') = true by rw [hc]; rfl] at hhead ⊢
    simp only [integerText, h.terminal_eq, hc, h.UARG_eq, formatHex_eq hlt, h.alt_eq]
    by_cases hzero : d.reduced v = 0
    · simp [hzero, hhead.mpr hzero]
    · simp [hzero, mt hhead.mp hzero]

lemma length_prefixText_le (d : IntSpec) (v : ℤ) : (d.prefixText v).length ≤ 2 := by
  rw [prefixText]
  split_ifs <;> simp

/-- What the code prints for a specifier with '#'. -/
lemma converterSingle_alt (h : d.Matches true SI)
    (hconv : d.conv = 'o' ∨ d.conv = 'x' ∨ d.conv = 'X') (hr : d.InRange) (lib : CLib)
    (fmt : List Char) {arg : Arg} {t : IntType} (harg : arg.type = .int t) (out : OutbufArg) :
    converterSingle lib fmt SI arg d.argW d.argP out =
      out.write (literalText fmt SI ++
        charBytes (d.altField (Arg.intValue t arg.bytes))) := by
  have hsign : d.signText (Arg.intValue t arg.bytes) = [] := by
    have hunsigned := conv_of_unsigned hconv
    have hnonneg := reduced_nonneg (d := d) (by simp [hunsigned]) (Arg.intValue t arg.bytes)
    simp [signText, hunsigned, not_lt.mpr hnonneg]
  have hlen : (d.prefixText (Arg.intValue t arg.bytes) ++
      d.digitsText (Arg.intValue t arg.bytes)).length < 2 ^ 31 := by
    have hprefix := d.length_prefixText_le (Arg.intValue t arg.bytes)
    have hdigits := d.length_digitsText_le (Arg.intValue t arg.bytes)
    rw [List.length_append]
    omega
  rw [converterSingle_text h.toPads hr.prec_lt lib fmt harg (integerText_alt h hconv _) hlen,
    hsign, altField]

/-- The zeros that the code prints before the prefix. -/
def altZeros (d : IntSpec) (v : ℤ) : ℕ :=
  if ¬d.isLeft ∧ d.zero = true ∧ d.precValue = none then
    d.widthValue.natAbs - (d.prefixText v ++ d.digitsText v).length
  else (d.resolvedPrec - (d.prefixText v ++ d.digitsText v).length).toNat

/-- The field but for the blanks. -/
def altBody (d : IntSpec) (v : ℤ) : List Char :=
  List.replicate (d.altZeros v) '0' ++ (d.prefixText v ++ d.digitsText v)

lemma altField_eq (d : IntSpec) (v : ℤ) :
    ∃ a b, d.altField v = List.replicate a ' ' ++ d.altBody v ++ List.replicate b ' ' ∧
      (d.zero = true → ¬d.isLeft → d.precValue = none → a = 0 ∧ b = 0) := by
  have hpadded : ∀ number, d.padded [] number =
      if d.isLeft then number ++ List.replicate (d.widthValue.natAbs - number.length) ' '
      else if d.zero = true ∧ d.precValue = none then
        List.replicate (d.widthValue.natAbs - number.length) '0' ++ number
      else List.replicate (d.widthValue.natAbs - number.length) ' ' ++ number := by
    intro number
    rw [padded]
    simp only [List.length_nil, Nat.zero_add, List.nil_append, List.append_nil]
    rfl
  generalize hpad : d.widthValue.natAbs -
    (d.precText (d.prefixText v ++ d.digitsText v)).length = pad
  rw [altField, hpadded, hpad]
  by_cases hleft : d.isLeft
  · refine ⟨0, pad, ?_, fun _ hne => absurd hleft hne⟩
    rw [if_pos hleft, altBody, altZeros, if_neg fun h => h.1 hleft]
    rfl
  rw [if_neg hleft]
  by_cases hzero : d.zero = true ∧ d.precValue = none
  · have hprec : d.resolvedPrec = -1 := by rw [resolvedPrec, hzero.2]
    have hnone : (d.resolvedPrec - (d.prefixText v ++ d.digitsText v).length).toNat = 0 := by
      omega
    refine ⟨0, 0, ?_, fun _ _ _ => ⟨rfl, rfl⟩⟩
    rw [if_pos hzero, ← hpad, altBody, altZeros, if_pos ⟨hleft, hzero⟩, precText, hnone]
    simp only [List.replicate_zero, List.nil_append, List.append_nil]
  · refine ⟨pad, 0, ?_, fun h0 _ hp => absurd ⟨h0, hp⟩ hzero⟩
    rw [if_neg hzero, altBody, altZeros, if_neg fun h => hzero h.2, List.replicate_zero,
      List.append_nil]
    rfl

/-- The characters of the body. -/
lemma mem_altBody {v : ℤ} {c : Char} (hc : c ∈ d.altBody v) :
    c = '0' ∨ c = d.conv ∨ c ∈ d.digitsText v := by
  rcases List.mem_append.mp hc with hz | hc
  · exact .inl (List.eq_of_mem_replicate hz)
  rcases List.mem_append.mp hc with hp | hd
  · rw [prefixText] at hp
    split_ifs at hp
    · exact absurd hp List.not_mem_nil
    · exact .inl (List.mem_singleton.mp hp)
    · rcases List.mem_cons.mp hp with hzero | hp
      · exact .inl hzero
      · exact .inr (.inl (List.mem_singleton.mp hp))
  · exact .inr (.inr hd)

lemma ne_blank_of_mem_altBody (hconv : d.conv = 'o' ∨ d.conv = 'x' ∨ d.conv = 'X') {v : ℤ} :
    ∀ c ∈ d.altBody v, c ≠ ' ' := by
  intro c hc
  rcases mem_altBody hc with rfl | rfl | hd
  · decide
  · rcases hconv with h | h | h <;> rw [h] <;> decide
  · exact (ne_of_mem_digitsText hd).1

lemma ascii_of_mem_altBody (hconv : d.conv = 'o' ∨ d.conv = 'x' ∨ d.conv = 'X') {v : ℤ} :
    ∀ c ∈ d.altBody v, c.toNat < 128 := by
  intro c hc
  rcases mem_altBody hc with rfl | rfl | hd
  · decide
  · rcases hconv with h | h | h <;> rw [h] <;> decide
  · obtain ⟨i, hi, rfl⟩ := mem_digitsText hd
    exact ascii_digitChar _ (hi.trans_le d.base_le)

/-- Without blanks inside, the blanks at the ends are all there are. -/
lemma stripBlanks_eq {body : List Char} (hbody : ∀ c ∈ body, c ≠ ' ') (a b : ℕ) :
    stripBlanks (List.replicate a ' ' ++ body ++ List.replicate b ' ') = body := by
  have hdrop : ∀ k (l : List Char), (List.replicate k ' ' ++ l).dropWhile (· == ' ') =
      l.dropWhile (· == ' ') := by
    intro k l
    induction k with
    | zero => rfl
    | succ k ih => exact ih
  have hkeep : ∀ l r : List Char, (∀ c ∈ l, c ≠ ' ') → l ≠ [] →
      (l ++ r).dropWhile (· == ' ') = l ++ r := by
    intro l r hl hne
    obtain ⟨c, l, rfl⟩ := List.exists_cons_of_ne_nil hne
    exact List.dropWhile_cons_of_neg (by simpa using hl c List.mem_cons_self)
  have hblank : ∀ k, (List.replicate k ' ').dropWhile (· == ' ') = [] := by
    intro k
    have := hdrop k []
    rwa [List.append_nil] at this
  by_cases hne : body = []
  · rw [hne, List.append_nil, List.replicate_append_replicate, stripBlanks, hblank]
    rfl
  · rw [stripBlanks, List.append_assoc, hdrop, hkeep _ _ hbody hne, List.rdropWhile,
      List.reverse_append, List.reverse_replicate, hdrop]
    have hrev := hkeep body.reverse [] (fun c hc => hbody c (List.mem_reverse.mp hc))
      (by simpa using hne)
    rw [List.append_nil] at hrev
    rw [hrev, List.reverse_reverse]

lemma readsBack_zeros (d : IntSpec) (v : ℤ) (hnonneg : 0 ≤ d.reduced v) (k : ℕ) :
    d.ReadsBack v (List.replicate k '0' ++ d.digitsText v) := by
  constructor
  · intro c hc
    rcases List.mem_append.mp hc with hz | hd
    · exact ⟨0, by have := d.two_le_base; omega, List.eq_of_mem_replicate hz⟩
    · exact mem_digitsText hd
  · rw [valueOf_zeros (by decide), valueOf_digitsText]
    omega

/-- An octal field is always right. -/
lemma prefixInFront_oct (hconv : d.conv = 'o') (hwidth : -2 ^ 31 < d.widthValue) (v : ℤ) :
    d.PrefixInFront v (d.altField v) := by
  have hnonneg := reduced_nonneg (d := d) (by simp [conv_of_unsigned (.inl hconv)]) v
  obtain ⟨a, b, hfield, hab⟩ := d.altField_eq v
  have hstrip : stripBlanks (d.altField v) = d.altBody v := by
    rw [hfield, stripBlanks_eq (ne_blank_of_mem_altBody (.inl hconv))]
  -- the body is a run of zeros and the digits
  obtain ⟨k, hbody, hk⟩ : ∃ k, d.altBody v = List.replicate k '0' ++ d.digitsText v ∧
      d.altZeros v + (d.prefixText v ++ d.digitsText v).length = k + (d.digitsText v).length := by
    by_cases hzero : d.reduced v = 0
    · exact ⟨d.altZeros v, by simp [altBody, prefixText, hzero], by simp [prefixText, hzero]⟩
    · refine ⟨d.altZeros v + 1, ?_, ?_⟩
      · rw [altBody, prefixText, if_neg hzero, if_pos hconv, List.replicate_succ',
          List.append_assoc]
      · rw [prefixText, if_neg hzero, if_pos hconv, List.length_append, List.length_singleton]
        omega
  have hlong : d.precValue.getD 0 ≤ (d.altBody v).length := by
    rw [altBody, List.length_append, List.length_replicate, altZeros]
    cases hp : d.precValue with
    | none => exact Nat.zero_le _
    | some n =>
        have hprec : d.resolvedPrec = n := by rw [resolvedPrec, hp]
        rw [if_neg (by simp), hprec, Option.getD_some]
        omega
  refine ⟨hwidth, fun hne => absurd hconv hne, fun _ => ?_, fun hz hl hp hne => ?_⟩
  · have hreads := readsBack_zeros d v hnonneg k
    rw [hstrip]
    rw [← hbody] at hreads
    obtain ⟨ds, hds⟩ : ∃ ds, d.altBody v = '0' :: ds := by
      rw [hbody]
      cases k with
      | succ k => exact ⟨_, rfl⟩
      | zero =>
          have hzero : d.reduced v = 0 := by
            by_contra hne
            rw [prefixText, if_neg hne, if_pos hconv, List.length_append,
              List.length_singleton] at hk
            omega
          have hhead := (head?_digitsText v).mpr hzero
          exact ⟨_, List.eq_cons_of_mem_head? hhead⟩
    exact ⟨ds, hds, by rw [← hds]; exact hlong, by rw [← hds]; exact hreads⟩
  · obtain ⟨rfl, rfl⟩ := hab hz hl hp
    refine ⟨d.altZeros v, ?_⟩
    rw [hfield, altBody, prefixText, if_neg hne, if_pos hconv]
    simp only [List.replicate_zero, List.nil_append, List.append_nil]
    rw [← List.append_assoc, ← List.replicate_succ']
    rfl

/-- A hexadecimal field of a value that is not zero is right exactly if there are no zeros to
print. -/
lemma prefixInFront_hex (hconv : d.conv = 'x' ∨ d.conv = 'X') (hwidth : -2 ^ 31 < d.widthValue)
    {v : ℤ} (hne : d.reduced v ≠ 0) :
    d.PrefixInFront v (d.altField v) ↔
      d.altZeros v = 0 ∧ d.precValue.getD 0 ≤ d.digitCount v := by
  have hnonneg := reduced_nonneg (d := d) (by simp [conv_of_unsigned (.inr hconv)]) v
  have hoct : d.conv ≠ 'o' := by rcases hconv with h | h <;> rw [h] <;> decide
  have hcz : '0' ≠ d.conv := by rcases hconv with h | h <;> rw [h] <;> decide
  obtain ⟨a, b, hfield, hab⟩ := d.altField_eq v
  have hstrip : stripBlanks (d.altField v) = d.altBody v := by
    rw [hfield, stripBlanks_eq (ne_blank_of_mem_altBody (.inr hconv))]
  have hprefix : d.prefixText v = ['0', d.conv] := by
    rw [prefixText, if_neg hne, if_neg hoct]
  have hbody : d.altBody v =
      List.replicate (d.altZeros v) '0' ++ '0' :: d.conv :: d.digitsText v := by
    rw [altBody, hprefix]
    rfl
  constructor
  · intro h
    obtain ⟨ds, hds, hlen, -⟩ := h.hex hoct hne
    rw [hstrip, hbody] at hds
    cases hz : d.altZeros v with
    | zero =>
        rw [hz, List.replicate_zero, List.nil_append] at hds
        obtain rfl : d.digitsText v = ds := by simpa using hds
        exact ⟨rfl, by rwa [← length_digitsText]⟩
    | succ k =>
        -- the second character would be a zero
        rw [hz] at hds
        have hsecond := congrArg (fun l => l[1]?) hds
        cases k with
        | zero => exact absurd (Option.some.inj hsecond) hcz
        | succ k => exact absurd (Option.some.inj hsecond) hcz
  · rintro ⟨hz, hlen⟩
    rw [hz, List.replicate_zero, List.nil_append] at hbody
    refine ⟨hwidth, fun _ _ => ⟨d.digitsText v, hstrip.trans hbody, ?_, ?_⟩,
      fun h => absurd h hoct, fun h0 hl hp _ => ⟨0, ?_⟩⟩
    · rwa [length_digitsText]
    · have hreads := readsBack_zeros d v hnonneg 0
      rwa [List.replicate_zero, List.nil_append] at hreads
    · obtain ⟨rfl, rfl⟩ := hab h0 hl hp
      rw [hfield, hbody, hprefix]
      simp

/-- When the prefix ends up in front of the digits: the width is not `INT_MIN`, and there is no
hexadecimal prefix, or no zeros to print before it and enough digits behind it. -/
def PrefixHolds (d : IntSpec) (v : ℤ) : Prop :=
  -2 ^ 31 < d.widthValue ∧
    (d.conv = 'o' ∨ d.reduced v = 0 ∨
      d.precValue.getD 0 ≤ d.digitCount v ∧
        (d.zero = true → ¬d.isLeft → d.precValue = none →
          d.widthValue.natAbs ≤ d.digitCount v + 2))

lemma prefixInFront_iff (hconv : d.conv = 'o' ∨ d.conv = 'x' ∨ d.conv = 'X') (v : ℤ) :
    d.PrefixInFront v (d.altField v) ↔ d.PrefixHolds v := by
  constructor
  · intro h
    refine ⟨h.width_neg, ?_⟩
    rcases hconv with ho | hx
    · exact .inl ho
    by_cases hzero : d.reduced v = 0
    · exact .inr (.inl hzero)
    obtain ⟨hz, hlen⟩ := (prefixInFront_hex hx h.width_neg hzero).mp h
    refine .inr (.inr ⟨hlen, fun h0 hl hp => ?_⟩)
    have hoct : d.conv ≠ 'o' := by rcases hx with h | h <;> rw [h] <;> decide
    rw [altZeros, if_pos ⟨hl, h0, hp⟩, prefixText, if_neg hzero, if_neg hoct, List.length_append,
      length_digitsText] at hz
    simp only [List.length_cons, List.length_nil] at hz
    omega
  · rintro ⟨hwidth, h⟩
    rcases hconv with ho | hx
    · exact prefixInFront_oct ho hwidth v
    have hoct : d.conv ≠ 'o' := by rcases hx with h | h <;> rw [h] <;> decide
    by_cases hzero : d.reduced v = 0
    · exact ⟨hwidth, fun _ hne => absurd hzero hne, fun ho => absurd ho hoct,
        fun _ _ _ hne => absurd hzero hne⟩
    obtain ⟨hlen, hpad⟩ := (h.resolve_left hoct).resolve_left hzero
    refine (prefixInFront_hex hx hwidth hzero).mpr ⟨?_, hlen⟩
    have hlength : (d.prefixText v ++ d.digitsText v).length = 2 + d.digitCount v := by
      rw [prefixText, if_neg hzero, if_neg hoct, List.length_append, length_digitsText]
      rfl
    rw [altZeros, hlength]
    split_ifs with hactive
    · have := hpad hactive.2.1 hactive.1 hactive.2.2
      omega
    · rw [resolvedPrec]
      cases hp : d.precValue with
      | none => simp only; omega
      | some n =>
          rw [hp, Option.getD_some] at hlen
          simp only
          omega

/-- **The prefix of '#'.** What is printed is one field, and '#' does to it what it should exactly
if there is no zero to print before a hexadecimal prefix and the precision asks for no more
digits than there are. -/
theorem converterSingle_prefix (h : d.Matches true SI)
    (hconv : d.conv = 'o' ∨ d.conv = 'x' ∨ d.conv = 'X') (hr : d.InRange) (lib : CLib)
    (fmt : List Char) {arg : Arg} {t : IntType} (harg : arg.type = .int t) :
    ∃ field : List Char, (∀ c ∈ field, c.toNat < 128) ∧
      (∀ out, converterSingle lib fmt SI arg d.argW d.argP out =
        out.write (literalText fmt SI ++ charBytes field)) ∧
      (d.PrefixInFront (Arg.intValue t arg.bytes) field ↔
        d.PrefixHolds (Arg.intValue t arg.bytes)) := by
  refine ⟨d.altField (Arg.intValue t arg.bytes), ?_,
    converterSingle_alt h hconv hr lib fmt harg, prefixInFront_iff hconv _⟩
  intro c hc
  obtain ⟨a, b, hfield, -⟩ := d.altField_eq (Arg.intValue t arg.bytes)
  rw [hfield] at hc
  rcases List.mem_append.mp hc with hc | hc
  · rcases List.mem_append.mp hc with hc | hc
    · rw [List.eq_of_mem_replicate hc]
      decide
    · exact ascii_of_mem_altBody hconv c hc
  · rw [List.eq_of_mem_replicate hc]
    decide

/-- `%#.4x`, of 0x1f. -/
def altDotFour : IntSpec where
  prec := .static 4
  conv := 'x'
  isInt := by decide

/-- `%#x`. -/
def altHex : IntSpec where
  conv := 'x'
  isInt := by decide

/-- The field of `%#x` and 31 is right. -/
theorem converterSingle_prefix_altHex :
    ∃ field : List Char, (∀ c ∈ field, c.toNat < 128) ∧
      (∀ out, converterSingle CLib.ascii [] { flags := { alt := true }, terminal := 'x' }
          (intArg 31) 0 (-1) out = out.write (charBytes field)) ∧
      altHex.PrefixInFront 31 field := by
  have hmatches : altHex.Matches true { flags := { alt := true }, terminal := 'x' } :=
    ⟨⟨rfl, rfl, rfl, rfl, rfl, rfl⟩, rfl, rfl⟩
  obtain ⟨field, hascii, hprints, hiff⟩ := converterSingle_prefix hmatches (.inr (.inl rfl))
    ⟨by decide, by decide, nofun⟩ CLib.ascii []
    (show (intArg 31).type = .int ⟨4, true⟩ from rfl)
  -- two digits, no precision and no zeros
  have hholds : altHex.PrefixHolds 31 := ⟨by decide, .inr (.inr ⟨by decide, nofun⟩)⟩
  have hvalue : Arg.intValue ⟨4, true⟩ (intArg 31).bytes = 31 := by decide
  rw [hvalue] at hiff
  exact ⟨field, hascii, hprints, hiff.mpr hholds⟩

/-- `%#.4x` prints "0x1f" for 31, with two digits. -/
theorem converterSingle_altDotFour :
    (∀ out, converterSingle CLib.ascii [] { flags := { alt := true }, prec := 4, terminal := 'x' }
        (intArg 31) 0 (-1) out =
      out.write (literalText [] { flags := { alt := true }, prec := 4, terminal := 'x' } ++
        charBytes ['0', 'x', '1', 'f'])) ∧
      ¬altDotFour.PrefixInFront 31 ['0', 'x', '1', 'f'] := by
  constructor
  · intro out
    have hmatches : altDotFour.Matches true
        { flags := { alt := true }, prec := 4, terminal := 'x' } :=
      ⟨⟨rfl, rfl, rfl, rfl, rfl, rfl⟩, rfl, rfl⟩
    have hrange : altDotFour.InRange :=
      ⟨by decide, by decide, by rintro n hn; obtain rfl := Option.some.inj hn; decide⟩
    exact converterSingle_alt hmatches (.inr (.inl rfl)) hrange CLib.ascii []
      (show (intArg 31).type = .int ⟨4, true⟩ from rfl) out
  · intro h
    obtain ⟨ds, hds, hlen, -⟩ := h.hex (by decide) (by decide)
    have hstrip : stripBlanks ['0', 'x', '1', 'f'] = ['0', 'x', '1', 'f'] := by decide
    rw [hstrip] at hds
    obtain ⟨-, rfl⟩ : 'x' = altDotFour.conv ∧ ['1', 'f'] = ds := by simpa using hds
    exact absurd hlen (by decide)

end IntSpec

end ConstexprFmtStr
