import Mathlib.Data.Int.Log
import Mathlib.Tactic
import ConstexprFmtStr.Lib.Pointed
import ConstexprFmtStr.Format.Exponent
import ConstexprFmtStr.Format.Padding

/-!
The number in a floating point field.

* `numberText`: a number in the form of a terminal, as `printf` writes it, with small letters.
* `Magnitude.digits`, `Magnitude.exponent`, `Magnitude.text`: a number rounded to some digits behind
  the point, and the text that `printf` makes of it.
* `ToCharsRounds`: what the library promises for a number, which it rounds to the nearest.
* `formatDuble_eq_numberText`: what `formatDuble` makes of it, with the point of '#'.
* `converterSingle_rounded`: for `f`, `e` and `a` the field is the number rounded to the digits that
  the code asks for, with zeros for the others.
* `Magnitude.generalText`, `converterSingle_general`: when the field of `%#g` is that of `printf`.
-/

namespace ConstexprFmtStr

open Slice Word Numeral Pointed

/-! ### Numbers as they are written -/

/-- The terminals that name one form. -/
def isPlainFloat (t : Char) : Bool :=
  t == 'f' || t == 'F' || t == 'e' || t == 'E' || t == 'a' || t == 'A'

lemma isPlainFloat_iff {t : Char} : isPlainFloat t = true ↔
    (t = 'f' ∨ t = 'F') ∨ (t = 'e' ∨ t = 'E') ∨ t = 'a' ∨ t = 'A' := by
  simp only [isPlainFloat, Bool.or_eq_true, beq_iff_eq]
  tauto

lemma hasExp_of_not_fixed {t : Char} (ht : isPlainFloat t = true) (hf : ¬(t = 'f' ∨ t = 'F')) :
    hasExp t = true := by
  rcases isPlainFloat_iff.mp ht with hc | (rfl | rfl) | rfl | rfl
  · exact absurd hc hf
  all_goals rfl

/-- The base of the digits. -/
def radix (t : Char) : ℕ := if t = 'a' ∨ t = 'A' then 16 else 10

lemma one_lt_radix (t : Char) : 1 < radix t := by
  rw [radix]
  split_ifs <;> norm_num

/-- What the digits are to be multiplied with. -/
def scale (t : Char) (X : ℤ) : ℚ :=
  if t = 'f' ∨ t = 'F' then 1 else if t = 'a' ∨ t = 'A' then 2 ^ X else 10 ^ X

/-- The digits of an exponent, at least two if it is one of ten. -/
def exponentDigits (t : Char) (n : ℕ) : List Char :=
  (if radix t = 10 ∧ n < 10 then ['0'] else []) ++ shown (digitChar false) 10 n

/-- The exponent behind the digits. -/
def exponentText (t : Char) (X : ℤ) : List Char :=
  if t = 'f' ∨ t = 'F' then []
  else expChar t :: (if X < 0 then '-' else '+') :: exponentDigits t X.natAbs

/-- A number with `p` digits behind the point, as `t` writes it. -/
def numberText (t : Char) (p : ℕ) (always : Bool) (m : ℕ) (X : ℤ) : List Char :=
  pointed (digitChar false) '.' (radix t) p always m ++ exponentText t X

/-- More digits are zeros. -/
lemma numberText_mul_pow (t : Char) {q : ℕ} (hq : 0 < q) (always : Bool) (k m : ℕ) (X : ℤ) :
    numberText t (q + k) always (m * radix t ^ k) X =
      pointed (digitChar false) '.' (radix t) q always m ++ List.replicate k '0' ++
        exponentText t X := by
  have hradix := one_lt_radix t
  rw [numberText, pointed_mul_pow _ _ (by omega) hq]
  rfl

lemma mem_exponentDigits {t : Char} {n : ℕ} {c : Char} (hc : c ∈ exponentDigits t n) :
    ∃ i < 10, c = digitChar false i := by
  rcases List.mem_append.mp hc with hc | hc
  · split_ifs at hc
    · exact ⟨0, by norm_num, List.mem_singleton.mp hc⟩
    · exact absurd hc List.not_mem_nil
  · exact mem_shown (by norm_num) hc

lemma length_exponentDigits (t : Char) (n : ℕ) :
    0 < (exponentDigits t n).length ∧ (n < 10 ^ 5 → (exponentDigits t n).length ≤ 5) := by
  have hpos := length_shown_pos (digitChar false) 10 n
  rw [exponentDigits, List.length_append]
  refine ⟨by omega, fun hn => ?_⟩
  split_ifs with hone
  · have h1 := length_shown_le (digitChar false) (r := 10) (k := 1) (by norm_num) one_pos
      (show n < 10 ^ 1 by omega)
    rw [List.length_singleton]
    omega
  · rw [List.length_nil, Nat.zero_add]
    exact length_shown_le (digitChar false) (by norm_num) (by norm_num) hn

lemma expChar_not_digit (t : Char) : ∀ i < 10, expChar t ≠ digitChar false i := by
  rw [expChar]
  split_ifs <;> decide

/-- An exponent starts with its letter, and has a sign and digits behind it. -/
lemma exponentText_of_hasExp {t : Char} (ht : hasExp t = true) (X : ℤ) :
    ∃ x, exponentText t X = expChar t :: x ∧ expChar t ∉ x ∧ 2 ≤ x.length ∧
      (X.natAbs < 10 ^ 5 → x.length ≤ 6) := by
  have hf : ¬(t = 'f' ∨ t = 'F') := by
    rintro (rfl | rfl) <;> exact absurd ht (by decide)
  obtain ⟨hpos, hlen⟩ := length_exponentDigits t X.natAbs
  refine ⟨_, if_neg hf, fun hmem => ?_, ?_, fun hX => ?_⟩
  · rcases List.mem_cons.mp hmem with hsign | hmem
    · rw [expChar] at hsign
      split_ifs at hsign <;> exact absurd hsign (by decide)
    · obtain ⟨i, hi, heq⟩ := mem_exponentDigits hmem
      exact expChar_not_digit t i hi heq
  · rw [List.length_cons]
    omega
  · have hle := hlen hX
    rw [List.length_cons]
    omega

lemma ascii_numberText (t : Char) (p : ℕ) (always : Bool) (m : ℕ) (X : ℤ) :
    ∀ c ∈ numberText t p always m X, c.toNat < 128 := by
  have hradix : radix t ≤ 16 := by
    rw [radix]
    split_ifs <;> norm_num
  intro c hc
  rcases List.mem_append.mp hc with hc | hc
  · rcases mem_pointed _ _ (one_lt_radix t) hc with rfl | ⟨i, hi, rfl⟩
    · decide
    · exact ascii_digitChar false (hi.trans_le hradix)
  · rw [exponentText] at hc
    split_ifs at hc
    all_goals try exact absurd hc List.not_mem_nil
    all_goals
      rcases List.mem_cons.mp hc with rfl | hc
      · rw [expChar]
        split_ifs <;> decide
      rcases List.mem_cons.mp hc with rfl | hc
      · decide
      obtain ⟨i, hi, rfl⟩ := mem_exponentDigits hc
      exact ascii_digitChar false (by omega)

/-! ### A number -/

/-- A number without its sign, with what is the library's choice in hexadecimal: how many digits
it writes behind the point, and which exponent. -/
structure Magnitude where
  value : ℚ
  hexDigits : ℕ
  hexExponent : ℤ
  nonneg : 0 ≤ value
  hexDigits_le : hexDigits ≤ 16
  /-- there is one digit in front of the point -/
  lt : value / 2 ^ hexExponent < 16
  /-- there are no other digits -/
  ends : ∃ n : ℕ, value / 2 ^ hexExponent * 16 ^ hexDigits = n

namespace Magnitude

variable (x : Magnitude) (t : Char) (p : ℕ)

/-- The exponent that leaves one digit in front of the point. -/
def lead : ℤ := if t = 'a' ∨ t = 'A' then x.hexExponent else Int.log 10 x.value

/-- The exponent of the number with `p` digits behind the point: more where they are rounded up past
the one in front of it. -/
def exponent : ℤ :=
  if t = 'f' ∨ t = 'F' then 0
  else if RoundsUp (radix t) p (x.value / scale t (x.lead t)) then
    x.lead t + if t = 'a' ∨ t = 'A' then 4 else 1
  else x.lead t

/-- The number, rounded to `p` digits behind the point. -/
def digits : ℕ := roundEven (x.value / scale t (x.exponent t p) * radix t ^ p)

/-- What `printf` prints for the number with `p` digits behind the point. -/
def text (always : Bool) : List Char := numberText t p always (x.digits t p) (x.exponent t p)

lemma scale_nonneg (X : ℤ) : 0 ≤ scale t X := by
  rw [scale]
  split_ifs <;> positivity

lemma scaled_nonneg (X : ℤ) : 0 ≤ x.value / scale t X * (radix t : ℚ) ^ p :=
  mul_nonneg (div_nonneg x.nonneg (scale_nonneg t X)) (by positivity)

lemma rounds_digits : Rounds (x.value / scale t (x.exponent t p) * radix t ^ p) (x.digits t p) :=
  rounds_roundEven (x.scaled_nonneg t p _)

variable {t}

lemma exponent_fixed (ht : t = 'f' ∨ t = 'F') : x.exponent t p = 0 := if_pos ht

section

variable (ht : hasExp t = true)
include ht

lemma not_fixed : ¬(t = 'f' ∨ t = 'F') := by
  rintro (rfl | rfl) <;> exact absurd ht (by decide)

/-- One digit stands in front of the point. -/
lemma scaled_lead_lt : x.value / scale t (x.lead t) < radix t := by
  rw [scale, if_neg (not_fixed ht), lead, radix]
  split_ifs
  · exact_mod_cast x.lt
  · rw [div_lt_iff₀ (by positivity)]
    calc x.value < 10 ^ (Int.log 10 x.value + 1) := by
          exact_mod_cast Int.lt_zpow_succ_log_self (b := 10) (by norm_num) x.value
      _ = ((10 : ℕ) : ℚ) * 10 ^ Int.log 10 x.value := by
          rw [zpow_add_one₀ (by norm_num), mul_comm]
          norm_num

/-- The number that is rounded. -/
lemma scaled_exponent : x.value / scale t (x.exponent t p) =
    if RoundsUp (radix t) p (x.value / scale t (x.lead t)) then
      x.value / scale t (x.lead t) / radix t
    else x.value / scale t (x.lead t) := by
  rw [exponent, if_neg (not_fixed ht)]
  split_ifs with hup ha
  · rw [scale, scale, if_neg (not_fixed ht), if_pos ha, if_neg (not_fixed ht), if_pos ha, radix,
      if_pos ha, zpow_add₀ (by norm_num), div_div]
    norm_num
  · rw [scale, scale, if_neg (not_fixed ht), if_neg ha, if_neg (not_fixed ht), if_neg ha, radix,
      if_neg ha, zpow_add₀ (by norm_num), div_div]
    norm_num
  · rfl

/-- There are no more digits than one in front of the point and `p` behind it. -/
lemma digits_lt : x.digits t p < radix t ^ (p + 1) := by
  rw [digits, x.scaled_exponent p ht]
  exact roundEven_leading_lt (one_lt_radix t)
    (div_nonneg x.nonneg (scale_nonneg t _)) (x.scaled_lead_lt ht) p

end

variable {p}

/-- A number that ends within `q` digits has zeros for more digits. -/
lemma text_of_ends (ht : isPlainFloat t = true) {q n : ℕ}
    (hn : x.value / scale t (x.exponent t q) * radix t ^ q = n)
    (j : ℕ) : x.exponent t (q + j) = x.exponent t q ∧
      x.digits t (q + j) = x.digits t q * radix t ^ j := by
  have hexp : x.exponent t (q + j) = x.exponent t q := by
    by_cases hf : t = 'f' ∨ t = 'F'
    · rw [x.exponent_fixed _ hf, x.exponent_fixed _ hf]
    have hhas := hasExp_of_not_fixed ht hf
    have hn' := hn
    rw [x.scaled_exponent q hhas] at hn'
    obtain ⟨hq, hqj⟩ := not_roundsUp_of_ends (one_lt_radix t) (x.scaled_lead_lt hhas) hn' j
    rw [exponent, exponent, if_neg hf, if_neg hf, if_neg hq, if_neg hqj]
  refine ⟨hexp, ?_⟩
  have hmore : x.value / scale t (x.exponent t (q + j)) * radix t ^ (q + j) =
      (n * radix t ^ j : ℕ) := by
    rw [hexp, pow_add, ← mul_assoc, hn]
    push_cast
    rfl
  rw [digits, digits, hmore, hn, roundEven_natCast, roundEven_natCast]

end Magnitude

/-! ### What the library promises -/

/-- The digits behind the point for a precision: 6 if it is omitted, and for a hexadecimal number
the `h` digits that it has. -/
def printfPrec (t : Char) (h : ℕ) (P : ℤ) : ℕ :=
  if 0 ≤ P then P.toNat else if t = 'a' ∨ t = 'A' then h else 6

lemma printfPrec_eq_zero_iff {t : Char} (h : ℕ) {P : ℤ} (ht : radix t = 10) :
    P = 0 ↔ printfPrec t h P = 0 := by
  have hhex : ¬(t = 'a' ∨ t = 'A') := by
    intro ha
    rw [radix, if_pos ha] at ht
    exact absurd ht (by norm_num)
  rw [printfPrec, if_neg hhex]
  split_ifs with h0
  · omega
  · exact iff_of_false (fun hP => h0 hP.ge) (by norm_num)

/-- What `std::to_chars` promises for a number `value` of the magnitude `x`, without a sign: the
text of `printf`, rounded to the nearest. -/
structure ToCharsRounds (lib : CLib) (k : FloatKind) (value : List UInt8) (long : Bool)
    (x : Magnitude) : Prop where
  lt : x.value < if long then 2 ^ 16384 else 2 ^ 1024
  exponent_lt : ∀ t p, (x.exponent t p).natAbs < 10 ^ 5
  toChars_eq : ∀ t, isPlainFloat t = true → ∀ P, -1 ≤ P → ∀ size,
    lib.toChars k value long (charsFormat t) P size =
      fitText (x.text t (printfPrec t x.hexDigits P) false) size

/-- The number of decimal digits in front of the point. -/
def integerDigits (long : Bool) : ℕ := if long then 4933 else 309

lemma ToCharsRounds.add_one_le {lib : CLib} {k : FloatKind} {value : List UInt8} {long : Bool}
    {x : Magnitude} (hchars : ToCharsRounds lib k value long x) :
    x.value + 1 ≤ 10 ^ integerDigits long := by
  have hdouble : 2 ^ 1024 + 1 ≤ 10 ^ 309 := by decide +kernel
  have hlong : 2 ^ 16384 + 1 ≤ 10 ^ 4933 := by decide +kernel
  cases long with
  | false =>
      have hlt : x.value < 2 ^ 1024 := hchars.lt
      calc x.value + 1 ≤ 2 ^ 1024 + 1 := by gcongr
        _ ≤ 10 ^ 309 := by exact_mod_cast hdouble
  | true =>
      have hlt : x.value < 2 ^ 16384 := hchars.lt
      calc x.value + 1 ≤ 2 ^ 16384 + 1 := by gcongr
        _ ≤ 10 ^ 4933 := by exact_mod_cast hlong

lemma maxFractSize_ge (flags : Flags) {t : Char} (ht : isPlainFloat t = true) :
    20 ≤ maxFractSize flags t := by
  rw [maxFractSize, maxFractLE]
  rcases isPlainFloat_iff.mp ht with (rfl | rfl) | (rfl | rfl) | rfl | rfl <;>
    cases flags.longdbl <;> decide

lemma printfPrec_le {t : Char} (ht : isPlainFloat t = true) {h : ℕ} (hh : h ≤ 16) {flags : Flags}
    {P : ℤ} (hP : P ≤ maxFractSize flags t) : (printfPrec t h P : ℤ) ≤ maxFractSize flags t := by
  have hmax := maxFractSize_ge flags ht
  rw [printfPrec]
  split_ifs <;> omega

/-- A number with an exponent is not longer than its digits behind the point, and nine. -/
lemma length_numberText_exp {t : Char} (ht : hasExp t = true) {p m : ℕ} {X : ℤ} (always : Bool)
    (hm : m < radix t ^ (p + 1)) (hX : X.natAbs < 10 ^ 5) :
    (numberText t p always m X).length ≤ p + 9 := by
  obtain ⟨x, hx, -, -, hlen⟩ := exponentText_of_hasExp ht X
  have hle := length_pointed_le (digitChar false) '.' (one_lt_radix t) one_pos
    (show m < radix t ^ (1 + p) from Nat.add_comm 1 p ▸ hm) always
  have hx6 := hlen hX
  rw [numberText, hx, List.length_append, List.length_cons]
  omega

section Promise

variable {lib : CLib} {k : FloatKind} {value : List UInt8} {flags : Flags} {x : Magnitude}
  (hchars : ToCharsRounds lib k value flags.longdbl x)
include hchars

/-- The digits of a number without an exponent. -/
lemma digits_fixed_lt {t : Char} (ht : t = 'f' ∨ t = 'F') (p : ℕ) :
    x.digits t p < 10 ^ (integerDigits flags.longdbl + p) := by
  have hradix : radix t = 10 := by rcases ht with rfl | rfl <;> rfl
  have hrounds := x.rounds_digits t p
  rw [scale, if_pos ht, hradix, div_one] at hrounds
  refine hrounds.lt ?_
  have hone : (1 : ℚ) ≤ 10 ^ p := one_le_pow₀ (by norm_num)
  push_cast
  calc x.value * 10 ^ p + 1 / 2 < (x.value + 1) * 10 ^ p := by linarith
    _ ≤ 10 ^ integerDigits flags.longdbl * 10 ^ p := by
        gcongr
        exact hchars.add_one_le
    _ = 10 ^ (integerDigits flags.longdbl + p) := (pow_add _ _ _).symm

/-- How long a number is that has `j` zeros behind its digits. -/
lemma length_numberText_le {t : Char} (ht : isPlainFloat t = true) (p j : ℕ) (always : Bool) :
    (numberText t (p + j) always (x.digits t p * radix t ^ j) (x.exponent t p)).length ≤
      p + j + if t = 'f' ∨ t = 'F' then integerDigits flags.longdbl + 1 else 9 := by
  have hzeros {n : ℕ} (hlt : x.digits t p < radix t ^ n) :
      x.digits t p * radix t ^ j < radix t ^ (n + j) := by
    rw [pow_add]
    exact Nat.mul_lt_mul_of_pos_right hlt (Nat.pow_pos (Nat.zero_lt_of_lt (one_lt_radix t)))
  by_cases hf : t = 'f' ∨ t = 'F'
  · have hradix : radix t = 10 := by rcases hf with rfl | rfl <;> rfl
    have hdigits := hzeros (hradix ▸ digits_fixed_lt hchars hf p)
    have hpos : 0 < integerDigits flags.longdbl := by
      rw [integerDigits]
      split_ifs <;> norm_num
    rw [Nat.add_assoc] at hdigits
    have hlen := length_pointed_le (digitChar false) '.' (one_lt_radix t) hpos hdigits always
    rw [if_pos hf, numberText, exponentText, if_pos hf, List.append_nil]
    omega
  · have hhas := hasExp_of_not_fixed ht hf
    have hdigits := hzeros (x.digits_lt p hhas)
    rw [Nat.add_right_comm] at hdigits
    rw [if_neg hf]
    exact length_numberText_exp hhas always hdigits (hchars.exponent_lt t p)

/-- Room for the characters beside the digits behind the point. -/
lemma length_numberText_room {t : Char} (ht : isPlainFloat t = true) (p j : ℕ) (always : Bool) :
    (numberText t (p + j) always (x.digits t p * radix t ^ j) (x.exponent t p)).length ≤
      p + j + 4934 := by
  refine (length_numberText_le hchars ht p j always).trans ?_
  rw [integerDigits]
  split_ifs <;> omega

/-- **The buffer is large enough** for what the code asks for. -/
lemma length_roundedText_le {t : Char} (ht : isPlainFloat t = true) {q : ℕ}
    (hq : (q : ℤ) ≤ maxFractSize flags t) :
    (x.text t q false).length ≤ fitBufferSize flags t := by
  have hlen := length_numberText_le hchars ht q 0 false
  rw [pow_zero, mul_one, Nat.add_zero] at hlen
  refine hlen.trans ?_
  rw [integerDigits]
  rcases isPlainFloat_iff.mp ht with (rfl | rfl) | (rfl | rfl) | rfl | rfl <;>
    simp only [maxFractSize, fitBufferSize, maxFractLE] at hq ⊢ <;>
    cases hlong : flags.longdbl <;> simp [hlong] at hq ⊢ <;> omega

end Promise

/-! ### `formatDuble` -/

lemma expIndex_of_hasExp {t : Char} (ht : hasExp t = true) (mant : List Char) (X : ℤ) :
    expIndex (expChar t) (mant ++ exponentText t X) = mant.length := by
  obtain ⟨x, hx, hnot, hlen, -⟩ := exponentText_of_hasExp ht X
  rw [hx]
  exact expIndex_eq hnot hlen

/-- The point of '#', which stands in front of the exponent. -/
lemma numberText_always (t : Char) (p m : ℕ) (X : ℤ) :
    numberText t p true m X =
      pointed (digitChar false) '.' (radix t) p false m ++
        ((if p = 0 then ['.'] else []) ++ exponentText t X) := by
  rw [numberText, pointed_always, List.append_assoc]

/-- **`formatDuble`** writes the number, with a point in any case for '#'. -/
lemma formatDuble_eq_numberText {lib : CLib} {k : FloatKind} {value : List UInt8} {flags : Flags}
    {t : Char} (ht : isPlainFloat t = true) {size p m : ℕ} {P X : ℤ}
    (hm : hasExp t = true → m < radix t ^ (p + 1)) (hp : radix t = 10 → (P = 0 ↔ p = 0))
    (htext : lib.toChars k value flags.longdbl (charsFormat t) P size =
      some (numberText t p false m X)) :
    formatDuble lib t flags size k value P = numberText t p flags.alt m X := by
  rcases isPlainFloat_iff.mp ht with hf | he | ha
  · have hp0 : P = 0 ↔ p = 0 := hp (by rcases hf with rfl | rfl <;> rfl)
    have hnone : exponentText t X = [] := if_pos hf
    rw [charsFormat, if_pos hf] at htext
    rw [formatDuble, if_pos hf]
    simp only [htext]
    cases flags.alt with
    | false => simp
    | true =>
        rw [numberText_always, numberText, hnone, List.append_nil, List.append_nil]
        by_cases h0 : p = 0
        · rw [if_pos ⟨rfl, hp0.mpr h0⟩, if_pos h0]
        · rw [if_neg fun h => h0 (hp0.mp h.2), if_neg h0, List.append_nil]
  · have hp0 : P = 0 ↔ p = 0 := hp (by rcases he with rfl | rfl <;> rfl)
    have hhas : hasExp t = true := by rcases he with rfl | rfl <;> rfl
    have hf : ¬(t = 'f' ∨ t = 'F') := by rcases he with rfl | rfl <;> decide
    have hexp : expChar t = 'e' := if_pos he
    have hindex := expIndex_of_hasExp hhas
      (pointed (digitChar false) '.' (radix t) p false m) X
    rw [hexp] at hindex
    rw [charsFormat, if_neg hf, if_pos he] at htext
    rw [formatDuble, if_neg hf, if_pos he]
    simp only [htext]
    cases flags.alt with
    | false => simp
    | true =>
        rw [numberText_always, numberText, hindex, List.take_left, List.drop_left]
        by_cases h0 : p = 0
        · rw [if_pos ⟨rfl, hp0.mpr h0⟩, if_pos h0, List.singleton_append]
        · rw [if_neg fun h => h0 (hp0.mp h.2), if_neg h0, List.nil_append]
  · have hhas : hasExp t = true := by rcases ha with rfl | rfl <;> rfl
    have hf : ¬(t = 'f' ∨ t = 'F') := by rcases ha with rfl | rfl <;> decide
    have he : ¬(t = 'e' ∨ t = 'E') := by rcases ha with rfl | rfl <;> decide
    obtain ⟨d, -, hone⟩ := pointed_one (digitChar false) '.' (one_lt_radix t) (hm hhas) false
    obtain ⟨x, hx, -⟩ := exponentText_of_hasExp hhas X
    rw [charsFormat, if_neg hf, if_neg he, if_pos ha] at htext
    rw [formatDuble, if_neg hf, if_neg he, if_pos ha]
    simp only [htext]
    cases flags.alt with
    | false => simp
    | true =>
        rw [numberText_always, numberText, hone]
        by_cases h0 : p = 0
        · have hne : expChar t ≠ '.' := by rcases ha with rfl | rfl <;> decide
          simp [h0, hx, hne]
        · simp [h0]

/-! ### The field -/

section Field

variable {lib : CLib} {SI : SpecInfo} {k : FloatKind} {value : List UInt8} {x : Magnitude}

/-- The body of a field: the zeros stand behind the digits, in front of the exponent. -/
lemma bodyText_eq (hfloat : isFloatTerminal SI.terminal = true) (mem : Mem) {f : Field}
    {mant : List Char} {t : Char} {X : ℤ}
    (hsrc : f.src = .buf (charBytes (mant ++ exponentText t X)))
    (hsize : f.size = (mant ++ exponentText t X).length)
    (hascii : ∀ c ∈ mant ++ exponentText t X, c.toNat < 128)
    (hsplit : f.splitsExp SI = true → hasExp t = true ∧ expChar SI.terminal = expChar t)
    (hnot : f.splitsExp SI = false → exponentText t X = [] ∨ f.fpprec.toNat = 0) :
    f.bodyText SI mem =
      charBytes (mant ++ List.replicate f.fpprec.toNat '0' ++ exponentText t X) := by
  have hread : f.src.read mem f.size = charBytes (mant ++ exponentText t X) := by
    rw [hsrc, hsize, CharSrc.read, List.take_of_length_le (length_charBytes _).le]
  have hint := isIntTerminal_of_float hfloat
  rw [Field.bodyText, if_neg (by simp [hint]), if_pos hfloat, List.nil_append,
    ← charBytes_replicate]
  cases hs : f.splitsExp SI with
  | true =>
      obtain ⟨hhas, hexp⟩ := hsplit hs
      have hindex := expIndex_of_hasExp hhas mant X
      rw [← hexp] at hindex
      simp only [Field.texts, hread, hs, if_true, map_charBytes hascii, hindex]
      rw [charBytes_append, charBytes_append, charBytes_append,
        List.take_left' (length_charBytes mant), List.drop_left' (length_charBytes mant)]
  | false =>
      simp only [Field.texts, hread, hs, Bool.false_eq_true, if_false, List.append_nil]
      rw [← charBytes_append]
      rcases hnot hs with hnil | hzero
      · rw [hnil, List.append_nil, List.append_nil]
      · rw [hzero, List.replicate_zero, List.append_nil, List.append_nil]

lemma length_signChars_le (SI : SpecInfo) (signbit : Bool) : (signChars SI signbit).length ≤ 1 := by
  rw [signChars]
  split_ifs <;> simp

/-- What `converter_single` may ask `formatDuble` for. -/
structure FloatCall.Valid (SI : SpecInfo) (call : FloatCall) : Prop where
  plain : isPlainFloat call.TM = true
  prec_ge : -1 ≤ call.prec
  prec_le : call.prec ≤ maxFractSize SI.flags call.TM
  buffer : fitBufferSize SI.flags call.TM ≤ fitBufferSize SI.flags SI.terminal
  /-- zeros are only added to the most digits -/
  zeros : 0 < call.fpprec → 0 < call.prec
  splits : (hasExp SI.terminal = true ∨ (SI.terminal = 'g' ∨ SI.terminal = 'G') ∧
    call.gtoe = true) ↔ hasExp call.TM = true
  expChar_eq : hasExp call.TM = true → expChar SI.terminal = expChar call.TM

/-- The digits behind the point that the library is asked for. -/
def FloatCall.digitsBehind (call : FloatCall) (x : Magnitude) : ℕ :=
  printfPrec call.TM x.hexDigits call.prec

/-- **The number of a call** with the zeros behind it. -/
def FloatCall.numberText (call : FloatCall) (x : Magnitude) (always : Bool) : List Char :=
  ConstexprFmtStr.numberText call.TM (call.digitsBehind x + call.fpprec.toNat) always
    (x.digits call.TM (call.digitsBehind x) * radix call.TM ^ call.fpprec.toNat)
    (x.exponent call.TM (call.digitsBehind x))

/-- The field of a call has this number for its body. -/
lemma bodyText_floatCall (hchars : ToCharsRounds lib k value SI.flags.longdbl x)
    (hfloat : isFloatTerminal SI.terminal = true) {call : FloatCall} (hcall : call.Valid SI)
    {f : Field} {text : List Char}
    (htext : formatDuble lib call.TM SI.flags (fitBufferSize SI.flags SI.terminal) k value
      call.prec = text) (hsrc : f.src = .buf (charBytes text)) (hsize : f.size = text.length)
    (hfpprec : f.fpprec = call.fpprec) (hgtoe : f.gtoe = call.gtoe) (mem : Mem) :
    f.bodyText SI mem = charBytes (call.numberText x SI.flags.alt) := by
  have hlen := length_roundedText_le hchars hcall.plain
    (printfPrec_le hcall.plain x.hexDigits_le hcall.prec_le)
  have hfit : lib.toChars k value SI.flags.longdbl (charsFormat call.TM) call.prec
      (fitBufferSize SI.flags SI.terminal) = some (x.text call.TM (call.digitsBehind x) false) := by
    rw [hchars.toChars_eq call.TM hcall.plain call.prec hcall.prec_ge, fitText,
      if_pos (hlen.trans hcall.buffer)]
    rfl
  have hzero : radix call.TM = 10 → (call.prec = 0 ↔ call.digitsBehind x = 0) :=
    printfPrec_eq_zero_iff x.hexDigits
  rw [formatDuble_eq_numberText hcall.plain (x.digits_lt _) hzero hfit] at htext
  subst htext
  have hsplit : f.splitsExp SI = true ↔ 0 < call.fpprec ∧ hasExp call.TM = true := by
    rw [splitsExp_iff, hfpprec, hgtoe, hcall.splits]
  have hbody := bodyText_eq hfloat mem hsrc hsize (ascii_numberText _ _ _ _ _)
    (fun hs => ⟨(hsplit.mp hs).2, hcall.expChar_eq (hsplit.mp hs).2⟩) fun hs => ?_
  · rw [hbody, hfpprec]
    by_cases hzero : 0 < call.fpprec
    · have hpos : 0 < call.digitsBehind x := by
        rw [FloatCall.digitsBehind, printfPrec, if_pos (hcall.zeros hzero).le]
        exact Int.lt_toNat.mpr (hcall.zeros hzero)
      rw [FloatCall.numberText, numberText_mul_pow _ hpos]
    · have h0 : call.fpprec.toNat = 0 := by omega
      rw [FloatCall.numberText, h0, List.replicate_zero, List.append_nil, Nat.add_zero, pow_zero,
        mul_one, ConstexprFmtStr.numberText]
  · by_cases hzero : 0 < call.fpprec
    · refine .inl (if_pos ?_)
      have hnone : ¬hasExp call.TM = true := fun hhas => by
        rw [hsplit.mpr ⟨hzero, hhas⟩] at hs
        cases hs
      rcases isPlainFloat_iff.mp hcall.plain with hf | he | ha
      · exact hf
      · exact absurd (by rcases he with hc | hc <;> rw [hc] <;> rfl) hnone
      · exact absurd (by rcases ha with hc | hc <;> rw [hc] <;> rfl) hnone
    · right
      rw [hfpprec]
      omega

/-- A finite argument of the magnitude `x`, which is not a negative zero. -/
structure FiniteArg (lib : CLib) (SI : SpecInfo) (arg : Arg) (k : FloatKind) (x : Magnitude) :
    Prop where
  type_eq : arg.type = .flt k
  finite : (lib.fpclassify k arg.bytes).IsFinite
  toChars : ToCharsRounds lib k (printedValue lib k arg.bytes) SI.flags.longdbl x

variable {arg : Arg}

/-- The field of a number is `body` behind its sign, padded to the width. -/
def PrintsBody (lib : CLib) (fmt : List Char) (SI : SpecInfo) (arg : Arg) (k : FloatKind) (W P : ℤ)
    (body : List Char) : Prop :=
  ∀ out : OutbufArg, converterSingle lib fmt SI arg W P out = out.write (literalText fmt SI ++
    padded (charBytes (signChars SI (lib.isNegative k arg.bytes))) (charBytes body)
      (SI.flags.ladjust || decide (givenWidth SI W < 0)) SI.flags.zeropad
      (givenWidth SI W).natAbs)

/-- **The field of a call**: a sign and the number, padded to the width, if an `int` holds their
length. -/
lemma converterSingle_call (hSI : SI.FitsInt) (hfloat : isFloatTerminal SI.terminal = true)
    (harg : FiniteArg lib SI arg k x) (fmt : List Char) (W : ℤ) {P : ℤ} (hP : IsInt P)
    {call : FloatCall} (hcall : call.Valid SI)
    (heq : floatCall SI (decimalExponent lib k arg.bytes) (resolve SI W P).2.1 = call)
    (hfits : (signChars SI (lib.isNegative k arg.bytes)).length +
      (call.numberText x SI.flags.alt).length < 2 ^ 31) :
    PrintsBody lib fmt SI arg k W P (call.numberText x SI.flags.alt) := by
  have hn : SI.terminal ≠ 'n' := by
    intro heq
    rw [heq] at hfloat
    exact absurd hfloat (by decide)
  have hs : SI.terminal ≠ 's' := by
    intro heq
    rw [heq] at hfloat
    exact absurd hfloat (by decide)
  subst heq
  obtain ⟨f, hf⟩ := (⟨_, rfl⟩ : ∃ f : Field, f = {
    src := .buf (charBytes (callText lib SI k arg.bytes (resolve SI W P).2.1))
    size := (callText lib SI k arg.bytes (resolve SI W P).2.1).length
    P := (resolve SI W P).2.1
    fpprec := (floatCall SI (decimalExponent lib k arg.bytes) (resolve SI W P).2.1).fpprec
    gtoe := (floatCall SI (decimalExponent lib k arg.bytes) (resolve SI W P).2.1).gtoe
    flags := SI.flags
    sign := if lib.isNegative k arg.bytes then '-' else SI.sign })
  have hconv (mem : Mem) :
      convert lib SI arg (resolve SI W P).2.1 SI.flags mem = some f := by
    rw [convert_of_float hfloat, hf]
    exact convertFloat_finite harg.type_eq harg.finite _ _ _
  have hbody := bodyText_floatCall harg.toChars hfloat hcall (f := f)
    rfl (by rw [hf]; rfl) (by rw [hf]; rfl) (by rw [hf]) (by rw [hf])
  have hsign : f.signText SI = charBytes (signChars SI (lib.isNegative k arg.bytes)) := by
    rw [Field.signText, isSignedTerminal_of_float hfloat, hf, signChars]
    dsimp only
    cases lib.isNegative k arg.bytes with
    | true => rfl
    | false =>
        by_cases hnone : SI.sign = nul
        · simp [hnone, charBytes]
        · simp [hnone, charBytes]
  intro out
  have hstring : stringLength SI arg (resolve SI W P).2.1 out.mem = 0 := if_pos (.inl hs)
  have hfree : ∀ i, arg.address ≤ i →
      i < arg.address + stringLength SI arg (resolve SI W P).2.1 out.mem → ¬out.Free i := by
    intro i hi hi'
    rw [hstring] at hi'
    omega
  have heq := converterSingle_eq lib fmt hn arg W P hfree
  have hpadded := emitted_eq_padded (W := W) fmt hSI hP (hconv out.mem) (by
    rw [hsign, hbody, length_charBytes, length_charBytes]
    exact hfits)
  rw [heq, hpadded, hsign, hbody, hf]

lemma floatCall_plain (ht : isPlainFloat SI.terminal = true) (exp P : ℤ) :
    floatCall SI exp P = ⟨SI.terminal, (clipPrec P (maxFractSize SI.flags SI.terminal)).1,
      (clipPrec P (maxFractSize SI.flags SI.terminal)).2, false⟩ := by
  rw [floatCall, if_pos]
  rcases isPlainFloat_iff.mp ht with (hc | hc) | (hc | hc) | hc | hc <;> rw [hc] <;> decide

lemma valid_plain (ht : isPlainFloat SI.terminal = true) {P : ℤ} (hP : -1 ≤ P) :
    FloatCall.Valid SI ⟨SI.terminal, (clipPrec P (maxFractSize SI.flags SI.terminal)).1,
      (clipPrec P (maxFractSize SI.flags SI.terminal)).2, false⟩ := by
  have hg : ¬(SI.terminal = 'g' ∨ SI.terminal = 'G') := by
    rcases isPlainFloat_iff.mp ht with (hc | hc) | (hc | hc) | hc | hc <;> rw [hc] <;> decide
  have hmax := maxFractSize_ge SI.flags ht
  refine ⟨ht, ?_, ?_, le_rfl, ?_, by simp [hg], fun _ => rfl⟩ <;> rw [clipPrec] <;>
    split_ifs <;> dsimp only <;> omega

/-- The digits that the library is asked for, and the zeros behind them. -/
lemma printfPrec_clip {t : Char} (ht : isPlainFloat t = true) {h : ℕ} (hh : h ≤ 16) (flags : Flags)
    (P : ℤ) :
    printfPrec t h (clipPrec P (maxFractSize flags t)).1 =
        min (printfPrec t h P) (maxFractSize flags t).toNat ∧
      (clipPrec P (maxFractSize flags t)).2.toNat =
        printfPrec t h P - min (printfPrec t h P) (maxFractSize flags t).toNat := by
  rw [clipPrec]
  split_ifs with hlt
  · have hmax := maxFractSize_ge flags ht
    have hclip : printfPrec t h (maxFractSize flags t) = (maxFractSize flags t).toNat :=
      if_pos (by omega)
    have hP : printfPrec t h P = P.toNat := if_pos (by omega)
    rw [hclip, hP]
    omega
  · have hle := printfPrec_le ht hh (not_lt.mp hlt)
    dsimp only
    omega

/-- What is printed for `%#g` with `n` significant digits in the style that the exponent `X` asks
for. -/
def Magnitude.styledText (x : Magnitude) (n : ℕ) (X : ℤ) : List Char :=
  if -4 ≤ X ∧ X < n then x.text 'f' (n - 1 - X).toNat true else x.text 'e' (n - 1) true

/-- What `printf` prints for `%#g` with `n` significant digits: the exponent of the style of `e`,
after rounding, decides on the style. -/
def Magnitude.generalText (x : Magnitude) (n : ℕ) : List Char :=
  x.styledText n (x.exponent 'e' (n - 1))

/-- An exponent tells the styles apart. -/
lemma numberText_style_ne (p p' m m' : ℕ) (X X' : ℤ) :
    numberText 'f' p true m X ≠ numberText 'e' p' true m' X' := by
  intro heq
  have hmem : 'e' ∈ numberText 'e' p' true m' X' := by
    obtain ⟨x, hx, -⟩ := exponentText_of_hasExp (t := 'e') rfl X'
    rw [numberText, hx]
    exact List.mem_append_right _ List.mem_cons_self
  rw [← heq, numberText, show exponentText 'f' X = [] from rfl, List.append_nil] at hmem
  rcases mem_pointed _ _ (one_lt_radix 'f') hmem with hpoint | ⟨i, hi, hdigit⟩
  · exact absurd hpoint (by decide)
  · exact expChar_not_digit 'e' i hi hdigit

/-- The place of the point tells the digits behind it. -/
lemma numberText_fixed_inj {p p' m m' : ℕ} {X X' : ℤ}
    (heq : numberText 'f' p true m X = numberText 'f' p' true m' X') : p = p' := by
  have hpoint : ∀ i < 10, digitChar false i ≠ '.' := by decide
  rw [numberText, numberText, show exponentText 'f' X = [] from rfl,
    show exponentText 'f' X' = [] from rfl, List.append_nil, List.append_nil] at heq
  exact pointed_digits_inj _ _ (by norm_num) hpoint heq

lemma clipPrec_of_le {P maxFract : ℤ} (h : P ≤ maxFract) : clipPrec P maxFract = (P, 0) :=
  if_neg (not_lt.mpr h)

lemma generalPrec_pos {P : ℤ} (hP : -1 ≤ P) : 0 < generalPrec P := by
  rw [generalPrec]
  split_ifs <;> omega

/-- The call for `%#g`, for a precision for which nothing is clipped. -/
lemma floatCall_altGeneral (ht : SI.terminal = 'g') (halt : SI.flags.alt = true) {P : ℤ}
    (hprec : generalPrec P ≤ 57) (exp : ℤ) :
    floatCall SI exp P =
      if exp < generalPrec P ∧ -4 ≤ exp then ⟨'f', generalPrec P - (exp + 1), 0, false⟩
      else ⟨'e', generalPrec P - 1, 0, true⟩ := by
  have hf : maxFractSize SI.flags 'f' = 60 := rfl
  have he : (309 : ℤ) ≤ maxFractSize SI.flags 'e' := by
    rw [maxFractSize, maxFractLE]
    cases SI.flags.longdbl <;> decide
  rw [floatCall, if_neg (by simp [ht]), if_pos halt]
  dsimp only
  split_ifs with hstyle
  · rw [clipPrec_of_le (by omega)]
  · rw [clipPrec_of_le (by omega)]

/-- **The style** of the exponent before rounding is that of `printf`, unless the digits are rounded
up to the next power of ten. -/
lemma styledText_eq_generalText_iff (x : Magnitude) (n : ℕ) :
    x.styledText (n + 1) (Int.log 10 x.value) = x.generalText (n + 1) ↔
      ¬RoundsUp 10 n (x.value / 10 ^ Int.log 10 x.value) ∨ Int.log 10 x.value < -5 ∨
        (n + 1 : ℕ) ≤ Int.log 10 x.value := by
  have hexp : x.exponent 'e' n =
      if RoundsUp 10 n (x.value / 10 ^ Int.log 10 x.value) then Int.log 10 x.value + 1
      else Int.log 10 x.value := rfl
  rw [Magnitude.generalText, Nat.add_sub_cancel, hexp]
  by_cases hup : RoundsUp 10 n (x.value / 10 ^ Int.log 10 x.value)
  · rw [if_pos hup, or_iff_right (not_not.mpr hup), Magnitude.styledText, Magnitude.styledText]
    split_ifs with hcode hprintf hprintf
    · -- one digit less behind the point
      refine iff_of_false (fun heq => ?_) (by omega)
      have hdigits := numberText_fixed_inj heq
      omega
    · exact iff_of_false (numberText_style_ne _ _ _ _ _ _) (by omega)
    · exact iff_of_false (fun heq => numberText_style_ne _ _ _ _ _ _ heq.symm) (by omega)
    · exact iff_of_true rfl (by omega)
  · rw [if_neg hup]
    exact iff_of_true rfl (.inl hup)

lemma fitBufferSize_le_general (flags : Flags) :
    fitBufferSize flags 'f' ≤ fitBufferSize flags 'g' ∧
      fitBufferSize flags 'e' ≤ fitBufferSize flags 'g' := by
  simp only [fitBufferSize, maxFractLE]
  cases flags.longdbl <;> decide

lemma valid_fixed (ht : SI.terminal = 'g') {p : ℕ} (hp : p ≤ 60) :
    FloatCall.Valid SI ⟨'f', p, 0, false⟩ where
  plain := rfl
  prec_ge := by
    dsimp only
    omega
  prec_le := by
    change (p : ℤ) ≤ 60
    omega
  buffer := ht ▸ (fitBufferSize_le_general SI.flags).1
  zeros h := absurd h (lt_irrefl 0)
  splits := by simp [ht, hasExp]
  expChar_eq h := by simp [hasExp] at h

lemma valid_scientific (ht : SI.terminal = 'g') {n : ℕ} (hn : n ≤ 56) :
    FloatCall.Valid SI ⟨'e', n, 0, true⟩ where
  plain := rfl
  prec_ge := by
    dsimp only
    omega
  prec_le := by
    have hmax : (56 : ℤ) ≤ maxFractSize SI.flags 'e' := by
      rw [maxFractSize, maxFractLE]
      cases SI.flags.longdbl <;> decide
    dsimp only
    omega
  buffer := ht ▸ (fitBufferSize_le_general SI.flags).2
  zeros h := absurd h (lt_irrefl 0)
  splits := by simp [ht, hasExp]
  expChar_eq _ := by
    rw [ht]
    rfl

/-- Without zeros to add, a call asks for the text of `printf`. -/
lemma FloatCall.numberText_of_zero {call : FloatCall} (h : call.fpprec = 0) (x : Magnitude)
    (always : Bool) : call.numberText x always = x.text call.TM (call.digitsBehind x) always := by
  rw [FloatCall.numberText, h, Int.toNat_zero, Nat.add_zero, pow_zero, mul_one]
  rfl

/-- A call without zeros to add, for a few digits. -/
lemma converterSingle_few (hSI : SI.FitsInt) (hfloat : isFloatTerminal SI.terminal = true)
    (harg : FiniteArg lib SI arg k x) (fmt : List Char) (W : ℤ) {P : ℤ} (hP : IsInt P) {t : Char}
    {n : ℕ} {gtoe : Bool} (hcall : FloatCall.Valid SI ⟨t, n, 0, gtoe⟩) (hn : n ≤ 60)
    (heq : floatCall SI (decimalExponent lib k arg.bytes) (resolve SI W P).2.1 =
      ⟨t, n, 0, gtoe⟩) : PrintsBody lib fmt SI arg k W P (x.text t n SI.flags.alt) := by
  have hdigits : FloatCall.digitsBehind ⟨t, n, 0, gtoe⟩ x = n := by
    rw [FloatCall.digitsBehind, printfPrec, if_pos (Int.natCast_nonneg n), Int.toNat_natCast]
  have hnumber : FloatCall.numberText ⟨t, n, 0, gtoe⟩ x SI.flags.alt = x.text t n SI.flags.alt := by
    rw [FloatCall.numberText_of_zero rfl, hdigits]
  have hlen := length_numberText_room harg.toChars hcall.plain n 0 SI.flags.alt
  rw [pow_zero, mul_one, Nat.add_zero] at hlen
  have hsign := length_signChars_le SI (lib.isNegative k arg.bytes)
  have hprints := converterSingle_call hSI hfloat harg fmt W hP hcall heq
  rw [hnumber] at hprints
  refine hprints ?_
  change (x.text t n SI.flags.alt).length ≤ n + 4934 at hlen
  omega

end Field

/-! ### The number 9.5 -/

/-- 9.5, which is 1.3p+3 in hexadecimal. -/
def nineHalf : Magnitude where
  value := 19 / 2
  hexDigits := 1
  hexExponent := 3
  nonneg := by norm_num
  hexDigits_le := by norm_num
  lt := by norm_num
  ends := ⟨19, by norm_num⟩

/-- A library whose only floating point number is 9.5. -/
def nineLib : CLib :=
  let text (t : Char) (P : ℤ) : List Char :=
    nineHalf.text t (printfPrec t nineHalf.hexDigits P) false
  { CLib.ascii with
    fpclassify := fun _ _ => .normal
    toChars := fun _ _ _ format P size =>
      match format with
      | .fixed => fitText (text 'f' P) size
      | .scientific => fitText (text 'e' P) size
      | .hex => fitText (text 'a' P) size
      | .general => fitText "9.5".toList size }

/-- The double 9.5. -/
def nineArg : Arg where
  type := .flt .double
  bytes := [0, 0, 0, 0, 0, 0, 35, 64]
  length_bytes := rfl

lemma log_nineHalf : Int.log 10 nineHalf.value = 0 := by
  have hge : 0 ≤ Int.log 10 (19 / 2 : ℚ) :=
    (Int.zpow_le_iff_le_log (by norm_num) (by norm_num)).mp (by norm_num)
  have hlt : Int.log 10 (19 / 2 : ℚ) < 1 :=
    (Int.lt_zpow_iff_log_lt (by norm_num) (by norm_num)).mp (by norm_num)
  exact le_antisymm (Int.lt_add_one_iff.mp hlt) hge

/-- What the library promises for 9.5. -/
lemma toCharsRounds_nineHalf (value : List UInt8) :
    ToCharsRounds nineLib .double value false nineHalf := by
  have hle : nineHalf.value < 2 ^ 4 := by norm_num [nineHalf]
  refine ⟨hle.trans_le (pow_le_pow_right₀ (by norm_num) (by norm_num)), fun t p => ?_,
    fun t ht P _ size => ?_⟩
  · have hlead : nineHalf.lead t = 3 ∨ nineHalf.lead t = 0 := by
      rw [Magnitude.lead, log_nineHalf]
      split_ifs
      · exact .inl rfl
      · exact .inr rfl
    rw [Magnitude.exponent]
    split_ifs <;> omega
  · rcases isPlainFloat_iff.mp ht with (rfl | rfl) | (rfl | rfl) | rfl | rfl <;> rfl

lemma finiteArg_nineHalf {SI : SpecInfo} (hlong : SI.flags.longdbl = false) :
    FiniteArg nineLib SI nineArg .double nineHalf := by
  refine ⟨rfl, .inr (.inr rfl), ?_⟩
  rw [hlong]
  exact toCharsRounds_nineHalf _

/-- 9.5 is rounded to the even one of 9 and 10. -/
lemma digits_nineHalf : nineHalf.digits 'f' 0 = 10 := by
  have hrounds := nineHalf.rounds_digits 'f' 0
  change Rounds ((19 / 2 : ℚ) / 1 * ((10 : ℕ) : ℚ) ^ 0) _ at hrounds
  rw [div_one, pow_zero, mul_one] at hrounds
  exact hrounds.unique ⟨by norm_num [abs_le], fun _ => ⟨5, rfl⟩⟩

end ConstexprFmtStr
