import Mathlib.Tactic
import ConstexprFmtStr.Format.Floats

/-!
The backward searches for the exponent of a floating point number.

* `searchBack`: `while (*(--p) != exp);`, which leaves a text without that letter.
* `floatCall`: how `converter_single` calls `formatDuble`.
* `searches`: what the code searches for, and in which texts.
* `PrintsNarrowed`: a finite number and what the library prints for it, which is "inf" for one
  that is too large for a `double`.
* `exponentFound_iff`: every search stops inside its text, but for those in "inf".
-/

namespace ConstexprFmtStr

open Slice Word

/-! ### The search -/

/-- `while (*(--p) != exp);` with `p` at the index `i` before it: the index where it stops,
`none` if it leaves the text. -/
def searchBack (exp : Char) (text : List Char) : ℕ → Option ℕ
  | 0 => none
  | i + 1 => if text[i]? = some exp then some i else searchBack exp text i

/-- It stops inside the text if the letter stands before `p`. -/
lemma exists_searchBack_iff {exp : Char} {text : List Char} {i : ℕ} :
    (∃ j, searchBack exp text i = some j) ↔ exp ∈ text.take i := by
  induction i with
  | zero => simp [searchBack]
  | succ i ih =>
      rw [searchBack, List.take_add_one, List.mem_append, Option.mem_toList]
      by_cases hi : text[i]? = some exp
      · rw [if_pos hi]
        exact ⟨fun _ => .inr hi, fun _ => ⟨i, rfl⟩⟩
      · rw [if_neg hi, ih]
        exact ⟨.inl, fun h => h.resolve_right hi⟩

/-- Where it stops is where the zeros are printed. -/
lemma expIndex_eq_of_searchBack {exp : Char} {text : List Char} {j : ℕ}
    (h : searchBack exp text (text.length - 2) = some j) : expIndex exp text = j := by
  suffices hall : ∀ i ≤ text.length, searchBack exp text i = some j →
      (text.take i).length - 1 - (text.take i).reverse.findIdx (· == exp) = j from
    hall (text.length - 2) (Nat.sub_le _ 2) h
  intro i hi h
  induction i with
  | zero => exact absurd h nofun
  | succ i ih =>
      have hget : text[i]? = some text[i] := List.getElem?_eq_getElem hi
      rw [searchBack, hget] at h
      rw [List.take_add_one, hget, Option.toList_some, List.reverse_append, List.reverse_singleton,
        List.singleton_append, List.findIdx_cons, List.length_append, List.length_take_of_le
        (Nat.le_of_succ_le hi), List.length_singleton]
      by_cases hc : text[i] = exp
      · rw [if_pos (congrArg some hc)] at h
        rw [beq_iff_eq.mpr hc, cond_true]
        exact Option.some.inj h
      · rw [if_neg fun heq => hc (Option.some.inj heq)] at h
        have hrest := ih (Nat.le_of_succ_le hi) h
        rw [List.length_take_of_le (Nat.le_of_succ_le hi)] at hrest
        rw [beq_false_of_ne hc, cond_false]
        omega

/-! ### Where the code searches -/

/-- A call of `formatDuble`: its terminal and its precision, and the zeros to print after its
digits; `gtoe` for a `g` in the style of `e`. -/
structure FloatCall where
  TM : Char
  prec : ℤ
  fpprec : ℤ
  gtoe : Bool

/-- The precision of `g` with '#': "6 if the precision is omitted", "or 1 if the precision is
zero". -/
def generalPrec (P : ℤ) : ℤ := if P = -1 then 6 else if P = 0 then 1 else P

/-- How `converter_single` calls `formatDuble`, for a number of the decimal exponent `exp`. -/
def floatCall (SI : SpecInfo) (exp P : ℤ) : FloatCall :=
  if SI.terminal ≠ 'g' ∧ SI.terminal ≠ 'G' then
    let clip := clipPrec P (maxFractSize SI.flags SI.terminal)
    ⟨SI.terminal, clip.1, clip.2, false⟩
  else if SI.flags.alt then
    let P := generalPrec P
    if exp < P ∧ -4 ≤ exp then
      let clip := clipPrec (P - (exp + 1)) (maxFractSize SI.flags 'f')
      ⟨if SI.terminal = 'g' then 'f' else 'F', clip.1, clip.2, false⟩
    else
      let clip := clipPrec (P - 1) (maxFractSize SI.flags 'e')
      ⟨if SI.terminal = 'g' then 'e' else 'E', clip.1, clip.2, true⟩
  else ⟨SI.terminal, P, 0, false⟩

lemma floatText_eq_floatCall (lib : CLib) (SI : SpecInfo) (k : FloatKind) (isZero : Bool)
    (arg : List UInt8) (P : ℤ) :
    floatText lib SI k isZero arg P =
      let call := floatCall SI (if isZero then 0 else lib.floorLog10 k arg) P
      (formatDuble lib call.TM SI.flags (fitBufferSize SI.flags SI.terminal) k arg call.prec,
        call.fpprec, call.gtoe) := by
  by_cases hg : SI.terminal ≠ 'g' ∧ SI.terminal ≠ 'G'
  · rw [floatText, floatCall, if_pos hg, if_pos hg]
  by_cases halt : SI.flags.alt = true
  · simp only [floatText, floatCall, if_neg hg, if_pos halt]
    by_cases hstyle : (if isZero then 0 else lib.floorLog10 k arg) < generalPrec P ∧
        -4 ≤ (if isZero then 0 else lib.floorLog10 k arg)
    · rw [if_pos hstyle]
      exact if_pos hstyle
    · rw [if_neg hstyle]
      exact if_neg hstyle
  · rw [floatText, floatCall, if_neg hg, if_neg hg, if_neg halt, if_neg halt]

/-- The number that is printed, without the sign of one that is less than zero. -/
def printedValue (lib : CLib) (k : FloatKind) (bytes : List UInt8) : List UInt8 :=
  if lib.isNegative k bytes then lib.abs k bytes else bytes

/-- `exp` of a finite number. -/
def decimalExponent (lib : CLib) (k : FloatKind) (bytes : List UInt8) : ℤ :=
  if lib.fpclassify k bytes = .zero then 0 else lib.floorLog10 k (printedValue lib k bytes)

/-- The letters that the code searches for while it prints a finite number, each with the text
that it searches. -/
def searches (lib : CLib) (SI : SpecInfo) (k : FloatKind) (bytes : List UInt8) (P : ℤ) :
    List (Char × List Char) :=
  let call := floatCall SI (decimalExponent lib k bytes) P
  let size := fitBufferSize SI.flags SI.terminal
  let value := printedValue lib k bytes
  -- in `formatDuble`, for the point of '#'
  (if (call.TM = 'e' ∨ call.TM = 'E') ∧ SI.flags.alt ∧ call.prec = 0 then
    [('e', (lib.toChars k value SI.flags.longdbl .scientific call.prec size).getD [])]
  else []) ++
  -- in `converter_single`, for the zeros
  (if 0 < call.fpprec ∧
      (hasExp SI.terminal ∨ (SI.terminal = 'g' ∨ SI.terminal = 'G') ∧ call.gtoe) then
    [(expChar SI.terminal, formatDuble lib call.TM SI.flags size k value call.prec)]
  else [])

/-- With zeros to print, the field is split where the search stops. -/
lemma splitsExp_iff {SI : SpecInfo} {f : Field} :
    f.splitsExp SI = true ↔ 0 < f.fpprec ∧
      (hasExp SI.terminal ∨ (SI.terminal = 'g' ∨ SI.terminal = 'G') ∧ f.gtoe) := by
  simp [Field.splitsExp, hasExp, or_assoc]

/-! ### Numbers that are narrowed -/

/-- A `long double` that is rounded to infinity when it is made a `double`: its exponent is
greater than that of the greatest `double`, or its mantissa is rounded up to the next power. -/
def TooLarge (k : FloatKind) (bytes : List UInt8) : Prop :=
  let mantissa := leValue (bytes.take 8)
  let exponent := leValue ((bytes.drop 8).take 2) % 2 ^ 15
  k = .longDouble ∧
    (16383 + 1023 < exponent ∨ exponent = 16383 + 1023 ∧ 2 ^ 64 - 2 ^ 10 ≤ mantissa)

/-- Without `L` the digits are those of a `double`. -/
def Narrowed (SI : SpecInfo) (k : FloatKind) (bytes : List UInt8) : Prop :=
  SI.flags.longdbl = false ∧ TooLarge k bytes

/-- What is printed for a number that is narrowed to infinity. -/
def infText : List Char := ['i', 'n', 'f']

/-- The classes of numbers that are printed with digits. -/
def FpClass.IsFinite (c : FpClass) : Prop := c = .zero ∨ c = .subnormal ∨ c = .normal

/-- A finite number, and the `digits` that `std::to_chars` prints for it as the code calls it. -/
structure PrintsNarrowed (lib : CLib) (SI : SpecInfo) (k : FloatKind) (bytes : List UInt8)
    (digits : CharsFormat → ℤ → List Char) : Prop where
  finite : (lib.fpclassify k bytes).IsFinite
  toChars_eq : ∀ format prec size,
    lib.toChars k (printedValue lib k bytes) SI.flags.longdbl format prec size =
      fitText (digits format prec) size
  ascii : ∀ format prec, ∀ c ∈ digits format prec, c.toNat < 128
  infinity : Narrowed SI k bytes → ∀ format prec, digits format prec = infText
  exponent : ¬Narrowed SI k bytes → ∀ t, hasExp t = true → ∀ prec,
    HasExponent (expChar t) (digits (charsFormat t) prec)
  /-- a sign, a digit, a point, the other digits, and an exponent of at most seven characters -/
  length_le : ∀ t, hasExp t = true → ∀ prec,
    (digits (charsFormat t) prec).length ≤ (max prec 16).toNat + 10

/-! ### When the code searches -/

/-- Does the code search for the exponent, in a number of the decimal exponent `X`? -/
def SearchesExp (SI : SpecInfo) (X P : ℤ) : Prop :=
  if SI.terminal = 'g' ∨ SI.terminal = 'G' then
    SI.flags.alt = true ∧ ¬(X < generalPrec P ∧ -4 ≤ X) ∧
      (generalPrec P = 1 ∨ maxFractSize SI.flags 'e' + 1 < generalPrec P)
  else
    (SI.terminal = 'e' ∨ SI.terminal = 'E') ∧ SI.flags.alt = true ∧ P = 0 ∨
      hasExp SI.terminal = true ∧ maxFractSize SI.flags SI.terminal < P

lemma clipPrec_eq_zero {P maxFract : ℤ} (hmax : 0 < maxFract) :
    (clipPrec P maxFract).1 = 0 ↔ P = 0 := by
  rw [clipPrec]
  split_ifs
  · dsimp only
    omega
  · exact Iff.rfl

lemma clipPrec_pos {P maxFract : ℤ} : 0 < (clipPrec P maxFract).2 ↔ maxFract < P := by
  rw [clipPrec]
  split_ifs
  · dsimp only
    omega
  · dsimp only
    omega

lemma clipPrec_of_pos {P maxFract : ℤ} (h : 0 < (clipPrec P maxFract).2) :
    (clipPrec P maxFract).1 = maxFract := by
  rw [clipPrec, if_pos (clipPrec_pos.mp h)]

lemma clipPrec_le (P maxFract : ℤ) : (clipPrec P maxFract).1 ≤ maxFract := by
  rw [clipPrec]
  split_ifs
  · exact le_rfl
  · dsimp only
    omega

lemma maxFractSize_pos (flags : Flags) (t : Char) : 0 < maxFractSize flags t := by
  rw [maxFractSize]
  cases flags.longdbl <;> split_ifs <;> decide

lemma floatCall_of_not_g {SI : SpecInfo} (hg : ¬(SI.terminal = 'g' ∨ SI.terminal = 'G'))
    (X P : ℤ) :
    floatCall SI X P = ⟨SI.terminal, (clipPrec P (maxFractSize SI.flags SI.terminal)).1,
      (clipPrec P (maxFractSize SI.flags SI.terminal)).2, false⟩ := by
  rw [floatCall, if_pos (not_or.mp hg)]

/-- `g` in the style of `f`. -/
lemma floatCall_fixed {SI : SpecInfo} (hg : SI.terminal = 'g' ∨ SI.terminal = 'G')
    (halt : SI.flags.alt = true) {X P : ℤ} (hstyle : X < generalPrec P ∧ -4 ≤ X) :
    floatCall SI X P = ⟨if SI.terminal = 'g' then 'f' else 'F',
      (clipPrec (generalPrec P - (X + 1)) (maxFractSize SI.flags 'f')).1,
      (clipPrec (generalPrec P - (X + 1)) (maxFractSize SI.flags 'f')).2, false⟩ := by
  rw [floatCall, if_neg fun h => hg.elim h.1 h.2, if_pos halt]
  exact if_pos hstyle

lemma ite_e_or_E (t : Char) :
    (if t = 'g' then 'e' else 'E') = 'e' ∨ (if t = 'g' then 'e' else 'E') = 'E' := by
  split_ifs <;> simp

/-- `g` in the style of `e`, where `P` counts the digit before the point. -/
lemma floatCall_gtoe {SI : SpecInfo} (hg : SI.terminal = 'g' ∨ SI.terminal = 'G')
    (halt : SI.flags.alt = true) {X P : ℤ} (hstyle : ¬(X < generalPrec P ∧ -4 ≤ X)) :
    floatCall SI X P = ⟨if SI.terminal = 'g' then 'e' else 'E',
      (clipPrec (generalPrec P - 1) (maxFractSize SI.flags 'e')).1,
      (clipPrec (generalPrec P - 1) (maxFractSize SI.flags 'e')).2, true⟩ := by
  rw [floatCall, if_neg fun h => hg.elim h.1 h.2, if_pos halt]
  exact if_neg hstyle

/-- `g` without '#'. -/
lemma floatCall_general {SI : SpecInfo} (hg : SI.terminal = 'g' ∨ SI.terminal = 'G')
    (halt : SI.flags.alt = false) (X P : ℤ) : floatCall SI X P = ⟨SI.terminal, P, 0, false⟩ := by
  rw [floatCall, if_neg fun h => hg.elim h.1 h.2, halt]
  rfl

/-- **When the code searches.** -/
lemma searches_ne_nil_iff (lib : CLib) (SI : SpecInfo) (k : FloatKind) (bytes : List UInt8)
    (P : ℤ) :
    searches lib SI k bytes P ≠ [] ↔ SearchesExp SI (decimalExponent lib k bytes) P := by
  have hif : ∀ (c d : Prop) [Decidable c] [Decidable d] (a b : Char × List Char),
      (if c then [a] else []) ++ (if d then [b] else []) ≠ [] ↔ c ∨ d := by
    intro c d _ _ a b
    split_ifs with hc hd hd <;> simp [hc, hd]
  simp only [searches, hif]
  by_cases hg : SI.terminal = 'g' ∨ SI.terminal = 'G'
  · have hhas : hasExp SI.terminal = false := by
      rcases hg with h | h <;> rw [h] <;> decide
    rw [SearchesExp, if_pos hg]
    cases halt : SI.flags.alt with
    | false =>
        rw [floatCall_general hg halt]
        simp
    | true =>
        by_cases hstyle : decimalExponent lib k bytes < generalPrec P ∧
            -4 ≤ decimalExponent lib k bytes
        · rw [floatCall_fixed hg halt hstyle]
          rcases hg with h | h
          · rw [h] at hhas
            simp [h, hhas, hstyle]
          · rw [h] at hhas
            simp [h, hhas, hstyle]
        · rw [floatCall_gtoe hg halt hstyle]
          simp only [ite_e_or_E SI.terminal, hg, hstyle, hhas,
            clipPrec_eq_zero (maxFractSize_pos _ _), clipPrec_pos, true_and, and_true,
            not_false_iff, or_true, Int.sub_eq_zero, lt_sub_iff_add_lt]
  · rw [floatCall_of_not_g hg, SearchesExp, if_neg hg]
    simp only [hg, clipPrec_eq_zero (maxFractSize_pos _ _), clipPrec_pos, false_and, or_false]
    rw [and_comm (a := _ < _)]

/-! ### What it finds -/

/-- Every search stops inside the text. -/
def ExponentFound (lib : CLib) (SI : SpecInfo) (k : FloatKind) (bytes : List UInt8) (P : ℤ) :
    Prop :=
  ∀ s ∈ searches lib SI k bytes P, ∃ i, searchBack s.1 s.2 (s.2.length - 2) = some i

/-- `formatDuble` of a number with an exponent prints the text of the library, with a point
behind the first character or without. -/
lemma formatDuble_exponent {lib : CLib} {TM : Char} {flags : Flags} {size : ℕ} {k : FloatKind}
    {value : List UInt8} {prec : ℤ} {text : List Char} (hexp : hasExp TM = true)
    (hprec : prec ≠ 0)
    (htext : lib.toChars k value flags.longdbl (charsFormat TM) prec size = some text) :
    formatDuble lib TM flags size k value prec = text ∨
      formatDuble lib TM flags size k value prec = text.take 1 ++ '.' :: text.drop 1 := by
  simp only [hasExp, Bool.or_eq_true, beq_iff_eq, or_assoc] at hexp
  have hf : ¬(TM = 'f' ∨ TM = 'F') := by
    rcases hexp with h | h | h | h <;> rw [h] <;> decide
  rw [charsFormat, if_neg hf] at htext
  rw [formatDuble, if_neg hf]
  by_cases he : TM = 'e' ∨ TM = 'E'
  · rw [if_pos he] at htext
    rw [if_pos he]
    simp only [htext, hprec, and_false, if_false, true_or]
  · have ha : TM = 'a' ∨ TM = 'A' := by
      rw [← or_assoc] at hexp
      exact hexp.resolve_left he
    rw [if_neg he, if_pos ha] at htext
    rw [if_neg he, if_pos ha]
    simp only [htext]
    split_ifs
    · exact .inr rfl
    · exact .inl rfl

lemma mem_insert_point {c : Char} (hc : c ≠ '.') (text : List Char) (i : ℕ) :
    c ∈ text.take i ++ '.' :: text.drop i ↔ c ∈ text := by
  conv_rhs => rw [← List.take_append_drop i text]
  simp only [List.mem_append, List.mem_cons, hc, false_or]

/-- The characters of `formatDuble` are those of the library, and points. -/
lemma mem_formatDuble {lib : CLib} {TM : Char} {flags : Flags} {size : ℕ} {k : FloatKind}
    {value : List UInt8} {prec : ℤ} {c : Char} (hc : c ≠ '.') :
    c ∈ formatDuble lib TM flags size k value prec ↔
      c ∈ (lib.toChars k value flags.longdbl (charsFormat TM) prec size).getD [] := by
  rw [formatDuble, charsFormat]
  by_cases hf : TM = 'f' ∨ TM = 'F'
  · rw [if_pos hf, if_pos hf]
    dsimp only
    cases lib.toChars k value flags.longdbl .fixed prec size with
    | none => exact Iff.rfl
    | some text =>
        dsimp only [Option.getD_some]
        split_ifs
        · simp [hc]
        · exact Iff.rfl
  by_cases he : TM = 'e' ∨ TM = 'E'
  · rw [if_neg hf, if_neg hf, if_pos he, if_pos he]
    dsimp only
    cases lib.toChars k value flags.longdbl .scientific prec size with
    | none => exact Iff.rfl
    | some text =>
        dsimp only [Option.getD_some]
        split_ifs
        · exact mem_insert_point hc text _
        · exact Iff.rfl
  by_cases ha : TM = 'a' ∨ TM = 'A'
  · rw [if_neg hf, if_neg hf, if_neg he, if_neg he, if_pos ha, if_pos ha]
    dsimp only
    cases lib.toChars k value flags.longdbl .hex prec size with
    | none => exact Iff.rfl
    | some text =>
        dsimp only [Option.getD_some]
        split_ifs
        · exact mem_insert_point hc text 1
        · exact Iff.rfl
  · rw [if_neg hf, if_neg hf, if_neg he, if_neg he, if_neg ha, if_neg ha]

/-- The buffer of a number that is printed with an exponent. -/
lemma length_le_fitBufferSize {flags : Flags} {t TM : Char} {prec : ℤ} (hexp : hasExp TM = true)
    (ht : TM = t ∨ (t = 'g' ∨ t = 'G') ∧ (TM = 'e' ∨ TM = 'E'))
    (hprec : prec ≤ maxFractSize flags TM) :
    (max prec 16).toNat + 10 ≤ fitBufferSize flags t := by
  simp only [hasExp, Bool.or_eq_true, beq_iff_eq, or_assoc] at hexp
  have hle : (max prec 16).toNat ≤ (max (maxFractSize flags TM) 16).toNat :=
    Int.toNat_le_toNat (max_le_max hprec le_rfl)
  have hsize : (max (maxFractSize flags TM) 16).toNat + 10 ≤ fitBufferSize flags t := by
    rw [maxFractSize, fitBufferSize, maxFractLE]
    cases flags.longdbl
    · rcases ht with rfl | ⟨h | h, h' | h'⟩
      · rcases hexp with h | h | h | h <;> rw [h] <;> decide
      all_goals
        rw [h, h']
        decide
    · rcases ht with rfl | ⟨h | h, h' | h'⟩
      · rcases hexp with h | h | h | h <;> rw [h] <;> decide
      all_goals
        rw [h, h']
        decide
  omega

/-- A call with an exponent: for the terminal itself, or for `g`. -/
lemma floatCall_exponent {SI : SpecInfo} {X P : ℤ} (hexp : hasExp (floatCall SI X P).TM = true) :
    ((floatCall SI X P).TM = SI.terminal ∨ (SI.terminal = 'g' ∨ SI.terminal = 'G') ∧
        ((floatCall SI X P).TM = 'e' ∨ (floatCall SI X P).TM = 'E')) ∧
      (floatCall SI X P).prec ≤ maxFractSize SI.flags (floatCall SI X P).TM ∧
      (0 < (floatCall SI X P).fpprec →
        (floatCall SI X P).prec = maxFractSize SI.flags (floatCall SI X P).TM) := by
  by_cases hg : SI.terminal = 'g' ∨ SI.terminal = 'G'
  · cases halt : SI.flags.alt with
    | false =>
        rw [floatCall_general hg halt] at hexp
        dsimp only at hexp
        rcases hg with h | h <;> rw [h] at hexp <;> exact absurd hexp (by decide)
    | true =>
        by_cases hstyle : X < generalPrec P ∧ -4 ≤ X
        · rw [floatCall_fixed hg halt hstyle] at hexp
          dsimp only at hexp
          split_ifs at hexp <;> exact absurd hexp (by decide)
        · have hmax : maxFractSize SI.flags (if SI.terminal = 'g' then 'e' else 'E') =
              maxFractSize SI.flags 'e' := by
            split_ifs <;> rfl
          rw [floatCall_gtoe hg halt hstyle]
          dsimp only
          rw [hmax]
          exact ⟨.inr ⟨hg, ite_e_or_E SI.terminal⟩, clipPrec_le _ _, clipPrec_of_pos⟩
  · rw [floatCall_of_not_g hg]
    exact ⟨.inl rfl, clipPrec_le _ _, clipPrec_of_pos⟩

/-- A call whose text is split has an exponent, with the letter of the terminal. -/
lemma floatCall_split {SI : SpecInfo} {X P : ℤ}
    (h : hasExp SI.terminal = true ∨
      (SI.terminal = 'g' ∨ SI.terminal = 'G') ∧ (floatCall SI X P).gtoe = true) :
    hasExp (floatCall SI X P).TM = true ∧
      expChar SI.terminal = expChar (floatCall SI X P).TM := by
  by_cases hg : SI.terminal = 'g' ∨ SI.terminal = 'G'
  · have hgtoe : (floatCall SI X P).gtoe = true := by
      refine (h.resolve_left ?_).2
      rcases hg with h | h <;> rw [h] <;> decide
    cases halt : SI.flags.alt with
    | false =>
        rw [floatCall_general hg halt] at hgtoe
        exact absurd hgtoe Bool.false_ne_true
    | true =>
        by_cases hstyle : X < generalPrec P ∧ -4 ≤ X
        · rw [floatCall_fixed hg halt hstyle] at hgtoe
          exact absurd hgtoe Bool.false_ne_true
        · rw [floatCall_gtoe hg halt hstyle]
          dsimp only
          rcases hg with h | h <;> rw [h] <;> decide
  · rw [floatCall_of_not_g hg]
    exact ⟨h.resolve_right fun h => hg h.1, rfl⟩

/-- A letter with two characters behind it is found. -/
lemma mem_take_of_eq_append {exp : Char} {text m x : List Char} (htext : text = m ++ exp :: x)
    (hlen : 2 ≤ x.length) : exp ∈ text.take (text.length - 2) := by
  have hn : text.length - 2 - m.length = x.length - 2 + 1 := by
    rw [htext, List.length_append, List.length_cons]
    omega
  rw [htext] at hn ⊢
  rw [List.take_append, hn, List.take_succ_cons]
  exact List.mem_append_right _ List.mem_cons_self

/-- A point behind the first character does not hide the exponent. -/
lemma mem_take_of_hasExponent {exp : Char} {text s : List Char} (h : HasExponent exp text)
    (hs : s = text ∨ s = text.take 1 ++ '.' :: text.drop 1) : exp ∈ s.take (s.length - 2) := by
  obtain ⟨m, x, rfl, -, -, hlen⟩ := h
  rcases hs with hs | hs
  · exact mem_take_of_eq_append hs hlen
  · cases m with
    | nil =>
        have hs : s = [] ++ exp :: '.' :: x := hs
        exact mem_take_of_eq_append hs (hlen.trans (Nat.le_succ _))
    | cons c m =>
        have hs : s = (c :: '.' :: m) ++ exp :: x := hs
        exact mem_take_of_eq_append hs hlen

/-- There is no exponent in "inf". -/
lemma not_mem_take_infText {t : Char} {s : List Char}
    (hs : s = infText ∨ s = infText.take 1 ++ '.' :: infText.drop 1) :
    expChar t ∉ s.take (s.length - 2) := by
  have hexp : expChar t = 'e' ∨ expChar t = 'p' := by
    rw [expChar]
    split_ifs <;> simp
  rcases hs with rfl | rfl <;> rcases hexp with h | h <;> rw [h] <;> decide

section Finite

variable {lib : CLib} {SI : SpecInfo} {k : FloatKind} {bytes : List UInt8}
  {digits : CharsFormat → ℤ → List Char} {P : ℤ}

/-- The library prints a number with an exponent whole. -/
lemma toChars_floatCall (h : PrintsNarrowed lib SI k bytes digits) {call : FloatCall}
    (hcall : floatCall SI (decimalExponent lib k bytes) P = call) (hexp : hasExp call.TM = true) :
    lib.toChars k (printedValue lib k bytes) SI.flags.longdbl (charsFormat call.TM) call.prec
      (fitBufferSize SI.flags SI.terminal) = some (digits (charsFormat call.TM) call.prec) := by
  subst hcall
  obtain ⟨ht, hprec, -⟩ := floatCall_exponent hexp
  have hle := h.length_le _ hexp (floatCall SI (decimalExponent lib k bytes) P).prec
  have hsize := length_le_fitBufferSize hexp ht hprec
  rw [h.toChars_eq, fitText, if_pos (hle.trans hsize)]

/-- A text that is searched is one with an exponent, with a point behind its first character
or without. -/
lemma exists_of_mem_searches (h : PrintsNarrowed lib SI k bytes digits) {s : Char × List Char}
    (hs : s ∈ searches lib SI k bytes P) :
    ∃ t prec, hasExp t = true ∧ s.1 = expChar t ∧
      (s.2 = digits (charsFormat t) prec ∨ s.2 = (digits (charsFormat t) prec).take 1 ++
        '.' :: (digits (charsFormat t) prec).drop 1) := by
  obtain ⟨call, hcall⟩ : ∃ call, floatCall SI (decimalExponent lib k bytes) P = call := ⟨_, rfl⟩
  simp only [searches, hcall, List.mem_append] at hs
  rcases hs with hs | hs
  · split_ifs at hs with hpoint
    · obtain ⟨hTM, -, -⟩ := hpoint
      obtain rfl := List.mem_singleton.mp hs
      have hexp : hasExp call.TM = true := by
        rcases hTM with h | h <;> rw [h] <;> decide
      have hformat : charsFormat call.TM = .scientific := by
        rcases hTM with h | h <;> rw [h] <;> rfl
      have hchar : 'e' = expChar call.TM := by
        rcases hTM with h | h <;> rw [h] <;> rfl
      have htext := toChars_floatCall h hcall hexp
      rw [hformat] at htext
      refine ⟨call.TM, call.prec, hexp, hchar, .inl ?_⟩
      rw [htext, hformat, Option.getD_some]
    · exact absurd hs List.not_mem_nil
  · split_ifs at hs with hzeros
    · obtain ⟨hpos, hsplit⟩ := hzeros
      obtain rfl := List.mem_singleton.mp hs
      rw [← hcall] at hpos hsplit
      obtain ⟨hexp, hchar⟩ := floatCall_split hsplit
      have hprec := (floatCall_exponent hexp).2.2 hpos
      rw [hcall] at hexp hchar hprec
      have hne : call.prec ≠ 0 := by
        have := maxFractSize_pos SI.flags call.TM
        omega
      exact ⟨call.TM, call.prec, hexp, hchar,
        formatDuble_exponent hexp hne (toChars_floatCall h hcall hexp)⟩
    · exact absurd hs List.not_mem_nil

/-- The text of `formatDuble` for a finite number. -/
def callText (lib : CLib) (SI : SpecInfo) (k : FloatKind) (bytes : List UInt8) (P : ℤ) :
    List Char :=
  let call := floatCall SI (decimalExponent lib k bytes) P
  formatDuble lib call.TM SI.flags (fitBufferSize SI.flags SI.terminal) k
    (printedValue lib k bytes) call.prec

/-- The field of a finite number. -/
lemma convertFloat_finite {arg : Arg} (harg : arg.type = .flt k)
    (hfinite : (lib.fpclassify k arg.bytes).IsFinite) (P : ℤ) (flags : Flags) (sign : Char) :
    convertFloat lib SI arg P flags sign = some {
      src := .buf (charBytes (callText lib SI k arg.bytes P))
      size := (callText lib SI k arg.bytes P).length
      P := P
      fpprec := (floatCall SI (decimalExponent lib k arg.bytes) P).fpprec
      gtoe := (floatCall SI (decimalExponent lib k arg.bytes) P).gtoe
      flags := flags
      sign := if lib.isNegative k arg.bytes then '-' else sign } := by
  rw [convertFloat]
  simp only [harg, callText, decimalExponent, printedValue]
  rcases hfinite with hc | hc | hc <;> simp [hc, floatText_eq_floatCall]

lemma ascii_callText (h : PrintsNarrowed lib SI k bytes digits) :
    ∀ c ∈ callText lib SI k bytes P, c.toNat < 128 := by
  intro c hc
  by_cases hpoint : c = '.'
  · rw [hpoint]
    decide
  · rw [callText, mem_formatDuble hpoint, h.toChars_eq, fitText] at hc
    split_ifs at hc
    · exact h.ascii _ _ c hc
    · exact absurd hc List.not_mem_nil

/-- The field is cut where the search stops. -/
lemma texts_of_exponentFound {arg : Arg} (h : PrintsNarrowed lib SI k arg.bytes digits)
    (harg : arg.type = .flt k) {flags : Flags} {sign : Char} {f : Field}
    (hf : convertFloat lib SI arg P flags sign = some f) (hsplit : f.splitsExp SI = true)
    (hfound : ExponentFound lib SI k arg.bytes P) (mem : Mem) :
    ∃ s ∈ searches lib SI k arg.bytes P, ∃ i, searchBack s.1 s.2 (s.2.length - 2) = some i ∧
      f.texts SI mem = (charBytes (s.2.take i), charBytes (s.2.drop i)) := by
  rw [convertFloat_finite harg h.finite] at hf
  obtain rfl := Option.some.inj hf
  have hmem : (expChar SI.terminal, callText lib SI k arg.bytes P) ∈
      searches lib SI k arg.bytes P := by
    rw [searches]
    exact List.mem_append_right _ (by
      rw [if_pos (splitsExp_iff.mp hsplit)]
      exact List.mem_singleton_self _)
  obtain ⟨i, hi⟩ := hfound _ hmem
  refine ⟨_, hmem, i, hi, ?_⟩
  have hread : (CharSrc.buf (charBytes (callText lib SI k arg.bytes P))).read mem
      (callText lib SI k arg.bytes P).length = charBytes (callText lib SI k arg.bytes P) :=
    List.take_of_length_le (length_charBytes _).le
  simp only [Field.texts, hsplit, if_true, hread, map_charBytes (ascii_callText h),
    expIndex_eq_of_searchBack hi]
  simp only [charBytes, List.map_take, List.map_drop]

/-- **The searches for the exponent.** Every one stops inside its text, if not for a number that
is narrowed to infinity and whose precision makes the code search. -/
theorem exponentFound_iff {arg : Arg} (h : PrintsNarrowed lib SI k arg.bytes digits) (W P : ℤ) :
    ExponentFound lib SI k arg.bytes (resolve SI W P).2.1 ↔
      ¬(Narrowed SI k arg.bytes ∧
        SearchesExp SI (decimalExponent lib k arg.bytes) (resolve SI W P).2.1) := by
  constructor
  · rintro hfound ⟨hnarrow, hsearch⟩
    obtain ⟨s, hs⟩ := List.exists_mem_of_ne_nil _
      ((searches_ne_nil_iff lib SI k arg.bytes (resolve SI W P).2.1).mpr hsearch)
    obtain ⟨t, prec, -, hchar, htext⟩ := exists_of_mem_searches h hs
    have hmem := exists_searchBack_iff.mp (hfound s hs)
    rw [h.infinity hnarrow] at htext
    rw [hchar] at hmem
    exact not_mem_take_infText htext hmem
  · intro hholds s hs
    have hsearch := (searches_ne_nil_iff lib SI k arg.bytes (resolve SI W P).2.1).mp
      (List.ne_nil_of_mem hs)
    have hnot : ¬Narrowed SI k arg.bytes := fun hnarrow => hholds ⟨hnarrow, hsearch⟩
    obtain ⟨t, prec, hexp, hchar, htext⟩ := exists_of_mem_searches h hs
    rw [exists_searchBack_iff, hchar]
    exact mem_take_of_hasExponent (h.exponent hnot t hexp prec) htext

end Finite

/-! ### Zero -/

/-- The double 0.0. -/
def posZero : Arg where
  type := .flt .double
  bytes := [0, 0, 0, 0, 0, 0, 0, 0]
  length_bytes := rfl

lemma length_zeroDigits_le (t : Char) (ht : hasExp t = true) (prec : ℤ) :
    (zeroDigits (charsFormat t) prec).length ≤ (max prec 16).toNat + 10 := by
  have hfraction : ∀ n : ℕ,
      (if n = 0 then [] else '.' :: List.replicate n '0').length ≤ n + 1 := by
    intro n
    split_ifs
    · exact Nat.zero_le _
    · rw [List.length_cons, List.length_replicate]
  have hformat : charsFormat t = .scientific ∨ charsFormat t = .hex := by
    simp only [hasExp, Bool.or_eq_true, beq_iff_eq] at ht
    rcases ht with ((rfl | rfl) | rfl) | rfl
    · exact .inl rfl
    · exact .inl rfl
    · exact .inr rfl
    · exact .inr rfl
  rcases hformat with hf | hf
  · have hn := hfraction (if prec < 0 then 6 else prec.toNat)
    simp only [hf, zeroDigits, List.length_append, List.length_cons, List.length_nil]
    split_ifs at hn ⊢ <;> omega
  · have hn := hfraction prec.toNat
    simp only [hf, zeroDigits, List.length_append, List.length_cons, List.length_nil]
    omega

lemma printsNarrowed_posZero {SI : SpecInfo} :
    PrintsNarrowed zeroLib SI .double posZero.bytes zeroDigits := by
  have hnot : ¬Narrowed SI .double posZero.bytes := fun h => absurd h.2.1 nofun
  constructor
  case finite => exact .inl rfl
  case toChars_eq =>
    intro format prec size
    rfl
  case ascii => exact printsFloat_negZero.ascii
  case infinity => exact fun h => absurd h hnot
  case exponent => exact fun _ => printsFloat_negZero.exponent
  case length_le => exact length_zeroDigits_le

/-- `%#.0e`. -/
def pointSpec : SpecInfo := { flags := { alt := true }, prec := 0, terminal := 'e' }

/-- In the text of 0.0 it finds the 'e'. -/
theorem exponentFound_posZero :
    searches zeroLib pointSpec .double posZero.bytes (resolve pointSpec 0 (-1)).2.1 =
        [('e', "0e+00".toList)] ∧
      ExponentFound zeroLib pointSpec .double posZero.bytes (resolve pointSpec 0 (-1)).2.1 := by
  refine ⟨by decide, (exponentFound_iff printsNarrowed_posZero 0 (-1)).mpr ?_⟩
  rintro ⟨⟨-, hlarge⟩, -⟩
  exact absurd hlarge.1 nofun

/-! ### A number that is too large -/

/-- 2 ^ 1024 as a `long double`. -/
def nextPower : Arg where
  type := .flt .longDouble
  bytes := [0, 0, 0, 0, 0, 0, 0, 0x80, 0xFF, 0x43, 0, 0, 0, 0, 0, 0]
  length_bytes := rfl

/-- A library whose only number is that one, made a `double`. -/
def nextPowerLib : CLib :=
  { CLib.ascii with
    fpclassify := fun _ _ => .normal
    floorLog10 := fun _ _ => 308
    toChars := fun _ _ _ _ _ size => fitText infText size }

lemma tooLarge_nextPower : TooLarge .longDouble nextPower.bytes := by
  refine ⟨rfl, .inl ?_⟩
  decide

lemma printsNarrowed_nextPower :
    PrintsNarrowed nextPowerLib pointSpec .longDouble nextPower.bytes fun _ _ => infText := by
  constructor
  case finite => exact .inr (.inr rfl)
  case toChars_eq =>
    intro format prec size
    rfl
  case ascii =>
    intro _ _ c hc
    fin_cases hc <;> decide
  case infinity =>
    intro _ format prec
    rfl
  case exponent =>
    intro hnot
    exact absurd ⟨rfl, tooLarge_nextPower⟩ hnot
  case length_le =>
    intro t _ prec
    have : infText.length = 3 := rfl
    omega

/-- For 2 ^ 1024 the search for the 'e' leaves "inf". -/
theorem exponentFound_beforeText :
    PrintsNarrowed nextPowerLib pointSpec .longDouble nextPower.bytes (fun _ _ => infText) ∧
      searches nextPowerLib pointSpec .longDouble nextPower.bytes
        (resolve pointSpec 0 (-1)).2.1 = [('e', infText)] ∧
      searchBack 'e' infText (infText.length - 2) = none ∧
      ¬ExponentFound nextPowerLib pointSpec .longDouble nextPower.bytes
        (resolve pointSpec 0 (-1)).2.1 := by
  have hsearch : searches nextPowerLib pointSpec .longDouble nextPower.bytes
      (resolve pointSpec 0 (-1)).2.1 = [('e', infText)] := by decide
  refine ⟨printsNarrowed_nextPower, hsearch, rfl, fun hfound => ?_⟩
  obtain ⟨i, hi⟩ := hfound ('e', infText) (hsearch ▸ List.mem_singleton_self _)
  exact absurd hi nofun

end ConstexprFmtStr
