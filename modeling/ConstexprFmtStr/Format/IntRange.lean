import Mathlib.Tactic
import ConstexprFmtStr.Format.OneSpec
import ConstexprFmtStr.Format.Integers

/-!
The `int` computations of `converter_single`.

* `SpecInfo.FitsInt`: the widths and precisions that a scanner finds are `int`s that are not
  negative, or the marks for dynamic ones and for none.
* `intComputations`: the exact values of what the code computes in `int`.
* `intsFit_iff`: they are `int`s, off the least width and off a sign before the greatest
  precision.
-/

namespace ConstexprFmtStr

open Slice Word Numeral

/-- The value is an `int`. -/
def IsInt (x : ℤ) : Prop := -2 ^ 31 ≤ x ∧ x ≤ intMax

/-! ### Scanned specifiers -/

/-- A width or a precision that is an `int`, and at least `least` if it is not dynamic. -/
def FitsFrom (least x : ℤ) : Prop := x = -2 ^ 31 ∨ least ≤ x ∧ x ≤ intMax

/-- What the scanners have found so far. -/
structure SpecFields.FitsInt (f : SpecFields) : Prop where
  width : FitsFrom 0 f.width
  prec : FitsFrom (-1) f.prec

lemma exists_of_bind_eq_ok {α β : Type} {x : Scan α} {f : α → Scan β} {b : β}
    (h : x >>= f = .ok b) : ∃ a, x = .ok a ∧ f a = .ok b := by
  cases x with
  | error e => exact absurd h nofun
  | ok a => exact ⟨a, rfl, h⟩

/-- Digits are only read into an `int`. -/
lemma readDigitsFrom_bounds {cs : List Char} {pos : ℕ} {v : ℤ} (hv : 0 ≤ v ∧ v ≤ intMax)
    {r : ℕ × ℤ} (h : readDigitsFrom cs pos v = .ok r) : 0 ≤ r.2 ∧ r.2 ≤ intMax := by
  induction cs generalizing pos v with
  | nil => exact absurd h nofun
  | cons c cs ih =>
      rw [readDigitsFrom] at h
      split_ifs at h with hdigit hover
      · have hc := toDigit_nonneg hdigit
        exact ih ⟨by omega, by omega⟩ h
      · obtain rfl := Except.ok.inj h
        exact hv

/-- A character that is not one of those between a '%' and its terminal. -/
lemma switchSpec_of_not_spec {fmt : List Char} {pos : ℕ} {f : SpecFields} {c : Char}
    (hc : charAt fmt pos = .ok c) (hspec : isSpecChar c = false) :
    switchSpec fmt pos f = if c ∈ switchTerminals then .ok (pos, { f with terminal := c }, true)
      else .error .formatSpecifierRequired := by
  simp only [isSpecChar, isFlag, isLength, Bool.or_eq_false_iff, beq_eq_false_iff_ne, ne_eq]
    at hspec
  obtain ⟨⟨⟨hflags, hlength⟩, h12⟩, h13⟩ := hspec
  obtain ⟨⟨⟨⟨⟨h1, h2⟩, h3⟩, h4⟩, h5⟩, hdigit⟩ := hflags
  obtain ⟨⟨⟨⟨⟨h6, h7⟩, h8⟩, h9⟩, h10⟩, h11⟩ := hlength
  rw [switchSpec, hc, Scan.ok_bind]
  simp only [h1, h2, h3, h4, h5, h6, h7, h8, h9, h10, h11, h12, h13, hdigit, if_false,
    Bool.false_eq_true]
  rfl

/-- **One character** of a specifier. -/
lemma switchSpec_fitsInt {fmt : List Char} {pos : ℕ} {f : SpecFields} (hf : f.FitsInt)
    {r : ℕ × SpecFields × Bool} (h : switchSpec fmt pos f = .ok r) : r.2.1.FitsInt := by
  have hread : ∀ {pos : ℕ} {r : ℕ × ℤ}, readDigits fmt pos 0 = .ok r → 0 ≤ r.2 ∧ r.2 ≤ intMax :=
    fun h => readDigitsFrom_bounds ⟨le_rfl, by decide⟩ h
  obtain ⟨c, hc, -⟩ := exists_of_bind_eq_ok h
  cases hspec : isSpecChar c with
  | false =>
      rw [switchSpec_of_not_spec hc hspec] at h
      split_ifs at h
      obtain rfl := Except.ok.inj h
      exact ⟨hf.width, hf.prec⟩
  | true =>
      rw [switchSpec, hc, Scan.ok_bind] at h
      induction c, hspec using specChar_cases with
      | alone c _ hmem =>
          fin_cases hmem <;> simp only [isDigit] at h
          all_goals
            obtain rfl := Except.ok.inj h
            first
              | exact ⟨hf.width, hf.prec⟩
              | exact ⟨.inl rfl, hf.prec⟩
              | (dsimp only; split_ifs <;> exact ⟨hf.width, hf.prec⟩)
      | point =>
          obtain ⟨next, -, h⟩ := exists_of_bind_eq_ok h
          by_cases hstar : next = '*'
          · rw [if_pos hstar] at h
            obtain rfl := Except.ok.inj h
            exact ⟨hf.width, .inl rfl⟩
          · rw [if_neg hstar] at h
            obtain ⟨r', hr', h⟩ := exists_of_bind_eq_ok h
            obtain rfl := Except.ok.inj h
            have hbounds := hread hr'
            exact ⟨hf.width, .inr ⟨by dsimp only; omega, hbounds.2⟩⟩
      | h =>
          obtain ⟨next, -, h⟩ := exists_of_bind_eq_ok h
          split_ifs at h
          all_goals
            obtain rfl := Except.ok.inj h
            exact ⟨hf.width, hf.prec⟩
      | l =>
          obtain ⟨next, -, h⟩ := exists_of_bind_eq_ok h
          split_ifs at h
          all_goals
            obtain rfl := Except.ok.inj h
            exact ⟨hf.width, hf.prec⟩
      | digit c _ hdigit hzero =>
          obtain ⟨-, h1, h2, h3, h4, h5, h6⟩ := digit_facts hdigit hzero
          simp only [h1, h2, h3, h4, h5, h6, hzero, hdigit, if_false, if_true] at h
          obtain ⟨r', hr', h⟩ := exists_of_bind_eq_ok h
          obtain rfl := Except.ok.inj h
          exact ⟨.inr (hread hr'), hf.prec⟩

/-- The loop over the characters. -/
lemma specLoop_fitsInt {fmt : List Char} {fuel pos : ℕ} {f f' : SpecFields} (hf : f.FitsInt)
    (h : specLoop fmt fuel pos f = .ok f') : f'.FitsInt := by
  induction fuel generalizing pos f with
  | zero => exact absurd h nofun
  | succ fuel ih =>
      rw [specLoop] at h
      obtain ⟨⟨pos', f1, exit⟩, hswitch, h⟩ := exists_of_bind_eq_ok h
      have hf1 := switchSpec_fitsInt hf hswitch
      cases exit with
      | true =>
          obtain rfl := Except.ok.inj h
          exact hf1
      | false => exact ih hf1 h

/-- The width and the precision of a specifier are `int`s, and not negative but for their marks. -/
structure SpecInfo.FitsInt (SI : SpecInfo) : Prop where
  width : FitsFrom 0 SI.width
  prec : FitsFrom (-1) SI.prec

/-- **Every specifier** of a format. -/
lemma getOneSpec_fitsInt {fmt : List Char} {num : ℕ} {SI : SpecInfo}
    (h : getOneSpec fmt num = .ok SI) : SI.FitsInt := by
  have hnone : ({} : SpecFields).FitsInt := ⟨.inr (by decide), .inr (by decide)⟩
  rw [getOneSpec] at h
  obtain ⟨⟨pos, inv, begin_⟩, -, h⟩ := exists_of_bind_eq_ok h
  obtain ⟨⟨specStartPos, end_, exit⟩, -, h⟩ := exists_of_bind_eq_ok h
  cases exit with
  | true =>
      obtain rfl := Except.ok.inj h
      exact ⟨hnone.width, hnone.prec⟩
  | false =>
      obtain ⟨f, hf, h⟩ := exists_of_bind_eq_ok h
      obtain rfl := Except.ok.inj h
      have hfits := specLoop_fitsInt hnone hf
      exact ⟨hfits.width, hfits.prec⟩

/-! ### The computations -/

/-- `realsz` without its sign, in exact arithmetic. -/
def fieldSize (SI : SpecInfo) (f : Field) : ℤ :=
  if isIntTerminal SI.terminal then max f.P f.size else f.size

/-- A sign is printed. -/
def PrintsSign (SI : SpecInfo) (f : Field) : Prop := isSignedTerminal SI.terminal ∧ f.sign ≠ nul

instance (SI : SpecInfo) (f : Field) : Decidable (PrintsSign SI f) :=
  inferInstanceAs (Decidable (_ ∧ _))

/-- What `converter_single` computes in `int` for a width argument `W`: `W` or `-W`, the size that
is cast, `realsz` before and after its increment, and the padding. -/
def intComputations (SI : SpecInfo) (W P : ℤ) (f : Field) : List ℤ :=
  let width := (resolve SI W P).1
  let realsz := if PrintsSign SI f then fieldSize SI f + 1 else fieldSize SI f
  [width, (f.size : ℤ), fieldSize SI f, realsz, width - realsz]

/-- The parameter of `writePaddings` for the zeros of the precision. -/
def zeroPadding (f : Field) : ℤ := wrapS 32 (u64Sub (wrapU 64 f.P) f.size)

/-- No computation leaves the range of `int`, and the zeros of a precision are as many as it
exceeds the size; where it does not, the difference may wrap, but not to a positive padding. -/
structure IntsFit (SI : SpecInfo) (W P : ℤ) (f : Field) : Prop where
  isInt : ∀ x ∈ intComputations SI W P f, IsInt x
  padding_nonpos : isIntTerminal SI.terminal → (zeroPadding f ≤ 0 ↔ f.P ≤ f.size)
  padding_eq : isIntTerminal SI.terminal → f.size < f.P → zeroPadding f = f.P - f.size

/-- The argument is printed with a sign. -/
def SignGiven (SI : SpecInfo) (arg : Arg) : Prop :=
  (SI.terminal = 'i' ∨ SI.terminal = 'd') ∧
    (SI.sign ≠ nul ∨ ∃ t, arg.type = .int t ∧
      wrapS 64 (SARG SI.flags (Arg.intValue t arg.bytes)) < 0)

/-! ### Fields -/

section

variable {lib : CLib} {SI : SpecInfo} {arg : Arg} {P : ℤ} {flags : Flags} {mem : Mem} {f : Field}

/-- Digits of some base. -/
lemma length_formats_le {T : Char} {d : ℕ} (hd : d < 2 ^ 64) :
    (formatDec d).length ≤ 64 ∧ (formatOct d).length ≤ 64 ∧ (formatHex T d).length ≤ 64 := by
  have hshown (digit : ℕ → Char) (r : ℕ) (hr : 1 < r) : (shown digit r d).length ≤ 64 :=
    length_shown_le digit hr (by norm_num) (hd.trans_le (Nat.pow_le_pow_left hr 64))
  rw [formatDec_eq hd, formatOct_eq hd, formatHex_eq hd]
  exact ⟨hshown _ 10 (by norm_num), hshown _ 8 (by norm_num), hshown _ 16 (by norm_num)⟩

/-- The digits and a prefix of two characters. -/
lemma length_integerText_le {v : ℤ} {sign sign' : Char} {cp : List Char}
    (h : integerText SI v sign = some (cp, sign')) : cp.length ≤ 66 := by
  have hneg := length_formats_le (T := 'x') (wrapU_lt 64 ((0 : ℕ) - (SARG SI.flags v : ℤ)))
  have hsigned := length_formats_le (T := 'x') (SARG_lt SI.flags v)
  have hunsigned := length_formats_le (T := SI.terminal) (UARG_lt SI.flags v)
  rw [← u64Sub] at hneg
  simp only [integerText] at h
  split_ifs at h
  all_goals
    obtain ⟨rfl, -⟩ := Prod.mk.inj (Option.some.inj h)
    try simp only [List.length_cons]
    omega

/-- The sign of a signed conversion. -/
lemma sign_integerText {v : ℤ} {sign sign' : Char} {cp : List Char}
    (hterminal : SI.terminal = 'i' ∨ SI.terminal = 'd')
    (h : integerText SI v sign = some (cp, sign')) :
    sign' ≠ nul ↔ sign ≠ nul ∨ wrapS 64 (SARG SI.flags v) < 0 := by
  simp only [integerText, if_pos hterminal] at h
  split_ifs at h with hneg
  · obtain ⟨-, rfl⟩ := Prod.mk.inj (Option.some.inj h)
    simp [hneg, nul]
  · obtain ⟨-, rfl⟩ := Prod.mk.inj (Option.some.inj h)
    simp [hneg]

lemma ne_of_isIntTerminal {t c : Char} (ht : isIntTerminal t = true)
    (hc : isIntTerminal c = false) : t ≠ c := by
  rintro rfl
  rw [ht] at hc
  exact absurd hc nofun

/-- The field of an integer conversion. -/
lemma convert_int (ht : isIntTerminal SI.terminal = true)
    (h : convert lib SI arg P flags mem = some f) :
    ∃ t cp, arg.type = .int t ∧
      integerText SI (Arg.intValue t arg.bytes) SI.sign = some (cp, f.sign) ∧
      f.size = cp.length ∧ f.P = P := by
  have hc := ne_of_isIntTerminal ht (c := 'c') (by decide)
  have hs := ne_of_isIntTerminal ht (c := 's') (by decide)
  have hp := ne_of_isIntTerminal ht (c := 'p') (by decide)
  rw [convert, if_neg hc, if_neg hs, if_pos (.inl ht), convertInteger,
    if_neg fun hp' => hp hp'.1] at h
  cases htype : arg.type with
  | int t =>
      rw [htype] at h
      obtain ⟨⟨cp, sign⟩, htext, hf⟩ := Option.bind_eq_some_iff.mp h
      obtain rfl := Option.some.inj hf
      exact ⟨t, cp, rfl, htext, rfl, rfl⟩
  | _ => simp [htype] at h

/-- A sign is printed exactly if it is given by a flag or by the argument. -/
lemma printsSign_iff (hfloat : isFloatTerminal SI.terminal = false)
    (h : convert lib SI arg P flags mem = some f) : PrintsSign SI f ↔ SignGiven SI arg := by
  by_cases hterminal : SI.terminal = 'i' ∨ SI.terminal = 'd'
  · have ht : isIntTerminal SI.terminal = true := by
      rcases hterminal with heq | heq <;> rw [heq] <;> rfl
    have hsigned : isSignedTerminal SI.terminal = true := by
      rcases hterminal with heq | heq <;> rw [heq] <;> rfl
    obtain ⟨t, cp, htype, htext, -⟩ := convert_int ht h
    rw [PrintsSign, SignGiven, sign_integerText hterminal htext, htype]
    simp only [hsigned, hterminal, true_and, CType.int.injEq, exists_eq_left']
  · have hsigned : ¬isSignedTerminal SI.terminal = true := by
      rw [isSignedTerminal, hfloat]
      simpa [or_comm] using hterminal
    rw [PrintsSign, SignGiven]
    exact iff_of_false (fun h' => hsigned h'.1) fun h' => hterminal h'.1

/-- The size of a field is an `int`, if that of a character or a string is. -/
lemma size_lt (hfloat : isFloatTerminal SI.terminal = false)
    (hsize : SI.terminal = 'c' ∨ SI.terminal = 's' → f.size < 2 ^ 31)
    (h : convert lib SI arg P flags mem = some f) : f.size < 2 ^ 31 := by
  by_cases hc : SI.terminal = 'c'
  · exact hsize (.inl hc)
  by_cases hs : SI.terminal = 's'
  · exact hsize (.inr hs)
  rw [convert, if_neg hc, if_neg hs] at h
  by_cases hi : isIntTerminal SI.terminal = true ∨ SI.terminal = 'p'
  · rw [if_pos hi, convertInteger] at h
    by_cases hp : SI.terminal = 'p' ∧ arg.type.toVoidPtr = true
    · rw [if_pos hp] at h
      obtain rfl := Option.some.inj h
      norm_num
    · rw [if_neg hp] at h
      cases htype : arg.type with
      | int t =>
          rw [htype] at h
          obtain ⟨⟨cp, sign⟩, htext, hf⟩ := Option.bind_eq_some_iff.mp h
          obtain rfl := Option.some.inj hf
          have hle := length_integerText_le htext
          dsimp only
          omega
      | _ => simp [htype] at h
  · rw [if_neg hi, if_neg (by rw [hfloat]; exact Bool.false_ne_true)] at h
    obtain rfl := Option.some.inj h
    norm_num

end

/-! ### Ranges -/

/-- The width is an `int` exactly if it is not the least one, negated. -/
lemma resolve_width_bounds {SI : SpecInfo} (hSI : SI.FitsInt) {W : ℤ} (hW : IsInt W) (P : ℤ) :
    0 ≤ (resolve SI W P).1 ∧
      ((resolve SI W P).1 ≤ intMax ↔ (SI.width = dynamicWidth → W ≠ -2 ^ 31)) := by
  have hnonneg : SI.width = dynamicWidth ∨ 0 ≤ SI.width := hSI.width.imp id And.left
  obtain ⟨hlow, hhigh⟩ := hW
  rw [(resolve_width hnonneg W P).1, givenWidth]
  refine ⟨abs_nonneg _, ?_⟩
  by_cases hdynamic : SI.width = dynamicWidth
  · simp only [hdynamic, if_true, forall_const, abs_le]
    rw [intMax] at hhigh ⊢
    omega
  · obtain ⟨hlow', hhigh'⟩ := hSI.width.resolve_left hdynamic
    rw [if_neg hdynamic, abs_of_nonneg hlow']
    exact iff_of_true hhigh' fun heq => absurd heq hdynamic

lemma resolve_prec_bounds {SI : SpecInfo} (hSI : SI.FitsInt) (W : ℤ) {P : ℤ} (hP : IsInt P) :
    -1 ≤ (resolve SI W P).2.1 ∧ (resolve SI W P).2.1 ≤ intMax := by
  obtain ⟨-, hhigh⟩ := hP
  rw [resolve_prec]
  by_cases hdynamic : SI.prec = dynamicPrecision
  · rw [if_pos hdynamic]
    split_ifs with hneg
    · decide
    · exact ⟨by omega, hhigh⟩
  · rw [if_neg hdynamic]
    exact hSI.prec.resolve_left hdynamic

/-- **The zeros of a precision**: the difference does not leave `int`, so it is exact. -/
lemma zeroPadding_eq {f : Field} (hlow : -1 ≤ f.P) (hhigh : f.P ≤ intMax)
    (hsize : f.size < 2 ^ 31) : zeroPadding f = f.P - f.size := by
  rw [intMax] at hhigh
  have hwrap : wrapS 32 (u64Sub (wrapU 64 f.P) f.size) = wrapS 32 (f.P - f.size) := by
    rw [u64Sub, wrapS_wrapU (by norm_num), natCast_wrapU]
    refine wrapS_congr ?_
    omega
  rw [zeroPadding, hwrap]
  exact wrapS_of_bounds (by omega) (by omega)

/-- **The `int` arithmetic** of every specifier without a floating point argument stays in range,
off the least width and off a sign before the greatest precision. -/
theorem intsFit_iff (lib : CLib) {fmt : List Char} {num : ℕ} {SI : SpecInfo}
    (hSI : getOneSpec fmt num = .ok SI) (hfloat : isFloatTerminal SI.terminal = false) {W P : ℤ}
    (hW : IsInt W) (hP : IsInt P) {arg : Arg} {mem : Mem} {f : Field}
    (hf : convert lib SI arg (resolve SI W P).2.1 (resolve SI W P).2.2 mem = some f)
    (hsize : SI.terminal = 'c' ∨ SI.terminal = 's' → f.size < 2 ^ 31) :
    IntsFit SI W P f ↔ (SI.width = dynamicWidth → W ≠ -2 ^ 31) ∧
      ¬(SignGiven SI arg ∧ (resolve SI W P).2.1 = intMax) := by
  have hfits := getOneSpec_fitsInt hSI
  obtain ⟨hwidth, hwidthIff⟩ := resolve_width_bounds hfits hW P
  obtain ⟨hprecLow, hprecHigh⟩ := resolve_prec_bounds hfits W hP
  have hlt := size_lt hfloat hsize hf
  have hsign := printsSign_iff hfloat hf
  have hint : isIntTerminal SI.terminal = true → f.P = (resolve SI W P).2.1 ∧ f.size ≤ 66 := by
    intro ht
    obtain ⟨t, cp, -, htext, hcp, hfP⟩ := convert_int ht hf
    exact ⟨hfP, hcp ▸ length_integerText_le htext⟩
  have hfield : 0 ≤ fieldSize SI f ∧ fieldSize SI f ≤ intMax := by
    rw [fieldSize, intMax] at *
    split_ifs with ht
    · have hfP := (hint ht).1
      omega
    · omega
  have hsigned : SignGiven SI arg → isIntTerminal SI.terminal = true := by
    rintro ⟨hterminal | hterminal, -⟩ <;> rw [hterminal] <;> rfl
  constructor
  · rintro ⟨hints, -, -⟩
    refine ⟨hwidthIff.mp (hints _ (by simp [intComputations])).2, ?_⟩
    rintro ⟨hgiven, hmax⟩
    -- the sign does not fit
    have hrealsz := (hints _ (by simp [intComputations] :
      (if PrintsSign SI f then fieldSize SI f + 1 else fieldSize SI f) ∈
        intComputations SI W P f)).2
    rw [if_pos (hsign.mpr hgiven), fieldSize, if_pos (hsigned hgiven), (hint (hsigned hgiven)).1,
      hmax] at hrealsz
    omega
  · rintro ⟨hW', hP'⟩
    have hwidthHigh := hwidthIff.mpr hW'
    have hrealsz : 0 ≤ (if PrintsSign SI f then fieldSize SI f + 1 else fieldSize SI f) ∧
        (if PrintsSign SI f then fieldSize SI f + 1 else fieldSize SI f) ≤ intMax := by
      split_ifs with hprints
      · have hgiven := hsign.mp hprints
        obtain ⟨hfP, hle⟩ := hint (hsigned hgiven)
        have hne : (resolve SI W P).2.1 ≠ intMax := fun hmax => hP' ⟨hgiven, hmax⟩
        rw [fieldSize, if_pos (hsigned hgiven), intMax] at *
        omega
      · exact hfield
    refine ⟨?_, fun ht => ?_, fun ht _ => ?_⟩
    · intro x hx
      rw [intMax] at *
      simp only [intComputations, List.mem_cons, List.not_mem_nil, or_false] at hx
      rw [IsInt, intMax]
      rcases hx with rfl | rfl | rfl | rfl | rfl <;> omega
    · rw [zeroPadding_eq ((hint ht).1 ▸ hprecLow) ((hint ht).1 ▸ hprecHigh) hlt]
      omega
    · exact zeroPadding_eq ((hint ht).1 ▸ hprecLow) ((hint ht).1 ▸ hprecHigh) hlt

/-- `CFMT_STR(r, b, n, "%*.*d", -5, 3, 7)` -/
theorem intsFit_negativeWidth : ∃ SI f, getOneSpec ("%*.*d".toList ++ [nul]) 0 = .ok SI ∧
    convert CLib.ascii SI (IntSpec.intArg 7) (resolve SI (-5) 3).2.1 (resolve SI (-5) 3).2.2
      (fun _ => 0) = some f ∧
    IntsFit SI (-5) 3 f := by
  obtain ⟨SI, hSI, hterminal, hprec⟩ : ∃ SI, getOneSpec ("%*.*d".toList ++ [nul]) 0 = .ok SI ∧
      SI.terminal = 'd' ∧ (resolve SI (-5) 3).2.1 = 3 := ⟨_, rfl, rfl, rfl⟩
  obtain ⟨f, hf⟩ : ∃ f, convert CLib.ascii SI (IntSpec.intArg 7) (resolve SI (-5) 3).2.1
      (resolve SI (-5) 3).2.2 (fun _ => 0) = some f := by
    obtain rfl := Except.ok.inj hSI
    exact ⟨_, rfl⟩
  refine ⟨SI, f, hSI, hf, (intsFit_iff CLib.ascii hSI (by rw [hterminal]; rfl)
    ⟨by norm_num, by decide⟩ ⟨by norm_num, by decide⟩ hf ?_).mpr ⟨fun _ => by norm_num, ?_⟩⟩
  · rw [hterminal]
    exact fun h => absurd h (by decide)
  · rintro ⟨-, hmax⟩
    rw [hprec] at hmax
    exact absurd hmax (by decide)

/-- `CFMT_STR(r, b, n, "%*d", INT_MIN, 7)` negates the least `int`, and
`CFMT_STR(r, b, n, "%+.*d", INT_MAX, 7)` counts a sign before the greatest precision. -/
theorem intsFit_extremes :
    (∃ SI f, getOneSpec ("%*d".toList ++ [nul]) 0 = .ok SI ∧
      convert CLib.ascii SI (IntSpec.intArg 7) (resolve SI (-2 ^ 31) (-1)).2.1
        (resolve SI (-2 ^ 31) (-1)).2.2 (fun _ => 0) = some f ∧
      ¬IntsFit SI (-2 ^ 31) (-1) f) ∧
    ∃ SI f, getOneSpec ("%+.*d".toList ++ [nul]) 0 = .ok SI ∧
      convert CLib.ascii SI (IntSpec.intArg 7) (resolve SI 0 intMax).2.1
        (resolve SI 0 intMax).2.2 (fun _ => 0) = some f ∧
      ¬IntsFit SI 0 intMax f := by
  refine ⟨⟨_, _, rfl, rfl, fun h => ?_⟩, ⟨_, _, rfl, rfl, fun h => ?_⟩⟩
  · exact absurd (h.isInt (2 ^ 31) (by decide)).2 (by decide)
  · exact absurd (h.isInt (2 ^ 31) (by decide)).2 (by decide)

end ConstexprFmtStr
