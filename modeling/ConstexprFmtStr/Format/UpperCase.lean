import Mathlib.Tactic
import ConstexprFmtStr.Format.Exponent

/-!
Terminals in upper case.

* `fieldText`: what `converter_single` prints after the literal text.
* `Field.upper`: a field in upper case; `convertInteger_toUpper`, `convertFloat_toUpper` say which
  fields of an upper-case terminal are those of the other one, and which are them in upper case.
* `PrintsNotation`: the notation in which the library prints a finite number.
* `upperCased_iff`: what is printed is in upper case, but for the letters of a finite number.
-/

namespace ConstexprFmtStr

open Slice Word Numeral

/-! ### Upper case -/

/-- An ASCII letter in upper case. -/
def upperByte (b : UInt8) : UInt8 := if 97 ≤ b ∧ b ≤ 122 then b - 32 else b

/-- The specifier with its terminal in upper case. -/
def SpecInfo.toUpper (SI : SpecInfo) : SpecInfo := { SI with terminal := SI.terminal.toUpper }

/-- What `converter_single` prints after the literal text. -/
def fieldText (lib : CLib) (SI : SpecInfo) (arg : Arg) (W P : ℤ) (mem : Mem) : List UInt8 :=
  let (W, P, flags) := resolve SI W P
  (convert lib SI arg P flags mem).elim errorText fun f => fieldBytes SI W f (f.texts SI mem)

lemma emitted_eq_fieldText (lib : CLib) (fmt : List Char) (SI : SpecInfo) (arg : Arg) (W P : ℤ)
    (mem : Mem) :
    emitted lib fmt SI arg W P mem = literalText fmt SI ++ fieldText lib SI arg W P mem := by
  simp only [emitted, fieldText]
  cases convert lib SI arg (resolve SI W P).2.1 (resolve SI W P).2.2 mem <;> rfl

/-- A field is printed after the literal text, whatever the buffer. -/
lemma converterSingle_fieldText (lib : CLib) (fmt : List Char) {SI : SpecInfo}
    (hs : SI.terminal ≠ 's') (hn : SI.terminal ≠ 'n') (arg : Arg) (W P : ℤ) (out : OutbufArg) :
    converterSingle lib fmt SI arg W P out =
      out.write (literalText fmt SI ++ fieldText lib SI arg W P out.mem) := by
  rw [← emitted_eq_fieldText]
  refine converterSingle_eq lib fmt hn arg W P fun i hi hi' => ?_
  rw [stringLength, if_pos (.inl hs)] at hi'
  omega

/-- The terminals that have one in upper case. -/
def IsLowerTerminal (t : Char) : Prop := t = 'x' ∨ t = 'e' ∨ t = 'f' ∨ t = 'g' ∨ t = 'a'

lemma upperByte_eq_self {c : Char} (hc : c.toNat < 128) :
    upperByte c.toUInt8 = c.toUInt8 ↔ c.isLower = false := by
  have hall : ∀ n < 128, upperByte (Char.ofNat n).toUInt8 = (Char.ofNat n).toUInt8 ↔
      (Char.ofNat n).isLower = false := by decide +kernel
  have h := hall c.toNat hc
  rwa [Char.ofNat_toNat] at h

/-- The signs are no letters. -/
lemma upperByte_sign {c : Char} (hc : c = nul ∨ c = '+' ∨ c = ' ' ∨ c = '-') :
    upperByte c.toUInt8 = c.toUInt8 := by
  rcases hc with rfl | rfl | rfl | rfl <;> decide

/-! ### Fields -/

section

variable {SI : SpecInfo} {f : Field} {mem : Mem}

lemma splitsExp_toUpper (ht : IsLowerTerminal SI.terminal) (f : Field) :
    f.splitsExp SI.toUpper = f.splitsExp SI := by
  rcases ht with h | h | h | h | h <;> simp [Field.splitsExp, SpecInfo.toUpper, h]

lemma texts_toUpper (ht : IsLowerTerminal SI.terminal) (f : Field) (mem : Mem) :
    f.texts SI.toUpper mem = f.texts SI mem := by
  have hexp : expChar SI.toUpper.terminal = expChar SI.terminal := by
    rcases ht with h | h | h | h | h <;> rw [SpecInfo.toUpper, h] <;> rfl
  rw [Field.texts, Field.texts, splitsExp_toUpper ht, hexp]

/-- Both terminals lay a field out in the same way. -/
lemma fieldBytes_toUpper (ht : IsLowerTerminal SI.terminal) (W : ℤ) (f : Field)
    (texts : List UInt8 × List UInt8) :
    fieldBytes SI.toUpper W f texts = fieldBytes SI W f texts := by
  have hint : isIntTerminal SI.toUpper.terminal = isIntTerminal SI.terminal := by
    rcases ht with h | h | h | h | h <;> rw [SpecInfo.toUpper, h] <;> rfl
  have hfloat : isFloatTerminal SI.toUpper.terminal = isFloatTerminal SI.terminal := by
    rcases ht with h | h | h | h | h <;> rw [SpecInfo.toUpper, h] <;> rfl
  have hsigned : isSignedTerminal SI.toUpper.terminal = isSignedTerminal SI.terminal := by
    rcases ht with h | h | h | h | h <;> rw [SpecInfo.toUpper, h] <;> rfl
  simp only [fieldBytes, Field.realsz, hint, hfloat, hsigned, splitsExp_toUpper ht]

/-- The padding and the sign are the same in upper case. -/
lemma map_fieldBytes (hsign : upperByte f.sign.toUInt8 = f.sign.toUInt8) (W : ℤ)
    (texts : List UInt8 × List UInt8) :
    (fieldBytes SI W f texts).map upperByte =
      fieldBytes SI W f (texts.1.map upperByte, texts.2.map upperByte) := by
  have hif : ∀ (c : Prop) [Decidable c] (bs : List UInt8),
      (if c then bs else []).map upperByte = if c then bs.map upperByte else [] := by
    intro c _ bs
    split_ifs <;> rfl
  have hblank : upperByte ' '.toUInt8 = ' '.toUInt8 := by decide
  have hzero : upperByte '0'.toUInt8 = '0'.toUInt8 := by decide
  simp only [fieldBytes, List.map_append, hif, List.map_replicate, List.map_singleton, hsign,
    hblank, hzero]

/-- A text behind the same padding. -/
lemma fieldBytes_inj {W : ℤ} {texts texts' : List UInt8 × List UInt8}
    (h1 : texts.1.length = texts'.1.length) :
    fieldBytes SI W f texts = fieldBytes SI W f texts' ↔
      texts.1 = texts'.1 ∧ (f.splitsExp SI = true → texts.2 = texts'.2) := by
  simp only [fieldBytes, List.append_assoc, List.append_right_inj]
  constructor
  · intro h
    obtain ⟨hfirst, hrest⟩ := List.append_inj h h1
    refine ⟨hfirst, fun hsplit => ?_⟩
    rw [if_pos hsplit, if_pos hsplit] at hrest
    exact List.append_cancel_right (List.append_cancel_left hrest)
  · rintro ⟨hfirst, hrest⟩
    rw [hfirst]
    cases hsplit : f.splitsExp SI with
    | false => rfl
    | true => rw [hrest hsplit]

/-- The characters of a field, whether they are split or not. -/
lemma texts_append (SI : SpecInfo) (f : Field) (mem : Mem) :
    (f.texts SI mem).1 ++ (f.texts SI mem).2 = f.src.read mem f.size := by
  rw [Field.texts]
  split_ifs
  · exact List.take_append_drop _ _
  · exact List.append_nil _

/-- A field is its own upper case exactly if its characters are. -/
lemma fieldBytes_eq_map_iff (hsign : upperByte f.sign.toUInt8 = f.sign.toUInt8) (W : ℤ)
    (mem : Mem) :
    fieldBytes SI W f (f.texts SI mem) = (fieldBytes SI W f (f.texts SI mem)).map upperByte ↔
      f.src.read mem f.size = (f.src.read mem f.size).map upperByte := by
  rw [map_fieldBytes hsign, fieldBytes_inj (List.length_map upperByte).symm,
    ← texts_append SI f mem, List.map_append]
  constructor
  · rintro ⟨hfirst, hrest⟩
    dsimp only at hfirst hrest
    cases hsplit : f.splitsExp SI with
    | false =>
        have hnil : (f.texts SI mem).2 = [] := by
          rw [Field.texts, hsplit]
          rfl
        rw [← hfirst, hnil]
        rfl
    | true => rw [← hfirst, ← hrest hsplit]
  · intro h
    obtain ⟨hfirst, hrest⟩ := List.append_inj h (List.length_map upperByte).symm
    exact ⟨hfirst, fun _ => hrest⟩

/-- The field with its characters in upper case. -/
def Field.upper (mem : Mem) (f : Field) : Field :=
  { f with src := .buf ((f.src.read mem f.size).map upperByte) }

lemma length_read_le (src : CharSrc) (mem : Mem) (n : ℕ) : (src.read mem n).length ≤ n := by
  cases src with
  | buf bs => exact List.length_take_le n bs
  | ptr a => exact (length_slice mem a n).le

/-- It is printed in upper case, if no exponent is split off. -/
lemma fieldBytes_upper (hsign : upperByte f.sign.toUInt8 = f.sign.toUInt8)
    (hsplit : f.fpprec = 0) (W : ℤ) (mem : Mem) :
    fieldBytes SI W (f.upper mem) ((f.upper mem).texts SI mem) =
      (fieldBytes SI W f (f.texts SI mem)).map upperByte := by
  have hf : f.splitsExp SI = false := by
    simp [Field.splitsExp, hsplit]
  have htexts : (f.upper mem).texts SI mem =
      ((f.texts SI mem).1.map upperByte, (f.texts SI mem).2.map upperByte) := by
    have hread : (f.upper mem).src.read mem f.size = (f.src.read mem f.size).map upperByte := by
      refine List.take_of_length_le ?_
      rw [List.length_map]
      exact length_read_le f.src mem f.size
    have hupper : (f.upper mem).splitsExp SI = false := hf
    simp only [Field.texts, hf, hupper, Bool.false_eq_true, if_false]
    exact congrArg (·, []) hread
  rw [htexts, map_fieldBytes hsign]
  rfl

/-! ### Integers -/

/-- The two tables of `formatHex`. -/
lemma map_formatHex {d : ℕ} (hd : d < 2 ^ 64) :
    (charBytes (formatHex 'x' d)).map upperByte = charBytes (formatHex 'X' d) := by
  have hdigit : ∀ i < 16,
      upperByte (digitChar false i).toUInt8 = (digitChar true i).toUInt8 := by decide
  have hlower : formatHex 'x' d = shown (digitChar false) 16 d := formatHex_eq hd
  have hupper : formatHex 'X' d = shown (digitChar true) 16 d := formatHex_eq hd
  rw [hlower, hupper, charBytes, charBytes, List.map_map]
  calc (shown (digitChar false) 16 d).map (upperByte ∘ Char.toUInt8)
      = shown (fun i => (digitChar true i).toUInt8) 16 d :=
        map_shown (f := upperByte ∘ Char.toUInt8) (by norm_num) hdigit d
    _ = (shown (digitChar true) 16 d).map Char.toUInt8 :=
        (map_shown (by norm_num) (fun _ _ => rfl) d).symm

/-- Only zero starts with a zero. -/
lemma head?_formatHex (T : Char) {d : ℕ} (hd : d < 2 ^ 64) :
    (formatHex T d).head? = some '0' ↔ d = 0 := by
  have hzero : ∀ upper, ∀ i < 16, digitChar upper i = '0' ↔ i = 0 := by decide
  rw [formatHex_eq hd]
  constructor
  · intro hhead
    by_contra hne
    obtain ⟨i, hpos, hi, h⟩ := head?_shown (digitChar (T == 'X')) (by norm_num : 1 < 16) hne
    rw [h] at hhead
    have := (hzero _ i hi).mp (Option.some.inj hhead)
    omega
  · rintro rfl
    exact congrArg some ((hzero _ 0 (by norm_num)).mpr rfl)

lemma toUpper_terminal_x (ht : SI.terminal = 'x') : SI.toUpper.terminal = 'X' := by
  rw [SpecInfo.toUpper, ht]
  rfl

/-- The text of `x` and that of `X`, with the prefix of '#'. -/
lemma integerText_toUpper (ht : SI.terminal = 'x') (v : ℤ) (sign : Char) :
    ∃ cp cp', integerText SI v sign = some (cp, sign) ∧
      integerText SI.toUpper v sign = some (cp', sign) ∧
      charBytes cp' = (charBytes cp).map upperByte := by
  have hlt := UARG_lt SI.flags v
  have hupper := toUpper_terminal_x ht
  have hflags : SI.toUpper.flags = SI.flags := rfl
  simp only [integerText, ht, hupper, hflags, ne_eq, head?_formatHex _ hlt]
  refine ⟨_, _, rfl, rfl, ?_⟩
  have hfront : ∀ cs : List Char, (charBytes ('0' :: 'x' :: cs)).map upperByte =
      charBytes ['0', 'X'] ++ (charBytes cs).map upperByte := by
    intro cs
    rfl
  split_ifs
  · rw [hfront, map_formatHex hlt]
    rfl
  · rw [map_formatHex hlt]

/-- `x` and `X`. -/
lemma convertInteger_toUpper (ht : SI.terminal = 'x') (arg : Arg) (P : ℤ) (flags : Flags)
    (sign : Char) (mem : Mem) :
    convertInteger SI.toUpper arg P flags sign =
      (convertInteger SI arg P flags sign).map (Field.upper mem) := by
  have hlower : ¬(SI.terminal = 'p' ∧ arg.type.toVoidPtr = true) := by
    rw [ht]
    exact fun h => absurd h.1 (by decide)
  have hupper : ¬(SI.toUpper.terminal = 'p' ∧ arg.type.toVoidPtr = true) := by
    rw [toUpper_terminal_x ht]
    exact fun h => absurd h.1 (by decide)
  rw [convertInteger, convertInteger, if_neg hlower, if_neg hupper]
  cases harg : arg.type with
  | int t =>
      obtain ⟨cp, cp', hcp, hcp', hmap⟩ := integerText_toUpper ht (Arg.intValue t arg.bytes) sign
      have hlen := congrArg List.length hmap
      rw [List.length_map, length_charBytes, length_charBytes] at hlen
      simp only [hcp, hcp', hmap, hlen, Option.bind_eq_bind, Option.bind_some, Option.pure_def,
        Option.map_some, Field.upper, CharSrc.read]
      rw [List.take_of_length_le (length_charBytes cp).le]
  | _ => rfl

/-! ### Floating point -/

/-- The floating point terminals in lower case. -/
def IsLowerFloat (t : Char) : Prop := t = 'e' ∨ t = 'f' ∨ t = 'g' ∨ t = 'a'

lemma IsLowerFloat.not_g {t : Char} (ht : IsLowerFloat t) (hg : t ≠ 'g') :
    ¬(t = 'g' ∨ t = 'G') := by
  rcases ht with rfl | rfl | rfl | rfl
  · decide
  · decide
  · exact absurd rfl hg
  · decide

/-- The texts for infinity and for no number. -/
lemma convertFloat_toUpper (lib : CLib) (ht : IsLowerFloat SI.terminal) {arg : Arg}
    (hclass : ∀ k, arg.type = .flt k → ¬(lib.fpclassify k arg.bytes).IsFinite) (P : ℤ)
    (flags : Flags) (sign : Char) (mem : Mem) :
    convertFloat lib SI.toUpper arg P flags sign =
      (convertFloat lib SI arg P flags sign).map (Field.upper mem) := by
  have hlower : ¬(SI.terminal = 'E' ∨ SI.terminal = 'G' ∨ SI.terminal = 'F' ∨
      SI.terminal = 'A') := by
    rcases ht with h | h | h | h <;> rw [h] <;> decide
  have hupper : SI.toUpper.terminal = 'E' ∨ SI.toUpper.terminal = 'G' ∨
      SI.toUpper.terminal = 'F' ∨ SI.toUpper.terminal = 'A' := by
    rcases ht with h | h | h | h <;> simp [SpecInfo.toUpper, h]
  cases harg : arg.type with
  | flt k =>
      have hnot := hclass k harg
      simp only [convertFloat, harg, if_neg hlower, if_pos hupper]
      cases hc : lib.fpclassify k arg.bytes with
      | infinite => rfl
      | nan => rfl
      | other => rfl
      | zero => exact absurd (.inl hc) hnot
      | subnormal => exact absurd (.inr (.inl hc)) hnot
      | normal => exact absurd (.inr (.inr hc)) hnot
  | _ => simp [convertFloat, harg]

/-- `formatDuble` does not look at the case. -/
lemma formatDuble_toUpper {TM : Char} (hTM : IsLowerFloat TM) (lib : CLib) (flags : Flags)
    (size : ℕ) (k : FloatKind) (value : List UInt8) (prec : ℤ) :
    formatDuble lib TM.toUpper flags size k value prec =
      formatDuble lib TM flags size k value prec := by
  rcases hTM with rfl | rfl | rfl | rfl <;> rfl

lemma floatCall_toUpper (ht : IsLowerFloat SI.terminal) (X P : ℤ) :
    IsLowerFloat (floatCall SI X P).TM ∧
      floatCall SI.toUpper X P =
        { floatCall SI X P with TM := (floatCall SI X P).TM.toUpper } := by
  by_cases hg : SI.terminal = 'g'
  · have hupper : SI.toUpper.terminal = 'G' := by
      rw [SpecInfo.toUpper, hg]
      rfl
    have hflags : SI.toUpper.flags = SI.flags := rfl
    have hF : 'F' = Char.toUpper 'f' := rfl
    have hE : 'E' = Char.toUpper 'e' := rfl
    cases halt : SI.flags.alt with
    | false =>
        rw [floatCall_general (.inl hg) halt, floatCall_general (.inr hupper) halt]
        exact ⟨ht, rfl⟩
    | true =>
        by_cases hstyle : X < generalPrec P ∧ -4 ≤ X
        · rw [floatCall_fixed (.inl hg) halt hstyle, floatCall_fixed (.inr hupper) halt hstyle,
            if_pos hg, if_neg (by rw [hupper]; decide), hflags, hF]
          exact ⟨.inr (.inl rfl), rfl⟩
        · rw [floatCall_gtoe (.inl hg) halt hstyle, floatCall_gtoe (.inr hupper) halt hstyle,
            if_pos hg, if_neg (by rw [hupper]; decide), hflags, hE]
          exact ⟨.inl rfl, rfl⟩
  · have hlower := ht.not_g hg
    have hupper : ¬(SI.toUpper.terminal = 'g' ∨ SI.toUpper.terminal = 'G') := by
      rcases ht with h | h | h | h
      · simp [SpecInfo.toUpper, h]
      · simp [SpecInfo.toUpper, h]
      · exact absurd h hg
      · simp [SpecInfo.toUpper, h]
    have hmax : maxFractSize SI.toUpper.flags SI.toUpper.terminal =
        maxFractSize SI.flags SI.terminal := by
      rcases ht with h | h | h | h <;> simp [SpecInfo.toUpper, h, maxFractSize]
    rw [floatCall_of_not_g hlower, floatCall_of_not_g hupper, hmax]
    exact ⟨ht, rfl⟩

/-- **Finite numbers** are printed in the same way for both terminals. -/
lemma convertFloat_toUpper_finite {lib : CLib} (ht : IsLowerFloat SI.terminal) {arg : Arg}
    {k : FloatKind} (harg : arg.type = .flt k)
    (hfinite : (lib.fpclassify k arg.bytes).IsFinite) (P : ℤ) (flags : Flags) (sign : Char) :
    convertFloat lib SI.toUpper arg P flags sign = convertFloat lib SI arg P flags sign := by
  obtain ⟨hTM, hcall⟩ := floatCall_toUpper ht (decimalExponent lib k arg.bytes) P
  have hsize : fitBufferSize SI.toUpper.flags SI.toUpper.terminal =
      fitBufferSize SI.flags SI.terminal := by
    rcases ht with h | h | h | h <;> simp [SpecInfo.toUpper, h, fitBufferSize]
  have htext : callText lib SI.toUpper k arg.bytes P = callText lib SI k arg.bytes P := by
    rw [callText, callText, hcall, hsize]
    exact formatDuble_toUpper hTM lib _ _ k _ _
  rw [convertFloat_finite harg hfinite, convertFloat_finite harg hfinite, htext, hcall]

/-! ### Letters -/

/-- How many digits `std::to_chars` prints in the general format. -/
def significantDigits (prec : ℤ) : ℤ := if prec < 0 then 6 else max 1 prec

/-- A finite number with its letters: the exponent, which the general format shows if the decimal
exponent `X` of the number, rounded to so many digits, is out of their range. -/
structure PrintsNotation (lib : CLib) (SI : SpecInfo) (k : FloatKind) (bytes : List UInt8)
    (digits : CharsFormat → ℤ → List Char) (X : ℤ → ℤ) : Prop
    extends PrintsNarrowed lib SI k bytes digits where
  lower : ∀ format prec, ∀ c ∈ digits format prec, c.isUpper = false
  fixed : ¬Narrowed SI k bytes → ∀ prec, ∀ c ∈ digits .fixed prec, c.isAlpha = false
  general : ¬Narrowed SI k bytes → ∀ prec,
    (∃ c ∈ digits .general prec, c.isAlpha = true) ↔
      ¬(X (significantDigits prec) < significantDigits prec ∧ -4 ≤ X (significantDigits prec))

/-- No letter is printed for a finite number. -/
def WithoutLetters (lib : CLib) (SI : SpecInfo) (k : FloatKind) (bytes : List UInt8)
    (digits : CharsFormat → ℤ → List Char) (X : ℤ → ℤ) (P : ℤ) : Prop :=
  ¬Narrowed SI k bytes ∧
    (SI.terminal = 'f' ∨ SI.terminal = 'g' ∧
      if SI.flags.alt then
        decimalExponent lib k bytes < generalPrec P ∧ -4 ≤ decimalExponent lib k bytes
      else
        X (significantDigits P) < significantDigits P ∧ -4 ≤ X (significantDigits P) ∨
          fitBufferSize SI.flags 'g' < (digits .general P).length)

section Finite

variable {lib : CLib} {k : FloatKind} {bytes : List UInt8}
  {digits : CharsFormat → ℤ → List Char} {X : ℤ → ℤ} {P : ℤ}

lemma three_le_fitBufferSize (flags : Flags) (t : Char) : 3 ≤ fitBufferSize flags t := by
  rw [fitBufferSize]
  cases flags.longdbl <;> split_ifs <;> decide

/-- The letters of the text are those of the library's. -/
lemma mem_callText (h : PrintsNarrowed lib SI k bytes digits) {call : FloatCall}
    (hcall : floatCall SI (decimalExponent lib k bytes) P = call) {c : Char} (hc : c ≠ '.') :
    c ∈ callText lib SI k bytes P ↔
      (digits (charsFormat call.TM) call.prec).length ≤ fitBufferSize SI.flags SI.terminal ∧
        c ∈ digits (charsFormat call.TM) call.prec := by
  rw [callText, hcall, mem_formatDuble hc, h.toChars_eq, fitText]
  split_ifs with hfits
  · exact ⟨fun hmem => ⟨hfits, hmem⟩, And.right⟩
  · exact ⟨fun hmem => absurd hmem List.not_mem_nil, fun hmem => absurd hmem.1 hfits⟩

/-- A number in a format with an exponent shows its letter. -/
lemma exists_isLower_of_hasExp (h : PrintsNarrowed lib SI k bytes digits)
    (hnot : ¬Narrowed SI k bytes)
    (hexp : hasExp (floatCall SI (decimalExponent lib k bytes) P).TM = true) :
    ∃ c ∈ callText lib SI k bytes P, c.isLower = true := by
  obtain ⟨ht, hprec, -⟩ := floatCall_exponent hexp
  obtain ⟨m, x, hdigits, -⟩ := h.exponent hnot _ hexp
    (floatCall SI (decimalExponent lib k bytes) P).prec
  have hchar : ∀ t, expChar t ≠ '.' ∧ (expChar t).isLower = true := by
    intro t
    rw [expChar]
    split_ifs <;> decide
  refine ⟨expChar (floatCall SI (decimalExponent lib k bytes) P).TM, ?_, (hchar _).2⟩
  rw [mem_callText h rfl (hchar _).1]
  refine ⟨(h.length_le _ hexp _).trans (length_le_fitBufferSize hexp ht hprec), ?_⟩
  rw [hdigits]
  exact List.mem_append_right _ List.mem_cons_self

/-- The letters of "inf". -/
lemma exists_isLower_of_narrowed (h : PrintsNarrowed lib SI k bytes digits)
    (hnarrow : Narrowed SI k bytes) : ∃ c ∈ callText lib SI k bytes P, c.isLower = true := by
  refine ⟨'i', ?_, by decide⟩
  rw [mem_callText h rfl (by decide), h.infinity hnarrow]
  exact ⟨three_le_fitBufferSize _ _, by decide⟩

/-- A format without an exponent shows no letter, if the number has none. -/
lemma isLower_eq_false_of_fixed (h : PrintsNotation lib SI k bytes digits X)
    (hnot : ¬Narrowed SI k bytes)
    (hTM : (floatCall SI (decimalExponent lib k bytes) P).TM = 'f') :
    ∀ c ∈ callText lib SI k bytes P, c.isLower = false := by
  intro c hc
  by_cases hpoint : c = '.'
  · rw [hpoint]
    decide
  · rw [mem_callText h.toPrintsNarrowed rfl hpoint, hTM] at hc
    have halpha := h.fixed hnot _ c hc.2
    exact (Bool.or_eq_false_iff.mp halpha).2

/-- The general format shows the exponent that is out of range, if the text fits. -/
lemma exists_isLower_general (h : PrintsNotation lib SI k bytes digits X)
    (hnot : ¬Narrowed SI k bytes) (hg : SI.terminal = 'g') (halt : SI.flags.alt = false) :
    (∃ c ∈ callText lib SI k bytes P, c.isLower = true) ↔
      ¬(X (significantDigits P) < significantDigits P ∧ -4 ≤ X (significantDigits P) ∨
        fitBufferSize SI.flags 'g' < (digits .general P).length) := by
  have hcall := floatCall_general (.inl hg) halt (decimalExponent lib k bytes) P
  rw [not_or, ← h.general hnot, not_lt]
  constructor
  · rintro ⟨c, hc, hlower⟩
    have hpoint : c ≠ '.' := by
      rintro rfl
      exact absurd hlower (by decide)
    rw [mem_callText h.toPrintsNarrowed hcall hpoint, hg] at hc
    exact ⟨⟨c, hc.2, Bool.or_eq_true_iff.mpr (.inr hlower)⟩, hc.1⟩
  · rintro ⟨⟨c, hc, halpha⟩, hfits⟩
    have hlower : c.isLower = true := by
      refine (Bool.or_eq_true_iff.mp halpha).resolve_left fun hupper => ?_
      rw [h.lower _ _ c hc] at hupper
      exact absurd hupper Bool.false_ne_true
    have hpoint : c ≠ '.' := by
      rintro rfl
      exact absurd hlower (by decide)
    refine ⟨c, ?_, hlower⟩
    rw [mem_callText h.toPrintsNarrowed hcall hpoint, hg]
    exact ⟨hfits, hc⟩

/-- **When no letter is printed.** -/
lemma withoutLetters_iff (h : PrintsNotation lib SI k bytes digits X)
    (ht : IsLowerFloat SI.terminal) :
    (∀ c ∈ callText lib SI k bytes P, c.isLower = false) ↔
      WithoutLetters lib SI k bytes digits X P := by
  have hexists : (∀ c ∈ callText lib SI k bytes P, c.isLower = false) ↔
      ¬∃ c ∈ callText lib SI k bytes P, c.isLower = true := by
    simp
  rw [hexists, WithoutLetters]
  by_cases hnarrow : Narrowed SI k bytes
  · exact ⟨fun hno => absurd (exists_isLower_of_narrowed h.toPrintsNarrowed hnarrow) hno,
      fun hno => absurd hnarrow hno.1⟩
  rw [and_iff_right hnarrow]
  have hexp (hexp : hasExp (floatCall SI (decimalExponent lib k bytes) P).TM = true) :=
    exists_isLower_of_hasExp h.toPrintsNarrowed hnarrow hexp
  have hfixed (hTM : (floatCall SI (decimalExponent lib k bytes) P).TM = 'f') :=
    hexists.mp (isLower_eq_false_of_fixed h hnarrow hTM)
  by_cases hg : SI.terminal = 'g'
  · simp only [hg, true_and, show ('g' = 'f') = False from eq_false (by decide), false_or]
    cases halt : SI.flags.alt with
    | false =>
        rw [exists_isLower_general h hnarrow hg halt, not_not]
        exact Iff.rfl
    | true =>
        simp only [if_true]
        by_cases hstyle : decimalExponent lib k bytes < generalPrec P ∧
            -4 ≤ decimalExponent lib k bytes
        · have hTM := hfixed (by rw [floatCall_fixed (.inl hg) halt hstyle, if_pos hg])
          exact ⟨fun _ => hstyle, fun _ => hTM⟩
        · have hTM := hexp (by rw [floatCall_gtoe (.inl hg) halt hstyle, if_pos hg]; rfl)
          exact ⟨fun hno => absurd hTM hno, fun hyes => absurd hyes hstyle⟩
  · rw [floatCall_of_not_g (ht.not_g hg)] at hexp hfixed
    simp only [hg, false_and, or_false]
    rcases ht with h | h | h | h
    · exact ⟨fun hno => absurd (hexp (by rw [h]; rfl)) hno, fun hf => absurd (h ▸ hf) (by decide)⟩
    · exact ⟨fun _ => h, fun _ => hfixed h⟩
    · exact absurd h hg
    · exact ⟨fun hno => absurd (hexp (by rw [h]; rfl)) hno, fun hf => absurd (h ▸ hf) (by decide)⟩

end Finite

/-! ### Both terminals -/

section Run

variable {lib : CLib} {arg : Arg} {W P : ℤ}

/-- The field of the upper-case terminal is that of the other one in upper case. -/
def UpperCased (lib : CLib) (SI : SpecInfo) (arg : Arg) (W P : ℤ) (mem : Mem) : Prop :=
  fieldText lib SI.toUpper arg W P mem = (fieldText lib SI arg W P mem).map upperByte

/-- A field whose characters are in upper case is printed in upper case. -/
lemma fieldText_toUpper (ht : IsLowerTerminal SI.terminal)
    (hconvert : convert lib SI.toUpper arg (resolve SI W P).2.1 (resolve SI W P).2.2 mem =
      (convert lib SI arg (resolve SI W P).2.1 (resolve SI W P).2.2 mem).map (Field.upper mem))
    (hfield : ∀ f, convert lib SI arg (resolve SI W P).2.1 (resolve SI W P).2.2 mem = some f →
      f.fpprec = 0 ∧ upperByte f.sign.toUInt8 = f.sign.toUInt8) :
    fieldText lib SI.toUpper arg W P mem = (fieldText lib SI arg W P mem).map upperByte := by
  have hresolve : resolve SI.toUpper W P = resolve SI W P := rfl
  simp only [fieldText, hresolve, hconvert]
  cases hf : convert lib SI arg (resolve SI W P).2.1 (resolve SI W P).2.2 mem with
  | none => exact (by decide : errorText = errorText.map upperByte)
  | some f =>
      obtain ⟨hsplit, hsign⟩ := hfield f hf
      simp only [Option.map_some, Option.elim_some]
      rw [fieldBytes_toUpper ht, texts_toUpper ht, fieldBytes_upper hsign hsplit]

/-- A field that is the same for both is in upper case if its characters are. -/
lemma fieldText_toUpper_iff (ht : IsLowerTerminal SI.terminal) {f : Field}
    (hconvert : convert lib SI.toUpper arg (resolve SI W P).2.1 (resolve SI W P).2.2 mem =
      convert lib SI arg (resolve SI W P).2.1 (resolve SI W P).2.2 mem)
    (hf : convert lib SI arg (resolve SI W P).2.1 (resolve SI W P).2.2 mem = some f)
    (hsign : upperByte f.sign.toUInt8 = f.sign.toUInt8) :
    fieldText lib SI.toUpper arg W P mem = (fieldText lib SI arg W P mem).map upperByte ↔
      f.src.read mem f.size = (f.src.read mem f.size).map upperByte := by
  have hresolve : resolve SI.toUpper W P = resolve SI W P := rfl
  simp only [fieldText, hresolve, hconvert, hf, Option.elim_some]
  rw [fieldBytes_toUpper ht, texts_toUpper ht, fieldBytes_eq_map_iff hsign]

/-- The fields of `x`. -/
lemma convertInteger_x (ht : SI.terminal = 'x') {flags : Flags} {sign : Char} {f : Field}
    (h : convertInteger SI arg P flags sign = some f) : f.fpprec = 0 ∧ f.sign = sign := by
  rw [convertInteger, if_neg (by rw [ht]; exact fun h => absurd h.1 (by decide))] at h
  cases harg : arg.type with
  | int t =>
      obtain ⟨cp, -, hcp, -⟩ := integerText_toUpper ht (Arg.intValue t arg.bytes) sign
      rw [harg] at h
      simp only [hcp, Option.bind_eq_bind, Option.bind_some, Option.pure_def] at h
      obtain rfl := Option.some.inj h
      exact ⟨rfl, rfl⟩
  | _ => simp [harg] at h

/-- The fields of numbers that are not finite. -/
lemma convertFloat_not_finite
    (hclass : ∀ k, arg.type = .flt k → ¬(lib.fpclassify k arg.bytes).IsFinite) {flags : Flags}
    {sign : Char} {f : Field} (h : convertFloat lib SI arg P flags sign = some f) :
    f.fpprec = 0 ∧ (f.sign = sign ∨ f.sign = '-') := by
  rw [convertFloat] at h
  cases harg : arg.type with
  | flt k =>
      have hnot := hclass k harg
      simp only [harg] at h
      cases hc : lib.fpclassify k arg.bytes with
      | infinite =>
          simp only [hc] at h
          obtain rfl := Option.some.inj h
          exact ⟨rfl, by dsimp only; split_ifs <;> simp⟩
      | nan =>
          simp only [hc] at h
          obtain rfl := Option.some.inj h
          exact ⟨rfl, .inl rfl⟩
      | other => simp [hc] at h
      | zero => exact absurd (.inl hc) hnot
      | subnormal => exact absurd (.inr (.inl hc)) hnot
      | normal => exact absurd (.inr (.inr hc)) hnot
  | _ => simp [harg] at h

lemma convert_x (ht : SI.terminal = 'x' ∨ SI.terminal = 'X') (flags : Flags) :
    convert lib SI arg P flags mem = convertInteger SI arg P flags SI.sign := by
  rcases ht with h | h <;> simp [convert, h, isIntTerminal]

lemma isFloatTerminal_toUpper (ht : IsLowerFloat SI.terminal) :
    isFloatTerminal SI.terminal = true ∧ isFloatTerminal SI.toUpper.terminal = true := by
  rcases ht with h | h | h | h <;> simp [SpecInfo.toUpper, h, isFloatTerminal]

/-- A text without small letters. -/
lemma charBytes_eq_map_iff {text : List Char} (hascii : ∀ c ∈ text, c.toNat < 128) :
    charBytes text = (charBytes text).map upperByte ↔ ∀ c ∈ text, c.isLower = false := by
  rw [charBytes, List.map_map, List.map_eq_map_iff]
  refine forall₂_congr fun c hc => ?_
  rw [eq_comm]
  exact upperByte_eq_self (hascii c hc)

/-- The sign that is given, or the one that is printed. -/
lemma upperByte_given (hsign : SI.sign = nul ∨ SI.sign = '+' ∨ SI.sign = ' ') {c : Char}
    (hc : c = SI.sign ∨ c = '-') : upperByte c.toUInt8 = c.toUInt8 := by
  rcases hc with rfl | rfl
  · exact upperByte_sign (hsign.imp_right fun h => h.imp_right .inl)
  · decide

lemma upperCased_x (hx : SI.terminal = 'x')
    (hsign : SI.sign = nul ∨ SI.sign = '+' ∨ SI.sign = ' ') (lib : CLib) (arg : Arg) (W P : ℤ)
    (mem : Mem) : UpperCased lib SI arg W P mem := by
  refine fieldText_toUpper (.inl hx) ?_ fun f hf => ?_
  · rw [convert_x (.inl hx), convert_x (.inr (toUpper_terminal_x hx))]
    exact convertInteger_toUpper hx arg _ _ _ mem
  · rw [convert_x (.inl hx)] at hf
    obtain ⟨hsplit, hs⟩ := convertInteger_x hx hf
    exact ⟨hsplit, upperByte_given hsign (.inl hs)⟩

/-- Infinity, no number, and what is no floating point number at all. -/
lemma upperCased_not_finite (ht : IsLowerFloat SI.terminal)
    (hsign : SI.sign = nul ∨ SI.sign = '+' ∨ SI.sign = ' ')
    (hclass : ∀ k, arg.type = .flt k → ¬(lib.fpclassify k arg.bytes).IsFinite) (W P : ℤ)
    (mem : Mem) : UpperCased lib SI arg W P mem := by
  obtain ⟨hlower, hupper⟩ := isFloatTerminal_toUpper ht
  refine fieldText_toUpper (.inr ht) ?_ fun f hf => ?_
  · rw [convert_of_float hlower, convert_of_float hupper]
    exact convertFloat_toUpper lib ht hclass _ _ _ mem
  · rw [convert_of_float hlower] at hf
    obtain ⟨hsplit, hs⟩ := convertFloat_not_finite hclass hf
    exact ⟨hsplit, upperByte_given hsign hs⟩

/-- Finite numbers, whose text is that of the library for both. -/
lemma upperCased_finite_iff (ht : IsLowerFloat SI.terminal)
    (hsign : SI.sign = nul ∨ SI.sign = '+' ∨ SI.sign = ' ') {k : FloatKind}
    (harg : arg.type = .flt k) {digits : CharsFormat → ℤ → List Char} {X : ℤ → ℤ}
    (h : PrintsNotation lib SI k arg.bytes digits X) (W P : ℤ) (mem : Mem) :
    UpperCased lib SI arg W P mem ↔
      WithoutLetters lib SI k arg.bytes digits X (resolve SI W P).2.1 := by
  obtain ⟨hlower, hupper⟩ := isFloatTerminal_toUpper ht
  have hf : convert lib SI arg (resolve SI W P).2.1 (resolve SI W P).2.2 mem = _ :=
    (convert_of_float hlower arg _ _ mem).trans (convertFloat_finite harg h.finite _ _ _)
  have hboth : convert lib SI.toUpper arg (resolve SI W P).2.1 (resolve SI W P).2.2 mem =
      convert lib SI arg (resolve SI W P).2.1 (resolve SI W P).2.2 mem := by
    rw [convert_of_float hlower, convert_of_float hupper]
    exact convertFloat_toUpper_finite ht harg h.finite _ _ _
  have hgiven : upperByte (if lib.isNegative k arg.bytes then '-' else SI.sign).toUInt8 =
      (if lib.isNegative k arg.bytes then '-' else SI.sign).toUInt8 :=
    upperByte_given hsign (by split_ifs <;> simp)
  rw [UpperCased, fieldText_toUpper_iff (.inr ht) hboth hf hgiven, CharSrc.read,
    List.take_of_length_le (length_charBytes _).le,
    charBytes_eq_map_iff (ascii_callText h.toPrintsNarrowed), withoutLetters_iff h ht]

/-- **Upper case terminals.** What is printed for one is what is printed for the other in upper
case, exactly if it is not the digits of a finite number with a letter in them. -/
theorem upperCased_iff (ht : IsLowerTerminal SI.terminal)
    (hsign : SI.sign = nul ∨ SI.sign = '+' ∨ SI.sign = ' ')
    {digits : CharsFormat → ℤ → List Char} {X : ℤ → ℤ}
    (h : SI.terminal ≠ 'x' → ∀ k, arg.type = .flt k → (lib.fpclassify k arg.bytes).IsFinite →
      PrintsNotation lib SI k arg.bytes digits X) (W P : ℤ) (mem : Mem) :
    UpperCased lib SI arg W P mem ↔
      (SI.terminal ≠ 'x' → ∀ k, arg.type = .flt k → (lib.fpclassify k arg.bytes).IsFinite →
        WithoutLetters lib SI k arg.bytes digits X (resolve SI W P).2.1) := by
  by_cases hx : SI.terminal = 'x'
  · exact iff_of_true (upperCased_x hx hsign lib arg W P mem) fun hne => absurd hx hne
  have hfloat : IsLowerFloat SI.terminal := ht.resolve_left hx
  by_cases hfinite : ∃ k, arg.type = .flt k ∧ (lib.fpclassify k arg.bytes).IsFinite
  · obtain ⟨k, harg, hfinite⟩ := hfinite
    rw [upperCased_finite_iff hfloat hsign harg (h hx k harg hfinite)]
    refine ⟨fun hno _ k' harg' _ => ?_, fun hall => hall hx k harg hfinite⟩
    obtain rfl : k = k' := by
      rw [harg] at harg'
      exact CType.flt.inj harg'
    exact hno
  · have hclass : ∀ k, arg.type = .flt k → ¬(lib.fpclassify k arg.bytes).IsFinite :=
      fun k harg hc => hfinite ⟨k, harg, hc⟩
    exact iff_of_true (upperCased_not_finite hfloat hsign hclass W P mem)
      fun _ k harg hc => absurd hc (hclass k harg)

end Run

end

/-! ### Zero -/

/-- Zero is printed without an exponent where one can be left out. -/
lemma printsNotation_posZero {SI : SpecInfo} :
    PrintsNotation zeroLib SI .double posZero.bytes zeroDigits fun _ => 0 := by
  constructor
  case toPrintsNarrowed => exact printsNarrowed_posZero
  case lower =>
    intro format prec c hc
    have hall := mem_zeroDigits hc
    fin_cases hall <;> decide
  case fixed =>
    intro _ prec c hc
    rcases mem_fraction hc with rfl | rfl <;> decide
  case general =>
    intro _ prec
    have hpos : 0 < significantDigits prec := by
      rw [significantDigits]
      split_ifs
      · decide
      · exact lt_of_lt_of_le one_pos (le_max_left 1 prec)
    refine iff_of_false ?_ fun h => h ⟨hpos, by decide⟩
    rintro ⟨c, hc, halpha⟩
    rw [List.mem_singleton.mp hc] at halpha
    exact absurd halpha (by decide)

/-- `%g` and `%G` of 0.0 are printed without an exponent. -/
theorem upperCased_posZero : UpperCased zeroLib { terminal := 'g' } posZero 0 (-1) (fun _ => 0) :=
  (upperCased_iff (.inr (.inr (.inr (.inl rfl)))) (.inl rfl)
    (fun _ _ harg _ => CType.flt.inj harg ▸ printsNotation_posZero) 0 (-1) fun _ => 0).mpr
    fun _ _ harg _ => CType.flt.inj harg ▸
      ⟨fun h => absurd h.2.1 nofun, .inr ⟨rfl, .inl ⟨by decide, by decide⟩⟩⟩

/-- `%E` prints "0.000000e+00". -/
theorem upperCased_smallExponent :
    PrintsNotation zeroLib { terminal := 'e' } .double posZero.bytes zeroDigits (fun _ => 0) ∧
      fieldText zeroLib (SpecInfo.toUpper { terminal := 'e' }) posZero 0 (-1) (fun _ => 0) =
        charBytes "0.000000e+00".toList ∧
      (fieldText zeroLib { terminal := 'e' } posZero 0 (-1) fun _ => 0).map upperByte =
        charBytes "0.000000E+00".toList ∧
      ¬UpperCased zeroLib { terminal := 'e' } posZero 0 (-1) (fun _ => 0) := by
  have hupper : fieldText zeroLib (SpecInfo.toUpper { terminal := 'e' }) posZero 0 (-1)
      (fun _ => 0) = charBytes "0.000000e+00".toList := by decide
  have hlower : (fieldText zeroLib { terminal := 'e' } posZero 0 (-1) fun _ => 0).map upperByte =
      charBytes "0.000000E+00".toList := by decide
  refine ⟨printsNotation_posZero, hupper, hlower, ?_⟩
  rw [UpperCased, hupper, hlower]
  decide

end ConstexprFmtStr
