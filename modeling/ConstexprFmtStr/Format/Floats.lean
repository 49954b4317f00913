import Mathlib.Tactic
import ConstexprFmtStr.Format.IntegerShape

/-!
The shape of a floating point field without '#'.

* `PrintsFloat`: a finite number as a sign bit and the digits of its magnitude, and what the
  library does with it.
* `digitText`: the digits with the zeros that the code adds beyond its largest precision.
* `floatField`, `converterSingle_float`: the field that the code prints.
* `OneSign`, `FloatField`: what a field should be. `converterSingle_oneSign`: exactly when it is,
  and it is not for most fields of a negative zero.
-/

namespace ConstexprFmtStr

open Slice Word

/-! ### Digits -/

/-- The format that `formatDuble` asks for. -/
def charsFormat (t : Char) : CharsFormat :=
  if t = 'f' ∨ t = 'F' then .fixed
  else if t = 'e' ∨ t = 'E' then .scientific
  else if t = 'a' ∨ t = 'A' then .hex
  else .general

/-- The terminals whose exponent is split off. -/
def hasExp (t : Char) : Bool := t == 'e' || t == 'E' || t == 'a' || t == 'A'

/-- An exponent: its character once, and at least a sign and a digit behind it. -/
def HasExponent (exp : Char) (text : List Char) : Prop :=
  ∃ m x, text = m ++ exp :: x ∧ exp ∉ m ∧ exp ∉ x ∧ 2 ≤ x.length

/-- `std::to_chars` of a text into so many bytes. -/
def fitText (text : List Char) (size : ℕ) : Option (List Char) :=
  if text.length ≤ size then some text else none

/-- A finite number with the sign bit `signbit` and the `digits` of its magnitude. -/
structure PrintsFloat (lib : CLib) (k : FloatKind) (bytes : List UInt8) (long signbit : Bool)
    (digits : CharsFormat → ℤ → List Char) : Prop where
  finite : lib.fpclassify k bytes = .zero ∨ lib.fpclassify k bytes = .subnormal ∨
    lib.fpclassify k bytes = .normal
  isNegative_iff : lib.isNegative k bytes = true ↔
    signbit = true ∧ lib.fpclassify k bytes ≠ .zero
  toChars_eq : ∀ format prec size, lib.toChars k bytes long format prec size =
    fitText (if signbit then '-' :: digits format prec else digits format prec) size
  toChars_abs : signbit = true → ∀ format prec size,
    lib.toChars k (lib.abs k bytes) long format prec size = fitText (digits format prec) size
  ascii : ∀ format prec, ∀ c ∈ digits format prec, c.toNat < 128
  exponent : ∀ t, hasExp t = true → ∀ prec, HasExponent (expChar t) (digits (charsFormat t) prec)
  /-- a text of more than one character is not made of zeros alone -/
  point : ∀ format prec, 1 < (digits format prec).length →
    ∃ c ∈ digits format prec, c ≠ '0' ∧ c ≠ ' ' ∧ c ≠ '+' ∧ c ≠ '-'

/-- The precision that `std::to_chars` gets, and `fpprec`. -/
def clippedPrec (SI : SpecInfo) (P : ℤ) : ℤ × ℤ :=
  if SI.terminal ≠ 'g' ∧ SI.terminal ≠ 'G' then clipPrec P (maxFractSize SI.flags SI.terminal)
  else (P, 0)

/-- The text that the library prints for the magnitude. -/
def magnitude (digits : CharsFormat → ℤ → List Char) (SI : SpecInfo) (P : ℤ) : List Char :=
  digits (charsFormat SI.terminal) (clippedPrec SI P).1

/-- `fpprec` zeros behind the digits, before the exponent. -/
def extended (SI : SpecInfo) (fpprec : ℤ) (text : List Char) : List Char :=
  let zeros := List.replicate fpprec.toNat '0'
  if hasExp SI.terminal then
    text.takeWhile (· != expChar SI.terminal) ++ zeros ++
      text.dropWhile (· != expChar SI.terminal)
  else text ++ zeros

/-- The unsigned digits of a number. -/
def digitText (digits : CharsFormat → ℤ → List Char) (SI : SpecInfo) (P : ℤ) : List Char :=
  extended SI (clippedPrec SI P).2 (magnitude digits SI P)

variable {lib : CLib} {SI : SpecInfo}

lemma clippedPrec_nonneg (SI : SpecInfo) (P : ℤ) : 0 ≤ (clippedPrec SI P).2 := by
  rw [clippedPrec, clipPrec]
  split_ifs
  · dsimp only
    omega
  · exact le_rfl
  · exact le_rfl

lemma length_extended (SI : SpecInfo) (fpprec : ℤ) (text : List Char) :
    (extended SI fpprec text).length = text.length + fpprec.toNat := by
  rw [extended]
  split_ifs
  · have hlen := congrArg List.length
      (List.takeWhile_append_dropWhile (p := (· != expChar SI.terminal)) (l := text))
    simp only [List.length_append, List.length_replicate] at hlen ⊢
    omega
  · simp

/-- The digits and the zeros. -/
lemma mem_extended {fpprec : ℤ} {text : List Char} {c : Char} :
    c ∈ text → c ∈ extended SI fpprec text := by
  intro hc
  rw [extended]
  split_ifs
  · rw [← List.takeWhile_append_dropWhile (p := (· != expChar SI.terminal)) (l := text)] at hc
    simp only [List.mem_append] at hc ⊢
    rcases hc with hc | hc
    · exact .inl (.inl hc)
    · exact .inr hc
  · exact List.mem_append_left _ hc

lemma eq_zero_of_mem_extended_nil {fpprec : ℤ} {c : Char} (hc : c ∈ extended SI fpprec []) :
    c = '0' := by
  rw [extended] at hc
  split_ifs at hc
  · simp only [List.takeWhile_nil, List.dropWhile_nil, List.nil_append, List.append_nil] at hc
    exact List.eq_of_mem_replicate hc
  · exact List.eq_of_mem_replicate hc

lemma minus_ne_expChar (t : Char) : ('-' != expChar t) = true := by
  rw [expChar]
  split_ifs <;> decide

/-- A sign in front stays in front. -/
lemma extended_minus (SI : SpecInfo) (fpprec : ℤ) (text : List Char) :
    extended SI fpprec ('-' :: text) = '-' :: extended SI fpprec text := by
  have hne := minus_ne_expChar SI.terminal
  rw [extended, extended]
  split_ifs
  · simp only [List.takeWhile_cons, List.dropWhile_cons, hne, if_true, List.cons_append]
  · rfl

/-! ### What the code computes -/

/-- Without '#', `formatDuble` is `std::to_chars`. -/
lemma formatDuble_eq (halt : SI.flags.alt = false) (t : Char) (lib : CLib) (bufSize : ℕ)
    (k : FloatKind) (bytes : List UInt8) (P : ℤ) :
    formatDuble lib t SI.flags bufSize k bytes P =
      (lib.toChars k bytes SI.flags.longdbl (charsFormat t) P bufSize).getD [] := by
  rw [formatDuble]
  by_cases hf : t = 'f' ∨ t = 'F'
  · rw [if_pos hf, charsFormat, if_pos hf]
    dsimp only
    cases lib.toChars k bytes SI.flags.longdbl .fixed P bufSize <;> simp [halt]
  by_cases he : t = 'e' ∨ t = 'E'
  · rw [if_neg hf, if_pos he, charsFormat, if_neg hf, if_pos he]
    dsimp only
    cases lib.toChars k bytes SI.flags.longdbl .scientific P bufSize <;> simp [halt]
  by_cases ha : t = 'a' ∨ t = 'A'
  · rw [if_neg hf, if_neg he, if_pos ha, charsFormat, if_neg hf, if_neg he, if_pos ha]
    dsimp only
    cases lib.toChars k bytes SI.flags.longdbl .hex P bufSize <;> simp [halt]
  · rw [if_neg hf, if_neg he, if_neg ha, charsFormat, if_neg hf, if_neg he, if_neg ha]

lemma floatText_eq (halt : SI.flags.alt = false) (lib : CLib) (k : FloatKind) (isZero : Bool)
    (bytes : List UInt8) (P : ℤ) :
    floatText lib SI k isZero bytes P =
      ((lib.toChars k bytes SI.flags.longdbl (charsFormat SI.terminal) (clippedPrec SI P).1
        (fitBufferSize SI.flags SI.terminal)).getD [], (clippedPrec SI P).2, false) := by
  rw [floatText, clippedPrec]
  by_cases hg : SI.terminal ≠ 'g' ∧ SI.terminal ≠ 'G'
  · rw [if_pos hg, if_pos hg]
    simp only [formatDuble_eq halt]
  · have hnot : ¬SI.flags.alt = true := by
      rw [halt]
      decide
    rw [if_neg hg, if_neg hg, if_neg hnot]
    simp only [formatDuble_eq halt]

/-- The loop that searches for the exponent finds it. -/
lemma expIndex_eq {exp : Char} {m x : List Char} (hx : exp ∉ x) (hlen : 2 ≤ x.length) :
    expIndex exp (m ++ exp :: x) = m.length := by
  have hfront : (m ++ exp :: x).take ((m ++ exp :: x).length - 2) =
      m ++ exp :: x.take (x.length - 2) := by
    rw [List.take_append, List.take_of_length_le (by simp; omega)]
    congr 1
    rw [show (m ++ exp :: x).length - 2 - m.length = x.length - 2 + 1 by simp; omega,
      List.take_succ_cons]
  have hfind : (m ++ exp :: x.take (x.length - 2)).reverse.findIdx (· == exp) =
      (x.take (x.length - 2)).length := by
    rw [List.reverse_append, List.reverse_cons, List.append_assoc, List.findIdx_append]
    have hnone : (x.take (x.length - 2)).reverse.findIdx (· == exp) =
        (x.take (x.length - 2)).reverse.length := by
      refine List.findIdx_eq_length_of_false fun c hc => ?_
      have hmem := List.mem_of_mem_take (List.mem_reverse.mp hc)
      exact beq_eq_false_iff_ne.mpr fun h => hx (h ▸ hmem)
    rw [hnone, if_neg (lt_irrefl _), List.singleton_append, List.findIdx_cons]
    simp
  rw [expIndex, hfront, hfind, List.length_append, List.length_cons]
  omega

lemma ofNat_toUInt8 {c : Char} (h : c.toNat < 128) : Char.ofNat c.toUInt8.toNat = c := by
  have hall : ∀ n < 128, Char.ofNat (Char.ofNat n).toUInt8.toNat = Char.ofNat n := by decide
  have hc := hall c.toNat h
  rwa [Char.ofNat_toNat] at hc

lemma map_charBytes {text : List Char} (h : ∀ c ∈ text, c.toNat < 128) :
    (charBytes text).map (fun b => Char.ofNat b.toNat) = text := by
  rw [charBytes, List.map_map]
  conv_rhs => rw [← List.map_id text]
  exact List.map_congr_left fun c hc => ofNat_toUInt8 (h c hc)

/-- What is printed between the padding: a text whose exponent stands behind the zeros. -/
lemma printed_eq (mem : Mem) {f : Field} {text : List Char} (hsrc : f.src = .buf (charBytes text))
    (hsize : f.size = text.length) (hgtoe : f.gtoe = false)
    (hascii : ∀ c ∈ text, c.toNat < 128) (hnonneg : 0 ≤ f.fpprec)
    (hexp : hasExp SI.terminal = true → text = [] ∨ HasExponent (expChar SI.terminal) text) :
    (f.texts SI mem).1 ++ List.replicate f.fpprec.toNat '0'.toUInt8 ++
        (if f.splitsExp SI then (f.texts SI mem).2 else []) =
      charBytes (extended SI f.fpprec text) := by
  have hread : f.src.read mem f.size = charBytes text := by
    rw [hsrc, hsize, CharSrc.read, List.take_of_length_le (length_charBytes text).le]
  have hzeros := (charBytes_replicate f.fpprec.toNat '0').symm
  have hsplit : f.splitsExp SI = true ↔ 0 < f.fpprec ∧ hasExp SI.terminal = true := by
    simp [Field.splitsExp, hgtoe, hasExp, or_assoc]
  by_cases hsp : f.splitsExp SI = true
  · obtain ⟨hpos, hhas⟩ := hsplit.mp hsp
    simp only [Field.texts, hread, hsp, if_true, map_charBytes hascii]
    rw [hzeros, extended, if_pos hhas, charBytes_append, charBytes_append]
    rcases hexp hhas with rfl | ⟨m, x, rfl, hm, hx, hlen⟩
    · simp [charBytes]
    · have hne : ∀ c ∈ m, (c != expChar SI.terminal) = true := by
        intro c hc
        refine bne_iff_ne.mpr fun h => hm ?_
        rwa [← h]
      have htake : (m ++ expChar SI.terminal :: x).takeWhile (· != expChar SI.terminal) = m := by
        rw [List.takeWhile_append_of_pos hne,
          List.takeWhile_cons, if_neg (by simp), List.append_nil]
      have hdrop : (m ++ expChar SI.terminal :: x).dropWhile (· != expChar SI.terminal) =
          expChar SI.terminal :: x := by
        rw [List.dropWhile_append_of_pos hne,
          List.dropWhile_cons, if_neg (by simp)]
      rw [expIndex_eq hx hlen, htake, hdrop, charBytes_append,
        List.take_left' (length_charBytes m), List.drop_left' (length_charBytes m)]
  · simp only [Field.texts, hread, hsp, if_false, List.append_nil, Bool.false_eq_true]
    rw [hzeros, ← charBytes_append]
    congr 1
    rw [extended]
    by_cases hhas : hasExp SI.terminal = true
    · have hzero : ¬0 < f.fpprec := fun h => hsp (hsplit.mpr ⟨h, hhas⟩)
      have h0 : f.fpprec.toNat = 0 := by omega
      rw [if_pos hhas, h0]
      simp
    · rw [if_neg hhas]

/-- A field, with `pad` characters of padding. -/
def floatField (flags : Flags) (pad : ℕ) (sign : Char) (body : List Char) : List Char :=
  (if ¬flags.zeropad ∧ ¬flags.ladjust then List.replicate pad ' ' else []) ++
    (if sign ≠ nul then [sign] else []) ++
    (if flags.zeropad ∧ ¬flags.ladjust then List.replicate pad '0' else []) ++
    body ++
    (if flags.ladjust then List.replicate pad ' ' else [])

lemma isSignedTerminal_of_float (ht : isFloatTerminal SI.terminal = true) :
    isSignedTerminal SI.terminal = true := by
  rw [isSignedTerminal, ht]
  rfl

lemma isIntTerminal_of_float {t : Char} (ht : isFloatTerminal t = true) :
    isIntTerminal t = false := by
  simp only [isFloatTerminal, Bool.or_eq_true, beq_iff_eq] at ht
  rcases ht with ((((((h | h) | h) | h) | h) | h) | h) | h <;> subst h <;> decide

/-- The bytes of a field. -/
lemma fieldBytes_float (ht : isFloatTerminal SI.terminal = true) (W : ℤ) (mem : Mem) {f : Field}
    {text : List Char} (hsrc : f.src = .buf (charBytes text))
    (hsize : f.size = text.length) (hgtoe : f.gtoe = false)
    (hascii : ∀ c ∈ text, c.toNat < 128) (hnonneg : 0 ≤ f.fpprec)
    (hexp : hasExp SI.terminal = true → text = [] ∨ HasExponent (expChar SI.terminal) text) :
    fieldBytes SI W f (f.texts SI mem) =
      charBytes (floatField f.flags (W - f.realsz SI).toNat f.sign
        (extended SI f.fpprec text)) := by
  have hprinted := printed_eq mem hsrc hsize hgtoe hascii hnonneg hexp
  have hif : ∀ (c : Prop) [Decidable c] (cs : List Char),
      charBytes (if c then cs else []) = if c then charBytes cs else [] := by
    intro c _ cs
    split_ifs <;> rfl
  rw [floatField, fieldBytes]
  simp only [charBytes_append, hif, charBytes_replicate, ← hprinted, ht,
    isSignedTerminal_of_float ht, isIntTerminal_of_float ht, if_true, true_and,
    Bool.false_eq_true, if_false, List.append_nil, List.append_assoc]
  rfl

/-! ### The field -/

/-- A specifier for floating point numbers without '#', as `getOneSpec` finds it. -/
structure IsFloatSpec (SI : SpecInfo) : Prop where
  terminal_eq : isFloatTerminal SI.terminal = true
  alt_eq : SI.flags.alt = false
  sign_eq : SI.sign = nul ∨ SI.sign = '+' ∨ SI.sign = ' '
  width_eq : SI.width = dynamicWidth ∨ 0 ≤ SI.width

/-- Are zeros to be printed before the digits? -/
def ZeroPads (SI : SpecInfo) (W : ℤ) : Prop :=
  SI.flags.zeropad = true ∧ SI.flags.ladjust = false ∧ 0 ≤ givenWidth SI W

section Finite

variable {k : FloatKind} {bytes : List UInt8} {signbit : Bool}
  {digits : CharsFormat → ℤ → List Char}

/-- What is printed for a number without its sign flag: its digits if they fit `buf`, with a
'-' for a negative zero, whose sign is not taken off. -/
def codeText (lib : CLib) (k : FloatKind) (bytes : List UInt8) (signbit : Bool)
    (digits : CharsFormat → ℤ → List Char) (SI : SpecInfo) (P : ℤ) : List Char :=
  (fitText (if signbit ∧ lib.fpclassify k bytes = .zero then '-' :: magnitude digits SI P
    else magnitude digits SI P) (fitBufferSize SI.flags SI.terminal)).getD []

/-- The sign that is printed before the zeros. -/
def codeSign (lib : CLib) (k : FloatKind) (bytes : List UInt8) (SI : SpecInfo) : Char :=
  if lib.isNegative k bytes then '-' else SI.sign

/-- The field of a finite number. -/
lemma convertFloat_eq (h : PrintsFloat lib k bytes SI.flags.longdbl signbit digits)
    (halt : SI.flags.alt = false) {arg : Arg} (harg : arg.type = .flt k)
    (hbytes : arg.bytes = bytes) (P : ℤ) (flags : Flags) :
    convertFloat lib SI arg P flags SI.sign = some {
      src := .buf (charBytes (codeText lib k bytes signbit digits SI P))
      size := (codeText lib k bytes signbit digits SI P).length
      P := P
      fpprec := (clippedPrec SI P).2
      gtoe := false
      flags := flags
      sign := codeSign lib k bytes SI } := by
  have htext : ∀ isZero, floatText lib SI k isZero
      (if lib.isNegative k bytes then lib.abs k bytes else bytes) P =
      (codeText lib k bytes signbit digits SI P, (clippedPrec SI P).2, false) := by
    intro isZero
    rw [floatText_eq halt, codeText]
    by_cases hneg : lib.isNegative k bytes = true
    · obtain ⟨hsign, hzero⟩ := h.isNegative_iff.mp hneg
      rw [if_pos hneg, h.toChars_abs hsign, if_neg fun hc => hzero hc.2, magnitude]
    · have hiff : signbit = true ∧ lib.fpclassify k bytes = .zero ↔ signbit = true := by
        refine ⟨fun hc => hc.1, fun hsign => ⟨hsign, ?_⟩⟩
        by_contra hzero
        exact hneg (h.isNegative_iff.mpr ⟨hsign, hzero⟩)
      rw [if_neg hneg, h.toChars_eq]
      simp only [hiff, magnitude]
  rw [convertFloat]
  simp only [harg, hbytes]
  rcases h.finite with hc | hc | hc <;> simp only [hc, htext, codeSign]

/-- `realsz` of that field. -/
def codeSize (lib : CLib) (k : FloatKind) (bytes : List UInt8) (signbit : Bool)
    (digits : CharsFormat → ℤ → List Char) (SI : SpecInfo) (P : ℤ) : ℤ :=
  let size := wrapS 32
    ((codeText lib k bytes signbit digits SI P).length + (clippedPrec SI P).2)
  if codeSign lib k bytes SI ≠ nul then size + 1 else size

/-- The characters that the code prints. -/
def codeField (lib : CLib) (k : FloatKind) (bytes : List UInt8) (signbit : Bool)
    (digits : CharsFormat → ℤ → List Char) (SI : SpecInfo) (W P : ℤ) : List Char :=
  floatField (resolve SI W P).2.2
    ((resolve SI W P).1 - codeSize lib k bytes signbit digits SI (resolve SI W P).2.1).toNat
    (codeSign lib k bytes SI)
    (extended SI (clippedPrec SI (resolve SI W P).2.1).2
      (codeText lib k bytes signbit digits SI (resolve SI W P).2.1))

lemma ascii_codeText (h : PrintsFloat lib k bytes SI.flags.longdbl signbit digits) (P : ℤ) :
    ∀ c ∈ codeText lib k bytes signbit digits SI P, c.toNat < 128 := by
  intro c hc
  rw [codeText, fitText] at hc
  split_ifs at hc
  · rcases List.mem_cons.mp hc with rfl | hc
    · decide
    · exact h.ascii _ _ c hc
  · exact absurd hc List.not_mem_nil
  · exact h.ascii _ _ c hc
  · exact absurd hc List.not_mem_nil

lemma exponent_codeText (h : PrintsFloat lib k bytes SI.flags.longdbl signbit digits) (P : ℤ)
    (hexp : hasExp SI.terminal = true) :
    codeText lib k bytes signbit digits SI P = [] ∨
      HasExponent (expChar SI.terminal) (codeText lib k bytes signbit digits SI P) := by
  obtain ⟨m, x, htext, hm, hx, hlen⟩ := h.exponent SI.terminal hexp (clippedPrec SI P).1
  rw [codeText, fitText]
  split_ifs
  · refine .inr ⟨'-' :: m, x, ?_, ?_, hx, hlen⟩
    · rw [magnitude, htext]
      rfl
    · have hne := bne_iff_ne.mp (minus_ne_expChar SI.terminal)
      exact fun hmem => (List.mem_cons.mp hmem).elim (fun heq => hne heq.symm) hm
  · exact .inl rfl
  · exact .inr ⟨m, x, htext, hm, hx, hlen⟩
  · exact .inl rfl

/-- The conversion of a floating point terminal. -/
lemma convert_of_float {lib : CLib} {SI : SpecInfo} (ht : isFloatTerminal SI.terminal = true)
    (arg : Arg) (P : ℤ) (flags : Flags) (mem : Mem) :
    convert lib SI arg P flags mem = convertFloat lib SI arg P flags SI.sign := by
  have hne : SI.terminal ≠ 'c' ∧ SI.terminal ≠ 's' ∧ SI.terminal ≠ 'p' := by
    refine ⟨?_, ?_, ?_⟩ <;> intro heq <;> rw [heq] at ht <;> exact absurd ht (by decide)
  obtain ⟨hc, hs, hp⟩ := hne
  rw [convert, if_neg hc, if_neg hs, if_neg (by simp [isIntTerminal_of_float ht, hp]), if_pos ht]

/-- One field is printed, whatever the buffer. -/
lemma converterSingle_float (h : PrintsFloat lib k bytes SI.flags.longdbl signbit digits)
    (hSI : IsFloatSpec SI) {arg : Arg} (harg : arg.type = .flt k) (hbytes : arg.bytes = bytes)
    (fmt : List Char) (W P : ℤ) (out : OutbufArg) :
    converterSingle lib fmt SI arg W P out = out.write (literalText fmt SI ++
      charBytes (codeField lib k bytes signbit digits SI W P)) := by
  have ht := hSI.terminal_eq
  have hn : SI.terminal ≠ 'n' := by
    intro heq
    rw [heq] at ht
    exact absurd ht (by decide)
  obtain ⟨f, hf⟩ := (⟨_, rfl⟩ : ∃ f : Field, f = {
    src := .buf (charBytes (codeText lib k bytes signbit digits SI (resolve SI W P).2.1))
    size := (codeText lib k bytes signbit digits SI (resolve SI W P).2.1).length
    P := (resolve SI W P).2.1
    fpprec := (clippedPrec SI (resolve SI W P).2.1).2
    gtoe := false
    flags := (resolve SI W P).2.2
    sign := codeSign lib k bytes SI })
  have hconv : ∀ mem, convert lib SI arg (resolve SI W P).2.1 (resolve SI W P).2.2 mem =
      some f := by
    intro mem
    rw [convert_of_float ht, hf]
    exact convertFloat_eq h hSI.alt_eq harg hbytes _ _
  have htexts : ∀ mem mem', f.texts SI mem = f.texts SI mem' := by
    intro mem mem'
    simp only [Field.texts, hf, CharSrc.read]
  have hreal : f.realsz SI = codeSize lib k bytes signbit digits SI (resolve SI W P).2.1 := by
    simp [Field.realsz, codeSize, hf, ht, isIntTerminal_of_float ht, isSignedTerminal_of_float ht]
  have hfield := fieldBytes_float ht (resolve SI W P).1 (out.write (literalText fmt SI)).mem
    (f := f) (by rw [hf]) (by rw [hf]) (by rw [hf]) (ascii_codeText h _)
    (by rw [hf]; exact clippedPrec_nonneg _ _) (exponent_codeText h _)
  rw [converterSingle]
  simp only [if_neg hn, hconv]
  rw [writeField_eq (fun bs => htexts _ _), hfield, OutbufArg.write_append, hreal, hf]
  rfl

/-! ### What a field should be -/

/-- The sign that should be printed. -/
def signChars (SI : SpecInfo) (signbit : Bool) : List Char :=
  if signbit then ['-'] else if SI.sign = nul then [] else [SI.sign]

/-- **One sign, in front of the zeros**: the parts of a field for a number with the sign bit
`signbit` and the unsigned digits `ds`. -/
structure OneSign (SI : SpecInfo) (W : ℤ) (signbit : Bool) (ds : List Char) (f : IntParts) :
    Prop where
  lpad_blank : ∀ c ∈ f.lpad, c = ' '
  sign_eq : f.sign = signChars SI signbit
  zeros_eq : ∀ c ∈ f.zeros, c = '0'
  zeros_nil : SI.flags.zeropad = false → f.zeros = []
  digits_eq : f.digits = ds
  rpad_blank : ∀ c ∈ f.rpad, c = ' '
  length_text : f.text.length = max (givenWidth SI W).natAbs (f.sign.length + ds.length)

/-- The field has the right parts, and the negation of a negative width and the size of sign and
digits are `int`s. -/
structure FloatField (SI : SpecInfo) (W : ℤ) (signbit : Bool) (ds field : List Char) : Prop where
  width_neg : -2 ^ 31 < givenWidth SI W
  size_le : ((signChars SI signbit).length + ds.length : ℤ) ≤ intMax
  parts : ∃ f : IntParts, f.text = field ∧ OneSign SI W signbit ds f

/-- When the code gets a field right, for digits `ds` of which the library prints `text`. -/
structure SignHolds (SI : SpecInfo) (W : ℤ) (signbit : Bool) (isZero : Prop) [Decidable isZero]
    (text ds : List Char) : Prop where
  width_neg : -2 ^ 31 < givenWidth SI W
  size_le : ((signChars SI signbit).length + ds.length : ℤ) ≤ intMax
  fits : text.length + (if signbit = true ∧ isZero then 1 else 0) ≤
    fitBufferSize SI.flags SI.terminal
  /-- the '-' of a negative zero is not known as a sign -/
  negZero : signbit = true → isZero →
    SI.sign = nul ∧ (ZeroPads SI W → (givenWidth SI W).natAbs ≤ ds.length + 1) ∨
    SI.sign = ' ' ∧ ds.length + 2 ≤ (givenWidth SI W).natAbs ∧
      (ZeroPads SI W → (givenWidth SI W).natAbs = ds.length + 2)

lemma length_floatField (flags : Flags) (pad : ℕ) (sign : Char) (body : List Char) :
    (floatField flags pad sign body).length =
      pad + (if sign = nul then 0 else 1) + body.length := by
  rw [floatField]
  cases flags.zeropad <;> cases flags.ladjust <;> by_cases hs : sign = nul <;>
    simp [hs] <;> omega

/-- The first character that is not a blank. -/
def firstShown (cs : List Char) : Option Char := cs.find? (· != ' ')

lemma firstShown_blanks {cs : List Char} (h : ∀ c ∈ cs, c = ' ') (ds : List Char) :
    firstShown (cs ++ ds) = firstShown ds := by
  have hnone : cs.find? (· != ' ') = none := by
    refine List.find?_eq_none.mpr fun c hc => ?_
    rw [h c hc]
    decide
  rw [firstShown, List.find?_append, hnone, Option.none_or, firstShown]

lemma firstShown_cons {c : Char} (hc : c ≠ ' ') (cs : List Char) :
    firstShown (c :: cs) = some c := List.find?_cons_of_pos (bne_iff_ne.mpr hc)

/-- A field with the right parts for a negative number shows its '-' first. -/
lemma OneSign.firstShown_eq {W : ℤ} {ds : List Char} {f : IntParts}
    (h : OneSign SI W true ds f) : firstShown f.text = some '-' := by
  have htext : f.text = f.lpad ++ '-' :: (f.zeros ++ f.digits ++ f.rpad) := by
    rw [IntParts.text, h.sign_eq]
    simp [signChars]
  rw [htext, firstShown_blanks h.lpad_blank, firstShown_cons (by decide)]

lemma eq_of_mem_ite_replicate {p : Prop} [Decidable p] {n : ℕ} {a c : Char}
    (h : c ∈ if p then List.replicate n a else []) : c = a := by
  split_ifs at h
  · exact List.eq_of_mem_replicate h
  · exact absurd h List.not_mem_nil

/-- A sign flag shows first. -/
lemma firstShown_floatField {sign : Char} (hs : sign ≠ nul) (hb : sign ≠ ' ') (flags : Flags)
    (pad : ℕ) (body : List Char) : firstShown (floatField flags pad sign body) = some sign := by
  have hblank : ∀ c ∈ (if ¬flags.zeropad ∧ ¬flags.ladjust then List.replicate pad ' ' else []),
      c = ' ' := fun _ hc => eq_of_mem_ite_replicate hc
  rw [floatField, if_pos hs]
  simp only [List.append_assoc]
  rw [firstShown_blanks hblank, List.singleton_append, firstShown_cons hb]

/-- Zeros show first, after no sign or a blank. -/
lemma firstShown_zeros {sign : Char} (hs : sign = nul ∨ sign = ' ') {flags : Flags}
    (hz : flags.zeropad = true) (hl : flags.ladjust = false) {pad : ℕ} (hpad : 0 < pad)
    (body : List Char) : firstShown (floatField flags pad sign body) = some '0' := by
  obtain ⟨n, rfl⟩ := Nat.exists_eq_succ_of_ne_zero hpad.ne'
  have hfield : floatField flags (n + 1) sign body =
      (if sign ≠ nul then [sign] else []) ++ '0' :: (List.replicate n '0' ++ body) := by
    rw [floatField]
    simp [hz, hl, List.replicate_succ]
  have hblank : ∀ c ∈ (if sign ≠ nul then [sign] else []), c = ' ' := by
    intro c hc
    split_ifs at hc with hne
    · exact (List.mem_singleton.mp hc).trans (hs.resolve_left hne)
    · exact absurd hc List.not_mem_nil
  rw [hfield, firstShown_blanks hblank, firstShown_cons (by decide)]

/-- The parts of what the code prints. -/
def floatParts (flags : Flags) (pad : ℕ) (sign : Char) (body : List Char) : IntParts where
  lpad := if ¬flags.zeropad ∧ ¬flags.ladjust then List.replicate pad ' ' else []
  sign := if sign ≠ nul then [sign] else []
  zeros := if flags.zeropad ∧ ¬flags.ladjust then List.replicate pad '0' else []
  digits := body
  rpad := if flags.ladjust then List.replicate pad ' ' else []

lemma text_floatParts (flags : Flags) (pad : ℕ) (sign : Char) (body : List Char) :
    (floatParts flags pad sign body).text = floatField flags pad sign body := rfl

lemma lpad_floatParts {flags : Flags} {pad : ℕ} {sign : Char} {body : List Char} :
    ∀ c ∈ (floatParts flags pad sign body).lpad, c = ' ' :=
  fun _ hc => eq_of_mem_ite_replicate hc

lemma rpad_floatParts {flags : Flags} {pad : ℕ} {sign : Char} {body : List Char} :
    ∀ c ∈ (floatParts flags pad sign body).rpad, c = ' ' :=
  fun _ hc => eq_of_mem_ite_replicate hc

lemma zeros_floatParts {flags : Flags} {pad : ℕ} {sign : Char} {body : List Char} :
    ∀ c ∈ (floatParts flags pad sign body).zeros, c = '0' :=
  fun _ hc => eq_of_mem_ite_replicate hc

lemma resolve_zeropad (hSI : IsFloatSpec SI) (W P : ℤ) :
    (resolve SI W P).2.2.zeropad = SI.flags.zeropad := by
  rw [(resolve_width hSI.width_eq W P).2]
  split_ifs <;> rfl

lemma zeroPads_iff (hSI : IsFloatSpec SI) (W P : ℤ) :
    ZeroPads SI W ↔
      (resolve SI W P).2.2.zeropad = true ∧ (resolve SI W P).2.2.ladjust = false := by
  rw [(resolve_width hSI.width_eq W P).2, ZeroPads]
  by_cases hneg : givenWidth SI W < 0
  · simp only [if_pos hneg, Bool.true_eq_false, and_false, iff_false]
    omega
  · simp [if_neg hneg, not_lt.mp hneg]

lemma isNegative_false (h : PrintsFloat lib k bytes SI.flags.longdbl signbit digits)
    (hzero : lib.fpclassify k bytes = .zero) : lib.isNegative k bytes = false := by
  by_contra hneg
  exact (h.isNegative_iff.mp (Bool.eq_true_of_not_eq_false hneg)).2 hzero

/-- The sign and the digits that the code prints, if they fit. -/
lemma codeText_of_fits {P : ℤ}
    (hfits : (magnitude digits SI P).length +
      (if signbit = true ∧ lib.fpclassify k bytes = .zero then 1 else 0) ≤
        fitBufferSize SI.flags SI.terminal) :
    codeText lib k bytes signbit digits SI P =
      if signbit = true ∧ lib.fpclassify k bytes = .zero then '-' :: magnitude digits SI P
      else magnitude digits SI P := by
  rw [codeText, fitText]
  split_ifs at hfits ⊢ with hminus hlen hlen
  · rfl
  · rw [List.length_cons] at hlen
    omega
  · rfl
  · omega

/-- Where the digits do not fit `buf`, none of them is printed. -/
lemma fits_of_floatField (h : PrintsFloat lib k bytes SI.flags.longdbl signbit digits)
    (hSI : IsFloatSpec SI) {W P : ℤ} {f : IntParts}
    (htext : f.text = codeField lib k bytes signbit digits SI W P)
    (hdigits : f.digits = digitText digits SI (resolve SI W P).2.1) :
    (magnitude digits SI (resolve SI W P).2.1).length +
      (if signbit = true ∧ lib.fpclassify k bytes = .zero then 1 else 0) ≤
        fitBufferSize SI.flags SI.terminal := by
  by_contra hlong
  have hbuf : 2 ≤ fitBufferSize SI.flags SI.terminal := by
    rw [fitBufferSize]
    split_ifs <;> simp [maxFractLE]
  have hnil : codeText lib k bytes signbit digits SI (resolve SI W P).2.1 = [] := by
    rw [codeText, fitText]
    split_ifs at hlong ⊢ with hminus hlen hlen
    · rw [List.length_cons] at hlen
      omega
    · rfl
    · omega
    · rfl
  obtain ⟨c, hc, h0, hb, hplus, hminus⟩ := h.point (charsFormat SI.terminal)
    (clippedPrec SI (resolve SI W P).2.1).1 (by
      change 1 < (magnitude digits SI (resolve SI W P).2.1).length
      split_ifs at hlong <;> omega)
  -- the character `c` of the digits is not in the field
  have hmem : c ∈ codeField lib k bytes signbit digits SI W P := by
    rw [← htext, IntParts.text, hdigits]
    exact List.mem_append_left _ (List.mem_append_right _ (mem_extended hc))
  rw [codeField, hnil, floatField] at hmem
  simp only [List.mem_append] at hmem
  rcases hmem with (((hmem | hmem) | hmem) | hmem) | hmem
  · exact hb (eq_of_mem_ite_replicate hmem)
  · split_ifs at hmem with hsign
    · have hcs := List.mem_singleton.mp hmem
      rw [codeSign] at hcs hsign
      split_ifs at hcs hsign with hneg
      · exact hminus hcs
      · rcases hSI.sign_eq with hs | hs | hs
        · exact hsign hs
        · exact hplus (hcs.trans hs)
        · exact hb (hcs.trans hs)
    · exact absurd hmem List.not_mem_nil
  · exact h0 (eq_of_mem_ite_replicate hmem)
  · exact h0 (eq_zero_of_mem_extended_nil hmem)
  · exact hb (eq_of_mem_ite_replicate hmem)

/-- The field that is printed, if its size is an `int`. -/
lemma codeField_eq (hSI : IsFloatSpec SI) {W P : ℤ} {body : List Char}
    (hbody : extended SI (clippedPrec SI (resolve SI W P).2.1).2
      (codeText lib k bytes signbit digits SI (resolve SI W P).2.1) = body)
    (hsize : (body.length : ℤ) ≤ intMax) :
    codeField lib k bytes signbit digits SI W P =
      floatField (resolve SI W P).2.2
        ((givenWidth SI W).natAbs -
          ((if codeSign lib k bytes SI = nul then 0 else 1) + body.length))
        (codeSign lib k bytes SI) body := by
  have hnonneg := clippedPrec_nonneg SI (resolve SI W P).2.1
  have hlen := length_extended SI (clippedPrec SI (resolve SI W P).2.1).2
    (codeText lib k bytes signbit digits SI (resolve SI W P).2.1)
  rw [hbody] at hlen
  rw [intMax] at hsize
  have hpad : ((resolve SI W P).1 -
      codeSize lib k bytes signbit digits SI (resolve SI W P).2.1).toNat =
      (givenWidth SI W).natAbs -
        ((if codeSign lib k bytes SI = nul then 0 else 1) + body.length) := by
    rw [codeSize, wrapS_of_bounds (by omega) (by omega), (resolve_width hSI.width_eq W P).1,
      Int.abs_eq_natAbs]
    by_cases hsign : codeSign lib k bytes SI = nul
    · simp only [hsign, ne_eq, not_true, if_false, if_true]
      omega
    · simp only [hsign, ne_eq, not_false_iff, if_false, if_true]
      omega
  rw [codeField, hpad, hbody]

/-- Any field but that of a negative zero is right. -/
lemma oneSign_codeField (h : PrintsFloat lib k bytes SI.flags.longdbl signbit digits)
    (hSI : IsFloatSpec SI) {W P : ℤ} {ds : List Char}
    (hminus : ¬(signbit = true ∧ lib.fpclassify k bytes = .zero)) :
    OneSign SI W signbit ds (floatParts (resolve SI W P).2.2
      ((givenWidth SI W).natAbs - ((if codeSign lib k bytes SI = nul then 0 else 1) + ds.length))
      (codeSign lib k bytes SI) ds) := by
  have hsign : (if codeSign lib k bytes SI ≠ nul then [codeSign lib k bytes SI] else []) =
      signChars SI signbit := by
    rw [signChars, codeSign]
    by_cases hs : signbit = true
    · have hneg := h.isNegative_iff.mpr ⟨hs, fun hzero => hminus ⟨hs, hzero⟩⟩
      rw [if_pos hneg, if_pos hs, if_pos (by decide)]
    · have hneg : ¬lib.isNegative k bytes = true := fun hneg => hs (h.isNegative_iff.mp hneg).1
      rw [if_neg hneg, if_neg hs, ite_not]
  refine ⟨lpad_floatParts, hsign, zeros_floatParts, ?_, rfl, rpad_floatParts, ?_⟩
  · intro hzero
    refine if_neg fun hact => ?_
    rw [resolve_zeropad hSI, hzero] at hact
    exact absurd hact.1 (by decide)
  · have hlen : (floatParts (resolve SI W P).2.2 ((givenWidth SI W).natAbs -
        ((if codeSign lib k bytes SI = nul then 0 else 1) + ds.length))
        (codeSign lib k bytes SI) ds).sign.length =
          if codeSign lib k bytes SI = nul then 0 else 1 := by
      simp only [floatParts]
      by_cases hs : codeSign lib k bytes SI = nul
      · rw [if_neg (not_not.mpr hs), if_pos hs]
        rfl
      · rw [if_pos hs, if_neg hs]
        rfl
    rw [text_floatParts, length_floatField, hlen]
    omega

/-- The parts of the field of a negative zero, whose '-' is printed with the digits. -/
lemma oneSign_minusZero (hSI : IsFloatSpec SI) {W P : ℤ} {ds : List Char} {pad : ℕ}
    (hzeros : ZeroPads SI W → pad = 0) (hsign : SI.sign = nul ∨ SI.sign = ' ')
    (hlen : pad + (if SI.sign = nul then 0 else 1) + (ds.length + 1) =
      max (givenWidth SI W).natAbs (ds.length + 1)) :
    ∃ f : IntParts, f.text = floatField (resolve SI W P).2.2 pad SI.sign ('-' :: ds) ∧
      OneSign SI W true ds f := by
  have hnil : (floatParts (resolve SI W P).2.2 pad SI.sign ('-' :: ds)).zeros = [] := by
    simp only [floatParts]
    by_cases hact : ZeroPads SI W
    · rw [hzeros hact]
      split_ifs <;> rfl
    · refine if_neg fun hflags => hact ((zeroPads_iff hSI W P).mpr ⟨hflags.1, ?_⟩)
      exact Bool.eq_false_of_not_eq_true hflags.2
  refine ⟨{
    lpad := (floatParts (resolve SI W P).2.2 pad SI.sign ('-' :: ds)).lpad ++
      (if SI.sign ≠ nul then [SI.sign] else [])
    sign := ['-']
    zeros := []
    digits := ds
    rpad := (floatParts (resolve SI W P).2.2 pad SI.sign ('-' :: ds)).rpad }, ?_, ?_⟩
  · rw [← text_floatParts, IntParts.text, IntParts.text, hnil]
    simp [floatParts]
  · constructor
    case lpad_blank =>
      intro c hc
      rcases List.mem_append.mp hc with hc | hc
      · exact lpad_floatParts c hc
      · split_ifs at hc with hne
        · exact (List.mem_singleton.mp hc).trans (hsign.resolve_left hne)
        · exact absurd hc List.not_mem_nil
    case sign_eq => rfl
    case zeros_eq =>
      intro c hc
      exact absurd hc List.not_mem_nil
    case zeros_nil =>
      intro _
      rfl
    case digits_eq => rfl
    case rpad_blank =>
      intro c hc
      exact eq_of_mem_ite_replicate hc
    case length_text =>
      have htext := length_floatField (resolve SI W P).2.2 pad SI.sign ('-' :: ds)
      rw [← text_floatParts, IntParts.text, hnil, List.length_cons, hlen] at htext
      simp only [floatParts, IntParts.text, List.length_append, List.length_cons,
        List.length_nil] at htext ⊢
      omega

/-- What the code writes for a negative zero: the minus sign stands with the digits, and the
sign of the flags before it. -/
lemma codeField_negZero (h : PrintsFloat lib k bytes SI.flags.longdbl signbit digits)
    (hSI : IsFloatSpec SI) {W P : ℤ} (hsign : signbit = true)
    (hzero : lib.fpclassify k bytes = .zero)
    (hfits : (magnitude digits SI (resolve SI W P).2.1).length +
      (if signbit = true ∧ lib.fpclassify k bytes = .zero then 1 else 0) ≤
        fitBufferSize SI.flags SI.terminal)
    (hsize : ((signChars SI signbit).length + (digitText digits SI (resolve SI W P).2.1).length :
      ℤ) ≤ intMax) :
    codeField lib k bytes signbit digits SI W P =
      floatField (resolve SI W P).2.2
        ((givenWidth SI W).natAbs - ((if SI.sign = nul then 0 else 1) +
          ((digitText digits SI (resolve SI W P).2.1).length + 1)))
        SI.sign ('-' :: digitText digits SI (resolve SI W P).2.1) := by
  have hcs : codeSign lib k bytes SI = SI.sign := by
    rw [codeSign, isNegative_false h hzero]
    rfl
  have hbody : extended SI (clippedPrec SI (resolve SI W P).2.1).2
      (codeText lib k bytes signbit digits SI (resolve SI W P).2.1) =
      '-' :: digitText digits SI (resolve SI W P).2.1 := by
    rw [codeText_of_fits hfits, if_pos ⟨hsign, hzero⟩, extended_minus, digitText]
  have hfield := codeField_eq hSI hbody (by
    rw [signChars, if_pos hsign] at hsize
    rw [List.length_cons]
    simp only [List.length_singleton] at hsize
    omega)
  rw [hfield, hcs, List.length_cons]

/-- A field that is right has the sign right. -/
lemma signHolds_of_floatField (h : PrintsFloat lib k bytes SI.flags.longdbl signbit digits)
    (hSI : IsFloatSpec SI) {W P : ℤ}
    (hfield : FloatField SI W signbit (digitText digits SI (resolve SI W P).2.1)
      (codeField lib k bytes signbit digits SI W P)) :
    SignHolds SI W signbit (lib.fpclassify k bytes = .zero)
      (magnitude digits SI (resolve SI W P).2.1)
      (digitText digits SI (resolve SI W P).2.1) := by
  obtain ⟨f, htext, hone⟩ := hfield.parts
  have hfits := fits_of_floatField h hSI htext hone.digits_eq
  refine ⟨hfield.width_neg, hfield.size_le, hfits, fun hsign hzero => ?_⟩
  have heq := codeField_negZero h hSI hsign hzero hfits hfield.size_le
  subst hsign
  have hfirst := hone.firstShown_eq
  have hlength := hone.length_text
  rw [htext, heq] at hfirst
  rw [htext, heq, length_floatField, hone.sign_eq, signChars, if_pos rfl, List.length_singleton,
    List.length_cons] at hlength
  rcases hSI.sign_eq with hs | hs | hs
  · refine .inl ⟨hs, fun hact => ?_⟩
    by_contra hgt
    obtain ⟨hz, hl⟩ := (zeroPads_iff hSI W P).mp hact
    rw [if_pos hs] at hfirst
    rw [firstShown_zeros (.inl hs) hz hl (by omega)] at hfirst
    exact absurd (Option.some.inj hfirst) (by decide)
  · rw [firstShown_floatField (by rw [hs]; decide) (by rw [hs]; decide), hs] at hfirst
    exact absurd (Option.some.inj hfirst) (by decide)
  · have hne : SI.sign ≠ nul := by
      rw [hs]
      decide
    rw [if_neg hne] at hfirst hlength
    refine .inr ⟨hs, by omega, fun hact => ?_⟩
    by_contra hgt
    obtain ⟨hz, hl⟩ := (zeroPads_iff hSI W P).mp hact
    rw [firstShown_zeros (.inr hs) hz hl (by omega)] at hfirst
    exact absurd (Option.some.inj hfirst) (by decide)

/-- And there is nothing else to it. -/
lemma floatField_of_signHolds (h : PrintsFloat lib k bytes SI.flags.longdbl signbit digits)
    (hSI : IsFloatSpec SI) {W P : ℤ}
    (hholds : SignHolds SI W signbit (lib.fpclassify k bytes = .zero)
      (magnitude digits SI (resolve SI W P).2.1)
      (digitText digits SI (resolve SI W P).2.1)) :
    FloatField SI W signbit (digitText digits SI (resolve SI W P).2.1)
      (codeField lib k bytes signbit digits SI W P) := by
  refine ⟨hholds.width_neg, hholds.size_le, ?_⟩
  by_cases hminus : signbit = true ∧ lib.fpclassify k bytes = .zero
  · obtain ⟨hsign, hzero⟩ := hminus
    rw [codeField_negZero h hSI hsign hzero hholds.fits hholds.size_le, hsign]
    have hneg := hholds.negZero hsign hzero
    refine oneSign_minusZero hSI ?_ (hneg.imp And.left And.left) ?_
    · intro hact
      rcases hneg with ⟨hs, hle⟩ | ⟨hs, -, hle⟩
      · have := hle hact
        omega
      · have hne : SI.sign ≠ nul := by
          rw [hs]
          decide
        have := hle hact
        rw [if_neg hne]
        omega
    · rcases hneg with ⟨hs, -⟩ | ⟨hs, hle, -⟩
      · rw [if_pos hs]
        omega
      · have hne : SI.sign ≠ nul := by
          rw [hs]
          decide
        rw [if_neg hne]
        omega
  · have hbody : extended SI (clippedPrec SI (resolve SI W P).2.1).2
        (codeText lib k bytes signbit digits SI (resolve SI W P).2.1) =
        digitText digits SI (resolve SI W P).2.1 := by
      rw [codeText_of_fits hholds.fits, if_neg hminus, digitText]
    have hsize := hholds.size_le
    rw [codeField_eq hSI hbody (by omega)]
    exact ⟨_, text_floatParts _ _ _ _, oneSign_codeField h hSI hminus⟩

/-- When the field is right. -/
lemma floatField_iff (h : PrintsFloat lib k bytes SI.flags.longdbl signbit digits)
    (hSI : IsFloatSpec SI) (W P : ℤ) :
    FloatField SI W signbit (digitText digits SI (resolve SI W P).2.1)
        (codeField lib k bytes signbit digits SI W P) ↔
      SignHolds SI W signbit (lib.fpclassify k bytes = .zero)
        (magnitude digits SI (resolve SI W P).2.1)
        (digitText digits SI (resolve SI W P).2.1) :=
  ⟨signHolds_of_floatField h hSI, floatField_of_signHolds h hSI⟩

lemma ascii_codeField (h : PrintsFloat lib k bytes SI.flags.longdbl signbit digits)
    (hSI : IsFloatSpec SI) (W P : ℤ) :
    ∀ c ∈ codeField lib k bytes signbit digits SI W P, c.toNat < 128 := by
  have hrep : ∀ {p : Prop} [Decidable p] {n : ℕ} {a c : Char}, a.toNat < 128 →
      (c ∈ if p then List.replicate n a else []) → c.toNat < 128 := by
    intro p _ n a c ha hc
    rw [eq_of_mem_ite_replicate hc]
    exact ha
  intro c hc
  rw [codeField, floatField] at hc
  simp only [List.mem_append] at hc
  rcases hc with (((hc | hc) | hc) | hc) | hc
  · exact hrep (by decide) hc
  · split_ifs at hc
    · rw [List.mem_singleton.mp hc, codeSign]
      split_ifs
      · decide
      · rcases hSI.sign_eq with hs | hs | hs <;> rw [hs] <;> decide
    · exact absurd hc List.not_mem_nil
  · exact hrep (by decide) hc
  · rw [extended] at hc
    split_ifs at hc
    · simp only [List.mem_append] at hc
      rcases hc with (hc | hc) | hc
      · exact ascii_codeText h _ c ((List.takeWhile_sublist _).subset hc)
      · rw [List.eq_of_mem_replicate hc]
        decide
      · exact ascii_codeText h _ c ((List.dropWhile_sublist _).subset hc)
    · rcases List.mem_append.mp hc with hc | hc
      · exact ascii_codeText h _ c hc
      · rw [List.eq_of_mem_replicate hc]
        decide
  · exact hrep (by decide) hc

/-- **Floating point fields.** What is printed for a finite number is one field, and it has one
sign in front of its zeros exactly if the digits fit the buffer, the sizes are `int`s and the
number is not a negative zero with a sign flag or with zeros in front. -/
theorem converterSingle_oneSign (h : PrintsFloat lib k bytes SI.flags.longdbl signbit digits)
    (hSI : IsFloatSpec SI) {arg : Arg} (harg : arg.type = .flt k) (hbytes : arg.bytes = bytes)
    (fmt : List Char) (W P : ℤ) :
    ∃ field : List Char, (∀ c ∈ field, c.toNat < 128) ∧
      (∀ out, converterSingle lib fmt SI arg W P out =
        out.write (literalText fmt SI ++ charBytes field)) ∧
      (FloatField SI W signbit (digitText digits SI (resolve SI W P).2.1) field ↔
        SignHolds SI W signbit (lib.fpclassify k bytes = .zero)
          (magnitude digits SI (resolve SI W P).2.1)
          (digitText digits SI (resolve SI W P).2.1)) :=
  ⟨codeField lib k bytes signbit digits SI W P, ascii_codeField h hSI W P,
    converterSingle_float h hSI harg hbytes fmt W P, floatField_iff h hSI W P⟩

end Finite

/-! ### Negative zero -/

/-- The digits of zero. -/
def zeroDigits (format : CharsFormat) (prec : ℤ) : List Char :=
  let fraction (n : ℕ) := if n = 0 then [] else '.' :: List.replicate n '0'
  let n := if prec < 0 then 6 else prec.toNat
  match format with
  | .fixed => '0' :: fraction n
  | .scientific => '0' :: fraction n ++ ['e', '+', '0', '0']
  | .hex => '0' :: fraction prec.toNat ++ ['p', '+', '0']
  | .general => ['0']

/-- The sign bit of a number in the memory. -/
def topBit (bytes : List UInt8) : Bool := bytes.getLast?.any (128 ≤ ·)

/-- A library whose only floating point numbers are the two zeros. -/
def zeroLib : CLib :=
  { CLib.ascii with
    abs := fun _ bytes => bytes.map fun _ => 0
    toChars := fun _ bytes _ format prec size =>
      fitText (if topBit bytes then '-' :: zeroDigits format prec else zeroDigits format prec)
        size }

/-- The double -0.0. -/
def negZero : Arg where
  type := .flt .double
  bytes := [0, 0, 0, 0, 0, 0, 0, 128]
  length_bytes := rfl

lemma mem_fraction {n : ℕ} {c : Char}
    (hc : c ∈ '0' :: (if n = 0 then [] else '.' :: List.replicate n '0')) : c = '0' ∨ c = '.' := by
  rcases List.mem_cons.mp hc with rfl | hc
  · exact .inl rfl
  · split_ifs at hc
    · exact absurd hc List.not_mem_nil
    · rcases List.mem_cons.mp hc with rfl | hc
      · exact .inr rfl
      · exact .inl (List.eq_of_mem_replicate hc)

/-- The characters of zero. -/
lemma mem_zeroDigits {format : CharsFormat} {prec : ℤ} {c : Char}
    (hc : c ∈ zeroDigits format prec) : c ∈ ['0', '.', 'e', 'p', '+'] := by
  cases format with
  | fixed => rcases mem_fraction hc with rfl | rfl <;> decide
  | scientific =>
      rcases List.mem_append.mp hc with hc | hc
      · rcases mem_fraction hc with rfl | rfl <;> decide
      · fin_cases hc <;> decide
  | hex =>
      rcases List.mem_append.mp hc with hc | hc
      · rcases mem_fraction hc with rfl | rfl <;> decide
      · fin_cases hc <;> decide
  | general =>
      rw [List.mem_singleton.mp hc]
      decide

lemma printsFloat_negZero :
    PrintsFloat zeroLib .double negZero.bytes false true zeroDigits := by
  constructor
  case finite => exact .inl rfl
  case isNegative_iff => simp [zeroLib, CLib.ascii]
  case toChars_eq =>
    intro format prec size
    rfl
  case toChars_abs =>
    intro _ format prec size
    rfl
  case ascii =>
    intro format prec c hc
    have hall := mem_zeroDigits hc
    fin_cases hall <;> decide
  case exponent =>
    intro t ht prec
    have hsci : ∀ n exp, exp ≠ '0' → exp ≠ '.' →
        exp ∉ '0' :: (if n = 0 then [] else '.' :: List.replicate n '0') := by
      intro n exp h0 hp hmem
      exact (mem_fraction hmem).elim h0 hp
    simp only [hasExp, Bool.or_eq_true, beq_iff_eq] at ht
    rcases ht with ((rfl | rfl) | rfl) | rfl
    · exact ⟨_, ['+', '0', '0'], rfl, hsci _ _ (by decide) (by decide), by decide, by decide⟩
    · exact ⟨_, ['+', '0', '0'], rfl, hsci _ _ (by decide) (by decide), by decide, by decide⟩
    · exact ⟨_, ['+', '0'], rfl, hsci _ _ (by decide) (by decide), by decide, by decide⟩
    · exact ⟨_, ['+', '0'], rfl, hsci _ _ (by decide) (by decide), by decide, by decide⟩
  case point =>
    intro format prec hlen
    cases format with
    | fixed =>
        refine ⟨'.', ?_, by decide, by decide, by decide, by decide⟩
        simp only [zeroDigits] at hlen ⊢
        split_ifs at hlen ⊢ <;> simp_all
    | scientific =>
        refine ⟨'e', List.mem_append_right _ (by decide), by decide, by decide, by decide,
          by decide⟩
    | hex =>
        refine ⟨'p', List.mem_append_right _ (by decide), by decide, by decide, by decide,
          by decide⟩
    | general => exact absurd hlen (lt_irrefl 1)

/-- `%f` of -0.0 has one sign. -/
theorem converterSingle_oneSign_negZero :
    ∃ field : List Char, (∀ c ∈ field, c.toNat < 128) ∧
      (∀ out, converterSingle zeroLib [] { terminal := 'f' } negZero 0 (-1) out =
        out.write (charBytes field)) ∧
      FloatField { terminal := 'f' } 0 true "0.000000".toList field := by
  obtain ⟨field, hascii, hprints, hiff⟩ := converterSingle_oneSign printsFloat_negZero
    (show IsFloatSpec { terminal := 'f' } from ⟨rfl, rfl, .inl rfl, .inr (by decide)⟩) rfl rfl []
    0 (-1)
  have hholds : SignHolds { terminal := 'f' } 0 true
      (zeroLib.fpclassify .double negZero.bytes = .zero)
      (magnitude zeroDigits { terminal := 'f' } (-1)) "0.000000".toList :=
    { width_neg := by decide
      size_le := by decide
      fits := by decide
      negZero := fun _ _ => .inl ⟨rfl, fun hzero => absurd hzero.1 (by decide)⟩ }
  exact ⟨field, hascii, hprints, hiff.mpr hholds⟩

/-- `%+f` prints "+-0.000000" for -0.0. -/
theorem converterSingle_plusNegZero :
    (∀ out, converterSingle zeroLib [] { sign := '+', terminal := 'f' } negZero 0 (-1) out =
      out.write (literalText [] { sign := '+', terminal := 'f' } ++
        charBytes "+-0.000000".toList)) ∧
      ¬FloatField { sign := '+', terminal := 'f' } 0 true "0.000000".toList
        "+-0.000000".toList := by
  have hSI : IsFloatSpec { sign := '+', terminal := 'f' } :=
    ⟨rfl, rfl, .inr (.inl rfl), .inr (by decide)⟩
  constructor
  · intro out
    exact converterSingle_float printsFloat_negZero hSI rfl rfl [] 0 (-1) out
  · intro h
    obtain ⟨f, htext, hone⟩ := h.parts
    have hfirst := hone.firstShown_eq
    rw [htext] at hfirst
    exact absurd hfirst (by decide)

end ConstexprFmtStr
