import Mathlib.Tactic
import ConstexprFmtStr.Format.IntRange

/-!
What the width of a specifier does, whatever the conversion.

* `Field.Sound`: what every conversion leaves in the locals of `converter_single` (`convert_sound`).
* `Field.signText`, `Field.bodyText`: a field without its padding; `Field.realsz_eq` is its length.
* `padded`: a sign and a body, padded to a number of bytes.
* `converterSingle_padded`: for all widths, static or dynamic, a conversion prints the same sign and
  the same body, padded to the width and never cut.
-/

namespace ConstexprFmtStr

open Slice Word

/-! ### What a conversion leaves behind -/

/-- What the conversions promise of their field: the characters are there, zeros are only added to
floating point digits, the precision is the one that was asked for, and of the flags only '0' is
taken back. -/
structure Field.Sound (SI : SpecInfo) (P : ℤ) (flags : Flags) (f : Field) : Prop where
  size_le : ∀ bs, f.src = .buf bs → f.size ≤ bs.length
  fpprec_nonneg : 0 ≤ f.fpprec
  fpprec_zero : isFloatTerminal SI.terminal = false → f.fpprec = 0
  prec_eq : isIntTerminal SI.terminal = true → f.P = P
  flags_eq : f.flags = flags ∨ f.flags = { flags with zeropad := false }

/-- Before the '\0' there is none. -/
lemma ne_zero_of_lt_nulIndex {mem : Mem} {n a i : ℕ} (h : i < nulIndex mem n a) :
    mem (a + i) ≠ 0 := by
  induction n generalizing a i with
  | zero => exact absurd h (Nat.not_lt_zero i)
  | succ n ih =>
      rw [nulIndex] at h
      split_ifs at h with h0
      · exact absurd h (Nat.not_lt_zero i)
      cases i with
      | zero => exact h0
      | succ i =>
          have hrest := ih (a := a + 1) (i := i) (by omega)
          rwa [Nat.add_assoc, Nat.add_comm 1] at hrest

/-- The search for the '\0' stays among the characters. -/
lemma nulIndex_getD_le (bs : List UInt8) (n : ℕ) :
    nulIndex (fun i => bs.getD i 0) n 0 ≤ bs.length := by
  by_contra hlt
  refine ne_zero_of_lt_nulIndex (not_le.mp hlt) ?_
  simp

lemma clipPrec_snd_nonneg (P maxFract : ℤ) : 0 ≤ (clipPrec P maxFract).2 := by
  rw [clipPrec]
  split_ifs
  · dsimp only
    omega
  · exact le_rfl

lemma floatText_fpprec_nonneg (lib : CLib) (SI : SpecInfo) (k : FloatKind) (isZero : Bool)
    (arg : List UInt8) (P : ℤ) : 0 ≤ (floatText lib SI k isZero arg P).2.1 := by
  simp only [floatText]
  split_ifs
  · exact clipPrec_snd_nonneg _ _
  all_goals first | exact clipPrec_snd_nonneg _ _ | exact le_rfl

lemma sound_convertInteger {SI : SpecInfo} {arg : Arg} {P : ℤ} {flags : Flags} {sign : Char}
    {f : Field} (h : convertInteger SI arg P flags sign = some f) : f.Sound SI P flags := by
  rw [convertInteger] at h
  by_cases hp : SI.terminal = 'p' ∧ arg.type.toVoidPtr = true
  · rw [if_pos hp] at h
    obtain rfl := Option.some.inj h
    refine ⟨fun bs hbs => ?_, le_rfl, fun _ => rfl, fun hint => ?_, .inr rfl⟩
    · obtain rfl := CharSrc.buf.inj hbs
      simp only [length_charBytes, pointerText, List.length_append, List.length_replicate]
      omega
    · rw [hp.1] at hint
      exact absurd hint (by decide)
  · rw [if_neg hp] at h
    cases ht : arg.type with
    | int t =>
        rw [ht] at h
        obtain ⟨⟨cp, sign'⟩, -, hf⟩ := Option.bind_eq_some_iff.mp h
        obtain rfl := Option.some.inj hf
        refine ⟨fun bs hbs => ?_, le_rfl, fun _ => rfl, fun _ => rfl, ?_⟩
        · obtain rfl := CharSrc.buf.inj hbs
          rw [length_charBytes]
        · dsimp only
          split_ifs
          · exact .inr rfl
          · exact .inl rfl
    | _ => simp [ht] at h

lemma sound_convertFloat {lib : CLib} {SI : SpecInfo} (hfloat : isFloatTerminal SI.terminal = true)
    (hint : isIntTerminal SI.terminal = false) {arg : Arg} {P : ℤ} {flags : Flags} {sign : Char}
    {f : Field} (h : convertFloat lib SI arg P flags sign = some f) : f.Sound SI P flags := by
  have hnot : isFloatTerminal SI.terminal = false → ∀ p : ℤ, p = 0 := by
    intro h
    rw [hfloat] at h
    cases h
  have hnotInt : isIntTerminal SI.terminal = true → ∀ p : ℤ, p = P := by
    intro h
    rw [hint] at h
    cases h
  rw [convertFloat] at h
  cases ht : arg.type with
  | flt k =>
      simp only [ht] at h
      have hfinite (isZero : Bool) (value : List UInt8) (sign : Char) :
          let r := floatText lib SI k isZero value P
          Field.Sound SI P flags
            ⟨.buf (charBytes r.1), r.1.length, P, r.2.1, r.2.2, flags, sign⟩ := by
        refine ⟨fun bs hbs => ?_, floatText_fpprec_nonneg lib SI k isZero value P,
          fun h => hnot h _, fun _ => rfl, .inl rfl⟩
        obtain rfl := CharSrc.buf.inj hbs
        rw [length_charBytes]
      cases hc : lib.fpclassify k arg.bytes <;> simp only [hc] at h
      case other => exact absurd h (by simp)
      case infinite =>
        obtain rfl := Option.some.inj h
        refine ⟨fun bs hbs => ?_, le_rfl, fun _ => rfl, fun _ => rfl, .inr rfl⟩
        obtain rfl := CharSrc.buf.inj hbs
        rw [length_charBytes]
        split_ifs <;> exact le_rfl
      case nan =>
        obtain rfl := Option.some.inj h
        refine ⟨fun bs hbs => ?_, le_rfl, fun _ => rfl, fun _ => rfl, .inr rfl⟩
        obtain rfl := CharSrc.buf.inj hbs
        rw [length_charBytes]
        split_ifs <;> exact le_rfl
      all_goals
        obtain rfl := Option.some.inj h
        exact hfinite _ _ _
  | _ => simp [ht] at h

lemma convertString_size {lib : CLib} {SI : SpecInfo} {arg : Arg} {P : ℤ} {mem : Mem}
    {src : CharSrc} {size : ℕ} (h : convertString lib SI arg P mem = some (src, size)) :
    size = src.nulIndex mem (if 0 ≤ P then P.toNat else 2 ^ 64) := by
  rw [convertString] at h
  generalize (if 0 ≤ P then P.toNat else 2 ^ 64) = n at h ⊢
  have hfound {found : Option CharSrc}
      (h : (found.bind fun src => some (src, src.nulIndex mem n)) = some (src, size)) :
      size = src.nulIndex mem n := by
    obtain ⟨src', -, hsrc⟩ := Option.bind_eq_some_iff.mp h
    simp only [Option.some.injEq, Prod.mk.injEq] at hsrc
    obtain ⟨rfl, rfl⟩ := hsrc
    rfl
  split_ifs at h <;> exact hfound h

/-- **Every conversion** keeps the promise. -/
lemma convert_sound {lib : CLib} {SI : SpecInfo} {arg : Arg} {P : ℤ} {flags : Flags} {mem : Mem}
    {f : Field} (h : convert lib SI arg P flags mem = some f) : f.Sound SI P flags := by
  rw [convert] at h
  split_ifs at h with hc hs hint hfloat
  · obtain ⟨cp, -, hf⟩ := Option.bind_eq_some_iff.mp h
    obtain rfl := Option.some.inj hf
    exact ⟨fun bs hbs => by rw [CharSrc.buf.inj hbs], le_rfl, fun _ => rfl, fun _ => rfl, .inl rfl⟩
  · obtain ⟨⟨cp, size⟩, hcp, hf⟩ := Option.bind_eq_some_iff.mp h
    obtain rfl := Option.some.inj hf
    refine ⟨fun bs hbs => ?_, le_rfl, fun _ => rfl, fun _ => rfl, .inl rfl⟩
    rw [convertString_size hcp, show cp = .buf bs from hbs]
    exact nulIndex_getD_le bs _
  · exact sound_convertInteger h
  · rw [not_or] at hint
    exact sound_convertFloat hfloat (by simpa using hint.1) h
  · obtain rfl := Option.some.inj h
    exact ⟨fun bs hbs => Nat.zero_le _, le_rfl, fun _ => rfl, fun _ => rfl, .inl rfl⟩

/-- A conversion hands the '-' flag through, and does nothing else with it. -/
def Field.setLeft (left : Bool) (f : Field) : Field :=
  { f with flags := { f.flags with ladjust := left } }

lemma convert_setLeft (lib : CLib) (SI : SpecInfo) (arg : Arg) (P : ℤ) (flags : Flags) (left : Bool)
    (mem : Mem) : convert lib SI arg P { flags with ladjust := left } mem =
      (convert lib SI arg P flags mem).map (Field.setLeft left) := by
  have hinteger : convertInteger SI arg P { flags with ladjust := left } SI.sign =
      (convertInteger SI arg P flags SI.sign).map (Field.setLeft left) := by
    simp only [convertInteger]
    split_ifs
    · rfl
    all_goals
      cases arg.type with
      | int t =>
          dsimp only
          cases integerText SI (Arg.intValue t arg.bytes) SI.sign <;> rfl
      | _ => rfl
  have hfloat : convertFloat lib SI arg P { flags with ladjust := left } SI.sign =
      (convertFloat lib SI arg P flags SI.sign).map (Field.setLeft left) := by
    simp only [convertFloat]
    cases arg.type with
    | flt k =>
        dsimp only
        cases lib.fpclassify k arg.bytes <;> rfl
    | _ => rfl
  simp only [convert]
  split_ifs
  · cases convertChar lib SI arg <;> rfl
  · cases convertString lib SI arg P mem <;> rfl
  · exact hinteger
  · exact hfloat
  · rfl

/-! ### A field without its padding -/

/-- The sign of a field. -/
def Field.signText (SI : SpecInfo) (f : Field) : List UInt8 :=
  if isSignedTerminal SI.terminal ∧ f.sign ≠ nul then [f.sign.toUInt8] else []

/-- What stands behind the sign and the zeros of the '0' flag. -/
def Field.bodyText (SI : SpecInfo) (mem : Mem) (f : Field) : List UInt8 :=
  (if isIntTerminal SI.terminal then
      List.replicate (wrapS 32 (u64Sub (wrapU 64 f.P) f.size)).toNat '0'.toUInt8 else []) ++
    (f.texts SI mem).1 ++
    (if isFloatTerminal SI.terminal then List.replicate f.fpprec.toNat '0'.toUInt8 else []) ++
    (if f.splitsExp SI then (f.texts SI mem).2 else [])

/-- A sign and a body, padded to `n` bytes. -/
def padded (sign body : List UInt8) (left zeropad : Bool) (n : ℕ) : List UInt8 :=
  let pad (c : Char) := List.replicate (n - (sign.length + body.length)) c.toUInt8
  if left then sign ++ body ++ pad ' '
  else if zeropad then sign ++ pad '0' ++ body
  else pad ' ' ++ sign ++ body

/-- A field is its sign and its body, padded. -/
lemma fieldBytes_eq_padded {SI : SpecInfo} {W : ℤ} {f : Field} {mem : Mem}
    (hsize : f.realsz SI = (f.signText SI).length + (f.bodyText SI mem).length) :
    fieldBytes SI W f (f.texts SI mem) =
      padded (f.signText SI) (f.bodyText SI mem) f.flags.ladjust f.flags.zeropad W.toNat := by
  have hpad : (W - f.realsz SI).toNat =
      W.toNat - ((f.signText SI).length + (f.bodyText SI mem).length) := by
    omega
  simp only [fieldBytes, padded, hpad, Field.signText, Field.bodyText]
  cases f.flags.ladjust <;> cases f.flags.zeropad <;> simp

/-- The characters of a field are as many as its size says. -/
lemma Field.Sound.length_texts {SI : SpecInfo} {P : ℤ} {flags : Flags} {f : Field}
    (h : f.Sound SI P flags) (mem : Mem) :
    (f.texts SI mem).1.length + (if f.splitsExp SI then (f.texts SI mem).2 else []).length =
      f.size := by
  have hread : (f.src.read mem f.size).length = f.size := by
    cases hsrc : f.src with
    | ptr a => exact length_slice mem a f.size
    | buf bs => exact (List.length_take ..).trans (min_eq_left (h.size_le bs hsrc))
  rw [Field.texts]
  split_ifs
  · rw [← List.length_append, List.take_append_drop, hread]
  · rw [hread]
    rfl

lemma int_not_float {t : Char} (h : isIntTerminal t = true) : isFloatTerminal t = false := by
  simp only [isIntTerminal, Bool.or_eq_true, beq_iff_eq] at h
  rcases h with ((((rfl | rfl) | rfl) | rfl) | rfl) | rfl <;> rfl

/-- The conversions to 64 bits in `P - size` do not show in an `int`. -/
lemma wrapS_u64Sub (P : ℤ) (size : ℕ) :
    wrapS 32 (u64Sub (wrapU 64 P) size) = wrapS 32 (P - size) := by
  rw [u64Sub, wrapS_wrapU (by norm_num)]
  refine wrapS_congr ?_
  rw [natCast_wrapU, Int.sub_emod, Int.emod_emod_of_dvd _ (by norm_num), ← Int.sub_emod]

/-- **`realsz` is the length of the field**, if that is an `int`. -/
lemma Field.Sound.realsz_eq {SI : SpecInfo} {P : ℤ} {flags : Flags} {f : Field}
    (h : f.Sound SI P flags) (hP : -1 ≤ P ∧ P ≤ intMax) {mem : Mem}
    (hfits : (f.signText SI).length + (f.bodyText SI mem).length < 2 ^ 31) :
    f.realsz SI = (f.signText SI).length + (f.bodyText SI mem).length := by
  have htexts := h.length_texts mem
  have hsize : f.size ≤ (f.bodyText SI mem).length := by
    simp only [Field.bodyText, List.length_append]
    omega
  have hwrap : wrapS 32 f.size = f.size := wrapS_of_bounds (by omega) (by omega)
  have hsign : (if isSignedTerminal SI.terminal ∧ f.sign ≠ nul then (1 : ℤ) else 0) =
      (f.signText SI).length := by
    rw [Field.signText]
    split_ifs <;> rfl
  have hbody : (if isIntTerminal SI.terminal then if wrapS 32 f.size < f.P then f.P
        else wrapS 32 f.size
      else if isFloatTerminal SI.terminal then wrapS 32 (f.size + f.fpprec)
      else wrapS 32 f.size) = (f.bodyText SI mem).length := by
    by_cases hint : isIntTerminal SI.terminal = true
    · have hfloat : isFloatTerminal SI.terminal = false := int_not_float hint
      have hzeros : wrapS 32 (u64Sub (wrapU 64 f.P) f.size) = P - f.size := by
        rw [h.prec_eq hint, wrapS_u64Sub]
        exact wrapS_of_bounds (by omega) (by simp only [intMax] at hP; omega)
      have hlen : (f.bodyText SI mem).length = (P - f.size).toNat + f.size := by
        rw [Field.bodyText, hzeros]
        simp only [hint, hfloat, if_true, Bool.false_eq_true, if_false, List.length_append,
          List.length_replicate, List.append_nil]
        omega
      rw [if_pos hint, hwrap, h.prec_eq hint, hlen]
      split_ifs <;> omega
    · rw [if_neg hint]
      by_cases hfloat : isFloatTerminal SI.terminal = true
      · have hnonneg := h.fpprec_nonneg
        have hlen : (f.bodyText SI mem).length = f.size + f.fpprec.toNat := by
          simp only [Field.bodyText, hint, hfloat, if_true, Bool.false_eq_true, if_false,
            List.length_append, List.length_replicate, List.nil_append]
          omega
        rw [if_pos hfloat, wrapS_of_bounds (by omega) (by omega)]
        omega
      · simp only [Field.bodyText, hint, hfloat, Bool.false_eq_true, if_false, hwrap,
          List.length_append, List.nil_append, List.append_nil]
        omega
  rw [← hbody, ← hsign, Field.realsz]
  split_ifs <;> omega

/-! ### All widths -/

lemma resolve_flags (SI : SpecInfo) (W P : ℤ) :
    (resolve SI W P).2.2 = SI.flags ∨ (resolve SI W P).2.2 = { SI.flags with ladjust := true } := by
  rw [resolve]
  split_ifs
  all_goals first | exact .inl rfl | exact .inr rfl

/-- The field for one width. -/
lemma emitted_eq_padded {lib : CLib} {SI : SpecInfo} {arg : Arg} {W P : ℤ} {mem : Mem} {f : Field}
    (fmt : List Char) (hSI : SI.FitsInt) (hP : IsInt P)
    (hf : convert lib SI arg (resolve SI W P).2.1 SI.flags mem = some f)
    (hfits : (f.signText SI).length + (f.bodyText SI mem).length < 2 ^ 31) :
    emitted lib fmt SI arg W P mem = literalText fmt SI ++
      padded (f.signText SI) (f.bodyText SI mem)
        (SI.flags.ladjust || decide (givenWidth SI W < 0)) f.flags.zeropad
        (givenWidth SI W).natAbs := by
  have hsound := convert_sound hf
  have hsize := hsound.realsz_eq (resolve_prec_bounds hSI W hP) hfits
  have hleft : f.flags.ladjust = SI.flags.ladjust := by
    rcases hsound.flags_eq with hflags | hflags <;> rw [hflags]
  obtain ⟨habs, hflags⟩ := resolve_width (hSI.width.imp id And.left) W P
  have hnat : (resolve SI W P).1.toNat = (givenWidth SI W).natAbs := by
    rw [habs, Int.abs_eq_natAbs, Int.toNat_natCast]
  rw [emitted]
  dsimp only
  by_cases hneg : givenWidth SI W < 0
  · rw [if_pos hneg] at hflags
    rw [hflags, convert_setLeft, hf, Option.map_some, decide_eq_true hneg, Bool.or_true, ← hnat]
    exact congrArg _ (fieldBytes_eq_padded (f := f.setLeft true) hsize)
  · rw [if_neg hneg] at hflags
    rw [hflags, hf, decide_eq_false hneg, Bool.or_false, ← hnat, ← hleft]
    exact congrArg _ (fieldBytes_eq_padded hsize)

/-- **Padding.** For every conversion but `%n` and every argument whose string, if it has one, is
not in the free part of the buffer: if the argument does not fit the conversion, "(ER)" is printed
whatever the width. Otherwise the conversion makes a sign of at most one character and a body, and
if both are shorter than `2 ^ 31` bytes, every width, static or dynamic, prints them padded to that
many bytes: with blanks behind them for the '-' flag or a negative width, with zeros between them if
the conversion allows for the '0' flag, else with blanks in front. -/
theorem converterSingle_padded (lib : CLib) (fmt : List Char) {SI : SpecInfo}
    (hSI : SI.FitsInt) (hn : SI.terminal ≠ 'n') (arg : Arg) {P : ℤ} (hP : IsInt P)
    {out : OutbufArg}
    (hfree : ∀ i, arg.address ≤ i →
      i < arg.address + stringLength SI arg (resolve SI 0 P).2.1 out.mem → ¬out.Free i) :
    (convert lib SI arg (resolve SI 0 P).2.1 SI.flags out.mem = none →
        ∀ w W, converterSingle lib fmt { SI with width := w } arg W P out =
          out.write (literalText fmt SI ++ errorText)) ∧
      ∀ f, convert lib SI arg (resolve SI 0 P).2.1 SI.flags out.mem = some f →
        (f.signText SI).length ≤ 1 ∧ (f.flags.zeropad = true → SI.flags.zeropad = true) ∧
          ((f.signText SI).length + (f.bodyText SI out.mem).length < 2 ^ 31 →
            ∀ w W, FitsFrom 0 w → -2 ^ 31 < W → W ≤ intMax →
              converterSingle lib fmt { SI with width := w } arg W P out =
                out.write (literalText fmt SI ++ padded (f.signText SI) (f.bodyText SI out.mem)
                  (SI.flags.ladjust || decide (givenWidth { SI with width := w } W < 0))
                  f.flags.zeropad (givenWidth { SI with width := w } W).natAbs)) := by
  have hresolve (w W : ℤ) :
      (resolve { SI with width := w } W P).2.1 = (resolve SI 0 P).2.1 := by
    rw [resolve_prec, resolve_prec]
  have heq (w W : ℤ) : converterSingle lib fmt { SI with width := w } arg W P out =
      out.write (emitted lib fmt { SI with width := w } arg W P out.mem) := by
    refine @converterSingle_eq lib fmt { SI with width := w } hn arg W P out fun i hi hi' => ?_
    rw [hresolve] at hi'
    exact hfree i hi hi'
  refine ⟨fun hf w W => ?_, fun f hf => ?_⟩
  · have hnone : convert lib { SI with width := w } arg (resolve { SI with width := w } W P).2.1
        (resolve { SI with width := w } W P).2.2 out.mem = none := by
      rw [hresolve]
      rcases resolve_flags { SI with width := w } W P with hflags | hflags <;> rw [hflags]
      · exact hf
      · rw [convert_setLeft]
        exact congrArg _ hf
    rw [heq, emitted]
    simp only [hnone]
    rfl
  · have hsound := convert_sound hf
    refine ⟨?_, fun hzero => ?_, fun hfits w W hw _ _ => ?_⟩
    · rw [Field.signText]
      split_ifs <;> simp
    · rcases hsound.flags_eq with hflags | hflags <;> rw [hflags] at hzero
      · exact hzero
      · cases hzero
    · rw [heq]
      refine congrArg out.write (emitted_eq_padded fmt ⟨hw, hSI.prec⟩ hP ?_ hfits)
      rw [hresolve]
      exact hf

/-- `%0*d` of -7: the zeros of the width 5 stand between the '-' and the '7', the blanks of the
width -5 behind them. -/
theorem converterSingle_padded_d :
    converterSingle CLib.ascii [nul]
        { terminal := 'd', flags := { zeropad := true }, width := dynamicWidth }
        (IntSpec.intArg (2 ^ 32 - 7)) 5 (-1) (.new (fun _ => 0) 0 8) =
      (OutbufArg.new (fun _ => 0) 0 8).write (charBytes ['-', '0', '0', '0', '7']) ∧
    converterSingle CLib.ascii [nul]
        { terminal := 'd', flags := { zeropad := true }, width := dynamicWidth }
        (IntSpec.intArg (2 ^ 32 - 7)) (-5) (-1) (.new (fun _ => 0) 0 8) =
      (OutbufArg.new (fun _ => 0) 0 8).write (charBytes ['-', '7', ' ', ' ', ' ']) := by
  have hSI : ({ terminal := 'd', flags := { zeropad := true } } : SpecInfo).FitsInt :=
    ⟨.inr ⟨le_rfl, by decide⟩, .inr ⟨le_rfl, by decide⟩⟩
  have hfree : ∀ i, (IntSpec.intArg (2 ^ 32 - 7)).address ≤ i →
      i < (IntSpec.intArg (2 ^ 32 - 7)).address +
        stringLength { terminal := 'd', flags := { zeropad := true } }
          (IntSpec.intArg (2 ^ 32 - 7))
          (resolve { terminal := 'd', flags := { zeropad := true } } 0 (-1)).2.1
          (OutbufArg.new (fun _ => 0) 0 8).mem →
      ¬(OutbufArg.new (fun _ => 0) 0 8).Free i := by
    intro i hi hi'
    rw [stringLength, if_pos (.inl (by decide))] at hi'
    omega
  obtain ⟨-, hall⟩ := converterSingle_padded CLib.ascii [nul] hSI (by decide)
    (IntSpec.intArg (2 ^ 32 - 7)) (P := -1) ⟨by decide, by decide⟩ hfree
  obtain ⟨-, -, hprints⟩ := hall _ rfl
  exact ⟨hprints (by decide) dynamicWidth 5 (.inl rfl) (by decide) (by decide),
    hprints (by decide) dynamicWidth (-5) (.inl rfl) (by decide) (by decide)⟩

end ConstexprFmtStr
